/-
  MythLab.Discovery.WindowsArp — the neighbour cache and ARP, as Windows hands them over.

  `GetIpNetTable` writes a table of rows into memory that the code allocated: a count, and
  rows of 24 bytes. What it answers is `Native`'s; a read outside the memory is told apart
  from what the code throws. A row is kept when it is a dynamic or static entry with a
  six-byte unicast address that is not all zeros.

  Proved, whatever the memory holds:
  - `tables_have_one_reading`: memory reads as a table in at most one way; it is accepted
    exactly when it begins with a count and that many rows, and each kept row has an
    interface index that is an `int`; the result is the kept rows, in their order.
  - `neighbors_read_safely`: three tables are asked for at most; no read leaves the
    memory, as long as Windows reports success only where the count fits; and every entry
    is one the scan can use: its address is in canonical form and its MAC address is
    normal and usable.
-/
import MythLab.Lib.LittleEndian
import MythLab.Discovery.AddressTexts
import MythLab.Devices.HardwareAddresses

namespace MythLab.Discovery.WindowsArp

open Lib Dotnet Devices

/-! ## Memory -/

/-- Reading outside the allocated memory, or an exception. -/
inductive Failure where
  | outside
  | throws (e : Exn)
  deriving DecidableEq, Repr

def throws {α : Type} (e : Exn) : Except Failure α := .error (.throws e)

/-- `checked((int)n)` -/
def checkedInt (n : Nat) : Except Failure Nat :=
  if n ≤ 2147483647 then pure n else throws (.other "OverflowException")

/-- `Marshal.ReadInt32`, as a `uint`. -/
def readInt32 (memory : List UInt8) (position : Nat) : Except Failure Nat :=
  if position + 4 ≤ memory.length then pure (ofLittleEndian ((memory.drop position).take 4)) else .error .outside

/-! ## Rows -/

/-- `Marshal.OffsetOf<Table>(nameof(Table.First))` -/
def offset : Nat := 4

/-- `Marshal.SizeOf<Row>()` -/
def stride : Nat := 24

structure Row where
  index : Nat
  macLength : Nat
  mac : List UInt8
  /-- The four bytes of the address, in their order. -/
  address : List UInt8
  type : Nat
  index_lt : index < 2 ^ 32
  macLength_lt : macLength < 2 ^ 32
  mac_length : mac.length = 8
  address_length : address.length = 4
  type_lt : type < 2 ^ 32

/-- A row as it stands in memory. -/
def Row.bytes (row : Row) : List UInt8 :=
  littleEndian 4 row.index ++ littleEndian 4 row.macLength ++ row.mac ++ row.address ++ littleEndian 4 row.type

theorem ofLittleEndian_four {bs : List UInt8} (h : bs.length = 4) : ofLittleEndian bs < 2 ^ 32 := by
  have hlt := ofLittleEndian_lt bs
  rw [h] at hlt
  exact hlt

/-- `Marshal.PtrToStructure<Row>`, of the bytes there. -/
def Row.ofBytes (bs : List UInt8) (h : bs.length = stride) : Row where
  index := ofLittleEndian (bs.take 4)
  macLength := ofLittleEndian ((bs.drop 4).take 4)
  mac := (bs.drop 8).take 8
  address := (bs.drop 16).take 4
  type := ofLittleEndian ((bs.drop 20).take 4)
  index_lt := ofLittleEndian_four (by simp [h, stride])
  macLength_lt := ofLittleEndian_four (by simp [h, stride])
  mac_length := by simp [h, stride]
  address_length := by simp [h, stride]
  type_lt := ofLittleEndian_four (by simp [h, stride])

def isUnicast (mac : List UInt8) : Bool := mac.headD 0 &&& 1 = 0 && mac.any (· ≠ 0)

/-- `Convert.ToHexString` -/
def toHexString (bs : List UInt8) : Str := bs.flatMap formatX2

def Row.isKept (row : Row) : Bool :=
  (row.type = 3 || row.type = 4) && row.macLength = 6 && isUnicast (row.mac.take 6)

/-- What the loop adds for a row. -/
def Row.entry (row : Row) : Except Failure (Option NeighborEntry) :=
  if row.isKept = false then pure none
  else do
    -- `IPAddress.ToString`, of the bytes in their order
    let address := join [chr '.'] (row.address.map fun b => decimal b.toNat)
    let index ← checkedInt row.index
    match MacAddress.normalize (toHexString (row.mac.take 6)) with
    | .ok mac => pure (some ⟨index, address, mac⟩)
    | .error e => throws e

def readRow (memory : List UInt8) (position : Nat) : Except Failure Row :=
  if h : position + stride ≤ memory.length then
    pure (Row.ofBytes ((memory.drop position).take stride) (by rw [List.length_take, List.length_drop]; omega))
  else .error .outside

/-! ## Tables -/

/-- The loop, with `n` rows left from the `i`-th on. -/
def readRows (memory : List UInt8) : Nat → Nat → Except Failure (List NeighborEntry)
  | _, 0 => pure []
  | i, n + 1 => do
    let position ← checkedInt (offset + i * stride)
    let row ← readRow memory position
    let entry ← row.entry
    let rest ← readRows memory (i + 1) n
    pure (entry.toList ++ rest)

/-- What is done with a table that was written. -/
def readTable (memory : List UInt8) : Except Failure (List NeighborEntry) := do
  let count ← readInt32 memory 0
  -- in 64 bits, where neither the product nor the sum wraps
  if offset + count * stride > memory.length then throws (.invalidData "ARP table size is inconsistent.")
  else readRows memory 0 count

/-- How `GetIpNetTable` answers: its status, the size it reports, and the memory it was given. -/
structure Answer (allocated : Nat) where
  status : UInt32
  size : UInt32
  memory : List UInt8
  memory_length : memory.length = allocated

/-- Windows: its answer to the null pointer, and to each call with allocated memory. -/
structure Native where
  sizes : UInt32 × UInt32
  tables : (attempt : Nat) → (size : UInt32) → Answer size.toNat

def insufficientBuffer : UInt32 := 122

def noData : UInt32 := 232

/-- `throw new Win32Exception((int)status)` -/
def win32 (status : UInt32) : Exn := .other ("Win32Exception " ++ toString status.toNat)

/-- The loop over the attempts, with `n` left from `attempt` on. -/
def readAttempts (native : Native) : Nat → Nat → UInt32 → Except Failure (List NeighborEntry)
  | _, 0, _ => throws (.io "ARP table changed repeatedly; retry discovery.")
  | attempt, n + 1, size =>
    if size > 16 * 1024 * 1024 then throws (.invalidData "ARP table is unexpectedly large.")
    else
      let answer := native.tables attempt size
      -- the table can grow between calls
      if answer.status = insufficientBuffer then readAttempts native (attempt + 1) n answer.size
      else if answer.status = noData then pure []
      else if answer.status ≠ 0 then throws (win32 answer.status)
      else readTable answer.memory

def readNeighbors (native : Native) : Except Failure (List NeighborEntry) :=
  let (status, size) := native.sizes
  if status = noData then pure []
  else if status ≠ insufficientBuffer then throws (win32 status)
  else readAttempts native 0 3 size

/-- What `SendARP` writes: its status, the length it reports, and the eight bytes. -/
structure Reply where
  status : UInt32
  length : UInt32
  bytes : List UInt8
  bytes_length : bytes.length = 8

/-- `Resolve`, of what `SendARP` writes. -/
def resolve (reply : Reply) : Except Exn (Option Str) :=
  if reply.status = 0 ∧ reply.length = 6 ∧ isUnicast (reply.bytes.take 6) = true then do
    let mac ← MacAddress.normalize (toHexString (reply.bytes.take 6))
    pure (some mac)
  else pure none

/-! ## What a row comes to -/

variable {memory bs mac : List UInt8} {row : Row} {position i n : Nat} {entries : List NeighborEntry}

/-- The entry of a row that is kept. -/
def Row.neighbor (row : Row) : Option NeighborEntry :=
  if row.isKept then
    some ⟨row.index, join [chr '.'] (row.address.map fun b => decimal b.toNat), MacAddress.format (row.mac.take 6)⟩
  else none

/-- The digits of six bytes are a spelling of them. -/
theorem normalize_toHexString (h : mac.length = 6) : MacAddress.normalize (toHexString mac) = .ok (MacAddress.format mac) := by
  have hhex : ∀ c ∈ toHexString mac, isHexDigit c = true ∧ isWhiteSpace c = false := by
    intro c hc
    obtain ⟨b, -, hb⟩ := List.mem_flatMap.mp hc
    have hspec := MacAddress.formatX2_spec b c hb
    exact ⟨hspec.1, hspec.2.1⟩
  have htrim : trim (toHexString mac) = toHexString mac :=
    trim_of_ends (fun c hc => (hhex c (List.mem_of_mem_head? hc)).2) fun c hc => (hhex c (List.mem_of_getLast? hc)).2
  have hlength : (toHexString mac).length = 12 := by
    rw [toHexString, List.length_flatMap]
    simp [formatX2, h]
  refine MacAddress.Spells.normalize ?_
  rw [htrim]
  have hspells := MacAddress.Spells.together hlength fun c hc => (hhex c hc).1
  rw [toHexString, fromHexString_formatX2] at hspells
  exact hspells

theorem checkedInt_ok_iff {k m : Nat} : checkedInt k = .ok m ↔ k ≤ 2147483647 ∧ m = k := by
  unfold checkedInt
  split
  · exact ⟨fun h => ⟨‹_›, (Except.ok.inj h).symm⟩, fun h => congrArg Except.ok h.2.symm⟩
  · exact ⟨fun h => (by cases h), fun h => absurd h.1 ‹_›⟩

theorem entry_ok_iff {o : Option NeighborEntry} : row.entry = .ok o ↔
    (row.isKept = true → row.index ≤ 2147483647) ∧ o = row.neighbor := by
  unfold Row.entry Row.neighbor
  by_cases hkept : row.isKept = true
  · have hmac : (row.mac.take 6).length = 6 := by rw [List.length_take, row.mac_length]; rfl
    rw [if_neg (by rw [hkept]; exact Bool.false_ne_true.symm), if_pos hkept, normalize_toHexString hmac]
    constructor
    · intro h
      obtain ⟨index, hindex, h⟩ := bind_ok_iff.mp h
      obtain ⟨hle, rfl⟩ := checkedInt_ok_iff.mp hindex
      exact ⟨fun _ => hle, (Except.ok.inj h).symm⟩
    · intro ⟨hle, ho⟩
      exact bind_ok_iff.mpr ⟨row.index, checkedInt_ok_iff.mpr ⟨hle hkept, rfl⟩, congrArg Except.ok ho.symm⟩
  · rw [if_pos ((Bool.not_eq_true _).mp hkept), if_neg hkept]
    exact ⟨fun h => ⟨fun h' => absurd h' hkept, (Except.ok.inj h).symm⟩, fun h => congrArg Except.ok h.2.symm⟩

theorem entry_inside (row : Row) : row.entry ≠ .error .outside := by
  unfold Row.entry checkedInt throws
  split
  · exact fun h => (by cases h)
  · split
    · dsimp only [pure_eq_ok, ok_bind]
      split
      · exact fun h => (by cases h)
      · exact fun h => (by cases h)
    · exact fun h => (by cases h)

/-! ## Rows and their bytes -/

theorem Row.length_bytes (row : Row) : row.bytes.length = stride := by
  simp [Row.bytes, row.mac_length, row.address_length, stride]

theorem littleEndian_four (h : bs.length = 4) : littleEndian 4 (ofLittleEndian bs) = bs := by
  rw [← h]
  exact littleEndian_ofLittleEndian bs

theorem take_append_take (k m : Nat) (bs : List UInt8) : bs.take k ++ (bs.drop k).take m = bs.take (k + m) :=
  List.take_add.symm

theorem Row.bytes_ofBytes (h : bs.length = stride) : (Row.ofBytes bs h).bytes = bs := by
  have hlength : bs.length = 24 := h
  unfold Row.bytes Row.ofBytes
  dsimp only
  rw [littleEndian_four (by simp [hlength]), littleEndian_four (by simp [hlength]), littleEndian_four (by simp [hlength]),
    take_append_take, take_append_take, take_append_take, take_append_take, List.take_of_length_le (by omega)]

theorem Row.ofBytes_bytes (row : Row) : Row.ofBytes row.bytes row.length_bytes = row := by
  have hword {k : Nat} (hk : k < 2 ^ 32) : ofLittleEndian (littleEndian 4 k) = k := ofLittleEndian_littleEndian hk
  obtain ⟨index, macLength, mac, address, type, hindex, hmacLength, hmac, haddress, htype⟩ := row
  simp only [Row.ofBytes, Row.bytes, List.append_assoc, Row.mk.injEq]
  refine ⟨?_, ?_, ?_, ?_, ?_⟩
  · rw [List.take_left' (length_littleEndian 4 index), hword hindex]
  · rw [List.drop_left' (length_littleEndian 4 index), List.take_left' (length_littleEndian 4 macLength), hword hmacLength]
  · rw [← List.append_assoc, List.drop_left' (by simp), List.take_left' hmac]
  · rw [← List.append_assoc, ← List.append_assoc, List.drop_left' (by simp [hmac]), List.take_left' haddress]
  · rw [← List.append_assoc, ← List.append_assoc, ← List.append_assoc, List.drop_left' (by simp [hmac, haddress]),
      List.take_of_length_le (by simp), hword htype]

/-- A row is read where its bytes are. -/
theorem readRow_ok_iff : readRow memory position = .ok row ↔ ∃ rest, memory.drop position = row.bytes ++ rest := by
  unfold readRow
  constructor
  · intro h
    split at h
    · cases h
      refine ⟨(memory.drop position).drop stride, ?_⟩
      rw [Row.bytes_ofBytes, List.take_append_drop]
    · cases h
  · intro ⟨rest, h⟩
    have hlength := congrArg List.length h
    rw [List.length_drop, List.length_append, row.length_bytes] at hlength
    have hstride : 0 < stride := by decide
    rw [dif_pos (by omega)]
    have htake : (memory.drop position).take stride = row.bytes := by rw [h, List.take_left' row.length_bytes]
    simp only [htake, Row.ofBytes_bytes]
    rfl

/-- The loop reads the rows that stand in memory from the `i`-th on. -/
theorem readRows_ok_iff (hroom : offset + (i + n) * stride ≤ memory.length) (hsize : memory.length ≤ 2147483647) :
    readRows memory i n = .ok entries ↔ ∃ (rows : List Row) (slack : List UInt8), rows.length = n ∧
      memory.drop (offset + i * stride) = rows.flatMap Row.bytes ++ slack ∧
        (∀ row ∈ rows, row.isKept = true → row.index ≤ 2147483647) ∧ entries = rows.filterMap Row.neighbor := by
  induction n generalizing i entries with
  | zero =>
    constructor
    · intro h
      exact ⟨[], memory.drop (offset + i * stride), rfl, rfl, fun _ hrow => (by cases hrow), (Except.ok.inj h).symm⟩
    · intro ⟨rows, slack, hlength, _, _, hentries⟩
      rw [List.length_eq_zero_iff.mp hlength] at hentries
      exact congrArg Except.ok hentries.symm
  | succ n ih =>
    have hnext : i + 1 + n = i + (n + 1) := by omega
    have hposition : offset + i * stride ≤ 2147483647 := by
      rw [Nat.add_mul] at hroom
      omega
    have hstep : offset + (i + 1) * stride = offset + i * stride + stride := by rw [Nat.add_mul]; omega
    have ih' := @ih (i + 1)
    rw [hnext] at ih'
    unfold readRows
    rw [checkedInt_ok_iff.mpr ⟨hposition, rfl⟩, ok_bind]
    constructor
    · intro h
      obtain ⟨row, hrow, h⟩ := bind_ok_iff.mp h
      obtain ⟨entry, hentry, h⟩ := bind_ok_iff.mp h
      obtain ⟨rest, hrest, h⟩ := bind_ok_iff.mp h
      obtain ⟨tail, htail⟩ := readRow_ok_iff.mp hrow
      obtain ⟨hindex, rfl⟩ := entry_ok_iff.mp hentry
      obtain ⟨rows, slack, hlength, hrows, hindexes, rfl⟩ := (ih' hroom).mp hrest
      refine ⟨row :: rows, slack, by rw [List.length_cons, hlength], ?_, ?_, ?_⟩
      · rw [hstep, ← List.drop_drop, htail, List.drop_left' row.length_bytes] at hrows
        rw [htail, hrows, List.flatMap_cons, List.append_assoc]
      · intro r hr
        rcases List.mem_cons.mp hr with rfl | hr
        · exact hindex
        · exact hindexes r hr
      · rw [← Except.ok.inj h, List.filterMap_cons]
        cases row.neighbor <;> rfl
    · intro ⟨rows, slack, hlength, hrows, hindexes, hentries⟩
      obtain ⟨row, rows, rfl⟩ := List.exists_cons_of_length_eq_add_one hlength
      rw [List.flatMap_cons, List.append_assoc] at hrows
      have htail : memory.drop (offset + (i + 1) * stride) = rows.flatMap Row.bytes ++ slack := by
        rw [hstep, ← List.drop_drop, hrows, List.drop_left' row.length_bytes]
      have hrest := (ih' hroom).mpr ⟨rows, slack, Nat.succ.inj hlength, htail,
        fun r hr => hindexes r (List.mem_cons_of_mem row hr), rfl⟩
      rw [readRow_ok_iff.mpr ⟨_, hrows⟩, ok_bind, entry_ok_iff.mpr ⟨hindexes row List.mem_cons_self, rfl⟩, ok_bind,
        hrest, ok_bind, hentries, List.filterMap_cons]
      cases row.neighbor <;> rfl

/-! ## Tables -/

/-- The loop never leaves memory that the rows fit. -/
theorem readRows_inside (hroom : offset + (i + n) * stride ≤ memory.length) :
    readRows memory i n ≠ .error .outside := by
  induction n generalizing i with
  | zero => exact fun h => (by cases h)
  | succ n ih =>
    have hnext : i + 1 + n = i + (n + 1) := by omega
    have hrow : offset + i * stride + stride ≤ memory.length := by
      rw [Nat.add_mul, Nat.add_mul] at hroom
      omega
    unfold readRows readRow
    intro h
    by_cases hposition : offset + i * stride ≤ 2147483647
    · rw [checkedInt_ok_iff.mpr ⟨hposition, rfl⟩, ok_bind, dif_pos hrow, pure_eq_ok, ok_bind] at h
      rcases hentry : Row.entry (Row.ofBytes _ _) with e | entry
      · rw [hentry] at h
        cases h
        exact entry_inside _ hentry
      · rw [hentry, ok_bind] at h
        rcases hrest : readRows memory (i + 1) n with e | rest
        · rw [hrest] at h
          cases h
          exact ih (by rw [hnext]; exact hroom) hrest
        · rw [hrest] at h
          cases h
    · rw [checkedInt, if_neg hposition] at h
      cases h

theorem readInt32_ok_iff : readInt32 memory 0 = .ok n ↔
    n < 2 ^ 32 ∧ ∃ rest, memory = littleEndian 4 n ++ rest := by
  unfold readInt32
  rw [Nat.zero_add, List.drop_zero]
  constructor
  · intro h
    split at h
    · rename_i hlength
      have hfour : (memory.take 4).length = 4 := by rw [List.length_take]; omega
      cases h
      refine ⟨ofLittleEndian_four hfour, memory.drop 4, ?_⟩
      rw [littleEndian_four hfour, List.take_append_drop]
    · cases h
  · intro ⟨hlt, rest, hmemory⟩
    have hlength : 4 ≤ memory.length := by rw [hmemory]; simp
    rw [if_pos hlength, hmemory, List.take_left' (length_littleEndian 4 n)]
    exact congrArg Except.ok (ofLittleEndian_littleEndian hlt)

theorem drop_offset (n : Nat) (rest : List UInt8) : (littleEndian 4 n ++ rest).drop offset = rest :=
  List.drop_left' (length_littleEndian 4 n)

theorem flatMap_bytes_length (rows : List Row) : (rows.flatMap Row.bytes).length = rows.length * stride := by
  induction rows with
  | nil => rfl
  | cons row rows ih =>
    rw [List.flatMap_cons, List.length_append, row.length_bytes, ih, List.length_cons, Nat.add_mul, Nat.one_mul,
      Nat.add_comm]

theorem readTable_ok_iff (hsize : memory.length ≤ 16 * 1024 * 1024) : readTable memory = .ok entries ↔
    ∃ (rows : List Row) (slack : List UInt8), memory = littleEndian 4 rows.length ++ rows.flatMap Row.bytes ++ slack ∧
      (∀ row ∈ rows, row.isKept = true → row.index ≤ 2147483647) ∧ entries = rows.filterMap Row.neighbor := by
  have hrows {n : Nat} (hfits : offset + n * stride ≤ memory.length) :=
    @readRows_ok_iff memory 0 n entries (by rw [Nat.zero_add]; exact hfits) (by omega)
  unfold readTable
  constructor
  · intro h
    obtain ⟨n, hn, h⟩ := bind_ok_iff.mp h
    obtain ⟨-, rest, hmemory⟩ := readInt32_ok_iff.mp hn
    split at h
    · cases h
    · obtain ⟨rows, slack, rfl, htable, hindexes, hentries⟩ := (hrows (Nat.le_of_not_lt ‹_›)).mp h
      refine ⟨rows, slack, ?_, hindexes, hentries⟩
      rw [Nat.zero_mul, Nat.add_zero, hmemory, drop_offset] at htable
      rw [hmemory, List.append_assoc, htable]
  · intro ⟨rows, slack, hmemory, hindexes, hentries⟩
    have hlength : offset + rows.length * stride ≤ memory.length := by
      rw [hmemory, List.length_append, List.length_append, length_littleEndian, flatMap_bytes_length]
      exact Nat.le_add_right _ _
    have hcount : rows.length < 2 ^ 32 := by
      rw [offset, stride] at hlength
      omega
    rw [readInt32_ok_iff.mpr ⟨hcount, _, hmemory.trans (List.append_assoc _ _ _)⟩, ok_bind,
      if_neg (Nat.not_lt.mpr hlength)]
    refine (hrows hlength).mpr ⟨rows, slack, rfl, ?_, hindexes, hentries⟩
    rw [Nat.zero_mul, Nat.add_zero, hmemory, List.append_assoc, drop_offset]

theorem bytes_inj {other : Row} (h : row.bytes = other.bytes) : row = other := by
  rw [← Row.ofBytes_bytes row, ← Row.ofBytes_bytes other]
  simp only [h]

theorem rows_unique {rows others : List Row} {slack more : List UInt8} (hlength : rows.length = others.length)
    (h : rows.flatMap Row.bytes ++ slack = others.flatMap Row.bytes ++ more) : rows = others := by
  induction rows generalizing others with
  | nil => exact (List.length_eq_zero_iff.mp hlength.symm).symm
  | cons row rows ih =>
    obtain ⟨other, others, rfl⟩ := List.exists_cons_of_length_eq_add_one hlength.symm
    rw [List.flatMap_cons, List.flatMap_cons, List.append_assoc, List.append_assoc] at h
    obtain ⟨hrow, hrest⟩ := List.append_inj h (row.length_bytes.trans other.length_bytes.symm)
    rw [bytes_inj hrow, ih (Nat.succ.inj hlength) hrest]

/-- The memory begins with the count of the rows, and the rows. -/
def IsTable (memory : List UInt8) (rows : List Row) : Prop :=
  ∃ slack, memory = littleEndian 4 rows.length ++ rows.flatMap Row.bytes ++ slack

theorem IsTable.count_lt {rows : List Row} (h : IsTable memory rows) (hsize : memory.length ≤ 16 * 1024 * 1024) :
    rows.length < 256 ^ 4 := by
  obtain ⟨slack, hmemory⟩ := h
  have hlength := congrArg List.length hmemory
  rw [List.length_append, List.length_append, flatMap_bytes_length, stride] at hlength
  omega

theorem IsTable.unique {rows others : List Row} (h : IsTable memory rows) (h' : IsTable memory others)
    (hsize : memory.length ≤ 16 * 1024 * 1024) : rows = others := by
  have hrows := h.count_lt hsize
  have hothers := h'.count_lt hsize
  obtain ⟨slack, hmemory⟩ := h
  obtain ⟨more, hmemory'⟩ := h'
  have heq := hmemory.symm.trans hmemory'
  rw [List.append_assoc, List.append_assoc] at heq
  obtain ⟨hcount, hrest⟩ := List.append_inj heq (by rw [length_littleEndian, length_littleEndian])
  refine rows_unique ?_ hrest
  rw [← ofLittleEndian_littleEndian hrows, hcount, ofLittleEndian_littleEndian hothers]

/-- Memory has at most one reading as a table. It is accepted exactly when it has one whose kept
    rows have an interface index that is an `int`; the entries are the kept rows, in their order. -/
theorem tables_have_one_reading (memory : List UInt8) (hsize : memory.length ≤ 16 * 1024 * 1024) :
    (∀ rows others, IsTable memory rows → IsTable memory others → rows = others) ∧
      ∀ entries, readTable memory = .ok entries ↔ ∃ rows, IsTable memory rows ∧
        (∀ row ∈ rows, row.isKept = true → row.index ≤ 2147483647) ∧ entries = rows.filterMap Row.neighbor := by
  refine ⟨fun rows others h h' => h.unique h' hsize, fun entries => ?_⟩
  rw [readTable_ok_iff hsize]
  constructor
  · intro ⟨rows, slack, hmemory, hrows⟩
    exact ⟨rows, ⟨slack, hmemory⟩, hrows⟩
  · intro ⟨rows, ⟨slack, hmemory⟩, hrows⟩
    exact ⟨rows, slack, hmemory, hrows⟩

/-- A dynamic entry. -/
def router : Row where
  index := 7
  macLength := 6
  mac := [2, 0, 0, 0, 0, 1, 0, 0]
  address := [10, 0, 0, 1]
  type := 3
  index_lt := by decide
  macLength_lt := by decide
  mac_length := rfl
  address_length := rfl
  type_lt := by decide

/-- An entry of a group address. -/
def group : Row := { router with mac := [1, 0, 94, 0, 0, 22, 0, 0], mac_length := rfl, type := 4, type_lt := by decide }

/-- A table of two rows, and four bytes more. -/
def twoRows : List UInt8 := littleEndian 4 2 ++ [router, group].flatMap Row.bytes ++ [9, 9, 9, 9]

theorem two_rows_read : twoRows.length ≤ 16 * 1024 * 1024 ∧
    readTable twoRows = .ok [⟨7, str "10.0.0.1", str "02:00:00:00:00:01"⟩] :=
  ⟨by decide, ((tables_have_one_reading twoRows (by decide)).2 _).mpr ⟨[router, group], ⟨[9, 9, 9, 9], rfl⟩, by decide, by decide⟩⟩

theorem readTable_inside (h : 4 ≤ memory.length) : readTable memory ≠ .error .outside := by
  unfold readTable readInt32
  rw [Nat.zero_add, if_pos h, pure_eq_ok, ok_bind]
  split
  · exact fun h => (by cases h)
  · exact readRows_inside (by rw [Nat.zero_add]; exact Nat.le_of_not_lt ‹_›)

/-! ## Entries -/

/-- An entry the scan can use: the address in canonical form, and a MAC address that is normal and
    usable. -/
structure Usable (entry : NeighborEntry) : Prop where
  address : ∃ ip, entry.address = Ipv4Subnet.format ip
  normal : MacAddress.normalize entry.macAddress = .ok entry.macAddress
  mac : NetworkDiscoveryService.isUsableMac entry.macAddress = true

/-- What a test of the bytes of an address says is what the scan says of its text. -/
theorem isUsableMac_format (h : mac.length = 6) :
    NetworkDiscoveryService.isUsableMac (MacAddress.format mac) = isUnicast mac := by
  have hnormal := MacAddress.normalize_format h
  have hblank : isNullOrWhiteSpace (MacAddress.format mac) = false := by
    obtain ⟨b, rest, rfl⟩ := List.exists_cons_of_length_eq_add_one h
    have hdigit : hexDigit (b.toNat / 16) ∈ formatX2 b := List.mem_cons_self
    refine (Bool.not_eq_true _).mp fun hall => ?_
    have hspace := List.all_eq_true.mp hall _ (mem_join_of_mem (List.mem_map_of_mem List.mem_cons_self) hdigit)
    rw [(MacAddress.formatX2_spec b _ hdigit).2.1] at hspace
    cases hspace
  have hbytes : fromHexString ((MacAddress.format mac).filter (· != chr ':')) = mac := MacAddress.bytesOf_format h
  unfold NetworkDiscoveryService.isUsableMac isUnicast
  rw [hblank, if_neg Bool.false_ne_true, hnormal]
  dsimp only
  rw [hbytes, Bool.decide_and, Bool.decide_coe]

theorem address_format {bs : List UInt8} (h : bs.length = 4) :
    ∃ ip, join [chr '.'] (bs.map fun b => decimal b.toNat) = Ipv4Subnet.format ip := by
  obtain ⟨a, b, c, d, rfl⟩ := List.length_eq_four.mp h
  obtain ⟨ip, hip⟩ := Ipv4Subnet.exists_octets a.toNat_lt b.toNat_lt c.toNat_lt d.toNat_lt
  refine ⟨ip, ?_⟩
  rw [Ipv4Subnet.format, hip]
  rfl

theorem neighbor_usable {entry : NeighborEntry} (h : row.neighbor = some entry) : Usable entry := by
  unfold Row.neighbor at h
  split at h
  · rename_i hkept
    cases h
    have hmac : (row.mac.take 6).length = 6 := by rw [List.length_take, row.mac_length]; rfl
    refine ⟨address_format row.address_length, MacAddress.normalize_format hmac, ?_⟩
    rw [isUsableMac_format hmac]
    exact (Bool.and_eq_true_iff.mp hkept).2
  · cases h

/-! ## Reading the cache -/

/-- Windows reports success only where the count of the table fits. -/
def Native.Fits (native : Native) : Prop := ∀ attempt size, (native.tables attempt size).status = 0 → 4 ≤ size.toNat

/-- The entries of a table that one of the attempts from the `first` to the `last` was given. -/
def Native.Gave (native : Native) (first last : Nat) (entries : List NeighborEntry) : Prop :=
  ∃ attempt size, first ≤ attempt ∧ attempt < last ∧ size.toNat ≤ 16 * 1024 * 1024 ∧
    (native.tables attempt size).status = 0 ∧ readTable (native.tables attempt size).memory = .ok entries

variable {native : Native}

theorem readAttempts_safe (hfits : native.Fits) (n attempt : Nat) (size : UInt32) :
    readAttempts native attempt n size ≠ .error .outside ∧
      ∀ entries, readAttempts native attempt n size = .ok entries →
        entries = [] ∨ native.Gave attempt (attempt + n) entries := by
  induction n generalizing attempt size with
  | zero => exact ⟨fun h => (by cases h), fun _ h => (by cases h)⟩
  | succ n ih =>
    unfold readAttempts
    by_cases hlarge : size > 16 * 1024 * 1024
    · rw [if_pos hlarge]
      exact ⟨fun h => (by cases h), fun _ h => (by cases h)⟩
    · rw [if_neg hlarge]
      dsimp only
      by_cases hgrown : (native.tables attempt size).status = insufficientBuffer
      · rw [if_pos hgrown]
        obtain ⟨hinside, hgave⟩ := ih (attempt + 1) (native.tables attempt size).size
        refine ⟨hinside, fun entries h => ?_⟩
        rcases hgave entries h with hnil | ⟨a, s, hfirst, hlast, hgave⟩
        · exact Or.inl hnil
        · exact Or.inr ⟨a, s, by omega, by omega, hgave⟩
      · rw [if_neg hgrown]
        by_cases hempty : (native.tables attempt size).status = noData
        · rw [if_pos hempty]
          exact ⟨fun h => (by cases h), fun _ h => Or.inl (Except.ok.inj h).symm⟩
        · rw [if_neg hempty]
          by_cases hfailed : (native.tables attempt size).status ≠ 0
          · rw [if_pos hfailed]
            exact ⟨fun h => (by cases h), fun _ h => (by cases h)⟩
          · rw [if_neg hfailed]
            have hsuccess := not_not.mp hfailed
            have hsize : size.toNat ≤ 16 * 1024 * 1024 := UInt32.le_iff_toNat_le.mp (UInt32.not_lt.mp hlarge)
            refine ⟨readTable_inside ?_, fun entries h => Or.inr ⟨attempt, size, Nat.le_refl _, by omega, hsize, hsuccess, h⟩⟩
            rw [(native.tables attempt size).memory_length]
            exact hfits attempt size hsuccess

theorem readNeighbors_safe (hfits : native.Fits) : readNeighbors native ≠ .error .outside ∧
    ∀ entries, readNeighbors native = .ok entries → entries = [] ∨ native.Gave 0 3 entries := by
  unfold readNeighbors
  dsimp only
  by_cases hempty : native.sizes.1 = noData
  · rw [if_pos hempty]
    exact ⟨fun h => (by cases h), fun _ h => Or.inl (Except.ok.inj h).symm⟩
  · rw [if_neg hempty]
    by_cases hfailed : native.sizes.1 ≠ insufficientBuffer
    · rw [if_pos hfailed]
      exact ⟨fun h => (by cases h), fun _ h => (by cases h)⟩
    · rw [if_neg hfailed]
      exact readAttempts_safe hfits 3 0 native.sizes.2

/-- Every entry of a table that was given is one the scan can use. -/
theorem Native.Gave.usable {first last : Nat} (h : native.Gave first last entries) : ∀ entry ∈ entries, Usable entry := by
  obtain ⟨attempt, size, -, -, hsize, -, htable⟩ := h
  have hlength : (native.tables attempt size).memory.length ≤ 16 * 1024 * 1024 := by
    rw [(native.tables attempt size).memory_length]
    exact hsize
  obtain ⟨rows, -, -, -, rfl⟩ := (readTable_ok_iff hlength).mp htable
  intro entry hentry
  obtain ⟨row, -, hrow⟩ := List.mem_filterMap.mp hentry
  exact neighbor_usable hrow

theorem readNeighbors_usable (hfits : native.Fits) (h : readNeighbors native = .ok entries) {entry : NeighborEntry}
    (hentry : entry ∈ entries) : Usable entry := by
  rcases (readNeighbors_safe hfits).2 entries h with hnil | hgave
  · rw [hnil] at hentry
    cases hentry
  · exact hgave.usable entry hentry

/-- As long as Windows reports success only where the count fits, reading the cache stays within the
    memory it allocated; its entries are those of a table that one of at most three calls
    wrote, and the scan can use each. -/
theorem neighbors_read_safely (hfits : native.Fits) : readNeighbors native ≠ .error .outside ∧
    ∀ entries, readNeighbors native = .ok entries →
      (entries = [] ∨ native.Gave 0 3 entries) ∧ ∀ entry ∈ entries, Usable entry := by
  have hsafe := readNeighbors_safe hfits
  exact ⟨hsafe.1, fun entries h => ⟨hsafe.2 entries h, fun entry hentry => readNeighbors_usable hfits h hentry⟩⟩

/-- Windows with the table of two rows. -/
def twoNeighbors : Native where
  sizes := (insufficientBuffer, 52)
  tables _ size :=
    { status := if 52 ≤ size.toNat then 0 else insufficientBuffer
      size := 52
      memory := (twoRows ++ List.replicate size.toNat 0).take size.toNat
      memory_length := by
        rw [List.length_take, List.length_append, List.length_replicate]
        omega }

theorem twoNeighbors_fits : twoNeighbors.Fits := by
  intro attempt size h
  by_contra hsmall
  have hstatus : (twoNeighbors.tables attempt size).status = insufficientBuffer := if_neg (by omega)
  rw [hstatus] at h
  cases h

theorem two_neighbors_read : readNeighbors twoNeighbors = .ok [⟨7, str "10.0.0.1", str "02:00:00:00:00:01"⟩] ∧
    readNeighbors twoNeighbors ≠ .error .outside ∧ ∀ entries, readNeighbors twoNeighbors = .ok entries →
      (entries = [] ∨ twoNeighbors.Gave 0 3 entries) ∧ ∀ entry ∈ entries, Usable entry :=
  ⟨by decide +kernel, neighbors_read_safely twoNeighbors_fits⟩

/-- ARP never throws, and an address it answers is one the scan can use. -/
theorem resolve_usable (reply : Reply) : resolve reply = .ok none ∨ ∃ m, resolve reply = .ok (some m) ∧
    MacAddress.normalize m = .ok m ∧ NetworkDiscoveryService.isUsableMac m = true := by
  have hmac : (reply.bytes.take 6).length = 6 := by rw [List.length_take, reply.bytes_length]; rfl
  unfold resolve
  split
  · rename_i h
    refine Or.inr ⟨MacAddress.format (reply.bytes.take 6), ?_, MacAddress.normalize_format hmac, ?_⟩
    · rw [normalize_toHexString hmac, ok_bind]
      rfl
    · rw [isUsableMac_format hmac]
      exact h.2.2
  · exact Or.inl rfl

end MythLab.Discovery.WindowsArp
