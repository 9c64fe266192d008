/-
  MythLab.Discovery.WindowsLanProbe — the interfaces of the machine, and the slots of ARP.

  (1) `getInterfaces` goes through the adapters. An adapter that fails while it is read
  contributes nothing; the others are not affected. `interfaces_listed`: the list has
  exactly the IPv4 addresses of the adapters that are up, not the loopback, and readable,
  sorted by name and, under one name, by the number of the address; each record is one
  that the scan and the routing can use.

  (2) `ResolveMacAsync` shares eight slots among all calls of all probes. The native call
  cannot be cancelled: a caller that is cancelled leaves, and its native call keeps the
  slot until it returns. `arp_slots_hold`, in every interleaving of callers, native calls
  and cancellations: at most eight native calls run; a waiting caller is held up only
  while eight slots are taken by calls that have not returned; no slot is lost or given
  back twice; a cancelled caller can leave at once; and a caller is given the answer of
  its own call.
-/
import MythLab.Lib.Indexed
import MythLab.Lib.Machine
import MythLab.Discovery.WindowsArp

namespace MythLab.Discovery

open Lib Dotnet Devices

/-- A `LocalNetworkInterface` with its `Name`, which is for what is shown. -/
structure NamedInterface extends LocalNetworkInterface where
  name : Str
  deriving DecidableEq, Repr

namespace WindowsLanProbe

/-! ## (1) Interfaces -/

/-- An adapter, and how each of its readings ends: an `Except.error` is a `NetworkInformationException`
    with its code. -/
structure Adapter where
  id : Str
  name : Str
  isUp : Bool
  isLoopback : Bool
  supportsIPv4 : Bool
  /-- The IPv4 unicast addresses of `GetIPProperties`, each with its mask. -/
  addresses : Except Int (List (UInt32 × UInt32))
  /-- The index in `GetIPv4Properties`, which may be null. -/
  index : Except Int (Option Int)
  /-- The bytes of `GetPhysicalAddress`. -/
  physical : Except Int (List UInt8)

/-- `physical.Length == 6 ? MacAddress.Normalize(Convert.ToHexString(physical)) : ""` -/
def macOf (physical : List UInt8) : Except Exn Str :=
  if physical.length = 6 then MacAddress.normalize (WindowsArp.toHexString physical) else pure []

/-- The body of the loop for an adapter that is up. -/
def Adapter.interfaces (adapter : Adapter) : Except Exn (List NamedInterface) :=
  if adapter.supportsIPv4 = false then pure []
  else
    match adapter.addresses with
    | .error _ => pure []
    | .ok addresses =>
      if addresses.length = 0 then pure []
      else
        match adapter.index with
        | .error _ | .ok none => pure []
        | .ok (some index) =>
          match adapter.physical with
          | .error _ => pure []
          | .ok physical => do
            let mac ← macOf physical
            pure (addresses.map fun a =>
              { id := adapter.id
                index := index
                address := Ipv4Subnet.format a.1
                mask := Ipv4Subnet.format a.2
                macAddress := mac
                name := adapter.name })

/-- The loop; `cancelled i` is what the token says at the start of the `i`-th pass. -/
def readAdapters (cancelled : Nat → Bool) : Nat → List Adapter → Except Exn (List NamedInterface)
  | _, [] => pure []
  | i, adapter :: adapters => do
    throwIf (cancelled i = true) .operationCanceled
    let found ← adapter.interfaces
    let rest ← readAdapters cancelled (i + 1) adapters
    pure (found ++ rest)

/-- `OrderBy(n => n.Name).ThenBy(n => Ipv4Subnet.Parse(n.Address))`, where `le` compares names. -/
def before (le : Str → Str → Bool) (a b : NamedInterface × UInt32) : Bool :=
  le a.1.name b.1.name && (!le b.1.name a.1.name || a.2 ≤ b.2)

def withNumber (n : NamedInterface) : Except Exn (NamedInterface × UInt32) := do
  let address ← Ipv4Subnet.parse n.address
  pure (n, address)

def getInterfaces (le : Str → Str → Bool) (cancelled : Nat → Bool) (adapters : List Adapter) :
    Except Exn (List NamedInterface) := do
  let results ← readAdapters cancelled 0 (adapters.filter fun a => a.isUp && !a.isLoopback)
  let numbered ← results.mapM withNumber
  pure ((numbered.mergeSort (before le)).map Prod.fst)

/-- A record that the scan and the routing can use. -/
structure Listed (n : NamedInterface) : Prop where
  address : ∃ ip, n.address = Ipv4Subnet.format ip
  mask : ∃ bits, n.mask = Ipv4Subnet.format bits
  macAddress : n.macAddress = [] ∨ MacAddress.normalize n.macAddress = .ok n.macAddress

/-- What a readable adapter that is up contributes. -/
def Adapter.contributes (adapter : Adapter) : List NamedInterface :=
  match adapter.supportsIPv4 && adapter.isUp && !adapter.isLoopback, adapter.addresses, adapter.index, adapter.physical with
  | true, .ok addresses, .ok (some index), .ok physical => addresses.map fun a =>
      { id := adapter.id
        index := index
        address := Ipv4Subnet.format a.1
        mask := Ipv4Subnet.format a.2
        macAddress := if physical.length = 6 then MacAddress.format physical else []
        name := adapter.name }
  | _, _, _, _ => []

/-- The number of the address of a record. -/
def numberOf (n : NamedInterface) : UInt32 :=
  match Ipv4Subnet.parse n.address with
  | .ok address => address
  | .error _ => 0

variable {le : Str → Str → Bool} {cancelled : Nat → Bool} {adapter : Adapter} {adapters : List Adapter}
  {found : List NamedInterface} {n : NamedInterface}

theorem macOf_eq (physical : List UInt8) :
    macOf physical = .ok (if physical.length = 6 then MacAddress.format physical else []) := by
  unfold macOf
  split
  · exact WindowsArp.normalize_toHexString ‹_›
  · rfl

theorem interfaces_eq (hup : (adapter.isUp && !adapter.isLoopback) = true) :
    adapter.interfaces = .ok adapter.contributes := by
  unfold Adapter.interfaces Adapter.contributes
  rw [Bool.and_assoc, hup, Bool.and_true]
  cases adapter.supportsIPv4 with
  | false => rfl
  | true =>
    rw [if_neg (by decide)]
    rcases adapter.addresses with _ | addresses
    · rfl
    · dsimp only
      by_cases hnone : addresses.length = 0
      · rw [if_pos hnone, List.length_eq_zero_iff.mp hnone]
        rcases adapter.index with _ | _ | _
        · rfl
        · rfl
        · rcases adapter.physical with _ | _
          · rfl
          · rfl
      · rw [if_neg hnone]
        rcases adapter.index with _ | _ | _
        · rfl
        · rfl
        · rcases adapter.physical with _ | physical
          · rfl
          · dsimp only
            rw [macOf_eq, ok_bind]
            rfl

theorem contributes_listed (h : n ∈ adapter.contributes) : Listed n := by
  unfold Adapter.contributes at h
  split at h
  · rename_i physical _ _ _ _
    obtain ⟨a, -, rfl⟩ := List.mem_map.mp h
    refine ⟨⟨_, rfl⟩, ⟨_, rfl⟩, ?_⟩
    dsimp only
    split
    · exact Or.inr (MacAddress.normalize_format ‹_›)
    · exact Or.inl rfl
  · cases h

/-- The loop collects what the adapters contribute, unless the token stops it. -/
theorem readAdapters_eq (hup : ∀ a ∈ adapters, (a.isUp && !a.isLoopback) = true) (i : Nat) :
    readAdapters cancelled i adapters = .ok (adapters.flatMap Adapter.contributes) ∨
      readAdapters cancelled i adapters = .error .operationCanceled ∧ ∃ j, cancelled j = true := by
  induction adapters generalizing i with
  | nil => exact Or.inl rfl
  | cons adapter adapters ih =>
    rw [List.forall_mem_cons] at hup
    unfold readAdapters
    by_cases hc : cancelled i = true
    · exact Or.inr ⟨by rw [throwIf, if_pos hc]; rfl, i, hc⟩
    · rw [throwIf, if_neg hc, ok_bind, interfaces_eq hup.1, ok_bind]
      rcases ih hup.2 (i + 1) with h | ⟨h, hj⟩
      · rw [h]
        exact Or.inl rfl
      · rw [h]
        exact Or.inr ⟨rfl, hj⟩

theorem withNumber_ok {p : NamedInterface × UInt32} (h : withNumber n = .ok p) : p = (n, numberOf n) := by
  obtain ⟨address, haddress, h⟩ := bind_ok_iff.mp h
  cases h
  unfold numberOf
  rw [haddress]

theorem Listed.withNumber (h : Listed n) : ∃ p, withNumber n = .ok p := by
  obtain ⟨ip, hip⟩ := h.address
  exact ⟨(n, ip), by rw [WindowsLanProbe.withNumber, hip, Ipv4Subnet.parse_format]; rfl⟩

/-- The order of the list. -/
def Ordered (le : Str → Str → Bool) (a b : NamedInterface) : Prop :=
  le a.name b.name = true ∧ (le b.name a.name = true → numberOf a ≤ numberOf b)

theorem before_trans (htrans : ∀ a b c, le a b = true → le b c = true → le a c = true)
    (a b c : NamedInterface × UInt32) (hab : before le a b = true) (hbc : before le b c = true) : before le a c = true := by
  simp only [before, Bool.and_eq_true, Bool.or_eq_true, Bool.not_eq_true', decide_eq_true_eq] at hab hbc ⊢
  refine ⟨htrans _ _ _ hab.1 hbc.1, ?_⟩
  rcases hca : le c.1.name a.1.name with _ | _
  · exact Or.inl rfl
  · -- the three names compare as one
    have hba := htrans _ _ _ hbc.1 hca
    have hcb := htrans _ _ _ hca hab.1
    rcases hab.2 with h | hab
    · rw [hba] at h
      cases h
    · rcases hbc.2 with h | hbc
      · rw [hcb] at h
        cases h
      · exact Or.inr (UInt32.le_trans hab hbc)

theorem before_total (htotal : ∀ a b, le a b = true ∨ le b a = true) (a b : NamedInterface × UInt32) :
    (before le a b || before le b a) = true := by
  simp only [before, Bool.or_eq_true, Bool.and_eq_true, Bool.not_eq_true', decide_eq_true_eq]
  rcases hab : le a.1.name b.1.name with _ | _
  · rcases htotal a.1.name b.1.name with h | h
    · rw [hab] at h
      cases h
    · exact Or.inr ⟨h, Or.inl rfl⟩
  · rcases hba : le b.1.name a.1.name with _ | _
    · exact Or.inl ⟨rfl, Or.inl rfl⟩
    · rcases UInt32.le_total a.2 b.2 with h | h
      · exact Or.inl ⟨rfl, Or.inr h⟩
      · exact Or.inr ⟨rfl, Or.inr h⟩

/-- Only an adapter that is up, and not the loopback, contributes. -/
theorem contributes_filter (adapters : List Adapter) :
    (adapters.filter fun a => a.isUp && !a.isLoopback).flatMap Adapter.contributes =
      adapters.flatMap Adapter.contributes := by
  induction adapters with
  | nil => rfl
  | cons adapter adapters ih =>
    rw [List.filter_cons, List.flatMap_cons]
    split
    · rw [List.flatMap_cons, ih]
    · rename_i hdown
      have hnone : adapter.contributes = [] := by
        unfold Adapter.contributes
        rw [Bool.and_assoc, (Bool.not_eq_true _).mp hdown, Bool.and_false]
      rw [hnone, ih]
      rfl

theorem listed_of_contributed (h : n ∈ adapters.flatMap Adapter.contributes) : Listed n := by
  obtain ⟨adapter, -, hn⟩ := List.mem_flatMap.mp h
  exact contributes_listed hn

/-- Records in the order of the list. -/
def sortedBy (le : Str → Str → Bool) (results : List NamedInterface) : List NamedInterface :=
  ((results.map fun n => (n, numberOf n)).mergeSort (before le)).map Prod.fst

theorem sortedBy_perm (le : Str → Str → Bool) (results : List NamedInterface) : (sortedBy le results).Perm results := by
  have hfirst : (results.map fun n => (n, numberOf n)).map Prod.fst = results := by
    rw [List.map_map]
    exact List.map_id _
  have hsorted := (List.mergeSort_perm (results.map fun n => (n, numberOf n)) (before le)).map Prod.fst
  rw [hfirst] at hsorted
  exact hsorted

/-- The list is made of what the adapters contribute, unless the token was cancelled. -/
theorem getInterfaces_cases (le : Str → Str → Bool) (cancelled : Nat → Bool) (adapters : List Adapter) :
    getInterfaces le cancelled adapters = .ok (sortedBy le (adapters.flatMap Adapter.contributes)) ∨
      getInterfaces le cancelled adapters = .error .operationCanceled ∧ ∃ i, cancelled i = true := by
  have hread := @readAdapters_eq cancelled (adapters.filter fun a => a.isUp && !a.isLoopback)
    (fun a ha => (List.mem_filter.mp ha).2) 0
  rw [contributes_filter] at hread
  unfold getInterfaces
  rcases hread with hread | ⟨hread, hcancelled⟩
  · obtain ⟨numbered, hnumbered⟩ := mapM_returns fun n hn => (listed_of_contributed hn).withNumber
    rw [hread, ok_bind, hnumbered, ok_bind, mapM_ok (fun _ _ => withNumber_ok) hnumbered]
    exact Or.inl rfl
  · exact Or.inr ⟨by rw [hread]; rfl, hcancelled⟩

theorem sortedBy_ordered (htrans : ∀ a b c, le a b = true → le b c = true → le a c = true)
    (htotal : ∀ a b, le a b = true ∨ le b a = true) (results : List NamedInterface) :
    (sortedBy le results).Pairwise (Ordered le) := by
  unfold sortedBy
  rw [List.pairwise_map]
  refine (List.pairwise_mergeSort (before_trans htrans) (before_total htotal) _).imp_of_mem ?_
  intro a b ha hb hab
  -- the number beside a record is that of its address
  have hnumber {p : NamedInterface × UInt32}
      (hp : p ∈ (results.map fun n => (n, numberOf n)).mergeSort (before le)) : numberOf p.1 = p.2 := by
    obtain ⟨n, -, rfl⟩ := List.mem_map.mp (List.mem_mergeSort.mp hp)
    rfl
  simp only [before, Bool.and_eq_true, Bool.or_eq_true, Bool.not_eq_true', decide_eq_true_eq] at hab
  refine ⟨hab.1, fun hba => ?_⟩
  rw [hnumber ha, hnumber hb]
  rcases hab.2 with h | h
  · rw [hba] at h
    cases h
  · exact h

/-- What is listed is fit for the scan and the routing. -/
theorem getInterfaces_listed (h : getInterfaces le cancelled adapters = .ok found) (hn : n ∈ found) : Listed n := by
  rcases getInterfaces_cases le cancelled adapters with hok | ⟨herror, -⟩
  · cases h.symm.trans hok
    exact listed_of_contributed ((sortedBy_perm le _).mem_iff.mp hn)
  · cases h.symm.trans herror

/-- Two adapters, one of them failing, and names in the order of their numbers. -/
def twoAdapters : List Adapter :=
  [{ id := str "b", name := str "Wi-Fi", isUp := true, isLoopback := false, supportsIPv4 := true,
     addresses := .ok [(0x0A000009, 0xFFFFFF00), (0x0A000002, 0xFFFFFF00)], index := .ok (some 4), physical := .ok [1, 2] },
   { id := str "a", name := str "Ethernet", isUp := true, isLoopback := false, supportsIPv4 := true,
     addresses := .error 10043, index := .ok (some 2), physical := .ok [] }]

inductive Caller where
  /-- In `ArpSlots.WaitAsync`. -/
  | waiting
  /-- In `pending.WaitAsync`. -/
  | awaiting
  | returned (answer : Option Str)
  | threw (e : Exn)
  deriving DecidableEq, Repr

/-- The task that makes the native call. -/
inductive Native where
  | none
  | queued
  | running
  | ended (result : Except Exn (Option Str))
  deriving Repr

/-- A call of `ResolveMacAsync`. -/
structure Call where
  caller : Caller := .waiting
  native : Native := .none
  /-- Whether the caller's token is cancelled. -/
  cancelled : Bool := false
  deriving Repr

structure State where
  free : Nat
  calls : List Call
  deriving Repr

def capacity : Nat := 8

inductive Event where
  | call
  | cancel (i : Nat)
  /-- The caller is given a slot, and starts the task. -/
  | enter (i : Nat)
  /-- The caller is cancelled before it has a slot. -/
  | leave (i : Nat)
  | nativeStarts (i : Nat)
  /-- `WindowsArp.Resolve` returns or throws, and the slot is given back. -/
  | nativeEnds (i : Nat) (answer : Except Exn (Option Str))
  /-- The caller is cancelled while the native call goes on. -/
  | giveUp (i : Nat)
  /-- The task has ended, and the caller goes on. -/
  | deliver (i : Nat)
  deriving Repr

def State.put (s : State) (i : Nat) (c : Call) : State := { s with calls := s.calls.set i c }

/-- `ArpSlots.Release()` -/
def State.release (s : State) : Except Exn Nat :=
  if s.free < capacity then .ok (s.free + 1) else .error (.other "SemaphoreFullException")

/-- What the task makes of the answer: it catches every exception. -/
def caught : Except Exn (Option Str) → Option Str
  | .ok answer => answer
  | .error _ => none

def Call.finished (c : Call) (result : Except Exn (Option Str)) : Call :=
  match result with
  | .ok answer => { c with caller := .returned answer }
  | .error e => { c with caller := .threw e }

def stepCall (s : State) (i : Nat) (c : Call) : Event → Option State
  | .call => none
  | .cancel _ => if c.cancelled then none else some (s.put i { c with cancelled := true })
  | .enter _ =>
    match c.caller with
    | .waiting =>
      if 0 < s.free then some { (s.put i { c with caller := .awaiting, native := .queued }) with free := s.free - 1 }
      else none
    | _ => none
  | .leave _ =>
    match c.caller with
    | .waiting => if c.cancelled then some (s.put i { c with caller := .threw .operationCanceled }) else none
    | _ => none
  | .nativeStarts _ =>
    match c.native with
    | .queued => some (s.put i { c with native := .running })
    | _ => none
  | .nativeEnds _ answer =>
    match c.native with
    | .running =>
      match s.release with
      | .ok free => some { (s.put i { c with native := .ended (.ok (caught answer)) }) with free := free }
      | .error e => some (s.put i { c with native := .ended (.error e) })
    | _ => none
  | .giveUp _ =>
    match c.caller with
    | .awaiting => if c.cancelled then some (s.put i { c with caller := .threw .operationCanceled }) else none
    | _ => none
  | .deliver _ =>
    match c.caller, c.native with
    | .awaiting, .ended result => some (s.put i (c.finished result))
    | _, _ => none

def Event.index : Event → Option Nat
  | .call => none
  | .cancel i | .enter i | .leave i | .nativeStarts i | .nativeEnds i _ | .giveUp i | .deliver i => some i

def step (s : State) (e : Event) : Option State :=
  match e.index with
  | none => some { s with calls := s.calls ++ [{}] }
  | some i =>
    match s.calls[i]? with
    | some c => stepCall s i c e
    | none => none

def machine : Machine State Event := ⟨(· = ⟨capacity, []⟩), step⟩

/-- The task has the slot from the start of its call to its end. -/
def Native.holds : Native → Nat
  | .queued | .running => 1
  | .none | .ended _ => 0

/-- A native call is going on. -/
def Call.isRunning (c : Call) : Bool :=
  match c.native with
  | .running => true
  | _ => false

/-- The slots that calls have. -/
def State.held (s : State) : Nat := weight (fun c => c.native.holds) s.calls

/-! ### What a step does -/

inductive Change (s : State) : Event → State → Prop
  | called : Change s .call { s with calls := s.calls ++ [{}] }
  | cancels {i : Nat} {c : Call} : s.calls[i]? = some c → c.cancelled = false →
      Change s (.cancel i) (s.put i { c with cancelled := true })
  | enters {i : Nat} {c : Call} : s.calls[i]? = some c → c.caller = .waiting → 0 < s.free →
      Change s (.enter i) { (s.put i { c with caller := .awaiting, native := .queued }) with free := s.free - 1 }
  | leaves {i : Nat} {c : Call} : s.calls[i]? = some c → c.caller = .waiting → c.cancelled = true →
      Change s (.leave i) (s.put i { c with caller := .threw .operationCanceled })
  | starts {i : Nat} {c : Call} : s.calls[i]? = some c → c.native = .queued →
      Change s (.nativeStarts i) (s.put i { c with native := .running })
  | ends {i : Nat} {c : Call} (answer : Except Exn (Option Str)) : s.calls[i]? = some c → c.native = .running →
      s.free < capacity → Change s (.nativeEnds i answer)
        { (s.put i { c with native := .ended (.ok (caught answer)) }) with free := s.free + 1 }
  | overflows {i : Nat} {c : Call} (answer : Except Exn (Option Str)) (e : Exn) : s.calls[i]? = some c →
      c.native = .running → ¬ s.free < capacity →
      Change s (.nativeEnds i answer) (s.put i { c with native := .ended (.error e) })
  | givesUp {i : Nat} {c : Call} : s.calls[i]? = some c → c.caller = .awaiting → c.cancelled = true →
      Change s (.giveUp i) (s.put i { c with caller := .threw .operationCanceled })
  | delivers {i : Nat} {c : Call} {result : Except Exn (Option Str)} : s.calls[i]? = some c → c.caller = .awaiting →
      c.native = .ended result → Change s (.deliver i) (s.put i (c.finished result))

variable {s s' : State} {e : Event} {i : Nat} {c : Call}

theorem stepCall_change (hc : s.calls[i]? = some c) (hindex : e.index = some i) (he : stepCall s i c e = some s') :
    Change s e s' := by
  cases e with
  | call => cases hindex
  | cancel j =>
    cases hindex
    simp only [stepCall] at he
    split at he <;> cases he
    exact .cancels hc ((Bool.not_eq_true _).mp ‹_›)
  | enter j =>
    cases hindex
    simp only [stepCall] at he
    split at he
    · split at he <;> cases he
      exact .enters hc ‹_› ‹_›
    · cases he
  | leave j =>
    cases hindex
    simp only [stepCall] at he
    split at he
    · split at he <;> cases he
      exact .leaves hc ‹_› ‹_›
    · cases he
  | nativeStarts j =>
    cases hindex
    simp only [stepCall] at he
    split at he <;> cases he
    exact .starts hc ‹_›
  | nativeEnds j answer =>
    cases hindex
    simp only [stepCall, State.release] at he
    by_cases hfree : s.free < capacity
    · rw [if_pos hfree] at he
      split at he <;> cases he
      exact .ends answer hc ‹_› hfree
    · rw [if_neg hfree] at he
      split at he <;> cases he
      exact .overflows answer _ hc ‹_› hfree
  | giveUp j =>
    cases hindex
    simp only [stepCall] at he
    split at he
    · split at he <;> cases he
      exact .givesUp hc ‹_› ‹_›
    · cases he
  | deliver j =>
    cases hindex
    simp only [stepCall] at he
    split at he <;> cases he
    exact .delivers hc ‹_› ‹_›

theorem step_change (he : step s e = some s') : Change s e s' := by
  unfold step at he
  split at he
  · rename_i hindex
    cases e <;> cases hindex
    cases he
    exact .called
  · split at he
    · exact stepCall_change ‹_› ‹_› he
    · cases he

/-! ### The invariant -/

/-- The caller and the task of a call fit together. -/
structure Call.Sound (c : Call) : Prop where
  waiting : c.caller = .waiting → c.native = .none
  ended : ∀ result, c.native = .ended result → ∃ answer, result = .ok answer
  returned : ∀ answer, c.caller = .returned answer → c.native = .ended (.ok answer)
  threw : ∀ e, c.caller = .threw e → e = .operationCanceled

structure Inv (s : State) : Prop where
  balance : s.free + s.held = capacity
  sound : ∀ c ∈ s.calls, c.Sound

theorem held_put (hc : s.calls[i]? = some c) (c' : Call) :
    (s.put i c').held + c.native.holds = s.held + c'.native.holds := weight_set (fun c => c.native.holds) hc c'

/-- A change of a call that leaves its task alone. -/
theorem Inv.put (h : Inv s) (hc : s.calls[i]? = some c) {c' : Call} (hnative : c'.native = c.native)
    (hsound : c'.Sound) : Inv (s.put i c') := by
  have hheld := held_put hc c'
  rw [hnative] at hheld
  have hbalance := h.balance
  refine ⟨?_, fun d hd => ?_⟩
  · show s.free + (s.put i c').held = capacity
    omega
  · rcases List.mem_or_eq_of_mem_set hd with hd | rfl
    · exact h.sound d hd
    · exact hsound

/-- A change of a call that also moves slots. -/
theorem Inv.move (h : Inv s) (hc : s.calls[i]? = some c) {c' : Call} {free : Nat}
    (hbalance : free + c'.native.holds = s.free + c.native.holds) (hsound : c'.Sound) :
    Inv { (s.put i c') with free := free } := by
  have hheld := held_put hc c'
  have hbefore := h.balance
  refine ⟨?_, fun d hd => ?_⟩
  · show free + (s.put i c').held = capacity
    omega
  · rcases List.mem_or_eq_of_mem_set hd with hd | rfl
    · exact h.sound d hd
    · exact hsound

theorem step_inv (h : Inv s) (he : step s e = some s') : Inv s' := by
  cases step_change he with
  | called =>
    refine ⟨?_, forall_snoc h.sound ⟨fun _ => rfl, fun _ h => (by cases h), fun _ h => (by cases h), fun _ h => (by cases h)⟩⟩
    have hheld := weight_snoc (fun c : Call => c.native.holds) s.calls {}
    exact (congrArg (s.free + ·) hheld).trans h.balance
  | cancels hc hcancelled =>
    have hsound := h.sound _ (List.mem_of_getElem? hc)
    exact h.put hc rfl ⟨hsound.waiting, hsound.ended, hsound.returned, hsound.threw⟩
  | enters hc hcaller hfree =>
    have hnone := (h.sound _ (List.mem_of_getElem? hc)).waiting hcaller
    refine h.move hc ?_ ⟨fun h => (by cases h), fun _ h => (by cases h), fun _ h => (by cases h), fun _ h => (by cases h)⟩
    rw [hnone]
    show s.free - 1 + 1 = s.free
    omega
  | leaves hc hcaller hcancelled =>
    have hsound := h.sound _ (List.mem_of_getElem? hc)
    exact h.put hc rfl ⟨fun h => (by cases h), hsound.ended, fun _ h => (by cases h), fun _ h => by cases h; rfl⟩
  | @starts i c hc hnative =>
    have hsound := h.sound c (List.mem_of_getElem? hc)
    -- a call that is waiting or has returned has no task in the queue
    have hwaiting : c.caller ≠ .waiting := fun h => by rw [hsound.waiting h] at hnative; cases hnative
    have hreturned (a : Option Str) : c.caller ≠ .returned a := fun h => by rw [hsound.returned a h] at hnative; cases hnative
    have hmove := @Inv.move s i c h hc { c with native := .running } s.free (by rw [hnative]; rfl)
      ⟨fun h => absurd h hwaiting, fun _ h => (by cases h), fun a h => absurd h (hreturned a), hsound.threw⟩
    exact hmove
  | @ends i c answer hc hnative hfree =>
    have hsound := h.sound c (List.mem_of_getElem? hc)
    have hwaiting : c.caller ≠ .waiting := fun h => by rw [hsound.waiting h] at hnative; cases hnative
    have hreturned (a : Option Str) : c.caller ≠ .returned a := fun h => by rw [hsound.returned a h] at hnative; cases hnative
    refine h.move hc (by rw [hnative]; rfl) ⟨fun h => absurd h hwaiting, fun _ h => ?_, fun a h => absurd h (hreturned a),
      hsound.threw⟩
    cases h
    exact ⟨_, rfl⟩
  | @overflows i c answer ex hc hnative hfull =>
    -- the call has a slot, so not all of them are free
    have hheld := held_put hc c
    have hone : c.native.holds = 1 := by rw [hnative]; rfl
    have hget := held_put hc { c with native := .none }
    have hzero : Native.none.holds = 0 := rfl
    have hbalance := h.balance
    rw [hone, hzero] at hget
    omega
  | givesUp hc hcaller hcancelled =>
    have hsound := h.sound _ (List.mem_of_getElem? hc)
    exact h.put hc rfl ⟨fun h => (by cases h), hsound.ended, fun _ h => (by cases h), fun _ h => by cases h; rfl⟩
  | @delivers i c result hc hcaller hnative =>
    have hsound := h.sound c (List.mem_of_getElem? hc)
    obtain ⟨answer, rfl⟩ := hsound.ended result hnative
    exact h.put hc rfl ⟨fun h => (by cases h), hsound.ended, fun _ h => by cases h; exact hnative, fun _ h => (by cases h)⟩

theorem inv_of_reach (h : machine.Reach s) : Inv s := by
  refine h.inv ?_ fun _ _ _ => step_inv
  intro s hs
  cases hs
  exact ⟨rfl, fun _ hc => (by cases hc)⟩

theorem running_le_held (calls : List Call) : calls.countP Call.isRunning ≤ weight (fun c => c.native.holds) calls := by
  induction calls with
  | nil => exact Nat.le_refl 0
  | cons c calls ih =>
    rw [List.countP_cons, weight]
    have hone : (if c.isRunning = true then 1 else 0) ≤ c.native.holds := by
      unfold Call.isRunning Native.holds
      cases c.native <;> simp
    omega

/-- What holds of the slots and of the calls, wherever the callers, the native calls and the
    cancellations have come to. -/
structure Slots (s : State) : Prop where
  running : s.calls.countP Call.isRunning ≤ capacity
  /-- No slot is lost or given back twice. -/
  balance : s.free + s.held = capacity
  released : ∀ c ∈ s.calls, ∀ result, c.native = .ended result → ∃ answer, result = .ok answer
  /-- A caller waits for a slot only while calls that have not returned have them all. -/
  enters : ∀ (i : Nat) (c : Call), s.calls[i]? = some c → c.caller = .waiting → ((step s (.enter i)).isSome ↔ s.held < capacity)
  /-- A cancelled caller can leave at once, and its native call goes on. -/
  leaves : ∀ (i : Nat) (c : Call), s.calls[i]? = some c → c.cancelled = true → c.caller = .waiting ∨ c.caller = .awaiting →
    ∃ e s', step s e = some s' ∧ s'.calls[i]? = some { c with caller := .threw .operationCanceled } ∧ s'.free = s.free
  answers : ∀ c ∈ s.calls, ∀ answer, c.caller = .returned answer → c.native = .ended (.ok answer)

theorem arp_slots_hold (h : machine.Reach s) : Slots s := by
  have hinv := inv_of_reach h
  have hbalance := hinv.balance
  refine ⟨?_, hbalance, fun c hc => (hinv.sound c hc).ended, ?_, ?_, fun c hc => (hinv.sound c hc).returned⟩
  · have hle : s.calls.countP Call.isRunning ≤ s.held := running_le_held s.calls
    omega
  · intro i c hc hcaller
    have hstep : step s (.enter i) = stepCall s i c (.enter i) := by simp only [step, Event.index, hc]
    rw [hstep]
    simp only [stepCall, hcaller]
    split
    · exact iff_of_true rfl (by omega)
    · exact iff_of_false (by decide) (by omega)
  · intro i c hc hcancelled hcaller
    have hset : (s.put i { c with caller := .threw .operationCanceled }).calls[i]? =
        some { c with caller := .threw .operationCanceled } := by
      obtain ⟨hi, -⟩ := List.getElem?_eq_some_iff.mp hc
      exact List.getElem?_set_self hi
    rcases hcaller with hcaller | hcaller
    · refine ⟨.leave i, _, ?_, hset, rfl⟩
      simp only [step, Event.index, hc, stepCall, hcaller, hcancelled, if_true]
    · refine ⟨.giveUp i, _, ?_, hset, rfl⟩
      simp only [step, Event.index, hc, stepCall, hcaller, hcancelled, if_true]

/-- Nine callers; the first is cancelled while its native call runs, and the ninth gets in when that
    call has returned. -/
def nineCallers : List Event :=
  List.replicate 9 .call ++ (List.range 8).flatMap (fun i => [.enter i, .nativeStarts i]) ++
    [.cancel 0, .giveUp 0, .nativeEnds 0 (.ok none), .enter 8]

theorem ninth_caller_enters : ∃ s, machine.Reach s ∧ s.free = 0 ∧ s.calls.countP Call.isRunning = 7 ∧
    s.calls.length = 9 ∧ Slots s := by
  obtain ⟨log, s, hruns, -, hp⟩ := machine.exists_run (fun _ _ => True)
    (fun s => s.free == 0 && s.calls.countP Call.isRunning == 7 && s.calls.length == 9) nineCallers rfl
    (by decide +kernel)
  simp only [Bool.and_eq_true, beq_iff_eq] at hp
  exact ⟨s, ⟨log, hruns⟩, hp.1.1, hp.1.2, hp.2, arp_slots_hold ⟨log, hruns⟩⟩

end WindowsLanProbe

end MythLab.Discovery
