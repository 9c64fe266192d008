/-
  MythLab.Discovery.ScanFindings — what the scan without concurrency finds.

  The evidence stored for an address of the range is the union of what the cache, the
  ping and ARP say of it (`evidence_sequential`); an address has a record when and only
  when that is not empty, and no other address has one (`find_sequential`).
-/
import MythLab.Discovery.SequentialScan

namespace MythLab.Discovery.NetworkDiscoveryService

open Lib Dotnet Devices

/-! ## What the answers say -/

/-- The cache has the address on the scanned interface, with a usable MAC. -/
def Scan.caches (scan : Scan) (entries : List NeighborEntry) (address : Str) : Bool :=
  entries.any fun entry => entry.address = address ∧ entry.interfaceIndex = scan.interface.index ∧
    isUsableMac entry.macAddress = true

/-- The same of a read that may have failed. -/
def Answers.cached (answers : Answers) (scan : Scan) (final : Bool) (address : Str) : Bool :=
  scan.caches ((answers.neighbors final).getD []) address

/-- Addresses in the form `Format` gives. -/
def Canonical (entries : List NeighborEntry) : Prop := ∀ entry ∈ entries, ∃ ip, entry.address = Ipv4Subnet.format ip

/-- The evidence that the answers give of an address. -/
def Answers.evidence (answers : Answers) (scan : Scan) (address : Str) : Evidence where
  neighborCache := answers.cached scan false address || answers.cached scan true address
  arpResolution := address ≠ scan.interface.address ∧ ¬ answers.cached scan false address ∧
    isAnswer (answers.resolve address)
  pingReply := address ≠ scan.interface.address ∧ answers.ping address
  localInterface := address = scan.interface.address

/-- The evidence stored for an address. -/
def evidenceIn (cell : Cell) : Evidence := (cell.map (·.evidence)).getD .none

/-- What is stored has evidence. -/
def Evident (cell : Cell) : Prop := ∀ d ∈ cell, d.evidence ≠ .none

/-! ## The evidence stored for an address -/

section Cells

variable {scan : Scan} {answers : Answers} {address : Str} {cell : Cell}

theorem evidenceIn_put (cell : Cell) (d : DiscoveredDevice) :
    evidenceIn (put cell d) = (evidenceIn cell).union d.evidence := by
  cases cell with
  | none => exact (Evidence.none_union _).symm
  | some old => rfl

theorem Evident.put (h : Evident cell) {d : DiscoveredDevice} (hd : d.evidence ≠ .none) : Evident (put cell d) := by
  intro r hr
  cases cell with
  | none =>
    cases hr
    exact hd
  | some old =>
    cases hr
    exact fun hnone => hd (Evidence.union_eq_none.mp hnone).2

theorem Evident.none_iff (h : Evident cell) : cell = none ↔ evidenceIn cell = .none := by
  cases cell with
  | none => exact ⟨fun _ => rfl, fun _ => rfl⟩
  | some d => exact ⟨nofun, fun hnone => absurd hnone (h d rfl)⟩

theorem gathered_eq (evidence : Evidence) (cell : Cell) : gathered evidence cell = evidence.union (evidenceIn cell) := by
  cases cell with
  | none => exact (Evidence.union_none _).symm
  | some old => rfl

theorem evidenceIn_finishGather (evidence : Evidence) (mac : Option Str) (live : Option DateTimeOffset) (cell : Cell) :
    evidenceIn (finishGather scan answers address evidence mac live cell) = evidence.union (evidenceIn cell) := by
  rw [finishGather_eq, gathered_eq]
  split
  · rename_i hnone
    rw [hnone]
    exact (Evidence.union_eq_none.mp hnone).2
  · -- the record holds what is stored, so storing it twice adds nothing
    have hput : (evidenceIn cell).union (evidence.union (evidenceIn cell)) = evidence.union (evidenceIn cell) := by
      rw [Evidence.union_comm, Evidence.union_assoc, Evidence.union_self]
    dsimp only
    rw [finishName_eq]
    split
    · exact (evidenceIn_put _ _).trans hput
    · rw [evidenceIn_put, evidenceIn_put]
      show ((evidenceIn cell).union (evidence.union (evidenceIn cell))).union (evidence.union (evidenceIn cell)) = _
      rw [hput, Evidence.union_self]

theorem Evident.finishGather (h : Evident cell) (evidence : Evidence) (mac : Option Str) (live : Option DateTimeOffset) :
    Evident (finishGather scan answers address evidence mac live cell) := by
  rw [finishGather_eq]
  split
  · exact h
  · have hput := h.put (d := scan.device address (gathered evidence cell) (mac.or (cell.map (·.macAddress))) live) ‹_›
    dsimp only
    rw [finishName_eq]
    split
    · exact hput
    · exact hput.put ‹_›

/-- A lookup, and what follows it, of an address whose stored MAC is usable. -/
theorem evidenceIn_finishLookUp (hmac : ∀ d ∈ cell, isUsableMac d.macAddress = true) (evidence : Evidence)
    (live : Option DateTimeOffset) : evidenceIn (finishLookUp scan answers address evidence live cell) =
      (evidence.union { arpResolution := cell = none ∧ isAnswer (answers.resolve address) }).union (evidenceIn cell) := by
  unfold finishLookUp lookUp
  cases cell with
  | none =>
    refine (evidenceIn_finishGather _ _ _ none).trans ?_
    cases isAnswer (answers.resolve address) <;> simp [Evidence.union]
  | some d =>
    simp only [hmac d rfl, if_true]
    rw [evidenceIn_finishGather]
    simp [Evidence.union]

theorem Evident.finishLookUp (h : Evident cell) (evidence : Evidence) (live : Option DateTimeOffset) :
    Evident (finishLookUp scan answers address evidence live cell) := by
  unfold NetworkDiscoveryService.finishLookUp lookUp
  cases cell with
  | none => exact h.finishGather _ _ _
  | some d =>
    by_cases hd : isUsableMac d.macAddress = true
    · simp only [hd, if_true]
      exact h.finishGather _ _ _
    · simp only [hd]
      exact h.finishGather _ _ _

/-- What a worker finds, over what the cache says of its address. -/
theorem evidenceIn_start (hevident : Evident cell) (hmac : ∀ d ∈ cell, isUsableMac d.macAddress = true) {cached : Bool}
    (hcell : evidenceIn cell = { neighborCache := cached }) :
    evidenceIn (finish scan answers address (scan.start address epoch) cell) =
        { neighborCache := cached
          arpResolution := address ≠ scan.interface.address ∧ ¬ cached ∧ isAnswer (answers.resolve address)
          pingReply := address ≠ scan.interface.address ∧ answers.ping address
          localInterface := address = scan.interface.address } ∧
      Evident (finish scan answers address (scan.start address epoch) cell) := by
  have hnone : cell = none ↔ cached = false := by
    rw [hevident.none_iff, hcell]
    simp [Evidence.none]
  unfold Scan.start
  by_cases hlocal : address = scan.interface.address
  · rw [if_pos hlocal]
    refine ⟨?_, hevident.finishGather _ _ _⟩
    refine (evidenceIn_finishGather _ _ _ cell).trans ?_
    rw [hcell]
    simp [hlocal, Evidence.union]
  · rw [if_neg hlocal]
    show evidenceIn (finishPing _ _ _ _ _) = _ ∧ Evident (finishPing _ _ _ _ _)
    unfold finishPing afterPing
    cases hping : answers.ping address with
    | false =>
      refine ⟨(evidenceIn_finishLookUp hmac _ _).trans ?_, hevident.finishLookUp _ _⟩
      rw [hcell]
      simp [hlocal, hnone, Evidence.union, Evidence.none]
    | true =>
      refine ⟨(evidenceIn_finishLookUp hmac _ _).trans ?_, hevident.finishLookUp _ _⟩
      rw [hcell]
      simp [hlocal, hnone, Evidence.union]

end Cells

/-! ## A read of the cache -/

/-- The addresses from the first to the last. -/
def Scan.covers (scan : Scan) (address : Str) : Prop :=
  ∃ ip, scan.range.first ≤ ip ∧ ip ≤ scan.range.last ∧ address = Ipv4Subnet.format ip

section Merge

variable {scan : Scan} {answers : Answers} {address : Str} {entry : NeighborEntry} {entries : List NeighborEntry}

theorem covers_address (hvalid : scan.Valid) {i : Nat} (hi : i < scan.range.count) : scan.covers (scan.address i) := by
  obtain ⟨hle, hcount⟩ := hvalid
  obtain ⟨ip, hparse, hrange⟩ := address_inRange hcount hle hi
  cases (Ipv4Subnet.parse_format _).symm.trans hparse
  exact ⟨_, hrange.1, hrange.2, rfl⟩

theorem covers_offset (hvalid : scan.Valid) (h : scan.covers address) :
    ∃ i, i < scan.range.count ∧ address = scan.address i := by
  obtain ⟨hle, hcount⟩ := hvalid
  obtain ⟨ip, hfirst, hlast, rfl⟩ := h
  have hip := ip.toNat_lt
  have hsize : UInt32.size = 4294967296 := rfl
  rw [UInt32.le_iff_toNat_le] at hfirst hlast
  refine ⟨ip.toNat - scan.range.first.toNat, by omega, ?_⟩
  have hsame : ip = scan.range.first + UInt32.ofNat (ip.toNat - scan.range.first.toNat) := by
    refine UInt32.toNat_inj.mp ?_
    rw [UInt32.toNat_add, UInt32.toNat_ofNat_of_lt' (by omega)]
    omega
  exact congrArg Ipv4Subnet.format hsame

theorem caches_cons (entry : NeighborEntry) (entries : List NeighborEntry) (address : Str) :
    scan.caches (entry :: entries) address = (scan.caches [entry] address || scan.caches entries address) := by
  simp [Scan.caches]

/-- An entry in the form `Format` gives is skipped or usable. -/
theorem neighbor_canonical (scan : Scan) (h : ∃ ip, entry.address = Ipv4Subnet.format ip) :
    (scan.neighbor entry = .skipped ∧ ∀ a, scan.covers a → scan.caches [entry] a = false) ∨
      ∃ d, scan.neighbor entry = .usable d ∧ scan.covers d.address ∧ d.evidence = { neighborCache := true } ∧
        isUsableMac d.macAddress = true ∧ ∀ a, scan.caches [entry] a = decide (d.address = a) := by
  obtain ⟨ip, hip⟩ := h
  unfold Scan.neighbor
  split
  · rename_i hskip
    refine Or.inl ⟨rfl, ?_⟩
    intro a _
    simp only [Scan.caches, List.any_cons, List.any_nil, Bool.or_false, decide_eq_false_iff_not]
    rintro ⟨-, hindex, hmac⟩
    rcases hskip with hskip | hskip
    · exact hskip hindex
    · exact absurd hmac (by simp [hskip])
  · rename_i huse
    simp only [not_or, ne_eq, not_not, Bool.not_eq_false] at huse
    obtain ⟨hindex, hmac⟩ := huse
    rw [hip, Ipv4Subnet.parse_format]
    dsimp only
    split
    · rename_i hrange
      refine Or.inl ⟨rfl, ?_⟩
      rintro a ⟨other, hfirst, hlast, rfl⟩
      simp only [Scan.caches, List.any_cons, List.any_nil, Bool.or_false, decide_eq_false_iff_not]
      rintro ⟨hsame, -⟩
      cases Ipv4Subnet.format_inj (hip.symm.trans hsame)
      rcases hrange with hrange | hrange
      · exact absurd hfirst (UInt32.not_le.mpr hrange)
      · exact absurd hlast (UInt32.not_le.mpr hrange)
    · rename_i hrange
      simp only [not_or, UInt32.not_lt, gt_iff_lt] at hrange
      refine Or.inr ⟨_, rfl, ⟨ip, hrange.1, hrange.2, rfl⟩, rfl, hmac, ?_⟩
      intro a
      simp [Scan.caches, hindex, hmac, hip]

/-- What a merge does to the record of one address, entry by entry. -/
theorem mergeNeighbors_rule {P : Cell → Prop} {results : Results}
    (hput : ∀ entry ∈ entries, ∀ d cell, scan.neighbor entry = .usable d → d.address = address → P cell → P (put cell d))
    (h : P (results.find address)) : P ((mergeNeighbors scan results entries).find address) := by
  induction entries generalizing results with
  | nil => exact h
  | cons entry entries ih =>
    have htail := fun e he => hput e (List.mem_cons_of_mem _ he)
    unfold mergeNeighbors
    split
    · exact ih htail h
    · exact h
    · rename_i d husable
      refine ih htail ?_
      by_cases hsame : d.address = address
      · subst hsame
        rw [find_addOrUpdate_self]
        exact hput entry List.mem_cons_self d _ husable rfl h
      · rw [find_addOrUpdate_ne results (Ne.symm hsame)]
        exact h

theorem evidenceIn_mergeNeighbors (hcanonical : Canonical entries) (hcovers : scan.covers address) (results : Results) :
    evidenceIn ((mergeNeighbors scan results entries).find address) =
      (evidenceIn (results.find address)).union { neighborCache := scan.caches entries address } := by
  induction entries generalizing results with
  | nil => exact (Evidence.union_none _).symm
  | cons entry entries ih =>
    have htail : Canonical entries := fun e he => hcanonical e (List.mem_cons_of_mem _ he)
    rw [caches_cons]
    unfold mergeNeighbors
    rcases neighbor_canonical scan (hcanonical entry List.mem_cons_self) with ⟨hskip, hnot⟩ | ⟨d, husable, -, hd, -, hcaches⟩
    · rw [hskip, hnot address hcovers]
      exact ih htail results
    · rw [husable, hcaches]
      refine (ih htail _).trans ?_
      by_cases hsame : d.address = address
      · subst hsame
        rw [find_addOrUpdate_self, evidenceIn_put, hd, Evidence.union_assoc]
        simp [Evidence.union]
      · rw [find_addOrUpdate_ne results (Ne.symm hsame)]
        simp [hsame]

/-- An address outside the range gets no record. -/
theorem find_mergeNeighbors_outside (hcanonical : Canonical entries) (houtside : ¬ scan.covers address) (results : Results) :
    (mergeNeighbors scan results entries).find address = results.find address := by
  refine mergeNeighbors_rule (P := (· = results.find address)) ?_ rfl
  intro entry he d cell husable hsame _
  rcases neighbor_canonical scan (hcanonical entry he) with ⟨hskip, -⟩ | ⟨d', husable', hcovers, -⟩
  · cases hskip.symm.trans husable
  · cases husable'.symm.trans husable
    exact absurd (hsame ▸ hcovers) houtside

theorem usable_evident {d : DiscoveredDevice} (h : scan.neighbor entry = .usable d) :
    d.evidence ≠ .none ∧ isUsableMac d.macAddress = true := by
  unfold Scan.neighbor at h
  split at h
  · cases h
  · rename_i huse
    simp only [not_or, ne_eq, not_not, Bool.not_eq_false] at huse
    split at h
    · cases h
    · split at h <;> cases h
      exact ⟨nofun, huse.2⟩

theorem Evident.merge {results : Results} (h : Evident (results.find address)) :
    Evident ((mergeNeighbors scan results entries).find address) :=
  mergeNeighbors_rule (P := Evident) (fun _ _ _ _ husable _ hcell => hcell.put (usable_evident husable).1) h

theorem isUsableMac_ne_nil {mac : Str} (h : isUsableMac mac = true) : mac.length > 0 := by
  cases mac with
  | nil => cases h
  | cons => simp

theorem usableMac_merge {results : Results} (h : ∀ d ∈ results.find address, isUsableMac d.macAddress = true) :
    ∀ d ∈ (mergeNeighbors scan results entries).find address, isUsableMac d.macAddress = true := by
  refine mergeNeighbors_rule (P := fun cell => ∀ d ∈ cell, isUsableMac d.macAddress = true) ?_ h
  intro entry _ d cell husable _ hcell r hr
  have hmac := (usable_evident husable).2
  cases cell with
  | none =>
    cases hr
    exact hmac
  | some old =>
    cases hr
    show isUsableMac (DiscoveredDevice.orElse d.macAddress old.macAddress) = true
    rw [DiscoveredDevice.orElse, if_pos (isUsableMac_ne_nil hmac)]
    exact hmac

end Merge

/-! ## The reference -/

/-- The reads give addresses in the form `Format` gives. -/
def Answers.Canonical (answers : Answers) : Prop :=
  ∀ final entries, answers.neighbors final = some entries → NetworkDiscoveryService.Canonical entries

section Sequential

variable {scan : Scan} {answers : Answers} {address : Str}

theorem evidenceIn_mergeRead (hcanonical : answers.Canonical) (hcovers : scan.covers address) (final : Bool)
    (results : Results) : evidenceIn ((mergeRead scan results (answers.neighbors final)).find address) =
      (evidenceIn (results.find address)).union { neighborCache := answers.cached scan final address } := by
  unfold mergeRead Answers.cached
  cases hread : answers.neighbors final with
  | none => exact (Evidence.union_none _).symm
  | some entries => exact evidenceIn_mergeNeighbors (hcanonical final entries hread) hcovers results

theorem find_mergeRead_outside (hcanonical : answers.Canonical) (houtside : ¬ scan.covers address) (final : Bool)
    (results : Results) :
    (mergeRead scan results (answers.neighbors final)).find address = results.find address := by
  unfold mergeRead
  cases hread : answers.neighbors final with
  | none => rfl
  | some entries => exact find_mergeNeighbors_outside (hcanonical final entries hread) houtside results

theorem Evident.mergeRead {results : Results} (h : Evident (results.find address)) (read : Option (List NeighborEntry)) :
    Evident ((mergeRead scan results read).find address) := by
  cases read with
  | none => exact h
  | some entries => exact h.merge

theorem evident_afterFirst : Evident ((afterFirst scan answers).find address) := by
  have hempty : Evident ((Table.empty : Results).find address) := nofun
  exact hempty.mergeRead _

theorem usableMac_afterFirst : ∀ d ∈ (afterFirst scan answers).find address, isUsableMac d.macAddress = true := by
  unfold afterFirst mergeRead
  cases answers.neighbors false with
  | none => exact nofun
  | some entries => exact usableMac_merge nofun

theorem evidenceIn_afterFirst (hcanonical : answers.Canonical) (hcovers : scan.covers address) :
    evidenceIn ((afterFirst scan answers).find address) = { neighborCache := answers.cached scan false address } :=
  (evidenceIn_mergeRead hcanonical hcovers false .empty).trans (Evidence.none_union _)

/-- What the cache says before any address is processed. -/
theorem find_afterFirst_none (hcanonical : answers.Canonical) (hcovers : scan.covers address) :
    (afterFirst scan answers).find address = none ↔ answers.cached scan false address = false := by
  rw [evident_afterFirst.none_iff, evidenceIn_afterFirst hcanonical hcovers]
  simp [Evidence.none]

theorem evidence_sequential (hvalid : scan.Valid) (hcanonical : answers.Canonical) (hcovers : scan.covers address) :
    evidenceIn ((sequential scan answers).find address) = answers.evidence scan address ∧
      Evident ((sequential scan answers).find address) := by
  obtain ⟨i, hi, rfl⟩ := covers_offset hvalid hcovers
  obtain ⟨hevidence, hevident⟩ := evidenceIn_start evident_afterFirst usableMac_afterFirst
    (evidenceIn_afterFirst hcanonical hcovers)
  rw [← find_afterVisits hvalid (Nat.le_refl _) hi] at hevidence hevident
  refine ⟨?_, hevident.mergeRead _⟩
  refine (evidenceIn_mergeRead hcanonical hcovers true _).trans ?_
  rw [hevidence]
  simp [Evidence.union, Answers.evidence]

theorem find_sequential (hvalid : scan.Valid) (hcanonical : answers.Canonical) :
    (sequential scan answers).find address ≠ none ↔
      scan.covers address ∧ answers.evidence scan address ≠ .none := by
  by_cases hcovers : scan.covers address
  · obtain ⟨hevidence, hevident⟩ := evidence_sequential hvalid hcanonical hcovers
    rw [ne_eq, hevident.none_iff, hevidence]
    exact ⟨fun h => ⟨hcovers, h⟩, And.right⟩
  · have hnone : (sequential scan answers).find address = none := by
      unfold sequential
      rw [find_mergeRead_outside hcanonical hcovers true, find_afterVisits_ne]
      · exact find_mergeRead_outside hcanonical hcovers false .empty
      · rintro i hi rfl
        exact hcovers (covers_address hvalid hi)
    exact ⟨fun h => absurd hnone h, fun h => absurd h.1 hcovers⟩

/-- Some source knows the address. -/
theorem evidence_ne_none : answers.evidence scan address ≠ .none ↔
    answers.cached scan false address = true ∨ answers.cached scan true address = true ∨
      answers.ping address = true ∨ isAnswer (answers.resolve address) = true ∨ address = scan.interface.address := by
  simp only [Answers.evidence, Evidence.none, ne_eq, Evidence.mk.injEq, Bool.or_eq_false_iff, decide_eq_false_iff_not]
  by_cases hlocal : address = scan.interface.address
  · simp [hlocal]
  · cases answers.cached scan false address <;> cases answers.cached scan true address <;>
      cases answers.ping address <;> cases isAnswer (answers.resolve address) <;> simp [hlocal]

end Sequential

end MythLab.Discovery.NetworkDiscoveryService
