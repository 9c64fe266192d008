/-
  MythLab.Discovery.SequentialScan — the scan without concurrency, as a reference: the
  first read of the neighbour cache, the addresses one after the other, the second read.

  The answers of the probes depend on the address only, and every time is `epoch`: two
  results are one up to their times when they agree `untimed`. `finish` says of one
  address what its worker, run by itself, makes of the record stored for it; each step of
  a worker leaves that as it is (`finish_*`).
-/
import MythLab.Discovery.PublishedRecords

namespace MythLab.Discovery.NetworkDiscoveryService

open Lib Dotnet Devices

/-! ## The reference -/

/-- What the probes answer, whenever they are asked. -/
structure Answers where
  /-- The reads of the neighbour cache, the second one under `true`; a failed one is none. -/
  neighbors : Bool → Option (List NeighborEntry)
  ping : Str → Bool
  resolve : Str → Option Str
  name : Str → Option Str

/-- The time that stands for every time. -/
def epoch : DateTimeOffset := ⟨0, 0⟩

def untimed (d : DiscoveredDevice) : DiscoveredDevice :=
  { d with lastLiveObservationAt := d.lastLiveObservationAt.map fun _ => epoch }

def mergeNeighbors (scan : Scan) (results : Results) : List NeighborEntry → Results
  | [] => results
  | entry :: entries =>
    match scan.neighbor entry with
    | .skipped => mergeNeighbors scan results entries
    | .malformed => results
    | .usable device => mergeNeighbors scan (addOrUpdate results device) entries

/-- `MergeNeighbors`; a read that fails adds nothing. -/
def mergeRead (scan : Scan) (results : Results) (read : Option (List NeighborEntry)) : Results :=
  match read with
  | some entries => mergeNeighbors scan results entries
  | none => results

/-- The record of an address, and once more with its name if it has one. -/
def addNamed (results : Results) (device : DiscoveredDevice) (name : Str) : Results :=
  if isNullOrWhiteSpace name then addOrUpdate results device
  else addOrUpdate (addOrUpdate results device) { device with hostname := name }

/-- One address, processed by itself. -/
def visit (scan : Scan) (answers : Answers) (results : Results) (address : Str) : Results :=
  let isLocal : Bool := address = scan.interface.address
  let reply := !isLocal && answers.ping address
  let cached := results.find address
  let cachedMac := (cached.map (·.macAddress)).filter isUsableMac
  let resolved := if isLocal || cachedMac.isSome then none else answers.resolve address
  let mac := if isLocal then some scan.interface.macAddress else cachedMac.or (resolved.or (cached.map (·.macAddress)))
  let evidence :=
    gathered { arpResolution := isAnswer resolved, pingReply := reply, localInterface := isLocal } cached
  if evidence = .none then results
  else
    addNamed results (scan.device address evidence mac (if isLocal || reply then some epoch else none))
      ((answers.name address).getD [])

/-- After the first read. -/
def afterFirst (scan : Scan) (answers : Answers) : Results := mergeRead scan .empty (answers.neighbors false)

/-- After the first `n` addresses. -/
def afterVisits (scan : Scan) (answers : Answers) (n : Nat) : Results :=
  (List.range n).foldl (fun results offset => visit scan answers results (scan.address offset)) (afterFirst scan answers)

def sequential (scan : Scan) (answers : Answers) : Results :=
  mergeRead scan (afterVisits scan answers scan.range.count) (answers.neighbors true)

/-! ## One address -/

abbrev Cell := Option DiscoveredDevice

/-- The record of an address after `device` was published over it. -/
def put (cell : Cell) (device : DiscoveredDevice) : Cell :=
  match cell with
  | some old => some (device.merge old)
  | none => some device

theorem find_addOrUpdate_self (results : Results) (d : DiscoveredDevice) :
    (addOrUpdate results d).find d.address = put (results.find d.address) d := by
  have hself := Table.find_upsert_self results (published results d)
  rw [published_address] at hself
  unfold addOrUpdate
  rw [hself]
  unfold published put
  cases results.find d.address <;> rfl

theorem find_addOrUpdate_ne (results : Results) {d : DiscoveredDevice} {address : Str} (h : address ≠ d.address) :
    (addOrUpdate results d).find address = results.find address :=
  Table.find_upsert_ne results (by rw [published_address]; exact h)

theorem untimed_merge (d old : DiscoveredDevice) : untimed (d.merge old) = (untimed d).merge (untimed old) := by
  unfold untimed DiscoveredDevice.merge
  cases d.lastLiveObservationAt <;> rfl

theorem untimed_put (cell : Cell) (d : DiscoveredDevice) : (put cell d).map untimed = put (cell.map untimed) (untimed d) := by
  cases cell with
  | none => rfl
  | some old => exact congrArg some (untimed_merge d old)

section Finish

variable (scan : Scan) (answers : Answers) (address : Str)

def finishName (d : DiscoveredDevice) (cell : Cell) : Cell :=
  match afterName d (answers.name address) with
  | .publishing _ named => put cell named
  | _ => cell

def finishGather (evidence : Evidence) (mac : Option Str) (live : Option DateTimeOffset) (cell : Cell) : Cell :=
  match scan.gather address evidence mac live cell with
  | .publishing _ d => finishName answers address d (put cell d)
  | _ => cell

def finishResolve (evidence : Evidence) (live : Option DateTimeOffset) (cell : Cell) : Cell :=
  match afterResolve evidence live (answers.resolve address) with
  | .gathering evidence mac live => finishGather scan answers address evidence mac live cell
  | _ => cell

def finishLookUp (evidence : Evidence) (live : Option DateTimeOffset) (cell : Cell) : Cell :=
  match lookUp evidence live cell with
  | .gathering evidence mac live => finishGather scan answers address evidence mac live cell
  | .resolving evidence live => finishResolve scan answers address evidence live cell
  | _ => cell

def finishPing (now : DateTimeOffset) (cell : Cell) : Cell :=
  match afterPing (answers.ping address) now with
  | .lookingUp evidence live => finishLookUp scan answers address evidence live cell
  | _ => cell

/-- What a worker, run by itself from here, makes of the record of its address. -/
def finish : Worker → Cell → Cell
  | .pinging, cell => finishPing scan answers address epoch cell
  | .lookingUp evidence live, cell => finishLookUp scan answers address evidence live cell
  | .resolving evidence live, cell => finishResolve scan answers address evidence live cell
  | .gathering evidence mac live, cell => finishGather scan answers address evidence mac live cell
  | .publishing false d, cell | .storing false d, cell => finishName answers address d (put cell d)
  | .publishing true d, cell | .storing true d, cell => put cell d
  | .naming d, cell => finishName answers address d cell
  | .reporting, cell | .ended, cell | .threw, cell => cell

end Finish

section Finish

variable {scan : Scan} {answers : Answers} {address : Str}

/-! A worker's own steps leave what it comes to. -/

theorem finish_ping (now : DateTimeOffset) (cell : Cell) :
    finish scan answers address (afterPing (answers.ping address) now) cell = finishPing scan answers address now cell := by
  unfold finishPing afterPing
  split <;> rfl

theorem finish_lookUp (evidence : Evidence) (live : Option DateTimeOffset) (cell : Cell) :
    finish scan answers address (lookUp evidence live cell) cell = finishLookUp scan answers address evidence live cell := by
  unfold finishLookUp lookUp
  split
  · split <;> rfl
  · rfl

theorem finish_resolve (evidence : Evidence) (live : Option DateTimeOffset) (cell : Cell) :
    finish scan answers address (afterResolve evidence live (answers.resolve address)) cell =
      finishResolve scan answers address evidence live cell := rfl

theorem finish_gather (evidence : Evidence) (mac : Option Str) (live : Option DateTimeOffset) (cell : Cell) :
    finish scan answers address (scan.gather address evidence mac live cell) cell =
      finishGather scan answers address evidence mac live cell := by
  unfold finishGather Scan.gather
  split <;> rfl

theorem finish_publish (named : Bool) (d : DiscoveredDevice) (cell : Cell) :
    finish scan answers address (afterPublish named d) (put cell d) =
      finish scan answers address (.storing named d) cell := by
  cases named <;> rfl

theorem finish_name (d : DiscoveredDevice) (cell : Cell) :
    finish scan answers address (afterName d (answers.name address)) cell = finishName answers address d cell := by
  unfold finishName afterName
  split <;> rfl

/-! Up to its times, what it comes to does not depend on the times it read. -/

theorem finishName_eq (d : DiscoveredDevice) (cell : Cell) : finishName answers address d cell =
    if isNullOrWhiteSpace ((answers.name address).getD []) then cell
    else put cell { d with hostname := (answers.name address).getD [] } := by
  unfold finishName afterName
  by_cases h : isNullOrWhiteSpace ((answers.name address).getD []) = true
  · rw [if_pos h, if_pos h]
  · rw [if_neg h, if_neg h]

theorem finishGather_eq (evidence : Evidence) (mac : Option Str) (live : Option DateTimeOffset) (cell : Cell) :
    finishGather scan answers address evidence mac live cell =
      if gathered evidence cell = .none then cell
      else
        let d := scan.device address (gathered evidence cell) (mac.or (cell.map (·.macAddress))) live
        finishName answers address d (put cell d) := by
  unfold finishGather Scan.gather
  by_cases h : gathered evidence cell = .none
  · rw [if_pos h, if_neg (by simpa using h)]
  · rw [if_neg h, if_pos h]

theorem untimed_finishName {d d' : DiscoveredDevice} {cell cell' : Cell} (hd : untimed d = untimed d')
    (hcell : cell.map untimed = cell'.map untimed) :
    (finishName answers address d cell).map untimed = (finishName answers address d' cell').map untimed := by
  rw [finishName_eq, finishName_eq]
  split
  · exact hcell
  · have hnamed : ∀ d : DiscoveredDevice, untimed { d with hostname := (answers.name address).getD [] } =
        { untimed d with hostname := (answers.name address).getD [] } := fun _ => rfl
    rw [untimed_put, untimed_put, hcell, hnamed, hnamed, hd]

theorem untimed_finishGather {evidence : Evidence} {mac : Option Str} {live live' : Option DateTimeOffset} (cell : Cell)
    (hlive : live.isSome = live'.isSome) :
    (finishGather scan answers address evidence mac live cell).map untimed =
      (finishGather scan answers address evidence mac live' cell).map untimed := by
  have hepoch : (live.map fun _ => epoch) = live'.map fun _ => epoch := by
    cases live <;> cases live' <;> first | rfl | cases hlive
  have hdevice : ∀ e m, untimed (scan.device address e m live) = untimed (scan.device address e m live') := by
    intro e m
    unfold untimed Scan.device
    rw [hepoch]
  rw [finishGather_eq, finishGather_eq]
  split
  · rfl
  · refine untimed_finishName (hdevice _ _) ?_
    rw [untimed_put, untimed_put, hdevice]

theorem untimed_finishPing (now : DateTimeOffset) (cell : Cell) :
    (finishPing scan answers address now cell).map untimed = (finishPing scan answers address epoch cell).map untimed := by
  unfold finishPing afterPing
  cases answers.ping address with
  | false => rfl
  | true =>
    show (finishLookUp _ _ _ _ _ _).map untimed = (finishLookUp _ _ _ _ _ _).map untimed
    unfold finishLookUp lookUp
    cases cell with
    | none => exact untimed_finishGather none rfl
    | some cached =>
      by_cases h : isUsableMac cached.macAddress = true
      · simp only [h, if_true]
        exact untimed_finishGather _ rfl
      · simp only [h]
        exact untimed_finishGather _ rfl

/-! ## The reference, address by address -/

theorem find_addNamed_self (results : Results) (d : DiscoveredDevice) (name : Str) :
    (addNamed results d name).find d.address =
      if isNullOrWhiteSpace name then put (results.find d.address) d
      else put (put (results.find d.address) d) { d with hostname := name } := by
  unfold addNamed
  split
  · exact find_addOrUpdate_self results d
  · rw [← find_addOrUpdate_self results d]
    exact find_addOrUpdate_self (addOrUpdate results d) { d with hostname := name }

theorem find_addNamed_ne (results : Results) {d : DiscoveredDevice} {other : Str} (h : other ≠ d.address) (name : Str) :
    (addNamed results d name).find other = results.find other := by
  unfold addNamed
  split
  · exact find_addOrUpdate_ne results h
  · rw [← find_addOrUpdate_ne results h]
    exact find_addOrUpdate_ne (d := { d with hostname := name }) (addOrUpdate results d) h

theorem find_visit_self (results : Results) : (visit scan answers results address).find address =
    finish scan answers address (scan.start address epoch) (results.find address) := by
  -- the end of the body, whatever was found before it
  have hgather (evidence : Evidence) (mac : Option Str) (live : Option DateTimeOffset) :
      (if gathered evidence (results.find address) = .none then results
        else
          addNamed results (scan.device address (gathered evidence (results.find address))
            (mac.or ((results.find address).map (·.macAddress))) live) ((answers.name address).getD [])).find address =
      finishGather scan answers address evidence mac live (results.find address) := by
    rw [finishGather_eq]
    split
    · rfl
    · dsimp only
      rw [finishName_eq]
      exact find_addNamed_self results _ _
  unfold visit Scan.start
  by_cases hlocal : address = scan.interface.address
  · rw [if_pos hlocal]
    refine Eq.trans ?_ (hgather { localInterface := true } (some scan.interface.macAddress) (some epoch))
    simp [hlocal, isAnswer]
  · rw [if_neg hlocal]
    -- the evidence of a ping goes into the end of the body as it is
    have hping : finishPing scan answers address epoch (results.find address) =
        finishLookUp scan answers address { pingReply := answers.ping address }
          (if answers.ping address then some epoch else none) (results.find address) := by
      unfold finishPing afterPing
      cases answers.ping address <;> rfl
    show _ = finishPing _ _ _ _ _
    rw [hping]
    unfold finishLookUp lookUp
    cases hcell : results.find address with
    | none =>
      show _ = finishGather _ _ _ _ _ _ _
      rw [← hcell, ← hgather]
      cases hanswer : isAnswer (answers.resolve address) <;>
        simp [hlocal, hcell, hanswer, gathered, Evidence.union, Evidence.none]
    | some cached =>
      by_cases husable : isUsableMac cached.macAddress = true
      · simp only [husable, if_true]
        rw [← hcell, ← hgather]
        simp [hlocal, hcell, husable, isAnswer, Option.filter]
      · simp only [husable]
        show _ = finishGather _ _ _ _ _ _ _
        rw [← hcell, ← hgather]
        cases hanswer : isAnswer (answers.resolve address) <;>
          simp [hlocal, hcell, husable, hanswer, gathered, Evidence.union, Option.filter]

theorem find_visit_ne (results : Results) {other : Str} (h : other ≠ address) :
    (visit scan answers results address).find other = results.find other := by
  have hend (evidence : Evidence) (mac : Option Str) (live : Option DateTimeOffset) (name : Str) :
      (if evidence = .none then results
        else addNamed results (scan.device address evidence mac live) name).find other = results.find other := by
    split
    · rfl
    · exact find_addNamed_ne results h name
  exact hend _ _ _ _

end Finish

section Visits

variable {scan : Scan} {answers : Answers}

/-- No two offsets of the range have one address. -/
theorem address_inj (hvalid : scan.Valid) {i j : Nat} (hi : i < scan.range.count) (hj : j < scan.range.count)
    (h : scan.address i = scan.address j) : i = j := by
  obtain ⟨hle, hcount⟩ := hvalid
  have hlast := scan.range.last.toNat_lt
  have hsize : UInt32.size = 4294967296 := rfl
  have hadd := congrArg UInt32.toNat (Ipv4Subnet.format_inj h)
  rw [UInt32.toNat_add, UInt32.toNat_add, UInt32.toNat_ofNat_of_lt' (by omega),
    UInt32.toNat_ofNat_of_lt' (by omega)] at hadd
  rw [UInt32.le_iff_toNat_le] at hle
  omega

theorem afterVisits_succ (n : Nat) :
    afterVisits scan answers (n + 1) = visit scan answers (afterVisits scan answers n) (scan.address n) := by
  simp [afterVisits, List.range_succ]

theorem find_afterVisits_ne {n : Nat} {other : Str} (h : ∀ i < n, other ≠ scan.address i) :
    (afterVisits scan answers n).find other = (afterFirst scan answers).find other := by
  induction n with
  | zero => rfl
  | succ n ih =>
    rw [afterVisits_succ, find_visit_ne _ (h n (Nat.lt_succ_self n))]
    exact ih fun i hi => h i (Nat.lt_succ_of_lt hi)

theorem find_afterVisits (hvalid : scan.Valid) {n i : Nat} (hn : n ≤ scan.range.count) (hi : i < n) :
    (afterVisits scan answers n).find (scan.address i) =
      finish scan answers (scan.address i) (scan.start (scan.address i) epoch)
        ((afterFirst scan answers).find (scan.address i)) := by
  induction n with
  | zero => exact absurd hi (Nat.not_lt_zero i)
  | succ n ih =>
    rw [afterVisits_succ]
    by_cases hin : i = n
    · subst hin
      rw [find_visit_self, find_afterVisits_ne]
      intro j hj hsame
      have := address_inj hvalid (Nat.lt_of_succ_le hn) (by omega) hsame
      omega
    · have hlt : i < n := by omega
      have hne : scan.address i ≠ scan.address n := fun hsame =>
        hin (address_inj hvalid (by omega) (by omega) hsame)
      rw [find_visit_ne _ hne]
      exact ih (by omega) hlt

end Visits

end MythLab.Discovery.NetworkDiscoveryService
