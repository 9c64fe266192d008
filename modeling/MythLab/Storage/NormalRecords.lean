/-
  MythLab.Storage.NormalRecords — the stored records are normal, and what observations
  make of them.

  Proved: in every run each stored record is one that normalization leaves as it is
  (`reach_normalRecords`); after any observations a record is still there and differs in
  their fields only (`Observations.record`).
-/
import MythLab.Devices.NormalDevices
import MythLab.Storage.Observations

namespace MythLab.Storage.NormalRecords

open Lib Dotnet Devices Repository Identity Observations DeviceRules

variable {fw : Framework}

def AllNormal (fw : Framework) (db : Database) : Prop := ∀ row ∈ db.devices.rows, Normal fw row.document

theorem Normal.defined {d : Device} (h : Normal fw d) : d.lastKnownState.isDefined = true ∧ d.wake.capability.isDefined = true := by
  obtain ⟨_, _, _, ha, -⟩ := normalizeAndValidate_ok_iff.mp h
  exact ⟨ha.defined.2.1, ha.defined.2.2.2⟩

theorem savedCapability_spec (current n : Device) : (savedCapability current n).isDefined = true ∧
    (savedCapability current n ≠ .disabled → n.wake.capability ≠ .disabled) := by
  unfold savedCapability
  split
  · exact ⟨rfl, fun h => absurd rfl h⟩
  · split
    · exact ⟨rfl, fun _ => ‹_›⟩
    · exact ⟨rfl, fun _ => ‹_›⟩

theorem mergeSaved_normal {current n : Device} (hcurrent : Normal fw current) (hn : Normal fw n) :
    Normal fw (mergeSaved current n) := by
  obtain ⟨hdefined, hwake⟩ := savedCapability_spec current n
  unfold mergeSaved
  refine hn.rewritten _ _ ?_ hdefined hwake
  split
  · exact (Normal.defined hcurrent).1
  · rfl

theorem observed_normal {current expected : Device} {observation : StatusObservation} {verifyWake : Bool}
    (h : Normal fw current) (hobservable : observable observation.state = true) :
    Normal fw (observed current expected observation verifyWake) := by
  have hstate : observation.state.isDefined = true := by
    cases hs : observation.state with
    | undefined value =>
      rw [hs] at hobservable
      cases hobservable
    | _ => rfl
  have hcapability := observed_capability current expected observation verifyWake
  have hobserved : observed current expected observation verifyWake = { current with
      lastKnownState := observation.state
      lastChecked := some observation.checkedAt
      lastSeen := (observed current expected observation verifyWake).lastSeen
      wake := { current.wake with capability := (observed current expected observation verifyWake).wake.capability } } :=
    Device.ext rfl rfl rfl rfl rfl rfl rfl rfl rfl (observed_wake _ _ _ _) rfl rfl rfl rfl rfl
  rw [hobserved]
  refine h.rewritten _ _ hstate ?_ ?_
  · rw [hcapability]
    split
    · rfl
    · exact (Normal.defined h).2
  · rw [hcapability]
    intro hne
    split at hne
    · rename_i hverified
      exact hverified.2.2.1
    · exact hne

theorem saveDevice_normalRecords (hnames : SpacelessNames fw) {device : Device} {db db' : Database}
    (hdb : AllNormal fw db) (h : saveDevice fw device db = .ok db') : AllNormal fw db' := by
  obtain ⟨normalized, hn, -, rfl⟩ := saveDevice_ok h
  have hnormal := Normal.of_normalized hnames hn
  intro row hrow
  rcases Table.mem_upsert.mp hrow with rfl | ⟨hrow, -⟩
  · show Normal fw (merged (readDevices db) normalized)
    unfold merged
    split
    · rename_i current hfind
      obtain ⟨old, hold, rfl⟩ := mem_readDevices.mp (List.mem_of_find?_eq_some hfind)
      exact mergeSaved_normal (hdb old hold) hnormal
    · exact hnormal
  · exact hdb row hrow

theorem apply_normalRecords (hnames : SpacelessNames fw) {request : Request} {db db' : Database} {a : Option Device}
    (hdb : AllNormal fw db) (h : request.apply fw db = .ok (a, db')) : AllNormal fw db' := by
  by_cases hid : deviceId request = none
  · intro row hrow
    rw [apply_devices hid h] at hrow
    exact hdb row hrow
  · cases request with
    | saveDevice device => exact saveDevice_normalRecords hnames hdb (returning_ok_iff.mp h).2
    | applyObservation expected observation verifyWake =>
      obtain ⟨hobservable, hresult⟩ := applyObservation_ok h
      rcases hresult with ⟨-, rfl⟩ | ⟨current, hfind, -, -, rfl⟩
      · exact hdb
      · obtain ⟨old, hold, rfl⟩ := mem_readDevices.mp (List.mem_of_find?_eq_some hfind)
        intro row hrow
        rcases updateDocument_mem.mp hrow with ⟨_, -, -, rfl⟩ | ⟨hrow, -⟩
        · exact observed_normal (hdb old hold) hobservable
        · exact hdb row hrow
    | deleteDevice id =>
      cases h
      exact fun row hrow => hdb row (mem_deleteDevice.mp hrow).1
    | _ => exact absurd rfl hid

theorem reach_normalRecords (hnames : SpacelessNames fw) {s : Store} (h : (repository fw).Reach s) :
    AllNormal fw s.db :=
  reach_inv (I := AllNormal fw) (fun _ hrow => (List.not_mem_nil hrow).elim)
    (fun _ _ _ _ hdb happly => apply_normalRecords hnames hdb happly) h

theorem run_initialized (s : Store) (c : Call) : (run fw s c).2.initialized = s.initialized := by
  rcases run_cases fw s c with ⟨_, _, -, -, hs⟩ | ⟨_, -, hs, -⟩
  · rw [hs]
  · rw [hs]

theorem reach_initialized {s : Store} (h : (repository fw).Reach s) : s.initialized = true := by
  refine Machine.Reach.inv (I := fun s => s.initialized = true) ?_ ?_ h
  · intro s hs
    cases hs
    rfl
  · intro s c s' hs hs'
    cases hs'
    rw [run_initialized, hs]

/-! ## Observations -/

/-- Observations, of any devices and each failing or not, lead from `s` to `t`. -/
def ObservedInto (fw : Framework) : Store → Store → Prop :=
  Relation.ReflTransGen fun s t => ∃ expected observation verifyWake faults,
    t = (run fw s ⟨.applyObservation expected observation verifyWake, faults⟩).2

/-- `d` after observations: another state, other times, perhaps Verified. -/
structure ObservedFrom (c d : Device) : Prop where
  fields : d = { c with
    lastKnownState := d.lastKnownState
    lastChecked := d.lastChecked
    lastSeen := d.lastSeen
    wake := { c.wake with capability := d.wake.capability } }
  capability : d.wake.capability = c.wake.capability ∨ (c.wake.capability ≠ .disabled ∧ d.wake.capability = .verified)

theorem ObservedFrom.refl (d : Device) : ObservedFrom d d := ⟨rfl, Or.inl rfl⟩

theorem ObservedFrom.trans {c d e : Device} (h : ObservedFrom c d) (h' : ObservedFrom d e) : ObservedFrom c e := by
  refine ⟨?_, ?_⟩
  · rw [h'.fields, h.fields]
  · rcases h'.capability with he | ⟨hd, he⟩
    · rw [he]
      exact h.capability
    · refine Or.inr ⟨?_, he⟩
      rcases h.capability with hd' | ⟨hc, -⟩
      · exact hd' ▸ hd
      · exact hc

theorem observed_from (c expected : Device) (observation : StatusObservation) (verifyWake : Bool) :
    ObservedFrom c (observed c expected observation verifyWake) := by
  refine ⟨Device.ext rfl rfl rfl rfl rfl rfl rfl rfl rfl (observed_wake _ _ _ _) rfl rfl rfl rfl rfl, ?_⟩
  rw [observed_capability]
  split
  · rename_i h
    exact Or.inr ⟨h.2.2.1, rfl⟩
  · exact Or.inl rfl

theorem ObservedInto.reach {s t : Store} (h : ObservedInto fw s t) (hs : (repository fw).Reach s) :
    (repository fw).Reach t := by
  induction h with
  | refl => exact hs
  | tail _ hstep ih =>
    obtain ⟨_, _, _, _, rfl⟩ := hstep
    exact Machine.reach_step _ ih rfl

/-- After observations the record of a device is there still, and only observed. -/
theorem ObservedInto.record {s t : Store} (h : ObservedInto fw s t) (hs : (repository fw).Reach s) {row : DeviceRow}
    (hrow : row ∈ s.db.devices.rows) :
    ∃ row' ∈ t.db.devices.rows, row'.id = row.id ∧ ObservedFrom row.document row'.document := by
  induction h with
  | refl => exact ⟨row, hrow, rfl, .refl _⟩
  | @tail u v hsu hstep ih =>
    obtain ⟨old, hold, hid, hobserved⟩ := ih
    have hdb := reach_identified (ObservedInto.reach hsu hs)
    obtain ⟨expected, observation, verifyWake, faults, rfl⟩ := hstep
    rcases run_cases fw u ⟨.applyObservation expected observation verifyWake, faults⟩ with
      ⟨_, db, -, happly, hv⟩ | ⟨_, -, hv, -⟩
    · rw [hv]
      rcases (applyObservation_ok happly).2 with ⟨-, rfl⟩ | ⟨current, hfind, -, -, rfl⟩
      · exact ⟨old, hold, hid, hobserved⟩
      · obtain ⟨found, hfound, rfl⟩ := mem_readDevices.mp (List.mem_of_find?_eq_some hfind)
        by_cases he : old.id = found.document.id
        · obtain rfl : old = found := Table.key_inj hold hfound (he.trans (hdb.ids found hfound).symm)
          refine ⟨_, updateDocument_mem.mpr (Or.inl ⟨old, hold, he, rfl⟩), hid, hobserved.trans ?_⟩
          exact observed_from _ _ _ _
        · exact ⟨old, updateDocument_mem.mpr (Or.inr ⟨hold, he⟩), hid, hobserved⟩
    · rw [hv]
      exact ⟨old, hold, hid, hobserved⟩

end MythLab.Storage.NormalRecords
