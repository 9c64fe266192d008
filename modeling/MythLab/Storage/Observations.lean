/-
  MythLab.Storage.Observations — edits and observations of one device.

  A save and an observation each read the stored record and write a merge of it. Proved:
  the two merges commute on records (`merge_observe_comm`), so that an observation
  between an editor's read and its save is not lost, nor the edit, and the calls commute
  on databases (`save_observe_comm`).

  A stored device is Verified only when an observation earned it: `verified_is_earned`,
  for the runs in which no device is inserted as Verified already. `SaveAsync` merges the
  capability only with a record that exists, so an insert stores the caller's
  (`insert_verified_unearned`).
-/
import MythLab.Storage.Identity

namespace MythLab.Storage.Observations

open Lib Dotnet Devices Repository Identity

/-! ## The two merges -/

/-- The record after an observation of `expected`, accepted or not. -/
def observe (current expected : Device) (observation : StatusObservation) (verifyWake : Bool) : Device :=
  if accepts current expected observation then observed current expected observation verifyWake else current

theorem observe_fields (current expected : Device) (observation : StatusObservation) (verifyWake : Bool) :
    (observe current expected observation verifyWake).id = current.id ∧
      (observe current expected observation verifyWake).hostname = current.hostname ∧
      (observe current expected observation verifyWake).ipv4Address = current.ipv4Address ∧
      (observe current expected observation verifyWake).macAddress = current.macAddress ∧
      (observe current expected observation verifyWake).displayName = current.displayName := by
  unfold observe
  split <;> exact ⟨rfl, rfl, rfl, rfl, rfl⟩

theorem sameWake_observed (c e n : Device) (o : StatusObservation) (v : Bool) :
    DeviceTargets.sameWake (observed c e o v) n = DeviceTargets.sameWake c n := by
  unfold DeviceTargets.sameWake observed
  dsimp only
  split <;> rfl

theorem sameStatus_mergeSaved (c n : Device) :
    DeviceTargets.sameStatus (mergeSaved c n) c = DeviceTargets.sameStatus n c := rfl

theorem sameWake_mergeSaved (c n : Device) :
    DeviceTargets.sameWake (mergeSaved c n) c = DeviceTargets.sameWake n c := rfl

/-- A save that changes the status target forgets what was observed. -/
theorem mergeSaved_changed {c c' n : Device} (h : DeviceTargets.sameStatus c n = false)
    (h' : DeviceTargets.sameStatus c' n = false) : mergeSaved c n = mergeSaved c' n := by
  have unverified {d : Device} (hd : DeviceTargets.sameStatus d n = false) :
      savedCapability d n = if n.wake.capability = .disabled then .disabled else .enabledUnverified := by
    have hw : ¬ (d.wake.capability = .verified ∧ DeviceTargets.sameWake d n = true) := by
      intro hw
      simp [(DeviceTargets.sameWake_iff.mp hw.2).1] at hd
    unfold savedCapability
    rw [if_neg hw]
  unfold mergeSaved
  rw [unverified h, unverified h', h, h']
  rfl

/-- A save that keeps it keeps that. -/
theorem mergeSaved_kept {c n : Device} (h : DeviceTargets.sameStatus c n = true) :
    (mergeSaved c n).lastKnownState = c.lastKnownState ∧ (mergeSaved c n).lastChecked = c.lastChecked ∧
      (mergeSaved c n).lastSeen = c.lastSeen := by
  unfold mergeSaved
  dsimp only
  rw [if_pos h, if_pos h, if_pos h]
  exact ⟨rfl, rfl, rfl⟩

theorem observed_capability (c e : Device) (o : StatusObservation) (v : Bool) :
    (observed c e o v).wake.capability =
      if v = true ∧ o.state = .online ∧ c.wake.capability ≠ .disabled ∧ DeviceTargets.sameWake c e = true then .verified
      else c.wake.capability := by
  unfold observed
  simp only [Bool.and_eq_true, decide_eq_true_eq, and_assoc]
  split <;> rfl

/-- An observation changes nothing of the wake settings but the capability. -/
theorem observed_wake (c e : Device) (o : StatusObservation) (v : Bool) :
    (observed c e o v).wake = { c.wake with capability := (observed c e o v).wake.capability } := by
  unfold observed
  dsimp only
  split <;> rfl

/-- Merging after the observation or before it, the capability is the same. -/
theorem capability_comm (c n : Device) (o : StatusObservation) (v : Bool)
    (hwake : ¬ (c.wake.capability = .disabled ∧ n.wake.capability ≠ .disabled)) :
    savedCapability (observed c c o v) n = (observed (mergeSaved c n) c o v).wake.capability := by
  rw [observed_capability, sameWake_mergeSaved, DeviceTargets.sameWake_comm n c]
  show _ = if v = true ∧ o.state = .online ∧ savedCapability c n ≠ .disabled ∧ DeviceTargets.sameWake c n = true then
    WakeCapability.verified else savedCapability c n
  unfold savedCapability
  rw [observed_capability, sameWake_observed, DeviceTargets.sameWake_self]
  by_cases hn : n.wake.capability = .disabled
  · simp [hn]
  · have hc : c.wake.capability ≠ .disabled := fun hc => hwake ⟨hc, hn⟩
    by_cases hw : DeviceTargets.sameWake c n = true
    · by_cases hv : v = true ∧ o.state = .online
      · simp only [hn, hv, hc, hw, ne_eq, not_false_eq_true, and_true, true_and, if_true, if_false]
        split <;> rfl
      · have hno (p : Prop) : ¬ (v = true ∧ o.state = .online ∧ p) := fun h => hv ⟨h.1, h.2.1⟩
        rw [if_neg (hno _), if_neg (hno _)]
    · simp [hn, hw]

theorem accepts_kept {c n : Device} (o : StatusObservation) (h : DeviceTargets.sameStatus c n = true) :
    accepts (mergeSaved c n) c o = accepts c c o := by
  unfold accepts
  rw [sameStatus_mergeSaved, DeviceTargets.sameStatus_comm, h, DeviceTargets.sameStatus_self, (mergeSaved_kept h).2.1]

theorem accepts_changed {c n : Device} (o : StatusObservation) (h : DeviceTargets.sameStatus c n = false) :
    accepts (mergeSaved c n) c o = false := by
  unfold accepts
  rw [sameStatus_mergeSaved, DeviceTargets.sameStatus_comm, h]
  rfl

/-- Unless the edit enables wake where it was disabled, saving the edit over the
    observed record and observing the saved record are one record. -/
theorem merge_observe_comm (c n : Device) (o : StatusObservation) (v : Bool)
    (hwake : ¬ (c.wake.capability = .disabled ∧ n.wake.capability ≠ .disabled)) :
    mergeSaved (observe c c o v) n = observe (mergeSaved c n) c o v := by
  rcases hsame : DeviceTargets.sameStatus c n with _ | _
  · -- another target: the observation is dropped in both orders
    have hobs : DeviceTargets.sameStatus (observe c c o v) n = false := by
      unfold observe; split <;> exact hsame
    rw [mergeSaved_changed hobs hsame, observe, accepts_changed o hsame]
    rfl
  · unfold observe
    rw [accepts_kept o hsame]
    split
    · obtain ⟨hstate, hchecked, hseen⟩ := mergeSaved_kept (c := observed c c o v) hsame
      refine Device.ext rfl rfl rfl rfl rfl rfl rfl rfl rfl ?_ hstate hchecked ?_ rfl rfl
      · rw [observed_wake, ← capability_comm c n o v hwake]; rfl
      · rw [hseen]
        show (if o.state = .online then _ else c.lastSeen) = if o.state = .online then _ else (mergeSaved c n).lastSeen
        rw [(mergeSaved_kept hsame).2.2]
    · rfl

/-- The record both orders leave: the edit's metadata; the observation, if the edit keeps
    the status target; never Verified, if it changes the wake target. -/
theorem commuted_record (c n : Device) (o : StatusObservation) (v : Bool) :
    let d := observe (mergeSaved c n) c o v
    d = { n with
      lastKnownState := d.lastKnownState
      lastChecked := d.lastChecked
      lastSeen := d.lastSeen
      wake := { n.wake with capability := d.wake.capability } } ∧
    (DeviceTargets.sameStatus c n = true → accepts c c o = true →
      d.lastKnownState = o.state ∧ d.lastChecked = some o.checkedAt) ∧
    (DeviceTargets.sameStatus c n = false → d.lastKnownState = .unknown) ∧
    (DeviceTargets.sameWake c n = false → d.wake.capability ≠ .verified) := by
  refine ⟨?_, ?_, ?_, ?_⟩
  · unfold observe
    split
    · exact Device.ext rfl rfl rfl rfl rfl rfl rfl rfl rfl (observed_wake _ _ _ _) rfl rfl rfl rfl rfl
    · rfl
  · intro hsame hacc
    unfold observe
    rw [accepts_kept o hsame, hacc]
    exact ⟨rfl, rfl⟩
  · intro hsame
    unfold observe
    rw [accepts_changed o hsame]
    show (if DeviceTargets.sameStatus c n = true then _ else _) = _
    rw [hsame]
    rfl
  · intro hwake
    have hsaved : savedCapability c n ≠ .verified := by
      unfold savedCapability
      rw [hwake]
      split <;> simp
    unfold observe
    split
    · rw [observed_capability, sameWake_mergeSaved, DeviceTargets.sameWake_comm, hwake, if_neg (by simp)]
      exact hsaved
    · exact hsaved

/-! ## The two calls -/

def observedRow (row : DeviceRow) (expected : Device) (o : StatusObservation) (v : Bool) : DeviceRow :=
  { row with document := observe row.document expected o v }

theorem find_stored {db : Database} {row : DeviceRow} (hrow : row ∈ db.devices.rows) :
    db.devices.find row.id = some row := (Table.find_some_iff _ _ _).mpr ⟨hrow, rfl⟩

/-- A save over a stored row: the record it stores, and when it is accepted. -/
theorem saveDevice_stored {fw : Framework} {device normalized : Device} {db db' : Database} {row : DeviceRow}
    (hids : ∀ row ∈ db.devices.rows, row.id = row.document.id) (hrow : row ∈ db.devices.rows)
    (hn : DeviceRules.normalizeAndValidate fw device = .ok normalized) (hid : row.id = normalized.id) :
    saveDevice fw device db = .ok db' ↔
      (∀ r ∈ db.devices.rows, DeviceRules.matchReason fw (mergeSaved row.document normalized) r.document = .ok none) ∧
      db.uniqueConflict (deviceRow (mergeSaved row.document normalized)) = none ∧
      db' = db.setDevice (deviceRow (mergeSaved row.document normalized)) := by
  have hmerged : merged (readDevices db) normalized = mergeSaved row.document normalized := by
    unfold merged
    rw [find_record hids, ← hid, find_stored hrow]
    rfl
  have hpresent : db.devices.find (deviceRow (mergeSaved row.document normalized)).id ≠ none := by
    show db.devices.find normalized.id ≠ none
    rw [← hid, find_stored hrow]
    simp
  refine ⟨?_, ?_⟩
  · intro h
    obtain ⟨n, hn', h⟩ := bind_ok_iff.mp h
    rw [hn] at hn'
    cases hn'
    obtain ⟨_, hdup, h⟩ := bind_ok_iff.mp h
    rw [hmerged] at hdup h
    have hunique := (Database.upsertDevice_ok h).1
    rw [Database.upsertDevice_present hpresent hunique] at h
    exact ⟨fun r hr => checkDuplicates_ok_iff.mp hdup _ (mem_readDevices.mpr ⟨r, hr, rfl⟩), hunique,
      (Except.ok.inj h).symm⟩
  · intro ⟨hmatch, hunique, hdb⟩
    refine bind_ok_iff.mpr ⟨normalized, hn, ?_⟩
    rw [hmerged]
    refine bind_ok_iff.mpr ⟨(), checkDuplicates_ok_iff.mpr ?_, ?_⟩
    · intro r hr
      obtain ⟨x, hx, rfl⟩ := mem_readDevices.mp hr
      exact hmatch x hx
    · rw [Database.upsertDevice_present hpresent hunique, hdb]

/-- An observation of a stored device replaces its row, if only by itself. -/
theorem applyObservation_stored (expected : Device) {o : StatusObservation} (v : Bool) {db : Database} {row : DeviceRow}
    (hids : ∀ row ∈ db.devices.rows, row.id = row.document.id) (hrow : row ∈ db.devices.rows)
    (hid : row.id = expected.id) (hobs : observable o.state = true) :
    ∃ result, applyObservation expected o v db = .ok (result, db.setDevice (observedRow row expected o v)) := by
  have hcheck : checkObservable o = .ok () := throwIf_ok_iff.mpr (by simpa using hobs)
  unfold applyObservation observedRow observe
  rw [hcheck, ok_bind, find_record hids, ← hid, find_stored hrow]
  dsimp only [Option.map]
  split
  · refine ⟨some (observed row.document expected o v), ?_⟩
    rw [Database.updateDocument, ← hids row hrow, find_stored hrow]
    rfl
  · refine ⟨none, ?_⟩
    rw [Database.setDevice, Table.set_rows_same fun x hx hk => Table.key_inj hx hrow hk]
    rfl

theorem mem_setDevice {db : Database} {row r : DeviceRow} (h : r ∈ (db.setDevice row).devices.rows) :
    r = row ∨ r ∈ db.devices.rows := (Table.mem_set.mp h).imp And.left And.left

theorem setDevice_mem {db : Database} {old : DeviceRow} (row : DeviceRow) (hold : old ∈ db.devices.rows)
    (hid : old.id = row.id) : row ∈ (db.setDevice row).devices.rows :=
  Table.mem_set.mpr (Or.inl ⟨rfl, by rw [← hid, find_stored hold]; simp⟩)

theorem ids_setDevice {db : Database} (row : DeviceRow) (hids : ∀ row ∈ db.devices.rows, row.id = row.document.id)
    (hrow : row.id = row.document.id) : ∀ r ∈ (db.setDevice row).devices.rows, r.id = r.document.id := by
  intro r hr
  rcases mem_setDevice hr with rfl | hr
  · exact hrow
  · exact hids r hr

/-- What an observation changes of a row is not read by the checks of a save. -/
theorem checks_observedRow {fw : Framework} {db : Database} {row : DeviceRow} {d : Device} (expected : Device)
    (o : StatusObservation) (v : Bool) (hrow : row ∈ db.devices.rows)
    (hmatch : ∀ r ∈ db.devices.rows, DeviceRules.matchReason fw d r.document = .ok none)
    (hunique : db.uniqueConflict (deviceRow d) = none) :
    (∀ r ∈ (db.setDevice (observedRow row expected o v)).devices.rows,
      DeviceRules.matchReason fw d r.document = .ok none) ∧
      (db.setDevice (observedRow row expected o v)).uniqueConflict (deviceRow d) = none := by
  refine ⟨?_, Database.uniqueConflict_none_iff.mpr ?_⟩
  · intro r hr
    rcases mem_setDevice hr with rfl | hr
    · obtain ⟨h1, h2, h3, h4, -⟩ := observe_fields row.document expected o v
      exact (DeviceRules.matchReason_congr fw rfl rfl rfl rfl h1 h2 h3 h4).trans (hmatch row hrow)
    · exact hmatch r hr
  · intro r hr hid
    rcases mem_setDevice hr with rfl | hr
    · exact Database.uniqueConflict_none_iff.mp hunique row hrow hid
    · exact Database.uniqueConflict_none_iff.mp hunique r hr hid

/-- The row of an observed record is its own columns. -/
theorem observedRow_deviceRow (d expected : Device) (o : StatusObservation) (v : Bool) :
    observedRow (deviceRow d) expected o v = deviceRow (observe d expected o v) := by
  obtain ⟨hid, hhost, hip, hmac, hname⟩ := observe_fields d expected o v
  unfold observedRow deviceRow
  rw [hid, hhost, hip, hmac, hname]

/-- Both orders end in the database whose row for the device is the commuted merge. -/
theorem both_orders {fw : Framework} {db saved : Database} {row : DeviceRow} {edit n : Device} (o : StatusObservation)
    (v : Bool) (hids : ∀ row ∈ db.devices.rows, row.id = row.document.id) (hrow : row ∈ db.devices.rows)
    (hobs : observable o.state = true) (hn : DeviceRules.normalizeAndValidate fw edit = .ok n) (hid : row.id = n.id)
    (hsave : saveDevice fw edit db = .ok saved)
    (hwake : ¬ (row.document.wake.capability = .disabled ∧ n.wake.capability ≠ .disabled)) :
    ∃ observedFirst r r', applyObservation row.document o v db = .ok (r, observedFirst) ∧
      saveDevice fw edit observedFirst =
        .ok (db.setDevice (deviceRow (observe (mergeSaved row.document n) row.document o v))) ∧
      applyObservation row.document o v saved =
        .ok (r', db.setDevice (deviceRow (observe (mergeSaved row.document n) row.document o v))) := by
  obtain ⟨hmatch, hunique, rfl⟩ := (saveDevice_stored hids hrow hn hid).mp hsave
  have hcomm := merge_observe_comm row.document n o v hwake
  have hoid := (observe_fields row.document row.document o v).1
  obtain ⟨hmid, hmhost, hmip, hmmac, -⟩ := observe_fields (mergeSaved row.document n) row.document o v
  obtain ⟨r, hr⟩ := applyObservation_stored row.document v hids hrow (hids row hrow) hobs
  have hids' := ids_setDevice (observedRow row row.document o v) hids ((hids row hrow).trans hoid.symm)
  have hrow' := setDevice_mem (observedRow row row.document o v) hrow rfl
  have hsaved : (deviceRow (mergeSaved row.document n)) ∈
      (db.setDevice (deviceRow (mergeSaved row.document n))).devices.rows := setDevice_mem _ hrow hid
  obtain ⟨r', hr'⟩ := applyObservation_stored row.document v (ids_setDevice _ hids rfl) hsaved
    (hid.symm.trans (hids row hrow)) hobs
  refine ⟨_, r, r', hr, ?_, ?_⟩
  · have hmatch' : ∀ x ∈ db.devices.rows,
        DeviceRules.matchReason fw (observe (mergeSaved row.document n) row.document o v) x.document = .ok none := by
      intro x hx
      exact (DeviceRules.matchReason_congr fw hmid hmhost hmip hmmac rfl rfl rfl rfl).trans (hmatch x hx)
    have hunique' : db.uniqueConflict (deviceRow (observe (mergeSaved row.document n) row.document o v)) = none := by
      rw [← observedRow_deviceRow]
      exact hunique
    refine (saveDevice_stored hids' hrow' hn hid).mpr ?_
    show (∀ x ∈ _, DeviceRules.matchReason fw (mergeSaved (observe row.document row.document o v) n) _ = _) ∧
      Database.uniqueConflict _ (deviceRow (mergeSaved (observe row.document row.document o v) n)) = none ∧
      _ = Database.setDevice _ (deviceRow (mergeSaved (observe row.document row.document o v) n))
    rw [hcomm]
    obtain ⟨h1, h2⟩ := checks_observedRow row.document o v hrow hmatch' hunique'
    refine ⟨h1, h2, ?_⟩
    rw [Database.setDevice_setDevice]
    exact hid.trans hmid.symm
  · rw [hr', observedRow_deviceRow, Database.setDevice_setDevice]
    exact hmid.symm

/-- An edit that is accepted and an observation of the record it was read from leave one
    database, in whichever order they come. -/
theorem save_observe_comm (fw : Framework) (db saved : Database) (row : DeviceRow) (edit : Device)
    (o : StatusObservation) (v : Bool) (hids : ∀ row ∈ db.devices.rows, row.id = row.document.id)
    (hrow : row ∈ db.devices.rows) (hid : edit.id = row.document.id) (hobs : observable o.state = true)
    (hsave : saveDevice fw edit db = .ok saved)
    (hwake : ¬ (row.document.wake.capability = .disabled ∧ edit.wake.capability ≠ .disabled)) :
    ∃ observedFirst final r r' n d,
      applyObservation row.document o v db = .ok (r, observedFirst) ∧ saveDevice fw edit observedFirst = .ok final ∧
      applyObservation row.document o v saved = .ok (r', final) ∧
      DeviceRules.normalizeAndValidate fw edit = .ok n ∧ final.devices.find edit.id = some (deviceRow d) ∧
      d = { n with
        lastKnownState := d.lastKnownState
        lastChecked := d.lastChecked
        lastSeen := d.lastSeen
        wake := { n.wake with capability := d.wake.capability } } ∧
      (DeviceTargets.sameStatus row.document n = true → accepts row.document row.document o = true →
        d.lastKnownState = o.state ∧ d.lastChecked = some o.checkedAt) ∧
      (DeviceTargets.sameStatus row.document n = false → d.lastKnownState = .unknown) ∧
      (DeviceTargets.sameWake row.document n = false → d.wake.capability ≠ .verified) := by
  obtain ⟨n, hn, -⟩ := saveDevice_ok hsave
  obtain ⟨hnid, hncap, -⟩ := DeviceRules.normalizeAndValidate_fields hn
  have hrid : row.id = n.id := (hids row hrow).trans (hid.symm.trans hnid.symm)
  obtain ⟨observedFirst, r, r', hr, hfirst, hsecond⟩ :=
    both_orders o v hids hrow hobs hn hrid hsave (by rw [hncap]; exact hwake)
  refine ⟨observedFirst, _, r, r', n, _, hr, hfirst, hsecond, hn, ?_, commuted_record row.document n o v⟩
  have hdid := (observe_fields (mergeSaved row.document n) row.document o v).1
  rw [← hnid]
  refine (Table.find_some_iff _ _ _).mpr ⟨setDevice_mem _ hrow (hrid.trans hdid.symm), hdid⟩

/-- The same of the calls: for every contents of the table, an edit that `SaveAsync`
    accepts and an observation of the stored record commute. -/
theorem edits_and_observations_commute (fw : Framework) (s : Store) (row : DeviceRow) (edit : Device)
    (o : StatusObservation) (v : Bool) (hinit : s.initialized = true)
    (hids : ∀ row ∈ s.db.devices.rows, row.id = row.document.id) (hrow : row ∈ s.db.devices.rows)
    (hid : edit.id = row.document.id) (hobs : observable o.state = true)
    (hsave : (run fw s (quiet (.saveDevice edit))).1 = .ok none)
    (hwake : ¬ (row.document.wake.capability = .disabled ∧ edit.wake.capability ≠ .disabled)) :
    let save := quiet (.saveDevice edit)
    let observe := quiet (.applyObservation row.document o v)
    let final := (run fw (run fw s observe).2 save).2
    (run fw (run fw s observe).2 save).1 = .ok none ∧ (run fw (run fw s save).2 observe).2 = final ∧
    ∃ n d, DeviceRules.normalizeAndValidate fw edit = .ok n ∧ final.db.devices.find edit.id = some (deviceRow d) ∧
      d = { n with
        lastKnownState := d.lastKnownState
        lastChecked := d.lastChecked
        lastSeen := d.lastSeen
        wake := { n.wake with capability := d.wake.capability } } ∧
      (DeviceTargets.sameStatus row.document n = true → accepts row.document row.document o = true →
        d.lastKnownState = o.state ∧ d.lastChecked = some o.checkedAt) ∧
      (DeviceTargets.sameStatus row.document n = false → d.lastKnownState = .unknown) ∧
      (DeviceTargets.sameWake row.document n = false → d.wake.capability ≠ .verified) := by
  intro save observe final
  rcases run_cases fw s save with ⟨a, saved, -, happly, -⟩ | ⟨e, he, -, -⟩
  · have hstep : saveDevice fw edit s.db = .ok saved := (returning_ok_iff.mp happly).2
    obtain ⟨observedFirst, db, r, r', n, d, hr, hfirst, hsecond, hrest⟩ :=
      save_observe_comm fw s.db saved row edit o v hids hrow hid hobs hstep hwake
    have hobserve : run fw s observe = (.ok r, { s with db := observedFirst }) := run_quiet hinit hr
    have hsaved : run fw s save = (.ok none, { s with db := saved }) :=
      run_quiet hinit (returning_ok_iff.mpr ⟨rfl, hstep⟩)
    have hlast : run fw { s with db := observedFirst } save = (.ok none, { s with db := db }) :=
      run_quiet hinit (returning_ok_iff.mpr ⟨rfl, hfirst⟩)
    have hlast' : run fw { s with db := saved } observe = (.ok r', { s with db := db }) := run_quiet hinit hsecond
    refine ⟨by rw [hobserve, hlast], ?_, n, d, ?_⟩
    · show _ = (run fw (run fw s observe).2 save).2
      rw [hobserve, hlast, hsaved, hlast']
    · show _ ∧ (run fw (run fw s observe).2 save).2.db.devices.find edit.id = _ ∧ _
      rw [hobserve, hlast]
      exact hrest
  · rw [he] at hsave; cases hsave

def renamed : Device := { nasStored with displayName := str "Backup NAS" }

def seenOnline : StatusObservation := { state := .online, checkedAt := ⟨1, 0⟩ }

theorem rename_and_observation_commute :
    (run .ascii (run .ascii twoDevices (quiet (.applyObservation nasStored seenOnline true))).2
      (quiet (.saveDevice renamed))).1 = .ok none ∧
    (run .ascii (run .ascii twoDevices (quiet (.saveDevice renamed))).2
        (quiet (.applyObservation nasStored seenOnline true))).2 =
      (run .ascii (run .ascii twoDevices (quiet (.applyObservation nasStored seenOnline true))).2
        (quiet (.saveDevice renamed))).2 :=
  have h := edits_and_observations_commute .ascii twoDevices (deviceRow nasStored) renamed seenOnline true rfl
    (reach_identified twoDevices_reach).ids (by decide) rfl rfl rfl (by decide)
  ⟨h.1, h.2.1⟩

/-! ## Verified is earned -/

/-- Since the device with `d`'s id was last inserted, an observation of its wake target,
    made to verify it, found it online. -/
def Earned (fw : Framework) (log : List (Store × Call)) (d : Device) : Prop :=
  ∃ before s c after expected o result, log = before ++ (s, c) :: after ∧
    c.request = .applyObservation expected o true ∧ expected.id = d.id ∧ o.state = .online ∧
    (run fw s c).1 = .ok (some result) ∧ DeviceTargets.sameWake expected d = true ∧
    ∀ p ∈ after, p.1.db.devices.find d.id ≠ none

/-- The call does not ask to insert a device that is Verified already. -/
def InsertsUnverified (s : Store) (c : Call) : Prop :=
  ∀ device, c.request = .saveDevice device → s.db.devices.find device.id = none → device.wake.capability ≠ .verified

theorem Earned.snoc {fw : Framework} {log : List (Store × Call)} {d : Device} (h : Earned fw log d) {s : Store}
    (c : Call) (hs : s.db.devices.find d.id ≠ none) : Earned fw (log ++ [(s, c)]) d := by
  obtain ⟨before, s0, c0, after, expected, o, result, rfl, h1, h2, h3, h4, h5, h6⟩ := h
  refine ⟨before, s0, c0, after ++ [(s, c)], expected, o, result, by simp, h1, h2, h3, h4, h5, ?_⟩
  intro p hp
  rcases List.mem_append.mp hp with hp | hp
  · exact h6 p hp
  · rw [List.mem_singleton.mp hp]; exact hs

theorem Earned.sameWake {fw : Framework} {log : List (Store × Call)} {d d' : Device} (h : Earned fw log d)
    (hid : d'.id = d.id) (hwake : DeviceTargets.sameWake d d' = true) : Earned fw log d' := by
  obtain ⟨before, s0, c0, after, expected, o, result, h0, h1, h2, h3, h4, h5, h6⟩ := h
  exact ⟨before, s0, c0, after, expected, o, result, h0, h1, h2.trans hid.symm, h3, h4,
    DeviceTargets.sameWake_trans h5 hwake, by rw [hid]; exact h6⟩

/-- What a save leaves Verified was Verified before, and has the same wake target. -/
theorem saved_verified {fw : Framework} {device n : Device} {db : Database} (hdb : Identified fw db)
    (hins : db.devices.find device.id = none → device.wake.capability ≠ .verified)
    (hn : DeviceRules.normalizeAndValidate fw device = .ok n)
    (hverified : (merged (readDevices db) n).wake.capability = .verified) :
    ∃ old ∈ db.devices.rows, old.id = device.id ∧ old.document.wake.capability = .verified ∧
      DeviceTargets.sameWake old.document (merged (readDevices db) n) = true := by
  obtain ⟨hnid, hncap, -⟩ := DeviceRules.normalizeAndValidate_fields hn
  have hfind := find_record hdb.ids n.id
  rcases hstored : db.devices.find n.id with _ | old
  · rw [hstored] at hfind
    have hmerged : merged (readDevices db) n = n := by unfold merged; rw [hfind]; rfl
    rw [hmerged, hncap] at hverified
    exact absurd hverified (hins (by rw [← hnid]; exact hstored))
  · obtain ⟨hold, hid⟩ := (Table.find_some_iff _ _ _).mp hstored
    rw [hstored] at hfind
    have hmerged : merged (readDevices db) n = mergeSaved old.document n := by unfold merged; rw [hfind]; rfl
    rw [hmerged] at hverified ⊢
    have hkept : old.document.wake.capability = .verified ∧ DeviceTargets.sameWake old.document n = true := by
      change savedCapability old.document n = .verified at hverified
      unfold savedCapability at hverified
      split at hverified
      · cases hverified
      · split at hverified
        · assumption
        · cases hverified
    refine ⟨old, hold, hid.trans hnid, hkept.1, ?_⟩
    rw [DeviceTargets.sameWake_comm, sameWake_mergeSaved, DeviceTargets.sameWake_comm]
    exact hkept.2

/-- Every Verified device of `db` earned it in `log`. -/
def AllEarned (fw : Framework) (log : List (Store × Call)) (db : Database) : Prop :=
  ∀ row ∈ db.devices.rows, row.document.wake.capability = .verified → Earned fw log row.document

/-- What was earned before a call is still earned after it. -/
theorem AllEarned.snoc {fw : Framework} {log : List (Store × Call)} {s : Store} (hdb : Identified fw s.db)
    (h : AllEarned fw log s.db) (c : Call) : AllEarned fw (log ++ [(s, c)]) s.db := by
  intro row hrow hv
  refine (h row hrow hv).snoc c ?_
  rw [← hdb.ids row hrow, find_stored hrow]
  simp

theorem step_earned {fw : Framework} {log : List (Store × Call)} {s : Store} {c : Call} {a : Option Device}
    {db : Database} (hdb : Identified fw s.db) (h : AllEarned fw log s.db) (hins : InsertsUnverified s c)
    (hr : (run fw s c).1 = .ok a) (happly : c.request.apply fw s.db = .ok (a, db)) :
    AllEarned fw (log ++ [(s, c)]) db := by
  have hsnoc := h.snoc hdb c
  by_cases hid : deviceId c.request = none
  · intro row hrow
    rw [apply_devices hid happly] at hrow
    exact hsnoc row hrow
  · rcases hreq : c.request with device | ⟨expected, o, v⟩ | id | _ | _ | _ | _ <;> rw [hreq] at happly hid
    · -- a save: the record is merged with one that earned it
      obtain ⟨n, hn, -, rfl⟩ := saveDevice_ok (returning_ok_iff.mp happly).2
      intro row hrow hv
      rcases Table.mem_upsert.mp hrow with rfl | ⟨hrow, -⟩
      · obtain ⟨old, hold, hoid, hov, hwake⟩ := saved_verified hdb (hins device hreq) hn hv
        have hsaved : (merged (readDevices s.db) n).id = device.id :=
          (merged_fields (readDevices s.db) n).1.trans (DeviceRules.normalizeAndValidate_fields hn).1
        refine (hsnoc old hold hov).sameWake ?_ hwake
        rw [← hdb.ids old hold, hoid]
        exact hsaved
      · exact hsnoc row hrow hv
    · -- an observation: it verifies the record, or leaves the capability
      rcases (applyObservation_ok happly).2 with ⟨-, rfl⟩ | ⟨current, hfind, -, rfl, rfl⟩
      · exact hsnoc
      · intro row hrow hv
        rcases updateDocument_mem.mp hrow with ⟨old, hold, hoid, rfl⟩ | ⟨hrow, -⟩
        · obtain ⟨old', hold', rfl⟩ := mem_readDevices.mp (List.mem_of_find?_eq_some hfind)
          have hcur : old'.document.id = expected.id := by simpa using List.find?_some hfind
          change (observed old'.document expected o v).wake.capability = .verified at hv
          rw [observed_capability] at hv
          split at hv
          · rename_i hverified
            obtain ⟨rfl, honline, -, hwake⟩ := hverified
            refine ⟨log, s, c, [], expected, o, _, rfl, hreq, hcur.symm, honline, hr, ?_, fun _ hp => nomatch hp⟩
            rw [DeviceTargets.sameWake_comm, sameWake_observed]
            exact hwake
          · refine (hsnoc old' hold' hv).sameWake rfl ?_
            rw [DeviceTargets.sameWake_comm, sameWake_observed]
            exact DeviceTargets.sameWake_self _
        · exact hsnoc row hrow hv
    · cases happly
      intro row hrow
      exact hsnoc row (mem_deleteDevice.mp hrow).1
    all_goals exact absurd rfl hid

/-- In every run that inserts no device as Verified, every Verified device has earned it
    since it was inserted, and what a save leaves Verified was Verified before, with the
    same wake target. -/
theorem verified_is_earned (fw : Framework) (log : List (Store × Call)) (s : Store)
    (h : (repository fw).Runs log s) (hins : Machine.Throughout InsertsUnverified log) :
    AllEarned fw log s.db ∧
    ∀ c device, InsertsUnverified s c → c.request = .saveDevice device → (run fw s c).1 = .ok none →
      ∀ row ∈ (run fw s c).2.db.devices.rows, row.id = device.id → row.document.wake.capability = .verified →
        ∃ old ∈ s.db.devices.rows, old.id = device.id ∧ old.document.wake.capability = .verified ∧
          DeviceTargets.sameWake old.document row.document = true := by
  have hdb := reach_identified ⟨log, h⟩
  refine ⟨?_, ?_⟩
  · refine Machine.Runs.log_inv (I := fun log s => Machine.Throughout InsertsUnverified log → AllEarned fw log s.db)
      ?_ ?_ h hins
    · intro s hs _
      cases hs
      intro row hrow
      cases hrow
    · intro log s c s' hr ih hs hins
      obtain ⟨hlog, hc⟩ := (Machine.throughout_snoc _ _ _ _).mp hins
      have hdb := reach_identified ⟨log, hr⟩
      cases hs
      rcases run_cases fw s c with ⟨a, db, hr, happly, hs⟩ | ⟨e, -, hs, -⟩
      · rw [hs]; exact step_earned hdb (ih hlog) hc hr happly
      · rw [hs]; exact (ih hlog).snoc hdb c
  · intro c device hc hreq hok row hrow hid hv
    rcases run_cases fw s c with ⟨a, db, -, happly, hs⟩ | ⟨e, he, -, -⟩
    · rw [hreq] at happly
      obtain ⟨n, hn, -, rfl⟩ := saveDevice_ok (returning_ok_iff.mp happly).2
      rw [hs] at hrow
      have hkey : (deviceRow (merged (readDevices s.db) n)).id = device.id :=
        (merged_fields (readDevices s.db) n).1.trans (DeviceRules.normalizeAndValidate_fields hn).1
      rcases Table.mem_upsert.mp hrow with rfl | ⟨-, hne⟩
      · exact saved_verified hdb (hc device hreq) hn hv
      · exact absurd (hid.trans hkey.symm) hne
    · simp [he] at hok

/-- The NAS, after it was woken and found online. -/
def nasAwake : Device := observed nasStored nasStored seenOnline true

def awake : Store :=
  ⟨true, { Database.empty with devices := ⟨[{ deviceRow nasStored with document := nasAwake }], by decide⟩ }⟩

theorem woken_nas_earned : nasAwake.wake.capability = .verified ∧
    AllEarned .ascii
      [(⟨true, .empty⟩, quiet (.saveDevice nas)), (oneDevice, quiet (.applyObservation nasStored seenOnline true))]
      awake.db := by
  refine ⟨rfl, (verified_is_earned .ascii _ awake ?_ ?_).1⟩
  · exact oneDevice_runs.step (quiet (.applyObservation nasStored seenOnline true)) rfl
  · intro p hp device hreq _
    simp only [List.mem_cons, List.not_mem_nil, or_false] at hp
    rcases hp with rfl | rfl
    · cases hreq; decide
    · cases hreq

/-- A device that is not stored before a save has earned nothing by it. -/
theorem not_earned_of_absent {fw : Framework} {log : List (Store × Call)} {s : Store} {c : Call} {device d : Device}
    (hreq : c.request = .saveDevice device) (hs : s.db.devices.find d.id = none) : ¬ Earned fw (log ++ [(s, c)]) d := by
  intro h
  obtain ⟨before, s0, c0, after, expected, o, result, hlog, hobs, -, -, -, -, hpresent⟩ := h
  rcases List.eq_nil_or_concat after with rfl | ⟨rest, last, rfl⟩
  · obtain ⟨-, hlast⟩ := List.append_inj' hlog rfl
    cases hlast
    simp [hreq] at hobs
  · have hlast : log ++ [(s, c)] = (before ++ (s0, c0) :: rest) ++ [last] := by rw [hlog]; simp
    obtain ⟨-, hlast⟩ := List.append_inj' hlast rfl
    cases hlast
    exact hpresent (s, c) (by simp) hs

/-- A device that says it is Verified. -/
def claimsVerified : Device := { nasStored with wake := { capability := .verified } }

theorem insert_stores_verified :
    ¬ ∀ fw log s, (repository fw).Runs log s → AllEarned fw log s.db := by
  intro h
  have hrun : (repository .ascii).Runs [(⟨true, .empty⟩, quiet (.saveDevice claimsVerified))]
      ⟨true, { Database.empty with devices := ⟨[deviceRow claimsVerified], by decide⟩ }⟩ :=
    Machine.runs_of_exec rfl (show (repository .ascii).exec _ [quiet (.saveDevice claimsVerified)] = _ from rfl)
  have hearned := h _ _ _ hrun (deviceRow claimsVerified) (List.mem_singleton.mpr rfl) rfl
  rw [← List.nil_append [_]] at hearned
  exact not_earned_of_absent rfl rfl hearned

end MythLab.Storage.Observations
