/-
  MythLab.Storage.Identity — no two stored devices are one device.

  Uniqueness is enforced twice: `checkDuplicates` compares documents, ignoring case, and
  the unique indexes compare columns (`NOCASE`). `Identified` is the invariant that ties
  them: columns are the fields of their document, every document has a normal identity,
  and no two documents share one. Proved: every step keeps it (`apply_identified`); a
  save that passes the first check passes the second (`no_uniqueConflict`); a call
  touches the row of its own device only (`apply_frame`); all of it for every run
  (`device_identity`).
-/
import MythLab.Storage.Repository

namespace MythLab.Storage.Identity

open Lib Dotnet Devices Repository

structure Identified (fw : Framework) (db : Database) : Prop where
  columns : ∀ row ∈ db.devices.rows, row = deviceRow row.document
  normal : ∀ row ∈ db.devices.rows, DeviceRules.NormalIdentity row.document
  apart : ∀ a ∈ db.devices.rows, ∀ b ∈ db.devices.rows, a.id ≠ b.id →
    ¬ DeviceRules.SameIdentity fw a.document b.document

theorem identified_empty (fw : Framework) : Identified fw Database.empty :=
  ⟨fun _ h => (nomatch h), fun _ h => (nomatch h), fun _ h => (nomatch h)⟩

theorem Identified.ids {fw : Framework} {db : Database} (h : Identified fw db) :
    ∀ row ∈ db.devices.rows, row.id = row.document.id :=
  fun row hrow => congrArg DeviceRow.id (h.columns row hrow)

/-! ## The identity of a record -/

theorem merged_normal {fw : Framework} {device normalized : Device} (records : List Device)
    (h : DeviceRules.normalizeAndValidate fw device = .ok normalized) :
    DeviceRules.NormalIdentity (merged records normalized) := by
  obtain ⟨-, hhost, -, hmac, -, -, -⟩ := merged_fields records normalized
  exact (DeviceRules.normalizeAndValidate_identity h).congr hhost hmac

/-- A record that passed the duplicate check shares its identity with no other row. -/
theorem apart_of_checkDuplicates {fw : Framework} {db : Database} {d : Device} (hdb : Identified fw db)
    (hd : DeviceRules.NormalIdentity d) (h : checkDuplicates fw d (readDevices db) = .ok ()) :
    ∀ row ∈ db.devices.rows, row.id ≠ d.id → ¬ DeviceRules.SameIdentity fw d row.document := by
  intro row hrow hid
  have hmatch := checkDuplicates_ok_iff.mp h row.document (mem_readDevices.mpr ⟨row, hrow, rfl⟩)
  rcases (DeviceRules.matchReason_none_iff hd (hdb.normal row hrow)).mp hmatch with he | hne
  · exact absurd ((hdb.ids row hrow).trans he.symm) hid
  · exact hne

/-- The unique indexes admit what the duplicate check admits. -/
theorem no_uniqueConflict {fw : Framework} {db : Database} {d : Device} (hdb : Identified fw db)
    (hd : DeviceRules.NormalIdentity d) (h : checkDuplicates fw d (readDevices db) = .ok ()) :
    db.uniqueConflict (deviceRow d) = none := by
  refine Database.uniqueConflict_none_iff.mpr ?_
  intro other hother hid
  have happart := apart_of_checkDuplicates hdb hd h other hother hid
  have hcol := hdb.columns other hother
  refine ⟨fun ⟨hne, he⟩ => happart (Or.inl ⟨hne, ?_⟩), fun ⟨hne, he⟩ => happart (Or.inr (Or.inl ⟨hne, ?_⟩)),
    fun ⟨hne, he⟩ => happart (Or.inr (Or.inr ⟨hne, ?_⟩))⟩
  · rw [hcol] at he; exact he.symm
  · rw [hcol] at he; exact fw.equalsIgnoreCase_of_ascii he.symm
  · rw [hcol] at he; exact he.symm

/-! ## Steps -/

/-- The row a device call is about. -/
def deviceId : Request → Option Guid
  | .saveDevice device => some device.id
  | .applyObservation expected _ _ => some expected.id
  | .deleteDevice id => some id
  | _ => none

theorem updateDocument_mem {db : Database} {id : Guid} {d : Device} {row : DeviceRow} :
    row ∈ (db.updateDocument id d).devices.rows ↔
      (∃ old ∈ db.devices.rows, old.id = id ∧ row = { old with document := d }) ∨
        (row ∈ db.devices.rows ∧ row.id ≠ id) := by
  unfold Database.updateDocument
  rcases hfind : db.devices.find id with _ | old
  · have hne := (Table.find_none_iff _ _).mp hfind
    exact ⟨fun h => Or.inr ⟨h, hne row h⟩, fun h => h.elim (fun ⟨old, ho, hid, _⟩ => absurd hid (hne old ho)) And.left⟩
  · obtain ⟨hold, rfl⟩ := (Table.find_some_iff _ _ _).mp hfind
    refine Table.mem_set.trans (or_congr ⟨fun h => ⟨old, hold, rfl, h.1⟩, ?_⟩ Iff.rfl)
    intro ⟨o, ho, hid, he⟩
    rw [Table.key_inj ho hold hid] at he
    exact ⟨he, by rw [hfind]; simp⟩

theorem mem_deleteDevice {db : Database} {id : Guid} {row : DeviceRow} :
    row ∈ (db.deleteDevice id).devices.rows ↔ row ∈ db.devices.rows ∧ row.id ≠ id := by
  unfold Database.deleteDevice
  rcases hfind : db.devices.find id with _ | old
  · exact ⟨fun h => ⟨h, (Table.find_none_iff _ _).mp hfind row h⟩, And.left⟩
  · exact Table.mem_delete

theorem saveDevice_identified {fw : Framework} {device : Device} {db db' : Database} (hdb : Identified fw db)
    (h : saveDevice fw device db = .ok db') : Identified fw db' := by
  obtain ⟨normalized, hn, hdup, rfl⟩ := saveDevice_ok h
  have hnormal := merged_normal (readDevices db) hn
  have happart := apart_of_checkDuplicates hdb hnormal hdup
  refine ⟨?_, ?_, ?_⟩
  · intro row hrow
    rcases Table.mem_upsert.mp hrow with rfl | ⟨hrow, _⟩
    · rfl
    · exact hdb.columns row hrow
  · intro row hrow
    rcases Table.mem_upsert.mp hrow with rfl | ⟨hrow, _⟩
    · exact hnormal
    · exact hdb.normal row hrow
  · intro a ha b hb hid
    rcases Table.mem_upsert.mp ha with rfl | ⟨ha, hane⟩
    · rcases Table.mem_upsert.mp hb with rfl | ⟨hb, hbne⟩
      · exact absurd rfl hid
      · exact happart b hb hbne
    · rcases Table.mem_upsert.mp hb with rfl | ⟨hb, hbne⟩
      · intro hs
        exact happart a ha hane hs.symm
      · exact hdb.apart a ha b hb hid

/-- A table with the same identities under the same ids is as well identified. -/
theorem Identified.of_rows {fw : Framework} {db db' : Database} (hdb : Identified fw db)
    (h : ∀ row ∈ db'.devices.rows, row = deviceRow row.document ∧ ∃ old ∈ db.devices.rows, old.id = row.id ∧
      row.document.hostname = old.document.hostname ∧ row.document.macAddress = old.document.macAddress ∧
      row.document.ipv4Address = old.document.ipv4Address) : Identified fw db' := by
  refine ⟨fun row hrow => (h row hrow).1, ?_, ?_⟩
  · intro row hrow
    obtain ⟨-, old, hold, -, hhost, hmac, -⟩ := h row hrow
    exact (hdb.normal old hold).congr hhost hmac
  · intro a ha b hb hid hs
    obtain ⟨-, olda, ha, hida, hhosta, hmaca, hipa⟩ := h a ha
    obtain ⟨-, oldb, hb, hidb, hhostb, hmacb, hipb⟩ := h b hb
    refine hdb.apart olda ha oldb hb (by rw [hida, hidb]; exact hid) ?_
    unfold DeviceRules.SameIdentity at hs ⊢
    rw [← hhosta, ← hmaca, ← hipa, ← hhostb, ← hmacb, ← hipb]
    exact hs

theorem updateDocument_identified {fw : Framework} {expected : Device} {observation : StatusObservation}
    {verifyWake : Bool} {db : Database} {current : Device} (hdb : Identified fw db)
    (hfind : (readDevices db).find? (·.id = expected.id) = some current) :
    Identified fw (db.updateDocument current.id (observed current expected observation verifyWake)) := by
  refine hdb.of_rows ?_
  intro row hrow
  rcases updateDocument_mem.mp hrow with ⟨old, hold, hid, rfl⟩ | ⟨hrow, -⟩
  · obtain ⟨old', hold', rfl⟩ := mem_readDevices.mp (List.mem_of_find?_eq_some hfind)
    obtain rfl : old = old' := Table.key_inj hold hold' (hid.trans (hdb.ids old' hold').symm)
    have hcol := hdb.columns old hold
    refine ⟨?_, old, hold, rfl, rfl, rfl, rfl⟩
    show ({ old with document := _ } : DeviceRow) = _
    rw [hcol]
    rfl
  · exact ⟨hdb.columns row hrow, row, hrow, rfl, rfl, rfl, rfl⟩

/-- Requests about credentials and profiles leave the devices alone. -/
theorem apply_devices {fw : Framework} {request : Request} {db db' : Database} {a : Option Device}
    (hid : deviceId request = none) (h : request.apply fw db = .ok (a, db')) : db'.devices = db.devices := by
  cases request with
  | saveDevice device => cases hid
  | applyObservation expected observation verifyWake => cases hid
  | deleteDevice id => cases hid
  | saveCredential credential =>
    obtain ⟨_, -, hsave⟩ := bind_ok_iff.mp (returning_ok_iff.mp h).2
    cases hsave
    rfl
  | deleteCredential id =>
    rcases Database.deleteCredential_ok (constraintAsInUse_ok (returning_ok_iff.mp h).2) with ⟨-, rfl⟩ | ⟨-, rfl⟩
    · rfl
    · rfl
  | saveProfile profile =>
    obtain ⟨_, -, hsave⟩ := bind_ok_iff.mp (returning_ok_iff.mp h).2
    obtain ⟨-, rfl⟩ := Database.upsertProfile_ok hsave
    rfl
  | deleteProfile id =>
    cases h
    rfl

theorem apply_identified {fw : Framework} {request : Request} {db db' : Database} {a : Option Device}
    (hdb : Identified fw db) (h : request.apply fw db = .ok (a, db')) : Identified fw db' := by
  by_cases hid : deviceId request = none
  · have he := apply_devices hid h
    exact hdb.of_rows fun row hrow => by
      rw [he] at hrow
      exact ⟨hdb.columns row hrow, row, hrow, rfl, rfl, rfl, rfl⟩
  · cases request with
    | saveDevice device => exact saveDevice_identified hdb (returning_ok_iff.mp h).2
    | applyObservation expected observation verifyWake =>
      rcases (applyObservation_ok h).2 with ⟨_, rfl⟩ | ⟨current, hfind, -, -, rfl⟩
      · exact hdb
      · exact updateDocument_identified hdb hfind
    | deleteDevice id =>
      cases h
      refine hdb.of_rows ?_
      intro row hrow
      obtain ⟨hrow, -⟩ := mem_deleteDevice.mp hrow
      exact ⟨hdb.columns row hrow, row, hrow, rfl, rfl, rfl, rfl⟩
    | _ => exact absurd rfl hid

/-- A step leaves the rows of other devices as they were. -/
theorem apply_frame {fw : Framework} {request : Request} {db db' : Database} {a : Option Device}
    (h : request.apply fw db = .ok (a, db')) (row : DeviceRow) (hid : deviceId request ≠ some row.id) :
    row ∈ db'.devices.rows ↔ row ∈ db.devices.rows := by
  cases request with
  | saveDevice device =>
    obtain ⟨normalized, hn, -, rfl⟩ := saveDevice_ok (returning_ok_iff.mp h).2
    have hkey : (deviceRow (merged (readDevices db) normalized)).id = device.id :=
      (merged_fields (readDevices db) normalized).1.trans (DeviceRules.normalizeAndValidate_fields hn).1
    have hne : row.id ≠ device.id := fun he => hid (congrArg some he.symm)
    rw [Table.mem_upsert]
    refine ⟨?_, fun hrow => Or.inr ⟨hrow, by rw [hkey]; exact hne⟩⟩
    intro hrow
    rcases hrow with rfl | ⟨hrow, -⟩
    · exact absurd hkey hne
    · exact hrow
  | applyObservation expected observation verifyWake =>
    have hne : row.id ≠ expected.id := fun he => hid (congrArg some he.symm)
    rcases (applyObservation_ok h).2 with ⟨_, rfl⟩ | ⟨current, hfind, -, -, rfl⟩
    · exact Iff.rfl
    · have hcur : current.id = expected.id := by simpa using List.find?_some hfind
      rw [updateDocument_mem, hcur]
      refine ⟨?_, fun hrow => Or.inr ⟨hrow, hne⟩⟩
      intro hrow
      rcases hrow with ⟨old, -, hold, rfl⟩ | ⟨hrow, -⟩
      · exact absurd hold hne
      · exact hrow
  | deleteDevice id =>
    cases h
    have hne : row.id ≠ id := fun he => hid (congrArg some he.symm)
    exact ⟨fun hrow => (mem_deleteDevice.mp hrow).1, fun hrow => mem_deleteDevice.mpr ⟨hrow, hne⟩⟩
  | _ => rw [apply_devices rfl h]

theorem reach_identified {fw : Framework} {s : Store} (h : (repository fw).Reach s) : Identified fw s.db :=
  reach_inv (identified_empty fw) (fun _ _ _ _ hdb happly => apply_identified hdb happly) h

/-- No two stored devices match, in either direction. -/
theorem Identified.unmatched {fw : Framework} {db : Database} (hdb : Identified fw db) :
    ∀ a ∈ db.devices.rows, ∀ b ∈ db.devices.rows, DeviceRules.matchReason fw a.document b.document = .ok none := by
  intro a ha b hb
  refine (DeviceRules.matchReason_none_iff (hdb.normal a ha) (hdb.normal b hb)).mpr ?_
  by_cases hid : a.id = b.id
  · exact Or.inl (by rw [Table.key_inj ha hb hid])
  · exact Or.inr (hdb.apart a ha b hb hid)

/-- In every run: columns are the fields of their documents, no two devices match, a save
    that passes the duplicate check passes the unique indexes, and a call changes the row
    of its own device or, if it throws or an observation returns null, nothing. -/
theorem device_identity (fw : Framework) (s : Store) (h : (repository fw).Reach s) :
    (∀ row ∈ s.db.devices.rows, row = deviceRow row.document) ∧
    (∀ a ∈ s.db.devices.rows, ∀ b ∈ s.db.devices.rows, DeviceRules.matchReason fw a.document b.document = .ok none) ∧
    (∀ device normalized, DeviceRules.normalizeAndValidate fw device = .ok normalized →
      checkDuplicates fw (merged (readDevices s.db) normalized) (readDevices s.db) = .ok () →
      ∃ db, s.db.upsertDevice (deviceRow (merged (readDevices s.db) normalized)) = .ok db) ∧
    (∀ c : Call,
      (∀ e, (run fw s c).1 = .error e → (run fw s c).2 = s) ∧
      (∀ expected observation verifyWake, c.request = .applyObservation expected observation verifyWake →
        (run fw s c).1 = .ok none → (run fw s c).2 = s) ∧
      ∀ row, deviceId c.request ≠ some row.id → (row ∈ (run fw s c).2.db.devices.rows ↔ row ∈ s.db.devices.rows)) := by
  have hdb := reach_identified h
  refine ⟨hdb.columns, hdb.unmatched, ?_, ?_⟩
  · intro device normalized hn hdup
    exact ⟨_, Database.upsertDevice_of_none (no_uniqueConflict hdb (merged_normal _ hn) hdup)⟩
  · intro c
    rcases run_cases fw s c with ⟨a, db, hr, happly, hs⟩ | ⟨e, hr, hs, -⟩
    · refine ⟨?_, ?_, ?_⟩
      · intro e he
        simp [hr] at he
      · intro expected observation verifyWake hreq hnone
        rw [hr] at hnone
        cases hnone
        rw [hreq] at happly
        rcases (applyObservation_ok happly).2 with ⟨-, rfl⟩ | ⟨_, -, -, ha, -⟩
        · exact hs
        · cases ha
      · intro row hid
        rw [hs]; exact apply_frame happly row hid
    · rw [hs]
      exact ⟨fun _ _ => rfl, fun _ _ _ _ _ => rfl, fun _ _ => Iff.rfl⟩

def nas : Device :=
  { id := 1, displayName := str "NAS", hostname := str "nas.", macAddress := str "00-1b-44-11-3a-b7",
    wake := { capability := .enabledUnverified } }

def pi : Device := { id := 2, displayName := str "Pi", ipv4Address := str "10.0.0.7" }

/-- The NAS, as it is stored. -/
def nasStored : Device := { nas with hostname := str "nas", macAddress := str "00:1B:44:11:3A:B7" }

def oneDevice : Store := ⟨true, { Database.empty with devices := ⟨[deviceRow nasStored], by decide⟩ }⟩

def twoDevices : Store := ⟨true, { Database.empty with devices := ⟨[deviceRow nasStored, deviceRow pi], by decide⟩ }⟩

theorem oneDevice_runs : (repository .ascii).Runs [(⟨true, .empty⟩, quiet (.saveDevice nas))] oneDevice :=
  Machine.runs_of_exec rfl (show (repository .ascii).exec _ [quiet (.saveDevice nas)] = _ from rfl)

theorem twoDevices_reach : (repository .ascii).Reach twoDevices :=
  Machine.reach_step (s := oneDevice) (quiet (.saveDevice pi)) ⟨_, oneDevice_runs⟩ rfl

theorem two_devices_apart : twoDevices.db.devices.rows.length = 2 ∧
    ∀ a ∈ twoDevices.db.devices.rows, ∀ b ∈ twoDevices.db.devices.rows,
      DeviceRules.matchReason .ascii a.document b.document = .ok none :=
  ⟨rfl, (device_identity .ascii twoDevices twoDevices_reach).2.1⟩

end MythLab.Storage.Identity
