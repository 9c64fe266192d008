/-
  MythLab.Storage.References — referential integrity of the three tables.

  `Intact` holds of every profile: its columns are the fields of its document, its
  device and its credential exist, and it names a credential exactly when it is an SSH
  profile. Proved: every step keeps it (`apply_intact`), and what each request does to
  the profiles and credentials of any reachable database (`referential_integrity`).
-/
import MythLab.Storage.Identity

namespace MythLab.Storage.References

open Lib Dotnet Devices Connections Credentials Repository

structure IntactRow (db : Database) (row : ProfileRow) : Prop where
  id : row.id = row.document.id
  deviceId : row.deviceId = row.document.deviceId
  credentialId : row.credentialId = row.document.credentialId
  refers : db.refersToRows row
  ssh : row.document.kind = .ssh ↔ row.credentialId ≠ none

def Intact (db : Database) : Prop := ∀ row ∈ db.profiles.rows, IntactRow db row

theorem intact_empty : Intact Database.empty := fun _ h => nomatch h

theorem IntactRow.mono {db db' : Database} {row : ProfileRow} (h : IntactRow db row)
    (hdevices : ∀ k, db.devices.find k ≠ none → db'.devices.find k ≠ none)
    (hcredentials : ∀ k, db.credentials.find k ≠ none → db'.credentials.find k ≠ none) : IntactRow db' row :=
  ⟨h.id, h.deviceId, h.credentialId, h.refers.mono hdevices hcredentials, h.ssh⟩

/-! ## Steps -/

theorem saveProfile_ok {fw : Framework} {profile : ConnectionProfile} {db db' : Database}
    (h : saveProfile fw profile db = .ok db') : ExternalConnections.validate fw profile = .ok () ∧
      db.refersToRows (profileRow profile) ∧ db' = { db with profiles := db.profiles.upsert (profileRow profile) } := by
  obtain ⟨_, hvalid, h⟩ := bind_ok_iff.mp h
  exact ⟨hvalid, Database.upsertProfile_ok h⟩

theorem saveProfile_intact {fw : Framework} {profile : ConnectionProfile} {db db' : Database} (hdb : Intact db)
    (h : saveProfile fw profile db = .ok db') : Intact db' := by
  obtain ⟨hvalid, hrefers, rfl⟩ := saveProfile_ok h
  intro row hrow
  rcases Table.mem_upsert.mp hrow with rfl | ⟨hrow, _⟩
  · refine ⟨rfl, rfl, rfl, hrefers, ?_, ?_⟩
    · intro hssh
      obtain ⟨c, hc⟩ := ExternalConnections.validate_ssh hvalid hssh
      intro hnone
      simp [show (profileRow profile).credentialId = profile.credentialId from rfl, hc] at hnone
    · intro hcred
      by_cases hssh : profile.kind = .ssh
      · exact hssh
      · exact absurd (ExternalConnections.validate_external hvalid hssh) hcred
  · exact (hdb row hrow).mono (fun _ h => h) fun _ h => h

theorem deleteDevice_profiles {db : Database} (hdb : Intact db) (id : Guid) (row : ProfileRow) :
    row ∈ (db.deleteDevice id).profiles.rows ↔ row ∈ db.profiles.rows ∧ row.deviceId ≠ id := by
  unfold Database.deleteDevice
  rcases hfind : db.devices.find id with _ | device
  · refine ⟨fun hrow => ⟨hrow, fun he => (hdb row hrow).refers.1 (by rw [he]; exact hfind)⟩, And.left⟩
  · simp

theorem deleteDevice_intact {db : Database} (hdb : Intact db) (id : Guid) : Intact (db.deleteDevice id) := by
  intro row hrow
  obtain ⟨hrow, hne⟩ := (deleteDevice_profiles hdb id row).mp hrow
  obtain ⟨hid, hdevice, hcred, ⟨hrefd, hrefc⟩, hssh⟩ := hdb row hrow
  refine ⟨hid, hdevice, hcred, ?_, hssh⟩
  unfold Database.deleteDevice
  split
  · exact ⟨by rw [Table.find_delete_ne _ hne]; exact hrefd, hrefc⟩
  · exact ⟨hrefd, hrefc⟩

theorem deleteCredential_intact {id : Guid} {db db' : Database} (hdb : Intact db)
    (h : db.deleteCredential id = .ok db') : Intact db' := by
  rcases Database.deleteCredential_ok h with ⟨-, rfl⟩ | ⟨hunused, rfl⟩
  · exact hdb
  · intro row hrow
    obtain ⟨hid, hdevice, hcred, ⟨hrefd, hrefc⟩, hssh⟩ := hdb row hrow
    refine ⟨hid, hdevice, hcred, ⟨hrefd, ?_⟩, hssh⟩
    intro c hc
    have hne : c ≠ id := fun he => hunused row hrow (by rw [← he]; exact hc)
    rw [Table.find_delete_ne _ hne]
    exact hrefc c hc

theorem apply_intact {fw : Framework} {request : Request} {db db' : Database} {a : Option Device} (hdb : Intact db)
    (h : request.apply fw db = .ok (a, db')) : Intact db' := by
  cases request with
  | saveDevice device =>
    obtain ⟨_, -, -, rfl⟩ := saveDevice_ok (returning_ok_iff.mp h).2
    intro row hrow
    exact (hdb row hrow).mono (fun _ hk => Table.find_upsert_ne_none _ hk) fun _ hk => hk
  | applyObservation expected observation verifyWake =>
    rcases (applyObservation_ok h).2 with ⟨_, rfl⟩ | ⟨current, -, -, -, rfl⟩
    · exact hdb
    · intro row hrow
      rw [Database.updateDocument_profiles] at hrow
      exact (hdb row hrow).mono (fun _ hk => Database.updateDocument_find_ne_none _ _ hk)
        fun _ hk => by rwa [Database.updateDocument_credentials]
  | deleteDevice id =>
    cases h
    exact deleteDevice_intact hdb id
  | saveCredential credential =>
    obtain ⟨-, rfl⟩ := saveCredential_ok (returning_ok_iff.mp h).2
    intro row hrow
    exact (hdb row hrow).mono (fun _ hk => hk) fun _ hk => Table.find_upsert_ne_none _ hk
  | deleteCredential id => exact deleteCredential_intact hdb (constraintAsInUse_ok (returning_ok_iff.mp h).2)
  | saveProfile profile => exact saveProfile_intact hdb (returning_ok_iff.mp h).2
  | deleteProfile id =>
    cases h
    intro row hrow
    exact (hdb row (Table.mem_delete.mp hrow).1).mono (fun _ hk => hk) fun _ hk => hk

theorem reach_intact {fw : Framework} {s : Store} (h : (repository fw).Reach s) : Intact s.db :=
  reach_inv intact_empty (fun _ _ _ _ hdb happly => apply_intact hdb happly) h

/-- A save of a device or a credential leaves the profiles alone. -/
theorem run_save_profiles (fw : Framework) (s : Store) (c : Call)
    (hc : (∃ device, c.request = .saveDevice device) ∨ ∃ credential, c.request = .saveCredential credential) :
    (run fw s c).2.db.profiles = s.db.profiles := by
  rcases run_cases fw s c with ⟨a, db, -, happly, hs⟩ | ⟨e, -, hs, -⟩
  · rw [hs]
    rcases hc with ⟨device, hc⟩ | ⟨credential, hc⟩
    · rw [hc] at happly
      obtain ⟨_, -, -, rfl⟩ := saveDevice_ok (returning_ok_iff.mp happly).2
      rfl
    · rw [hc] at happly
      obtain ⟨-, rfl⟩ := saveCredential_ok (returning_ok_iff.mp happly).2
      rfl
  · rw [hs]

theorem run_deleteDevice (fw : Framework) (s : Store) (c : Call) (hdb : Intact s.db) (id : Guid)
    (hc : c.request = .deleteDevice id) (a : Option Device) (hok : (run fw s c).1 = .ok a) :
    (run fw s c).2.db.credentials = s.db.credentials ∧
      ∀ row, row ∈ (run fw s c).2.db.profiles.rows ↔ row ∈ s.db.profiles.rows ∧ row.deviceId ≠ id := by
  rcases run_cases fw s c with ⟨a, db, -, happly, hs⟩ | ⟨e, he, -, -⟩
  · rw [hc] at happly
    cases happly
    rw [hs]
    refine ⟨?_, deleteDevice_profiles hdb id⟩
    show (s.db.deleteDevice id).credentials = _
    unfold Database.deleteDevice
    split <;> rfl
  · simp [he] at hok

theorem run_deleteCredential (fw : Framework) (s : Store) (c : Call) (hdb : Intact s.db) (id : Guid)
    (hc : c.request = .deleteCredential id) (row : ProfileRow) (hrow : row ∈ s.db.profiles.rows)
    (hid : row.credentialId = some id) : (∃ e, (run fw s c).1 = .error e) ∧ (run fw s c).2 = s := by
  rcases run_cases fw s c with ⟨a, db, -, happly, -⟩ | ⟨e, he, hs, -⟩
  · rw [hc] at happly
    rcases Database.deleteCredential_ok (constraintAsInUse_ok (returning_ok_iff.mp happly).2)
      with ⟨hnone, -⟩ | ⟨hunused, -⟩
    · exact absurd hnone ((hdb row hrow).refers.2 id hid)
    · exact absurd hid (hunused row hrow)
  · exact ⟨⟨e, he⟩, hs⟩

/-- In every run: profiles are intact; saving a device or a credential removes none of
    them; deleting a device removes its own and no credential; deleting a credential in
    use is rejected and changes nothing. -/
theorem referential_integrity (fw : Framework) (s : Store) (h : (repository fw).Reach s) :
    Intact s.db ∧ ∀ c : Call,
      (((∃ device, c.request = .saveDevice device) ∨ ∃ credential, c.request = .saveCredential credential) →
        (run fw s c).2.db.profiles = s.db.profiles) ∧
      (∀ id, c.request = .deleteDevice id → ∀ a, (run fw s c).1 = .ok a →
        (run fw s c).2.db.credentials = s.db.credentials ∧
          ∀ row, row ∈ (run fw s c).2.db.profiles.rows ↔ row ∈ s.db.profiles.rows ∧ row.deviceId ≠ id) ∧
      (∀ id, c.request = .deleteCredential id → ∀ row ∈ s.db.profiles.rows, row.credentialId = some id →
        (∃ e, (run fw s c).1 = .error e) ∧ (run fw s c).2 = s) := by
  have hdb := reach_intact h
  exact ⟨hdb, fun c => ⟨run_save_profiles fw s c, run_deleteDevice fw s c hdb, run_deleteCredential fw s c hdb⟩⟩

def root : CredentialReference := { id := 3, displayLabel := str "NAS root", username := str "root" }

def shell : ConnectionProfile :=
  { id := 4, deviceId := 1, displayName := str "Shell", credentialId := some 3, port := some 22 }

def withRoot : Store := ⟨true, { Identity.twoDevices.db with credentials := ⟨[root], by decide⟩ }⟩

def withShell : Store := ⟨true, { withRoot.db with profiles := ⟨[profileRow shell], by decide⟩ }⟩

theorem withShell_reach : (repository .ascii).Reach withShell :=
  Machine.reach_step (s := withRoot) (quiet (.saveProfile shell))
    (Machine.reach_step (s := Identity.twoDevices) (quiet (.saveCredential root)) Identity.twoDevices_reach rfl) rfl

theorem credential_in_use_is_kept : withShell.db.profiles.rows = [profileRow shell] ∧
    (∃ e, (run .ascii withShell (quiet (.deleteCredential 3))).1 = .error e) ∧
    (run .ascii withShell (quiet (.deleteCredential 3))).2 = withShell :=
  ⟨rfl, ((referential_integrity .ascii withShell withShell_reach).2 (quiet (.deleteCredential 3))).2.2 3 rfl
    (profileRow shell) (List.mem_singleton.mpr rfl) rfl⟩

end MythLab.Storage.References
