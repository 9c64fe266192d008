/-
  MythLab.Storage.Database — the three tables, their constraints, and what each SQL
  statement of the repository does to them.

  A statement that breaks a constraint fails and changes nothing. Constraints: the
  unique indexes of `devices` on a MAC address, a hostname (`NOCASE`) and an IPv4
  address that are not empty; a profile's device exists (deleting the device deletes
  the profile) and so does its credential, if it names one (deleting it is refused).
  Each statement has a lemma that says all it can do (`upsertDevice_ok` …).
-/
import MythLab.Lib.Effect
import MythLab.Lib.Table
import MythLab.Devices.Device
import MythLab.Connections.ConnectionProfile

namespace MythLab.Storage

open Lib Dotnet Devices Connections Credentials

structure DeviceRow where
  id : Guid
  name : Str
  hostname : Str
  ipv4 : Str
  mac : Str
  document : Device
  deriving DecidableEq, Repr

structure ProfileRow where
  id : Guid
  deviceId : Guid
  credentialId : Option Guid
  document : ConnectionProfile
  deriving DecidableEq, Repr

/-- A row of `credentials` has the fields of a `CredentialReference` as its columns. -/
structure Database where
  devices : Table DeviceRow.id
  credentials : Table CredentialReference.id
  profiles : Table ProfileRow.id

namespace Database

def empty : Database := ⟨.empty, .empty, .empty⟩

/-! ## Errors -/

/-- `SQLITE_CONSTRAINT`. -/
def constraint : Nat := 19

def uniqueFailed (column : String) : Exn := .sqlite constraint ("UNIQUE constraint failed: " ++ column)

def foreignKeyFailed : Exn := .sqlite constraint "FOREIGN KEY constraint failed"

/-! ## Devices -/

/-- The collation `NOCASE`: ASCII letters without their case. -/
def nocase (s : Str) : Str := s.map asciiLower

/-- The collation compares letters up to the first U+0000, and lengths when these are the same. -/
def upToNul (s : Str) : Str := s.take (s.findIdx (·.toNat = 0) + 1)

def others (db : Database) (row : DeviceRow) : List DeviceRow := db.devices.rows.filter (·.id ≠ row.id)

/-- The unique index that does not admit a row beside the other rows; the index created last is checked
    first. -/
def uniqueConflict (db : Database) (row : DeviceRow) : Option String :=
  if row.ipv4 ≠ [] ∧ (db.others row).any (·.ipv4 = row.ipv4) then some "devices.ipv4"
  else if row.hostname ≠ [] ∧ (db.others row).any (nocase ·.hostname = nocase row.hostname) then some "devices.hostname"
  else if row.mac ≠ [] ∧ (db.others row).any (·.mac = row.mac) then some "devices.mac"
  else none

/-- `INSERT INTO devices … ON CONFLICT(id) DO UPDATE SET …` -/
def upsertDevice (db : Database) (row : DeviceRow) : Except Exn Database :=
  match db.uniqueConflict row with
  | some column => .error (uniqueFailed column)
  | none => .ok { db with devices := db.devices.upsert row }

/-- Another row for a device that is there. -/
def setDevice (db : Database) (row : DeviceRow) : Database := { db with devices := db.devices.set row }

/-- `UPDATE devices SET document = … WHERE id = …` -/
def updateDocument (db : Database) (id : Guid) (document : Device) : Database :=
  match db.devices.find id with
  | some row => db.setDevice { row with document := document }
  | none => db

/-- `DELETE FROM devices WHERE id = …`, with its profiles. -/
def deleteDevice (db : Database) (id : Guid) : Database :=
  match db.devices.find id with
  | some _ => { db with devices := db.devices.delete id, profiles := db.profiles.deleteWhere (·.deviceId = id) }
  | none => db

/-! ## Credentials and profiles -/

/-- `INSERT INTO credentials … ON CONFLICT(id) DO UPDATE SET …` -/
def upsertCredential (db : Database) (row : CredentialReference) : Database :=
  { db with credentials := db.credentials.upsert row }

/-- `DELETE FROM credentials WHERE id = …`, refused while a profile names the credential. -/
def deleteCredential (db : Database) (id : Guid) : Except Exn Database :=
  match db.credentials.find id with
  | some _ =>
    if db.profiles.rows.any (·.credentialId = some id) then .error foreignKeyFailed
    else .ok { db with credentials := db.credentials.delete id }
  | none => .ok db

/-- The rows a profile refers to exist. -/
def refersToRows (db : Database) (row : ProfileRow) : Prop :=
  db.devices.find row.deviceId ≠ none ∧ ∀ c ∈ row.credentialId, db.credentials.find c ≠ none

instance (db : Database) (row : ProfileRow) : Decidable (db.refersToRows row) :=
  decidable_of_iff (db.devices.find row.deviceId ≠ none ∧
      (row.credentialId.all fun c => db.credentials.find c ≠ none) = true)
    (and_congr_right fun _ => by simp [Option.all_eq_true])

/-- `INSERT INTO connection_profiles … ON CONFLICT(id) DO UPDATE SET …` -/
def upsertProfile (db : Database) (row : ProfileRow) : Except Exn Database :=
  if db.refersToRows row then .ok { db with profiles := db.profiles.upsert row } else .error foreignKeyFailed

/-- `DELETE FROM connection_profiles WHERE id = …` -/
def deleteProfile (db : Database) (id : Guid) : Database := { db with profiles := db.profiles.delete id }

/-! ## What a statement can do -/

theorem upsertDevice_ok {db db' : Database} {row : DeviceRow} (h : db.upsertDevice row = .ok db') :
    db.uniqueConflict row = none ∧ db' = { db with devices := db.devices.upsert row } := by
  unfold upsertDevice at h
  split at h
  · cases h
  · exact ⟨‹_›, (Except.ok.inj h).symm⟩

theorem upsertDevice_of_none {db : Database} {row : DeviceRow} (h : db.uniqueConflict row = none) :
    db.upsertDevice row = .ok { db with devices := db.devices.upsert row } := by
  unfold upsertDevice; rw [h]

theorem any_others {db : Database} {row : DeviceRow} {p : DeviceRow → Bool} :
    (db.others row).any p = true ↔ ∃ other ∈ db.devices.rows, other.id ≠ row.id ∧ p other = true := by
  simp [others]

theorem setDevice_setDevice (db : Database) {row row' : DeviceRow} (h : row'.id = row.id) :
    (db.setDevice row').setDevice row = db.setDevice row := by
  unfold setDevice
  rw [Table.set_set _ h]

/-- An upsert of a device that is there replaces its row. -/
theorem upsertDevice_present {db : Database} {row : DeviceRow} (h : db.devices.find row.id ≠ none)
    (hunique : db.uniqueConflict row = none) : db.upsertDevice row = .ok (db.setDevice row) := by
  rw [upsertDevice_of_none hunique, Table.upsert_of_present h]
  rfl

theorem uniqueConflict_none_iff {db : Database} {row : DeviceRow} : db.uniqueConflict row = none ↔
    ∀ other ∈ db.devices.rows, other.id ≠ row.id →
      ¬ (row.mac ≠ [] ∧ other.mac = row.mac) ∧ ¬ (row.hostname ≠ [] ∧ nocase other.hostname = nocase row.hostname) ∧
        ¬ (row.ipv4 ≠ [] ∧ other.ipv4 = row.ipv4) := by
  unfold uniqueConflict
  refine ⟨?_, ?_⟩
  · intro h other hm hid
    split at h
    · cases h
    · split at h
      · cases h
      · split at h
        · cases h
        · rename_i hip hhost hmac
          have found {p : DeviceRow → Bool} (hp : p other = true) : (db.others row).any p = true :=
            any_others.mpr ⟨other, hm, hid, hp⟩
          exact ⟨fun c => hmac ⟨c.1, found (decide_eq_true c.2)⟩, fun c => hhost ⟨c.1, found (decide_eq_true c.2)⟩,
            fun c => hip ⟨c.1, found (decide_eq_true c.2)⟩⟩
  · intro h
    rw [if_neg, if_neg, if_neg]
    · intro hmac
      obtain ⟨other, hm, hid, he⟩ := any_others.mp hmac.2
      exact (h other hm hid).1 ⟨hmac.1, of_decide_eq_true he⟩
    · intro hhost
      obtain ⟨other, hm, hid, he⟩ := any_others.mp hhost.2
      exact (h other hm hid).2.1 ⟨hhost.1, of_decide_eq_true he⟩
    · intro hip
      obtain ⟨other, hm, hid, he⟩ := any_others.mp hip.2
      exact (h other hm hid).2.2 ⟨hip.1, of_decide_eq_true he⟩

theorem deleteCredential_ok {db db' : Database} {id : Guid} (h : db.deleteCredential id = .ok db') :
    (db.credentials.find id = none ∧ db' = db) ∨
      ((∀ p ∈ db.profiles.rows, p.credentialId ≠ some id) ∧
        db' = { db with credentials := db.credentials.delete id }) := by
  unfold deleteCredential at h
  split at h
  · split at h
    · cases h
    · rename_i hany
      refine Or.inr ⟨fun p hp hc => hany ?_, (Except.ok.inj h).symm⟩
      exact List.any_eq_true.mpr ⟨p, hp, by simpa using hc⟩
  · exact Or.inl ⟨‹_›, (Except.ok.inj h).symm⟩

theorem upsertProfile_ok {db db' : Database} {row : ProfileRow} (h : db.upsertProfile row = .ok db') :
    db.refersToRows row ∧ db' = { db with profiles := db.profiles.upsert row } := by
  unfold upsertProfile at h
  split at h
  · exact ⟨‹_›, (Except.ok.inj h).symm⟩
  · cases h

/-- A row that refers to rows still does when devices and credentials stay present. -/
theorem refersToRows.mono {db db' : Database} {row : ProfileRow} (h : db.refersToRows row)
    (hdevices : ∀ k, db.devices.find k ≠ none → db'.devices.find k ≠ none)
    (hcredentials : ∀ k, db.credentials.find k ≠ none → db'.credentials.find k ≠ none) : db'.refersToRows row :=
  ⟨hdevices _ h.1, fun c hc => hcredentials c (h.2 c hc)⟩

theorem updateDocument_find_ne_none {db : Database} {k : Guid} (id : Guid) (d : Device) (h : db.devices.find k ≠ none) :
    (db.updateDocument id d).devices.find k ≠ none := by
  unfold updateDocument
  split
  · exact Table.find_set_ne_none _ h
  · exact h

@[simp] theorem updateDocument_credentials (db : Database) (id : Guid) (d : Device) :
    (db.updateDocument id d).credentials = db.credentials := by unfold updateDocument; split <;> rfl

@[simp] theorem updateDocument_profiles (db : Database) (id : Guid) (d : Device) :
    (db.updateDocument id d).profiles = db.profiles := by unfold updateDocument; split <;> rfl

end Database

end MythLab.Storage
