/-
  MythLab.Storage.Repository — the repository's seven writing calls
  (`SqliteDeviceRepository`, `SqliteConnections`).

  A call passes the gate, opens a connection and runs its commands; each of these may
  throw instead (a cancelled token, a file or database error), as the call's `faults`
  say. `saveAsync` and `applyObservationAsync` run in a transaction: its commands work on
  a database of its own until `commit` puts it in the store's place. The gate lets one
  call in at a time and releases it on every exit, so the calls of a run come one after
  the other (`repository`).

  What a call means is a step on the database (`saveDevice` …, together
  `Request.apply`). `perform_performs`: a call either returns and has made its step, or
  throws and has changed nothing; undisturbed, it throws only what its step throws.
-/
import Mathlib.Data.List.Sort
import MythLab.Lib.Machine
import MythLab.Devices.DeviceRules
import MythLab.Connections.ExternalConnections
import MythLab.Storage.Database

namespace MythLab.Storage.Repository

open Lib Dotnet Devices Connections Credentials

/-! ## Records and rows -/

def deviceRow (d : Device) : DeviceRow := ⟨d.id, d.displayName, d.hostname, d.ipv4Address, d.macAddress, d⟩

def profileRow (p : ConnectionProfile) : ProfileRow :=
  ⟨p.id, p.deviceId, p.credentialId, { p with displayName := trim p.displayName }⟩

/-- What `NOCASE` compares of a text: the letters, and the length in UTF-8. -/
def collated (s : Str) : List Nat × Nat := (codePoints (Database.nocase (Database.upToNul s)), (utf8 s).length)

/-- `ORDER BY name COLLATE NOCASE, id` -/
def nameLe (a b : DeviceRow) : Bool :=
  let x := collated a.name
  let y := collated b.name
  if x.1 ≠ y.1 then decide (x.1 < y.1) else if x.2 ≠ y.2 then decide (x.2 < y.2) else a.id ≤ b.id

def readDevices (db : Database) : List Device :=
  (db.devices.rows.insertionSort fun a b => nameLe a b = true).map (·.document)

def listCredentials (db : Database) : List CredentialReference :=
  db.credentials.rows.insertionSort fun a b => binaryLe a.displayLabel b.displayLabel = true

def listProfiles (db : Database) : List ConnectionProfile :=
  (db.profiles.rows.insertionSort fun a b => a.id ≤ b.id).map (·.document)

/-! ## Steps -/

/-- A verification is kept while the wake target is the same. -/
def savedCapability (current normalized : Device) : WakeCapability :=
  if normalized.wake.capability = .disabled then .disabled
  else if current.wake.capability = .verified ∧ DeviceTargets.sameWake current normalized then .verified
  else .enabledUnverified

/-- What saving a record over `current` stores: an observation is kept while the status
    target is the same. -/
def mergeSaved (current normalized : Device) : Device :=
  let same := DeviceTargets.sameStatus current normalized
  { normalized with
    lastKnownState := if same then current.lastKnownState else .unknown
    lastChecked := if same then current.lastChecked else none
    lastSeen := if same then current.lastSeen else none
    wake := { normalized.wake with capability := savedCapability current normalized } }

/-- The record to store, of a save that may have a record to merge with. -/
def merged (records : List Device) (normalized : Device) : Device :=
  match records.find? (·.id = normalized.id) with
  | some current => mergeSaved current normalized
  | none => normalized

def checkDuplicates (fw : Framework) (normalized : Device) (records : List Device) : Except Exn Unit :=
  records.forM fun existing => do
    match ← DeviceRules.matchReason fw normalized existing with
    | some reason => throw (.duplicateDevice
        ("Another managed device already uses this " ++ reason ++ ". Edit that device if its address changed."))
    | none => pure ()

def saveDevice (fw : Framework) (device : Device) (db : Database) : Except Exn Database := do
  let normalized ← DeviceRules.normalizeAndValidate fw device
  let saved := merged (readDevices db) normalized
  checkDuplicates fw saved (readDevices db)
  db.upsertDevice (deviceRow saved)

/-- The states an observation may have. -/
def observable (state : DeviceState) : Bool := state = .online || state = .offline || state = .unknown

/-- Whether an observation of `expected` still says something about `current`. -/
def accepts (current expected : Device) (observation : StatusObservation) : Bool :=
  DeviceTargets.sameStatus current expected && !laterThan current.lastChecked (some observation.checkedAt)

def observed (current expected : Device) (observation : StatusObservation) (verifyWake : Bool) : Device :=
  let verified := verifyWake && observation.state = .online && current.wake.capability ≠ .disabled &&
    DeviceTargets.sameWake current expected
  { current with
    lastKnownState := observation.state
    lastChecked := some observation.checkedAt
    lastSeen := if observation.state = .online then some observation.checkedAt else current.lastSeen
    wake := if verified then { current.wake with capability := .verified } else current.wake }

def checkObservable (observation : StatusObservation) : Except Exn Unit :=
  throwIf (¬ observable observation.state) (.argument "Only observed availability can be persisted.")

def applyObservation (expected : Device) (observation : StatusObservation) (verifyWake : Bool) (db : Database) :
    Except Exn (Option Device × Database) := do
  checkObservable observation
  match (readDevices db).find? (·.id = expected.id) with
  | some current =>
    if accepts current expected observation then
      let updated := observed current expected observation verifyWake
      pure (some updated, db.updateDocument current.id updated)
    else pure (none, db)
  | none => pure (none, db)

/-- Credential metadata that is not accepted. -/
def invalidCredential (c : CredentialReference) : Bool :=
  c.id = Guid.empty || isNullOrWhiteSpace c.displayLabel || c.displayLabel.length > 120 ||
    isNullOrWhiteSpace c.username || c.username.length > 256 || !c.authentication.isDefined ||
    (c.authentication = .privateKey && isNullOrWhiteSpace c.privateKeyPath)

def trimmed (c : CredentialReference) : CredentialReference :=
  { c with displayLabel := trim c.displayLabel, username := trim c.username, privateKeyPath := trim c.privateKeyPath }

def checkCredential (c : CredentialReference) : Except Exn Unit :=
  throwIf (invalidCredential c) (.argument "Enter a label, username and (for private-key authentication) a key path.")

def saveCredential (c : CredentialReference) (db : Database) : Except Exn Database := do
  checkCredential c
  pure (db.upsertCredential (trimmed c))

def saveProfile (fw : Framework) (p : ConnectionProfile) (db : Database) : Except Exn Database := do
  ExternalConnections.validate fw p
  db.upsertProfile (profileRow p)

/-- `catch (SqliteException ex) when (ex.SqliteErrorCode == 19)` -/
def constraintAsInUse {α : Type} : Except Exn α → Except Exn α
  | .error (.sqlite code message) =>
    if code = Database.constraint then
      .error (.invalidOperation "This credential is used by a connection. Reassign or delete those profiles first.")
    else .error (.sqlite code message)
  | r => r

def deleteCredential (id : Guid) (db : Database) : Except Exn Database := constraintAsInUse (db.deleteCredential id)

inductive Request where
  | saveDevice (device : Device)
  | applyObservation (expected : Device) (observation : StatusObservation) (verifyWake : Bool)
  | deleteDevice (id : Guid)
  | saveCredential (credential : CredentialReference)
  | deleteCredential (id : Guid)
  | saveProfile (profile : ConnectionProfile)
  | deleteProfile (id : Guid)
  deriving DecidableEq, Repr

/-- A step that returns `a`. -/
def returning {α : Type} (a : α) : Except Exn Database → Except Exn (α × Database)
  | .ok db => .ok (a, db)
  | .error e => .error e

/-- The step a request asks for, and what it returns. -/
def Request.apply (fw : Framework) : Request → Database → Except Exn (Option Device × Database)
  | .saveDevice device, db => returning none (Repository.saveDevice fw device db)
  | .applyObservation expected observation verifyWake, db =>
    Repository.applyObservation expected observation verifyWake db
  | .deleteDevice id, db => returning none (.ok (db.deleteDevice id))
  | .saveCredential credential, db => returning none (Repository.saveCredential credential db)
  | .deleteCredential id, db => returning none (Repository.deleteCredential id db)
  | .saveProfile profile, db => returning none (Repository.saveProfile fw profile db)
  | .deleteProfile id, db => returning none (.ok (db.deleteProfile id))

/-! ## Calls -/

inductive Site where
  | gate
  | start
  | createDirectory
  | openConnection
  | beginTransaction
  | command
  | cancellation
  | commit
  deriving DecidableEq, Repr

structure Store where
  initialized : Bool
  db : Database

abbrev Op (α : Type) := Eff (World Store Site) Exn α

section Calls

variable (fw : Framework) (faults : Nat → Fault Exn) {α : Type}

/-- A command of its own: it takes effect or throws. -/
def execute (f : Database → Except Exn Database) : Op Unit :=
  statement faults .command fun s =>
    match f s.db with
    | .ok db => (.ok (), { s with db := db })
    | .error e => (.error e, s)

/-- The transaction starts from the database as it is now. -/
def beginTransaction : Op Database := statement faults .beginTransaction fun s => (.ok s.db, s)

/-- A command in a transaction: what it says of the transaction's database. -/
def executeIn (r : Except Exn α) : Op α := statement faults .command fun s => (r, s)

def commit (db : Database) : Op Unit := statement faults .commit fun s => (.ok (), { s with db := db })

def requireInitialized : Op Unit := do
  let w ← Eff.get
  Eff.lift (throwIf (¬ w.state.initialized) (.invalidOperation "Initialize the repository first."))

def runAsync (action : Op α) : Op α := do
  checkpoint faults .gate
  checkpoint faults .start
  requireInitialized
  checkpoint faults .createDirectory
  checkpoint faults .openConnection
  checkpoint faults .cancellation
  action

def saveAsync (device : Device) : Op Unit := do
  let normalized ← Eff.lift (DeviceRules.normalizeAndValidate fw device)
  runAsync faults do
    let db ← beginTransaction faults
    let records ← executeIn faults (.ok (readDevices db))
    let saved := merged records normalized
    Eff.lift (checkDuplicates fw saved records)
    let db ← executeIn faults (db.upsertDevice (deviceRow saved))
    checkpoint faults .cancellation
    commit faults db

def applyObservationAsync (expected : Device) (observation : StatusObservation) (verifyWake : Bool) :
    Op (Option Device) := do
  Eff.lift (checkObservable observation)
  runAsync faults do
    let db ← beginTransaction faults
    let records ← executeIn faults (.ok (readDevices db))
    match records.find? (·.id = expected.id) with
    | some current =>
      if accepts current expected observation then do
        let updated := observed current expected observation verifyWake
        let db ← executeIn faults (.ok (db.updateDocument current.id updated))
        checkpoint faults .cancellation
        commit faults db
        pure (some updated)
      else pure none
    | none => pure none

def deleteAsync (id : Guid) : Op Unit := runAsync faults (execute faults fun db => .ok (db.deleteDevice id))

def saveCredentialAsync (credential : CredentialReference) : Op Unit := do
  Eff.lift (checkCredential credential)
  runAsync faults (execute faults fun db => .ok (db.upsertCredential (trimmed credential)))

def saveProfileAsync (profile : ConnectionProfile) : Op Unit := do
  Eff.lift (ExternalConnections.validate fw profile)
  runAsync faults (execute faults fun db => db.upsertProfile (profileRow profile))

/-- `DeleteMetadataAsync`, of the table that `f` deletes from. -/
def deleteMetadataAsync (f : Database → Except Exn Database) : Op Unit :=
  runAsync faults (execute faults fun db => constraintAsInUse (f db))

def deleteProfileAsync (id : Guid) : Op Unit := deleteMetadataAsync faults fun db => .ok (db.deleteProfile id)

def deleteCredentialAsync (id : Guid) : Op Unit := deleteMetadataAsync faults fun db => db.deleteCredential id

def perform : Request → Op (Option Device)
  | .saveDevice device => do saveAsync fw faults device; pure none
  | .applyObservation expected observation verifyWake => applyObservationAsync faults expected observation verifyWake
  | .deleteDevice id => do deleteAsync faults id; pure none
  | .saveCredential credential => do saveCredentialAsync faults credential; pure none
  | .deleteCredential id => do deleteCredentialAsync faults id; pure none
  | .saveProfile profile => do saveProfileAsync fw faults profile; pure none
  | .deleteProfile id => do deleteProfileAsync faults id; pure none

end Calls

/-! ## A call makes its step or changes nothing -/

/-- Something outside the step may make a call from `s` throw. -/
def Disturbed (faults : Nat → Fault Exn) (s : Store) : Prop := s.initialized = false ∨ ∃ n, faults n ≠ .none

/-- `m` from `s` either returns and has made the step whose result is `r`, or throws and
    has changed nothing. -/
def Performs {α : Type} (faults : Nat → Fault Exn) (s : Store) (m : Op α) (r : Except Exn (α × Database)) : Prop :=
  ∀ w : World Store Site, w.state = s → m.wp (fun res w' =>
    (∃ a db, res = .ok a ∧ r = .ok (a, db) ∧ w'.state = { s with db := db }) ∨
      (∃ e, res = .error e ∧ w'.state = s ∧ (r = .error e ∨ Disturbed faults s))) w

section Performs

variable {faults : Nat → Fault Exn} {s : Store} {α β : Type} {r : Except Exn (β × Database)}

theorem returning_bind {b : β} (x : Except Exn α) (f : α → Except Exn Database) :
    returning b (x >>= f) = x >>= fun a => returning b (f a) := by cases x <;> rfl

theorem returning_ok_iff {b c : β} {x : Except Exn Database} {db : Database} :
    returning b x = .ok (c, db) ↔ b = c ∧ x = .ok db := by
  cases x <;> simp [returning]

theorem performs_pure (b : β) : Performs faults s (pure b) (.ok (b, s.db)) := by
  intro w hw
  exact Or.inl ⟨b, s.db, rfl, rfl, hw⟩

/-- A computation without effects that throws what the step throws. -/
theorem performs_lift {x : Except Exn α} {f : α → Op β} {g : α → Except Exn (β × Database)}
    (h : ∀ a, x = .ok a → Performs faults s (f a) (g a)) : Performs faults s (Eff.lift x >>= f) (x >>= g) := by
  intro w hw
  rw [Eff.wp_bind, Eff.wp_lift]
  rcases x with e | a
  · exact Or.inr ⟨e, rfl, hw, Or.inl rfl⟩
  · exact h a rfl w hw

/-- A call that reads: it goes on with `a` and the same store, or it is disturbed. -/
theorem performs_statement {site : Site} {run : Store → Except Exn α × Store} {f : α → Op β} {a : α}
    (hrun : run s = (.ok a, s)) (h : Performs faults s (f a) r) :
    Performs faults s (statement faults site run >>= f) r := by
  intro w hw
  rw [Eff.wp_bind]
  refine wp_statement ?_ fun e hf => Or.inr ⟨e, rfl, hw, Or.inr (Or.inr ⟨_, hf⟩)⟩
  rw [hw, hrun]
  exact h _ rfl

theorem performs_checkpoint {site : Site} {m : Op β} (h : Performs faults s m r) :
    Performs faults s (do checkpoint faults site; m) r := performs_statement rfl h

theorem performs_beginTransaction {f : Database → Op β} (h : Performs faults s (f s.db) r) :
    Performs faults s (beginTransaction faults >>= f) r := performs_statement rfl h

/-- A command in a transaction that throws what the step throws. -/
theorem performs_executeIn {x : Except Exn α} {f : α → Op β} {g : α → Except Exn (β × Database)}
    (h : ∀ a, x = .ok a → Performs faults s (f a) (g a)) : Performs faults s (executeIn faults x >>= f) (x >>= g) := by
  rcases x with e | a
  · intro w hw
    rw [Eff.wp_bind]
    exact wp_statement (Or.inr ⟨e, rfl, hw, Or.inl rfl⟩) fun e hf => Or.inr ⟨e, rfl, hw, Or.inr (Or.inr ⟨_, hf⟩)⟩
  · exact performs_statement rfl (h a rfl)

theorem performs_commit (db : Database) : Performs faults s (commit faults db) (.ok ((), db)) := by
  intro w hw
  exact wp_statement (Or.inl ⟨(), db, rfl, rfl, by rw [hw]⟩) fun e hf => Or.inr ⟨e, rfl, hw, Or.inr (Or.inr ⟨_, hf⟩)⟩

theorem performs_execute (f : Database → Except Exn Database) :
    Performs faults s (execute faults f) (returning () (f s.db)) := by
  intro w hw
  refine wp_statement ?_ fun e hf => Or.inr ⟨e, rfl, hw, Or.inr (Or.inr ⟨_, hf⟩)⟩
  rw [hw]
  rcases f s.db with e | db
  · exact Or.inr ⟨e, rfl, rfl, Or.inl rfl⟩
  · exact Or.inl ⟨(), db, rfl, rfl, rfl⟩

theorem performs_requireInitialized {m : Op β} (h : Performs faults s m r) :
    Performs faults s (do requireInitialized; m) r := by
  intro w hw
  unfold requireInitialized
  rw [Eff.wp_bind, Eff.wp_bind, Eff.wp_get]
  dsimp only
  rw [Eff.wp_lift, hw, throwIf]
  by_cases hinit : s.initialized = true
  · rw [if_neg (by simpa using hinit)]
    exact h w hw
  · rw [if_pos hinit]
    exact Or.inr ⟨_, rfl, rfl, Or.inr (Or.inl (by simpa using hinit))⟩

theorem performs_runAsync {m : Op β} (h : Performs faults s m r) : Performs faults s (runAsync faults m) r :=
  performs_checkpoint (performs_checkpoint (performs_requireInitialized
    (performs_checkpoint (performs_checkpoint (performs_checkpoint h)))))

/-- What a call returns may be replaced. -/
theorem performs_returning {m : Op Unit} {x : Except Exn Database} (b : β) (h : Performs faults s m (returning () x)) :
    Performs faults s (do m; pure b) (returning b x) := by
  intro w hw
  rw [Eff.wp_bind]
  refine Eff.wp_mono (h w hw) ?_
  intro res w' hres
  rcases hres with ⟨a, db, rfl, hr, hw'⟩ | ⟨e, rfl, hw', hr⟩
  · exact Or.inl ⟨b, db, rfl, returning_ok_iff.mpr ⟨rfl, (returning_ok_iff.mp hr).2⟩, hw'⟩
  · refine Or.inr ⟨e, rfl, hw', hr.imp_left ?_⟩
    intro hr
    rcases x with e' | db
    · cases hr; rfl
    · cases hr

end Performs

section Calls

variable (fw : Framework) (faults : Nat → Fault Exn) (s : Store)

theorem saveAsync_performs (device : Device) :
    Performs faults s (saveAsync fw faults device) (returning () (saveDevice fw device s.db)) := by
  unfold saveAsync saveDevice
  rw [returning_bind]
  refine performs_lift fun normalized _ => performs_runAsync (performs_beginTransaction (performs_statement rfl ?_))
  rw [returning_bind]
  refine performs_lift ?_
  intro _ _
  rcases hup : s.db.upsertDevice (deviceRow (merged (readDevices s.db) normalized)) with e | db
  · exact performs_executeIn (x := .error e) (g := fun _ => .error e) fun a h => (by cases h)
  · exact performs_statement rfl (performs_checkpoint (performs_commit db))

theorem applyObservationAsync_performs (expected : Device) (observation : StatusObservation) (verifyWake : Bool) :
    Performs faults s (applyObservationAsync faults expected observation verifyWake)
      (applyObservation expected observation verifyWake s.db) := by
  unfold applyObservationAsync applyObservation
  refine performs_lift fun _ _ => performs_runAsync (performs_beginTransaction (performs_statement rfl ?_))
  dsimp only
  split
  · split
    · exact performs_statement rfl (performs_checkpoint (performs_returning (x := .ok _) _ (performs_commit _)))
    · exact performs_pure none
  · exact performs_pure none

theorem deleteMetadataAsync_performs (f : Database → Except Exn Database) :
    Performs faults s (deleteMetadataAsync faults f) (returning () (constraintAsInUse (f s.db))) :=
  performs_runAsync (performs_execute _)

/-- Every call either returns and has made its step, or throws and has changed nothing. -/
theorem perform_performs (request : Request) :
    Performs faults s (perform fw faults request) (request.apply fw s.db) := by
  cases request with
  | saveDevice device => exact performs_returning none (saveAsync_performs fw faults s device)
  | applyObservation expected observation verifyWake =>
    exact applyObservationAsync_performs faults s expected observation verifyWake
  | deleteDevice id => exact performs_returning none (performs_runAsync (performs_execute _))
  | saveCredential credential =>
    refine performs_returning none ?_
    unfold saveCredentialAsync saveCredential
    rw [returning_bind]
    exact performs_lift fun _ _ => performs_runAsync (performs_execute _)
  | deleteCredential id => exact performs_returning none (deleteMetadataAsync_performs faults s _)
  | saveProfile profile =>
    refine performs_returning none ?_
    unfold saveProfileAsync saveProfile
    rw [returning_bind]
    exact performs_lift fun _ _ => performs_runAsync (performs_execute _)
  | deleteProfile id => exact performs_returning none (deleteMetadataAsync_performs faults s _)

end Calls

/-! ## What a step can do -/

@[simp] theorem mem_readDevices {db : Database} {d : Device} :
    d ∈ readDevices db ↔ ∃ row ∈ db.devices.rows, row.document = d := by
  simp [readDevices, List.mem_insertionSort]

/-- The first record with an id is the one of the row with that id. -/
theorem find_record {db : Database} (h : ∀ row ∈ db.devices.rows, row.id = row.document.id) (id : Guid) :
    (readDevices db).find? (·.id = id) = (db.devices.find id).map (·.document) := by
  rcases hfind : db.devices.find id with _ | row
  · refine List.find?_eq_none.mpr fun d hd => ?_
    obtain ⟨row, hrow, rfl⟩ := mem_readDevices.mp hd
    rw [← h row hrow]
    simpa using (Table.find_none_iff _ _).mp hfind row hrow
  · obtain ⟨hrow, hid⟩ := (Table.find_some_iff _ _ _).mp hfind
    rcases hrec : (readDevices db).find? (·.id = id) with _ | d
    · have hne := List.find?_eq_none.mp hrec row.document (mem_readDevices.mpr ⟨row, hrow, rfl⟩)
      rw [← h row hrow] at hne
      exact absurd hid (by simpa using hne)
    · obtain ⟨row', hrow', rfl⟩ := mem_readDevices.mp (List.mem_of_find?_eq_some hrec)
      have hid' : row'.document.id = id := by simpa using List.find?_some hrec
      rw [hrec, Table.key_inj hrow' hrow ((h row' hrow').trans (hid'.trans hid.symm))]
      rfl

theorem checkDuplicates_ok_iff {fw : Framework} {d : Device} {records : List Device} :
    checkDuplicates fw d records = .ok () ↔ ∀ r ∈ records, DeviceRules.matchReason fw d r = .ok none := by
  refine forM_ok_iff.trans (forall₂_congr ?_)
  intro r _
  refine ⟨?_, ?_⟩
  · intro h
    obtain ⟨reason, hreason, hr⟩ := bind_ok_iff.mp h
    cases reason with
    | none => exact hreason
    | some reason => cases hr
  · intro hr
    exact bind_ok_iff.mpr ⟨none, hr, rfl⟩

theorem saveDevice_ok {fw : Framework} {device : Device} {db db' : Database} (h : saveDevice fw device db = .ok db') :
    ∃ normalized, DeviceRules.normalizeAndValidate fw device = .ok normalized ∧
      checkDuplicates fw (merged (readDevices db) normalized) (readDevices db) = .ok () ∧
      db' = { db with devices := db.devices.upsert (deviceRow (merged (readDevices db) normalized)) } := by
  obtain ⟨normalized, hn, h⟩ := bind_ok_iff.mp h
  obtain ⟨_, hdup, h⟩ := bind_ok_iff.mp h
  exact ⟨normalized, hn, hdup, (Database.upsertDevice_ok h).2⟩

theorem constraintAsInUse_ok {α : Type} {r : Except Exn α} {a : α} (h : constraintAsInUse r = .ok a) : r = .ok a := by
  unfold constraintAsInUse at h
  split at h
  · split at h <;> cases h
  · exact h

/-- An observation is stored for the record found, or nothing is. -/
theorem applyObservation_ok {expected : Device} {observation : StatusObservation} {verifyWake : Bool}
    {db db' : Database} {result : Option Device}
    (h : applyObservation expected observation verifyWake db = .ok (result, db')) :
    observable observation.state = true ∧
      ((result = none ∧ db' = db) ∨
        ∃ current, (readDevices db).find? (·.id = expected.id) = some current ∧
          accepts current expected observation = true ∧
          result = some (observed current expected observation verifyWake) ∧
          db' = db.updateDocument current.id (observed current expected observation verifyWake)) := by
  obtain ⟨hobs, h⟩ := throwIf_bind_ok_iff.mp h
  refine ⟨by simpa using hobs, ?_⟩
  split at h
  · rename_i current hfind
    split at h
    · rename_i hacc
      cases h
      exact Or.inr ⟨current, hfind, hacc, rfl, rfl⟩
    · cases h
      exact Or.inl ⟨rfl, rfl⟩
  · cases h
    exact Or.inl ⟨rfl, rfl⟩

/-- The fields of a record that a merge leaves as they were normalized. -/
theorem merged_fields (records : List Device) (d : Device) :
    (merged records d).id = d.id ∧ (merged records d).hostname = d.hostname ∧
      (merged records d).ipv4Address = d.ipv4Address ∧ (merged records d).macAddress = d.macAddress ∧
      (merged records d).displayName = d.displayName ∧ (merged records d).statusCheck = d.statusCheck ∧
      (merged records d).statusPort = d.statusPort := by
  unfold merged
  split <;> exact ⟨rfl, rfl, rfl, rfl, rfl, rfl, rfl⟩

/-! ## Runs -/

structure Call where
  request : Request
  faults : Nat → Fault Exn

/-- How a call ends, and the store it leaves. -/
def run (fw : Framework) (s : Store) (c : Call) : Except Exn (Option Device) × Store :=
  let r := perform fw c.faults c.request ⟨s, []⟩
  (r.1, r.2.state)

/-- The calls on a database that has just been created. -/
def repository (fw : Framework) : Machine Store Call where
  init s := s = ⟨true, Database.empty⟩
  step s c := some (run fw s c).2

theorem run_cases (fw : Framework) (s : Store) (c : Call) :
    (∃ a db, (run fw s c).1 = .ok a ∧ c.request.apply fw s.db = .ok (a, db) ∧ (run fw s c).2 = { s with db := db }) ∨
      (∃ e, (run fw s c).1 = .error e ∧ (run fw s c).2 = s ∧
        (c.request.apply fw s.db = .error e ∨ Disturbed c.faults s)) :=
  perform_performs fw c.faults s c.request ⟨s, []⟩ rfl

/-- A call that nothing disturbs. -/
def quiet (request : Request) : Call := ⟨request, fun _ => .none⟩

theorem not_disturbed {s : Store} (hinit : s.initialized = true) : ¬ Disturbed (fun _ => .none) s := by
  intro h
  rcases h with h | ⟨n, hn⟩
  · simp [hinit] at h
  · exact hn rfl

/-- An undisturbed call makes its step. -/
theorem run_quiet {fw : Framework} {s : Store} {request : Request} {a : Option Device} {db : Database}
    (hinit : s.initialized = true) (h : request.apply fw s.db = .ok (a, db)) :
    run fw s (quiet request) = (.ok a, { s with db := db }) := by
  rcases run_cases fw s (quiet request) with ⟨a', db', hr, happly, hs⟩ | ⟨e, -, -, he | hd⟩
  · cases h.symm.trans happly
    exact Prod.ext hr hs
  · cases h.symm.trans he
  · exact absurd hd (not_disturbed hinit)

/-- An invariant of the steps is one of the runs. -/
theorem reach_inv {fw : Framework} {I : Database → Prop} (hempty : I Database.empty)
    (hstep : ∀ request db a db', I db → Request.apply fw request db = .ok (a, db') → I db') {s : Store}
    (h : (repository fw).Reach s) : I s.db := by
  refine Machine.Reach.inv (I := fun s => I s.db) ?_ ?_ h
  · intro s hs
    cases hs; exact hempty
  · intro s c s' hs hs'
    cases hs'
    rcases run_cases fw s c with ⟨a, db, _, happly, hs'⟩ | ⟨e, _, hs', _⟩
    · rw [hs']; exact hstep _ _ _ _ hs happly
    · rw [hs']; exact hs

/-! ## Stored credentials -/

/-- Metadata as the repository stores it: accepted, and trimmed. -/
def StoredCredentials (db : Database) : Prop :=
  ∀ c ∈ db.credentials.rows, invalidCredential c = false ∧ trimmed c = c

theorem trimmed_trimmed (c : CredentialReference) : trimmed (trimmed c) = trimmed c := by
  simp [trimmed, trim_trim]

theorem invalidCredential_trimmed {c : CredentialReference} (h : invalidCredential c = false) :
    invalidCredential (trimmed c) = false := by
  have hlabel := trim_length_le c.displayLabel
  have huser := trim_length_le c.username
  unfold invalidCredential at h
  simp only [Bool.or_eq_false_iff, decide_eq_false_iff_not] at h
  obtain ⟨⟨⟨⟨⟨⟨h1, h2⟩, h3⟩, h4⟩, h5⟩, h6⟩, h7⟩ := h
  unfold invalidCredential trimmed
  dsimp only
  simp only [isNullOrWhiteSpace_trim, Bool.or_eq_false_iff, decide_eq_false_iff_not]
  exact ⟨⟨⟨⟨⟨⟨h1, h2⟩, by omega⟩, h4⟩, by omega⟩, h6⟩, h7⟩

theorem saveCredential_ok {credential : CredentialReference} {db db' : Database}
    (h : saveCredential credential db = .ok db') :
    invalidCredential credential = false ∧ db' = db.upsertCredential (trimmed credential) := by
  obtain ⟨hvalid, h⟩ := throwIf_bind_ok_iff.mp h
  exact ⟨by simpa using hvalid, (Except.ok.inj h).symm⟩

theorem saveCredential_stored {credential : CredentialReference} {db db' : Database} (hdb : StoredCredentials db)
    (h : saveCredential credential db = .ok db') : StoredCredentials db' := by
  obtain ⟨hvalid, rfl⟩ := saveCredential_ok h
  intro c hc
  rcases Table.mem_upsert.mp hc with rfl | ⟨hc, -⟩
  · exact ⟨invalidCredential_trimmed hvalid, trimmed_trimmed credential⟩
  · exact hdb c hc

theorem apply_storedCredentials {fw : Framework} {request : Request} {db db' : Database} {a : Option Device}
    (hdb : StoredCredentials db) (h : request.apply fw db = .ok (a, db')) : StoredCredentials db' := by
  cases request with
  | saveDevice device =>
    obtain ⟨_, -, -, rfl⟩ := saveDevice_ok (returning_ok_iff.mp h).2
    exact hdb
  | applyObservation expected observation verifyWake =>
    rcases (applyObservation_ok h).2 with ⟨_, rfl⟩ | ⟨current, -, -, -, rfl⟩
    · exact hdb
    · unfold StoredCredentials
      rw [Database.updateDocument_credentials]
      exact hdb
  | deleteDevice id =>
    cases h
    unfold Database.deleteDevice
    split <;> exact hdb
  | saveCredential credential => exact saveCredential_stored hdb (returning_ok_iff.mp h).2
  | deleteCredential id =>
    rcases Database.deleteCredential_ok (constraintAsInUse_ok (returning_ok_iff.mp h).2) with ⟨-, rfl⟩ | ⟨-, rfl⟩
    · exact hdb
    · intro c hc
      exact hdb c (Table.mem_delete.mp hc).1
  | saveProfile profile =>
    obtain ⟨_, -, hsave⟩ := bind_ok_iff.mp (returning_ok_iff.mp h).2
    obtain ⟨-, rfl⟩ := Database.upsertProfile_ok hsave
    exact hdb
  | deleteProfile id =>
    cases h
    exact hdb

theorem reach_storedCredentials {fw : Framework} {s : Store} (h : (repository fw).Reach s) : StoredCredentials s.db :=
  reach_inv (fun _ hc => nomatch hc) (fun _ _ _ _ hdb happly => apply_storedCredentials hdb happly) h

end MythLab.Storage.Repository
