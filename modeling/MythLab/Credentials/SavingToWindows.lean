/-
  MythLab.Credentials.SavingToWindows — the save of a credential over the Windows store.

  `SaveCalls` is what `SaveAsync` calls and the variables it keeps, and `SaveCalls.saveAsync` the save over
  them: over an abstract table of secrets it is `CredentialSaveService.saveAsync`
  (`saveAsync_over_secrets`). Over the Windows store (`overWindows`) Windows may refuse any
  native call and the token be cancelled at any read; each call then does what the table of
  secrets does, or throws and leaves the secrets as they were. So the save over Windows is
  the save over a table under some faults (`save_realizes`), and what was proved of that for
  any faults holds of the credentials of the Windows user (`windows_save_atomic`).

  The blobs of the identifiers must be such as the store writes (`Sound`), which the save
  keeps: a secret of other bytes would not be put back as it was.
-/
import MythLab.Credentials.CredentialSaveService
import MythLab.Credentials.WindowsCredentialStore
import MythLab.Lib.Realizing

namespace MythLab.Credentials.CredentialSaveService

open Lib Dotnet Storage Repository
open WindowsCredentialStore (Entries view targetName NotFoundIsTrue)

/-! ## The save, over its calls -/

/-- The calls of a save to its two stores, and the variables it keeps. -/
structure SaveCalls (σ : Type) where
  wait : Eff (World σ Site) SaveExn Unit
  entered : σ → σ
  left : σ → σ
  listCredentials : Eff (World σ Site) SaveExn (List CredentialReference)
  read : Guid → Eff (World σ Site) SaveExn (Option Str)
  inspect : Guid → Eff (World σ Site) SaveExn SecretStatus
  throwIfCancelled : Eff (World σ Site) SaveExn Unit
  begun : σ → σ
  secretAttempt : σ → σ
  metadataAttempt : σ → σ
  secretAttempted : σ → Bool
  metadataAttempted : σ → Bool
  /-- `WriteAsync`, or `DeleteAsync` where there is nothing to write. -/
  setSecret : Site → Guid → Option Str → Eff (World σ Site) SaveExn Unit
  onDatabase : Site → (Database → Except Exn Database) → Eff (World σ Site) SaveExn Unit

namespace SaveCalls

variable {σ : Type} (calls : SaveCalls σ)

def modify (f : σ → σ) : Eff (World σ Site) SaveExn Unit := Eff.modify fun w => { w with state := f w.state }

def passwordAvailable (updated : CredentialReference) (prior : Option CredentialReference) :
    Eff (World σ Site) SaveExn Bool :=
  if prior.all fun p => p.authentication ≠ updated.authentication then pure false
  else do
    let status ← calls.inspect updated.id
    pure (status = .available)

def allow (updated : CredentialReference) (replaceSecret : Bool) (prior : Option CredentialReference)
    (priorSecret : Option Str) : Eff (World σ Site) SaveExn Unit := do
  Eff.lift ((throwIf (prior = none ∧ priorSecret ≠ none)
    (.invalidOperation "A Windows secret already exists for this new credential identifier. Manual credential repair may be required.")).mapError .other)
  let passwordKept ← Eff.provided (updated.authentication = .password ∧ ¬ replaceSecret)
    (calls.passwordAvailable updated prior) true
  Eff.lift ((throwIf (¬ passwordKept) (.argument "Enter a password and enable Save / replace.")).mapError .other)
  calls.throwIfCancelled

def prepare (updated : CredentialReference) (replaceSecret : Bool) :
    Eff (World σ Site) SaveExn (Option CredentialReference × Option Str) := do
  let credentials ← calls.listCredentials
  let prior ← Eff.lift ((singleOrDefault (·.id = updated.id) credentials).mapError .other)
  let priorSecret ← Eff.provided (changesSecret updated replaceSecret prior = true ∨ prior = none)
    (calls.read updated.id) none
  calls.allow updated replaceSecret prior priorSecret
  pure (prior, priorSecret)

def mutate (updated : CredentialReference) (secretChanges replaceSecret : Bool) (replacement : Option Str) :
    Eff (World σ Site) SaveExn Unit := do
  Eff.provided secretChanges (do
    modify calls.secretAttempt
    calls.setSecret .secret updated.id (if replaceSecret then replacement else none)) ()
  modify calls.metadataAttempt
  calls.onDatabase .metadata (saveCredential updated)

def orRepair (m : Eff (World σ Site) SaveExn Unit) : Eff (World σ Site) SaveExn Bool :=
  tryCatch (do m; pure false) fun _ => pure true

/-- The changes that were attempted: of the secret, of the metadata. -/
def attempts : Eff (World σ Site) SaveExn (Bool × Bool) := do
  let w ← Eff.get
  pure (calls.secretAttempted w.state, calls.metadataAttempted w.state)

def compensate (id : Guid) (prior : Option CredentialReference) (priorSecret : Option Str) :
    Eff (World σ Site) SaveExn Unit := do
  let attempted ← calls.attempts
  let secretFailed ← Eff.provided attempted.1 (orRepair (calls.setSecret .restoreSecret id priorSecret)) false
  let metadataFailed ← Eff.provided attempted.2 (orRepair (calls.onDatabase .restoreMetadata
    (match prior with
      | none => deleteCredential id
      | some p => saveCredential p))) false
  throw (.credentialSave (secretFailed || metadataFailed))

def guarded (updated : CredentialReference) (replaceSecret : Bool) (replacement : Option Str) :
    Eff (World σ Site) SaveExn Unit := do
  let (prior, priorSecret) ← calls.prepare updated replaceSecret
  modify calls.begun
  tryCatch (calls.mutate updated (changesSecret updated replaceSecret prior) replaceSecret replacement)
    fun _ => calls.compensate updated.id prior priorSecret

def saveAsync (updated : CredentialReference) (replaceSecret : Bool) (replacement : Option Str) :
    Eff (World σ Site) SaveExn Unit := do
  Eff.lift ((throwIf (invalidCredential updated)
    (.argument "Enter a valid credential label, username and authentication configuration.")).mapError .other)
  Eff.lift ((throwIf (replaceSecret ∧ (replacement = none ∨ updated.authentication = .password ∧ replacement = some []))
    (.argument "Enter the replacement password or key passphrase.")).mapError .other)
  calls.wait
  modify calls.entered
  tryFinally (calls.guarded updated replaceSecret replacement) (modify calls.left)

end SaveCalls

/-- The calls over a table of secrets. -/
def overSecrets (faults : Nat → Fault Exn) (unreadable : Option SecretStatus) : SaveCalls State where
  wait := store faults .gate fun s => (.ok (), s)
  entered s := { s with permits := s.permits - 1 }
  left s := { s with permits := s.permits + 1 }
  listCredentials := store faults .list listCredentials
  read id := store faults .read (readSecret id)
  inspect id := store faults .inspect (inspectSecret unreadable id)
  throwIfCancelled := store faults .cancellation fun s => (.ok (), s)
  begun s := { s with secretAttempted := false, metadataAttempted := false }
  secretAttempt s := { s with secretAttempted := true }
  metadataAttempt s := { s with metadataAttempted := true }
  secretAttempted := State.secretAttempted
  metadataAttempted := State.metadataAttempted
  setSecret site id value := store faults site (setSecret id value)
  onDatabase site step := store faults site (CredentialSaveService.onDatabase step)

theorem saveAsync_over_secrets (faults : Nat → Fault Exn) (unreadable : Option SecretStatus) (updated : CredentialReference)
    (replaceSecret : Bool) (replacement : Option Str) :
    (overSecrets faults unreadable).saveAsync updated replaceSecret replacement =
      saveAsync faults unreadable updated replaceSecret replacement := rfl

/-! ## Over the Windows store -/

/-- Both stores, the secrets as Windows keeps them. -/
structure Stored where
  db : Database
  store : WindowsCredentialStore.State
  permits : Nat
  secretAttempted : Bool
  metadataAttempted : Bool

/-- A call of the Windows store; what it throws is not the service's own exception. -/
def onStore {α : Type} (m : Eff WindowsCredentialStore.State Exn α) : Stored → Except SaveExn α × Stored := fun s =>
  ((m s.store).1.mapError .other, { s with store := (m s.store).2 })

def changeDatabase (step : Database → Except Exn Database) : Stored → Except Exn Unit × Stored := fun s =>
  match step s.db with
  | .ok db => (.ok (), { s with db := db })
  | .error e => (.error e, s)

section Windows

variable (faults : Nat → Fault Exn) (refused : Nat → Option Nat) (cancelled : Nat → Bool) (applicationId : Str)

/-- A call to the repository or to the gate. -/
def callRepository {α : Type} (site : Site) (run : Stored → Except Exn α × Stored) : Eff (World Stored Site) SaveExn α :=
  call (fun n => (faults n).map .other) site fun s => ((run s).1.mapError .other, (run s).2)

/-- The calls over Windows: the repository as before; the store answers for itself. -/
def overWindows : SaveCalls Stored where
  wait := callRepository faults .gate fun s => (.ok (), s)
  entered s := { s with permits := s.permits - 1 }
  left s := { s with permits := s.permits + 1 }
  listCredentials := callRepository faults .list fun s => (.ok (Repository.listCredentials s.db), s)
  read id w := call (fun _ => .none) .read
    (onStore (WindowsCredentialStore.readAsync refused applicationId (cancelled w.calls.length) id)) w
  inspect id w := call (fun _ => .none) .inspect
    (onStore (WindowsCredentialStore.inspectAsync refused applicationId (cancelled w.calls.length) id)) w
  throwIfCancelled := callRepository faults .cancellation fun s => (.ok (), s)
  begun s := { s with secretAttempted := false, metadataAttempted := false }
  secretAttempt s := { s with secretAttempted := true }
  metadataAttempt s := { s with metadataAttempted := true }
  secretAttempted := Stored.secretAttempted
  metadataAttempted := Stored.metadataAttempted
  -- `CancellationToken.None`
  setSecret site id value := call (fun _ => .none) site (onStore (match value with
    | some secret => WindowsCredentialStore.writeAsync refused applicationId false id secret
    | none => WindowsCredentialStore.deleteAsync refused applicationId false id))
  onDatabase site step := callRepository faults site (changeDatabase step)

end Windows

/-! ## One call after another -/

/-- The blobs of the identifiers are those of texts, within the limit. -/
def Sound (applicationId : Str) (entries : Entries) : Prop := ∀ id blob, entries (targetName applicationId id) = some blob →
  unicodeBytes (ofUnicodeBytes blob) = blob ∧ blob.length ≤ 2560

/-- The table of secrets is what Windows holds, and no entry but that of `id` is other than in
    `before`. -/
structure Same (applicationId : Str) (id : Guid) (before : Entries) (s : Stored) (t : State) : Prop where
  db : t.db = s.db
  secrets : t.secrets = view applicationId s.store.entries
  permits : t.permits = s.permits
  secretAttempted : t.secretAttempted = s.secretAttempted
  metadataAttempted : t.metadataAttempted = s.metadataAttempted
  sound : Sound applicationId s.store.entries
  others : ∀ name ≠ targetName applicationId id, s.store.entries name = before name

/-- Nothing was asked of Windows since the native call `n`. -/
structure Unasked (applicationId : Str) (id : Guid) (before : Entries) (n : Nat) (s : Stored) (t : State) : Prop
    extends Same applicationId id before s t where
  natives : s.store.natives = n

section Calls

variable {faults : Nat → Fault Exn} {refused : Nat → Option Nat} {cancelled : Nat → Bool} {applicationId : Str}
  {unreadable : Option SecretStatus} {id : Guid} {before : Entries} {n : Nat} {R : Stored → State → Prop}

theorem callRepository_realizes {α : Type} {site : Site} {run : Stored → Except Exn α × Stored} {abstract : Run α}
    (h : ∀ s t, R s t → (abstract t).1 = (run s).1 ∧ R (run s).2 (abstract t).2) :
    Realizes R (callRepository faults site run) (fun faults => store faults site abstract) (fun _ => R) :=
  Realizes.call faults (fun s t hR => ⟨congrArg (Except.mapError _) (h s t hR).1, (h s t hR).2⟩)
    fun s t _ hR => ⟨hR, (h s t hR).2⟩

theorem onDatabase_realizes {site : Site} {step : Database → Except Exn Database} :
    Realizes (Same applicationId id before) ((overWindows faults refused cancelled applicationId).onDatabase site step)
      (fun faults => (overSecrets faults unreadable).onDatabase site step) (fun _ => Same applicationId id before) := by
  show Realizes _ (callRepository faults site (changeDatabase step)) (fun faults => store faults site (onDatabase step)) _
  refine callRepository_realizes ?_
  intro s t h
  unfold onDatabase changeDatabase
  rw [h.db]
  cases step s.db with
  | ok db => exact ⟨rfl, { h with db := rfl }⟩
  | error e => exact ⟨rfl, h⟩

theorem Same.keep {s : Stored} {t : State} (h : Same applicationId id before s t) {store : WindowsCredentialStore.State}
    (hentries : store.entries = s.store.entries) : Same applicationId id before { s with store := store } t where
  db := h.db
  secrets := by rw [h.secrets, ← hentries]
  permits := h.permits
  secretAttempted := h.secretAttempted
  metadataAttempted := h.metadataAttempted
  sound := hentries ▸ h.sound
  others := hentries ▸ h.others

theorem wellFormed_view {entries : Entries} {secret : Str} (hsound : Sound applicationId entries)
    (h : view applicationId entries id = some secret) : WellFormed secret := by
  obtain ⟨blob, hblob, rfl⟩ := Option.map_eq_some_iff.mp h
  exact (unicodeBytes_ofUnicodeBytes_iff.mp (hsound id blob hblob).1).2

/-- A call of the store that does what the table does, or throws and keeps the secrets. -/
theorem onStore_realizes {α : Type} {site : Site} {m : Eff WindowsCredentialStore.State Exn α} {run : Run α}
    {Q : Except SaveExn α → Stored → State → Prop}
    (h : ∀ s t, R s t → ((run t).1 = (m s.store).1 ∧
        Q ((m s.store).1.mapError .other) { s with store := (m s.store).2 } (run t).2) ∨
      ∃ e, (m s.store).1 = .error e ∧ Q (.error (.other e)) { s with store := (m s.store).2 } t) :
    Realizes R (call (fun _ => .none) site (onStore m)) (fun faults => store faults site run) Q := by
  refine Realizes.storeCall ?_
  intro s t hR
  rcases h s t hR with ⟨hresult, hQ⟩ | ⟨e, he, hQ⟩
  · exact Or.inl ⟨congrArg (Except.mapError _) hresult, hQ⟩
  · have hthrown : (onStore m s).1 = .error (.other e) := congrArg (Except.mapError _) he
    refine Or.inr ⟨e, hthrown, ?_⟩
    rw [hthrown]
    exact hQ

/-- A secret that is read is a text, so it can be written back as it was. -/
theorem read_realizes (hfound : NotFoundIsTrue refused) :
    Realizes (Same applicationId id before) ((overWindows faults refused cancelled applicationId).read id)
      (fun faults => (overSecrets faults unreadable).read id)
      (fun r s t => Same applicationId id before s t ∧ ∀ secret, r = .ok (some secret) → WellFormed secret) := by
  have hcall (token : Bool) : Realizes (Same applicationId id before)
      (call (fun _ => .none) .read (onStore (WindowsCredentialStore.readAsync refused applicationId token id)))
      (fun faults => store faults .read (readSecret id))
      (fun r s t => Same applicationId id before s t ∧ ∀ secret, r = .ok (some secret) → WellFormed secret) := by
    refine onStore_realizes ?_
    intro s t h
    obtain ⟨hentries, hr⟩ := WindowsCredentialStore.readAsync_outcome applicationId hfound token id s.store
    rcases hr with ⟨e, he⟩ | hok
    · exact Or.inr ⟨e, he, h.keep hentries, fun secret hsecret => nomatch hsecret⟩
    · rw [hok]
      refine Or.inl ⟨congrArg Except.ok (congrFun h.secrets id), h.keep hentries, ?_⟩
      intro secret hsecret
      exact wellFormed_view h.sound (Except.ok.inj hsecret)
  exact fun w v hR hcalls => hcall (cancelled w.calls.length) w v hR hcalls

/-- The state of a save after the secret was set. -/
theorem Same.set {s : Stored} {t : State} (h : Same applicationId id before s t) {store : WindowsCredentialStore.State}
    (secret : Option Str) (hfits : ∀ text ∈ secret, text.length ≤ 1280)
    (hentries : store.entries = Function.update s.store.entries (targetName applicationId id) (secret.map unicodeBytes)) :
    Same applicationId id before { s with store := store }
      { t with secrets := Function.update t.secrets id (secret.map replaceLone) } where
  db := h.db
  secrets := by
    funext other
    unfold view
    dsimp only
    rw [hentries]
    by_cases hid : other = id
    · subst hid
      rw [Function.update_self, Function.update_self]
      cases secret with
      | none => rfl
      | some text => exact congrArg some (ofUnicodeBytes_unicodeBytes text).symm
    · have hname : targetName applicationId other ≠ targetName applicationId id :=
        fun h => hid (WindowsCredentialStore.targetName_injective h)
      rw [Function.update_of_ne hid, Function.update_of_ne hname, h.secrets]
      rfl
  permits := h.permits
  secretAttempted := h.secretAttempted
  metadataAttempted := h.metadataAttempted
  sound := by
    intro other blob hblob
    dsimp only at hblob
    rw [hentries] at hblob
    by_cases hname : targetName applicationId other = targetName applicationId id
    · rw [hname, Function.update_self] at hblob
      obtain ⟨text, htext, rfl⟩ := Option.map_eq_some_iff.mp hblob
      have hlength := hfits text htext
      refine ⟨?_, ?_⟩
      · rw [ofUnicodeBytes_unicodeBytes, unicodeBytes, replaceLone_replaceLone, unicodeBytes]
      · rw [length_unicodeBytes]
        omega
    · rw [Function.update_of_ne hname] at hblob
      exact h.sound other blob hblob
  others := by
    intro name hname
    dsimp only
    rw [hentries, Function.update_of_ne hname]
    exact h.others name hname

theorem setSecret_realizes (hfound : NotFoundIsTrue refused) (site : Site) (secret : Option Str) :
    Realizes (Same applicationId id before) ((overWindows faults refused cancelled applicationId).setSecret site id secret)
      (fun faults => (overSecrets faults unreadable).setSecret site id (secret.map replaceLone))
      (fun _ => Same applicationId id before) := by
  refine onStore_realizes ?_
  intro s t h
  cases secret with
  | none =>
    dsimp only
    rcases WindowsCredentialStore.deleteAsync_outcome applicationId hfound false id s.store with
      ⟨e, he, hentries⟩ | ⟨hok, hentries⟩
    · exact Or.inr ⟨e, he, h.keep hentries⟩
    · rw [hok]
      exact Or.inl ⟨rfl, h.set none (fun text htext => nomatch htext) hentries⟩
  | some text =>
    dsimp only
    rcases WindowsCredentialStore.writeAsync_outcome applicationId hfound false id text s.store with
      ⟨e, he, hentries⟩ | ⟨hok, hfits, hentries⟩
    · exact Or.inr ⟨e, he, h.keep hentries⟩
    · rw [hok]
      refine Or.inl ⟨rfl, h.set (some text) ?_ hentries⟩
      intro other hother
      cases hother
      exact hfits

/-- The first question to Windows: whether there is a secret. -/
theorem inspect_realizes (hfound : NotFoundIsTrue refused) :
    Realizes (Unasked applicationId id before n) ((overWindows faults refused cancelled applicationId).inspect id)
      (fun faults => (overSecrets faults ((refused n).map WindowsCredentialStore.classify)).inspect id)
      (fun _ => Same applicationId id before) := by
  have hcall (token : Bool) : Realizes (Unasked applicationId id before n)
      (call (fun _ => .none) .inspect (onStore (WindowsCredentialStore.inspectAsync refused applicationId token id)))
      (fun faults => store faults .inspect (inspectSecret ((refused n).map WindowsCredentialStore.classify) id))
      (fun _ => Same applicationId id before) := by
    refine onStore_realizes ?_
    intro s t h
    obtain ⟨hentries, hanswer⟩ := WindowsCredentialStore.inspectAsync_outcome applicationId hfound token id s.store
    rcases hr : (WindowsCredentialStore.inspectAsync refused applicationId token id s.store).1 with e | status
    · exact Or.inr ⟨e, rfl, h.keep hentries⟩
    · refine Or.inl ⟨?_, h.keep hentries⟩
      have hsome : (t.secrets id).isSome = (s.store.entries (targetName applicationId id)).isSome := by
        rw [h.secrets, view, Option.isSome_map]
      have hstatus := hanswer status hr
      rw [h.natives, ← hsome] at hstatus
      exact congrArg Except.ok hstatus.symm
  exact fun w v hR hcalls => hcall (cancelled w.calls.length) w v hR hcalls

/-! ## The whole save -/

section Save

variable {updated : CredentialReference} {replaceSecret : Bool} {prior : Option CredentialReference}

/-- Before the checks: the inspection that they may make is the first question. -/
def Ready (applicationId : Str) (updated : CredentialReference) (before : Entries) (n : Nat) (replaceSecret : Bool)
    (prior : Option CredentialReference) (s : Stored) (t : State) : Prop :=
  Same applicationId updated.id before s t ∧
    (changesSecret updated replaceSecret prior = false → prior ≠ none → s.store.natives = n)

theorem Ready.unasked {s : Stored} {t : State} (h : Ready applicationId updated before n replaceSecret prior s t)
    (hreplace : ¬ replaceSecret = true) (hprior : ¬ (prior.all fun p => p.authentication ≠ updated.authentication) = true) :
    Unasked applicationId updated.id before n s t := by
  refine ⟨h.1, h.2 ?_ ?_⟩
  · cases prior with
    | none => exact absurd rfl hprior
    | some p => simpa [changesSecret, hreplace] using hprior
  · intro hnone
    rw [hnone] at hprior
    exact hprior rfl

theorem passwordAvailable_realizes (hfound : NotFoundIsTrue refused) (hreplace : ¬ replaceSecret = true) :
    Realizes (Ready applicationId updated before n replaceSecret prior)
      ((overWindows faults refused cancelled applicationId).passwordAvailable updated prior)
      (fun faults => (overSecrets faults ((refused n).map WindowsCredentialStore.classify)).passwordAvailable updated prior)
      (fun _ => Same applicationId updated.id before) := by
  refine Realizes.ite ?_ ?_
  · intro _
    exact Realizes.lift (.ok false) fun _ _ h => h.1
  · intro hprior
    refine Realizes.bind (Q := fun _ => Same applicationId updated.id before) ?_ ?_ fun _ _ _ h => h
    · exact (inspect_realizes hfound).weaken fun _ _ h => h.unasked hreplace hprior
    · intro status
      exact Realizes.lift (.ok _) fun _ _ h => h

theorem allow_realizes (hfound : NotFoundIsTrue refused) (priorSecret : Option Str) :
    Realizes (Ready applicationId updated before n replaceSecret prior)
      ((overWindows faults refused cancelled applicationId).allow updated replaceSecret prior priorSecret)
      (fun faults => (overSecrets faults ((refused n).map WindowsCredentialStore.classify)).allow updated replaceSecret prior
        priorSecret)
      (fun _ => Same applicationId updated.id before) := by
  refine Realizes.bind (Q := fun _ => Ready applicationId updated before n replaceSecret prior) ?_ ?_ fun _ _ _ h => h.1
  · exact Realizes.lift _ fun _ _ h => h
  intro _
  refine Realizes.bind (Q := fun _ => Same applicationId updated.id before) ?_ ?_ fun _ _ _ h => h
  · refine Realizes.provided ?_ fun _ _ _ h => h.1
    intro hpassword
    exact passwordAvailable_realizes hfound hpassword.2
  intro passwordKept
  refine Realizes.bind (Q := fun _ => Same applicationId updated.id before) ?_ ?_ fun _ _ _ h => h
  · exact Realizes.lift _ fun _ _ h => h
  intro _
  exact callRepository_realizes fun _ _ h => ⟨rfl, h⟩

theorem prepare_realizes (hfound : NotFoundIsTrue refused) :
    Realizes (Unasked applicationId updated.id before n)
      ((overWindows faults refused cancelled applicationId).prepare updated replaceSecret)
      (fun faults => (overSecrets faults ((refused n).map WindowsCredentialStore.classify)).prepare updated replaceSecret)
      (fun r s t => Same applicationId updated.id before s t ∧
        ∀ prior secret, r = .ok (prior, some secret) → WellFormed secret) := by
  refine Realizes.bind (Q := fun _ => Unasked applicationId updated.id before n) ?_ ?_ fun _ _ _ h => ⟨h.toSame, nofun⟩
  · show Realizes _ (callRepository faults .list fun s => (.ok (Repository.listCredentials s.db), s))
      (fun faults => store faults .list listCredentials) _
    refine callRepository_realizes ?_
    intro s t h
    exact ⟨congrArg (fun db => Except.ok (Repository.listCredentials db)) h.db, h⟩
  intro credentials
  refine Realizes.bind (Q := fun _ => Unasked applicationId updated.id before n) ?_ ?_ fun _ _ _ h => ⟨h.toSame, nofun⟩
  · exact Realizes.lift _ fun _ _ h => h
  intro prior
  refine Realizes.bind (Q := fun r s t => Ready applicationId updated before n replaceSecret prior s t ∧
    ∀ secret, r = .ok (some secret) → WellFormed secret) ?_ ?_ fun _ _ _ h => ⟨h.1.1, nofun⟩
  · refine Realizes.provided ?_ ?_
    · intro hchanges
      refine ((read_realizes hfound).weaken fun _ _ h => h.toSame).mono ?_
      intro r s t ⟨hsame, hformed⟩
      refine ⟨⟨hsame, fun hkept hprior => ?_⟩, hformed⟩
      rcases hchanges with h | h
      · rw [hkept] at h
        cases h
      · exact absurd h hprior
    · intro _ s t h
      exact ⟨⟨h.toSame, fun _ _ => h.natives⟩, nofun⟩
  intro priorSecret
  refine Realizes.assume ?_
  intro hformed
  refine Realizes.bind (allow_realizes hfound priorSecret) ?_ fun _ _ _ h => ⟨h, nofun⟩
  intro _
  refine Realizes.lift (.ok (prior, priorSecret)) ?_
  intro s t h
  refine ⟨h, ?_⟩
  intro other secret hsecret
  obtain ⟨-, rfl⟩ := Prod.mk.inj (Except.ok.inj hsecret)
  exact hformed secret rfl

theorem mutate_realizes (hfound : NotFoundIsTrue refused) (secretChanges : Bool) (replacement : Option Str) :
    Realizes (Same applicationId updated.id before)
      ((overWindows faults refused cancelled applicationId).mutate updated secretChanges replaceSecret replacement)
      (fun faults => (overSecrets faults unreadable).mutate updated secretChanges replaceSecret (replacement.map replaceLone))
      (fun _ => Same applicationId updated.id before) := by
  have hsecret : (if replaceSecret then replacement.map replaceLone else none) =
      (if replaceSecret then replacement else none).map replaceLone := by
    cases replaceSecret <;> rfl
  refine Realizes.bind (Q := fun _ => Same applicationId updated.id before) ?_ ?_ fun _ _ _ h => h
  · refine Realizes.provided ?_ fun _ _ _ h => h
    intro _
    refine Realizes.bind (Q := fun _ => Same applicationId updated.id before) ?_ ?_ fun _ _ _ h => h
    · exact Realizes.modify fun _ _ h => { h with secretAttempted := rfl }
    · intro _
      rw [hsecret]
      exact setSecret_realizes hfound .secret _
  intro _
  refine Realizes.bind (Q := fun _ => Same applicationId updated.id before) ?_ ?_ fun _ _ _ h => h
  · exact Realizes.modify fun _ _ h => { h with metadataAttempted := rfl }
  · intro _
    exact onDatabase_realizes

/-- A restoring call throws alike. -/
theorem orRepair_realizes {m : Eff (World Stored Site) SaveExn Unit} {m' : (Nat → Fault Exn) → Eff (World State Site) SaveExn Unit}
    (h : Realizes R m m' (fun _ => R)) :
    Realizes R (SaveCalls.orRepair m) (fun faults => SaveCalls.orRepair (m' faults)) (fun _ => R) := by
  refine Realizes.tryCatch (Q := fun _ => R) ?_ ?_ fun _ _ _ h => h
  · refine Realizes.bind h ?_ fun _ _ _ h => h
    intro _
    exact Realizes.lift (.ok false) fun _ _ h => h
  · intro _
    exact Realizes.lift (.ok true) fun _ _ h => h

theorem compensate_realizes (hfound : NotFoundIsTrue refused) (prior : Option CredentialReference) (priorSecret : Option Str)
    (hformed : ∀ secret, priorSecret = some secret → WellFormed secret) :
    Realizes (Same applicationId id before) ((overWindows faults refused cancelled applicationId).compensate id prior priorSecret)
      (fun faults => (overSecrets faults unreadable).compensate id prior priorSecret)
      (fun _ => Same applicationId id before) := by
  have hsecret : priorSecret.map replaceLone = priorSecret := by
    cases priorSecret with
    | none => rfl
    | some secret => exact congrArg some (hformed secret rfl).replaceLone_eq
  refine Realizes.bind (Q := fun _ => Same applicationId id before) ?_ ?_ fun _ _ _ h => h
  · refine Realizes.read (Q := fun _ => Same applicationId id before) (f := fun s => (s.secretAttempted, s.metadataAttempted))
      (g := fun t => (t.secretAttempted, t.metadataAttempted)) ?_ fun _ _ h => h
    intro s t h
    exact Prod.ext h.secretAttempted h.metadataAttempted
  intro attempted
  refine Realizes.bind (Q := fun _ => Same applicationId id before) ?_ ?_ fun _ _ _ h => h
  · refine Realizes.provided ?_ fun _ _ _ h => h
    intro _
    have hset : Realizes (Same applicationId id before)
        ((overWindows faults refused cancelled applicationId).setSecret .restoreSecret id priorSecret)
        (fun faults => (overSecrets faults unreadable).setSecret .restoreSecret id (priorSecret.map replaceLone))
        (fun _ => Same applicationId id before) := setSecret_realizes hfound .restoreSecret priorSecret
    rw [hsecret] at hset
    exact orRepair_realizes hset
  intro secretFailed
  refine Realizes.bind (Q := fun _ => Same applicationId id before) ?_ ?_ fun _ _ _ h => h
  · refine Realizes.provided ?_ fun _ _ _ h => h
    intro _
    exact orRepair_realizes onDatabase_realizes
  intro metadataFailed
  exact Realizes.lift (.error _) fun _ _ h => h

theorem guarded_realizes (hfound : NotFoundIsTrue refused) (replacement : Option Str) :
    Realizes (Unasked applicationId updated.id before n)
      ((overWindows faults refused cancelled applicationId).guarded updated replaceSecret replacement)
      (fun faults => (overSecrets faults ((refused n).map WindowsCredentialStore.classify)).guarded updated replaceSecret
        (replacement.map replaceLone))
      (fun _ => Same applicationId updated.id before) := by
  refine Realizes.bind (prepare_realizes hfound) ?_ fun _ _ _ h => h.1
  rintro ⟨prior, priorSecret⟩
  refine Realizes.assume ?_
  intro hformed
  refine Realizes.bind (Q := fun _ => Same applicationId updated.id before) ?_ ?_ fun _ _ _ h => h
  · exact Realizes.modify fun _ _ h => { h with secretAttempted := rfl, metadataAttempted := rfl }
  intro _
  refine Realizes.tryCatch (mutate_realizes hfound _ replacement) ?_ fun _ _ _ h => h
  intro _
  refine compensate_realizes hfound prior priorSecret ?_
  intro secret hsecret
  exact hformed prior secret (by rw [hsecret])

/-- The save over Windows is the save over a table of secrets, of the text that Windows will hold, under
    some faults. -/
theorem saveAsync_realizes (hfound : NotFoundIsTrue refused) (replacement : Option Str) :
    Realizes (Unasked applicationId updated.id before n)
      ((overWindows faults refused cancelled applicationId).saveAsync updated replaceSecret replacement)
      (fun faults => saveAsync faults ((refused n).map WindowsCredentialStore.classify) updated replaceSecret
        (replacement.map replaceLone))
      (fun _ => Same applicationId updated.id before) := by
  have hchecked : (replaceSecret = true ∧ (replacement = none ∨ updated.authentication = .password ∧ replacement = some [])) ↔
      (replaceSecret = true ∧ (replacement.map replaceLone = none ∨
        updated.authentication = .password ∧ replacement.map replaceLone = some [])) := by
    rcases replacement with _ | text
    · simp
    · have hnil : replaceLone text = [] ↔ text = [] := by
        rw [← List.length_eq_zero_iff, length_replaceLone, List.length_eq_zero_iff]
      simp [hnil]
  simp only [← saveAsync_over_secrets]
  unfold SaveCalls.saveAsync throwIf
  simp only [← hchecked]
  refine Realizes.bind (Q := fun _ => Unasked applicationId updated.id before n) ?_ ?_ fun _ _ _ h => h.toSame
  · exact Realizes.lift _ fun _ _ h => h
  intro _
  refine Realizes.bind (Q := fun _ => Unasked applicationId updated.id before n) ?_ ?_ fun _ _ _ h => h.toSame
  · exact Realizes.lift _ fun _ _ h => h
  intro _
  refine Realizes.bind (Q := fun _ => Unasked applicationId updated.id before n) ?_ ?_ fun _ _ _ h => h.toSame
  · exact callRepository_realizes fun _ _ h => ⟨rfl, h⟩
  intro _
  refine Realizes.bind (Q := fun _ => Unasked applicationId updated.id before n) ?_ ?_ fun _ _ _ h => h.toSame
  · exact Realizes.modify fun _ _ h => { h with permits := congrArg (· - 1) h.permits }
  intro _
  exact Realizes.finalizes (guarded_realizes hfound replacement) fun _ _ _ h => { h with permits := congrArg (· + 1) h.permits }

/-- What is stored, as a table of secrets. -/
def Stored.table (applicationId : Str) (s : Stored) : State where
  db := s.db
  secrets := view applicationId s.store.entries
  permits := s.permits
  secretAttempted := s.secretAttempted
  metadataAttempted := s.metadataAttempted

/-- Entries that hold the same secrets and are alike elsewhere are the same. -/
theorem Same.entries_eq {s : Stored} {t : State} (h : Same applicationId id before s t) (hsound : Sound applicationId before)
    (hsecrets : t.secrets = view applicationId before) : s.store.entries = before := by
  funext name
  by_cases hname : name = targetName applicationId id
  · have hview : (s.store.entries name).map ofUnicodeBytes = (before name).map ofUnicodeBytes := by
      rw [hname]
      exact congrFun (h.secrets.symm.trans hsecrets) id
    rcases hs : s.store.entries name with _ | blob
    · rw [hs] at hview
      exact (Option.map_eq_none_iff.mp hview.symm).symm
    · rw [hs] at hview
      obtain ⟨other, hother, hsame⟩ := Option.map_eq_some_iff.mp hview.symm
      have hblob := (h.sound id blob (hname ▸ hs)).1
      have hbefore := (hsound id other (hname ▸ hother)).1
      rw [hother, ← hblob, ← hbefore, hsame]
  · exact h.others name hname

/-- A save over Windows, of the credentials of the application: it ends as one over a table of secrets does
    under some faults, in the same calls. -/
theorem save_over_table (hfound : NotFoundIsTrue refused) {s0 : Stored} (hsound : Sound applicationId s0.store.entries)
    (replacement : Option Str) :
    let p := (overWindows faults refused cancelled applicationId).saveAsync updated replaceSecret replacement ⟨s0, []⟩
    ∃ others v, saveAsync others ((refused s0.store.natives).map WindowsCredentialStore.classify) updated replaceSecret
        (replacement.map replaceLone) ⟨s0.table applicationId, []⟩ = (p.1, v) ∧
      Same applicationId updated.id s0.store.entries p.2.state v.state ∧ v.calls = p.2.calls := by
  have hstart : Unasked applicationId updated.id s0.store.entries s0.store.natives s0 (s0.table applicationId) :=
    { db := rfl, secrets := rfl, permits := rfl, secretAttempted := rfl, metadataAttempted := rfl, sound := hsound
      others := fun _ _ => rfl, natives := rfl }
  intro p
  obtain ⟨fs, v, hends⟩ : ∃ fs v, Ends _ _ _ p fs v :=
    saveAsync_realizes hfound replacement ⟨s0, []⟩ ⟨s0.table applicationId, []⟩ hstart rfl
  obtain ⟨others, hoccurs⟩ := exists_occurs fs
  exact ⟨others, v, hends.result others hoccurs, hends.states, hends.calls⟩

/-- A save over Windows, whatever calls are refused, throw or are cancelled. It returns: the row is the update,
    trimmed, and Windows holds the text of the replacement, nothing after a change of kind, or
    what it held. It throws its own exception: the repository and every entry of Windows are
    as before, or it asks for repair, exactly when a restoring call threw. It throws another:
    nothing was written. Entries of others are never touched. -/
theorem windows_save_atomic (faults : Nat → Fault Exn) (hfound : NotFoundIsTrue refused) (cancelled : Nat → Bool) (s0 : Stored)
    (updated : CredentialReference) (replaceSecret : Bool) (replacement : Option Str) (hstored : StoredCredentials s0.db)
    (hsound : Sound applicationId s0.store.entries) :
    let prior := s0.db.credentials.find updated.id
    let r := ((overWindows faults refused cancelled applicationId).saveAsync updated replaceSecret replacement ⟨s0, []⟩).1
    let w := ((overWindows faults refused cancelled applicationId).saveAsync updated replaceSecret replacement ⟨s0, []⟩).2
    (r = .ok () → w.state.db = s0.db.upsertCredential (trimmed updated) ∧
      view applicationId w.state.store.entries updated.id =
        (if replaceSecret then replacement.map replaceLone
        else if changesSecret updated replaceSecret prior then none
        else view applicationId s0.store.entries updated.id)) ∧
    (r = .error (.credentialSave false) → w.state.db = s0.db ∧ w.state.store.entries = s0.store.entries) ∧
    (r = .error (.credentialSave true) ↔ ∃ c ∈ w.calls, c.site.restores = true ∧ c.threw = true) ∧
    (∀ e, r = .error (.other e) → (∀ c ∈ w.calls, c.site.mutates = false) ∧ w.state.db = s0.db ∧
      w.state.store.entries = s0.store.entries) ∧
    Sound applicationId w.state.store.entries ∧
    ∀ name ≠ targetName applicationId updated.id, w.state.store.entries name = s0.store.entries name := by
  intro prior r w
  obtain ⟨others, v, hrun, hsame, hcalls⟩ : ∃ (others : Nat → Fault Exn) (v : World State Site),
      saveAsync others ((refused s0.store.natives).map WindowsCredentialStore.classify) updated replaceSecret
        (replacement.map replaceLone) ⟨s0.table applicationId, []⟩ = (r, v) ∧
      Same applicationId updated.id s0.store.entries w.state v.state ∧ v.calls = w.calls :=
    save_over_table hfound hsound replacement
  have h : Atomic (s0.table applicationId) updated replaceSecret (replacement.map replaceLone) r v := by
    have hspec : Atomic (s0.table applicationId) updated replaceSecret (replacement.map replaceLone)
        (saveAsync others ((refused s0.store.natives).map WindowsCredentialStore.classify) updated replaceSecret
          (replacement.map replaceLone) ⟨s0.table applicationId, []⟩).1 _ := saveAsync_spec hstored
    rwa [hrun] at hspec
  have hrepair : needsRepair w.calls = true ↔ ∃ c ∈ w.calls, c.site.restores = true ∧ c.threw = true := by
    simp [needsRepair]
  rw [← hrepair, ← hcalls]
  clear_value r w
  rcases r with (b | e) | ⟨⟩
  · obtain ⟨hrepairs, hrestored⟩ := h
    refine ⟨by simp, ?_, ?_, by simp, hsame.sound, hsame.others⟩
    · intro hr
      cases hr
      obtain ⟨hdb, hsecrets⟩ := hrestored rfl
      exact ⟨hsame.db.symm.trans hdb, hsame.entries_eq hsound hsecrets⟩
    · rw [hrepairs]
      simp
  · refine ⟨by simp, by simp, ?_, fun _ _ => ⟨h.calls, hsame.db.symm.trans h.db, hsame.entries_eq hsound h.secrets⟩,
      hsame.sound, hsame.others⟩
    rw [h.needsRepair]
    simp
  · obtain ⟨hrepairs, hdb, hsecrets⟩ := h
    refine ⟨fun _ => ⟨hsame.db.symm.trans hdb, ?_⟩, by simp, ?_, by simp, hsame.sound, hsame.others⟩
    · rw [← congrFun hsame.secrets updated.id, hsecrets]
      cases replaceSecret
      · show (if changesSecret updated false prior = true then _ else _ : Guid → Option Str) updated.id = _
        cases changesSecret updated false prior
        · rfl
        · exact Function.update_self _ _ _
      · exact Function.update_self _ _ _
    · rw [hrepairs]
      simp

end Save

end Calls

/-- The credential of `withRoot` and its secret, in Windows beside an entry of another program. -/
def rootInWindows : Stored where
  db := withRoot.db
  store :=
    { entries := fun name =>
        if name = targetName (str "MythLab") 3 then some (unicodeBytes (str "old"))
        else if name = str "git:https://github.com" then some [1, 2, 3]
        else none
      natives := 0
      unfreed := 0
      bytes := []
      blob := [] }
  permits := 1
  secretAttempted := false
  metadataAttempted := false

theorem sound_rootInWindows : Sound (str "MythLab") rootInWindows.store.entries := by
  intro id blob hblob
  unfold rootInWindows at hblob
  dsimp only at hblob
  split at hblob
  · cases hblob
    decide +kernel
  · split at hblob
    · rename_i hname
      -- no target name of the application is the other program's
      have hfirst := congrArg (List.take 1) hname
      cases hfirst
    · cases hblob

/-- The new metadata is stored, and the call throws all the same: Windows has the old secret again. -/
theorem failed_save_undone_in_windows :
    let p := (overWindows metadataThrows (fun _ => none) (fun _ => false) (str "MythLab")).saveAsync
      { root with username := str "admin" } true (some (str "new")) ⟨rootInWindows, []⟩
    p.2.calls.map Call.site = [.gate, .list, .read, .cancellation, .secret, .metadata, .restoreSecret, .restoreMetadata] ∧
      p.2.state.db = rootInWindows.db ∧ p.2.state.store.entries = rootInWindows.store.entries := by
  have hfound : NotFoundIsTrue fun _ => none := fun _ h => nomatch h
  exact ⟨by decide +kernel, (windows_save_atomic metadataThrows hfound (fun _ => false) rootInWindows
    { root with username := str "admin" } true (some (str "new")) withRoot_stored sound_rootInWindows).2.1 (by decide +kernel)⟩

end MythLab.Credentials.CredentialSaveService
