/-
  MythLab.Credentials.CredentialSaveService — saving a credential's metadata and its
  Windows secret, in two stores without a common transaction.

  The service reads both stores, then changes the secret, then the metadata. When either
  change throws it may still have taken effect, so the service puts back what it read,
  in both stores, each on its own (`compensate`). `State` holds both stores, the gate's
  permits and the two flags that say which changes were attempted.

  Proved (`save_atomic`), for any choice of calls that throw, with or without taking
  effect: a save that returns has made both changes and no other; one that throws
  `credentialSave false` has left both stores as they were; it asks for repair exactly
  when a restoring call threw; any other exception comes before the first write.
-/
import Mathlib.Logic.Function.Basic
import MythLab.Storage.Repository

namespace MythLab.Credentials.CredentialSaveService

open Lib Dotnet Storage Repository

/-- What a save throws: its own exception, or another that passes through. -/
inductive SaveExn where
  | credentialSave (repairRequired : Bool)
  | other (e : Exn)
  deriving DecidableEq, Repr

structure State where
  db : Database
  secrets : Guid → Option Str
  /-- Free places at the gate. -/
  permits : Nat
  secretAttempted : Bool
  metadataAttempted : Bool

inductive Site where
  | gate
  | list
  | read
  | inspect
  | cancellation
  | secret
  | metadata
  | restoreSecret
  | restoreMetadata
  deriving DecidableEq, Repr

/-- The call writes to or deletes from a store. -/
def Site.mutates : Site → Bool
  | .secret | .metadata | .restoreSecret | .restoreMetadata => true
  | _ => false

/-- The call puts a store back. -/
def Site.restores : Site → Bool
  | .restoreSecret | .restoreMetadata => true
  | _ => false

theorem Site.restores_of_not_mutates {site : Site} (h : site.mutates = false) : site.restores = false := by
  cases site <;> first | rfl | cases h

/-! ## The stores -/

abbrev Run (α : Type) := State → Except Exn α × State

def listCredentials : Run (List CredentialReference) := fun s => (.ok (Repository.listCredentials s.db), s)

def readSecret (id : Guid) : Run (Option Str) := fun s => (.ok (s.secrets id), s)

/-- The store may be unreadable; what it answers then is up to the environment. -/
def inspectSecret (unreadable : Option SecretStatus) (id : Guid) : Run SecretStatus := fun s =>
  (.ok (unreadable.getD (if (s.secrets id).isSome then .available else .missing)), s)

def setSecret (id : Guid) (value : Option Str) : Run Unit := fun s =>
  (.ok (), { s with secrets := Function.update s.secrets id value })

def onDatabase (step : Database → Except Exn Database) : Run Unit := fun s =>
  match step s.db with
  | .ok db => (.ok (), { s with db := db })
  | .error e => (.error e, s)

/-! ## The service -/

abbrev Op (α : Type) := Eff (World State Site) SaveExn α

section Service

variable (faults : Nat → Fault Exn) (unreadable : Option SecretStatus) {α : Type}

/-- A call to one of the stores; what it throws is not the service's own exception. -/
def store (site : Site) (run : Run α) : Op α :=
  call (fun n => (faults n).map .other) site fun s => ((run s).1.mapError .other, (run s).2)

def require (r : Except Exn α) : Op α := Eff.lift (r.mapError .other)

def modify (f : State → State) : Op Unit := Eff.modify fun w => { w with state := f w.state }

/-- `SingleOrDefault`. -/
def singleOrDefault (p : CredentialReference → Bool) (credentials : List CredentialReference) :
    Except Exn (Option CredentialReference) :=
  match credentials.filter p with
  | [] => pure none
  | [c] => pure (some c)
  | _ => throw (.invalidOperation "Sequence contains more than one matching element")

/-- Whether the stored password may be kept. -/
def passwordAvailable (updated : CredentialReference) (prior : Option CredentialReference) : Op Bool :=
  if prior.all fun p => p.authentication ≠ updated.authentication then pure false
  else do
    let status ← store faults .inspect (inspectSecret unreadable updated.id)
    pure (status = .available)

def changeSecret (id : Guid) (replaceSecret : Bool) (replacement : Option Str) : Op Unit := do
  modify fun s => { s with secretAttempted := true }
  store faults .secret (setSecret id (if replaceSecret then replacement else none))

def mutate (updated : CredentialReference) (secretChanges replaceSecret : Bool) (replacement : Option Str) :
    Op Unit := do
  Eff.provided secretChanges (changeSecret faults updated.id replaceSecret replacement) ()
  modify fun s => { s with metadataAttempted := true }
  store faults .metadata (onDatabase (saveCredential updated))

/-- `try { … } catch { repairRequired = true; }` -/
def orRepair (m : Op Unit) : Op Bool :=
  tryCatch (do m; pure false) fun _ => pure true

def restoreSecret (id : Guid) (priorSecret : Option Str) : Op Bool :=
  orRepair (store faults .restoreSecret (setSecret id priorSecret))

def restoreMetadata (id : Guid) (prior : Option CredentialReference) : Op Bool :=
  orRepair (store faults .restoreMetadata (onDatabase
    (match prior with
      | none => deleteCredential id
      | some p => saveCredential p)))

def compensate (id : Guid) (prior : Option CredentialReference) (priorSecret : Option Str) : Op Unit := do
  let w ← Eff.get
  let secretFailed ← Eff.provided w.state.secretAttempted (restoreSecret faults id priorSecret) false
  let metadataFailed ← Eff.provided w.state.metadataAttempted (restoreMetadata faults id prior) false
  throw (.credentialSave (secretFailed || metadataFailed))

def changesSecret (updated : CredentialReference) (replaceSecret : Bool) (prior : Option CredentialReference) : Bool :=
  replaceSecret || prior.any fun p => p.authentication ≠ updated.authentication

/-- The checks that need what was read. -/
def allow (updated : CredentialReference) (replaceSecret : Bool) (prior : Option CredentialReference)
    (priorSecret : Option Str) : Op Unit := do
  require (throwIf (prior = none ∧ priorSecret ≠ none)
    (.invalidOperation "A Windows secret already exists for this new credential identifier. Manual credential repair may be required."))
  let passwordKept ← Eff.provided (updated.authentication = .password ∧ ¬ replaceSecret)
    (passwordAvailable faults unreadable updated prior) true
  require (throwIf (¬ passwordKept) (.argument "Enter a password and enable Save / replace."))
  store faults .cancellation fun s => (.ok (), s)

/-- Everything before the first change: the stored metadata and, if it may have to be
    put back, the stored secret. -/
def prepare (updated : CredentialReference) (replaceSecret : Bool) :
    Op (Option CredentialReference × Option Str) := do
  let credentials ← store faults .list listCredentials
  let prior ← require (singleOrDefault (·.id = updated.id) credentials)
  let priorSecret ← Eff.provided (changesSecret updated replaceSecret prior = true ∨ prior = none)
    (store faults .read (readSecret updated.id)) none
  allow faults unreadable updated replaceSecret prior priorSecret
  pure (prior, priorSecret)

/-- What the gate guards. -/
def guarded (updated : CredentialReference) (replaceSecret : Bool) (replacement : Option Str) : Op Unit := do
  let (prior, priorSecret) ← prepare faults unreadable updated replaceSecret
  modify fun s => { s with secretAttempted := false, metadataAttempted := false }
  tryCatch (mutate faults updated (changesSecret updated replaceSecret prior) replaceSecret replacement)
    fun _ => compensate faults updated.id prior priorSecret

def saveAsync (updated : CredentialReference) (replaceSecret : Bool) (replacement : Option Str) : Op Unit := do
  require (throwIf (invalidCredential updated)
    (.argument "Enter a valid credential label, username and authentication configuration."))
  require (throwIf (replaceSecret ∧ (replacement = none ∨ updated.authentication = .password ∧ replacement = some []))
    (.argument "Enter the replacement password or key passphrase."))
  store faults .gate fun s => (.ok (), s)
  modify fun s => { s with permits := s.permits - 1 }
  tryFinally (guarded faults unreadable updated replaceSecret replacement)
    (modify fun s => { s with permits := s.permits + 1 })

end Service

/-! ## Rules -/

section Rules

variable {faults : Nat → Fault Exn} {α : Type} {w : World State Site}

/-- How a call to a store ends: it may have taken effect, has if it returns, and what it
    throws is not the service's own exception. -/
theorem wp_store {site : Site} {run : Run α} {Q : Except SaveExn α → World State Site → Prop}
    (h : ∀ r s', (s' = w.state ∨ s' = (run w.state).2) → (∀ a, r = .ok a → run w.state = (.ok a, s')) →
      (∀ e, r = .error e → ∃ x, e = .other x) → Q r ⟨s', w.calls ++ [⟨site, threw r⟩]⟩) :
    (store faults site run).wp Q w := by
  refine wp_call ?_ ?_
  · refine h _ _ (Or.inr rfl) ?_ ?_
    · intro a ha
      rcases hrun : run w.state with ⟨x | x, s'⟩
      · rw [hrun] at ha; cases ha
      · rw [hrun] at ha; cases ha; rfl
    · intro e he
      rcases hrun : run w.state with ⟨x | x, s'⟩
      · rw [hrun] at he; cases he; exact ⟨x, rfl⟩
      · rw [hrun] at he; cases he
  · intro tookEffect e hf
    refine h (.error e) _ ?_ (fun a ha => nomatch ha) ?_
    · cases tookEffect
      · exact Or.inl rfl
      · exact Or.inr rfl
    · intro e' he
      cases he
      rcases hn : faults w.calls.length with _ | ⟨t, x⟩
      · rw [hn] at hf; cases hf
      · rw [hn] at hf; cases hf; exact ⟨x, rfl⟩

theorem wp_modify_bind {f : State → State} {m : Op α} {Q : Except SaveExn α → World State Site → Prop}
    (h : m.wp Q ⟨f w.state, w.calls⟩) : Eff.wp (do modify f; m) Q w := by
  rw [Eff.wp_bind]
  exact h

/-- A restoring call: whether it threw, and the state it leaves if it did not. -/
theorem wp_orRepair {site : Site} {run : Run Unit} :
    (orRepair (store faults site run)).wp (fun r w' => ∃ b, r = .ok b ∧ w'.calls = w.calls ++ [⟨site, b⟩] ∧
      (w'.state = w.state ∨ w'.state = (run w.state).2) ∧ (b = false → run w.state = (.ok (), w'.state))) w := by
  unfold orRepair
  rw [Eff.wp_tryCatch, Eff.wp_bind]
  refine wp_store ?_
  intro r s' hs hok _
  rcases r with e | a
  · exact ⟨true, rfl, rfl, hs, fun h => nomatch h⟩
  · exact ⟨false, rfl, rfl, hs, fun _ => hok a rfl⟩

end Rules

/-! ## Before the first change -/

/-- Both stores are as in `s0`, and no call has written to them. -/
structure Untouched (s0 : State) (w : World State Site) : Prop where
  db : w.state.db = s0.db
  secrets : w.state.secrets = s0.secrets
  calls : ∀ c ∈ w.calls, c.site.mutates = false

theorem Untouched.snoc {s0 : State} {w : World State Site} (h : Untouched s0 w) {site : Site}
    (hsite : site.mutates = false) (threw : Bool) : Untouched s0 ⟨w.state, w.calls ++ [⟨site, threw⟩]⟩ := by
  refine ⟨h.db, h.secrets, ?_⟩
  intro c hc
  rcases List.mem_append.mp hc with hc | hc
  · exact h.calls c hc
  · rw [List.mem_singleton.mp hc]; exact hsite

theorem single_stored (db : Database) (id : Guid) :
    singleOrDefault (·.id = id) (Repository.listCredentials db) = .ok (db.credentials.find id) := by
  have hperm : (Repository.listCredentials db).Perm db.credentials.rows := List.perm_insertionSort _ _
  have hnodup : (((Repository.listCredentials db).filter (·.id = id)).map CredentialReference.id).Nodup :=
    (List.filter_sublist.map _).nodup ((hperm.map _).nodup_iff.mpr db.credentials.nodup)
  unfold singleOrDefault
  rcases hl : (Repository.listCredentials db).filter (·.id = id) with _ | ⟨c, _ | ⟨d, rest⟩⟩
  · have hnone : db.credentials.find id = none := by
      refine (Table.find_none_iff _ _).mpr ?_
      intro r hr hid
      have hmem : r ∈ (Repository.listCredentials db).filter (·.id = id) :=
        List.mem_filter.mpr ⟨hperm.mem_iff.mpr hr, by simpa using hid⟩
      simp [hl] at hmem
    rw [hnone, hl]; rfl
  · have hmem : c ∈ (Repository.listCredentials db).filter (·.id = id) := by rw [hl]; exact List.mem_singleton.mpr rfl
    obtain ⟨hc, hid⟩ := List.mem_filter.mp hmem
    rw [(Table.find_some_iff db.credentials id c).mpr ⟨hperm.mem_iff.mp hc, by simpa using hid⟩, hl]; rfl
  · have hid : ∀ x ∈ c :: d :: rest, x.id = id := by
      intro x hx
      rw [← hl] at hx
      simpa using (List.mem_filter.mp hx).2
    rw [hl] at hnodup
    simp [hid c (by simp), hid d (by simp)] at hnodup

/-- `m` writes to neither store; what it returns satisfies `P`, and what it throws is
    not the service's own exception. -/
def Reads {α : Type} (s0 : State) (P : α → Prop) (m : Op α) : Prop :=
  ∀ w, Untouched s0 w → m.wp (fun r w' => Untouched s0 w' ∧
    match r with
    | .ok a => P a
    | .error e => ∃ x, e = .other x) w

section Reads

variable {faults : Nat → Fault Exn} {s0 : State} {α β : Type} {P : α → Prop} {Q : β → Prop}

theorem Reads.pure {a : α} (h : P a) : Reads s0 P (pure a) := fun _ hw => ⟨hw, h⟩

theorem Reads.bind {m : Op α} {f : α → Op β} (hm : Reads s0 P m) (hf : ∀ a, P a → Reads s0 Q (f a)) :
    Reads s0 Q (m >>= f) := by
  intro w hw
  rw [Eff.wp_bind]
  refine Eff.wp_mono (hm w hw) ?_
  intro r w' ⟨hw', hr⟩
  rcases r with e | a
  · exact ⟨hw', hr⟩
  · exact hf a hr w' hw'

/-- Going on after a program that only reads. -/
theorem Reads.wp_bind {m : Op α} {f : α → Op β} {R : Except SaveExn β → World State Site → Prop} {w : World State Site}
    (hm : Reads s0 P m) (hw : Untouched s0 w) (hf : ∀ a w', P a → Untouched s0 w' → (f a).wp R w')
    (herr : ∀ e w', Untouched s0 w' → R (.error (.other e)) w') : (m >>= f).wp R w := by
  rw [Eff.wp_bind]
  refine Eff.wp_mono (hm w hw) ?_
  intro r w' ⟨hw', hr⟩
  rcases r with e | a
  · obtain ⟨x, rfl⟩ := hr
    exact herr x w' hw'
  · exact hf a w' hr hw'

theorem Reads.require {x : Except Exn α} (h : ∀ a, x = .ok a → P a) : Reads s0 P (require x) := by
  intro w hw
  rcases x with e | a
  · exact ⟨hw, e, rfl⟩
  · exact ⟨hw, h a rfl⟩

theorem Reads.provided {c : Prop} [Decidable c] {m : Op α} {a : α} (hm : c → Reads s0 P m) (ha : ¬ c → P a) :
    Reads s0 P (Eff.provided c m a) :=
  fun w hw => Eff.wp_provided (fun hc => hm hc w hw) fun hc => ⟨hw, ha hc⟩

theorem Reads.store {site : Site} {run : Run α} (hsite : site.mutates = false)
    (hrun : ∀ s, s.db = s0.db → s.secrets = s0.secrets → ∃ a, run s = (.ok a, s) ∧ P a) :
    Reads s0 P (store faults site run) := by
  intro w hw
  obtain ⟨a, ha, hP⟩ := hrun w.state hw.db hw.secrets
  refine wp_store ?_
  intro r s' hs hok herr
  obtain rfl : s' = w.state := by rw [ha] at hs; exact hs.elim id id
  refine ⟨hw.snoc hsite (threw r), ?_⟩
  rcases r with e | b
  · exact herr e rfl
  · have hb := hok b rfl
    rw [ha] at hb
    cases hb
    exact hP

end Reads

section Service

variable {faults : Nat → Fault Exn} {unreadable : Option SecretStatus} {s0 : State} {updated : CredentialReference}
  {replaceSecret : Bool}

theorem allow_reads {prior : Option CredentialReference} {priorSecret : Option Str} :
    Reads s0 (fun _ => True) (allow faults unreadable updated replaceSecret prior priorSecret) := by
  unfold allow passwordAvailable
  refine Reads.bind (P := fun _ => True) (.require fun _ _ => trivial) ?_
  intro _ _
  refine Reads.bind (P := fun _ => True) (.provided ?_ fun _ => trivial) ?_
  · intro _
    split
    · exact .pure trivial
    · exact Reads.bind (P := fun _ => True) (.store rfl fun s _ _ => ⟨_, rfl, trivial⟩) fun _ _ => .pure trivial
  · intro _ _
    exact Reads.bind (P := fun _ => True) (.require fun _ _ => trivial)
      fun _ _ => .store rfl fun s _ _ => ⟨_, rfl, trivial⟩

/-- Before the first change both stores have been read. -/
theorem prepare_reads : Reads s0 (fun p : Option CredentialReference × Option Str =>
      p.1 = s0.db.credentials.find updated.id ∧
        (changesSecret updated replaceSecret p.1 = true → p.2 = s0.secrets updated.id))
    (prepare faults unreadable updated replaceSecret) := by
  unfold prepare
  refine Reads.bind (P := fun l => l = Repository.listCredentials s0.db)
    (.store rfl fun s hdb _ => ⟨_, rfl, by rw [hdb]⟩) ?_
  intro credentials hl
  refine Reads.bind (P := fun prior => prior = s0.db.credentials.find updated.id)
    (.require ?_) ?_
  · intro prior hprior
    rw [hl, single_stored] at hprior
    exact (Except.ok.inj hprior).symm
  · intro prior hprior
    refine Reads.bind (P := fun p => changesSecret updated replaceSecret prior = true → p = s0.secrets updated.id)
      (.provided (fun _ => .store rfl fun s _ hs => ⟨_, rfl, fun _ => by rw [hs]⟩) fun hno hc => absurd (Or.inl hc) hno)
      ?_
    intro priorSecret hsecret
    exact Reads.bind allow_reads fun _ _ => .pure ⟨hprior, hsecret⟩

end Service

/-! ## The changes -/

/-- A restoring call has thrown. -/
def needsRepair (calls : List (Lib.Call Site)) : Bool := calls.any fun c => c.site.restores && c.threw

@[simp] theorem needsRepair_snoc (calls : List (Lib.Call Site)) (site : Site) (threw : Bool) :
    needsRepair (calls ++ [⟨site, threw⟩]) = (needsRepair calls || (site.restores && threw)) := by
  simp [needsRepair]

theorem Untouched.needsRepair {s0 : State} {w : World State Site} (h : Untouched s0 w) :
    needsRepair w.calls = false := by
  refine List.any_eq_false.mpr ?_
  intro c hc
  rw [Site.restores_of_not_mutates (h.calls c hc)]
  simp

/-- How far the changes may have come: a store is as it was, or its change was attempted
    and is the only one made to it. -/
structure Attempted (s0 : State) (updated : CredentialReference) (secretChanges : Bool) (w : World State Site) :
    Prop where
  secrets : w.state.secrets = s0.secrets ∨ (w.state.secretAttempted = true ∧
    ∃ v, w.state.secrets = Function.update s0.secrets updated.id v)
  changes : w.state.secretAttempted = true → secretChanges = true
  db : w.state.db = s0.db ∨
    (w.state.metadataAttempted = true ∧ w.state.db = s0.db.upsertCredential (trimmed updated))
  calls : needsRepair w.calls = false

/-- The stores after both changes. -/
def Saved (s0 : State) (updated : CredentialReference) (replaceSecret secretChanges : Bool) (replacement : Option Str)
    (s : State) : Prop :=
  s.db = s0.db.upsertCredential (trimmed updated) ∧
    s.secrets =
      if secretChanges then Function.update s0.secrets updated.id (if replaceSecret then replacement else none)
      else s0.secrets

section Changes

variable {faults : Nat → Fault Exn} {s0 : State} {updated : CredentialReference} {w : World State Site}
  {replaceSecret secretChanges : Bool} {replacement : Option Str}

/-- Storing metadata stores it trimmed, or throws and changes nothing. -/
theorem onDatabase_saveCredential (updated : CredentialReference) (s : State) :
    (onDatabase (saveCredential updated) s).2 = s ∧ (∃ e, (onDatabase (saveCredential updated) s).1 = .error e) ∨
      onDatabase (saveCredential updated) s = (.ok (), { s with db := s.db.upsertCredential (trimmed updated) }) := by
  unfold onDatabase
  rcases h : saveCredential updated s.db with e | db
  · exact Or.inl ⟨rfl, e, rfl⟩
  · obtain ⟨-, rfl⟩ := saveCredential_ok h
    exact Or.inr rfl

theorem metadata_spec (hw : Attempted s0 updated secretChanges w) (hdb : w.state.db = s0.db) :
    Eff.wp (do
        modify fun s => { s with metadataAttempted := true }
        store faults .metadata (onDatabase (saveCredential updated)))
      (fun r w' => Attempted s0 updated secretChanges w' ∧ (r = .ok () →
        w'.state.db = s0.db.upsertCredential (trimmed updated) ∧ w'.state.secrets = w.state.secrets)) w := by
  refine wp_modify_bind (wp_store ?_)
  intro r s' hs hok _
  have hcalls : needsRepair (w.calls ++ [⟨.metadata, threw r⟩]) = false := by rw [needsRepair_snoc, hw.calls]; rfl
  rcases onDatabase_saveCredential updated { w.state with metadataAttempted := true }
    with ⟨hsame, e, he⟩ | hdone
  · obtain rfl : s' = { w.state with metadataAttempted := true } := by rw [hsame] at hs; exact hs.elim id id
    refine ⟨⟨hw.secrets, hw.changes, Or.inl hdb, hcalls⟩, ?_⟩
    intro hr
    simp [hok () hr] at he
  · rw [hdone] at hs hok
    refine ⟨?_, ?_⟩
    · rcases hs with rfl | rfl
      · exact ⟨hw.secrets, hw.changes, Or.inl hdb, hcalls⟩
      · exact ⟨hw.secrets, hw.changes, Or.inr ⟨rfl, by rw [← hdb]⟩, hcalls⟩
    · intro hr
      cases hok () hr
      exact ⟨by rw [← hdb], rfl⟩

theorem mutate_spec (hw : Untouched s0 w) (hsecret : w.state.secretAttempted = false) :
    (mutate faults updated secretChanges replaceSecret replacement).wp
      (fun r w' => Attempted s0 updated secretChanges w' ∧
        (r = .ok () → Saved s0 updated replaceSecret secretChanges replacement w'.state)) w := by
  unfold mutate
  rw [Eff.wp_bind]
  refine Eff.wp_provided ?_ ?_
  · intro hc
    unfold changeSecret
    refine wp_modify_bind (wp_store ?_)
    intro r s' hs hok _
    have hcalls : needsRepair (w.calls ++ [⟨.secret, threw r⟩]) = false := by
      rw [needsRepair_snoc, hw.needsRepair]; rfl
    have hattempted : Attempted s0 updated secretChanges ⟨s', w.calls ++ [⟨.secret, threw r⟩]⟩ := by
      refine ⟨?_, fun _ => hc, Or.inl ?_, hcalls⟩
      · rcases hs with rfl | rfl
        · exact Or.inl hw.secrets
        · exact Or.inr ⟨rfl, _, by rw [← hw.secrets]; rfl⟩
      · rcases hs with rfl | rfl <;> exact hw.db
    rcases r with e | a
    · exact ⟨hattempted, fun h => nomatch h⟩
    · cases hok a rfl
      refine Eff.wp_mono (metadata_spec hattempted hw.db) fun r w' ⟨hw', hr⟩ => ⟨hw', ?_⟩
      intro h
      obtain ⟨hdb, hsecrets⟩ := hr h
      refine ⟨hdb, hsecrets.trans ?_⟩
      rw [if_pos hc, ← hw.secrets]
  · intro hc
    have hattempted : Attempted s0 updated secretChanges w :=
      ⟨Or.inl hw.secrets, fun h => (by rw [hsecret] at h; cases h), Or.inl hw.db, hw.needsRepair⟩
    refine Eff.wp_mono (metadata_spec hattempted hw.db) fun r w' ⟨hw', hr⟩ => ⟨hw', ?_⟩
    intro h
    obtain ⟨hdb, hsecrets⟩ := hr h
    exact ⟨hdb, by rw [hsecrets, if_neg hc, hw.secrets]⟩

/-- Putting the metadata back, over the change or over nothing, leaves the database as it
    was. -/
theorem restored_db {db db' : Database} (hstored : StoredCredentials s0.db)
    (hdb : db = s0.db ∨ db = s0.db.upsertCredential (trimmed updated))
    (h : (match s0.db.credentials.find updated.id with
      | none => deleteCredential updated.id
      | some p => saveCredential p) db = .ok db') : db' = s0.db := by
  rcases hfind : s0.db.credentials.find updated.id with _ | p
  · rw [hfind] at h
    rcases Database.deleteCredential_ok (constraintAsInUse_ok h) with ⟨hnone, rfl⟩ | ⟨-, rfl⟩
    · rcases hdb with rfl | rfl
      · rfl
      · have hsome : (s0.db.credentials.upsert (trimmed updated)).find updated.id = some (trimmed updated) :=
          Table.find_upsert_self _ (trimmed updated)
        exact absurd (hsome.symm.trans hnone) (by simp)
    · rcases hdb with rfl | rfl
      · show ({ s0.db with credentials := s0.db.credentials.delete updated.id } : Database) = s0.db
        rw [Table.delete_absent hfind]
      · have hundo : (s0.db.credentials.upsert (trimmed updated)).delete updated.id = s0.db.credentials :=
          Table.delete_upsert (r := trimmed updated) hfind
        show ({ s0.db with
          credentials := (s0.db.credentials.upsert (trimmed updated)).delete updated.id } : Database) = s0.db
        rw [hundo]
  · rw [hfind] at h
    obtain ⟨hp, hid⟩ := (Table.find_some_iff _ _ _).mp hfind
    obtain ⟨-, rfl⟩ := saveCredential_ok h
    rw [(hstored p hp).2]
    rw [← hid] at hfind
    rcases hdb with rfl | rfl
    · show ({ s0.db with credentials := s0.db.credentials.upsert p } : Database) = s0.db
      rw [Table.upsert_same hfind]
    · have hundo : (s0.db.credentials.upsert (trimmed updated)).upsert p = s0.db.credentials :=
        Table.upsert_restore hfind hid.symm
      show ({ s0.db with credentials := (s0.db.credentials.upsert (trimmed updated)).upsert p } : Database) = s0.db
      rw [hundo]

theorem restoreSecret_spec {priorSecret : Option Str} (hw : Attempted s0 updated secretChanges w)
    (hsecret : secretChanges = true → priorSecret = s0.secrets updated.id) :
    (Eff.provided w.state.secretAttempted (restoreSecret faults updated.id priorSecret) false).wp
      (fun r w' => ∃ b, r = .ok b ∧ needsRepair w'.calls = b ∧ w'.state.db = w.state.db ∧
        (b = false → w'.state.secrets = s0.secrets)) w := by
  refine Eff.wp_provided ?_ ?_
  · intro hattempted
    refine Eff.wp_mono wp_orRepair fun r w' ⟨b, hr, hcalls, hs, hb⟩ => ⟨b, hr, ?_, ?_, ?_⟩
    · rw [hcalls, needsRepair_snoc, hw.calls]; rfl
    · rcases hs with hs | hs
      · rw [hs]
      · rw [hs]; rfl
    · intro h
      -- the store holds the prior secrets, or those with another value for this id
      have hstate := congrArg (fun p => State.secrets p.2) (hb h)
      rw [← hstate]
      show Function.update w.state.secrets updated.id priorSecret = s0.secrets
      rw [hsecret (hw.changes hattempted)]
      rcases hw.secrets with hsame | ⟨-, v, hv⟩
      · rw [hsame, Function.update_eq_self]
      · rw [hv, Function.update_idem, Function.update_eq_self]
  · intro hno
    rcases hw.secrets with hsame | ⟨hattempted, -⟩
    · exact ⟨false, rfl, hw.calls, rfl, fun _ => hsame⟩
    · exact absurd hattempted hno

theorem restoreMetadata_spec {attempted : Bool} (hstored : StoredCredentials s0.db)
    (hdb : w.state.db = s0.db ∨ (attempted = true ∧ w.state.db = s0.db.upsertCredential (trimmed updated))) :
    (Eff.provided attempted (restoreMetadata faults updated.id (s0.db.credentials.find updated.id)) false).wp
      (fun r w' => ∃ b, r = .ok b ∧ needsRepair w'.calls = (needsRepair w.calls || b) ∧
        w'.state.secrets = w.state.secrets ∧ (b = false → w'.state.db = s0.db)) w := by
  have honDatabase (step : Database → Except Exn Database) : (onDatabase step w.state).2.secrets = w.state.secrets := by
    unfold onDatabase
    split <;> rfl
  refine Eff.wp_provided ?_ ?_
  · intro _
    refine Eff.wp_mono wp_orRepair fun r w' ⟨b, hr, hcalls, hs, hb⟩ => ⟨b, hr, ?_, ?_, ?_⟩
    · rw [hcalls, needsRepair_snoc]; rfl
    · rcases hs with hs | hs
      · rw [hs]
      · rw [hs]; exact honDatabase _
    · intro h
      have hstep := hb h
      unfold onDatabase at hstep
      split at hstep
      · rename_i db hdb'
        rw [← congrArg (fun p => State.db p.2) hstep]
        exact restored_db hstored (hdb.imp_right And.right) hdb'
      · cases hstep
  · intro hno
    rcases hdb with hsame | ⟨hattempted, -⟩
    · exact ⟨false, rfl, by simp, rfl, fun _ => hsame⟩
    · exact absurd hattempted hno

/-- Compensation throws; it asks for repair if one of its calls threw, and otherwise has
    put both stores back. -/
theorem compensate_spec {priorSecret : Option Str} (hstored : StoredCredentials s0.db)
    (hw : Attempted s0 updated secretChanges w) (hsecret : secretChanges = true → priorSecret = s0.secrets updated.id) :
    (compensate faults updated.id (s0.db.credentials.find updated.id) priorSecret).wp
      (fun r w' => ∃ b, r = .error (.credentialSave b) ∧ needsRepair w'.calls = b ∧
        (b = false → w'.state.db = s0.db ∧ w'.state.secrets = s0.secrets)) w := by
  unfold compensate
  rw [Eff.wp_bind, Eff.wp_get]
  dsimp only
  rw [Eff.wp_bind]
  refine Eff.wp_mono (restoreSecret_spec hw hsecret) ?_
  intro r w1 ⟨b1, hr1, hcalls1, hdb1, hsecrets1⟩
  subst hr1
  dsimp only
  rw [Eff.wp_bind]
  refine Eff.wp_mono (restoreMetadata_spec hstored (by rw [hdb1]; exact hw.db))
    ?_
  intro r w2 ⟨b2, hr2, hcalls2, hsecrets2, hdb2⟩
  subst hr2
  refine ⟨b1 || b2, rfl, ?_, fun h => ?_⟩
  · show needsRepair w2.calls = _
    rw [hcalls2, hcalls1]
  rw [Bool.or_eq_false_iff] at h
  exact ⟨hdb2 h.2, hsecrets2.trans (hsecrets1 h.1)⟩

end Changes

/-! ## The whole save -/

/-- How a save ends. -/
def Atomic (s0 : State) (updated : CredentialReference) (replaceSecret : Bool) (replacement : Option Str)
    (r : Except SaveExn Unit) (w : World State Site) : Prop :=
  match r with
  | .ok () => needsRepair w.calls = false ∧ Saved s0 updated replaceSecret
      (changesSecret updated replaceSecret (s0.db.credentials.find updated.id)) replacement w.state
  | .error (.credentialSave repairRequired) => needsRepair w.calls = repairRequired ∧
      (repairRequired = false → w.state.db = s0.db ∧ w.state.secrets = s0.secrets)
  | .error (.other _) => Untouched s0 w

section Save

variable {faults : Nat → Fault Exn} {unreadable : Option SecretStatus} {s0 : State} {updated : CredentialReference}
  {w : World State Site} {replaceSecret : Bool} {replacement : Option Str}

theorem guarded_spec (hstored : StoredCredentials s0.db) (hw : Untouched s0 w) :
    (guarded faults unreadable updated replaceSecret replacement).wp
      (Atomic s0 updated replaceSecret replacement) w := by
  refine prepare_reads.wp_bind hw ?_ fun _ _ hw => hw
  intro p w hp hw
  obtain ⟨prior, priorSecret⟩ := p
  obtain ⟨rfl, hsecret⟩ : prior = s0.db.credentials.find updated.id ∧ _ := hp
  refine wp_modify_bind ?_
  have hw' : Untouched s0 ⟨{ w.state with secretAttempted := false, metadataAttempted := false }, w.calls⟩ :=
    ⟨hw.db, hw.secrets, hw.calls⟩
  rw [Eff.wp_tryCatch]
  refine Eff.wp_mono (mutate_spec hw' rfl) ?_
  intro r w1 ⟨hattempted, hsaved⟩
  rcases r with e | ⟨⟩
  · refine Eff.wp_mono (compensate_spec hstored hattempted hsecret) ?_
    intro r w2 ⟨b, hr, hcalls, hb⟩
    subst hr
    exact ⟨hcalls, hb⟩
  · exact ⟨hattempted.calls, hsaved rfl⟩

/-- Giving the permit back changes neither store. -/
theorem Atomic.release {r : Except SaveExn Unit} (n : Nat) (h : Atomic s0 updated replaceSecret replacement r w) :
    Atomic s0 updated replaceSecret replacement r ⟨{ w.state with permits := n }, w.calls⟩ := by
  rcases r with (b | e) | ⟨⟩
  · exact h
  · exact ⟨h.db, h.secrets, h.calls⟩
  · exact h

theorem saveAsync_spec (hstored : StoredCredentials s0.db) :
    (saveAsync faults unreadable updated replaceSecret replacement).wp
      (Atomic s0 updated replaceSecret replacement) ⟨s0, []⟩ := by
  have hw : Untouched s0 ⟨s0, []⟩ := ⟨rfl, rfl, fun _ h => nomatch h⟩
  unfold saveAsync
  refine Reads.wp_bind (P := fun _ => True) (.require fun _ _ => trivial) hw ?_ fun _ _ hw => hw
  intro _ w _ hw
  refine Reads.wp_bind (P := fun _ => True) (.require fun _ _ => trivial) hw ?_ fun _ _ hw => hw
  intro _ w _ hw
  refine Reads.wp_bind (P := fun _ => True) (.store rfl fun s _ _ => ⟨_, rfl, trivial⟩) hw ?_
    fun _ _ hw => hw
  intro _ w _ hw
  have hentered : Untouched s0 ⟨{ w.state with permits := w.state.permits - 1 }, w.calls⟩ :=
    ⟨hw.db, hw.secrets, hw.calls⟩
  refine wp_modify_bind ?_
  rw [Eff.wp_finally]
  exact Eff.wp_mono (guarded_spec hstored hentered) fun r w' hr => hr.release _

/-- A save is atomic up to a failed repair. It returns: the row is the update, trimmed,
    and the secret the replacement, absent after a change of kind, or kept. It throws its
    own exception: both stores are as before, or it asks for repair, which it does exactly
    when a restoring call threw. It throws another: nothing was written. -/
theorem save_atomic (faults : Nat → Fault Exn) (unreadable : Option SecretStatus) (s0 : State)
    (updated : CredentialReference) (replaceSecret : Bool) (replacement : Option Str)
    (hstored : StoredCredentials s0.db) :
    let prior := s0.db.credentials.find updated.id
    let r := (saveAsync faults unreadable updated replaceSecret replacement ⟨s0, []⟩).1
    let w := (saveAsync faults unreadable updated replaceSecret replacement ⟨s0, []⟩).2
    (r = .ok () → w.state.db = s0.db.upsertCredential (trimmed updated) ∧
      w.state.db.credentials.find updated.id = some (trimmed updated) ∧
      w.state.secrets updated.id =
        (if replaceSecret then replacement
        else if prior.any fun p => p.authentication ≠ updated.authentication then none
        else s0.secrets updated.id) ∧
      ∀ id ≠ updated.id, w.state.secrets id = s0.secrets id) ∧
    (r = .error (.credentialSave false) → w.state.db = s0.db ∧ w.state.secrets = s0.secrets) ∧
    (r = .error (.credentialSave true) ↔ ∃ c ∈ w.calls, c.site.restores = true ∧ c.threw = true) ∧
    (∀ e, r = .error (.other e) → (∀ c ∈ w.calls, c.site.mutates = false) ∧ w.state.db = s0.db ∧
      w.state.secrets = s0.secrets) := by
  intro prior r w
  have h : Atomic s0 updated replaceSecret replacement r w := saveAsync_spec hstored
  have hrepair : needsRepair w.calls = true ↔ ∃ c ∈ w.calls, c.site.restores = true ∧ c.threw = true := by
    simp [needsRepair]
  rw [← hrepair]
  clear_value r w
  rcases r with (b | e) | ⟨⟩
  · obtain ⟨hcalls, hb⟩ := h
    refine ⟨fun hr => (nomatch hr), ?_, ?_, fun e hr => (nomatch hr)⟩
    · intro hr
      cases hr; exact hb rfl
    · rw [hcalls]; simp
  · refine ⟨fun hr => (nomatch hr), fun hr => (nomatch hr), ?_, fun _ _ => ⟨h.calls, h.db, h.secrets⟩⟩
    rw [h.needsRepair]
    simp
  · obtain ⟨hcalls, hdb, hsecrets⟩ := h
    refine ⟨fun _ => ⟨hdb, ?_, ?_, ?_⟩, fun hr => (nomatch hr), ?_, fun e hr => (nomatch hr)⟩
    · rw [hdb]
      exact Table.find_upsert_self _ (trimmed updated)
    · rw [hsecrets]
      cases replaceSecret
      · have hkind : changesSecret updated false prior =
            prior.any fun p => p.authentication ≠ updated.authentication := rfl
        rw [← hkind]
        cases changesSecret updated false prior
        · rfl
        · exact Function.update_self _ _ _
      · exact Function.update_self _ _ _
    · intro id hid
      rw [hsecrets]
      split
      · exact Function.update_of_ne hid _ _
      · rfl
    · rw [hcalls]
      simp

end Save

def root : CredentialReference := { id := 3, displayLabel := str "NAS root", username := str "root" }

def withRoot : State :=
  { db := { Database.empty with credentials := ⟨[root], by decide⟩ }
    secrets := fun id => if id = 3 then some (str "old") else none
    permits := 1
    secretAttempted := false
    metadataAttempted := false }

/-- A credential as the repository stores it. -/
theorem withRoot_stored : StoredCredentials withRoot.db := by
  have hreach : (repository .ascii).Reach ⟨true, withRoot.db⟩ :=
    Machine.reach_step ⟨.saveCredential root, fun _ => .none⟩ ⟨[], .init rfl⟩ rfl
  exact reach_storedCredentials hreach

/-- The new metadata is stored, and the call throws all the same. -/
def metadataThrows : Nat → Fault Exn
  | 5 => .throws true (.sqlite 10 "disk I/O error")
  | _ => .none

theorem failed_save_is_undone :
    let w :=
      (saveAsync metadataThrows none { root with username := str "admin" } true (some (str "new")) ⟨withRoot, []⟩).2
    w.calls.map Call.site = [.gate, .list, .read, .cancellation, .secret, .metadata, .restoreSecret, .restoreMetadata] ∧
      w.state.db = withRoot.db ∧ w.state.secrets = withRoot.secrets := by
  exact ⟨by decide, (save_atomic metadataThrows none withRoot { root with username := str "admin" } true
    (some (str "new")) withRoot_stored).2.1 rfl⟩

end MythLab.Credentials.CredentialSaveService
