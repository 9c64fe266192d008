/-
  MythLab.Credentials.WindowsCredentialStore — a secret for each identifier, kept by Windows.

  Windows keeps a blob of bytes under each target name, other programs' among them
  (`entries`). It may refuse any native call with an error code (`refused`, by the number of
  the call); that a credential was not found it says of one that is not there
  (`NotFoundIsTrue`). Each call of the store makes at most one native call, so calls made at
  the same time are those of a session, in the order of their native calls.

  (1) The secrets (`store_keeps_secrets`). Over any session the store is a table of secrets
  by identifier, changed by the writes and deletes that return, and by no other call
  (`kept`): a read answers what it holds, an inspection never the contrary. No entry under
  another target name changes, what was allocated is freed, and the copies of a secret made
  for Windows are zero.

  (2) The secret itself (`secret_survives_iff`). What was written is read back as it was
  exactly when it is well-formed UTF-16 and fits the limit of 2560 bytes.
-/
import Mathlib.Logic.Function.Basic
import MythLab.Dotnet.Unicode
import MythLab.Lib.Effect

namespace MythLab.Credentials.WindowsCredentialStore

open Lib Dotnet

abbrev Entries := Str → Option (List UInt8)

structure State where
  /-- The generic credentials of the Windows user: a blob under each target name. -/
  entries : Entries
  /-- Native calls made. -/
  natives : Nat
  /-- Native blocks not yet freed. -/
  unfreed : Nat
  /-- The array that `GetBytes` made last. -/
  bytes : List UInt8
  /-- The native block that a write allocated last. -/
  blob : List UInt8

abbrev Op (α : Type) := Eff State Exn α

/-! ## Windows -/

def errorNotFound : Nat := 1168

section Windows

-- the error code that the environment refuses each native call with, if it does
variable (refused : Nat → Option Nat) {α : Type}

/-- A native call: what it answers, and the entries it leaves. -/
def native (run : Entries → Except Nat α × Entries) : Op (Except Nat α) := fun s =>
  match refused s.natives with
  | some code => (.ok (.error code), { s with natives := s.natives + 1 })
  | none => (.ok (run s.entries).1, { s with entries := (run s.entries).2, natives := s.natives + 1 })

def credRead (name : Str) : Op (Except Nat (List UInt8)) := do
  let answer ← native refused fun entries => ((entries name).elim (.error errorNotFound) .ok, entries)
  Eff.modify fun s => { s with unfreed := s.unfreed + if threw answer then 0 else 1 }
  pure answer

def credFree : Op Unit := Eff.modify fun s => { s with unfreed := s.unfreed - 1 }

/-- Windows reads the block that the credential points to. -/
def credWrite (name : Str) : Op (Except Nat Unit) := do
  let s ← Eff.get
  native refused fun entries => (.ok (), Function.update entries name (some s.blob))

def credDelete (name : Str) : Op (Except Nat Unit) :=
  native refused fun entries =>
    if (entries name).isSome then (.ok (), Function.update entries name none) else (.error errorNotFound, entries)

end Windows

/-! ## The store -/

def classify : Nat → SecretStatus
  | 1168 => .missing
  | 5 => .accessDenied
  | _ => .storeError

/-- The target name of an identifier. -/
def targetName (applicationId : Str) (id : Guid) : Str := applicationId ++ str "/credentials/" ++ id.format

def target (applicationId : Str) (id : Guid) : Except Exn Str := do
  throwIf (id = Guid.empty) (.argument "Credential ID is required.")
  pure (targetName applicationId id)

/-- The text of a credential's blob. -/
def blobText (blob : List UInt8) : Except Exn Str := do
  throwIf (2560 < blob.length ∨ blob.length % 2 ≠ 0) (.credentialStore .storeError)
  pure (ofUnicodeBytes blob)

section Store

variable (refused : Nat → Option Nat) (applicationId : Str)

def throwIfCancelled (cancelled : Bool) : Op Unit := Eff.lift (throwIf (cancelled = true) .operationCanceled)

def inspectAsync (cancelled : Bool) (id : Guid) : Op SecretStatus := do
  throwIfCancelled cancelled
  let name ← Eff.lift (target applicationId id)
  match ← credRead refused name with
  | .error code => pure (classify code)
  | .ok _ =>
    credFree
    pure .available

def readAsync (cancelled : Bool) (id : Guid) : Op (Option Str) := do
  throwIfCancelled cancelled
  let name ← Eff.lift (target applicationId id)
  match ← credRead refused name with
  | .error code => if classify code = .missing then pure none else throw (.credentialStore (classify code))
  | .ok blob => do
    let text ← tryFinally (Eff.lift (blobText blob)) credFree
    pure (some text)

def clearBytes (s : State) : State := { s with bytes := s.bytes.map fun _ => 0 }

/-- `for (var i = 0; i < bytes.Length; i++) Marshal.WriteByte(blob, i, 0);` -/
def clearBlob (s : State) : State := { s with blob := s.blob.mapIdx fun i b => if i < s.bytes.length then 0 else b }

def writeBlob (id : Guid) : Op Unit := do
  Eff.modify fun s => { s with blob := s.bytes }
  let name ← Eff.lift (target applicationId id)
  match ← credWrite refused name with
  | .ok () => pure ()
  | .error code => throw (.credentialStore (classify code))

def writeAsync (cancelled : Bool) (id : Guid) (secret : Str) : Op Unit := do
  throwIfCancelled cancelled
  Eff.modify fun s => { s with bytes := unicodeBytes secret }
  if 2560 < (unicodeBytes secret).length then do
    Eff.modify clearBytes
    throw (.argument "The secret exceeds Windows Credential Manager's size limit.")
  else do
    Eff.modify fun s => { s with unfreed := s.unfreed + 1 }
    tryFinally (writeBlob refused applicationId id) (Eff.modify fun s => { clearBlob (clearBytes s) with unfreed := s.unfreed - 1 })

def deleteAsync (cancelled : Bool) (id : Guid) : Op Unit := do
  throwIfCancelled cancelled
  let name ← Eff.lift (target applicationId id)
  match ← credDelete refused name with
  | .ok () => pure ()
  | .error code => if classify code ≠ .missing then throw (.credentialStore (classify code)) else pure ()

inductive Call where
  | inspect (id : Guid)
  | read (id : Guid)
  | write (id : Guid) (secret : Str)
  | delete (id : Guid)
  deriving DecidableEq, Repr

inductive Answer where
  | status (status : SecretStatus)
  | secret (secret : Option Str)
  | done
  deriving DecidableEq, Repr

/-- The call, its token cancelled or not. -/
def perform (cancelled : Bool) : Call → Op Answer
  | .inspect id => do pure (.status (← inspectAsync refused applicationId cancelled id))
  | .read id => do pure (.secret (← readAsync refused applicationId cancelled id))
  | .write id secret => do
    writeAsync refused applicationId cancelled id secret
    pure .done
  | .delete id => do
    deleteAsync refused applicationId cancelled id
    pure .done

/-- Calls one after another: what each ended with, and the state after the last. -/
def session : List (Call × Bool) → State → List (Call × Except Exn Answer) × State
  | [], s => ([], s)
  | (c, cancelled) :: calls, s =>
    let p := perform refused applicationId cancelled c s
    let rest := session calls p.2
    ((c, p.1) :: rest.1, rest.2)

end Store

/-! ## The secrets -/

/-- The secret of an identifier after a call: a write or a delete of it that returned changes it. -/
def kept (id : Guid) : Option Str → Call × Except Exn Answer → Option Str
  | secret, (.write other text, .ok _) => if other = id then some (replaceLone text) else secret
  | secret, (.delete other, .ok _) => if other = id then none else secret
  | secret, _ => secret

/-- The secret that a read of the entries finds. -/
def view (applicationId : Str) (entries : Entries) (id : Guid) : Option Str :=
  (entries (targetName applicationId id)).map ofUnicodeBytes

/-- What a call that returned answered, and the entries it left. -/
inductive Answers (applicationId : Str) (entries : Entries) : Call → Answer → Entries → Prop
  | inspected {id : Guid} {status : SecretStatus} :
      (status = .available → (entries (targetName applicationId id)).isSome = true) →
      (status = .missing → entries (targetName applicationId id) = none) →
      Answers applicationId entries (.inspect id) (.status status) entries
  | found {id : Guid} {blob : List UInt8} : entries (targetName applicationId id) = some blob → blob.length ≤ 2560 →
      blob.length % 2 = 0 → Answers applicationId entries (.read id) (.secret (some (ofUnicodeBytes blob))) entries
  | absent {id : Guid} : entries (targetName applicationId id) = none →
      Answers applicationId entries (.read id) (.secret none) entries
  | written {id : Guid} {secret : Str} : secret.length ≤ 1280 → Answers applicationId entries (.write id secret) .done
      (Function.update entries (targetName applicationId id) (some (unicodeBytes secret)))
  | deleted {id : Guid} : Answers applicationId entries (.delete id) .done
      (Function.update entries (targetName applicationId id) none)

/-- What the store throws: nothing of a secret is in it. -/
inductive Throws : Exn → Prop
  | cancelled : Throws .operationCanceled
  | empty : Throws (.argument "Credential ID is required.")
  | tooLong : Throws (.argument "The secret exceeds Windows Credential Manager's size limit.")
  | refused {status : SecretStatus} : status ≠ .available → status ≠ .missing → Throws (.credentialStore status)

/-- Nothing of a secret is left in the two copies that a write makes. What a read is given is
    freed as it is. -/
structure Scrubbed (s : State) : Prop where
  bytes : ∀ b ∈ s.bytes, b = 0
  blob : ∀ b ∈ s.blob, b = 0

structure Performed (applicationId : Str) (c : Call) (s : State) (r : Except Exn Answer) (s' : State) : Prop where
  outcome : (∃ e, r = .error e ∧ Throws e ∧ s'.entries = s.entries) ∨
    ∃ a, r = .ok a ∧ Answers applicationId s.entries c a s'.entries
  unfreed : s'.unfreed = s.unfreed
  scrubbed : Scrubbed s → Scrubbed s'

/-- That there is no such credential is said only where there is none. -/
def NotFoundIsTrue (refused : Nat → Option Nat) : Prop := ∀ n, refused n ≠ some errorNotFound

section Calls

variable {refused : Nat → Option Nat} {applicationId : Str} {s : State} {α : Type}

theorem wp_native {run : Entries → Except Nat α × Entries} {Q : Except Exn (Except Nat α) → State → Prop}
    (hrefused : ∀ code, refused s.natives = some code → Q (.ok (.error code)) { s with natives := s.natives + 1 })
    (hrun : refused s.natives = none →
      Q (.ok (run s.entries).1) { s with entries := (run s.entries).2, natives := s.natives + 1 }) :
    (native refused run).wp Q s := by
  unfold Eff.wp native
  rcases h : refused s.natives with _ | code
  · exact hrun h
  · exact hrefused code h

theorem classify_missing {code : Nat} (h : classify code = .missing) : code = errorNotFound := by
  unfold classify at h
  split at h
  · rfl
  · cases h
  · cases h

theorem classify_ne_available (code : Nat) : classify code ≠ .available := by
  unfold classify
  split <;> simp

theorem target_cases (applicationId : Str) (id : Guid) :
    target applicationId id = .error (.argument "Credential ID is required.") ∨
      target applicationId id = .ok (targetName applicationId id) := by
  unfold target throwIf
  split
  · exact Or.inl rfl
  · exact Or.inr rfl

/-- How every call but a write begins. -/
theorem wp_named {cancelled : Bool} {id : Guid} {f : Str → Op α} {Q : Except Exn α → State → Prop}
    (herror : ∀ e, Throws e → Q (.error e) s) (hok : (f (targetName applicationId id)).wp Q s) :
    Eff.wp (do throwIfCancelled cancelled; let name ← Eff.lift (target applicationId id); f name) Q s := by
  refine Eff.wp_lift_step ?_ ?_
  · intro e he
    refine herror e ?_
    cases cancelled
    · cases he
    · cases he
      exact .cancelled
  · intro _ _
    refine Eff.wp_lift_step ?_ ?_
    · intro e he
      rcases target_cases applicationId id with h | h
      · cases h.symm.trans he
        exact herror _ .empty
      · cases h.symm.trans he
    · intro name hname
      rcases target_cases applicationId id with h | h
      · cases h.symm.trans hname
      · cases h.symm.trans hname
        exact hok

/-- What a native call does not touch. -/
structure Beside (s s' : State) : Prop where
  bytes : s'.bytes = s.bytes
  blob : s'.blob = s.blob

theorem Beside.scrubbed {s' : State} (h : Beside s s') (hs : Scrubbed s) : Scrubbed s' :=
  ⟨h.bytes ▸ hs.bytes, h.blob ▸ hs.blob⟩

theorem Performed.of_throw {c : Call} {e : Exn} {s' : State} (he : Throws e) (hentries : s'.entries = s.entries)
    (hunfreed : s'.unfreed = s.unfreed) (hbeside : Beside s s') : Performed applicationId c s (.error e) s' :=
  ⟨Or.inl ⟨e, rfl, he, hentries⟩, hunfreed, hbeside.scrubbed⟩

theorem Performed.of_answer {c : Call} {a : Answer} {s' : State} (ha : Answers applicationId s.entries c a s.entries)
    (hentries : s'.entries = s.entries) (hunfreed : s'.unfreed = s.unfreed) (hbeside : Beside s s') :
    Performed applicationId c s (.ok a) s' :=
  ⟨Or.inr ⟨a, rfl, hentries ▸ ha⟩, hunfreed, hbeside.scrubbed⟩

/-- A read fails, with nothing to free, or gives a copy of the entry, to be freed. -/
theorem wp_credRead {name : Str} {Q : Except Exn (Except Nat (List UInt8)) → State → Prop}
    (hfound : NotFoundIsTrue refused)
    (hfails : ∀ code s', s'.entries = s.entries → s'.unfreed = s.unfreed → Beside s s' →
      (code = errorNotFound → s.entries name = none) → Q (.ok (.error code)) s')
    (hreads : ∀ blob s', s'.entries = s.entries → s'.unfreed = s.unfreed + 1 → Beside s s' →
      s.entries name = some blob → Q (.ok (.ok blob)) s') : (credRead refused name).wp Q s := by
  unfold credRead
  rw [Eff.wp_bind]
  refine wp_native ?_ ?_
  · intro code hcode
    refine hfails code _ rfl rfl ⟨rfl, rfl⟩ ?_
    intro h
    exact absurd (h ▸ hcode) (hfound _)
  · intro _
    rcases hentry : s.entries name with _ | blob
    · exact hfails _ _ rfl rfl ⟨rfl, rfl⟩ fun _ => hentry
    · exact hreads blob _ rfl rfl ⟨rfl, rfl⟩ hentry

theorem inspectAsync_spec (hfound : NotFoundIsTrue refused) (cancelled : Bool) (id : Guid) :
    (inspectAsync refused applicationId cancelled id).wp
      (fun r s' => Performed applicationId (.inspect id) s (r.map .status) s') s := by
  refine wp_named ?_ ?_
  · intro e he
    exact .of_throw he rfl rfl ⟨rfl, rfl⟩
  · rw [Eff.wp_bind]
    refine wp_credRead hfound ?_ ?_
    · intro code s' hentries hunfreed hbeside hmissing
      have hinspected : Answers applicationId s.entries (.inspect id) (.status (classify code)) s.entries :=
        .inspected (fun h => absurd h (classify_ne_available code)) fun h => hmissing (classify_missing h)
      exact .of_answer hinspected hentries hunfreed hbeside
    · intro blob s' hentries hunfreed hbeside hentry
      have hinspected : Answers applicationId s.entries (.inspect id) (.status .available) s.entries :=
        .inspected (fun _ => by rw [hentry]; rfl) fun h => nomatch h
      have hfreed : s'.unfreed - 1 = s.unfreed := by omega
      have hbeside' : Beside s { s' with unfreed := s'.unfreed - 1 } := ⟨hbeside.bytes, hbeside.blob⟩
      exact .of_answer hinspected hentries hfreed hbeside'

/-- An inspection that answers says what Windows does of the entry. -/
theorem inspectAsync_answer (cancelled : Bool) (id : Guid) :
    (inspectAsync refused applicationId cancelled id).wp (fun r _ => ∀ status, r = .ok status →
      status = ((refused s.natives).map classify).getD
        (if (s.entries (targetName applicationId id)).isSome then .available else .missing)) s := by
  refine wp_named ?_ ?_
  · intro e _ status h
    cases h
  · rw [Eff.wp_bind, credRead, Eff.wp_bind]
    refine wp_native ?_ ?_
    · intro code hcode status h
      cases h
      rw [hcode]
      rfl
    · intro hnone
      rw [hnone]
      rcases s.entries (targetName applicationId id) with _ | blob
      · intro status h
        cases h
        rfl
      · intro status h
        cases h
        rfl

theorem blobText_cases (blob : List UInt8) : blobText blob = .error (.credentialStore .storeError) ∨
    (blob.length ≤ 2560 ∧ blob.length % 2 = 0) ∧ blobText blob = .ok (ofUnicodeBytes blob) := by
  unfold blobText throwIf
  split
  · exact Or.inl rfl
  · exact Or.inr ⟨by omega, rfl⟩

theorem readAsync_spec (hfound : NotFoundIsTrue refused) (cancelled : Bool) (id : Guid) :
    (readAsync refused applicationId cancelled id).wp
      (fun r s' => Performed applicationId (.read id) s (r.map .secret) s') s := by
  refine wp_named ?_ ?_
  · intro e he
    exact .of_throw he rfl rfl ⟨rfl, rfl⟩
  · rw [Eff.wp_bind]
    refine wp_credRead hfound ?_ ?_
    · intro code s' hentries hunfreed hbeside hmissing
      refine Eff.wp_ite ?_ ?_
      · intro hcode
        exact .of_answer (.absent (hmissing (classify_missing hcode))) hentries hunfreed hbeside
      · intro hcode
        exact .of_throw (.refused (classify_ne_available code) hcode) hentries hunfreed hbeside
    · intro blob s' hentries hunfreed hbeside hentry
      have hfreed : s'.unfreed - 1 = s.unfreed := by omega
      have hbeside' : Beside s { s' with unfreed := s'.unfreed - 1 } := ⟨hbeside.bytes, hbeside.blob⟩
      dsimp only
      rw [Eff.wp_bind, Eff.wp_finally, Eff.wp_lift]
      rcases blobText_cases blob with h | ⟨⟨hlength, heven⟩, h⟩
      · rw [h]
        exact .of_throw (.refused (by decide) (by decide)) hentries hfreed hbeside'
      · rw [h]
        exact .of_answer (.found hentry hlength heven) hentries hfreed hbeside'

theorem credDelete_spec {name : Str} {Q : Except Exn (Except Nat Unit) → State → Prop} (hfound : NotFoundIsTrue refused)
    (hfails : ∀ code s', s'.entries = s.entries → s'.unfreed = s.unfreed → Beside s s' →
      (code = errorNotFound → s.entries name = none) → Q (.ok (.error code)) s')
    (hdeletes : ∀ s', s'.entries = Function.update s.entries name none → s'.unfreed = s.unfreed → Beside s s' →
      Q (.ok (.ok ())) s') : (credDelete refused name).wp Q s := by
  refine wp_native ?_ ?_
  · intro code hcode
    refine hfails code _ rfl rfl ⟨rfl, rfl⟩ ?_
    intro h
    exact absurd (h ▸ hcode) (hfound _)
  · intro _
    rcases hentry : s.entries name with _ | blob
    · exact hfails _ _ rfl rfl ⟨rfl, rfl⟩ fun _ => hentry
    · exact hdeletes _ rfl rfl ⟨rfl, rfl⟩

theorem deleteAsync_spec (hfound : NotFoundIsTrue refused) (cancelled : Bool) (id : Guid) :
    (deleteAsync refused applicationId cancelled id).wp
      (fun r s' => Performed applicationId (.delete id) s (r.map fun _ => .done) s') s := by
  refine wp_named ?_ ?_
  · intro e he
    exact .of_throw he rfl rfl ⟨rfl, rfl⟩
  · rw [Eff.wp_bind]
    refine credDelete_spec hfound ?_ ?_
    · intro code s' hentries hunfreed hbeside hmissing
      refine Eff.wp_ite ?_ ?_
      · intro hcode
        exact .of_throw (.refused (classify_ne_available code) hcode) hentries hunfreed hbeside
      · intro hcode
        -- there was nothing to delete
        have hnone := hmissing (classify_missing (of_not_not hcode))
        have hsame : Function.update s.entries (targetName applicationId id) none = s.entries := by
          rw [← hnone]
          exact Function.update_eq_self _ _
        have hdeleted : Answers applicationId s.entries (.delete id) .done s.entries := by
          have h : Answers applicationId s.entries (.delete id) .done _ := .deleted
          rwa [hsame] at h
        exact .of_answer hdeleted hentries hunfreed hbeside
    · intro s' hentries hunfreed hbeside
      exact ⟨Or.inr ⟨_, rfl, hentries ▸ .deleted⟩, hunfreed, hbeside.scrubbed⟩

/-- Clearing the array, then as many bytes of the block, leaves no copy of the secret. -/
theorem scrubbed_clear (s : State) (h : s.blob = s.bytes) : Scrubbed (clearBlob (clearBytes s)) := by
  constructor
  · intro b hb
    obtain ⟨_, _, rfl⟩ := List.mem_map.mp hb
    rfl
  · intro b hb
    obtain ⟨i, hi, rfl⟩ := List.mem_mapIdx.mp hb
    have hlt : i < (clearBytes s).bytes.length := by
      rw [clearBytes, List.length_map, ← h]
      exact hi
    rw [if_pos hlt]

/-- The call of Windows within a write. -/
theorem writeBlob_spec (hfound : NotFoundIsTrue refused) (id : Guid) : (writeBlob refused applicationId id).wp (fun r s' =>
    s'.bytes = s.bytes ∧ s'.blob = s.bytes ∧ s'.unfreed = s.unfreed ∧
      ((∃ e, r = .error e ∧ Throws e ∧ s'.entries = s.entries) ∨
        r = .ok () ∧ s'.entries = Function.update s.entries (targetName applicationId id) (some s.bytes))) s := by
  unfold writeBlob
  rw [Eff.wp_modify_bind]
  refine Eff.wp_lift_step ?_ ?_
  · intro e he
    rcases target_cases applicationId id with h | h
    · cases h.symm.trans he
      exact ⟨rfl, rfl, rfl, Or.inl ⟨_, rfl, .empty, rfl⟩⟩
    · cases h.symm.trans he
  · intro name hname
    rcases target_cases applicationId id with h | h
    · cases h.symm.trans hname
    · cases h.symm.trans hname
      rw [Eff.wp_bind, credWrite, Eff.wp_get_bind]
      refine wp_native ?_ ?_
      · intro code hcode
        have hnot : classify code ≠ .missing := fun h => hfound _ (classify_missing h ▸ hcode)
        exact ⟨rfl, rfl, rfl, Or.inl ⟨_, rfl, .refused (classify_ne_available code) hnot, rfl⟩⟩
      · exact fun _ => ⟨rfl, rfl, rfl, Or.inr ⟨rfl, rfl⟩⟩

theorem writeAsync_spec (hfound : NotFoundIsTrue refused) (cancelled : Bool) (id : Guid) (secret : Str) :
    (writeAsync refused applicationId cancelled id secret).wp
      (fun r s' => Performed applicationId (.write id secret) s (r.map fun _ => .done) s') s := by
  refine Eff.wp_lift_step ?_ ?_
  · intro e he
    cases cancelled
    · cases he
    · cases he
      exact .of_throw .cancelled rfl rfl ⟨rfl, rfl⟩
  · intro _ _
    rw [Eff.wp_modify_bind]
    refine Eff.wp_ite ?_ ?_
    · intro _
      refine ⟨Or.inl ⟨_, rfl, .tooLong, rfl⟩, rfl, fun hs => ⟨?_, hs.blob⟩⟩
      intro b hb
      obtain ⟨_, _, rfl⟩ := List.mem_map.mp hb
      rfl
    · intro hlength
      rw [Eff.wp_modify_bind, Eff.wp_finally]
      refine Eff.wp_mono (writeBlob_spec hfound id) ?_
      intro r s' ⟨hbytes, hblob, hunfreed, houtcome⟩
      have hscrubbed := scrubbed_clear s' (hblob.trans hbytes.symm)
      refine ⟨?_, ?_, fun _ => ⟨hscrubbed.bytes, hscrubbed.blob⟩⟩
      · rcases houtcome with ⟨e, rfl, he, hentries⟩ | ⟨rfl, hentries⟩
        · exact Or.inl ⟨e, rfl, he, hentries⟩
        · refine Or.inr ⟨_, rfl, ?_⟩
          have hwritten : Answers applicationId s.entries (.write id secret) .done _ := .written (by
            rw [length_unicodeBytes] at hlength
            omega)
          exact hentries ▸ hwritten
      · show s'.unfreed - 1 = s.unfreed
        rw [hunfreed]
        exact Nat.add_sub_cancel _ _

theorem perform_spec (hfound : NotFoundIsTrue refused) (cancelled : Bool) (c : Call) :
    (perform refused applicationId cancelled c).wp (Performed applicationId c s) s := by
  have hthen {β : Type} {m : Op β} {f : β → Answer} (hm : m.wp (fun r s' => Performed applicationId c s (r.map f) s') s) :
      Eff.wp (do let b ← m; pure (f b)) (Performed applicationId c s) s := by
    rw [Eff.wp_bind]
    refine Eff.wp_mono hm ?_
    intro r s' h
    cases r with
    | error e => exact h
    | ok b => exact h
  cases c with
  | inspect id => exact hthen (inspectAsync_spec hfound cancelled id)
  | read id => exact hthen (readAsync_spec hfound cancelled id)
  | write id secret => exact hthen (f := fun _ => .done) (writeAsync_spec hfound cancelled id secret)
  | delete id => exact hthen (f := fun _ => .done) (deleteAsync_spec hfound cancelled id)

end Calls

/-! ## (1) Sessions -/

/-- The identifier whose secret a call changes when it returns. -/
def Call.changes : Call → Option Guid
  | .write id _ => some id
  | .delete id => some id
  | _ => none

theorem targetName_injective {applicationId : Str} {a b : Guid} (h : targetName applicationId a = targetName applicationId b) :
    a = b := Guid.format_injective (List.append_cancel_left h)

section Sessions

variable {refused : Nat → Option Nat} {applicationId : Str} {s : State} {c : Call} {r : Except Exn Answer} {s' : State}

/-- One call changes the table of secrets as `kept` says. -/
theorem Performed.view_eq (h : Performed applicationId c s r s') (id : Guid) :
    view applicationId s'.entries id = kept id (view applicationId s.entries id) (c, r) := by
  rcases h.outcome with ⟨e, rfl, -, hentries⟩ | ⟨a, rfl, ha⟩
  · rw [hentries]
    cases c <;> rfl
  · unfold view
    generalize s'.entries = entries at ha
    cases ha with
    | inspected _ _ => rfl
    | found _ _ _ => rfl
    | absent _ => rfl
    | @written other secret _ =>
      by_cases hid : other = id
      · subst hid
        simp [kept, ofUnicodeBytes_unicodeBytes]
      · have hname : targetName applicationId id ≠ targetName applicationId other :=
          fun h => hid (targetName_injective h).symm
        rw [Function.update_of_ne hname]
        simp [kept, hid]
    | @deleted other =>
      by_cases hid : other = id
      · subst hid
        simp [kept]
      · have hname : targetName applicationId id ≠ targetName applicationId other :=
          fun h => hid (targetName_injective h).symm
        rw [Function.update_of_ne hname]
        simp [kept, hid]

/-- One call leaves every entry but that of the identifier it changes. -/
theorem Performed.entries_eq (h : Performed applicationId c s r s') {name : Str}
    (hname : ∀ id, c.changes = some id → name ≠ targetName applicationId id) : s'.entries name = s.entries name := by
  rcases h.outcome with ⟨e, -, -, hentries⟩ | ⟨a, -, ha⟩
  · rw [hentries]
  · generalize s'.entries = entries at ha
    cases ha with
    | inspected _ _ => rfl
    | found _ _ _ => rfl
    | absent _ => rfl
    | written _ => exact Function.update_of_ne (hname _ rfl) _ _
    | deleted => exact Function.update_of_ne (hname _ rfl) _ _

/-- What a read or an inspection says of the secret that is there. -/
def Truthful (id : Guid) (secret : Option Str) : Call × Except Exn Answer → Prop
  | (.read other, .ok (.secret answer)) => other = id → answer = secret
  | (.inspect other, .ok (.status status)) =>
    other = id → (status = .available → secret ≠ none) ∧ (status = .missing → secret = none)
  | (_, .error e) => Throws e
  | _ => True

theorem Performed.truthful (h : Performed applicationId c s r s') (id : Guid) :
    Truthful id (view applicationId s.entries id) (c, r) := by
  rcases h.outcome with ⟨e, rfl, he, -⟩ | ⟨a, rfl, ha⟩
  · cases c <;> exact he
  · unfold view
    generalize s'.entries = entries at ha
    cases ha with
    | inspected havailable hmissing =>
      intro hid
      subst hid
      refine ⟨fun h => ?_, fun h => ?_⟩
      · have hsome := havailable h
        rw [Ne, Option.map_eq_none_iff]
        exact Option.isSome_iff_ne_none.mp hsome
      · rw [hmissing h]
        rfl
    | found hentry _ _ =>
      intro hid
      subst hid
      rw [hentry]
      rfl
    | absent hentry =>
      intro hid
      subst hid
      rw [hentry]
      rfl
    | written _ => trivial
    | deleted => trivial

theorem Performed.inspect {id : Guid} {r : Except Exn SecretStatus}
    (h : Performed applicationId (.inspect id) s (r.map .status) s') : s'.entries = s.entries := by
  rcases h.outcome with ⟨e, -, -, hentries⟩ | ⟨a, -, hanswers⟩
  · exact hentries
  · generalize s'.entries = entries at hanswers
    cases hanswers with
    | inspected _ _ => rfl

/-- A read throws or finds what is there. -/
theorem Performed.read {id : Guid} {r : Except Exn (Option Str)}
    (h : Performed applicationId (.read id) s (r.map .secret) s') : s'.entries = s.entries ∧
      ((∃ e, r = .error e) ∨ r = .ok (view applicationId s.entries id)) := by
  rcases h.outcome with ⟨e, he, -, hentries⟩ | ⟨a, ha, hanswers⟩
  · rcases r with e | secret
    · exact ⟨hentries, Or.inl ⟨e, rfl⟩⟩
    · cases he
  · rcases r with e | secret
    · cases ha
    · cases ha
      generalize s'.entries = entries at hanswers
      unfold view
      cases hanswers with
      | found hentry _ _ => exact ⟨rfl, Or.inr (by rw [hentry]; rfl)⟩
      | absent hentry => exact ⟨rfl, Or.inr (by rw [hentry]; rfl)⟩

theorem Performed.write {id : Guid} {secret : Str} {r : Except Exn Unit}
    (h : Performed applicationId (.write id secret) s (r.map fun _ => .done) s') :
    (∃ e, r = .error e ∧ s'.entries = s.entries) ∨ r = .ok () ∧ secret.length ≤ 1280 ∧
      s'.entries = Function.update s.entries (targetName applicationId id) (some (unicodeBytes secret)) := by
  rcases h.outcome with ⟨e, he, -, hentries⟩ | ⟨a, ha, hanswers⟩
  · rcases r with e | ⟨⟩
    · exact Or.inl ⟨e, rfl, hentries⟩
    · cases he
  · rcases r with e | ⟨⟩
    · cases ha
    · generalize s'.entries = entries at hanswers ⊢
      cases hanswers with
      | written hfits => exact Or.inr ⟨rfl, hfits, rfl⟩

theorem Performed.delete {id : Guid} {r : Except Exn Unit}
    (h : Performed applicationId (.delete id) s (r.map fun _ => .done) s') :
    (∃ e, r = .error e ∧ s'.entries = s.entries) ∨ r = .ok () ∧
      s'.entries = Function.update s.entries (targetName applicationId id) none := by
  rcases h.outcome with ⟨e, he, -, hentries⟩ | ⟨a, ha, hanswers⟩
  · rcases r with e | ⟨⟩
    · exact Or.inl ⟨e, rfl, hentries⟩
    · cases he
  · rcases r with e | ⟨⟩
    · cases ha
    · generalize s'.entries = entries at hanswers ⊢
      cases hanswers with
      | deleted => exact Or.inr ⟨rfl, rfl⟩

theorem inspectAsync_outcome (applicationId : Str) (hfound : NotFoundIsTrue refused) (cancelled : Bool) (id : Guid) (s : State) :
    (inspectAsync refused applicationId cancelled id).wp (fun r s' => s'.entries = s.entries ∧ ∀ status, r = .ok status →
      status = ((refused s.natives).map classify).getD
        (if (s.entries (targetName applicationId id)).isSome then .available else .missing)) s :=
  Eff.wp_and (Eff.wp_mono (inspectAsync_spec hfound cancelled id) fun _ _ h => h.inspect) (inspectAsync_answer cancelled id)

theorem readAsync_outcome (applicationId : Str) (hfound : NotFoundIsTrue refused) (cancelled : Bool) (id : Guid) (s : State) :
    (readAsync refused applicationId cancelled id).wp (fun r s' => s'.entries = s.entries ∧
      ((∃ e, r = .error e) ∨ r = .ok (view applicationId s.entries id))) s :=
  Eff.wp_mono (readAsync_spec hfound cancelled id) fun _ _ h => h.read

theorem writeAsync_outcome (applicationId : Str) (hfound : NotFoundIsTrue refused) (cancelled : Bool) (id : Guid) (secret : Str)
    (s : State) : (writeAsync refused applicationId cancelled id secret).wp (fun r s' =>
      (∃ e, r = .error e ∧ s'.entries = s.entries) ∨ r = .ok () ∧ secret.length ≤ 1280 ∧
        s'.entries = Function.update s.entries (targetName applicationId id) (some (unicodeBytes secret))) s :=
  Eff.wp_mono (writeAsync_spec hfound cancelled id secret) fun _ _ h => h.write

theorem deleteAsync_outcome (applicationId : Str) (hfound : NotFoundIsTrue refused) (cancelled : Bool) (id : Guid) (s : State) :
    (deleteAsync refused applicationId cancelled id).wp (fun r s' =>
      (∃ e, r = .error e ∧ s'.entries = s.entries) ∨ r = .ok () ∧
        s'.entries = Function.update s.entries (targetName applicationId id) none) s :=
  Eff.wp_mono (deleteAsync_spec hfound cancelled id) fun _ _ h => h.delete

theorem perform_performed (applicationId : Str) (hfound : NotFoundIsTrue refused) (cancelled : Bool) (c : Call) (s : State) :
    Performed applicationId c s (perform refused applicationId cancelled c s).1
      (perform refused applicationId cancelled c s).2 := perform_spec hfound cancelled c

/-- The table of secrets after a session. -/
theorem session_view (hfound : NotFoundIsTrue refused) (calls : List (Call × Bool)) (s : State) (id : Guid) :
    view applicationId (session refused applicationId calls s).2.entries id =
      (session refused applicationId calls s).1.foldl (kept id) (view applicationId s.entries id) := by
  induction calls generalizing s with
  | nil => rfl
  | cons call calls ih =>
    obtain ⟨c, cancelled⟩ := call
    have hp := perform_performed applicationId hfound cancelled c s
    show _ = List.foldl (kept id) (kept id (view applicationId s.entries id) (c, _)) _
    rw [← hp.view_eq id]
    exact ih _

/-- Each call of a session finds the secrets that the calls before it left. -/
theorem session_truthful (hfound : NotFoundIsTrue refused) (calls : List (Call × Bool)) (s : State) (id : Guid)
    {before after : List (Call × Except Exn Answer)} {p : Call × Except Exn Answer}
    (hlog : (session refused applicationId calls s).1 = before ++ p :: after) :
    Truthful id (before.foldl (kept id) (view applicationId s.entries id)) p := by
  induction calls generalizing s before with
  | nil => simp [session] at hlog
  | cons call calls ih =>
    obtain ⟨c, cancelled⟩ := call
    have hp := perform_performed applicationId hfound cancelled c s
    rcases before with _ | ⟨first, before⟩
    · obtain ⟨hfirst, -⟩ := List.cons.inj hlog
      rw [← hfirst]
      exact hp.truthful id
    · obtain ⟨hfirst, hrest⟩ := List.cons.inj hlog
      rw [List.foldl_cons, ← hfirst, ← hp.view_eq id]
      exact ih _ hrest

theorem session_entries (hfound : NotFoundIsTrue refused) (calls : List (Call × Bool)) (s : State) {name : Str}
    (hname : ∀ p ∈ calls, ∀ id, p.1.changes = some id → name ≠ targetName applicationId id) :
    (session refused applicationId calls s).2.entries name = s.entries name := by
  induction calls generalizing s with
  | nil => rfl
  | cons call calls ih =>
    obtain ⟨c, cancelled⟩ := call
    have hp := perform_performed applicationId hfound cancelled c s
    exact (ih _ fun p hp' => hname p (List.mem_cons_of_mem _ hp')).trans (hp.entries_eq (hname _ List.mem_cons_self))

theorem session_clean (hfound : NotFoundIsTrue refused) (calls : List (Call × Bool)) (s : State) :
    (session refused applicationId calls s).2.unfreed = s.unfreed ∧
      (Scrubbed s → Scrubbed (session refused applicationId calls s).2) := by
  induction calls generalizing s with
  | nil => exact ⟨rfl, fun h => h⟩
  | cons call calls ih =>
    obtain ⟨c, cancelled⟩ := call
    have hp := perform_performed applicationId hfound cancelled c s
    obtain ⟨hunfreed, hscrubbed⟩ := ih (perform refused applicationId cancelled c s).2
    exact ⟨hunfreed.trans hp.unfreed, fun h => hscrubbed (hp.scrubbed h)⟩

/-- In any session: a call finds the secrets that the calls before it left, and so does a reader
    at the end; an entry that no call changes stays as it was; no native block is left, and
    of the two copies of a secret that a write makes nothing. -/
theorem store_keeps_secrets (hfound : NotFoundIsTrue refused) (calls : List (Call × Bool)) (s : State) :
    let log := (session refused applicationId calls s).1
    let last := (session refused applicationId calls s).2
    (∀ before p after id, log = before ++ p :: after →
        Truthful id (before.foldl (kept id) (view applicationId s.entries id)) p) ∧
      (∀ id, view applicationId last.entries id = log.foldl (kept id) (view applicationId s.entries id)) ∧
      (∀ name, (∀ p ∈ calls, ∀ id, p.1.changes = some id → name ≠ targetName applicationId id) →
        last.entries name = s.entries name) ∧
      last.unfreed = s.unfreed ∧ (Scrubbed s → Scrubbed last) :=
  ⟨fun _ _ _ id hlog => session_truthful hfound calls s id hlog, session_view hfound calls s,
    fun _ hname => session_entries hfound calls s hname, session_clean hfound calls s⟩

end Sessions

/-- Every sixth call is refused: access denied. -/
def denied (n : Nat) : Option Nat := if n % 6 = 5 then some 5 else none

theorem notFoundIsTrue_denied : NotFoundIsTrue denied := by
  intro n h
  unfold denied errorNotFound at h
  split at h <;> cases h

def emptyState : State := { entries := fun _ => none, natives := 0, unfreed := 0, bytes := [], blob := [] }

def appId : Str := str "MythLab"

/-- The second write of a secret, then a delete of another, then two reads: the last is denied. -/
def visits : List (Call × Bool) :=
  [(.write 1 (str "old"), false), (.write 1 (str "new"), false), (.write 2 (str "other"), true), (.delete 2, false),
    (.read 1, false), (.inspect 2, false), (.read 1, false)]

theorem visits_read_new :
    (session denied appId visits emptyState).1.map Prod.snd = [.ok .done, .ok .done, .error .operationCanceled, .ok .done,
        .ok (.secret (some (str "new"))), .ok (.status .missing), .error (.credentialStore .accessDenied)] ∧
      view appId (session denied appId visits emptyState).2.entries 1 = some (str "new") := by
  refine ⟨by decide +kernel, ?_⟩
  rw [(store_keeps_secrets notFoundIsTrue_denied visits emptyState).2.1 1]
  decide +kernel

/-! ## (2) What was written is read -/

section Secret

variable {refused : Nat → Option Nat} {applicationId : Str} {id : Guid} {secret : Str} {s : State}

theorem target_eq (hid : id ≠ Guid.empty) : target applicationId id = .ok (targetName applicationId id) := by
  unfold target throwIf
  rw [if_neg hid]
  rfl

/-- A write that fits and is not refused. -/
theorem writeAsync_fits (hid : id ≠ Guid.empty) (hn : refused s.natives = none) (hfits : secret.length ≤ 1280) :
    (writeAsync refused applicationId false id secret).wp (fun r s' => r = .ok () ∧
      s'.entries = Function.update s.entries (targetName applicationId id) (some (unicodeBytes secret))) s := by
  have hlength : ¬ 2560 < (unicodeBytes secret).length := by
    rw [length_unicodeBytes]
    omega
  refine Eff.wp_lift_step (fun _ h => nomatch h) fun _ _ => ?_
  rw [Eff.wp_modify_bind, if_neg hlength, Eff.wp_modify_bind, Eff.wp_finally, writeBlob, Eff.wp_modify_bind, target_eq hid,
    Eff.wp_lift_bind, Eff.wp_bind, credWrite, Eff.wp_get_bind]
  refine wp_native (fun code hcode => ?_) fun _ => ⟨rfl, rfl⟩
  cases hn.symm.trans hcode

/-- A read of what was written, not refused. -/
theorem readAsync_finds (hid : id ≠ Guid.empty) (hn : refused s.natives = none) (hfits : secret.length ≤ 1280)
    (hentry : s.entries (targetName applicationId id) = some (unicodeBytes secret)) :
    (readAsync refused applicationId false id).wp (fun r _ => r = .ok (some (replaceLone secret))) s := by
  have htext : blobText (unicodeBytes secret) = .ok (replaceLone secret) := by
    unfold blobText throwIf
    rw [length_unicodeBytes, if_neg (by omega), ofUnicodeBytes_unicodeBytes]
    rfl
  refine Eff.wp_lift_step (fun _ h => nomatch h) fun _ _ => ?_
  rw [target_eq hid, Eff.wp_lift_bind, Eff.wp_bind, credRead, Eff.wp_bind]
  refine wp_native (fun code hcode => ?_) ?_
  · cases hn.symm.trans hcode
  · intro _
    rw [hentry]
    dsimp only [Option.elim_some]
    rw [Eff.wp_modify_bind, Eff.wp_pure]
    dsimp only
    rw [Eff.wp_bind, Eff.wp_finally, htext]
    rfl

/-- A secret is written and then read as it was, whatever is called in between for others,
    exactly when it fits and every surrogate in it has its partner. -/
theorem secret_survives_iff (hfound : NotFoundIsTrue refused) (hid : id ≠ Guid.empty) (calls : List (Call × Bool))
    (hothers : ∀ p ∈ calls, p.1.changes ≠ some id) (hwrite : refused s.natives = none)
    (hread : refused (session refused applicationId calls (writeAsync refused applicationId false id secret s).2).2.natives = none) :
    let written := writeAsync refused applicationId false id secret s
    let found := readAsync refused applicationId false id (session refused applicationId calls written.2).2
    written.1 = .ok () ∧ found.1 = .ok (some secret) ↔ secret.length ≤ 1280 ∧ WellFormed secret := by
  intro written found
  by_cases hfits : secret.length ≤ 1280
  · obtain ⟨hok, hentries⟩ : written.1 = .ok () ∧ written.2.entries = _ := writeAsync_fits hid hwrite hfits
    have hframe : (session refused applicationId calls written.2).2.entries (targetName applicationId id) =
        written.2.entries (targetName applicationId id) :=
      session_entries hfound calls written.2
        fun p hp other hother hname => hothers p hp (by rw [hother, targetName_injective hname])
    rw [hentries, Function.update_self] at hframe
    have hfinds : found.1 = .ok (some (replaceLone secret)) := readAsync_finds hid hread hfits hframe
    rw [hok, hfinds, ← replaceLone_eq_self_iff]
    simp [hfits]
  · refine ⟨?_, fun h => absurd h.1 hfits⟩
    intro ⟨hok, _⟩
    rcases writeAsync_outcome applicationId hfound false id secret s with ⟨e, he, -⟩ | ⟨-, h, -⟩
    · cases he.symm.trans hok
    · exact absurd h hfits

end Secret

theorem smile_survives :
    let secret := [0x70, 0x77, 0xD83D, 0xDE00]
    let written := writeAsync denied appId false 1 secret emptyState
    let between : List (Call × Bool) := [(.write 2 (str "other"), false), (.delete 3, true)]
    written.1 = .ok () ∧ (readAsync denied appId false 1 (session denied appId between written.2).2).1 = .ok (some secret) := by
  refine (secret_survives_iff notFoundIsTrue_denied (by decide) _ (by decide) (by decide) (by decide +kernel)).mpr ⟨by decide, ?_⟩
  exact .unit (by decide) (.unit (by decide) (.pair (by decide) (by decide) .nil))

end MythLab.Credentials.WindowsCredentialStore
