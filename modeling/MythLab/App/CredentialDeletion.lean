/-
  MythLab.App.CredentialDeletion — deleting a credential, its metadata and its Windows
  secret, among the saves of `CredentialSaveService`.

  A save changes the secret first and the metadata then, a deletion the other way round;
  either makes good for a call that threw, but a deletion whose first call threw does
  nothing more. The commands run one at a time, and what they throw becomes a message.

  Proved (`no_orphans_iff`): in runs whose compensating calls do not throw, every secret
  has its metadata in exactly those in which no deletion lost the metadata, its first
  call having thrown after it took effect.
-/
import MythLab.Lib.Machine
import MythLab.Credentials.CredentialSaveService

namespace MythLab.App.CredentialDeletion

open Lib Dotnet Storage Credentials
open Repository (deleteCredential saveCredential)
open CredentialSaveService (State setSecret onDatabase saveAsync)

inductive Site where
  | metadata
  | secret
  | restoreMetadata
  | load
  deriving DecidableEq, Repr

abbrev Op (α : Type) := Eff (World State Site) Exn α

/-- `DeleteCredentialAsync`, for a credential that is selected and whose deletion is confirmed. -/
def deleteCredentialAsync (faults : Nat → Fault Exn) (credential : CredentialReference) : Op Unit := do
  call faults .metadata (onDatabase (deleteCredential credential.id))
  tryCatch (call faults .secret (setSecret credential.id none)) fun e => do
    call faults .restoreMetadata (onDatabase (saveCredential credential))
    throw e
  call faults .load fun s => (.ok (), s)

inductive Event where
  | save (faults : Nat → Fault Exn) (unreadable : Option SecretStatus) (updated : CredentialReference)
      (replaceSecret : Bool) (replacement : Option Str)
  /-- Nothing happens where no credential is selected, or the deletion is not confirmed. -/
  | delete (faults : Nat → Fault Exn) (confirmed : Option CredentialReference)
  /-- Devices and profiles change. -/
  | elsewhere (db : Database)

def step (s : State) : Event → Option State
  | .save faults unreadable updated replaceSecret replacement =>
    some (saveAsync faults unreadable updated replaceSecret replacement ⟨s, []⟩).2.state
  | .delete faults (some credential) => some (deleteCredentialAsync faults credential ⟨s, []⟩).2.state
  | .delete _ none => some s
  | .elsewhere db => if db.credentials.rows = s.db.credentials.rows then some { s with db := db } else none

def empty : State where
  db := Database.empty
  secrets _ := none
  permits := 1
  secretAttempted := false
  metadataAttempted := false

def machine : Machine State Event := ⟨(· = empty), step⟩

/-! ## The conditions -/

/-- Every id with a secret has metadata. -/
def NoOrphans (s : State) : Prop := ∀ id, s.secrets id ≠ none → s.db.credentials.find id ≠ none

/-- No compensating call throws. -/
def Compensated (s : State) : Event → Prop
  | .save faults unreadable updated replaceSecret replacement =>
    ∀ c ∈ (saveAsync faults unreadable updated replaceSecret replacement ⟨s, []⟩).2.calls,
      c.site.restores = true → c.threw = false
  | .delete faults (some credential) =>
    ∀ c ∈ (deleteCredentialAsync faults credential ⟨s, []⟩).2.calls, c.site = .restoreMetadata → c.threw = false
  | _ => True

/-- The first call of a deletion throws after it took effect. -/
def afterEffect : Fault Exn → Bool
  | .throws true _ => true
  | _ => false

/-- No deletion's first call throws after it took the metadata of a secret. -/
def KeepsMetadata (s : State) : Event → Prop
  | .delete faults (some credential) =>
    afterEffect (faults 0) = true → (deleteCredential credential.id s.db).isOk = true → s.secrets credential.id = none
  | _ => True

instance (s : State) (e : Event) : Decidable (Compensated s e) := by
  unfold Compensated
  split <;> infer_instance

instance (s : State) (e : Event) : Decidable (KeepsMetadata s e) := by
  unfold KeepsMetadata
  split <;> infer_instance

/-! ## One save -/

structure Good (s : State) : Prop where
  stored : Repository.StoredCredentials s.db
  owned : NoOrphans s

variable {s s' : State} {e : Event} {faults : Nat → Fault Exn} {unreadable : Option SecretStatus}
  {updated credential : CredentialReference} {replaceSecret : Bool} {replacement : Option Str}

/-- A save that returns was asked to store valid metadata. -/
theorem saved_valid (h : (saveAsync faults unreadable updated replaceSecret replacement ⟨s, []⟩).1 = .ok ()) :
    Repository.invalidCredential updated = false := by
  by_contra hinvalid
  have hthrows : (saveAsync faults unreadable updated replaceSecret replacement ⟨s, []⟩).1 =
      .error (.other (.argument "Enter a valid credential label, username and authentication configuration.")) := by
    rw [Bool.not_eq_false] at hinvalid
    unfold saveAsync throwIf
    rw [if_pos hinvalid]
    rfl
  rw [hthrows] at h
  cases h

theorem Good.congr {t : State} (hs : Good s) (hdb : t.db = s.db) (hsecrets : t.secrets = s.secrets) : Good t := by
  refine ⟨hdb ▸ hs.stored, ?_⟩
  unfold NoOrphans
  rw [hdb, hsecrets]
  exact hs.owned

/-- At most the metadata of `id` is missing. -/
structure Pending (id : Guid) (s : State) : Prop where
  stored : Repository.StoredCredentials s.db
  others : ∀ i ≠ id, s.secrets i ≠ none → s.db.credentials.find i ≠ none

theorem Good.pending (hs : Good s) (id : Guid) : Pending id s := ⟨hs.stored, fun i _ => hs.owned i⟩

theorem Pending.good {id : Guid} (hs : Pending id s) (hnone : s.secrets id = none) : Good s := by
  refine ⟨hs.stored, ?_⟩
  intro i hi
  by_cases he : i = id
  · exact absurd hnone (he ▸ hi)
  · exact hs.others i he hi

/-- Metadata that is stored has its row, whatever its secret. -/
theorem Pending.upsert {t : State} {c : CredentialReference} (hs : Pending c.id s)
    (hsave : saveCredential c s.db = .ok t.db) (hsecrets : ∀ id ≠ c.id, t.secrets id = s.secrets id) : Good t := by
  refine ⟨Repository.saveCredential_stored hs.stored hsave, ?_⟩
  obtain ⟨-, hdb⟩ := Repository.saveCredential_ok hsave
  intro id hid
  rw [hdb]
  by_cases he : id = c.id
  · have hself : (s.db.upsertCredential (Repository.trimmed c)).credentials.find c.id = some (Repository.trimmed c) :=
      Table.find_upsert_self _ _
    rw [he, hself]
    exact Option.some_ne_none _
  · rw [hsecrets id he] at hid
    exact Table.find_upsert_ne_none _ (hs.others id he hid)

theorem save_good (hs : Good s) (hc : Compensated s (.save faults unreadable updated replaceSecret replacement)) :
    Good (saveAsync faults unreadable updated replaceSecret replacement ⟨s, []⟩).2.state := by
  have hvalid := @saved_valid s faults unreadable updated replaceSecret replacement
  have hatomic := @CredentialSaveService.saveAsync_spec faults unreadable s updated replaceSecret replacement hs.stored
  unfold Eff.wp at hatomic
  have hrestored : ∀ c ∈ (saveAsync faults unreadable updated replaceSecret replacement ⟨s, []⟩).2.calls,
      c.site.restores = true → c.threw = false := hc
  generalize saveAsync faults unreadable updated replaceSecret replacement ⟨s, []⟩ = res at hvalid hatomic hrestored ⊢
  obtain ⟨r, w⟩ := res
  rcases r with (b | x) | ⟨⟩
  · obtain ⟨hcalls, hsame⟩ := hatomic
    cases b with
    | false =>
      obtain ⟨hdb, hsecrets⟩ := hsame rfl
      exact hs.congr hdb hsecrets
    | true =>
      -- it asks for repair: a compensating call threw
      obtain ⟨c, hmem, hthrew⟩ := List.any_eq_true.mp hcalls
      obtain ⟨hrestores, hthrew⟩ := Bool.and_eq_true_iff.mp hthrew
      cases (hrestored c hmem hrestores).symm.trans hthrew
  · exact hs.congr hatomic.db hatomic.secrets
  · obtain ⟨-, hdb, hsecrets⟩ := hatomic
    refine (hs.pending updated.id).upsert ?_ ?_
    · unfold saveCredential Repository.checkCredential throwIf
      rw [hvalid rfl, hdb]
      rfl
    · intro id hid
      rw [hsecrets]
      split
      · exact Function.update_of_ne hid _ _
      · rfl

/-! ## One deletion -/

theorem deleteCredential_cases {id : Guid} {db db' : Database} (h : deleteCredential id db = .ok db') :
    (db.credentials.find id = none ∧ db' = db) ∨ db' = { db with credentials := db.credentials.delete id } :=
  (Database.deleteCredential_ok (Repository.constraintAsInUse_ok h)).imp_right And.right

theorem Good.deleted {id : Guid} {db : Database} (hs : Good s) (h : deleteCredential id s.db = .ok db) :
    Pending id { s with db := db } := by
  rcases deleteCredential_cases h with ⟨-, rfl⟩ | rfl
  · exact hs.pending id
  · refine ⟨fun c hc => hs.stored c (Table.mem_delete.mp hc).1, ?_⟩
    intro i hne hi
    show (s.db.credentials.delete id).find i ≠ none
    rw [Table.find_delete_ne _ hne]
    exact hs.owned i hi

/-- A call to the database changes nothing, or takes its step. -/
theorem onDatabase_cases (f : Database → Except Exn Database) (s : State) :
    (∃ e, f s.db = .error e ∧ onDatabase f s = (.error e, s)) ∨
      ∃ db, f s.db = .ok db ∧ onDatabase f s = (.ok (), { s with db := db }) := by
  unfold onDatabase
  rcases f s.db with e | db
  · exact Or.inl ⟨e, rfl, rfl⟩
  · exact Or.inr ⟨db, rfl, rfl⟩

/-- Either no secret is without its metadata, or a compensating call threw. -/
def Settled (w : World State Site) : Prop :=
  Good w.state ∨ ∃ c ∈ w.calls, c.site = .restoreMetadata ∧ c.threw = true

theorem restore_spec {w : World State Site} (hw : Pending credential.id w.state) :
    (call faults .restoreMetadata (onDatabase (saveCredential credential))).wp (fun _ w' => Settled w') w := by
  refine wp_call ?_ ?_
  · rcases onDatabase_cases (saveCredential credential) w.state with ⟨e, -, hrun⟩ | ⟨db, hsave, hrun⟩
    · rw [hrun]
      exact Or.inr ⟨_, List.mem_append_right _ (List.mem_singleton.mpr rfl), rfl, rfl⟩
    · rw [hrun]
      exact Or.inl (hw.upsert hsave fun _ _ => rfl)
  · intro _ _ _
    exact Or.inr ⟨_, List.mem_append_right _ (List.mem_singleton.mpr rfl), rfl, rfl⟩

/-- What a deletion does once the metadata is gone. -/
theorem secret_spec {w : World State Site} (hw : Pending credential.id w.state) :
    (tryCatch (call faults .secret (setSecret credential.id none)) fun e => (do
      call faults .restoreMetadata (onDatabase (saveCredential credential))
      throw e : Op Unit)).wp (fun _ w' => Settled w') w := by
  have hcleared : Good (setSecret credential.id none w.state).2 := by
    refine @Pending.good _ credential.id ⟨hw.stored, ?_⟩ (Function.update_self _ _ _)
    intro i hne hi
    rw [show (setSecret credential.id none w.state).2.secrets i = w.state.secrets i from
      Function.update_of_ne hne _ _] at hi
    exact hw.others i hne hi
  rw [Eff.wp_tryCatch]
  refine wp_call (Or.inl hcleared) ?_
  intro tookEffect e _
  have hpending : Pending credential.id (if tookEffect then (setSecret credential.id none w.state).2 else w.state) := by
    cases tookEffect
    · exact hw
    · exact hcleared.pending _
  show Eff.wp (_ >>= _) _ _
  rw [Eff.wp_bind]
  refine Eff.wp_mono (restore_spec hpending) ?_
  intro r w' hw'
  cases r <;> exact hw'

theorem delete_spec (hs : Good s) (hk : KeepsMetadata s (.delete faults (some credential))) :
    (deleteCredentialAsync faults credential).wp (fun _ w => Settled w) ⟨s, []⟩ := by
  unfold deleteCredentialAsync
  rw [Eff.wp_bind]
  rcases onDatabase_cases (deleteCredential credential.id) s with ⟨e, -, hrun⟩ | ⟨db, hdelete, hrun⟩
  · -- a refused deletion changes nothing, thrown or not
    refine wp_call ?_ ?_
    · rw [hrun]
      exact Or.inl hs
    · intro tookEffect _ _
      rw [hrun]
      cases tookEffect <;> exact Or.inl hs
  · refine wp_call ?_ ?_
    · rw [hrun]
      show Eff.wp (_ >>= _) _ _
      rw [Eff.wp_bind]
      refine Eff.wp_mono (secret_spec (hs.deleted hdelete)) ?_
      intro r w hw
      have hcalls : ∀ threw, Settled ⟨w.state, w.calls ++ [⟨.load, threw⟩]⟩ := by
        intro threw
        refine hw.imp_right ?_
        intro ⟨c, hmem, hc⟩
        exact ⟨c, List.mem_append_left _ hmem, hc⟩
      cases r with
      | error e => exact hw
      | ok =>
        refine wp_call (hcalls _) ?_
        intro tookEffect _ _
        cases tookEffect <;> exact hcalls true
    · intro tookEffect e hfault
      rw [hrun]
      cases tookEffect with
      | false => exact Or.inl hs
      | true =>
        have hfirst : faults 0 = .throws true e := hfault
        have hnone : s.secrets credential.id = none := hk (by rw [hfirst]; rfl) (by rw [hdelete]; rfl)
        exact Or.inl ((hs.deleted hdelete).good hnone)

theorem delete_good (hs : Good s) (hc : Compensated s (.delete faults (some credential)))
    (hk : KeepsMetadata s (.delete faults (some credential))) :
    Good (deleteCredentialAsync faults credential ⟨s, []⟩).2.state := by
  rcases delete_spec hs hk with h | ⟨c, hmem, hsite, hthrew⟩
  · exact h
  · cases (hc c hmem hsite).symm.trans hthrew

/-- A deletion whose first call throws after it took effect leaves the secret behind. -/
theorem delete_orphans (hk : ¬ KeepsMetadata s (.delete faults (some credential))) :
    ¬ NoOrphans (deleteCredentialAsync faults credential ⟨s, []⟩).2.state := by
  unfold KeepsMetadata at hk
  simp only [Classical.not_imp] at hk
  obtain ⟨hafter, hok, hsecret⟩ := hk
  rcases onDatabase_cases (deleteCredential credential.id) s with ⟨e, herror, -⟩ | ⟨db, hdelete, hrun⟩
  · rw [herror] at hok
    cases hok
  · have hthrows : ∃ e, faults 0 = .throws true e := by
      unfold afterEffect at hafter
      split at hafter
      · exact ⟨_, ‹_›⟩
      · cases hafter
    obtain ⟨e, hfirst⟩ := hthrows
    have hleft : deleteCredentialAsync faults credential ⟨s, []⟩ =
        (.error e, ⟨{ s with db := db }, [⟨.metadata, true⟩]⟩) := by
      refine Eff.bind_error ((call_throws hfirst).trans ?_)
      rw [hrun]
      rfl
    rw [hleft]
    intro howned
    refine howned credential.id hsecret ?_
    rcases deleteCredential_cases hdelete with ⟨hnone, rfl⟩ | rfl
    · exact hnone
    · refine (Table.find_none_iff _ _).mpr ?_
      intro c hc
      exact (Table.mem_delete.mp hc).2

/-! ## Runs -/

theorem step_good (hs : Good s) (hc : Compensated s e) (hk : KeepsMetadata s e) (h : step s e = some s') : Good s' := by
  cases e with
  | save =>
    cases h
    exact save_good hs hc
  | delete faults confirmed =>
    cases confirmed with
    | none =>
      cases h
      exact hs
    | some credential =>
      cases h
      exact delete_good hs hc hk
  | elsewhere db =>
    by_cases hrows : db.credentials.rows = s.db.credentials.rows
    · rw [step, if_pos hrows] at h
      cases h
      have hsame : db.credentials = s.db.credentials := Table.ext hrows
      refine ⟨?_, ?_⟩
      · unfold Repository.StoredCredentials
        rw [hsame]
        exact hs.stored
      · intro id hid
        show db.credentials.find id ≠ none
        rw [hsame]
        exact hs.owned id hid
    · rw [step, if_neg hrows] at h
      cases h

theorem empty_good : Good empty := ⟨fun _ hc => (nomatch hc), fun _ hid => absurd rfl hid⟩

/-- No secret is without its metadata in any state of a run whose compensating calls do
    not throw, exactly if no deletion's first call took the metadata of a secret and threw. -/
theorem no_orphans_iff {log : List (State × Event)} {s : State} (hrun : machine.Runs log s)
    (hc : Machine.Throughout Compensated log) :
    (∀ t, Machine.Passes log s t → NoOrphans t) ↔ Machine.Throughout KeepsMetadata log := by
  constructor
  · intro hall p hp
    obtain ⟨t, e⟩ := p
    by_contra hk
    cases e with
    | save => exact hk trivial
    | elsewhere => exact hk trivial
    | delete faults confirmed =>
      cases confirmed with
      | none => exact hk trivial
      | some credential => exact delete_orphans hk (hall _ (hrun.next hp rfl))
  · intro hk t ht
    have hok : Machine.Throughout (fun s e => Compensated s e ∧ KeepsMetadata s e) log :=
      fun p hp => ⟨hc p hp, hk p hp⟩
    have hgood : Good t := by
      refine hrun.inv_passes ?_ ?_ hok ht
      · intro s hs
        cases hs
        exact empty_good
      · intro s e s' hs hok h
        exact step_good hs hok.1 hok.2 h
    exact hgood.owned

/-! ## A secret that cannot be deleted, and one that is left behind -/

def root : CredentialReference := { id := 3, displayLabel := str "NAS root", username := str "root" }

def faultAt (n : Nat) (tookEffect : Bool) (k : Nat) : Fault Exn :=
  if k = n then .throws tookEffect (.sqlite 10 "disk I/O error") else .none

def saved : Event := .save (fun _ => .none) none root true (some (str "secret"))

/-- The secret stays, so its metadata is put back. -/
theorem kept_secret_has_metadata : ∃ log s, machine.Runs log s ∧ (∀ t, Machine.Passes log s t → NoOrphans t) ∧
    s.secrets 3 = some (str "secret") ∧ s.db.credentials.find 3 = some root := by
  obtain ⟨log, s, hrun, hok, hp⟩ := machine.exists_run (fun s e => Compensated s e ∧ KeepsMetadata s e)
    (fun s => decide (s.secrets 3 = some (str "secret")) && decide (s.db.credentials.find 3 = some root))
    [saved, .delete (faultAt 1 false) (some root)] rfl (by decide +kernel)
  have hkept := (no_orphans_iff hrun fun p hp => (hok p hp).1).mpr fun p hp => (hok p hp).2
  simp only [Bool.and_eq_true, decide_eq_true_eq] at hp
  exact ⟨log, s, hrun, hkept, hp⟩

/-- The metadata goes, the call throws, and the secret stays. -/
theorem secret_left_behind : ¬ ∀ log s, machine.Runs log s → Machine.Throughout Compensated log → NoOrphans s := by
  intro hall
  obtain ⟨log, s, hrun, hok, hp⟩ := machine.exists_run Compensated
    (fun s => decide (s.secrets 3 ≠ none) && decide (s.db.credentials.find 3 = none))
    [saved, .delete (faultAt 0 true) (some root)] rfl (by decide +kernel)
  simp only [Bool.and_eq_true, decide_eq_true_eq] at hp
  exact hall log s hrun hok 3 hp.1 hp.2

end MythLab.App.CredentialDeletion
