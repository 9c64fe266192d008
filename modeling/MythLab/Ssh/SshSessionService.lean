/-
  MythLab.Ssh.SshSessionService — connecting to an SSH server whose identity is known, or
  reviewed by the user.

  One connection is at most two attempts. An attempt reads the known hosts and the secret,
  connects, records the identity it approved (`TrustAsync`) and opens the shell; while its
  client lives the server may present a key at any time (`hostKey`), which the handler
  judges by the attempt's own variables. When the first attempt ends with an unknown
  identity the user is asked, and an accepted identity is passed to the second attempt as
  `reviewed`. The token may be cancelled and the known-hosts file edited at any time, and
  any call may throw.

  `read` of an attempt, and `decisions`, are history: the list read at its start, and what
  the handler decided.

  Proved (`connect_safe`), for every run: the handler trusts an identity only if the list
  read at the start of the attempt records it, or if it is the one the user accepted and
  that list records nothing for the host and port; after a refusal or a cancellation there
  is no second attempt; `TrustAsync` is called only with an identity the handler trusted,
  after the connection succeeded, and all it ever does to the file is append it.
-/
import MythLab.Lib.Machine
import MythLab.Connections.ConnectionProfile
import MythLab.Devices.Device
import MythLab.Ssh.KnownHosts

namespace MythLab.Ssh.SshSessionService

open Lib Dotnet Devices Connections Credentials KnownHosts

/-! ## States -/

/-- The variables of `ConnectAttemptAsync`. -/
structure Attempt where
  reviewed : Option KnownHost
  read : List KnownHost := []
  known : List KnownHost := []
  approved : Option KnownHost := none
  rejected : Option HostTrust := none
  needsReview : Option KnownHost := none

inductive Failure where
  | exn (e : Exn)
  | reviewRequired (host : KnownHost)
  deriving DecidableEq, Repr

inductive Phase where
  | listing
  | readingSecret
  | connecting
  | trusting (host : KnownHost)
  | openingShell
  | reviewing (host : KnownHost)
  | connected
  | failed (failure : Failure)
  deriving DecidableEq, Repr

/-- The client exists and is not disposed. -/
def Phase.hasClient : Phase → Bool
  | .connecting | .trusting _ | .openingShell | .connected => true
  | _ => false

/-- The code that runs is inside the `try` of the attempt. -/
def Phase.inTry : Phase → Bool
  | .connecting | .trusting _ | .openingShell => true
  | _ => false

/-- One call of the host-key handler. -/
structure Decision where
  read : List KnownHost
  reviewed : Option KnownHost
  incoming : KnownHost
  canTrust : Bool

structure State where
  file : List KnownHost
  cancelled : Bool
  phase : Phase
  attempt : Attempt
  decisions : List Decision

inductive Event where
  | cancel
  | edit (entries : List KnownHost)
  /-- `ListAsync` returns. -/
  | list
  /-- `ReadAsync` of the credential store returns. -/
  | secret (value : Option Str)
  | readThrows (e : Exn)
  | hostKey (algorithm : Str) (key : List UInt8)
  /-- `client.ConnectAsync` returns. -/
  | connected
  /-- `TrustAsync` comes to its update. -/
  | trust
  | openShell
  /-- The call that is running throws; a `TrustAsync` has not replaced the file then. -/
  | throws (e : Exn)
  | answer (accepted : Bool)
  | reviewThrows (e : Exn)
  deriving DecidableEq, Repr

/-! ## The service -/

def evaluateIdentity (known : List KnownHost) (incoming : KnownHost) (reviewed : Option KnownHost) : HostTrust :=
  if reviewed ≠ none ∧ reviewed ≠ some incoming then .changed else evaluate known incoming

/-- `e.CanTrust` -/
def canTrust (s : State) (incoming : KnownHost) : Bool :=
  let trust := evaluateIdentity s.attempt.known incoming s.attempt.reviewed
  !s.cancelled && (trust = .trusted || trust = .unknown && s.attempt.reviewed = some incoming)

/-- The `HostKeyReceived` handler. -/
def onHostKey (s : State) (incoming : KnownHost) : State :=
  let a := s.attempt
  let trust := evaluateIdentity a.known incoming a.reviewed
  { s with
    attempt := { a with
      needsReview := if trust = .unknown ∧ a.reviewed = none ∧ s.cancelled = false then some incoming else a.needsReview
      approved := if canTrust s incoming then some incoming else a.approved
      rejected := if canTrust s incoming then a.rejected else some trust }
    decisions := s.decisions ++ [⟨a.read, a.reviewed, incoming, canTrust s incoming⟩] }

def fail (s : State) (failure : Failure) : State := { s with phase := .failed failure }

/-- What the attempt throws for what was thrown inside its `try`. -/
def translated (rejected : Option HostTrust) (e : Exn) : Exn :=
  match rejected, e with
  | some .changed, _ =>
    .hostIdentity "SSH host key changed. Connection rejected. Verify the new fingerprint before removing the old trusted host."
  | some _, _ => .hostIdentity "The unknown SSH host key was not trusted."
  | none, .sshAuthentication _ =>
    .invalidOperation "SSH authentication failed. Check the username and replace the saved password/passphrase or key."
  | none, .operationCanceled => .timeout "SSH connection timed out."
  | none, e => e

/-- The `catch` of the attempt, and that of `ConnectAsync`, which the first attempt alone
    is under. -/
def onException (s : State) (e : Exn) : State :=
  if s.cancelled then fail s (.exn .operationCanceled)
  else match s.attempt.needsReview with
    | some host =>
      if s.attempt.reviewed = none then { s with phase := .reviewing host } else fail s (.reviewRequired host)
    | none => fail s (.exn (translated s.attempt.rejected e))

/-- `[.. known.Where(k => k.Host != approved.Host || k.Port != approved.Port), approved]` -/
def replaced (known : List KnownHost) (approved : KnownHost) : List KnownHost :=
  (known.filter fun k => k.host ≠ approved.host ∨ k.port ≠ approved.port) ++ [approved]

/-- `TrustAsync` has replaced the file. -/
def onTrusted (s : State) (entries : List KnownHost) : State :=
  { s with
    file := entries
    phase := .openingShell
    attempt := { s.attempt with
      known := match s.attempt.approved with
        | some approved => replaced s.attempt.known approved
        | none => s.attempt.known } }

def onAnswer (s : State) (host : KnownHost) (accepted : Bool) : State :=
  if s.cancelled then fail s (.exn .operationCanceled)
  else if accepted then { s with phase := .listing, attempt := { reviewed := some host } }
  else fail s (.exn (.hostIdentity "The unknown SSH host key was not trusted."))

section Service

variable (fw : Framework) (device : Device) (profile : ConnectionProfile) (credential : CredentialReference)

def validProfile : Bool :=
  profile.kind = .ssh && profile.credentialId = some credential.id &&
    (profile.port.any fun port => 1 ≤ port && port ≤ 65535) && 5 ≤ profile.timeoutSeconds &&
    profile.timeoutSeconds ≤ 300

/-- The identity of a key the server presents. -/
def incoming (algorithm : Str) (key : List UInt8) : KnownHost :=
  identify fw device.endpoint (profile.port.getD 0) algorithm key

def onSecret (s : State) (value : Option Str) : State :=
  if credential.authentication = .password ∧ value = none then fail s (.exn (.credentialStore .missing))
  else if s.cancelled then fail s (.exn .operationCanceled)
  else { s with phase := .connecting }

def onConnected (s : State) : State :=
  match s.attempt.approved with
  | some approved => { s with phase := .trusting approved }
  | none => onException s (.hostIdentity "No approved SSH identity was received.")

def onTrust (s : State) (host : KnownHost) : State :=
  match trust host s.file with
  | .ok entries => onTrusted s entries
  | .error e => onException s e

def onOpenShell (s : State) : State :=
  if s.cancelled then onException s .operationCanceled else { s with phase := .connected }

def step (s : State) : Event → Option State
  | .cancel => some { s with cancelled := true }
  | .edit entries => some { s with file := entries }
  | .list =>
    if s.phase = .listing then
      some { s with
        phase := .readingSecret
        attempt := { reviewed := s.attempt.reviewed, read := s.file, known := s.file } }
    else none
  | .secret value => if s.phase = .readingSecret then some (onSecret credential s value) else none
  | .readThrows e => if s.phase = .listing ∨ s.phase = .readingSecret then some (fail s (.exn e)) else none
  | .hostKey algorithm key =>
    if s.phase.hasClient then some (onHostKey s (incoming fw device profile algorithm key)) else none
  | .connected => if s.phase = .connecting then some (onConnected s) else none
  | .trust =>
    match s.phase with
    | .trusting host => some (onTrust s host)
    | _ => none
  | .openShell => if s.phase = .openingShell then some (onOpenShell s) else none
  | .throws e => if s.phase.inTry then some (onException s e) else none
  | .answer accepted =>
    match s.phase with
    | .reviewing host => some (onAnswer s host accepted)
    | _ => none
  | .reviewThrows e =>
    match s.phase with
    | .reviewing _ => some (fail s (.exn e))
    | _ => none

/-- `ConnectAsync` is called, with any known-hosts file and any token. -/
def Start (s : State) : Prop :=
  s.phase = (if validProfile profile credential then .listing else .failed (.exn (.argument "Invalid SSH profile."))) ∧
    s.attempt = { reviewed := none } ∧ s.decisions = []

def session : Machine State Event := ⟨Start profile credential, step fw device profile credential⟩

end Service

/-! ## What the handler trusts -/

/-- The list read at the start of the attempt records the identity; or the user has
    accepted it, and that list records nothing for its host and port. -/
def Earned (read : List KnownHost) (reviewed : Option KnownHost) (k : KnownHost) : Prop :=
  Recorded read k ∨ (reviewed = some k ∧ matching read k = [])

theorem recorded_congr {known : List KnownHost} {a k : KnownHost} (h : Recorded known a) (hhost : a.host = k.host)
    (hport : a.port = k.port) (hkey : sameKey a k) : Recorded known k := by
  obtain ⟨m, hm, ha⟩ := h
  have hmatch : matching known a = matching known k := by simp only [matching, hhost, hport]
  refine ⟨m, hmatch ▸ hm, ?_⟩
  simp only [sameKey, decide_eq_true_eq] at ha hkey ⊢
  exact ⟨ha.1.trans hkey.1, ha.2.trans hkey.2⟩

/-- After the replacement, the approved identity is the one record for its host and port. -/
theorem matching_replaced (known : List KnownHost) {a k : KnownHost} (hhost : a.host = k.host)
    (hport : a.port = k.port) : matching (replaced known a) k = [a] := by
  have hrest : (known.filter fun m => m.host ≠ a.host ∨ m.port ≠ a.port).filter
      (fun m => m.host = k.host ∧ m.port = k.port) = [] := by
    refine List.filter_eq_nil_iff.mpr ?_
    intro m hm
    have hne : m.host ≠ a.host ∨ m.port ≠ a.port := by simpa using (List.mem_filter.mp hm).2
    simp only [decide_eq_true_eq]
    intro ⟨h1, h2⟩
    rcases hne with hne | hne
    · exact hne (h1.trans hhost.symm)
    · exact hne (h2.trans hport.symm)
  unfold matching replaced
  rw [List.filter_append, hrest]
  simp [hhost, hport]

/-- `evaluateIdentity` answers other than `changed` only for the reviewed identity, when
    there is one. -/
theorem evaluateIdentity_ne_changed {known : List KnownHost} {k : KnownHost} {reviewed : Option KnownHost}
    (h : evaluateIdentity known k reviewed ≠ .changed) :
    (reviewed = none ∨ reviewed = some k) ∧ evaluateIdentity known k reviewed = evaluate known k := by
  unfold evaluateIdentity at h ⊢
  split
  · rename_i hc
    exact absurd (if_pos hc) h
  · rename_i hc
    refine ⟨?_, rfl⟩
    by_cases hn : reviewed = none
    · exact Or.inl hn
    · exact Or.inr (not_not.mp fun hk => hc ⟨hn, hk⟩)

section Attempts

variable {host : Str} {port : Int}

/-- What the list an attempt judges by may say, of identities at `host` and `port`: no
    more than the list it read, and the reviewed identity where that one has no record. -/
structure Attempt.Sound (host : Str) (port : Int) (a : Attempt) : Prop where
  trusted : ∀ k, k.host = host → k.port = port → Recorded a.known k →
    Recorded a.read k ∨ ∃ r, a.reviewed = some r ∧ matching a.read r = []
  unknown : ∀ k, k.host = host → k.port = port → matching a.known k = [] → matching a.read k = []
  approved : ∀ k, a.approved = some k → k.host = host ∧ k.port = port ∧ Earned a.read a.reviewed k

theorem Attempt.Sound.fresh (reviewed : Option KnownHost) (known : List KnownHost) :
    Attempt.Sound host port { reviewed := reviewed, read := known, known := known } :=
  ⟨fun _ _ _ h => Or.inl h, fun _ _ _ h => h, fun _ h => nomatch h⟩

/-- The rule of the handler. -/
theorem canTrust_earned {s : State} {k : KnownHost} (hs : s.attempt.Sound host port) (hhost : k.host = host)
    (hport : k.port = port) (h : canTrust s k = true) :
    Earned s.attempt.read s.attempt.reviewed k ∧ (s.attempt.reviewed = none ∨ s.attempt.reviewed = some k) := by
  simp only [canTrust, Bool.and_eq_true, Bool.or_eq_true, decide_eq_true_eq] at h
  obtain ⟨-, htrust⟩ := h
  have hne : evaluateIdentity s.attempt.known k s.attempt.reviewed ≠ .changed := by
    rcases htrust with ht | ⟨ht, -⟩ <;> rw [ht] <;> decide
  obtain ⟨hreviewed, heq⟩ := evaluateIdentity_ne_changed hne
  rw [heq] at htrust
  refine ⟨?_, hreviewed⟩
  rcases htrust with ht | ⟨ht, hk⟩
  · rcases hs.trusted k hhost hport (evaluate_trusted.mp ht) with hr | ⟨r, hr, hnone⟩
    · exact Or.inl hr
    · rcases hreviewed with hn | hk
      · rw [hn] at hr; cases hr
      · rw [hk] at hr; cases hr
        exact Or.inr ⟨hk, hnone⟩
  · exact Or.inr ⟨hk, hs.unknown k hhost hport (evaluate_unknown.mp ht)⟩

theorem Attempt.Sound.onHostKey {s : State} {k : KnownHost} (hs : s.attempt.Sound host port) (hhost : k.host = host)
    (hport : k.port = port) : (onHostKey s k).attempt.Sound host port := by
  refine ⟨hs.trusted, hs.unknown, ?_⟩
  intro k' hk'
  simp only [SshSessionService.onHostKey] at hk'
  split at hk'
  · rename_i hc
    cases hk'
    exact ⟨hhost, hport, (canTrust_earned hs hhost hport hc).1⟩
  · exact hs.approved k' hk'

theorem Attempt.Sound.onTrusted {s : State} (hs : s.attempt.Sound host port) (entries : List KnownHost) :
    (onTrusted s entries).attempt.Sound host port := by
  unfold SshSessionService.onTrusted
  rcases ha : s.attempt.approved with _ | a
  · exact ⟨hs.trusted, hs.unknown, fun k hk => by rw [ha] at hk; cases hk⟩
  · obtain ⟨hhost, hport, hearned⟩ := hs.approved a ha
    refine ⟨?_, ?_, hs.approved⟩
    · intro k hk hp hr
      have hm := matching_replaced s.attempt.known (hhost.trans hk.symm) (hport.trans hp.symm)
      obtain ⟨m, hmem, hkey⟩ := hr
      rw [hm, List.mem_singleton] at hmem
      rw [hmem] at hkey
      rcases hearned with he | ⟨he, hnone⟩
      · exact Or.inl (recorded_congr he (hhost.trans hk.symm) (hport.trans hp.symm) hkey)
      · exact Or.inr ⟨a, he, hnone⟩
    · intro k hk hp hn
      have hm := matching_replaced s.attempt.known (hhost.trans hk.symm) (hport.trans hp.symm)
      simp [hm] at hn

end Attempts

/-! ## What a step does -/

section Steps

variable {fw : Framework} {device : Device} {profile : ConnectionProfile} {credential : CredentialReference}

/-- The steps of a connection, each with what it asks of the state before. -/
inductive Does (fw : Framework) (device : Device) (profile : ConnectionProfile) : State → Event → State → Prop
  | cancel (s : State) : Does fw device profile s .cancel { s with cancelled := true }
  | edit (s : State) (entries : List KnownHost) : Does fw device profile s (.edit entries) { s with file := entries }
  | list (s : State) : s.phase = .listing → Does fw device profile s .list { s with
      phase := .readingSecret
      attempt := { reviewed := s.attempt.reviewed, read := s.file, known := s.file } }
  | secret (s : State) (value : Option Str) : s.phase = .readingSecret →
      Does fw device profile s (.secret value) { s with phase := .connecting }
  | hostKey (s : State) (algorithm : Str) (key : List UInt8) : s.phase.hasClient = true →
      Does fw device profile s (.hostKey algorithm key) (onHostKey s (incoming fw device profile algorithm key))
  | connected (s : State) (k : KnownHost) : s.phase = .connecting → s.attempt.approved = some k →
      Does fw device profile s .connected { s with phase := .trusting k }
  | trust (s : State) (k : KnownHost) (entries : List KnownHost) : s.phase = .trusting k →
      trust k s.file = .ok entries → Does fw device profile s .trust (onTrusted s entries)
  | openShell (s : State) : s.phase = .openingShell →
      Does fw device profile s .openShell { s with phase := .connected }
  | review (s : State) (e : Event) (k : KnownHost) : s.phase.inTry = true → (∀ b, e ≠ .answer b) →
      s.attempt.reviewed = none →
      Does fw device profile s e { s with phase := .reviewing k }
  | accept (s : State) (k : KnownHost) : s.phase = .reviewing k → s.cancelled = false →
      Does fw device profile s (.answer true) { s with phase := .listing, attempt := { reviewed := some k } }
  | refuse (s : State) (k : KnownHost) (b : Bool) (f : Failure) : s.phase = .reviewing k →
      Does fw device profile s (.answer b) (fail s f)
  | fail (s : State) (e : Event) (f : Failure) : (∀ b, e ≠ .answer b) → Does fw device profile s e (fail s f)

theorem onException_does {s : State} (hp : s.phase.inTry = true) {event : Event} (hevent : ∀ b, event ≠ .answer b)
    (e : Exn) : Does fw device profile s event (onException s e) := by
  unfold onException
  split
  · exact .fail s event _ hevent
  · split
    · split
      · rename_i hr
        exact .review s event _ hp hevent hr
      · exact .fail s event _ hevent
    · exact .fail s event _ hevent

theorem onConnected_does {s : State} (hp : s.phase = .connecting) :
    Does fw device profile s .connected (onConnected s) := by
  unfold onConnected
  split
  · rename_i k hk
    exact .connected s k hp hk
  · exact onException_does (by rw [hp]; rfl) (by intro b h; cases h) _

theorem onTrust_does {s : State} {k : KnownHost} (hp : s.phase = .trusting k) :
    Does fw device profile s .trust (onTrust s k) := by
  unfold onTrust
  split
  · rename_i entries ht
    exact .trust s k entries hp ht
  · exact onException_does (by rw [hp]; rfl) (by intro b h; cases h) _

theorem onSecret_does {s : State} (hp : s.phase = .readingSecret) (value : Option Str) :
    Does fw device profile s (.secret value) (onSecret credential s value) := by
  unfold onSecret
  split
  · exact .fail s _ _ fun _ h => nomatch h
  · split
    · exact .fail s _ _ fun _ h => nomatch h
    · exact .secret s value hp

theorem onOpenShell_does {s : State} (hp : s.phase = .openingShell) :
    Does fw device profile s .openShell (onOpenShell s) := by
  unfold onOpenShell
  split
  · exact onException_does (by rw [hp]; rfl) (by intro b h; cases h) _
  · exact .openShell s hp

theorem onAnswer_does {s : State} {k : KnownHost} (hp : s.phase = .reviewing k) (b : Bool) :
    Does fw device profile s (.answer b) (onAnswer s k b) := by
  unfold onAnswer
  split
  · exact .refuse s k b _ hp
  · rename_i hc
    split
    · rename_i hb
      rw [hb]
      exact .accept s k hp (Bool.not_eq_true _ ▸ hc)
    · exact .refuse s k b _ hp

theorem step_does {s s' : State} {e : Event} (h : step fw device profile credential s e = some s') :
    Does fw device profile s e s' := by
  cases e with
  | cancel => cases h; exact .cancel s
  | edit entries => cases h; exact .edit s entries
  | list =>
    simp only [step] at h
    split at h <;> cases h
    exact .list s ‹_›
  | secret value =>
    simp only [step] at h
    split at h <;> cases h
    exact onSecret_does ‹_› value
  | readThrows e =>
    simp only [step] at h
    split at h <;> cases h
    exact .fail s _ _ fun _ h => nomatch h
  | hostKey algorithm key =>
    simp only [step] at h
    split at h <;> cases h
    exact .hostKey s algorithm key ‹_›
  | connected =>
    simp only [step] at h
    split at h <;> cases h
    exact onConnected_does ‹_›
  | trust =>
    simp only [step] at h
    split at h <;> cases h
    exact onTrust_does ‹_›
  | openShell =>
    simp only [step] at h
    split at h <;> cases h
    exact onOpenShell_does ‹_›
  | throws e =>
    simp only [step] at h
    split at h <;> cases h
    exact onException_does ‹_› (by intro b h; cases h) e
  | answer accepted =>
    simp only [step] at h
    split at h <;> cases h
    exact onAnswer_does ‹_› accepted
  | reviewThrows e =>
    simp only [step] at h
    split at h <;> cases h
    exact .fail s _ _ fun _ h => nomatch h

/-! ## Every run -/

/-- The handler has trusted `k` in the present attempt. -/
def HasTrusted (s : State) (k : KnownHost) : Prop :=
  ∃ d ∈ s.decisions, d.incoming = k ∧ d.canTrust = true ∧ d.reviewed = s.attempt.reviewed

/-- A trusting decision is earned, and in the second attempt it is about the reviewed
    identity. -/
def Decision.Safe (d : Decision) : Prop :=
  d.canTrust = true → Earned d.read d.reviewed d.incoming ∧ (d.reviewed = none ∨ d.reviewed = some d.incoming)

/-- `host` and `port` are those of every identity the server presents. -/
structure Inv (host : Str) (port : Int) (s : State) : Prop where
  sound : s.attempt.Sound host port
  decisions : ∀ d ∈ s.decisions, d.Safe
  approved : ∀ k, s.attempt.approved = some k → HasTrusted s k
  trusting : ∀ k, s.phase = .trusting k → HasTrusted s k
  reviewing : ∀ k, s.phase = .reviewing k → s.attempt.reviewed = none

/-- Changing the phase, the token or the file alone. -/
theorem Inv.of_same {host : Str} {port : Int} {s s' : State} (h : Inv host port s) (hattempt : s'.attempt = s.attempt)
    (hdecisions : s'.decisions = s.decisions) (htrusting : ∀ k, s'.phase = .trusting k → HasTrusted s k)
    (hreviewing : ∀ k, s'.phase = .reviewing k → s.attempt.reviewed = none) : Inv host port s' := by
  have htrusted : ∀ k, HasTrusted s k → HasTrusted s' k := by
    intro k ht
    unfold HasTrusted
    rw [hattempt, hdecisions]
    exact ht
  exact ⟨hattempt ▸ h.sound, hdecisions ▸ h.decisions, fun k hk => htrusted k (h.approved k (hattempt ▸ hk)),
    fun k hk => htrusted k (htrusting k hk), fun k hk => hattempt ▸ hreviewing k hk⟩

theorem Inv.onHostKey {s : State} {k : KnownHost} (h : Inv k.host k.port s) (hclient : s.phase.hasClient = true) :
    Inv k.host k.port (onHostKey s k) := by
  have hkeep : ∀ k', HasTrusted s k' → HasTrusted (SshSessionService.onHostKey s k) k' := by
    intro k' ⟨d, hd, hrest⟩
    exact ⟨d, List.mem_append_left _ hd, hrest⟩
  refine ⟨h.sound.onHostKey rfl rfl, ?_, ?_, fun k' hk' => hkeep k' (h.trusting k' hk'),
    ?_⟩
  · intro d hd
    rcases List.mem_append.mp hd with hd | hd
    · exact h.decisions d hd
    · rw [List.mem_singleton.mp hd]
      exact canTrust_earned h.sound rfl rfl
  · intro k' hk'
    simp only [SshSessionService.onHostKey] at hk'
    split at hk'
    · rename_i hc
      cases hk'
      exact ⟨_, List.mem_append_right _ (List.mem_singleton.mpr rfl), rfl, hc, rfl⟩
    · exact hkeep k' (h.approved k' hk')
  · intro k' hk'
    have hp : s.phase = .reviewing k' := hk'
    rw [hp] at hclient
    cases hclient

theorem does_inv {s s' : State} {e : Event} (hdoes : Does fw device profile s e s') {host : Str} {port : Int}
    (hid : ∀ algorithm key, (incoming fw device profile algorithm key).host = host ∧
      (incoming fw device profile algorithm key).port = port) (h : Inv host port s) : Inv host port s' := by
  cases hdoes with
  | cancel => exact h.of_same rfl rfl h.trusting h.reviewing
  | edit => exact h.of_same rfl rfl h.trusting h.reviewing
  | list hp =>
    exact ⟨.fresh _ _, h.decisions, fun k hk => (nomatch hk), fun k hk => (nomatch hk), fun k hk => (nomatch hk)⟩
  | secret value hp => exact h.of_same rfl rfl (fun k hk => (nomatch hk)) fun k hk => (nomatch hk)
  | hostKey algorithm key hc =>
    obtain ⟨rfl, rfl⟩ := hid algorithm key
    exact h.onHostKey hc
  | connected k hp hk =>
    refine h.of_same rfl rfl ?_ fun k' hk' => (nomatch hk')
    intro k' hk'
    cases hk'
    exact h.approved k hk
  | trust k entries hp ht =>
    exact ⟨h.sound.onTrusted entries, h.decisions, h.approved, fun k hk => (nomatch hk), fun k hk => (nomatch hk)⟩
  | openShell hp => exact h.of_same rfl rfl (fun k hk => (nomatch hk)) fun k hk => (nomatch hk)
  | review e k hp he hr => exact h.of_same rfl rfl (fun k hk => (nomatch hk)) fun _ _ => hr
  | accept k hp hc =>
    exact ⟨.fresh _ _, h.decisions, fun k hk => (nomatch hk), fun k hk => (nomatch hk), fun k hk => (nomatch hk)⟩
  | refuse k b f hp => exact h.of_same rfl rfl (fun k hk => (nomatch hk)) fun k hk => (nomatch hk)
  | fail e f he => exact h.of_same rfl rfl (fun k hk => (nomatch hk)) fun k hk => (nomatch hk)

end Steps

/-! ## The log of a run -/

abbrev Log := List (State × Event)

/-- The user refused, or the token was cancelled while no second attempt had begun. -/
def Stopped (log : Log) : Prop :=
  ∃ p ∈ log, p.2 = .answer false ∨ (p.1.cancelled = true ∧ p.1.attempt.reviewed = none)

/-- No second attempt has begun, and none can. -/
def Over (s : State) : Prop := s.attempt.reviewed = none ∧ (s.cancelled = true ∨ ∃ f, s.phase = .failed f)

/-- The attempt for `reviewed` read `known` from the file. -/
def Listed (log : Log) (reviewed : Option KnownHost) (known : List KnownHost) : Prop :=
  ∃ p ∈ log, p.2 = .list ∧ p.1.file = known ∧ p.1.attempt.reviewed = reviewed

/-- The user was shown `k` and accepted it, the token not cancelled. -/
def Accepted (log : Log) (k : KnownHost) : Prop :=
  ∃ p ∈ log, p.1.phase = .reviewing k ∧ p.2 = .answer true ∧ p.1.cancelled = false

/-- The connection succeeded with `k` approved. -/
def ConnectedTo (log : Log) (k : KnownHost) : Prop :=
  ∃ p ∈ log, p.1.phase = .connecting ∧ p.2 = .connected ∧ p.1.attempt.approved = some k

theorem carried {P : State × Event → Prop} {log : Log} (h : ∃ p ∈ log, P p) (q : State × Event) :
    ∃ p ∈ log ++ [q], P p := by
  obtain ⟨p, hp, h⟩ := h
  exact ⟨p, List.mem_append_left _ hp, h⟩

theorem newest {P : State × Event → Prop} {log : Log} {q : State × Event} (h : P q) : ∃ p ∈ log ++ [q], P p :=
  ⟨q, List.mem_append_right _ (List.mem_singleton.mpr rfl), h⟩

section Logs

variable {fw : Framework} {device : Device} {profile : ConnectionProfile} {credential : CredentialReference}
  {log : Log} {s s' : State} {e : Event}

theorem Over.cancelled (h : Over s) (hp : ∀ f, s.phase ≠ .failed f) : s.cancelled = true := by
  rcases h.2 with hc | ⟨f, hf⟩
  · exact hc
  · exact absurd hf (hp f)

/-- An over connection stays over. -/
theorem does_over (hdoes : Does fw device profile s e s') (h : Over s) : Over s' := by
  cases hdoes with
  | cancel => exact ⟨h.1, Or.inl rfl⟩
  | edit => exact h
  | list hp => exact ⟨h.1, Or.inl (h.cancelled (by simp [hp]))⟩
  | secret value hp => exact ⟨h.1, Or.inl (h.cancelled (by simp [hp]))⟩
  | hostKey algorithm key hc => exact h
  | connected k hp hk => exact ⟨h.1, Or.inl (h.cancelled (by simp [hp]))⟩
  | trust k entries hp ht => exact ⟨h.1, Or.inl (h.cancelled (by simp [hp]))⟩
  | openShell hp => exact ⟨h.1, Or.inl (h.cancelled (by simp [hp]))⟩
  | review e k hp he hr => exact ⟨h.1, Or.inl (h.cancelled fun f hf => by rw [hf] at hp; cases hp)⟩
  | accept k hp hc =>
    have hcancelled := h.cancelled (by simp [hp])
    simp [hc] at hcancelled
  | refuse k b f hp => exact ⟨h.1, Or.inr ⟨f, rfl⟩⟩
  | fail e f he => exact ⟨h.1, Or.inr ⟨f, rfl⟩⟩

theorem does_stopped (hdoes : Does fw device profile s e s')
    (hreviewing : ∀ k, s.phase = .reviewing k → s.attempt.reviewed = none) (h : Stopped log → Over s)
    (hstop : Stopped (log ++ [(s, e)])) : Over s' := by
  obtain ⟨p, hp, hwhy⟩ := hstop
  rcases List.mem_append.mp hp with hp | hp
  · exact does_over hdoes (h ⟨p, hp, hwhy⟩)
  · obtain rfl := List.mem_singleton.mp hp
    rcases hwhy with rfl | ⟨hc, hr⟩
    · cases hdoes with
      | refuse k b f hp => exact ⟨hreviewing k hp, Or.inr ⟨f, rfl⟩⟩
      | review e k hp he hr => exact absurd rfl (he false)
      | fail e f he => exact absurd rfl (he false)
    · exact does_over hdoes ⟨hr, Or.inl hc⟩

/-- What the log says of the state it leads to. -/
structure LogInv (log : Log) (s : State) : Prop where
  stopped : Stopped log → Over s
  listed : s.phase = .readingSecret ∨ s.phase.hasClient = true → Listed log s.attempt.reviewed s.attempt.read
  accepted : ∀ k, s.attempt.reviewed = some k → Accepted log k
  decisions : ∀ d ∈ s.decisions, Listed log d.reviewed d.read ∧ ∀ k, d.reviewed = some k → Accepted log k
  trusting : ∀ k, s.phase = .trusting k → ConnectedTo log k

/-- A step that changes the phase, the token or the file alone. -/
theorem LogInv.of_same (h : LogInv log s) (hstop : Stopped (log ++ [(s, e)]) → Over s')
    (hattempt : s'.attempt = s.attempt) (hdecisions : s'.decisions = s.decisions)
    (hlisted : s'.phase = .readingSecret ∨ s'.phase.hasClient = true →
      s.phase = .readingSecret ∨ s.phase.hasClient = true)
    (htrusting : ∀ k, s'.phase = .trusting k → ConnectedTo (log ++ [(s, e)]) k) : LogInv (log ++ [(s, e)]) s' := by
  refine ⟨hstop, ?_, ?_, ?_, htrusting⟩
  · intro hp
    rw [hattempt]
    exact carried (h.listed (hlisted hp)) _
  · intro k hk
    rw [hattempt] at hk
    exact carried (h.accepted k hk) _
  · intro d hd
    rw [hdecisions] at hd
    obtain ⟨hl, ha⟩ := h.decisions d hd
    exact ⟨carried hl _, fun k hk => carried (ha k hk) _⟩

theorem does_logInv (hdoes : Does fw device profile s e s')
    (hreviewing : ∀ k, s.phase = .reviewing k → s.attempt.reviewed = none) (h : LogInv log s) :
    LogInv (log ++ [(s, e)]) s' := by
  have hstop := does_stopped hdoes hreviewing h.stopped
  have hdecisions : ∀ d ∈ s.decisions, Listed (log ++ [(s, e)]) d.reviewed d.read ∧
      ∀ k, d.reviewed = some k → Accepted (log ++ [(s, e)]) k := by
    intro d hd
    obtain ⟨hl, ha⟩ := h.decisions d hd
    exact ⟨carried hl _, fun k hk => carried (ha k hk) _⟩
  cases hdoes with
  | cancel => exact h.of_same hstop rfl rfl id fun k hk => carried (h.trusting k hk) _
  | edit => exact h.of_same hstop rfl rfl id fun k hk => carried (h.trusting k hk) _
  | list hp =>
    exact ⟨hstop, fun _ => newest ⟨rfl, rfl, rfl⟩, fun k hk => carried (h.accepted k hk) _, hdecisions,
      fun k hk => (nomatch hk)⟩
  | secret value hp => exact h.of_same hstop rfl rfl (fun _ => Or.inl hp) fun k hk => (nomatch hk)
  | hostKey algorithm key hc =>
    refine ⟨hstop, fun _ => carried (h.listed (Or.inr hc)) _, fun k hk => carried (h.accepted k hk) _, ?_,
      fun k hk => carried (h.trusting k hk) _⟩
    intro d hd
    rcases List.mem_append.mp hd with hd | hd
    · exact hdecisions d hd
    · rw [List.mem_singleton.mp hd]
      exact ⟨carried (h.listed (Or.inr hc)) _, fun k hk => carried (h.accepted k hk) _⟩
  | connected k hp hk =>
    refine h.of_same hstop rfl rfl (fun _ => Or.inr (by simp [hp, Phase.hasClient])) ?_
    intro k' hk'
    cases hk'
    exact newest ⟨hp, rfl, hk⟩
  | trust k entries hp ht =>
    refine ⟨hstop, fun _ => carried (h.listed (Or.inr ?_)) _, fun k hk => carried (h.accepted k hk) _, hdecisions,
      fun k hk => (nomatch hk)⟩
    simp [hp, Phase.hasClient]
  | openShell hp =>
    exact h.of_same hstop rfl rfl (fun _ => Or.inr (by simp [hp, Phase.hasClient])) fun k hk => (nomatch hk)
  | review e k hp he hr =>
    exact h.of_same hstop rfl rfl (fun hk => by simp [Phase.hasClient] at hk) fun k hk => (nomatch hk)
  | accept k hp hc =>
    refine ⟨hstop, fun hk => by simp [Phase.hasClient] at hk, ?_, hdecisions, fun k hk => (nomatch hk)⟩
    intro k' hk'
    cases hk'
    exact newest ⟨hp, rfl, hc⟩
  | refuse k b f hp =>
    exact h.of_same hstop rfl rfl (fun hk => by simp [SshSessionService.fail, Phase.hasClient] at hk)
      fun k hk => (nomatch hk)
  | fail e f he =>
    exact h.of_same hstop rfl rfl (fun hk => by simp [SshSessionService.fail, Phase.hasClient] at hk)
      fun k hk => (nomatch hk)

/-- The invariant of a run. -/
def RunInv (fw : Framework) (device : Device) (profile : ConnectionProfile) (log : Log) (s : State) : Prop :=
  Inv (incoming fw device profile [] []).host (incoming fw device profile [] []).port s ∧ LogInv log s

theorem runs_inv (h : (session fw device profile credential).Runs log s) : RunInv fw device profile log s := by
  refine h.log_inv (I := RunInv fw device profile) ?_ ?_
  · intro s hs
    obtain ⟨hphase, hattempt, hdecisions⟩ := hs
    have hreading : ∀ k, s.phase ≠ .trusting k ∧ s.phase ≠ .reviewing k := by
      intro k
      rw [hphase]
      split <;> exact ⟨fun h => (nomatch h), fun h => (nomatch h)⟩
    refine ⟨⟨hattempt ▸ .fresh none [], ?_, ?_, fun k hk => absurd hk (hreading k).1,
        fun k hk => absurd hk (hreading k).2⟩,
      ⟨fun ⟨_, hp, _⟩ => (nomatch hp), ?_, ?_, ?_, fun k hk => absurd hk (hreading k).1⟩⟩
    · simp [hdecisions]
    · simp [hattempt]
    · intro hk
      rw [hphase] at hk
      split at hk <;> simp [Phase.hasClient] at hk
    · simp [hattempt]
    · simp [hdecisions]
  · intro log s e s' _ hrun hstep
    obtain ⟨hinv, hlog⟩ := hrun
    have hdoes := step_does hstep
    exact ⟨does_inv hdoes (fun _ _ => ⟨rfl, rfl⟩) hinv, does_logInv hdoes hinv.reviewing hlog⟩

/-- All a step of the service does to the file is append the identity `TrustAsync` was
    called with, where the file holds no record for its host and port. -/
theorem step_file (h : step fw device profile credential s e = some s') (he : ∀ entries, e ≠ .edit entries) :
    s'.file = s.file ∨ ∃ k, s.phase = .trusting k ∧ matching s.file k = [] ∧ s'.file = s.file ++ [k] := by
  cases step_does h with
  | edit entries => exact absurd rfl (he entries)
  | trust k entries hp ht =>
    rcases trust_keeps ht with rfl | ⟨rfl, hnone⟩
    · exact Or.inl rfl
    · exact Or.inr ⟨k, hp, hnone, rfl⟩
  | cancel | list | secret | hostKey | connected | openShell | review | accept | refuse | fail => exact Or.inl rfl

/-! ## The result -/

/-- What holds of a run of `ConnectAsync`. -/
structure Safe (fw : Framework) (device : Device) (profile : ConnectionProfile) (credential : CredentialReference)
    (log : Log) (s : State) : Prop where
  /-- A decision is made by the list its attempt read, for an identity the user accepted
      before the second attempt. -/
  attempts : ∀ d ∈ s.decisions, Listed log d.reviewed d.read ∧ ∀ k, d.reviewed = some k → Accepted log k
  /-- A trusted identity is recorded in that list, or is the accepted one and the list has
      no record for its host and port. -/
  earned : ∀ d ∈ s.decisions, d.canTrust = true →
    evaluate d.read d.incoming = .trusted ∨ (d.reviewed = some d.incoming ∧ matching d.read d.incoming = [])
  /-- Where the list has records for the host and port, no other key is trusted. -/
  recorded : ∀ d ∈ s.decisions, matching d.read d.incoming ≠ [] → ¬ Recorded d.read d.incoming → d.canTrust = false
  /-- The second attempt trusts no identity but the accepted one. -/
  reviewed : ∀ d ∈ s.decisions, ∀ k, d.reviewed = some k → d.incoming ≠ k → d.canTrust = false
  /-- After a refusal or a cancellation there is no second attempt. -/
  stopped : Stopped log → s.attempt.reviewed = none
  /-- `TrustAsync` is called with an identity the handler trusted in this attempt, after the
      connection succeeded. -/
  trusting : ∀ k, s.phase = .trusting k → HasTrusted s k ∧ ConnectedTo log k
  /-- No step but an edit from outside removes or replaces a record. -/
  kept : ∀ p ∈ log, (∀ entries, p.2 ≠ .edit entries) →
    ∀ s', (session fw device profile credential).step p.1 p.2 = some s' →
      s'.file = p.1.file ∨ ∃ k, p.1.phase = .trusting k ∧ matching p.1.file k = [] ∧ s'.file = p.1.file ++ [k]

theorem connect_safe (fw : Framework) (device : Device) (profile : ConnectionProfile) (credential : CredentialReference)
    {log : Log} {s : State} (h : (session fw device profile credential).Runs log s) :
    Safe fw device profile credential log s := by
  obtain ⟨hinv, hlog⟩ := runs_inv h
  have hearned : ∀ d ∈ s.decisions, d.canTrust = true → Earned d.read d.reviewed d.incoming ∧
      (d.reviewed = none ∨ d.reviewed = some d.incoming) := fun d hd => hinv.decisions d hd
  refine ⟨hlog.decisions, ?_, ?_, ?_,
    fun hstop => (hlog.stopped hstop).1, fun k hk => ⟨hinv.trusting k hk, hlog.trusting k hk⟩,
    fun p _ he s' hs => step_file hs he⟩
  · intro d hd ht
    rw [evaluate_trusted]
    exact (hearned d hd ht).1
  · intro d hd hsome hnot
    by_contra ht
    rcases (hearned d hd (Bool.not_eq_false _ ▸ ht)).1 with hr | ⟨-, hnone⟩
    · exact hnot hr
    · exact hsome hnone
  · intro d hd k hk hne
    by_contra ht
    rcases (hearned d hd (Bool.not_eq_false _ ▸ ht)).2 with hn | hsame
    · rw [hk] at hn; cases hn
    · rw [hk] at hsame; cases hsame
      exact hne rfl

end Logs

/-! ## A run -/

def nas : Device := { id := 1, hostname := str "nas", ipv4Address := [] }

def root : CredentialReference := { id := 3, displayLabel := str "root", username := str "root" }

def shell : ConnectionProfile :=
  { id := 4, deviceId := 1, displayName := str "shell", credentialId := some 3, port := some 22 }

def start : State := ⟨[], false, .listing, { reviewed := none }, []⟩

/-- An unknown identity is shown and accepted, and presented again. -/
def reviewed : List Event :=
  [.list, .secret (some (str "pw")), .hostKey (str "ssh-ed25519") [1, 2, 3],
    .throws (.other "Key exchange negotiation failed."), .answer true, .list, .secret (some (str "pw")),
    .hostKey (str "ssh-ed25519") [1, 2, 3], .connected, .trust, .openShell]

theorem reviewed_nas_safe :
    ∃ log s, (session Framework.ascii nas shell root).Runs log s ∧ s.phase = .connected ∧ s.file.length = 1 ∧
      Safe Framework.ascii nas shell root log s := by
  have h := Machine.runs_of_exec (M := session Framework.ascii nas shell root) (s := start) ⟨rfl, rfl, rfl⟩
    (show Machine.exec _ _ reviewed = _ from rfl)
  exact ⟨_, _, h, rfl, rfl, connect_safe _ _ _ _ h⟩

end MythLab.Ssh.SshSessionService
