/-
  MythLab.Monitoring.FairBudget — `CheckAsync` on a clock: what each address gets of the budget.

  `clocked` runs the check of `machine` on exact time. Between events time passes (`wait`); the
  stopwatch shows its ticks, and the budget's token is cancelled with the caller's or once the
  timeout is over, not before. Each probe is an attempt with a slice: an equal part of the time
  that remains for the addresses left, and at least one millisecond. `runs_check`: such a run is
  a run of `machine`.

  Proved of every run in which no attempt outlasts its slice and no time passes between attempts
  (`Punctual`), where at first a millisecond remains for every address (`Ample`), in
  `no_address_starved`: whenever the loop comes to an address time remains, and a check that has
  found no device has tried all of them; each slice is an equal part of the first remaining time
  at least, slices never shrink, and together the attempts use no more than that time. The books
  are those of `Lib.FairShares`: what an attempt leaves unused goes back to the later ones.
-/
import Mathlib.Data.Rat.Floor
import MythLab.Lib.Distinct
import MythLab.Lib.FairShares
import MythLab.Monitoring.WindowsDeviceStatusService

namespace MythLab.Monitoring.WindowsDeviceStatusService

open Lib Lib.FairShares Dotnet Devices

/-! ## Phases and tokens -/

section

variable {device : Device} {timeoutMilliseconds : Int} {started : DateTimeOffset} {s s' : State} {e : Event}

@[simp] theorem Phase.next_not_early (rest : List UInt32) : (Phase.next rest).isEarly = false := by
  cases rest <;> rfl

theorem probed_phase (device : Device) (started : DateTimeOffset) (s : State) (x : UInt32) (rest : List UInt32)
    (a : Answer) :
    let p := (s.probed device started x rest a).phase
    p = .next rest ∨ p = .interrupted rest ∨ (∃ e, p = .threw e) ∨ (∃ o, p = .returned o ∧ o.state = .online) := by
  cases a with
  | accepted => exact Or.inr (Or.inr (Or.inr ⟨_, rfl, rfl⟩))
  | replied status =>
    cases status with
    | success => exact Or.inr (Or.inr (Or.inr ⟨_, rfl, rfl⟩))
    | timedOut | other => exact Or.inl rfl
  | threw e =>
    cases e with
    | operationCanceled => exact Or.inr (Or.inl rfl)
    | socket | ping => exact Or.inl rfl
    | other e => exact Or.inr (Or.inr (Or.inl ⟨_, rfl⟩))

theorem probed_tokens (device : Device) (started : DateTimeOffset) (s : State) (x : UInt32) (rest : List UInt32)
    (a : Answer) :
    (s.probed device started x rest a).cancelled = s.cancelled ∧
      (s.probed device started x rest a).budget = s.budget := by
  unfold State.probed
  split <;> exact ⟨rfl, rfl⟩

theorem sumUp_phase (started : DateTimeOffset) (s : State) : ∃ o, (s.sumUp started).phase = .returned o := by
  unfold State.sumUp
  split_ifs <;> exact ⟨_, rfl⟩

theorem sumUp_tokens : (s.sumUp started).cancelled = s.cancelled ∧ (s.sumUp started).budget = s.budget := by
  unfold State.sumUp
  split_ifs <;> exact ⟨rfl, rfl⟩

/-- What comes before the loop comes before everything else. -/
theorem Change.early (h : Change device timeoutMilliseconds started s e s') (hp : s'.phase.isEarly = true) :
    s.phase.isEarly = true := by
  cases h with
  | cancel | budgetFires => exact hp
  | enters hphase | resolutionCancelled hphase => rw [hphase]; rfl
  | resolves _ hphase | resolved _ hphase => rw [hphase]; rfl
  | answers x rest _ _ =>
    rcases probed_phase device started s x rest _ with h | h | ⟨e, h⟩ | ⟨o, h, -⟩
    · rw [h, Phase.next_not_early] at hp
      cases hp
    all_goals
      rw [h] at hp
      cases hp
  | next rest _ _ =>
    rw [Phase.next_not_early] at hp
    cases hp
  | sums _ =>
    obtain ⟨o, ho⟩ := sumUp_phase started s
    rw [ho] at hp
    cases hp
  | _ => cases hp

/-- The caller's token stays cancelled, and one event only cancels the budget's. -/
theorem Change.tokens (h : Change device timeoutMilliseconds started s e s') :
    (s.cancelled = true → s'.cancelled = true) ∧ (s'.budget = true → e = .budgetFires ∨ s.budget = true) := by
  cases h with
  | cancel => exact ⟨fun _ => rfl, Or.inr⟩
  | budgetFires => exact ⟨id, fun _ => Or.inl rfl⟩
  | answers x rest _ _ =>
    obtain ⟨hc, hb⟩ := probed_tokens device started s x rest _
    rw [hc, hb]
    exact ⟨id, Or.inr⟩
  | sums _ =>
    rw [sumUp_tokens.1, sumUp_tokens.2]
    exact ⟨id, Or.inr⟩
  | _ => exact ⟨id, Or.inr⟩

/-- The addresses in hand before the loop. -/
def Phase.names : Phase → List UInt32
  | .resolved addresses | .budgetAfterResolution addresses => addresses
  | _ => []

@[simp] theorem Phase.names_next (rest : List UInt32) : (Phase.next rest).names = [] := by
  cases rest <;> rfl

theorem nodup_ipv4 (addresses : List IPAddress) : (ipv4 addresses).Nodup := by
  refine (pairwise_eraseDupsBy _).imp ?_
  intro a b h he
  rw [he, beq_self_eq_true] at h
  cases h

theorem Change.names (h : Change device timeoutMilliseconds started s e s') (hs : s.phase.names.Nodup) :
    s'.phase.names.Nodup := by
  cases h with
  | cancel | budgetFires => exact hs
  | resolves addresses _ => exact nodup_ipv4 addresses
  | resolved _ hp =>
    rw [hp] at hs
    exact hs
  | answers x rest _ _ =>
    rcases probed_phase device started s x rest _ with h | h | ⟨e, h⟩ | ⟨o, h, -⟩
    · rw [h, Phase.names_next]
      exact List.nodup_nil
    all_goals
      rw [h]
      exact List.nodup_nil
  | next rest _ _ =>
    rw [Phase.names_next]
    exact List.nodup_nil
  | sums _ =>
    obtain ⟨o, ho⟩ := sumUp_phase started s
    rw [ho]
    exact List.nodup_nil
  | _ => exact List.nodup_nil

/-- How many more steps the code takes at most; until the loop begins, how many to its beginning and back out. -/
def Phase.turns : Phase → Nat
  | .entering => 5
  | .resolving => 4
  | .resolutionCancelled | .resolved _ => 3
  | .budgetAfterResolution _ => 2
  | .throwIfCancelled _ rest => 5 * rest.length + 6
  | .spending _ rest => 5 * rest.length + 5
  | .probing _ rest => 5 * rest.length + 4
  | .interrupted rest => 5 * rest.length + 3
  | .swallowed rest => 5 * rest.length + 2
  | .summing => 1
  | .returned _ | .threw _ => 0

theorem Phase.turns_next (rest : List UInt32) : (Phase.next rest).turns ≤ 5 * rest.length + 1 := by
  cases rest with
  | nil => exact Nat.le_refl _
  | cons => simp only [Phase.next, Phase.turns, List.length_cons]; omega

theorem Phase.turns_looks {p : Phase} (hp : p.looks = true) : 0 < p.turns := by
  cases p with
  | entering | resolutionCancelled | resolved | throwIfCancelled | interrupted => exact Nat.succ_pos _
  | _ => cases hp

/-- How many more events a check can see at most. -/
def State.ahead (s : State) : Nat := s.phase.turns + (if s.cancelled then 0 else 1) + (if s.budget then 0 else 1)

theorem State.ahead_lt (hp : s'.phase.turns < s.phase.turns) (hc : s'.cancelled = s.cancelled)
    (hb : s'.budget = s.budget) : s'.ahead < s.ahead := by
  simp only [State.ahead, hc, hb]
  omega

/-- An event brings the check nearer to its end, unless the loop begins: each address takes five steps. -/
theorem Change.ahead (h : Change device timeoutMilliseconds started s e s') :
    s'.ahead < s.ahead ∨ ∃ elapsed x rest, e = .goesOn elapsed ∧ s.phase = .budgetAfterResolution (x :: rest) ∧
      s'.phase = .throwIfCancelled x rest ∧ s'.ahead = s.ahead + 5 * rest.length + 4 := by
  cases h with
  | cancel _ hc => exact Or.inl (by simp [State.ahead, hc])
  | budgetFires _ _ hb => exact Or.inl (by simp [State.ahead, hb])
  | seen hp => exact Or.inl (State.ahead_lt (Phase.turns_looks hp) rfl rfl)
  | refuses hp | slow hp | noAddress hp => exact Or.inl (State.ahead_lt (by rw [hp]; exact Nat.succ_pos _) rfl rfl)
  | unresolved _ hp | resolutionThrew _ hp | spentBefore _ hp =>
    exact Or.inl (State.ahead_lt (by rw [hp]; exact Nat.succ_pos _) rfl rfl)
  | enters hp | resolutionCancelled hp => exact Or.inl (State.ahead_lt (by rw [hp]; exact Nat.le_refl _) rfl rfl)
  | resolves _ hp | resolved _ hp => exact Or.inl (State.ahead_lt (by rw [hp]; exact Nat.le_refl _) rfl rfl)
  | @begins elapsed x rest hp hb =>
    refine Or.inr ⟨elapsed, x, rest, rfl, hp, rfl, ?_⟩
    simp only [State.ahead, hp, Phase.turns]
    omega
  | reaches x rest hp | starts x rest hp => exact Or.inl (State.ahead_lt (by rw [hp]; exact Nat.le_refl _) rfl rfl)
  | swallows rest hp => exact Or.inl (State.ahead_lt (by rw [hp]; exact Nat.le_refl _) rfl rfl)
  | tooLate x rest hp | spent x rest hp =>
    exact Or.inl (State.ahead_lt (by rw [hp]; exact Nat.le_add_left 2 _) rfl rfl)
  | broken rest hp => exact Or.inl (State.ahead_lt (by rw [hp]; exact Nat.le_add_left 2 _) rfl rfl)
  | next rest hp =>
    exact Or.inl (State.ahead_lt (by rw [hp]; exact Nat.lt_succ_of_le (Phase.turns_next rest)) rfl rfl)
  | answers x rest hp _ =>
    obtain ⟨hc, hb⟩ := probed_tokens device started s x rest _
    refine Or.inl (State.ahead_lt ?_ hc hb)
    rw [hp]
    rcases probed_phase device started s x rest _ with h | h | ⟨e, h⟩ | ⟨o, h, -⟩
    · rw [h]
      exact Nat.lt_of_le_of_lt (Phase.turns_next rest) (by simp [Phase.turns])
    all_goals
      rw [h]
      simp [Phase.turns]
  | sums hp =>
    obtain ⟨o, ho⟩ := sumUp_phase started s
    exact Or.inl (State.ahead_lt (by rw [hp, ho]; exact Nat.le_refl _) sumUp_tokens.1 sumUp_tokens.2)

end

/-! ## A check on a clock -/

/-- A probe of an address, on a clock in milliseconds. -/
structure Attempt where
  address : UInt32
  startedAt : ℚ
  slice : ℚ
  deriving DecidableEq, Repr

structure Clocked where
  check : State := {}
  /-- `elapsed.Elapsed` -/
  elapsed : ℚ := 0
  /-- When the first attempt started; the time, where none has. -/
  begun : ℚ := 0
  /-- `addresses`, once the loop has begun -/
  addresses : List UInt32 := []
  /-- The attempts that have ended, and what each of them has used, oldest first. -/
  ended : List (Attempt × ℚ) := []
  running : Option Attempt := none
  deriving DecidableEq, Repr

/-- The addresses tried so far. -/
def Clocked.tried (s : Clocked) : List UInt32 :=
  s.ended.map (fun a => a.1.address) ++ s.running.toList.map Attempt.address

/-- The attempts' slices, each with what has been used of it. -/
def Clocked.slices (s : Clocked) : List (ℚ × ℚ) :=
  s.ended.map (fun a => (a.1.slice, a.2)) ++ s.running.toList.map fun a => (a.slice, s.elapsed - a.startedAt)

/-- The slice of the next of `left` addresses. -/
def slice (remaining : ℚ) (left : ℕ) : ℚ := max 1 (remaining / left)

/-- Time passes. The stopwatch is started after the arguments have been tested. -/
def Clocked.wait (s : Clocked) (after : ℚ) : Clocked :=
  let now := if s.check.phase = .entering then s.elapsed else s.elapsed + after
  { s with elapsed := now, begun := if s.tried = [] then now else s.begun }

variable (device : Device) (timeoutMilliseconds : Int) (started : DateTimeOffset)

/-- What can happen at this time: the budget's token is cancelled with the caller's, or when its time is over;
    the stopwatch shows whole ticks. -/
def Clocked.allows (s : Clocked) : Event → Bool
  | .budgetFires => s.check.cancelled || (timeoutMilliseconds : ℚ) ≤ s.elapsed
  | .goesOn ticks => ticks = ⌊s.elapsed * 10000⌋
  | _ => true

/-- What is noted of an event that leads to `check`. -/
def Clocked.noted (s : Clocked) (check : State) : Event → Clocked
  | .goesOn _ =>
    match s.check.phase, check.phase with
    | .budgetAfterResolution addresses, .throwIfCancelled .. => { s with check := check, addresses := addresses }
    | .spending .., .probing address rest =>
      -- `addresses.Length - i` addresses are left: this one and the rest.
      let slice := slice (timeoutMilliseconds - s.elapsed) (rest.length + 1)
      { s with check := check, running := some ⟨address, s.elapsed, slice⟩ }
    | _, _ => { s with check := check }
  | .answers _ =>
    { s with
      check := check
      ended := s.ended ++ s.running.toList.map fun a => (a, s.elapsed - a.startedAt)
      running := none }
  | _ => { s with check := check }

/-- An event, so many milliseconds after the one before. -/
def Clocked.step (s : Clocked) (e : ℚ × Event) : Option Clocked :=
  let t := s.wait e.1
  if 0 ≤ e.1 ∧ t.allows timeoutMilliseconds e.2 = true then
    ((machine device timeoutMilliseconds started).step t.check e.2).map fun check =>
      t.noted timeoutMilliseconds check e.2
  else none

def clocked : Machine Clocked (ℚ × Event) := ⟨fun s => s = {}, Clocked.step device timeoutMilliseconds started⟩

/-- No attempt outlasts its slice, and no time passes between attempts. -/
def Punctual (s : Clocked) (e : ℚ × Event) : Prop :=
  match s.check.phase with
  | .probing .. => ∀ a ∈ s.running, s.elapsed + e.1 ≤ a.startedAt + a.slice
  | .throwIfCancelled .. | .spending .. | .interrupted _ | .swallowed _ => s.tried ≠ [] → e.1 = 0
  | _ => True

instance (s : Clocked) (e : ℚ × Event) : Decidable (Punctual s e) := by
  unfold Punctual
  split <;> infer_instance

/-- A millisecond remains for each address when the first attempt starts. -/
def Clocked.Ample (s : Clocked) : Prop :=
  0 < s.addresses.length ∧ (s.addresses.length : ℚ) ≤ timeoutMilliseconds - s.begun

/-- No address is kept from its share of the time that remains at first. -/
structure NoneStarved (s : Clocked) : Prop where
  distinct : s.addresses.Nodup
  inOrder : s.tried <+: s.addresses
  /-- A check that is not over can go on within these times. -/
  goes : s.check.phase.isOver = false → ∃ e t, Punctual s e ∧ s.step device timeoutMilliseconds started e = some t
  /-- Where the loop comes to an address, time remains and its attempt starts. -/
  reached : ∀ x rest, s.check.phase = .spending x rest → s.check.cancelled = false →
    0 < timeoutMilliseconds - s.elapsed ∧
      ∃ t, s.step device timeoutMilliseconds started (0, .goesOn ⌊s.elapsed * 10000⌋) = some t ∧
        t.tried = s.tried ++ [x]
  /-- A check that has found no device has tried every address. -/
  all : ∀ o, s.check.phase = .returned o → o.state ≠ .online → s.check.cancelled = false → s.tried = s.addresses
  least : ∀ g ∈ s.slices, (timeoutMilliseconds - s.begun) / s.addresses.length ≤ g.1
  rising : (s.slices.map Prod.fst).Pairwise (· ≤ ·)
  within : (s.slices.map Prod.snd).sum ≤ timeoutMilliseconds - s.begun

/-! ## The books -/

/-- What holds of the clock in every run. -/
structure Kept (s : Clocked) : Prop where
  early : s.check.phase.isEarly = true → s.addresses = [] ∧ s.tried = []
  opened : s.tried = [] → s.begun = s.elapsed
  budget : s.check.budget = true → s.check.cancelled = true ∨ (timeoutMilliseconds : ℚ) ≤ s.elapsed
  names : s.check.phase.names.Nodup
  distinct : s.addresses.Nodup

/-- The books, where `rest` are still to be tried. -/
def Clocked.Shared (s : Clocked) (remaining : ℚ) (rest : List UInt32) : Prop :=
  s.ended.map (fun a => a.1.address) ++ rest = s.addresses ∧
    Fair (timeoutMilliseconds - s.begun) s.addresses.length remaining rest.length
      (s.ended.map fun a => (a.1.slice, a.2))

/-- The books of a check in each phase of the loop and after it. -/
def Clocked.Books (s : Clocked) : Phase → Prop
  | .throwIfCancelled x rest | .spending x rest =>
    s.running = none ∧ s.Shared timeoutMilliseconds (timeoutMilliseconds - s.elapsed) (x :: rest)
  | .probing x rest =>
    ∃ a, s.running = some a ∧ a.address = x ∧ a.slice = share (timeoutMilliseconds - a.startedAt) (rest.length + 1) ∧
      s.elapsed ≤ a.startedAt + a.slice ∧ s.Shared timeoutMilliseconds (timeoutMilliseconds - a.startedAt) (x :: rest)
  | .interrupted rest | .swallowed rest =>
    s.running = none ∧ s.Shared timeoutMilliseconds (timeoutMilliseconds - s.elapsed) rest
  | .summing =>
    s.running = none ∧ ∃ remaining rest, s.Shared timeoutMilliseconds remaining rest ∧
      (rest = [] ∨ s.check.cancelled = true)
  | .returned o =>
    s.running = none ∧ ∃ remaining rest, s.Shared timeoutMilliseconds remaining rest ∧
      (rest = [] ∨ s.check.cancelled = true ∨ o.state = .online)
  | .threw _ => s.running = none ∧ ∃ remaining rest, s.Shared timeoutMilliseconds remaining rest
  | _ => True

section

variable {device : Device} {timeoutMilliseconds : Int} {started : DateTimeOffset} {s t : Clocked} {check : State}
  {e : ℚ × Event} {event : Event} {after remaining : ℚ} {rest : List UInt32} {x : UInt32}

@[simp] theorem wait_check : (s.wait after).check = s.check := rfl

@[simp] theorem noted_check : (s.noted timeoutMilliseconds check event).check = check := by
  unfold Clocked.noted
  split
  · split <;> rfl
  all_goals rfl

@[simp] theorem noted_elapsed : (s.noted timeoutMilliseconds check event).elapsed = s.elapsed := by
  unfold Clocked.noted
  split
  · split <;> rfl
  all_goals rfl

@[simp] theorem noted_begun : (s.noted timeoutMilliseconds check event).begun = s.begun := by
  unfold Clocked.noted
  split
  · split <;> rfl
  all_goals rfl

/-- Addresses are noted when the loop begins. -/
theorem noted_addresses
    (hp : ∀ xs x rest, s.check.phase = .budgetAfterResolution xs → check.phase ≠ .throwIfCancelled x rest) :
    (s.noted timeoutMilliseconds check event).addresses = s.addresses := by
  unfold Clocked.noted
  split
  · split
    · rename_i hphase hnext
      exact absurd hnext (hp _ _ _ hphase)
    all_goals rfl
  all_goals rfl

theorem noted_addresses_names (event : Event) :
    (s.noted timeoutMilliseconds check event).addresses = s.addresses ∨
      (s.noted timeoutMilliseconds check event).addresses = s.check.phase.names := by
  unfold Clocked.noted
  split
  · split
    · rename_i hphase _
      exact Or.inr (by rw [hphase]; rfl)
    all_goals exact Or.inl rfl
  all_goals exact Or.inl rfl

theorem noted_quiet {ticks : Int} (he : s.check.phase.isEarly = false) (hp : ∀ x rest, check.phase ≠ .probing x rest) :
    s.noted timeoutMilliseconds check (.goesOn ticks) = { s with check := check } := by
  simp only [Clocked.noted]
  split
  · rename_i hphase _
    rw [hphase] at he
    cases he
  · rename_i hnext
    exact absurd hnext (hp _ _)
  · rfl

theorem untried_iff : s.tried = [] ↔ s.ended = [] ∧ s.running = none := by
  simp [Clocked.tried]

/-- Where nothing has been tried after an event, nothing had been before. -/
theorem untried_of_noted (h : (s.noted timeoutMilliseconds check event).tried = []) : s.tried = [] := by
  rw [untried_iff] at h ⊢
  unfold Clocked.noted at h
  split at h
  · split at h
    · exact h
    · cases h.2
    · exact h
  · obtain ⟨hended, -⟩ := h
    simpa using hended
  · exact h

/-- Where nothing has been tried and no attempt starts, nothing has been tried after it. -/
theorem noted_untried (hp : check.phase.isEarly = true) (ht : s.tried = []) :
    (s.noted timeoutMilliseconds check event).tried = [] := by
  unfold Clocked.noted
  split
  · split
    · exact ht
    · rename_i hnext
      rw [hnext] at hp
      cases hp
    · exact ht
  · rw [untried_iff] at ht ⊢
    simp [ht]
  · exact ht

/-- A step: time passes, and the check takes a step that is allowed then. -/
theorem clocked_cases (h : s.step device timeoutMilliseconds started e = some t) :
    0 ≤ e.1 ∧ (s.wait e.1).allows timeoutMilliseconds e.2 = true ∧
      ∃ check, (machine device timeoutMilliseconds started).step s.check e.2 = some check ∧
        t = (s.wait e.1).noted timeoutMilliseconds check e.2 := by
  simp only [Clocked.step] at h
  split_ifs at h with hallowed
  obtain ⟨check, hstep, rfl⟩ := Option.map_eq_some_iff.mp h
  exact ⟨hallowed.1, hallowed.2, check, hstep, rfl⟩

/-- A check on a clock is a check. -/
theorem runs_check {log : List (Clocked × (ℚ × Event))}
    (hr : (clocked device timeoutMilliseconds started).Runs log s) :
    (machine device timeoutMilliseconds started).Runs (log.map fun p => (p.1.check, p.2.2)) s.check := by
  induction hr with
  | init hs =>
    cases hs
    exact .init rfl
  | step e _ hs ih =>
    obtain ⟨-, -, check, hstep, rfl⟩ := clocked_cases hs
    rw [List.map_append, noted_check]
    exact .step e.2 ih hstep

/-! ## Time passes -/

theorem wait_elapsed (hp : s.check.phase ≠ .entering) : (s.wait after).elapsed = s.elapsed + after := if_neg hp

theorem le_wait (ha : 0 ≤ after) : s.elapsed ≤ (s.wait after).elapsed := by
  simp only [Clocked.wait]
  split
  · exact le_refl _
  · linarith

theorem Kept.wait (hk : Kept timeoutMilliseconds s) (ha : 0 ≤ after) : Kept timeoutMilliseconds (s.wait after) where
  early := hk.early
  opened := fun ht => if_pos ht
  budget := fun hb => (hk.budget hb).imp_right fun hle => le_trans hle (le_wait ha)
  names := hk.names
  distinct := hk.distinct

/-- No time passes. -/
theorem Kept.wait_zero (hk : Kept timeoutMilliseconds s) : s.wait 0 = s := by
  have hbegun : (if s.tried = [] then s.elapsed else s.begun) = s.begun := by
    split
    · rename_i ht
      exact (hk.opened ht).symm
    · rfl
  simp only [Clocked.wait, add_zero, ite_self, hbegun]

theorem Kept.ample_of_wait (hk : Kept timeoutMilliseconds s) (ha : 0 ≤ after)
    (h : (s.wait after).Ample timeoutMilliseconds) : s.Ample timeoutMilliseconds := by
  obtain ⟨hpos, hle⟩ := h
  refine ⟨hpos, le_trans hle ?_⟩
  have hbegun : s.begun ≤ (s.wait after).begun := by
    by_cases ht : s.tried = []
    · rw [hk.opened ht, (hk.wait ha).opened ht]
      exact le_wait ha
    · exact le_of_eq (if_neg ht).symm
  linarith

/-- Where nothing has been tried, all of the time that remains is to be shared. -/
theorem Clocked.Shared.opening (hk : Kept timeoutMilliseconds s) (ht : s.tried = []) :
    s.Shared timeoutMilliseconds (timeoutMilliseconds - s.elapsed) s.addresses := by
  obtain ⟨hended, -⟩ := untried_iff.mp ht
  rw [← hk.opened ht]
  exact ⟨by rw [hended]; rfl, by rw [hended]; exact Fair.opening⟩

theorem Clocked.Shared.all_left (h : s.Shared timeoutMilliseconds remaining rest) (ht : s.tried = []) :
    rest = s.addresses := by
  obtain ⟨hended, -⟩ := untried_iff.mp ht
  simpa [hended] using h.1

theorem Clocked.Shared.wait (hk : Kept timeoutMilliseconds s) (ha : 0 ≤ after)
    (h : s.Shared timeoutMilliseconds remaining rest) : ∃ remaining',
      (s.wait after).Shared timeoutMilliseconds remaining' rest := by
  by_cases ht : s.tried = []
  · rw [h.all_left ht]
    exact ⟨_, .opening (hk.wait ha) ht⟩
  · refine ⟨remaining, h.1, ?_⟩
    have hbegun : (s.wait after).begun = s.begun := if_neg ht
    rw [hbegun]
    exact h.2

/-- Between attempts no time passes. -/
theorem Clocked.Shared.on_time (hk : Kept timeoutMilliseconds s) (ha : 0 ≤ after) (hgap : s.tried ≠ [] → after = 0)
    (h : s.Shared timeoutMilliseconds (timeoutMilliseconds - s.elapsed) rest) :
    (s.wait after).Shared timeoutMilliseconds (timeoutMilliseconds - (s.wait after).elapsed) rest := by
  by_cases ht : s.tried = []
  · rw [h.all_left ht]
    exact .opening (hk.wait ha) ht
  · rw [hgap ht, hk.wait_zero]
    exact h

theorem Clocked.Books.wait (hk : Kept timeoutMilliseconds s) (ha : 0 ≤ after) (hp : Punctual s (after, event))
    (hs : s.Books timeoutMilliseconds s.check.phase) : (s.wait after).Books timeoutMilliseconds s.check.phase := by
  unfold Punctual at hp
  cases hphase : s.check.phase with
  | throwIfCancelled | spending | interrupted | swallowed =>
    rw [hphase] at hs hp
    exact ⟨hs.1, hs.2.on_time hk ha hp⟩
  | probing x rest =>
    rw [hphase] at hs hp
    obtain ⟨a, hrunning, haddress, hslice, -, hshared⟩ := hs
    have htried : s.tried ≠ [] := fun ht => by simp [(untried_iff.mp ht).2] at hrunning
    have hbegun : (s.wait after).begun = s.begun := if_neg htried
    refine ⟨a, hrunning, haddress, hslice, ?_, hshared.1, hbegun ▸ hshared.2⟩
    rw [wait_elapsed (by rw [hphase]; nofun)]
    exact hp a hrunning
  | summing | returned =>
    rw [hphase] at hs
    obtain ⟨hrunning, remaining, rest, hshared, hleft⟩ := hs
    obtain ⟨remaining', hshared⟩ := hshared.wait hk ha
    exact ⟨hrunning, remaining', rest, hshared, hleft⟩
  | threw =>
    rw [hphase] at hs
    obtain ⟨hrunning, remaining, rest, hshared⟩ := hs
    obtain ⟨remaining', hshared⟩ := hshared.wait hk ha
    exact ⟨hrunning, remaining', rest, hshared⟩
  | _ => trivial

/-! ## A step of the check -/

theorem Kept.noted (hk : Kept timeoutMilliseconds s) (hallowed : s.allows timeoutMilliseconds event = true)
    (h : step device timeoutMilliseconds started s.check event = some check) :
    Kept timeoutMilliseconds (s.noted timeoutMilliseconds check event) := by
  have hopened : (s.noted timeoutMilliseconds check event).tried = [] →
      (s.noted timeoutMilliseconds check event).begun = (s.noted timeoutMilliseconds check event).elapsed := by
    intro ht
    rw [noted_begun, noted_elapsed]
    exact hk.opened (untried_of_noted ht)
  have hchange := step_change h
  refine ⟨?_, hopened, ?_, by rw [noted_check]; exact hchange.names hk.names, ?_⟩
  · rw [noted_check]
    intro hearly
    obtain ⟨haddresses, htried⟩ := hk.early (hchange.early hearly)
    rw [noted_addresses fun _ x rest _ hx => by rw [hx] at hearly; cases hearly]
    exact ⟨haddresses, noted_untried hearly htried⟩
  · rw [noted_check, noted_elapsed]
    intro hb
    have hbefore : s.check.cancelled = true ∨ (timeoutMilliseconds : ℚ) ≤ s.elapsed := by
      rcases hchange.tokens.2 hb with rfl | hb
      · simpa [Clocked.allows] using hallowed
      · exact hk.budget hb
    exact hbefore.imp_left hchange.tokens.1
  · rcases noted_addresses_names event with h | h
    · rw [h]
      exact hk.distinct
    · rw [h]
      exact hk.names

/-- In the loop a millisecond remains for each address left. -/
theorem Clocked.Shared.one_le (h : s.Shared timeoutMilliseconds remaining rest) (hs : s.Ample timeoutMilliseconds)
    (hl : 0 < rest.length) : 1 ≤ share remaining rest.length := by
  obtain ⟨hpos, hle⟩ := hs
  have hpos' : (0 : ℚ) < s.addresses.length := by exact_mod_cast hpos
  have hone : 1 ≤ (timeoutMilliseconds - s.begun) / (s.addresses.length : ℚ) := by
    rw [le_div_iff₀ hpos', one_mul]
    exact hle
  exact le_trans hone (h.2.le_share hpos hl)

theorem Clocked.Shared.remaining_pos (h : s.Shared timeoutMilliseconds remaining rest)
    (hs : s.Ample timeoutMilliseconds) (hl : 0 < rest.length) : 0 < remaining := by
  have hl' : (0 : ℚ) < rest.length := by exact_mod_cast hl
  have hone := (le_div_iff₀ hl').mp (h.one_le hs hl)
  linarith

/-- The floor of a millisecond is not needed. -/
theorem Clocked.Shared.slice_eq (h : s.Shared timeoutMilliseconds remaining (x :: rest))
    (hs : s.Ample timeoutMilliseconds) : slice remaining (rest.length + 1) = share remaining (rest.length + 1) :=
  max_eq_right (h.one_le hs (Nat.succ_pos _))

/-- A token is cancelled. -/
theorem Clocked.Books.token {p : Phase} (hs : s.Books timeoutMilliseconds p)
    (hc : s.check.cancelled = true → check.cancelled = true) :
    Clocked.Books timeoutMilliseconds { s with check := check } p := by
  cases p with
  | summing =>
    obtain ⟨hrunning, remaining, rest, hshared, hleft⟩ := hs
    exact ⟨hrunning, remaining, rest, hshared, hleft.imp_right hc⟩
  | returned =>
    obtain ⟨hrunning, remaining, rest, hshared, hleft⟩ := hs
    exact ⟨hrunning, remaining, rest, hshared, hleft.imp_right (Or.imp_left hc)⟩
  | throwIfCancelled | spending | probing | interrupted | swallowed | threw => exact hs
  | _ => trivial

/-- On to the next address, or out of the loop. -/
theorem Clocked.Books.next (hrunning : s.running = none)
    (h : s.Shared timeoutMilliseconds (timeoutMilliseconds - s.elapsed) rest) :
    s.Books timeoutMilliseconds (.next rest) := by
  cases rest with
  | nil => exact ⟨hrunning, _, [], h, Or.inl rfl⟩
  | cons => exact ⟨hrunning, h⟩

theorem le_of_ticks {ticks : Int} (hallowed : s.allows timeoutMilliseconds (.goesOn ticks) = true)
    (h : timeoutMilliseconds * 10000 - ticks ≤ 0) : (timeoutMilliseconds : ℚ) ≤ s.elapsed := by
  have hticks : ticks = ⌊s.elapsed * 10000⌋ := of_decide_eq_true hallowed
  have hfloor : timeoutMilliseconds * 10000 ≤ ⌊s.elapsed * 10000⌋ := by omega
  have hle : ((timeoutMilliseconds * 10000 : ℤ) : ℚ) ≤ s.elapsed * 10000 := Int.le_floor.mp hfloor
  push_cast at hle
  linarith

/-- An attempt that keeps to its slice leaves the books fair. -/
theorem Clocked.Shared.give {a : Attempt}
    (h : s.Shared timeoutMilliseconds (timeoutMilliseconds - a.startedAt) (x :: rest))
    (hs : s.Ample timeoutMilliseconds) (hslice : a.slice = share (timeoutMilliseconds - a.startedAt) (rest.length + 1))
    (ht : s.elapsed ≤ a.startedAt + a.slice) :
    Fair (timeoutMilliseconds - s.begun) s.addresses.length (timeoutMilliseconds - s.elapsed) rest.length
      (s.ended.map (fun a => (a.1.slice, a.2)) ++ [(a.slice, s.elapsed - a.startedAt)]) := by
  have hused : s.elapsed - a.startedAt ≤ share (timeoutMilliseconds - a.startedAt) (rest.length + 1) := by linarith
  have hgive := h.2.give hs.1 hused
  rw [← hslice] at hgive
  rwa [sub_sub_sub_cancel_right] at hgive

/-- Where no attempt is running, the books are closed. -/
theorem Clocked.Books.closed {p : Phase} (hs : s.Books timeoutMilliseconds p) (he : p.isEarly = false)
    (hp : ∀ x rest, p ≠ .probing x rest) :
    s.running = none ∧ ∃ remaining rest, s.Shared timeoutMilliseconds remaining rest := by
  cases p with
  | throwIfCancelled | spending | interrupted | swallowed => exact ⟨hs.1, _, _, hs.2⟩
  | probing x rest => exact absurd rfl (hp x rest)
  | summing | returned =>
    obtain ⟨hrunning, remaining, rest, hshared, -⟩ := hs
    exact ⟨hrunning, remaining, rest, hshared⟩
  | threw => exact hs
  | _ => cases he

/-- Once the budget is spent nobody is left, unless the caller has cancelled. -/
theorem Clocked.Shared.none_left (h : s.Shared timeoutMilliseconds (timeoutMilliseconds - s.elapsed) rest)
    (hs : s.Ample timeoutMilliseconds) (hspent : s.check.cancelled = true ∨ (timeoutMilliseconds : ℚ) ≤ s.elapsed) :
    rest = [] ∨ s.check.cancelled = true := by
  rcases hspent with hc | hle
  · exact Or.inr hc
  · refine Or.inl (List.eq_nil_iff_length_eq_zero.mpr (Nat.eq_zero_of_not_pos fun hl => ?_))
    have hremaining := h.remaining_pos hs hl
    linarith

/-- The loop is left before its end. -/
theorem Clocked.Books.breaksOff
    (hs : s.running = none ∧ s.Shared timeoutMilliseconds (timeoutMilliseconds - s.elapsed) rest)
    (hample : s.Ample timeoutMilliseconds)
    (hspent : s.check.cancelled = true ∨ (timeoutMilliseconds : ℚ) ≤ s.elapsed) (point : Point) (byToken : Bool) :
    Clocked.Books timeoutMilliseconds { s with check := s.check.breakOff point byToken } .summing :=
  ⟨hs.1, _, _, hs.2, hs.2.none_left hample hspent⟩

theorem Clocked.Books.starts (hs : s.Books timeoutMilliseconds (.spending x rest))
    (hample : s.Ample timeoutMilliseconds) :
    Clocked.Books timeoutMilliseconds { s with
      check := check
      running := some ⟨x, s.elapsed, slice (timeoutMilliseconds - s.elapsed) (rest.length + 1)⟩ }
      (.probing x rest) := by
  obtain ⟨-, hshared⟩ := hs
  have hslice := hshared.slice_eq hample
  have hone : 1 ≤ share (timeoutMilliseconds - s.elapsed) (rest.length + 1) := hshared.one_le hample (Nat.succ_pos _)
  refine ⟨_, rfl, rfl, hslice, ?_, hshared⟩
  rw [hslice]
  linarith

theorem Clocked.Books.ends {p : Phase} (hs : s.Books timeoutMilliseconds (.probing x rest))
    (hample : s.Ample timeoutMilliseconds)
    (hp : p = .next rest ∨ p = .interrupted rest ∨ (∃ e, p = .threw e) ∨ (∃ o, p = .returned o ∧ o.state = .online)) :
    Clocked.Books timeoutMilliseconds { s with
      check := check
      ended := s.ended ++ s.running.toList.map fun a => (a, s.elapsed - a.startedAt)
      running := none } p := by
  obtain ⟨a, hrunning, rfl, hslice, htime, hshared⟩ := hs
  have hended : Clocked.Shared timeoutMilliseconds { s with
      check := check
      ended := s.ended ++ s.running.toList.map fun a => (a, s.elapsed - a.startedAt)
      running := none } (timeoutMilliseconds - s.elapsed) rest := by
    refine ⟨by simpa [hrunning] using hshared.1, ?_⟩
    simpa [hrunning] using hshared.give hample hslice htime
  rcases hp with rfl | rfl | ⟨e, rfl⟩ | ⟨o, rfl, ho⟩
  · exact .next rfl hended
  · exact ⟨rfl, hended⟩
  · exact ⟨rfl, _, _, hended⟩
  · exact ⟨rfl, _, _, hended, Or.inr (Or.inr ho)⟩

theorem Clocked.Books.noted (hk : Kept timeoutMilliseconds s) (hallowed : s.allows timeoutMilliseconds event = true)
    (h : (machine device timeoutMilliseconds started).step s.check event = some check)
    (hs : s.Ample timeoutMilliseconds → s.Books timeoutMilliseconds s.check.phase)
    (hample : (s.noted timeoutMilliseconds check event).Ample timeoutMilliseconds) :
    (s.noted timeoutMilliseconds check event).Books timeoutMilliseconds check.phase := by
  have hnow := hk.noted hallowed h
  -- Before the loop no address is known.
  have hearly (he : s.check.phase.isEarly = true) (hnext : ∀ x rest, check.phase ≠ .throwIfCancelled x rest) :
      ¬ (s.noted timeoutMilliseconds check event).Ample timeoutMilliseconds := by
    rw [Clocked.Ample, noted_addresses fun _ x rest _ => hnext x rest, (hk.early he).1]
    exact fun hlen => Nat.lt_irrefl 0 hlen.1
  cases step_change h with
  | cancel => exact (hs hample).token fun _ => rfl
  | budgetFires => exact (hs hample).token id
  | refuses hp | enters hp | resolutionCancelled hp | slow hp | noAddress hp =>
    exact absurd hample (hearly (by rw [hp]; rfl) fun _ _ h => (by cases h))
  | resolves _ hp | unresolved _ hp | resolutionThrew _ hp | resolved _ hp | spentBefore _ hp =>
    exact absurd hample (hearly (by rw [hp]; rfl) fun _ _ h => (by cases h))
  | begins x rest hp =>
    have ht := (hk.early (by rw [hp]; rfl)).2
    simp only [Clocked.noted, hp] at hnow ⊢
    exact ⟨(untried_iff.mp ht).2, .opening hnow ht⟩
  | reaches x rest hp | swallows rest hp =>
    simp only [Clocked.noted, hp] at hs hample ⊢
    exact hs hample
  | starts x rest hp =>
    simp only [Clocked.noted, State.note, hp] at hs hample ⊢
    exact (hs hample).starts hample
  | answers x rest hp =>
    rw [hp] at hs
    exact (hs hample).ends hample (probed_phase device started s.check x rest _)
  | tooLate x rest hp ht =>
    rw [noted_quiet (by rw [hp]; rfl) fun _ _ h => (by cases h)] at hample ⊢
    rw [hp] at hs
    exact .breaksOff (hs hample) hample (Or.inr (le_of_ticks hallowed ht)) _ _
  | spent x rest hp _ hb =>
    rw [noted_quiet (by rw [hp]; rfl) fun _ _ h => (by cases h)] at hample ⊢
    rw [hp] at hs
    exact .breaksOff (hs hample) hample (hk.budget hb) _ _
  | broken rest hp hb =>
    rw [noted_quiet (by rw [hp]; rfl) fun _ _ h => (by cases h)] at hample ⊢
    rw [hp] at hs
    exact .breaksOff (hs hample) hample (hk.budget hb) _ _
  | next rest hp =>
    simp only [Clocked.noted, hp] at hs hample ⊢
    exact .next (hs hample).1 (hs hample).2
  | sums hp =>
    obtain ⟨o, ho⟩ := sumUp_phase started s.check
    rw [noted_quiet (by rw [hp]; rfl) fun _ _ h => (by rw [ho] at h; cases h)] at hample ⊢
    rw [hp] at hs
    rw [ho]
    obtain ⟨hrunning, remaining, rest, hshared, hleft⟩ := hs hample
    refine ⟨hrunning, remaining, rest, hshared, hleft.imp_right fun hc => Or.inl ?_⟩
    exact sumUp_tokens.1.trans hc
  | seen hp hc =>
    by_cases he : s.check.phase.isEarly = true
    · exact absurd hample (hearly he fun _ _ h => (by cases h))
    · rw [Bool.not_eq_true] at he
      rw [noted_quiet he fun _ _ h => (by cases h)] at hample ⊢
      exact (hs hample).closed he fun x rest hphase => by rw [hphase] at hp; cases hp

/-! ## Whole runs -/

theorem kept_step (hk : Kept timeoutMilliseconds s) (h : s.step device timeoutMilliseconds started e = some t) :
    Kept timeoutMilliseconds t := by
  obtain ⟨ha, hallowed, check, hstep, rfl⟩ := clocked_cases h
  exact (hk.wait ha).noted hallowed hstep

theorem kept_start : Kept timeoutMilliseconds {} :=
  ⟨fun _ => ⟨rfl, rfl⟩, fun _ => rfl, fun hb => (by cases hb), List.nodup_nil, List.nodup_nil⟩

variable {log : List (Clocked × (ℚ × Event))}

theorem kept_of_runs (hr : (clocked device timeoutMilliseconds started).Runs log s) : Kept timeoutMilliseconds s := by
  refine Machine.Reach.inv ?_ (fun _ _ _ => kept_step) ⟨log, hr⟩
  intro s hs
  cases hs
  exact kept_start

theorem books_of_runs (hr : (clocked device timeoutMilliseconds started).Runs log s)
    (hp : Machine.Throughout Punctual log) (hs : s.Ample timeoutMilliseconds) :
    s.Books timeoutMilliseconds s.check.phase := by
  have hboth := hr.inv (I := fun s => Kept timeoutMilliseconds s ∧
    (s.Ample timeoutMilliseconds → s.Books timeoutMilliseconds s.check.phase)) ?_ ?_ hp
  · exact hboth.2 hs
  · intro s hs
    cases hs
    exact ⟨kept_start, fun _ => trivial⟩
  · intro s e t hs hpunctual h
    obtain ⟨hk, hbooks⟩ := hs
    refine ⟨kept_step hk h, ?_⟩
    obtain ⟨ha, hallowed, check, hstep, rfl⟩ := clocked_cases h
    rw [noted_check]
    refine Clocked.Books.noted (hk.wait ha) hallowed hstep fun hample => ?_
    exact (hbooks (hk.ample_of_wait ha hample)).wait hk ha hpunctual

/-- Every check comes to its end. -/
theorem log_length_le (hr : (clocked device timeoutMilliseconds started).Runs log s) :
    log.length + s.check.ahead ≤ 5 * s.addresses.length + 7 := by
  induction hr with
  | init hs =>
    cases hs
    exact Nat.le_refl _
  | @step log s t e hr h ih =>
    obtain ⟨-, -, check, hstep, rfl⟩ := clocked_cases h
    rw [noted_check, List.length_append, List.length_singleton]
    rcases (step_change hstep).ahead with hlower | ⟨ticks, x, rest, he, hp, hp', hahead⟩
    · have hsame : ((s.wait e.1).noted timeoutMilliseconds check e.2).addresses = s.addresses :=
        noted_addresses fun xs x rest hx hx' => by
          rw [wait_check] at hx
          simp only [State.ahead, hx, hx', Phase.turns] at hlower
          split_ifs at hlower <;> omega
      rw [hsame]
      omega
    · have hnone : s.addresses = [] := ((kept_of_runs hr).early (by rw [hp]; rfl)).1
      have hnoted : ((s.wait e.1).noted timeoutMilliseconds check e.2).addresses = x :: rest := by
        simp only [Clocked.noted, he, wait_check, hp, hp']
      rw [hnone, List.length_nil] at ih
      rw [hnoted, List.length_cons]
      omega

/-- The books with the attempt that is running. -/
theorem Clocked.Books.tried {p : Phase} (hs : s.Books timeoutMilliseconds p) (hample : s.Ample timeoutMilliseconds)
    (he : p.isEarly = false) : ∃ remaining rest, s.tried ++ rest = s.addresses ∧
      Fair (timeoutMilliseconds - s.begun) s.addresses.length remaining rest.length s.slices := by
  by_cases hprobing : ∃ x rest, p = .probing x rest
  · obtain ⟨x, rest, rfl⟩ := hprobing
    obtain ⟨a, hrunning, rfl, hslice, htime, hshared⟩ := hs
    refine ⟨timeoutMilliseconds - s.elapsed, rest, ?_, ?_⟩
    · simpa [Clocked.tried, hrunning] using hshared.1
    · simpa [Clocked.slices, hrunning] using hshared.give hample hslice htime
  · obtain ⟨hrunning, remaining, rest, hshared⟩ := hs.closed he fun x rest hp => hprobing ⟨x, rest, hp⟩
    refine ⟨remaining, rest, ?_, ?_⟩
    · simpa [Clocked.tried, hrunning] using hshared.1
    · simpa [Clocked.slices, hrunning] using hshared.2

/-! ## No address is starved -/

theorem goOn_goes {s : State} (ticks : Int) (hover : s.phase.isOver = false) (hr : s.phase ≠ .resolving)
    (hp : ∀ x rest, s.phase ≠ .probing x rest) : ∃ s', s.goOn timeoutMilliseconds started ticks = some s' := by
  unfold State.goOn
  cases hphase : s.phase with
  | resolving => exact absurd hphase hr
  | probing x rest => exact absurd hphase (hp x rest)
  | returned | threw =>
    rw [hphase] at hover
    cases hover
  | summing => exact ⟨_, rfl⟩
  | _ =>
    simp only
    split_ifs <;> exact ⟨_, rfl⟩

/-- A step that takes no time. -/
theorem Kept.step_now (hk : Kept timeoutMilliseconds s) (hallowed : s.allows timeoutMilliseconds event = true)
    (h : (machine device timeoutMilliseconds started).step s.check event = some check) :
    s.step device timeoutMilliseconds started (0, event) = some (s.noted timeoutMilliseconds check event) := by
  simp only [Clocked.step, hk.wait_zero]
  rw [if_pos ⟨le_refl 0, hallowed⟩, h]
  rfl

/-- At once is in time. -/
theorem Clocked.Books.punctual (hs : s.Books timeoutMilliseconds s.check.phase) : Punctual s (0, event) := by
  unfold Punctual
  cases hphase : s.check.phase with
  | probing x rest =>
    rw [hphase] at hs
    obtain ⟨a, hrunning, -, -, htime, -⟩ := hs
    intro b hb
    obtain rfl : a = b := Option.some.inj (hrunning.symm.trans hb)
    simpa using htime
  | throwIfCancelled | spending | interrupted | swallowed => exact fun _ => rfl
  | _ => trivial

theorem Clocked.Books.goes (hs : s.Books timeoutMilliseconds s.check.phase) (hk : Kept timeoutMilliseconds s)
    (hover : s.check.phase.isOver = false) :
    ∃ e t, Punctual s e ∧ s.step device timeoutMilliseconds started e = some t := by
  by_cases hr : s.check.phase = .resolving
  · have hresolves : (machine device timeoutMilliseconds started).step s.check (.resolves (.ok [])) =
        some { s.check with phase := .resolved (ipv4 []) } := by
      simp only [machine, WindowsDeviceStatusService.step, hr]
    exact ⟨(0, .resolves (.ok [])), _, hs.punctual, hk.step_now rfl hresolves⟩
  · by_cases hp : ∃ x rest, s.check.phase = .probing x rest
    · obtain ⟨x, rest, hp⟩ := hp
      have hanswers : (machine device timeoutMilliseconds started).step s.check
          (.answers (.threw .operationCanceled)) = some (s.check.probed device started x rest (.threw .operationCanceled)) := by
        simp [machine, WindowsDeviceStatusService.step, hp, possible]
      exact ⟨(0, .answers (.threw .operationCanceled)), _, hs.punctual, hk.step_now rfl hanswers⟩
    · obtain ⟨check, hcheck⟩ := goOn_goes ⌊s.elapsed * 10000⌋ hover hr fun x rest hx => hp ⟨x, rest, hx⟩
      exact ⟨(0, .goesOn ⌊s.elapsed * 10000⌋), _, hs.punctual, hk.step_now (decide_eq_true rfl) hcheck⟩

theorem Clocked.Books.reached (hs : s.Books timeoutMilliseconds (.spending x rest)) (hk : Kept timeoutMilliseconds s)
    (hample : s.Ample timeoutMilliseconds) (hp : s.check.phase = .spending x rest) (hc : s.check.cancelled = false) :
    0 < timeoutMilliseconds - s.elapsed ∧
      ∃ t, s.step device timeoutMilliseconds started (0, .goesOn ⌊s.elapsed * 10000⌋) = some t ∧
        t.tried = s.tried ++ [x] := by
  obtain ⟨hrunning, hshared⟩ := hs
  have hremaining := hshared.remaining_pos hample (Nat.succ_pos _)
  have hallowed : s.allows timeoutMilliseconds (.goesOn ⌊s.elapsed * 10000⌋) = true := decide_eq_true rfl
  have hticks : ¬ timeoutMilliseconds * 10000 - ⌊s.elapsed * 10000⌋ ≤ 0 := fun hle => by
    have hspent := le_of_ticks hallowed hle
    linarith
  have hbudget : s.check.budget = false := Bool.eq_false_iff.mpr fun hb => by
    rcases hk.budget hb with hcancelled | hspent
    · cases hcancelled.symm.trans hc
    · linarith
  have hgoes : (machine device timeoutMilliseconds started).step s.check (.goesOn ⌊s.elapsed * 10000⌋) =
      some (s.check.note (.probing x rest) [.probeStarts x]) := by
    simp only [machine, WindowsDeviceStatusService.step, State.goOn, hp, if_neg hticks, hbudget]
    rfl
  refine ⟨hremaining, _, hk.step_now hallowed hgoes, ?_⟩
  simp [Clocked.noted, hp, State.note, Clocked.tried, hrunning]

/-- Where no attempt outlasts its slice, no time passes between attempts, and a millisecond remains for each
    address at first, no address is starved; and the check comes to its end. -/
theorem no_address_starved (hr : (clocked device timeoutMilliseconds started).Runs log s)
    (hp : Machine.Throughout Punctual log) (hs : s.Ample timeoutMilliseconds) :
    NoneStarved device timeoutMilliseconds started s ∧ log.length ≤ 5 * s.addresses.length + 7 := by
  have hk := kept_of_runs hr
  have hbooks := books_of_runs hr hp hs
  have hlate : s.check.phase.isEarly = false := Bool.eq_false_iff.mpr fun he => by
    have hpos := hs.1
    rw [(hk.early he).1] at hpos
    exact Nat.lt_irrefl 0 hpos
  obtain ⟨remaining, rest, htried, hfair⟩ := hbooks.tried hs hlate
  have htotal : 0 ≤ (timeoutMilliseconds : ℚ) - s.begun := le_trans (Nat.cast_nonneg _) hs.2
  refine ⟨⟨hk.distinct, ⟨rest, htried⟩, hbooks.goes hk, ?_, ?_, hfair.least, hfair.rising, hfair.used_le hs.1 htotal⟩, ?_⟩
  · intro x rest hphase hc
    exact (hphase ▸ hbooks).reached hk hs hphase hc
  · intro o hphase hoffline hc
    rw [hphase] at hbooks
    obtain ⟨hrunning, remaining, rest, hshared, hleft⟩ := hbooks
    rcases hleft with rfl | hcancelled | honline
    · simpa [Clocked.tried, hrunning] using hshared.1
    · cases hcancelled.symm.trans hc
    · exact absurd honline hoffline
  · have hlength := log_length_le hr
    omega

end

/-- Names are resolved in 40 of 100 milliseconds. The first address refuses after 10 of its 30; the second does not
    answer in its 50. -/
def nasRefusesThenIsSilent : List (ℚ × Event) :=
  [(0, .goesOn 0), (40, .resolves (.ok [.v4 0x0A020005, .v4 0x0A020006])), (0, .goesOn 400000), (0, .goesOn 400000),
    (0, .goesOn 400000), (0, .goesOn 400000), (10, .answers (.threw (.socket (str "ConnectionRefused")))),
    (0, .goesOn 500000), (0, .goesOn 500000), (50, .answers (.threw .operationCanceled)), (0, .budgetFires),
    (0, .goesOn 1000000), (0, .goesOn 1000000), (0, .goesOn 1000000)]

theorem nas_not_starved : ∃ s, (clocked nas 100 ⟨0, 0⟩).Reach s ∧ s.check.phase = silent ⟨0, 0⟩ 2 ∧
    s.slices = [(30, 10), (50, 50)] ∧ NoneStarved nas 100 ⟨0, 0⟩ s := by
  obtain ⟨log, s, hr, hp, hs⟩ := Machine.exists_run (clocked nas 100 ⟨0, 0⟩) Punctual
    (fun s => (s.check.phase = silent ⟨0, 0⟩ 2 && s.slices = [(30, 10), (50, 50)]) &&
      (s.addresses = [0x0A020005, 0x0A020006] && s.begun = 40))
    nasRefusesThenIsSilent rfl (by decide +kernel)
  obtain ⟨hend, hopening⟩ := Bool.and_eq_true_iff.mp hs
  obtain ⟨hphase, hslices⟩ := Bool.and_eq_true_iff.mp hend
  obtain ⟨haddresses, hbegun⟩ := Bool.and_eq_true_iff.mp hopening
  have hample : s.Ample 100 := by
    rw [Clocked.Ample, of_decide_eq_true haddresses, of_decide_eq_true hbegun]
    norm_num
  exact ⟨s, ⟨log, hr⟩, of_decide_eq_true hphase, of_decide_eq_true hslices, (no_address_starved hr hp hample).1⟩

end MythLab.Monitoring.WindowsDeviceStatusService
