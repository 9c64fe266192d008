/-
  MythLab.App.StaleCompletions — a check or a wake writes on its card only while the card
  has the generation it started with.

  `Inv`: every check and every wake knows a card that has been made, by its id. A check or
  a wake starts with the generation that its card then has (`Began`), generations are only
  counted up (`Later`), and a synchronization that takes a card off the page or gives it
  another target counts its generation up, as the start of a wake does. So whatever
  started before finds another generation, unless 2^32 of them have been counted
  meanwhile, and writes nothing (`check_frame`, `wake_frame`).

  Sweeps: `SweepInv`, only the last one can be in progress, and the checks that run are
  of its present batch.

  Proved: `stale_completions_never_touch`. A check that is in flight while its device
  changes its target 2^32 times writes on the card (`wrapped_check_touches`).
-/
import Mathlib.Algebra.Group.Nat.Defs
import MythLab.Lib.Indexed
import MythLab.App.Synchronize

namespace MythLab.App.DeviceActivityViewModel

open Lib Dotnet Devices

/-! ## What lasts -/

/-- What never changes of a check, and of a wake. -/
def Check.origin (c : Check) : Nat × Nat × Int32 × Device := (c.sweep, c.card, c.generation, c.device)

def Wake.origin (w : Wake) : Nat × Int32 × Device × Bool := (w.card, w.generation, w.device, w.test)

structure Later (s t : State) : Prop where
  made : s.made ≤ t.made
  raised : ∀ x < s.made, (s.card x).raised ≤ (t.card x).raised
  id : ∀ x < s.made, (t.card x).id = (s.card x).id
  checks : Persists Check.origin s.checks t.checks
  wakes : Persists Wake.origin s.wakes t.wakes

theorem Later.refl (s : State) : Later s s :=
  ⟨Nat.le_refl _, fun _ _ => Nat.le_refl _, fun _ _ => rfl, .refl _, .refl _⟩

theorem Later.trans {s t u : State} (h : Later s t) (h' : Later t u) : Later s u where
  made := Nat.le_trans h.made h'.made
  raised x hx := Nat.le_trans (h.raised x hx) (h'.raised x (Nat.lt_of_lt_of_le hx h.made))
  id x hx := (h'.id x (Nat.lt_of_lt_of_le hx h.made)).trans (h.id x hx)
  checks := h.checks.trans h'.checks
  wakes := h.wakes.trans h'.wakes

/-- The card and the device that a check or a wake started with. -/
def Owned (s : State) (card : Nat) (device : Device) : Prop := card < s.made ∧ device.id = (s.card card).id

theorem Owned.later {s t : State} {card : Nat} {device : Device} (h : Owned s card device) (hl : Later s t) :
    Owned t card device := by
  obtain ⟨hcard, hid⟩ := h
  exact ⟨Nat.lt_of_lt_of_le hcard hl.made, hid.trans (hl.id card hcard).symm⟩

structure Inv (s : State) : Prop where
  tidy : Tidy s
  checks : ∀ c ∈ s.checks, Owned s c.card c.device
  wakes : ∀ w ∈ s.wakes, Owned s w.card w.device

variable {le : Str → Str → Bool} {s t s' : State} {e : Event}

theorem Evolves.wake_origin (h : Evolves s t) : t.wakes.map Wake.origin = s.wakes.map Wake.origin := by
  have hw := congrArg (List.map Wake.origin) h.wakes
  rwa [List.map_map, List.map_map] at hw

theorem Evolves.later (h : Evolves s t) : Later s t where
  made := h.made
  raised x hx := (h.card x hx).raised
  id x hx := (h.card x hx).id
  checks := by
    rw [h.checks]
    exact .refl _
  wakes := .of_map h.wake_origin fun _ _ he => he

theorem Evolves.inv (h : Evolves s t) (ht : Tidy t) (hi : Inv s) : Inv t where
  tidy := ht
  checks c hc := by
    rw [h.checks] at hc
    exact (hi.checks c hc).later h.later
  wakes w hw := by
    have hin := List.mem_map_of_mem (f := Wake.origin) hw
    rw [h.wake_origin] at hin
    obtain ⟨w', hw', he⟩ := List.mem_map.mp hin
    have howned := (hi.wakes w' hw').later h.later
    simp only [Wake.origin, Prod.mk.injEq] at he
    obtain ⟨hcard, -, hdevice, -⟩ := he
    rwa [hcard, hdevice] at howned

theorem Writes.later {x : Nat} {g : Int32} (h : Writes s t x g) : Later s t := by
  have hrest := h.rest
  refine ⟨?_, fun y _ => Nat.le_of_eq (h.every h.raised y).symm, fun y _ => h.every h.id y, ?_, ?_⟩
  · rw [hrest]
  · rw [hrest]
    exact .refl _
  · rw [hrest]
    exact .refl _

theorem Writes.inv {x : Nat} {g : Int32} (h : Writes s t x g) (hi : Inv s) : Inv t := by
  have hrest := h.rest
  have hpage : t.page = s.page := by rw [hrest]
  have hmade : t.made = s.made := by rw [hrest]
  refine ⟨hi.tidy.of_subset ?_ ?_ hmade fun y _ => h.every h.id y, ?_, ?_⟩
  · rw [hpage]
    exact hi.tidy.nodup
  · rw [hpage]
    exact fun _ hy => hy
  · intro c hc
    refine (hi.checks c ?_).later h.later
    rwa [hrest] at hc
  · intro w hw
    refine (hi.wakes w ?_).later h.later
    rwa [hrest] at hw

theorem setCheck_later {i : Nat} {check : Check} (hget : s.checks[i]? = some check) (phase : CheckPhase) :
    Later s (setCheck s i check phase) :=
  ⟨Nat.le_refl _, fun _ _ => Nat.le_refl _, fun _ _ => rfl, .set hget rfl, .refl _⟩

theorem setCheck_inv {i : Nat} {check : Check} (hget : s.checks[i]? = some check) (phase : CheckPhase) (hi : Inv s) :
    Inv (setCheck s i check phase) where
  tidy := ⟨hi.tidy.made, hi.tidy.unique⟩
  checks c hc := by
    rcases List.mem_or_eq_of_mem_set hc with hc | rfl
    · exact hi.checks c hc
    · exact hi.checks check (List.mem_of_getElem? hget)
  wakes := hi.wakes

theorem setWake_later {w : Nat} {wake : Wake} (hget : s.wakes[w]? = some wake) (phase : WakePhase) :
    Later s (setWake s w wake phase) :=
  ⟨Nat.le_refl _, fun _ _ => Nat.le_refl _, fun _ _ => rfl, .refl _, .set hget rfl⟩

theorem setWake_inv {w : Nat} {wake : Wake} (hget : s.wakes[w]? = some wake) (phase : WakePhase) (hi : Inv s) :
    Inv (setWake s w wake phase) where
  tidy := ⟨hi.tidy.made, hi.tidy.unique⟩
  checks := hi.checks
  wakes v hv := by
    rcases List.mem_or_eq_of_mem_set hv with hv | rfl
    · exact hi.wakes v hv
    · exact hi.wakes wake (List.mem_of_getElem? hget)

/-! ## Steps -/

/-- The state with other sweeps, and with more checks. -/
def swept (s : State) (sweeps : List Sweep) (checking : Bool) (checks : List Check) : State :=
  { s with sweeps := sweeps, checking := checking, checks := s.checks ++ checks }

theorem swept_later (s : State) (sweeps : List Sweep) (checking : Bool) (checks : List Check) :
    Later s (swept s sweeps checking checks) :=
  ⟨Nat.le_refl _, fun _ _ => Nat.le_refl _, fun _ _ => rfl, .append _ _, .refl _⟩

theorem beginCheck_some {i x : Nat} {c : Check} (h : beginCheck s i x = some c) :
    c = ⟨i, x, (s.card x).generation, (s.card x).device, .checking⟩ ∧ x ∈ s.page := by
  unfold beginCheck at h
  split at h
  · cases h
  · rename_i hguard
    rw [not_or, not_not] at hguard
    exact ⟨(Option.some.inj h).symm, hguard.2⟩

theorem swept_inv {sweeps : List Sweep} {checking : Bool} {checks : List Check} {i : Nat}
    (hchecks : ∀ c ∈ checks, ∃ x, beginCheck s i x = some c) (hi : Inv s) : Inv (swept s sweeps checking checks) where
  tidy := ⟨hi.tidy.made, hi.tidy.unique⟩
  checks c hc := by
    rcases List.mem_append.mp hc with hc | hc
    · exact hi.checks c hc
    · obtain ⟨x, hx⟩ := hchecks c hc
      obtain ⟨rfl, hpage⟩ := beginCheck_some hx
      exact ⟨hi.tidy.made x hpage, rfl⟩
  wakes := hi.wakes

/-- The sweep ends, or begins its next batch. -/
theorem nextBatch_eq (s : State) (i : Nat) (batches : List (List Nat)) :
    nextBatch s i batches = swept s (s.sweeps.set i .over) s.checking [] ∨
      ∃ batch rest, batches = batch :: rest ∧ nextBatch s i batches =
        swept s (s.sweeps.set i (.running rest)) s.checking (batch.filterMap (beginCheck s i)) := by
  have hover : { s with sweeps := s.sweeps.set i .over } = swept s (s.sweeps.set i .over) s.checking [] := by
    unfold swept
    rw [List.append_nil]
  cases batches with
  | nil => exact Or.inl hover
  | cons batch rest =>
    unfold nextBatch
    dsimp only
    by_cases hc : s.lifetimeCancelled = true
    · rw [if_pos hc]
      exact Or.inl hover
    · rw [if_neg hc]
      exact Or.inr ⟨batch, rest, rfl, rfl⟩

theorem nextBatch_later_inv (i : Nat) (batches : List (List Nat)) (hi : Inv s) :
    Later s (nextBatch s i batches) ∧ Inv (nextBatch s i batches) := by
  rcases nextBatch_eq s i batches with h | ⟨batch, rest, -, h⟩
  · have hnone : ∀ c ∈ ([] : List Check), ∃ x, beginCheck s i x = some c := fun c hc => nomatch hc
    rw [h]
    exact ⟨swept_later .., swept_inv hnone hi⟩
  · rw [h]
    refine ⟨swept_later .., swept_inv (i := i) ?_ hi⟩
    intro c hc
    obtain ⟨x, -, hx⟩ := List.mem_filterMap.mp hc
    exact ⟨x, hx⟩

theorem checkNow_later_inv (hi : Inv s) : Later s (checkNow s) ∧ Inv (checkNow s) := by
  unfold checkNow
  split
  · exact ⟨.refl s, hi⟩
  · have hi' : Inv { s with checking := true, sweeps := s.sweeps ++ [.running []] } :=
      ⟨⟨hi.tidy.made, hi.tidy.unique⟩, hi.checks, hi.wakes⟩
    obtain ⟨hl, hi''⟩ := nextBatch_later_inv s.sweeps.length (chunk8 s.page) hi'
    exact ⟨⟨hl.made, hl.raised, hl.id, hl.checks, hl.wakes⟩, hi''⟩

/-- A card counted up or not, of the same id. -/
theorem setCard_later {x : Nat} {c : Card} (hg : (s.card x).raised ≤ c.raised) (hid : c.id = (s.card x).id) :
    Later s (setCard s x c) := by
  refine ⟨Nat.le_refl _, fun y _ => ?_, fun y _ => ?_, .refl _, .refl _⟩
  · rw [setCard_card]
    split
    · subst y
      exact hg
    · exact Nat.le_refl _
  · rw [setCard_card]
    split
    · subst y
      exact hid
    · rfl

theorem setCard_inv {x : Nat} {c : Card} (hg : (s.card x).raised ≤ c.raised) (hid : c.id = (s.card x).id)
    (hi : Inv s) : Inv (setCard s x c) := by
  have hl := setCard_later hg hid
  refine ⟨hi.tidy.of_subset hi.tidy.nodup (fun _ hy => hy) rfl ?_, ?_, ?_⟩
  · exact fun y hy => hl.id y (hi.tidy.made y hy)
  · exact fun c hc => (hi.checks c hc).later hl
  · exact fun w hw => (hi.wakes w hw).later hl

/-- A wake that starts. -/
def begun (s : State) (x : Nat) (test : Bool) : State :=
  { setCard s x { (s.card x).countUp with isWaking := true } with
    registry := s.registry ++ [((s.card x).id, s.wakes.length)]
    wakes := s.wakes ++ [⟨x, (s.card x).generation + 1, (s.card x).device, test, false, .waking⟩] }

theorem beginWake_eq (s : State) (x : Nat) (test : Bool) :
    beginWake s x test = s ∨ beginWake s x test = begun s x test ∧ s.stopped = false ∧
      (s.card x).canWake = true ∧ x ∈ s.page ∧ s.registry.lookup (s.card x).id = none := by
  unfold beginWake
  split
  · exact Or.inl rfl
  · rename_i hguard
    simp only [not_or, Bool.not_eq_true, Bool.not_eq_false, not_not] at hguard
    split
    · exact Or.inl rfl
    · rename_i hfree
      rw [Bool.not_eq_true, Option.isSome_eq_false_iff, Option.isNone_iff_eq_none] at hfree
      exact Or.inr ⟨rfl, hguard.1, hguard.2.1, hguard.2.2, hfree⟩

theorem begun_later_inv {x : Nat} (hx : x ∈ s.page) (test : Bool) (hi : Inv s) :
    Later s (begun s x test) ∧ Inv (begun s x test) := by
  have hg : (s.card x).raised ≤ (s.card x).countUp.raised := Nat.le_succ _
  have hl : Later s (setCard s x { (s.card x).countUp with isWaking := true }) := setCard_later hg rfl
  have hi' : Inv (setCard s x { (s.card x).countUp with isWaking := true }) := setCard_inv hg rfl hi
  refine ⟨⟨hl.made, hl.raised, hl.id, hl.checks, .append _ _⟩, ⟨⟨hi'.tidy.made, hi'.tidy.unique⟩, hi'.checks, ?_⟩⟩
  intro w hw
  rcases List.mem_append.mp hw with hw | hw
  · exact hi'.wakes w hw
  · rw [List.mem_singleton.mp hw]
    refine ⟨hi.tidy.made x hx, ?_⟩
    show _ = ((setCard s x _).card x).id
    rw [setCard_self]
    rfl

theorem wakeReturned_later_inv {w : Nat} {wake : Wake} (hget : s.wakes[w]? = some wake) (hi : Inv s) :
    Later s (wakeReturned s w wake) ∧ Inv (wakeReturned s w wake) := by
  have hl : Later s (setCard s wake.card { s.card wake.card with isWaking := false }) :=
    setCard_later (Nat.le_refl _) rfl
  have hi' : Inv (setCard s wake.card { s.card wake.card with isWaking := false }) :=
    setCard_inv (Nat.le_refl _) rfl hi
  refine ⟨⟨hl.made, hl.raised, hl.id, hl.checks, .set hget rfl⟩, ⟨hi'.tidy.made, hi'.tidy.unique⟩, hi'.checks, ?_⟩
  intro v hv
  rcases List.mem_or_eq_of_mem_set hv with hv | rfl
  · exact hi'.wakes v hv
  · exact hi'.wakes wake (List.mem_of_getElem? hget)

theorem cancelWake_evolves (s : State) (x : Nat) (h : Tidy s) :
    Evolves s (cancelWake s x) ∧ Tidy (cancelWake s x) := by
  obtain ⟨wakes, heq, hw⟩ := cancelWake_eq s x
  have hsame : cancelWake s x = rewritten s wakes x (s.card x) s.page := by
    unfold rewritten
    rw [heq, Function.update_eq_self]
  rw [hsame]
  exact ⟨rewritten_evolves (fun _ => rfl) hw (.refl _) (fun _ hy => hy) fun _ hg => absurd rfl hg,
    rewritten_tidy h rfl (fun _ hy => hy) h.nodup⟩

theorem step_later_inv (hi : Inv s) (h : step le s e = some s') : Later s s' ∧ Inv s' := by
  cases step_change h with
  | synchronize devices =>
    obtain ⟨he, ht⟩ := synchronize_evolves le hi.tidy devices
    exact ⟨he.later, he.inv ht hi⟩
  | checkNow => exact checkNow_later_inv hi
  | batchEnds _ _ => exact nextBatch_later_inv _ _ hi
  | sweepReturns _ =>
    exact ⟨⟨Nat.le_refl _, fun _ _ => Nat.le_refl _, fun _ _ => rfl, .refl _, .refl _⟩,
      ⟨hi.tidy.made, hi.tidy.unique⟩, hi.checks, hi.wakes⟩
  | @checkAnswers i check answer hget _ =>
    obtain ⟨t, phase, heq, hw⟩ := checkAnswered_writes s i check answer
    have hget' : t.checks[i]? = some check := by rw [hw.rest]; exact hget
    rw [heq]
    exact ⟨hw.later.trans (setCheck_later hget' _), setCheck_inv hget' _ (hw.inv hi)⟩
  | @checkSaved i check observation answer hget _ =>
    obtain ⟨t, heq, hw⟩ := checkApplied_writes (hi.checks check (List.mem_of_getElem? hget)).2 i observation answer
    have hget' : t.checks[i]? = some check := by rw [hw.rest]; exact hget
    rw [heq]
    exact ⟨hw.later.trans (setCheck_later hget' _), setCheck_inv hget' _ (hw.inv hi)⟩
  | wake x test =>
    rcases beginWake_eq s x test with heq | ⟨heq, -, -, hx, -⟩
    · rw [heq]
      exact ⟨.refl s, hi⟩
    · rw [heq]
      exact begun_later_inv hx test hi
  | @wakeReports w wake progress _ =>
    have hw := wakeReported_writes s wake progress
    exact ⟨hw.later, hw.inv hi⟩
  | @wakeAnswers w wake answer hget _ =>
    obtain ⟨t, phase, heq, hw, -⟩ := wakeAnswered_writes s w wake answer
    have hget' : t.wakes[w]? = some wake := by rw [hw.rest]; exact hget
    rw [heq]
    exact ⟨hw.later.trans (setWake_later hget' _), setWake_inv hget' _ (hw.inv hi)⟩
  | @wakeSaved w wake outcome answer hget _ =>
    obtain ⟨t, heq, hw⟩ := wakeApplied_writes (hi.wakes wake (List.mem_of_getElem? hget)).2 w outcome answer
    have hget' : t.wakes[w]? = some wake := by rw [hw.rest]; exact hget
    rw [heq]
    exact ⟨hw.later.trans (setWake_later hget' _), setWake_inv hget' _ (hw.inv hi)⟩
  | wakeReturns hget _ => exact wakeReturned_later_inv hget hi
  | cancelWake x =>
    obtain ⟨he, ht⟩ := cancelWake_evolves s x hi.tidy
    exact ⟨he.later, he.inv ht hi⟩
  | stop =>
    exact ⟨⟨Nat.le_refl _, fun _ _ => Nat.le_refl _, fun _ _ => rfl, .refl _, .refl _⟩,
      ⟨hi.tidy.made, hi.tidy.unique⟩, hi.checks, hi.wakes⟩

theorem reach_inv (h : (machine le).Reach s) : Inv s := by
  refine h.inv (I := Inv) ?_ ?_
  · rintro _ rfl
    exact ⟨⟨fun _ hx => (nomatch hx), List.nodup_nil⟩, fun _ hc => (nomatch hc), fun _ hw => nomatch hw⟩
  · intro s e s' hi hs
    exact (step_later_inv hi hs).2

theorem leads_later (hi : Inv s) (h : (machine le).Leads s t) : Later s t := by
  have hboth : Later s t ∧ Inv t := by
    refine h.inv (I := fun t => Later s t ∧ Inv t) ?_ ⟨.refl s, hi⟩
    rintro u e u' ⟨hl, hi⟩ hs
    obtain ⟨hl', hi'⟩ := step_later_inv hi hs
    exact ⟨hl.trans hl', hi'⟩
  exact hboth.1

/-! ## Stale completions -/

theorem Writes.frame {x y : Nat} {g : Int32} (h : Writes s t y g) (hx : x = y → stale s y g = true) : t.card x = s.card x := by
  by_cases hxy : x = y
  · rw [h.fresh (hx hxy)]
  · exact h.others x hxy

/-- What a check runs on to write is on its card, and nothing if it is stale. -/
theorem check_frame (hi : Inv s) (h : step le s e = some s') {i : Nat} (he : e.ofCheck? = some i) {check : Check}
    (hget : s.checks[i]? = some check) {x : Nat} (hx : x = check.card → stale s check.card check.generation = true) :
    s'.card x = s.card x := by
  cases step_change h with
  | @checkAnswers j check' answer hget' _ =>
    cases he
    obtain rfl : check' = check := Option.some.inj (hget'.symm.trans hget)
    obtain ⟨t, phase, heq, hw⟩ := checkAnswered_writes s i check' answer
    rw [heq]
    exact hw.frame hx
  | @checkSaved j check' observation answer hget' _ =>
    cases he
    obtain rfl : check' = check := Option.some.inj (hget'.symm.trans hget)
    obtain ⟨t, heq, hw⟩ := checkApplied_writes (hi.checks check' (List.mem_of_getElem? hget)).2 i observation answer
    rw [heq]
    exact hw.frame hx
  | _ => cases he

theorem wake_frame (hi : Inv s) (h : step le s e = some s') {w : Nat} (he : e.ofWake? = some w) {wake : Wake}
    (hget : s.wakes[w]? = some wake) {x : Nat} (hx : x = wake.card → stale s wake.card wake.generation = true) :
    (s'.card x).look = (s.card x).look := by
  cases step_change h with
  | @wakeReports v wake' progress hget' =>
    cases he
    obtain rfl : wake' = wake := Option.some.inj (hget'.symm.trans hget)
    rw [(wakeReported_writes s wake' progress).frame hx]
  | @wakeAnswers v wake' answer hget' _ =>
    cases he
    obtain rfl : wake' = wake := Option.some.inj (hget'.symm.trans hget)
    obtain ⟨t, phase, heq, hw, -⟩ := wakeAnswered_writes s w wake' answer
    rw [heq]
    exact congrArg Card.look (hw.frame hx)
  | @wakeSaved v wake' outcome answer hget' _ =>
    cases he
    obtain rfl : wake' = wake := Option.some.inj (hget'.symm.trans hget)
    obtain ⟨t, heq, hw⟩ := wakeApplied_writes (hi.wakes wake' (List.mem_of_getElem? hget)).2 w outcome answer
    rw [heq]
    exact congrArg Card.look (hw.frame hx)
  | @wakeReturns v wake' _ _ =>
    show ((setCard s wake'.card _).card x).look = _
    rw [setCard_card]
    split
    · subst x
      rfl
    · rfl
  | _ => cases he

/-- The 32-bit generations differ until 2^32 more have been counted. -/
theorem Card.generation_ne {c d : Card} (h : c.raised < d.raised) (hfew : d.raised < c.raised + 2 ^ 32) :
    c.generation ≠ d.generation := by
  intro he
  have hbits := congrArg (fun x : Int32 => x.toBitVec.toNat) he
  simp only [Card.generation, Int32.toBitVec_ofNat', BitVec.toNat_ofNat] at hbits
  omega

/-- What a step starts has the generation that its card then has. -/
structure Began (s t : State) : Prop where
  checks : ∀ i check, s.checks.length ≤ i → t.checks[i]? = some check → check.generation = (t.card check.card).generation
  wakes : ∀ w wake, s.wakes.length ≤ w → t.wakes[w]? = some wake → wake.generation = (t.card wake.card).generation

theorem Began.none (hchecks : t.checks.length = s.checks.length) (hwakes : t.wakes.length = s.wakes.length) :
    Began s t where
  checks i check hi hget := by
    rw [List.getElem?_eq_none (hchecks ▸ hi)] at hget
    cases hget
  wakes w wake hw hget := by
    rw [List.getElem?_eq_none (hwakes ▸ hw)] at hget
    cases hget

theorem Began.of_evolves (h : Evolves s t) : Began s t :=
  .none (congrArg List.length h.checks) (by simpa using congrArg List.length h.wakes)

theorem nextBatch_began (i : Nat) (batches : List (List Nat)) : Began s (nextBatch s i batches) := by
  rcases nextBatch_eq s i batches with heq | ⟨batch, rest, -, heq⟩
  · rw [heq]
    exact .none (by simp [swept]) rfl
  · rw [heq]
    refine ⟨?_, ?_⟩
    · intro j check hj hget
      have hnew : check ∈ batch.filterMap (beginCheck s i) := by
        refine List.mem_of_getElem? (i := j - s.checks.length) ?_
        rw [← hget]
        exact (List.getElem?_append_right hj).symm
      obtain ⟨x, -, hx⟩ := List.mem_filterMap.mp hnew
      obtain ⟨rfl, -⟩ := beginCheck_some hx
      rfl
    · intro w wake hw hget
      cases (List.getElem?_eq_none hw).symm.trans hget

theorem step_began (hi : Inv s) (h : step le s e = some s') : Began s s' := by
  cases step_change h with
  | synchronize devices => exact .of_evolves (synchronize_evolves le hi.tidy devices).1
  | checkNow =>
    unfold checkNow
    split
    · exact .none rfl rfl
    · obtain ⟨hchecks, hwakes⟩ := nextBatch_began (s := { s with checking := true, sweeps := s.sweeps ++ [.running []] })
        s.sweeps.length (chunk8 s.page)
      exact ⟨hchecks, hwakes⟩
  | batchEnds _ _ => exact nextBatch_began _ _
  | sweepReturns _ => exact .none rfl rfl
  | @checkAnswers i check answer _ _ =>
    obtain ⟨t, phase, heq, hw⟩ := checkAnswered_writes s i check answer
    rw [heq, hw.rest]
    exact .none List.length_set rfl
  | @checkSaved i check observation answer hget _ =>
    obtain ⟨t, heq, hw⟩ := checkApplied_writes (hi.checks check (List.mem_of_getElem? hget)).2 i observation answer
    rw [heq, hw.rest]
    exact .none List.length_set rfl
  | wake x test =>
    rcases beginWake_eq s x test with heq | ⟨heq, -⟩
    · rw [heq]
      exact .none rfl rfl
    · rw [heq]
      refine ⟨?_, ?_⟩
      · intro i check hi hget
        cases (List.getElem?_eq_none hi).symm.trans hget
      · intro w wake hw hget
        rcases getElem?_snoc_cases hget with hget | ⟨-, rfl⟩
        · cases (List.getElem?_eq_none hw).symm.trans hget
        · show _ = ((setCard s x _).card x).generation
          rw [setCard_self]
          exact (Card.countUp_generation _).symm
  | @wakeReports w wake progress _ =>
    rw [(wakeReported_writes s wake progress).rest]
    exact .none rfl rfl
  | @wakeAnswers w wake answer _ _ =>
    obtain ⟨t, phase, heq, hw, -⟩ := wakeAnswered_writes s w wake answer
    rw [heq, hw.rest]
    exact .none rfl List.length_set
  | @wakeSaved w wake outcome answer hget _ =>
    obtain ⟨t, heq, hw⟩ := wakeApplied_writes (hi.wakes wake (List.mem_of_getElem? hget)).2 w outcome answer
    rw [heq, hw.rest]
    exact .none rfl List.length_set
  | wakeReturns _ _ => exact .none rfl List.length_set
  | cancelWake x => exact .of_evolves (cancelWake_evolves s x hi.tidy).1
  | stop => exact .none rfl rfl

/-- The event runs on in a check that was started from `s` to `t`, or in a wake. -/
def Event.OfChecks (s t : State) (e : Event) : Prop :=
  ∃ i, s.checks.length ≤ i ∧ i < t.checks.length ∧ e.ofCheck? = some i

def Event.OfWakes (s t : State) (e : Event) : Prop :=
  ∃ w, s.wakes.length ≤ w ∧ w < t.wakes.length ∧ e.ofWake? = some w

section Raised

/-! A step from `b` to `b'` started a check or a wake, and a later one from `s₀` to `s₁`
    counted up the card `x`; `s` is a later state, in which fewer than 2^32 have been
    counted on it since. -/

variable {b b' s₀ s₁ : State} {e₀ e₁ : Event} {x : Nat} (hb : (machine le).Reach b) (hb' : step le b e₀ = some b')
  (hl₀ : (machine le).Leads b' s₀) (hs₀ : step le s₀ e₁ = some s₁)
  (hraised : (s₀.card x).raised < (s₁.card x).raised) (hl : (machine le).Leads s₁ s)
  (hfew : (s.card x).raised < (b'.card x).raised + 2 ^ 32) (h : step le s e = some s')
include hb hb' hl₀ hs₀ hraised hl hfew

theorem raised_stale : Inv b' ∧ Later b' s ∧ Inv s ∧ (x < b'.made → (b'.card x).generation ≠ (s.card x).generation) := by
  have hinv' : Inv b' := reach_inv (Machine.reach_step e₀ hb hb')
  have hinv₀ : Inv s₀ := reach_inv ((Machine.reach_step e₀ hb hb').leads hl₀)
  obtain ⟨hlater₀₁, hinv₁⟩ := step_later_inv hinv₀ hs₀
  have hlater₀ := leads_later hinv' hl₀
  have hlater₁ := leads_later hinv₁ hl
  have hinv : Inv s := reach_inv ((Machine.reach_step e₁ ((Machine.reach_step e₀ hb hb').leads hl₀) hs₀).leads hl)
  refine ⟨hinv', (hlater₀.trans hlater₀₁).trans hlater₁, hinv, ?_⟩
  intro hmade
  have hmade₀ := Nat.lt_of_lt_of_le hmade hlater₀.made
  have hbefore := hlater₀.raised x hmade
  have hafter := hlater₁.raised x (Nat.lt_of_lt_of_le hmade₀ hlater₀₁.made)
  exact Card.generation_ne (by omega) hfew

include h

/-- The check does not write on the card. -/
theorem raised_check (he : e.OfChecks b b') : s'.card x = s.card x := by
  obtain ⟨hinv', hlater, hinv, hne⟩ := raised_stale hb hb' hl₀ hs₀ hraised hl hfew
  obtain ⟨i, hi, hi', he⟩ := he
  have hget' : b'.checks[i]? = some b'.checks[i] := List.getElem?_eq_getElem hi'
  obtain ⟨check, hget, horigin⟩ := hlater.checks i _ hget'
  simp only [Check.origin, Prod.mk.injEq] at horigin
  obtain ⟨-, hcard, hg, -⟩ := horigin
  refine check_frame hinv h he hget ?_
  rintro rfl
  have hmade := (hinv'.checks _ (List.mem_of_getElem? hget')).1
  have hbegan := (step_began (reach_inv hb) hb').checks i _ hi hget'
  rw [← hcard] at hmade hbegan
  rw [← hg] at hbegan
  exact decide_eq_true (hbegan ▸ hne hmade)

/-- Nor does the wake, but for the card's being a waking one. -/
theorem raised_wake (he : e.OfWakes b b') : (s'.card x).look = (s.card x).look := by
  obtain ⟨hinv', hlater, hinv, hne⟩ := raised_stale hb hb' hl₀ hs₀ hraised hl hfew
  obtain ⟨w, hw, hw', he⟩ := he
  have hget' : b'.wakes[w]? = some b'.wakes[w] := List.getElem?_eq_getElem hw'
  obtain ⟨wake, hget, horigin⟩ := hlater.wakes w _ hget'
  simp only [Wake.origin, Prod.mk.injEq] at horigin
  obtain ⟨hcard, hg, -⟩ := horigin
  refine wake_frame hinv h he hget ?_
  rintro rfl
  have hmade := (hinv'.wakes _ (List.mem_of_getElem? hget')).1
  have hbegan := (step_began (reach_inv hb) hb').wakes w _ hw hget'
  rw [← hcard] at hmade hbegan
  rw [← hg] at hbegan
  exact decide_eq_true (hbegan ▸ hne hmade)

end Raised

/-- A wake that starts counts up its card. -/
theorem begun_raised {x : Nat} {test : Bool} (h : step le s (.wake x test) = some s')
    (hstarted : s.wakes.length < s'.wakes.length) : (s.card x).raised < (s'.card x).raised := by
  cases step_change h with
  | wake _ _ =>
    rcases beginWake_eq s x test with heq | ⟨heq, -⟩
    · rw [heq] at hstarted
      exact absurd hstarted (Nat.lt_irrefl _)
    · rw [heq]
      show _ < ((setCard s x _).card x).raised
      rw [setCard_self]
      exact Nat.lt_succ_self _

/-! ## Sweeps -/

def Check.inFlight (c : Check) : Bool := c.phase ≠ .ended

structure SweepInv (s : State) : Prop where
  /-- A sweep in progress is the last one, and is marked. -/
  last : ∀ (i : Nat) (sweep : Sweep), s.sweeps[i]? = some sweep → sweep ≠ .returned →
    s.checking = true ∧ i + 1 = s.sweeps.length
  small : ∀ (i : Nat) (batches : List (List Nat)), s.sweeps[i]? = some (.running batches) →
    ∀ batch ∈ batches, batch.length ≤ 8
  running : ∀ c ∈ s.checks, c.inFlight = true → ∃ batches, s.sweeps[c.sweep]? = some (.running batches)
  few : s.checks.countP Check.inFlight ≤ 8

/-- Sweeps see nothing of what is written on the cards. -/
theorem SweepInv.congr (h : SweepInv s) (hsweeps : t.sweeps = s.sweeps) (hchecking : t.checking = s.checking)
    (hchecks : t.checks = s.checks) : SweepInv t := by
  obtain ⟨hlast, hsmall, hrunning, hfew⟩ := h
  refine ⟨?_, ?_, ?_, ?_⟩
  · rw [hsweeps, hchecking]
    exact hlast
  · rw [hsweeps]
    exact hsmall
  · rw [hsweeps, hchecks]
    exact hrunning
  · rw [hchecks]
    exact hfew

theorem SweepInv.writes {x : Nat} {g : Int32} (h : SweepInv s) (hw : Writes s t x g) : SweepInv t :=
  h.congr (by rw [hw.rest]) (by rw [hw.rest]) (by rw [hw.rest])

theorem chunk8_small (cards : List Nat) : ∀ batch ∈ chunk8 cards, batch.length ≤ 8 := by
  intro batch hb
  obtain ⟨i, -, rfl⟩ := List.mem_map.mp hb
  exact List.length_take_le _ _

/-- A check moves on, and is in flight only if it was. -/
theorem setCheck_sweepInv {i : Nat} {check : Check} (hget : s.checks[i]? = some check) (hopen : check.phase ≠ .ended)
    (phase : CheckPhase) (h : SweepInv s) : SweepInv (setCheck s i check phase) := by
  obtain ⟨hlt, he⟩ := List.getElem?_eq_some_iff.mp hget
  have hwas : check.inFlight = true := decide_eq_true hopen
  refine ⟨h.last, h.small, ?_, ?_⟩
  · intro c hc hflight
    rcases List.mem_or_eq_of_mem_set hc with hc | rfl
    · exact h.running c hc hflight
    · exact h.running check (List.mem_of_getElem? hget) hwas
  · have hfew := h.few
    have hpos : 0 < s.checks.countP Check.inFlight := List.countP_pos_iff.mpr ⟨check, List.mem_of_getElem? hget, hwas⟩
    show List.countP _ (s.checks.set i _) ≤ 8
    rw [List.countP_set hlt, he, if_pos hwas]
    split <;> omega

/-- When no check runs any more, the sweep ends or begins a batch. -/
theorem nextBatch_sweepInv {i : Nat} {batches rest : List (List Nat)} (hget : s.sweeps[i]? = some (.running rest))
    (hquiet : ∀ c ∈ s.checks, c.inFlight = false) (hsmall : ∀ batch ∈ batches, batch.length ≤ 8) (h : SweepInv s) :
    SweepInv (nextBatch s i batches) := by
  obtain ⟨hchecking, hi⟩ := h.last i _ hget nofun
  have hnone : s.checks.countP Check.inFlight = 0 := List.countP_eq_zero.mpr fun c hc => by simp [hquiet c hc]
  -- the sweep keeps its place, which is the last
  have hlast (sweep : Sweep) : ∀ (j : Nat) (b : Sweep), (s.sweeps.set i sweep)[j]? = some b → b ≠ .returned →
      s.checking = true ∧ j + 1 = (s.sweeps.set i sweep).length := by
    intro j b hb hne
    rw [List.length_set]
    rcases getElem?_set_cases hb with ⟨-, hb⟩ | ⟨rfl, -⟩
    · exact h.last j b hb hne
    · exact ⟨hchecking, hi⟩
  rcases nextBatch_eq s i batches with heq | ⟨batch, others, rfl, heq⟩
  · rw [heq]
    refine ⟨hlast .over, ?_, ?_, ?_⟩
    · intro j bs hb
      rcases getElem?_set_cases hb with ⟨-, hb⟩ | ⟨-, hb⟩
      · exact h.small j bs hb
      · cases hb
    · intro c hc hflight
      rw [hquiet c (by simpa [swept] using hc)] at hflight
      cases hflight
    · show List.countP _ (s.checks ++ []) ≤ 8
      rw [List.append_nil, hnone]
      exact Nat.zero_le _
  · rw [heq]
    refine ⟨hlast _, ?_, ?_, ?_⟩
    · intro j bs hb
      rcases getElem?_set_cases hb with ⟨-, hb⟩ | ⟨-, hb⟩
      · exact h.small j bs hb
      · cases hb
        exact fun b hb => hsmall b (List.mem_cons_of_mem _ hb)
    · intro c hc hflight
      rcases List.mem_append.mp hc with hc | hc
      · rw [hquiet c hc] at hflight
        cases hflight
      · obtain ⟨x, -, hx⟩ := List.mem_filterMap.mp hc
        obtain ⟨rfl, -⟩ := beginCheck_some hx
        refine ⟨others, ?_⟩
        show (s.sweeps.set i _)[i]? = _
        rw [List.getElem?_set_self (by omega)]
    · show List.countP _ (s.checks ++ _) ≤ 8
      rw [List.countP_append, hnone, Nat.zero_add]
      have hlen := hsmall batch List.mem_cons_self
      have hnew := List.length_filterMap_le (beginCheck s i) batch
      exact Nat.le_trans List.countP_le_length (Nat.le_trans hnew hlen)

/-- A check in flight belongs to the sweep in progress. -/
theorem SweepInv.same_sweep (h : SweepInv s) {i : Nat} {sweep : Sweep} (hget : s.sweeps[i]? = some sweep)
    (hne : sweep ≠ .returned) {c : Check} (hc : c ∈ s.checks) (hflight : c.inFlight = true) : c.sweep = i := by
  obtain ⟨batches, hb⟩ := h.running c hc hflight
  have hlast := (h.last _ _ hb nofun).2
  have hlast' := (h.last _ _ hget hne).2
  omega

theorem checkNow_sweepInv (h : SweepInv s) : SweepInv (checkNow s) := by
  unfold checkNow
  by_cases hguard : s.stopped = true ∨ s.checking = true
  · rw [if_pos hguard]
    exact h
  rw [if_neg hguard]
  have hover (i : Nat) (sweep : Sweep) (hget : s.sweeps[i]? = some sweep) : sweep = .returned := by
    by_contra hne
    exact hguard (Or.inr (h.last i sweep hget hne).1)
  have hquiet : ∀ c ∈ s.checks, c.inFlight = false := by
    intro c hc
    refine (Bool.not_eq_true _).mp fun hflight => ?_
    obtain ⟨batches, hb⟩ := h.running c hc hflight
    cases hover _ _ hb
  have hbegun : SweepInv { s with checking := true, sweeps := s.sweeps ++ [.running []] } := by
    refine ⟨?_, ?_, ?_, h.few⟩
    · intro i sweep hget hne
      rcases getElem?_snoc_cases hget with hget | ⟨rfl, -⟩
      · exact absurd (hover i sweep hget) hne
      · exact ⟨rfl, by simp⟩
    · intro i batches hget
      rcases getElem?_snoc_cases hget with hget | ⟨-, hb⟩
      · exact h.small i batches hget
      · cases hb
        exact fun _ hb => nomatch hb
    · intro c hc hflight
      rw [hquiet c hc] at hflight
      cases hflight
  exact nextBatch_sweepInv List.getElem?_concat_length hquiet (chunk8_small s.page) hbegun

theorem sweepReturns_sweepInv {i : Nat} (hget : s.sweeps[i]? = some .over) (h : SweepInv s) :
    SweepInv { s with sweeps := s.sweeps.set i .returned, checking := false } := by
  have hi := (h.last i _ hget nofun).2
  refine ⟨?_, ?_, ?_, h.few⟩
  · intro j sweep hj hne
    rcases getElem?_set_cases hj with ⟨hij, hj⟩ | ⟨-, rfl⟩
    · have hj' := (h.last j sweep hj hne).2
      omega
    · exact absurd rfl hne
  · intro j batches hj
    rcases getElem?_set_cases hj with ⟨-, hj⟩ | ⟨-, hb⟩
    · exact h.small j batches hj
    · cases hb
  · intro c hc hflight
    obtain ⟨batches, hb⟩ := h.running c hc hflight
    rw [h.same_sweep hget nofun hc hflight, hget] at hb
    cases hb

theorem step_sweepInv (hi : Inv s) (h : SweepInv s) (hs : step le s e = some s') : SweepInv s' := by
  cases step_change hs with
  | synchronize devices =>
    obtain ⟨he, -⟩ := synchronize_evolves le hi.tidy devices
    exact h.congr he.sweeps he.flags.1 he.checks
  | checkNow => exact checkNow_sweepInv h
  | @batchEnds i batches hget hended =>
    refine nextBatch_sweepInv hget ?_ (h.small i batches hget) h
    intro c hc
    refine (Bool.not_eq_true _).mp fun hflight => ?_
    exact of_decide_eq_true hflight (hended c hc (h.same_sweep hget nofun hc hflight))
  | sweepReturns hget => exact sweepReturns_sweepInv hget h
  | @checkAnswers i check answer hget hphase =>
    obtain ⟨t, phase, heq, hw⟩ := checkAnswered_writes s i check answer
    rw [heq]
    exact setCheck_sweepInv (by rw [hw.rest]; exact hget) (by rw [hphase]; nofun) phase (h.writes hw)
  | @checkSaved i check observation answer hget hphase =>
    obtain ⟨t, heq, hw⟩ := checkApplied_writes (hi.checks check (List.mem_of_getElem? hget)).2 i observation answer
    rw [heq]
    exact setCheck_sweepInv (by rw [hw.rest]; exact hget) (by rw [hphase]; nofun) .ended (h.writes hw)
  | wake x test =>
    rcases beginWake_eq s x test with heq | ⟨heq, -⟩
    · rw [heq]
      exact h
    · rw [heq]
      exact h.congr rfl rfl rfl
  | @wakeReports w wake progress _ => exact h.writes (wakeReported_writes s wake progress)
  | @wakeAnswers w wake answer _ _ =>
    obtain ⟨t, phase, heq, hw, -⟩ := wakeAnswered_writes s w wake answer
    rw [heq]
    exact (h.writes hw).congr rfl rfl rfl
  | @wakeSaved w wake outcome answer hget _ =>
    obtain ⟨t, heq, hw⟩ := wakeApplied_writes (hi.wakes wake (List.mem_of_getElem? hget)).2 w outcome answer
    rw [heq]
    exact (h.writes hw).congr rfl rfl rfl
  | wakeReturns _ _ => exact h.congr rfl rfl rfl
  | cancelWake x =>
    obtain ⟨he, -⟩ := cancelWake_evolves s x hi.tidy
    exact h.congr he.sweeps he.flags.1 he.checks
  | stop => exact h.congr rfl rfl rfl

theorem reach_sweepInv (h : (machine le).Reach s) : SweepInv s := by
  have hboth : Inv s ∧ SweepInv s := by
    refine h.inv (I := fun s => Inv s ∧ SweepInv s) ?_ ?_
    · intro s hs
      refine ⟨reach_inv ⟨[], .init hs⟩, ?_⟩
      cases hs
      exact ⟨fun _ _ hget => (nomatch hget), fun _ _ hget => (nomatch hget), fun _ hc => (nomatch hc), Nat.zero_le _⟩
    · rintro s e s' ⟨hi, h⟩ hs
      exact ⟨(step_later_inv hi hs).2, step_sweepInv hi h hs⟩
  exact hboth.2

/-! ## What a stale completion does -/

/-- After a synchronization that takes a card off the page or gives it another target,
    the checks and the wakes that started before do not change what the card shows; after
    the start of a wake, the checks that started before do not write on its card: as long
    as fewer than 2^32 generations of the card have been counted since they started. Of the
    sweeps one at most is in progress, and of its checks eight at most are in flight. -/
theorem stale_completions_never_touch (le : Str → Str → Bool) :
    (∀ b e₀ b' s₀ devices s₁ s e s' x, (machine le).Reach b → step le b e₀ = some b' → (machine le).Leads b' s₀ →
        step le s₀ (.synchronize devices) = some s₁ → Invalidates s₀ devices x → (machine le).Leads s₁ s →
        (s.card x).raised < (b'.card x).raised + 2 ^ 32 → step le s e = some s' → e.OfChecks b b' ∨ e.OfWakes b b' →
        (s'.card x).look = (s.card x).look) ∧
      (∀ b e₀ b' s₀ x test s₁ s e s', (machine le).Reach b → step le b e₀ = some b' → (machine le).Leads b' s₀ →
        step le s₀ (.wake x test) = some s₁ → s₀.wakes.length < s₁.wakes.length → (machine le).Leads s₁ s →
        (s.card x).raised < (b'.card x).raised + 2 ^ 32 → step le s e = some s' → e.OfChecks b b' →
        s'.card x = s.card x) ∧
      (∀ (s : State) (i j : Nat) (a b : Sweep), (machine le).Reach s → s.sweeps[i]? = some a →
        s.sweeps[j]? = some b → a ≠ .returned → b ≠ .returned → i = j) ∧
      ∀ s, (machine le).Reach s → s.checks.countP Check.inFlight ≤ 8 := by
  refine ⟨?_, ?_, ?_, fun s hs => (reach_sweepInv hs).few⟩
  · intro b e₀ b' s₀ devices s₁ s e s' x hb hb' hl₀ hs₀ hx hl hfew hs he
    have hraised : (s₀.card x).raised < (s₁.card x).raised := by
      cases hs₀
      exact invalidated_raised le (reach_inv ((Machine.reach_step e₀ hb hb').leads hl₀)).tidy hx
    rcases he with he | he
    · rw [raised_check hb hb' hl₀ hs₀ hraised hl hfew hs he]
    · exact raised_wake hb hb' hl₀ hs₀ hraised hl hfew hs he
  · intro b e₀ b' s₀ x test s₁ s e s' hb hb' hl₀ hs₀ hstarted hl hfew hs he
    exact raised_check hb hb' hl₀ hs₀ (begun_raised hs₀ hstarted) hl hfew hs he
  · intro s i j a b hs ha hb hne hne'
    have hi := ((reach_sweepInv hs).last i a ha hne).2
    have hj := ((reach_sweepInv hs).last j b hb hne').2
    omega

/-! ## A server given other targets while it is checked -/

def server : Device :=
  { id := 1, displayName := str "Server", ipv4Address := str "192.0.2.7", macAddress := str "02:00:00:00:00:07",
    wake := { capability := .enabledUnverified } }

def movedServer : Device := { server with macAddress := str "02:00:00:00:00:08" }

def byName (a b : Str) : Bool := binaryLe a b

/-- The server is listed. -/
def listed : State := synchronize byName start [server]

theorem reach_listed : (machine byName).Reach listed := Machine.reach_step (.synchronize [server]) ⟨[], .init rfl⟩ rfl

/-- A sweep checks it, and it is given another target. -/
def moved : State := synchronize byName (checkNow listed) [movedServer]

theorem moved_invalidates : Invalidates (checkNow listed) [movedServer] 0 :=
  ⟨by decide +kernel, Or.inr ⟨movedServer, List.mem_singleton.mpr rfl, by decide +kernel, by decide +kernel⟩⟩

/-- The sweep checks it, and it is woken. -/
def wokenServer : State := beginWake (checkNow listed) 0 false

/-- The check of the sweep ends. -/
def checkThrows : Event := .checkAnswers 0 (.error (.io "network down"))

theorem moved_server_is_left :
    (∃ s', step byName moved checkThrows = some s' ∧ (s'.card 0).look = (moved.card 0).look) ∧
      ∃ s', step byName wokenServer checkThrows = some s' ∧ s'.card 0 = wokenServer.card 0 := by
  obtain ⟨hmoved, hwoken, -⟩ := stale_completions_never_touch byName
  have hstarted : checkThrows.OfChecks listed (checkNow listed) := ⟨0, by decide +kernel, by decide +kernel, rfl⟩
  refine ⟨?_, ?_⟩
  · obtain ⟨s', hs'⟩ := Option.isSome_iff_exists.mp
      (show (step byName moved checkThrows).isSome = true by decide +kernel)
    refine ⟨s', hs', ?_⟩
    exact hmoved listed .checkNow (checkNow listed) (checkNow listed) [movedServer] moved moved checkThrows s' 0
      reach_listed rfl .refl rfl moved_invalidates .refl (by decide +kernel) hs' (Or.inl hstarted)
  · obtain ⟨s', hs'⟩ := Option.isSome_iff_exists.mp
      (show (step byName wokenServer checkThrows).isSome = true by decide +kernel)
    refine ⟨s', hs', ?_⟩
    exact hwoken listed .checkNow (checkNow listed) (checkNow listed) 0 false wokenServer wokenServer checkThrows s'
      reach_listed rfl .refl rfl (by decide +kernel) .refl (by decide +kernel) hs' hstarted

/-- The check is in flight, and the card has been counted up `n` times. -/
structure Turned (device : Device) (n : Nat) (s : State) : Prop where
  made : s.made = 1
  page : s.page = [0]
  device : (s.card 0).device = device
  raised : (s.card 0).raised = n
  checks : s.checks = [⟨0, 0, 0, server, .checking⟩]
  told : 0 < n → (s.card 0).detail = str "Configuration changed; awaiting a live status check."

theorem checked_turned : Turned server 0 (checkNow listed) :=
  ⟨by decide +kernel, by decide +kernel, by decide +kernel, by decide +kernel, by decide +kernel, nofun⟩

theorem Turned.next {device : Device} {n : Nat} {s : State} (h : Turned device n s) (next : Device)
    (hid : next.id = device.id) (hother : DeviceTargets.sameWake device next = false) :
    Turned next (n + 1) (synchronize byName s [next]) := by
  have hcard : (s.card 0).id = next.id := by rw [Card.id, h.device, hid]
  have hgone : s.page.filter (gone s [next]) = [] := by simp [h.page, gone, hcard]
  have hfind : (s.page.find? fun c => (s.card c).id = next.id) = some 0 := by simp [h.page, hcard]
  have hretargets : retargets (s.card 0) next = true := by simp [retargets, h.device, hother]
  obtain ⟨wakes, heq, -⟩ := retarget_eq s 0 next
  have hplaced : placeDevice s next = rewritten s wakes 0 ((s.card 0).retargeted next) s.page := by
    unfold placeDevice
    rw [hfind]
    dsimp only
    rw [if_pos hretargets, heq]
  have hwhole : synchronize byName s [next] = rewritten s wakes 0 ((s.card 0).retargeted next) s.page := by
    unfold synchronize
    rw [hgone, List.foldl_nil, List.foldl_cons, List.foldl_nil, hplaced]
    simp [sortPage, sorted, rewritten, h.page, move]
  have hself : (synchronize byName s [next]).card 0 = (s.card 0).retargeted next := by
    rw [hwhole]
    exact Function.update_self 0 _ s.card
  refine ⟨?_, ?_, ?_, ?_, ?_, ?_⟩
  · rw [hwhole]
    exact h.made
  · rw [hwhole]
    exact h.page
  · rw [hself]
    rfl
  · rw [hself]
    exact congrArg (· + 1) h.raised
  · rw [hwhole]
    exact h.checks
  · intro _
    rw [hself]
    rfl

/-- The server is moved and moved back, any number of times. -/
theorem Turned.again {n : Nat} {s : State} (h : Turned server n s) (k : Nat) :
    ∃ t, (machine byName).Leads s t ∧ Turned server (n + 2 * k) t := by
  induction k with
  | zero => exact ⟨s, .refl, h⟩
  | succ k ih =>
    obtain ⟨t, hl, ht⟩ := ih
    have hmoved := ht.next movedServer rfl (by decide +kernel)
    have hback := hmoved.next server rfl (by decide +kernel)
    exact ⟨_, (hl.tail ⟨.synchronize [movedServer], rfl⟩).tail ⟨.synchronize [server], rfl⟩, hback⟩

/-- After 2^32 targets the card has the generation that the check started with. -/
theorem wrapped_check_touches :
    ¬ ∀ (le : Str → Str → Bool) (s₀ : State) (devices : List Device) (s₁ s : State) (e : Event) (s' : State) (x : Nat),
      (machine le).Reach s₀ → step le s₀ (.synchronize devices) = some s₁ → Invalidates s₀ devices x →
      (machine le).Leads s₁ s → step le s e = some s' →
      ((∃ i < s₀.checks.length, e.ofCheck? = some i) ∨ ∃ w < s₀.wakes.length, e.ofWake? = some w) →
      (s'.card x).look = (s.card x).look := by
  intro h
  have hmoved : Turned movedServer 1 moved := checked_turned.next movedServer rfl (by decide +kernel)
  obtain ⟨s, hl, hs⟩ := (hmoved.next server rfl (by decide +kernel)).again (2 ^ 31 - 1)
  have hleads : (machine byName).Leads moved s := Relation.ReflTransGen.head ⟨.synchronize [server], rfl⟩ hl
  have hfresh : stale s 0 0 = false := by
    unfold stale Card.generation
    rw [hs.raised]
    decide
  have hanswers : step byName s checkThrows = some (checkAnswered s 0 ⟨0, 0, 0, server, .checking⟩
      (.error (.io "network down"))) := by
    simp [checkThrows, step, hs.checks]
  have hsame := h byName (checkNow listed) [movedServer] moved s _ _ 0 (Machine.reach_step .checkNow reach_listed rfl) rfl
    moved_invalidates hleads hanswers (Or.inl ⟨0, by decide +kernel, rfl⟩)
  have hbefore := hs.told (Nat.add_pos_left (by decide) _)
  have hafter : ((checkAnswered s 0 ⟨0, 0, 0, server, .checking⟩ (.error (.io "network down"))).card 0).detail =
      str "Status check could not finish (IOException). See Diagnostics." := by
    simp only [checkAnswered, checkFails, show_, hfresh, setCheck, reduceCtorEq, false_and, ↓reduceIte,
      Bool.false_eq_true, setCard_self]
    rfl
  have hdetail := congrArg (fun look : DeviceState × Str × Device => look.2.1) hsame
  exact absurd (hbefore.symm.trans (hdetail.symm.trans hafter)) (by decide +kernel)

end MythLab.App.DeviceActivityViewModel
