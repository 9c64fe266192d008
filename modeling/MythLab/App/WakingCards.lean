/-
  MythLab.App.WakingCards — which cards show Waking.

  A card shows Waking from a progress report of its wake on. However the wake ends, its
  card is to show something else by the time it is no longer waking: a failure shows
  Unknown, a result shows what it observed, and a new target shows Unknown. One exit does
  not: when the repository has no record to save the result in, `ApplyAsync` returns
  early and the card is left as it was (`unsaved_wake_shows_waking`). A card that is
  taken off the page is left as it was too.

  Proved (`waking_cards_show`): in every run in which no result of a wake is dropped so
  (`Answered`), a card on the page shows Waking only while it is waking; in those in which
  moreover no card is taken off the page while it shows Waking (`KeepsWaking`), every
  card does. Generations wrap, so a card that is taken off the page could get back the
  generation of its wake; `KeepsWaking` says that it does not.
-/
import MythLab.App.StaleCompletions

namespace MythLab.App.DeviceActivityViewModel

open Lib Dotnet Devices Storage WakeOnLan

/-! ## The conditions -/

/-- The repository has no record for the result of a wake whose card shows Waking. -/
def dropped (s : State) (wake : Wake) (answer : Answer) : Bool :=
  match wake.phase with
  | .saving outcome =>
    match repositoryAnswer wake.device outcome.observation outcome.verified answer with
    | .ok none => !stale s wake.card wake.generation && (s.card wake.card).state = .waking
    | _ => false
  | _ => false

/-- No result of a wake is dropped. -/
def Answered (s : State) : Event → Prop
  | .wakeSaved w answer => ∀ wake ∈ s.wakes[w]?, dropped s wake answer = false
  | _ => True

/-- The wake `v` has not returned. -/
def Running (s : State) (v : Nat) (a : Wake) : Prop := s.wakes[v]? = some a ∧ a.phase ≠ .returned

/-- No card that shows Waking is taken off the page, and none whose generation is counted
    up to that of its wake. -/
def KeepsWaking (s : State) : Event → Prop
  | .synchronize devices => ∀ x ∈ s.page, gone s devices x = true → (s.card x).state ≠ .waking ∧
      ∀ v a, Running s v a → a.card = x → a.generation ≠ (s.card x).generation + 1
  | _ => True

instance (s : State) (e : Event) : Decidable (Answered s e) := by
  cases e <;> unfold Answered <;> infer_instance

/-! ## Writing something other than Waking -/

/-- No card begins to show Waking. -/
def Calm (s t : State) : Prop := ∀ x, (t.card x).state = (s.card x).state ∨ (t.card x).state ≠ .waking

variable {le : Str → Str → Bool} {s t u s' : State} {e : Event} {all : Bool}

theorem Calm.refl (s : State) : Calm s s := fun _ => Or.inl rfl

theorem Calm.trans (h : Calm s t) (h' : Calm t u) : Calm s u := by
  intro x
  rcases h' x with he | hne
  · rw [he]
    exact h x
  · exact Or.inr hne

theorem setCard_calm {x : Nat} {c : Card} (h : c.state = (s.card x).state ∨ c.state ≠ .waking) : Calm s (setCard s x c) := by
  intro y
  rw [setCard_card]
  split
  · subst y
    exact h
  · exact Or.inl rfl

theorem show_calm (s : State) (x : Nat) (g : Int32) (detail : Str) : Calm s (show_ s x g .unknown detail) := by
  unfold show_
  split
  · exact .refl s
  · exact setCard_calm (Or.inr nofun)

theorem setDetail_calm (s : State) (x : Nat) (g : Int32) (detail : Str) : Calm s (setDetail s x g detail) := by
  unfold setDetail
  split
  · exact .refl s
  · exact setCard_calm (Or.inl rfl)

/-- What the repository accepts is no Waking. -/
theorem repositoryAnswer_observed {expected : Device} {observation : StatusObservation} {verify : Bool}
    {answer : Answer} {saved : Option Device}
    (h : repositoryAnswer expected observation verify answer = .ok saved) : observation.state ≠ .waking := by
  cases answer with
  | throws e => cases h
  | reads db =>
    intro hw
    change (Repository.applyObservation expected observation verify db).map Prod.fst = .ok saved at h
    cases happly : Repository.applyObservation expected observation verify db with
    | error e =>
      rw [happly] at h
      cases h
    | ok result =>
      have hobs := (Repository.applyObservation_ok happly).1
      rw [hw] at hobs
      cases hobs

theorem apply_calm {x : Nat} {g : Int32} {saved : Option Device} {observation : StatusObservation}
    (hobs : observation.state ≠ .waking) : Calm s (apply s x g saved observation) := by
  unfold apply
  split
  · exact .refl s
  · split
    · exact .refl s
    · exact setCard_calm (Or.inr hobs)

theorem checkFails_calm (s : State) (check : Check) (e : Exn) : Calm s (checkFails s check e) := by
  unfold checkFails
  split
  · exact .refl s
  · exact show_calm s _ _ _

theorem checkAnswered_calm (s : State) (i : Nat) (check : Check) (answer : Except Exn StatusObservation) :
    Calm s (checkAnswered s i check answer) := by
  unfold checkAnswered
  split
  · exact checkFails_calm s check _
  · split
    · exact .refl s
    · exact .refl s

theorem checkApplied_calm (s : State) (i : Nat) (check : Check) (observation : StatusObservation) (answer : Answer) :
    Calm s (checkApplied s i check observation answer) := by
  unfold checkApplied
  split
  · exact checkFails_calm s check _
  · exact apply_calm (s := s) (repositoryAnswer_observed ‹_›)

/-! ## The invariant -/

/-- The cards spoken of: all, or those on the page. -/
def Scope (all : Bool) (s : State) (x : Nat) : Prop := all = true ∨ x ∈ s.page

structure WakeInv (all : Bool) (s : State) : Prop where
  one : ∀ v w a b, Running s v a → Running s w b → a.card = b.card → v = w
  waking : ∀ v a, Running s v a → (s.card a.card).isWaking = true
  present : ∀ v a, Running s v a → Scope all s a.card → stale s a.card a.generation = false → a.card ∈ s.page
  /-- A wake that has nothing more to write has left no Waking. -/
  settled : ∀ v a, Running s v a → Scope all s a.card → a.phase = .ended ∨ stale s a.card a.generation = true →
    (s.card a.card).state ≠ .waking
  quiet : ∀ x < s.made, Scope all s x → (s.card x).isWaking = false → (s.card x).state ≠ .waking

/-- Nothing is added that shows Waking. -/
theorem WakeInv.calm (h : WakeInv all s) (hpage : t.page = s.page) (hmade : t.made = s.made)
    (hwakes : t.wakes = s.wakes) (hg : ∀ x, (t.card x).raised = (s.card x).raised)
    (hw : ∀ x, (t.card x).isWaking = (s.card x).isWaking) (hcalm : Calm s t) : WakeInv all t := by
  have hrunning (v : Nat) (a : Wake) (hr : Running t v a) : Running s v a := by
    unfold Running at *
    rwa [hwakes] at hr
  have hscope (x : Nat) (hs : Scope all t x) : Scope all s x := by
    unfold Scope at *
    rwa [hpage] at hs
  have hstale (x : Nat) (g : Int32) : stale t x g = stale s x g := by
    unfold stale Card.generation
    rw [hg]
  have hstate (x : Nat) (hs : (s.card x).state ≠ .waking) : (t.card x).state ≠ .waking := by
    rcases hcalm x with he | hne
    · rw [he]
      exact hs
    · exact hne
  refine ⟨?_, ?_, ?_, ?_, ?_⟩
  · exact fun v w a b ha hb => h.one v w a b (hrunning v a ha) (hrunning w b hb)
  · intro v a ha
    rw [hw]
    exact h.waking v a (hrunning v a ha)
  · intro v a ha hs hfresh
    rw [hstale] at hfresh
    rw [hpage]
    exact h.present v a (hrunning v a ha) (hscope _ hs) hfresh
  · intro v a ha hs hdone
    rw [hstale] at hdone
    exact hstate _ (h.settled v a (hrunning v a ha) (hscope _ hs) hdone)
  · intro x hx hs hwaking
    rw [hmade] at hx
    rw [hw] at hwaking
    exact hstate x (h.quiet x hx (hscope x hs) hwaking)

theorem WakeInv.writes {x : Nat} {g : Int32} (h : WakeInv all s) (hw : Writes s t x g) (hcalm : Calm s t) : WakeInv all t :=
  h.calm (by rw [hw.rest]) (by rw [hw.rest]) (by rw [hw.rest]) (hw.every hw.raised) (hw.every hw.isWaking) hcalm

/-- A report reaches a card that is waking. -/
theorem reported_wakeInv {w : Nat} {wake : Wake} (hget : s.wakes[w]? = some wake) (hphase : wake.phase = .waking)
    (hw : Writes s t wake.card wake.generation) (h : WakeInv all s) : WakeInv all t := by
  have hrun : Running s w wake := ⟨hget, by rw [hphase]; nofun⟩
  have hwakes : t.wakes = s.wakes := by rw [hw.rest]
  have hpage : t.page = s.page := by rw [hw.rest]
  by_cases hstale : stale s wake.card wake.generation = true
  · rw [hw.fresh hstale]
    exact h
  have hrunning (v : Nat) (a : Wake) (hr : Running t v a) : Running s v a := by
    unfold Running at *
    rwa [hwakes] at hr
  have hsame (x : Nat) (g : Int32) : stale t x g = stale s x g := by
    unfold stale Card.generation
    rw [hw.every hw.raised]
  refine ⟨?_, ?_, ?_, ?_, ?_⟩
  · exact fun v w a b ha hb => h.one v w a b (hrunning v a ha) (hrunning w b hb)
  · intro v a ha
    rw [hw.every hw.isWaking]
    exact h.waking v a (hrunning v a ha)
  · intro v a ha hs hfresh
    rw [hsame] at hfresh
    unfold Scope at hs
    rw [hpage] at hs ⊢
    exact h.present v a (hrunning v a ha) hs hfresh
  · intro v a ha hs hdone
    rw [hsame] at hdone
    by_cases hcard : a.card = wake.card
    · -- the wake that reports is the only one of its card, and it is neither over nor stale
      obtain rfl := h.one v w a wake (hrunning v a ha) hrun hcard
      obtain rfl : a = wake := Option.some.inj ((hrunning v a ha).1.symm.trans hget)
      rcases hdone with hended | hdone
      · rw [hphase] at hended
        cases hended
      · exact absurd hdone hstale
    · rw [hw.others _ hcard]
      unfold Scope at hs
      rw [hpage] at hs
      exact h.settled v a (hrunning v a ha) hs hdone
  · intro x hx hs hwaking
    rw [hw.every hw.isWaking] at hwaking
    by_cases hcard : x = wake.card
    · rw [hcard, h.waking w wake hrun] at hwaking
      cases hwaking
    · rw [hw.others _ hcard]
      unfold Scope at hs
      rw [hpage] at hs
      exact h.quiet x (by rw [hw.rest] at hx; exact hx) hs hwaking

/-- A wake moves on; when it is over it has left no Waking. -/
theorem setWake_wakeInv {w : Nat} {wake : Wake} {phase : WakePhase} (hget : s.wakes[w]? = some wake)
    (hopen : wake.phase ≠ .returned) (hphase : phase = .ended → Scope all s wake.card → (s.card wake.card).state ≠ .waking)
    (h : WakeInv all s) : WakeInv all (setWake s w wake phase) := by
  have hrunning (v : Nat) (a : Wake) (hr : Running (setWake s w wake phase) v a) :
      ∃ b, Running s v b ∧ b.card = a.card ∧ b.generation = a.generation ∧
      (a.phase = b.phase ∨ v = w ∧ b = wake ∧ a.phase = phase) := by
    obtain ⟨hr, hne⟩ := hr
    rcases getElem?_set_cases hr with ⟨-, hr⟩ | ⟨rfl, rfl⟩
    · exact ⟨a, ⟨hr, hne⟩, rfl, rfl, Or.inl rfl⟩
    · exact ⟨wake, ⟨hget, hopen⟩, rfl, rfl, Or.inr ⟨rfl, rfl, rfl⟩⟩
  refine ⟨?_, ?_, ?_, ?_, h.quiet⟩
  · intro v v' a b ha hb hcard
    obtain ⟨a', ha', hca, -⟩ := hrunning v a ha
    obtain ⟨b', hb', hcb, -⟩ := hrunning v' b hb
    exact h.one v v' a' b' ha' hb' (by rw [hca, hcb, hcard])
  · intro v a ha
    obtain ⟨a', ha', hca, -⟩ := hrunning v a ha
    have hwaking := h.waking v a' ha'
    rwa [hca] at hwaking
  · intro v a ha hs hfresh
    obtain ⟨a', ha', hca, hga, -⟩ := hrunning v a ha
    have hpresent := h.present v a' ha'
    rw [hca, hga] at hpresent
    exact hpresent hs hfresh
  · intro v a ha hs hdone
    obtain ⟨a', ha', hca, hga, hp⟩ := hrunning v a ha
    have hsettled := h.settled v a' ha'
    rw [hca, hga] at hsettled
    rcases hdone with hended | hstale
    · rcases hp with hp | ⟨-, rfl, hp⟩
      · exact hsettled hs (Or.inl (hp ▸ hended))
      · rw [hended] at hp
        rw [← hca] at hs ⊢
        exact hphase hp.symm hs
    · exact hsettled hs (Or.inr hstale)

/-- A wake starts on a card that was not waking, and so had no other. -/
theorem begun_wakeInv {x : Nat} (test : Bool) (hcan : (s.card x).canWake = true) (hx : x ∈ s.page)
    (h : WakeInv all s) : WakeInv all (begun s x test) := by
  have hfree : (s.card x).isWaking = false := by
    simp only [Card.canWake, Bool.and_eq_true, Bool.not_eq_true'] at hcan
    exact hcan.1
  have hcard (y : Nat) : (begun s x test).card y =
      if y = x then { (s.card x).countUp with isWaking := true } else s.card y :=
    setCard_card ..
  have hself : (begun s x test).card x = { (s.card x).countUp with isWaking := true } := by
    rw [hcard, if_pos rfl]
  have hrunning (v : Nat) (a : Wake) (hr : Running (begun s x test) v a) : (Running s v a ∧ a.card ≠ x) ∨
      v = s.wakes.length ∧ a = ⟨x, (s.card x).generation + 1, (s.card x).device, test, false, .waking⟩ := by
    obtain ⟨hr, hne⟩ := hr
    rcases getElem?_snoc_cases hr with hr | ⟨hv, ha⟩
    · refine Or.inl ⟨⟨hr, hne⟩, ?_⟩
      intro hax
      have hwaking := h.waking v a ⟨hr, hne⟩
      rw [hax, hfree] at hwaking
      cases hwaking
    · exact Or.inr ⟨hv, ha⟩
  refine ⟨?_, ?_, ?_, ?_, ?_⟩
  · intro v w a b ha hb hab
    rcases hrunning v a ha with ⟨ha, hax⟩ | ⟨hv, ha⟩
    · rcases hrunning w b hb with ⟨hb, -⟩ | ⟨-, rfl⟩
      · exact h.one v w a b ha hb hab
      · exact absurd hab hax
    · rcases hrunning w b hb with ⟨hb, hbx⟩ | ⟨hw, -⟩
      · rw [ha] at hab
        exact absurd hab.symm hbx
      · rw [hv, hw]
  · intro v a ha
    rcases hrunning v a ha with ⟨ha, hax⟩ | ⟨-, rfl⟩
    · rw [hcard, if_neg hax]
      exact h.waking v a ha
    · rw [hself]
  · intro v a ha hs hfresh
    rcases hrunning v a ha with ⟨ha, hax⟩ | ⟨-, rfl⟩
    · unfold stale at hfresh
      rw [hcard, if_neg hax] at hfresh
      exact h.present v a ha hs hfresh
    · exact hx
  · intro v a ha hs hdone
    rcases hrunning v a ha with ⟨ha, hax⟩ | ⟨-, rfl⟩
    · unfold stale at hdone
      rw [hcard, if_neg hax] at hdone ⊢
      exact h.settled v a ha hs hdone
    · unfold stale at hdone
      rw [hself] at hdone
      rcases hdone with hended | hstale
      · cases hended
      · exact absurd (Card.countUp_generation _).symm (of_decide_eq_true hstale)
  · intro y hy hs hwaking
    by_cases hyx : y = x
    · rw [hyx, hself] at hwaking
      cases hwaking
    · rw [hcard, if_neg hyx] at hwaking ⊢
      exact h.quiet y hy hs hwaking

/-- A wake that returns leaves its card as settled as it was. -/
theorem wakeReturned_wakeInv {w : Nat} {wake : Wake} (hget : s.wakes[w]? = some wake) (hended : wake.phase = .ended)
    (h : WakeInv all s) : WakeInv all (wakeReturned s w wake) := by
  have hrun : Running s w wake := ⟨hget, by rw [hended]; nofun⟩
  have hcard (y : Nat) : (wakeReturned s w wake).card y =
      if y = wake.card then { s.card wake.card with isWaking := false } else s.card y := setCard_card ..
  have hrunning (v : Nat) (a : Wake) (hr : Running (wakeReturned s w wake) v a) : Running s v a ∧ a.card ≠ wake.card := by
    obtain ⟨hr, hne⟩ := hr
    rcases getElem?_set_cases hr with ⟨hwv, hr⟩ | ⟨-, rfl⟩
    · exact ⟨⟨hr, hne⟩, fun he => hwv (h.one v w a wake ⟨hr, hne⟩ hrun he).symm⟩
    · exact absurd rfl hne
  refine ⟨?_, ?_, ?_, ?_, ?_⟩
  · intro v v' a b ha hb
    exact h.one v v' a b (hrunning v a ha).1 (hrunning v' b hb).1
  · intro v a ha
    obtain ⟨ha, hne⟩ := hrunning v a ha
    rw [hcard, if_neg hne]
    exact h.waking v a ha
  · intro v a ha hs hfresh
    obtain ⟨ha, hne⟩ := hrunning v a ha
    unfold stale at hfresh
    rw [hcard, if_neg hne] at hfresh
    exact h.present v a ha hs hfresh
  · intro v a ha hs hdone
    obtain ⟨ha, hne⟩ := hrunning v a ha
    unfold stale at hdone
    rw [hcard, if_neg hne] at hdone ⊢
    exact h.settled v a ha hs hdone
  · intro y hy hs hwaking
    by_cases hyw : y = wake.card
    · rw [hyw, hcard, if_pos rfl]
      rw [hyw] at hs
      exact h.settled w wake hrun hs (Or.inl hended)
    · rw [hcard, if_neg hyw] at hwaking ⊢
      exact h.quiet y hy hs hwaking

/-- Wakes that differ at most in their cancellation run or not alike. -/
theorem running_of_uncancelled (h : t.wakes.map Wake.uncancelled = s.wakes.map Wake.uncancelled) {v : Nat} {a : Wake}
    (ha : Running t v a) : ∃ b, Running s v b ∧ b.card = a.card ∧ b.generation = a.generation ∧ b.phase = a.phase := by
  obtain ⟨hr, hne⟩ := ha
  have hget := congrArg (fun l : List Wake => l[v]?) h
  simp only [List.getElem?_map, hr, Option.map_some] at hget
  obtain ⟨b, hb, hbe⟩ := Option.map_eq_some_iff.mp hget.symm
  simp only [Wake.uncancelled, Wake.mk.injEq] at hbe
  obtain ⟨hcard, hg, -, -, -, hphase⟩ := hbe
  exact ⟨b, ⟨hb, by rwa [hphase]⟩, hcard, hg, hphase⟩

/-- A synchronization keeps the invariant when, if all cards count, a card that leaves the
    page does not show Waking, and its wake goes stale or stays so. -/
theorem Evolves.wakeInv (he : Evolves s t) (hi : Inv s)
    (hleft : all = true → ∀ x ∈ s.page, x ∉ t.page → (s.card x).state ≠ .waking ∧
      ∀ v a, Running s v a → a.card = x → stale t x a.generation = true) (h : WakeInv all s) : WakeInv all t := by
  have hrunning (v : Nat) (a : Wake) (hr : Running t v a) := running_of_uncancelled he.wakes hr
  have hmade (v : Nat) (b : Wake) (hb : Running s v b) : b.card < s.made :=
    (hi.wakes b (List.mem_of_getElem? hb.1)).1
  -- a card that is spoken of now was spoken of before
  have hscope (x : Nat) (hx : x < s.made) (hs : Scope all t x) : Scope all s x := by
    rcases hs with hall | hs
    · exact Or.inl hall
    · exact Or.inr ((he.page x hs).resolve_right (by omega))
  have hcalm (x : Nat) (hx : x < s.made) (hst : (s.card x).state ≠ .waking) : (t.card x).state ≠ .waking := by
    rcases (he.card x hx).state with heq | heq
    · rw [heq]
      exact hst
    · rw [heq]
      nofun
  refine ⟨?_, ?_, ?_, ?_, ?_⟩
  · intro v w a b ha hb hab
    obtain ⟨a', ha', hca, -⟩ := hrunning v a ha
    obtain ⟨b', hb', hcb, -⟩ := hrunning w b hb
    exact h.one v w a' b' ha' hb' (by rw [hca, hcb, hab])
  · intro v a ha
    obtain ⟨a', ha', hca, -⟩ := hrunning v a ha
    rw [← hca, (he.card _ (hmade v a' ha')).isWaking]
    exact h.waking v a' ha'
  · intro v a ha hs hfresh
    obtain ⟨a', ha', hca, hga, -⟩ := hrunning v a ha
    have hlt := hmade v a' ha'
    rw [← hca, ← hga] at hfresh
    rw [← hca] at hs ⊢
    by_contra hoff
    have hall : all = true := hs.resolve_right hoff
    by_cases hon : a'.card ∈ s.page
    · rw [(hleft hall _ hon hoff).2 v a' ha' rfl] at hfresh
      cases hfresh
    · -- a card off the page is left alone
      have hsame := he.away _ hlt hon
      unfold stale at hfresh
      rw [hsame] at hfresh
      exact hon (h.present v a' ha' (Or.inl hall) hfresh)
  · intro v a ha hs hdone
    obtain ⟨a', ha', hca, hga, hpa⟩ := hrunning v a ha
    have hlt := hmade v a' ha'
    rw [← hca] at hs ⊢
    rw [← hca, ← hga, ← hpa] at hdone
    by_cases hsame : a'.phase = .ended ∨ stale s a'.card a'.generation = true
    · exact hcalm _ hlt (h.settled v a' ha' (hscope _ hlt hs) hsame)
    -- the wake has gone stale just now: its card has another target, or is off the page
    obtain ⟨hnot, hfresh⟩ := not_or.mp hsame
    have hon := h.present v a' ha' (hscope _ hlt hs) ((Bool.not_eq_true _).mp hfresh)
    by_cases hstay : a'.card ∈ t.page
    · have hraised : (t.card a'.card).raised ≠ (s.card a'.card).raised := by
        intro heq
        have hstale := hdone.resolve_left hnot
        unfold stale Card.generation at hstale hfresh
        rw [heq] at hstale
        exact hfresh hstale
      rw [he.stayed _ hon hlt hstay hraised]
      nofun
    · have hall : all = true := hs.resolve_right hstay
      exact hcalm _ hlt (hleft hall _ hon hstay).1
  · intro x hx hs hwaking
    by_cases hold : x < s.made
    · rw [(he.card x hold).isWaking] at hwaking
      exact hcalm x hold (h.quiet x hold (hscope x hold hs) hwaking)
    · rw [(he.new x (Nat.le_of_not_lt hold) hx).1]
      nofun

/-! ## Every exit of a wake -/

/-- A wake that failed shows Unknown, unless it has nothing to write any more. -/
theorem wakeFails_settled {w : Nat} {wake : Wake} (hrun : Running s w wake) (e : Exn) (h : WakeInv all s)
    (hs : Scope all s wake.card) : ((wakeFails s wake e).card wake.card).state ≠ .waking := by
  unfold wakeFails show_
  by_cases hstale : stale s wake.card wake.generation = true
  · rw [if_pos hstale]
    exact h.settled w wake hrun hs (Or.inr hstale)
  · rw [if_neg hstale, setCard_self]
    nofun

theorem wakeFailed_wakeInv {w : Nat} {wake : Wake} (hrun : Running s w wake) (e : Exn) (h : WakeInv all s) :
    WakeInv all (setWake (wakeFails s wake e) w wake .ended) := by
  have hw : Writes s (wakeFails s wake e) wake.card wake.generation := show_writes ..
  refine setWake_wakeInv (by rw [hw.rest]; exact hrun.1) hrun.2 ?_ (h.writes hw (show_calm s _ _ _))
  intro _ hs
  refine wakeFails_settled hrun e h ?_
  unfold Scope at *
  rwa [hw.rest] at hs

theorem wakeAnswered_wakeInv {w : Nat} {wake : Wake} (hrun : Running s w wake) (answer : Except Exn WakeOutcome)
    (h : WakeInv all s) : WakeInv all (wakeAnswered s w wake answer) := by
  unfold wakeAnswered
  cases answer with
  | error e => exact wakeFailed_wakeInv hrun e h
  | ok outcome =>
    dsimp only
    by_cases hstale : stale s wake.card wake.generation = true
    · rw [if_pos hstale]
      exact setWake_wakeInv hrun.1 hrun.2 (fun _ hs => h.settled w wake hrun hs (Or.inr hstale)) h
    · rw [if_neg hstale]
      exact setWake_wakeInv hrun.1 hrun.2 nofun h

/-- A result that is saved is what the card shows. -/
theorem applied_settled {w : Nat} {wake : Wake} {outcome : WakeOutcome} {answer : Answer} {saved : Option Device}
    (hrun : Running s w wake) (hphase : wake.phase = .saving outcome)
    (hanswer : repositoryAnswer wake.device outcome.observation outcome.verified answer = .ok saved)
    (hkept : dropped s wake answer = false) (h : WakeInv all s) (hs : Scope all s wake.card) :
    ((apply s wake.card wake.generation saved outcome.observation).card wake.card).state ≠ .waking := by
  unfold apply
  by_cases hstale : stale s wake.card wake.generation = true
  · have hsettled := h.settled w wake hrun hs (Or.inr hstale)
    cases saved with
    | none => exact hsettled
    | some saved =>
      dsimp only
      rw [if_pos (Or.inl hstale)]
      exact hsettled
  · rw [Bool.not_eq_true] at hstale
    cases saved with
    | none =>
      simp only [dropped, hphase, hanswer, hstale, Bool.not_false, Bool.true_and, decide_eq_false_iff_not] at hkept
      exact hkept
    | some saved =>
      have hon := h.present w wake hrun hs hstale
      dsimp only
      rw [if_neg (by simp [hstale, hon]), setCard_self]
      exact repositoryAnswer_observed hanswer

theorem wakeApplied_wakeInv {w : Nat} {wake : Wake} {outcome : WakeOutcome} {answer : Answer} (hrun : Running s w wake)
    (hphase : wake.phase = .saving outcome) (hid : wake.device.id = (s.card wake.card).id)
    (hkept : dropped s wake answer = false) (h : WakeInv all s) :
    WakeInv all (wakeApplied s w wake outcome answer) := by
  unfold wakeApplied
  cases hanswer : repositoryAnswer wake.device outcome.observation outcome.verified answer with
  | error e => exact wakeFailed_wakeInv hrun e h
  | ok saved =>
    dsimp only
    have hobs := repositoryAnswer_observed hanswer
    have happlied : Writes s (apply s wake.card wake.generation saved outcome.observation) wake.card wake.generation :=
      apply_writes (fun d hd => (repositoryAnswer_id hanswer d hd).trans hid) _
    have hw := happlied.trans (setDetail_writes _ _ _ outcome.detail)
    have hdetail := setDetail_calm (apply s wake.card wake.generation saved outcome.observation) wake.card
      wake.generation outcome.detail
    refine setWake_wakeInv (by rw [hw.rest]; exact hrun.1) hrun.2 ?_ (h.writes hw ((apply_calm hobs).trans hdetail))
    intro _ hs
    have hs' : Scope all s wake.card := by
      unfold Scope at *
      rwa [hw.rest] at hs
    have hsettled := applied_settled hrun hphase hanswer hkept h hs'
    rcases hdetail wake.card with he | hne
    · rw [he]
      exact hsettled
    · exact hne

/-! ## Runs -/

theorem nextBatch_wakeInv (i : Nat) (batches : List (List Nat)) (h : WakeInv all s) :
    WakeInv all (nextBatch s i batches) := by
  rcases nextBatch_eq s i batches with heq | ⟨batch, rest, -, heq⟩
  · rw [heq]
    exact h.calm rfl rfl rfl (fun _ => rfl) (fun _ => rfl) (.refl s)
  · rw [heq]
    exact h.calm rfl rfl rfl (fun _ => rfl) (fun _ => rfl) (.refl s)

theorem step_wakeInv (hi : Inv s) (hanswered : Answered s e) (hkeeps : all = true → KeepsWaking s e)
    (h : WakeInv all s) (hs : step le s e = some s') : WakeInv all s' := by
  have hquiet {t : State} (hcard : t.card = s.card) (hpage : t.page = s.page) (hmade : t.made = s.made)
      (hwakes : t.wakes = s.wakes) : WakeInv all t :=
    h.calm hpage hmade hwakes (fun x => by rw [hcard]) (fun x => by rw [hcard]) fun x => by rw [hcard]; exact Or.inl rfl
  cases step_change hs with
  | synchronize devices =>
    obtain ⟨he, -⟩ := synchronize_evolves le hi.tidy devices
    refine he.wakeInv hi ?_ h
    intro hall x hx hoff
    have hgone : gone s devices x = true := by
      by_contra hstay
      exact hoff ((synchronize_page le hi.tidy devices (hi.tidy.made x hx)).mpr ⟨hx, (Bool.not_eq_true _).mp hstay⟩)
    refine (hkeeps hall x hx hgone).imp_right fun hnew v a ha hax => ?_
    unfold stale
    rw [synchronize_gone le hi.tidy hx hgone, Card.countUp_generation]
    exact decide_eq_true (hnew v a ha hax)
  | checkNow =>
    unfold checkNow
    split
    · exact h
    · exact nextBatch_wakeInv _ _ (hquiet rfl rfl rfl rfl)
  | batchEnds _ _ => exact nextBatch_wakeInv _ _ h
  | sweepReturns _ => exact hquiet rfl rfl rfl rfl
  | @checkAnswers i check answer _ _ =>
    have hcalm := checkAnswered_calm s i check answer
    obtain ⟨t, phase, heq, hw⟩ := checkAnswered_writes s i check answer
    rw [heq] at hcalm ⊢
    exact (h.writes hw hcalm).calm rfl rfl rfl (fun _ => rfl) (fun _ => rfl) (.refl t)
  | @checkSaved i check observation answer hget _ =>
    have hcalm := checkApplied_calm s i check observation answer
    obtain ⟨t, heq, hw⟩ := checkApplied_writes (hi.checks check (List.mem_of_getElem? hget)).2 i observation answer
    rw [heq] at hcalm ⊢
    exact (h.writes hw hcalm).calm rfl rfl rfl (fun _ => rfl) (fun _ => rfl) (.refl t)
  | wake x test =>
    rcases beginWake_eq s x test with heq | ⟨heq, -, hcan, hx, -⟩
    · rw [heq]
      exact h
    · rw [heq]
      exact begun_wakeInv test hcan hx h
  | @wakeReports w wake progress hget =>
    by_cases hphase : wake.phase = .waking
    · exact reported_wakeInv hget hphase (wakeReported_writes s wake progress) h
    · rw [show wakeReported s wake progress = s from if_pos hphase]
      exact h
  | @wakeAnswers w wake answer hget hphase => exact wakeAnswered_wakeInv ⟨hget, by rw [hphase]; nofun⟩ answer h
  | @wakeSaved w wake outcome answer hget hphase =>
    exact wakeApplied_wakeInv ⟨hget, by rw [hphase]; nofun⟩ hphase (hi.wakes wake (List.mem_of_getElem? hget)).2
      (hanswered wake hget) h
  | wakeReturns hget hended => exact wakeReturned_wakeInv hget hended h
  | cancelWake x =>
    obtain ⟨wakes, heq, -⟩ := cancelWake_eq s x
    refine (cancelWake_evolves s x hi.tidy).1.wakeInv hi ?_ h
    intro _ y hy hoff
    rw [heq] at hoff
    exact absurd hy hoff
  | stop => exact hquiet rfl rfl rfl rfl

theorem runs_wakeInv {log : List (State × Event)} (hrun : (machine le).Runs log s)
    (hanswered : Machine.Throughout Answered log) (hkeeps : all = true → Machine.Throughout KeepsWaking log) :
    WakeInv all s := by
  have hok : Machine.Throughout (fun s e => Answered s e ∧ (all = true → KeepsWaking s e)) log :=
    fun p hp => ⟨hanswered p hp, fun hall => hkeeps hall p hp⟩
  have hboth : Inv s ∧ WakeInv all s := by
    refine hrun.inv (I := fun s => Inv s ∧ WakeInv all s) ?_ ?_ hok
    · intro s hs
      refine ⟨reach_inv ⟨[], .init hs⟩, ?_⟩
      cases hs
      exact ⟨fun _ _ _ _ h => (nomatch h.1), fun _ _ h => (nomatch h.1), fun _ _ h => (nomatch h.1),
        fun _ _ h => (nomatch h.1), fun x hx => absurd hx (Nat.not_lt_zero x)⟩
    · rintro s e s' ⟨hi, h⟩ ⟨hanswered, hkeeps⟩ hs
      exact ⟨(step_later_inv hi hs).2, step_wakeInv hi hanswered hkeeps h hs⟩
  exact hboth.2

/-- A card that is not waking does not show Waking: a card of the page, in a run that
    drops no result of a wake, and any card, in a run that moreover takes no card off the
    page while it shows Waking. -/
theorem waking_cards_show {log : List (State × Event)} (hrun : (machine le).Runs log s)
    (hanswered : Machine.Throughout Answered log) :
    (∀ x ∈ s.page, (s.card x).isWaking = false → (s.card x).state ≠ .waking) ∧
      (Machine.Throughout KeepsWaking log → ∀ x < s.made, (s.card x).isWaking = false → (s.card x).state ≠ .waking) := by
  refine ⟨?_, ?_⟩
  · intro x hx
    have h : WakeInv false s := runs_wakeInv hrun hanswered nofun
    exact h.quiet x ((reach_inv ⟨log, hrun⟩).tidy.made x hx) (Or.inr hx)
  · intro hkeeps x hx
    have h : WakeInv true s := runs_wakeInv hrun hanswered fun _ => hkeeps
    exact h.quiet x hx (Or.inl rfl)

/-! ## Two wakes of one server -/

def cameOnline : WakeOutcome :=
  { observation := { state := .online, checkedAt := ⟨1, 0⟩, detail := str "ICMP reply received." }
    verified := true
    detail := str "Wake configuration verified by observation." }

/-- The server is woken, reports that it is, and comes online; then the repository answers. -/
def woken (answer : Answer) : List Event :=
  [.synchronize [server], .wake 0 false, .wakeReports 0 { state := .waking, detail := str "Still waiting." },
    .wakeAnswers 0 (.ok cameOnline), .wakeSaved 0 answer, .wakeReturns 0]

theorem failed_save_shows_unknown : ∃ log s, (machine byName).Runs log s ∧ Machine.Throughout Answered log ∧
    0 ∈ s.page ∧ (s.card 0).isWaking = false ∧ (s.card 0).state ≠ .waking := by
  obtain ⟨log, s, hrun, hok, hp⟩ := Machine.exists_run (machine byName) Answered
    (fun s => decide (0 ∈ s.page) && !(s.card 0).isWaking) (woken (.throws (.io "disk I/O error"))) rfl (by decide +kernel)
  obtain ⟨hpage, hwaking⟩ := Bool.and_eq_true_iff.mp hp
  have hpage := of_decide_eq_true hpage
  have hwaking := (Bool.not_eq_true' _).mp hwaking
  exact ⟨log, s, hrun, hok, hpage, hwaking, (waking_cards_show hrun hok).1 0 hpage hwaking⟩

/-- The server is deleted while it is waking: its card shows Waking when the wake is over. -/
theorem unsaved_wake_shows_waking :
    ¬ ∀ (le : Str → Str → Bool) (s : State), (machine le).Reach s →
      ∀ x ∈ s.page, (s.card x).isWaking = false → (s.card x).state ≠ .waking := by
  intro h
  obtain ⟨log, s, hrun, -, hp⟩ := Machine.exists_run (machine byName) (fun _ _ => True)
    (fun s => decide (0 ∈ s.page) && !(s.card 0).isWaking && decide ((s.card 0).state = .waking))
    (woken (.reads Database.empty)) rfl (by decide +kernel)
  simp only [Bool.and_eq_true, decide_eq_true_eq, Bool.not_eq_true'] at hp
  obtain ⟨⟨hpage, hwaking⟩, hstate⟩ := hp
  exact h byName s ⟨log, hrun⟩ 0 hpage hwaking hstate

end MythLab.App.DeviceActivityViewModel
