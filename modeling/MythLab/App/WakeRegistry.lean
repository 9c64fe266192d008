/-
  MythLab.App.WakeRegistry — the dictionary of running wakes, which is keyed by device id,
  and the cards, which are objects.

  Whatever happens, the dictionary holds exactly the wakes that have not returned, and a
  card is waking exactly while a wake of its own is among them (`Registered`). But a card
  taken off the page may still have its wake when the device is back on a new card: a wake
  cannot start there before the old one has returned, since its id is taken.

  Proved (`registry_matches_iff`): the registry matches the cards in exactly the runs in
  which no wake is started while a wake of another card with that id still runs.
-/
import MythLab.App.WakingCards
import MythLab.Lib.Dictionary

namespace MythLab.App.DeviceActivityViewModel

open Lib Dotnet Devices WakeOnLan

variable {le : Str → Str → Bool} {s t s' : State} {e : Event}

structure Registered (s : State) : Prop where
  entry : ∀ id v, s.registry.lookup id = some v → ∃ a, Running s v a ∧ (s.card a.card).id = id
  listed : ∀ v a, Running s v a → s.registry.lookup (s.card a.card).id = some v
  waking : ∀ v a, Running s v a → (s.card a.card).isWaking = true
  runs : ∀ x < s.made, (s.card x).isWaking = true → ∃ v a, Running s v a ∧ a.card = x

/-- Running wakes whose cards have one id are one wake. -/
theorem Registered.one (h : Registered s) {v w : Nat} {a b : Wake} (ha : Running s v a) (hb : Running s w b)
    (hid : (s.card a.card).id = (s.card b.card).id) : v = w := by
  have hv := h.listed v a ha
  rw [hid, h.listed w b hb] at hv
  exact (Option.some.inj hv).symm

/-! ## What keeps the registry -/

/-- The same wakes run, of the same cards. -/
def SameRuns (s t : State) : Prop :=
  (∀ v a, Running t v a → ∃ b, Running s v b ∧ b.card = a.card) ∧
    ∀ v b, Running s v b → ∃ a, Running t v a ∧ a.card = b.card

theorem SameRuns.of_wakes (h : t.wakes = s.wakes) : SameRuns s t := by
  unfold SameRuns Running
  rw [h]
  exact ⟨fun _ a ha => ⟨a, ha, rfl⟩, fun _ b hb => ⟨b, hb, rfl⟩⟩

theorem SameRuns.of_uncancelled (h : t.wakes.map Wake.uncancelled = s.wakes.map Wake.uncancelled) : SameRuns s t := by
  refine ⟨?_, ?_⟩
  · intro v a ha
    obtain ⟨b, hb, hcard, -⟩ := running_of_uncancelled h ha
    exact ⟨b, hb, hcard⟩
  · intro v b hb
    obtain ⟨a, ha, hcard, -⟩ := running_of_uncancelled h.symm hb
    exact ⟨a, ha, hcard⟩

theorem SameRuns.setWake {w : Nat} {wake : Wake} {phase : WakePhase} (hget : s.wakes[w]? = some wake)
    (hopen : wake.phase ≠ .returned) (hphase : phase ≠ .returned) : SameRuns s (setWake s w wake phase) := by
  refine ⟨?_, ?_⟩
  · intro v a ha
    obtain ⟨hr, hne⟩ := ha
    rcases getElem?_set_cases hr with ⟨-, hr⟩ | ⟨rfl, rfl⟩
    · exact ⟨a, ⟨hr, hne⟩, rfl⟩
    · exact ⟨wake, ⟨hget, hopen⟩, rfl⟩
  · intro v b hb
    by_cases hv : w = v
    · subst hv
      obtain rfl : b = wake := Option.some.inj (hb.1.symm.trans hget)
      obtain ⟨hlt, -⟩ := List.getElem?_eq_some_iff.mp hget
      exact ⟨{ b with phase := phase }, ⟨List.getElem?_set_self hlt, hphase⟩, rfl⟩
    · exact ⟨b, ⟨by rw [← hb.1]; exact List.getElem?_set_ne hv, hb.2⟩, rfl⟩

theorem Registered.keeps (hi : Inv s) (h : Registered s) (hregistry : t.registry = s.registry) (hruns : SameRuns s t)
    (hcard : ∀ x < s.made, (t.card x).id = (s.card x).id ∧ (t.card x).isWaking = (s.card x).isWaking)
    (hnew : ∀ x < t.made, s.made ≤ x → (t.card x).isWaking = false) : Registered t := by
  have hmade (v : Nat) (a : Wake) (ha : Running s v a) : a.card < s.made :=
    (hi.wakes a (List.mem_of_getElem? ha.1)).1
  refine ⟨?_, ?_, ?_, ?_⟩
  · intro id v hv
    rw [hregistry] at hv
    obtain ⟨b, hb, hid⟩ := h.entry id v hv
    obtain ⟨a, ha, hab⟩ := hruns.2 v b hb
    refine ⟨a, ha, ?_⟩
    rw [hab, (hcard _ (hmade v b hb)).1, hid]
  · intro v a ha
    obtain ⟨b, hb, hab⟩ := hruns.1 v a ha
    rw [hregistry, ← hab, (hcard _ (hmade v b hb)).1]
    exact h.listed v b hb
  · intro v a ha
    obtain ⟨b, hb, hab⟩ := hruns.1 v a ha
    rw [← hab, (hcard _ (hmade v b hb)).2]
    exact h.waking v b hb
  · intro x hx hw
    by_cases hold : x < s.made
    · rw [(hcard x hold).2] at hw
      obtain ⟨v, b, hb, hbx⟩ := h.runs x hold hw
      obtain ⟨a, ha, hab⟩ := hruns.2 v b hb
      exact ⟨v, a, ha, hab.trans hbx⟩
    · rw [hnew x hx (Nat.le_of_not_lt hold)] at hw
      cases hw

theorem Registered.writes {x : Nat} {g : Int32} (hi : Inv s) (h : Registered s) (hw : Writes s t x g) : Registered t :=
  h.keeps hi (by rw [hw.rest]) (.of_wakes (by rw [hw.rest])) (fun y _ => ⟨hw.every hw.id y, hw.every hw.isWaking y⟩)
    fun y hy hnew => absurd (by rw [hw.rest] at hy; exact hy) (Nat.not_lt.mpr hnew)

theorem Evolves.registered (he : Evolves s t) (hi : Inv s) (h : Registered s) : Registered t :=
  h.keeps hi he.registry (.of_uncancelled he.wakes) (fun x hx => ⟨(he.card x hx).id, (he.card x hx).isWaking⟩)
    fun x hx hnew => (he.new x hnew hx).2

theorem Registered.advance {w : Nat} {wake : Wake} {phase : WakePhase} (hi : Inv s) (h : Registered s)
    (hget : s.wakes[w]? = some wake) (hopen : wake.phase ≠ .returned) (hphase : phase ≠ .returned) :
    Registered (setWake s w wake phase) :=
  h.keeps hi rfl (.setWake hget hopen hphase) (fun _ _ => ⟨rfl, rfl⟩) fun _ hx hnew => absurd hx (Nat.not_lt.mpr hnew)

/-- What the registry and the wakes do not see. -/
theorem Registered.congr (hi : Inv s) (h : Registered s) (hregistry : t.registry = s.registry)
    (hwakes : t.wakes = s.wakes) (hcard : t.card = s.card) (hmade : t.made = s.made) : Registered t := by
  refine h.keeps hi hregistry (.of_wakes hwakes) ?_ ?_
  · intro x _
    rw [hcard]
    exact ⟨rfl, rfl⟩
  · intro x hx hnew
    rw [hmade] at hx
    exact absurd hx (Nat.not_lt.mpr hnew)

/-! ## Start and return -/

theorem begun_registered {x : Nat} (test : Bool) (hfree : s.registry.lookup (s.card x).id = none)
    (h : Registered s) : Registered (begun s x test) := by
  have hcard (y : Nat) : (begun s x test).card y =
      if y = x then { (s.card x).countUp with isWaking := true } else s.card y :=
    setCard_card ..
  have hid (y : Nat) : ((begun s x test).card y).id = (s.card y).id := by
    rw [hcard]
    split
    · subst y; rfl
    · rfl
  have hlookup (id : Guid) : (begun s x test).registry.lookup id =
      if id = (s.card x).id then some s.wakes.length else s.registry.lookup id := lookup_add hfree
  -- the wakes that run: those that ran, none of them of the id, and the new one
  have hold (v : Nat) (a : Wake) (ha : Running s v a) :
      Running (begun s x test) v a ∧ (s.card a.card).id ≠ (s.card x).id := by
    obtain ⟨hlt, -⟩ := List.getElem?_eq_some_iff.mp ha.1
    refine ⟨⟨(List.getElem?_append_left hlt).trans ha.1, ha.2⟩, ?_⟩
    intro he
    have hlisted := h.listed v a ha
    rw [he, hfree] at hlisted
    cases hlisted
  have hnew : ∃ a, Running (begun s x test) s.wakes.length a ∧ a.card = x :=
    ⟨_, ⟨List.getElem?_concat_length, nofun⟩, rfl⟩
  have hcases (v : Nat) (a : Wake) (ha : Running (begun s x test) v a) :
      Running s v a ∨ v = s.wakes.length ∧ a.card = x := by
    rcases getElem?_snoc_cases ha.1 with hr | ⟨hv, hae⟩
    · exact Or.inl ⟨hr, ha.2⟩
    · exact Or.inr ⟨hv, by rw [hae]⟩
  refine ⟨?_, ?_, ?_, ?_⟩
  · intro id v hv
    rw [hlookup] at hv
    split at hv
    · rename_i he
      obtain ⟨a, ha, hax⟩ := hnew
      cases hv
      exact ⟨a, ha, by rw [hid, hax, he]⟩
    · obtain ⟨a, ha, hae⟩ := h.entry id v hv
      exact ⟨a, (hold v a ha).1, by rw [hid, hae]⟩
  · intro v a ha
    rw [hid, hlookup]
    rcases hcases v a ha with ha | ⟨rfl, hax⟩
    · rw [if_neg (hold v a ha).2]
      exact h.listed v a ha
    · rw [if_pos (by rw [hax])]
  · intro v a ha
    rw [hcard]
    split
    · rfl
    · rename_i hax
      rcases hcases v a ha with ha | ⟨-, hae⟩
      · exact h.waking v a ha
      · exact absurd hae hax
  · intro y hy hw
    by_cases hyx : y = x
    · obtain ⟨a, ha, hax⟩ := hnew
      exact ⟨_, a, ha, hax.trans hyx.symm⟩
    · rw [hcard, if_neg hyx] at hw
      obtain ⟨v, a, ha, hae⟩ := h.runs y hy hw
      exact ⟨v, a, (hold v a ha).1, hae⟩

theorem wakeReturned_registered {w : Nat} {wake : Wake} (hget : s.wakes[w]? = some wake) (hended : wake.phase = .ended)
    (h : Registered s) : Registered (wakeReturned s w wake) := by
  have hrun : Running s w wake := ⟨hget, by rw [hended]; nofun⟩
  have hcard (y : Nat) : (wakeReturned s w wake).card y =
      if y = wake.card then { s.card wake.card with isWaking := false } else s.card y := setCard_card ..
  have hid (y : Nat) : ((wakeReturned s w wake).card y).id = (s.card y).id := by
    rw [hcard]
    split
    · subst y; rfl
    · rfl
  have hlookup (id : Guid) : (wakeReturned s w wake).registry.lookup id =
      if id = (s.card wake.card).id then none else s.registry.lookup id := lookup_remove ..
  -- the other wakes run on, and their cards have other ids
  have hrest (v : Nat) (a : Wake) (ha : Running (wakeReturned s w wake) v a) :
      Running s v a ∧ (s.card a.card).id ≠ (s.card wake.card).id := by
    obtain ⟨hr, hne⟩ := ha
    rcases getElem?_set_cases hr with ⟨hwv, hr⟩ | ⟨-, rfl⟩
    · exact ⟨⟨hr, hne⟩, fun he => hwv (h.one ⟨hr, hne⟩ hrun he).symm⟩
    · exact absurd rfl hne
  have hstays (v : Nat) (a : Wake) (ha : Running s v a) (hne : w ≠ v) : Running (wakeReturned s w wake) v a :=
    ⟨(List.getElem?_set_ne hne).trans ha.1, ha.2⟩
  refine ⟨?_, ?_, ?_, ?_⟩
  · intro id v hv
    rw [hlookup] at hv
    split at hv
    · cases hv
    · rename_i hother
      obtain ⟨a, ha, hae⟩ := h.entry id v hv
      refine ⟨a, hstays v a ha ?_, by rw [hid, hae]⟩
      rintro rfl
      obtain rfl : a = wake := Option.some.inj (ha.1.symm.trans hget)
      exact hother hae.symm
  · intro v a ha
    obtain ⟨ha, hne⟩ := hrest v a ha
    rw [hid, hlookup, if_neg hne]
    exact h.listed v a ha
  · intro v a ha
    obtain ⟨ha, hne⟩ := hrest v a ha
    rw [hcard, if_neg fun he => hne (by rw [he])]
    exact h.waking v a ha
  · intro y hy hw
    by_cases hyw : y = wake.card
    · rw [hcard, if_pos hyw] at hw
      cases hw
    · rw [hcard, if_neg hyw] at hw
      obtain ⟨v, a, ha, hae⟩ := h.runs y hy hw
      refine ⟨v, a, hstays v a ha ?_, hae⟩
      rintro rfl
      obtain rfl : a = wake := Option.some.inj (ha.1.symm.trans hget)
      exact hyw hae.symm

/-! ## Runs -/

theorem nextBatch_registered (i : Nat) (batches : List (List Nat)) (hi : Inv s) (h : Registered s) :
    Registered (nextBatch s i batches) := by
  rcases nextBatch_eq s i batches with heq | ⟨batch, rest, -, heq⟩
  · rw [heq]
    exact h.congr hi rfl rfl rfl rfl
  · rw [heq]
    exact h.congr hi rfl rfl rfl rfl

theorem step_registered (hi : Inv s) (h : Registered s) (hs : step le s e = some s') : Registered s' := by
  cases step_change hs with
  | synchronize devices => exact (synchronize_evolves le hi.tidy devices).1.registered hi h
  | checkNow =>
    unfold checkNow
    split
    · exact h
    · exact nextBatch_registered _ _ ⟨⟨hi.tidy.made, hi.tidy.unique⟩, hi.checks, hi.wakes⟩ (h.congr hi rfl rfl rfl rfl)
  | batchEnds _ _ => exact nextBatch_registered _ _ hi h
  | sweepReturns _ => exact h.congr hi rfl rfl rfl rfl
  | @checkAnswers i check answer _ _ =>
    obtain ⟨t, phase, heq, hw⟩ := checkAnswered_writes s i check answer
    rw [heq]
    exact (h.writes hi hw).congr (hw.inv hi) rfl rfl rfl rfl
  | @checkSaved i check observation answer hget _ =>
    obtain ⟨t, heq, hw⟩ := checkApplied_writes (hi.checks check (List.mem_of_getElem? hget)).2 i observation answer
    rw [heq]
    exact (h.writes hi hw).congr (hw.inv hi) rfl rfl rfl rfl
  | wake x test =>
    rcases beginWake_eq s x test with heq | ⟨heq, -, -, -, hfree⟩
    · rw [heq]
      exact h
    · rw [heq]
      exact begun_registered test hfree h
  | @wakeReports w wake progress _ => exact h.writes hi (wakeReported_writes s wake progress)
  | @wakeAnswers w wake answer hget hphase =>
    obtain ⟨t, phase, heq, hw, hopen⟩ := wakeAnswered_writes s w wake answer
    rw [heq]
    exact (h.writes hi hw).advance (hw.inv hi) (by rw [hw.rest]; exact hget) (by rw [hphase]; nofun) hopen
  | @wakeSaved w wake outcome answer hget hphase =>
    obtain ⟨t, heq, hw⟩ := wakeApplied_writes (hi.wakes wake (List.mem_of_getElem? hget)).2 w outcome answer
    rw [heq]
    exact (h.writes hi hw).advance (hw.inv hi) (by rw [hw.rest]; exact hget) (by rw [hphase]; nofun) nofun
  | wakeReturns hget hended => exact wakeReturned_registered hget hended h
  | cancelWake x => exact (cancelWake_evolves s x hi.tidy).1.registered hi h
  | stop => exact h.congr hi rfl rfl rfl rfl

theorem reach_registered (h : (machine le).Reach s) : Registered s := by
  have hboth : Inv s ∧ Registered s := by
    refine h.inv (I := fun s => Inv s ∧ Registered s) ?_ ?_
    · intro s hs
      refine ⟨reach_inv ⟨[], .init hs⟩, ?_⟩
      cases hs
      exact ⟨fun _ _ hv => (nomatch hv), fun _ _ h => (nomatch h.1), fun _ _ h => (nomatch h.1),
        fun x hx => absurd hx (Nat.not_lt_zero x)⟩
    · intro s e s' hb hs
      exact ⟨(step_later_inv hb.1 hs).2, step_registered hb.1 hb.2 hs⟩
  exact hboth.2

/-- No wake is started on a card while a wake of another card with its id still runs. -/
def StartsFree (s : State) : Event → Prop
  | .wake x _ => s.stopped = false → (s.card x).canWake = true → x ∈ s.page →
      ∀ a ∈ s.wakes, a.phase ≠ .returned → a.card ≠ x → (s.card a.card).id ≠ (s.card x).id
  | _ => True

instance (s : State) : (e : Event) → Decidable (StartsFree s e)
  | .wake x _ => inferInstanceAs (Decidable (s.stopped = false → (s.card x).canWake = true → x ∈ s.page →
      ∀ a ∈ s.wakes, a.phase ≠ .returned → a.card ≠ x → (s.card a.card).id ≠ (s.card x).id))
  | .synchronize _ | .checkNow | .batchEnds _ | .sweepReturns _ | .checkAnswers _ _ | .checkSaved _ _
  | .wakeReports _ _ | .wakeAnswers _ _ | .wakeSaved _ _ | .wakeReturns _ | .cancelWake _ | .stop => .isTrue trivial

structure RegistryMatches (log : List (State × Event)) (s : State) : Prop where
  /-- Where a wake may start, its id has no entry yet. -/
  starts : ∀ t x test, (t, .wake x test) ∈ log → t.stopped = false → (t.card x).canWake = true → x ∈ t.page →
    t.registry.lookup (t.card x).id = none
  /-- A waking card has one running wake, and cancelling on the card cancels that one. -/
  cards : ∀ x ∈ s.page, (s.card x).isWaking = true → ∃ v a, Running s v a ∧ a.card = x ∧
    (∀ w b, Running s w b → b.card = x → w = v) ∧ s.registry.lookup (s.card x).id = some v ∧
    cancelWake s x = { s with wakes := s.wakes.modify v fun wake => { wake with cancelled := true } }
  /-- An entry is of a wake that runs, for a card of that id. -/
  entries : ∀ id v, s.registry.lookup id = some v → ∃ a, Running s v a ∧ (s.card a.card).id = id

/-- A start fails exactly where another card's wake of that id still runs. -/
theorem start_free_iff (h : Registered s) {x : Nat} (hcan : (s.card x).canWake = true) :
    s.registry.lookup (s.card x).id = none ↔
      ∀ a ∈ s.wakes, a.phase ≠ .returned → a.card ≠ x → (s.card a.card).id ≠ (s.card x).id := by
  constructor
  · intro hnone a ha hphase _ hid
    obtain ⟨v, hv⟩ := List.mem_iff_getElem?.mp ha
    have hlisted := h.listed v a ⟨hv, hphase⟩
    rw [hid, hnone] at hlisted
    cases hlisted
  · intro hfree
    cases hlookup : s.registry.lookup (s.card x).id with
    | none => rfl
    | some v =>
      obtain ⟨a, ha, hid⟩ := h.entry _ v hlookup
      have hother : a.card ≠ x := by
        intro hax
        have hwaking := h.waking v a ha
        simp only [Card.canWake, Bool.and_eq_true, Bool.not_eq_true', hax ▸ hwaking] at hcan
        cases hcan.1
      exact absurd hid (hfree a (List.mem_of_getElem? ha.1) ha.2 hother)

/-- The registry matches the cards in exactly the runs in which no wake is started while a wake of another card
    with that id still runs. -/
theorem registry_matches_iff {log : List (State × Event)} (hrun : (machine le).Runs log s) :
    RegistryMatches log s ↔ Machine.Throughout StartsFree log := by
  have hreach {t : State} {e : Event} (ht : (t, e) ∈ log) : Registered t := reach_registered (hrun.reach_of_mem ht)
  have h := reach_registered ⟨log, hrun⟩
  have hmade := (reach_inv ⟨log, hrun⟩).tidy.made
  constructor
  · intro hm p hp
    obtain ⟨t, e⟩ := p
    cases e with
    | wake x test =>
      intro hstopped hcan hx
      exact (start_free_iff (hreach hp) hcan).mp (hm.starts t x test hp hstopped hcan hx)
    | _ => trivial
  · intro hfree
    refine ⟨?_, ?_, h.entry⟩
    · intro t x test ht hstopped hcan hx
      exact (start_free_iff (hreach ht) hcan).mpr (hfree _ ht hstopped hcan hx)
    · intro x hx hw
      obtain ⟨v, a, ha, hax⟩ := h.runs x (hmade x hx) hw
      have hlisted := h.listed v a ha
      rw [hax] at hlisted
      refine ⟨v, a, ha, hax, ?_, hlisted, ?_⟩
      · exact fun w b hb hbx => h.one hb ha (by rw [hax, hbx])
      · unfold cancelWake
        rw [hlisted]

/-! ## A device that comes back -/

theorem server_registered : ∃ log s, (machine byName).Runs log s ∧ RegistryMatches log s ∧
    (s.card 0).isWaking = true := by
  obtain ⟨log, s, hrun, hok, hp⟩ := Machine.exists_run (machine byName) StartsFree
    (fun s => (s.card 0).isWaking) [.synchronize [server], .wake 0 false] rfl (by decide +kernel)
  exact ⟨log, s, hrun, (registry_matches_iff hrun).mpr hok, hp⟩

/-- The server is deleted while it is waking and added again. -/
def serverReturns : List Event := [.synchronize [server], .wake 0 false, .synchronize [], .synchronize [server]]

/-- The wake of its new card cannot start. -/
theorem returned_server_is_taken : ¬ ∀ (le : Str → Str → Bool) (log : List (State × Event)) (s : State),
    (machine le).Runs log s → RegistryMatches log s := by
  intro hall
  obtain ⟨log, s, hrun, -, hp⟩ := Machine.exists_run (machine byName) (fun _ _ => True)
    (fun s => !s.stopped && (s.card 1).canWake && decide (1 ∈ s.page) && (s.registry.lookup (s.card 1).id).isSome)
    serverReturns rfl (by decide +kernel)
  simp only [Bool.and_eq_true, Bool.not_eq_true', decide_eq_true_eq] at hp
  obtain ⟨⟨⟨hstopped, hcan⟩, hx⟩, htaken⟩ := hp
  have hmatches := hall byName _ _ (hrun.step (.wake 1 false) rfl)
  rw [hmatches.starts s 1 false (by simp) hstopped hcan hx] at htaken
  cases htaken

end MythLab.App.DeviceActivityViewModel
