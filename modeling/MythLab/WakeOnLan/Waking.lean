/-
  MythLab.WakeOnLan.Waking — a wake with its sender: `WakeDeviceService` calling
  `WakeOnLanService`, both under one token.

  A step is one of the wake, one of the sender, or the wake going on when the sender has
  ended. What the sender reports, the wake reports. Proved of every reachable state
  (`wake_sends_the_rounds`): the wake is in a state that it can be in with any sender, so
  what is proved of it holds here; no packet is started before a first check that was not
  Online; no further check is made before the sender has sent the rounds of its plan; and
  an outcome that is verified stands for an Offline answer, all the packets, and an Online
  answer, in this order.
-/
import MythLab.WakeOnLan.WakeDeviceService
import MythLab.WakeOnLan.WakeOnLanService

namespace MythLab.WakeOnLan.Waking

open Lib Dotnet Devices
open WakeDeviceService (Happening Polled Story)

structure State where
  wake : WakeDeviceService.State
  /-- The call of `SendAsync`, once it is made. -/
  sender : Option WakeOnLanService.State := none
  deriving DecidableEq, Repr

inductive Event where
  /-- The caller cancels the token that both have. -/
  | cancel
  | wake (e : WakeDeviceService.Event)
  | sender (e : WakeOnLanService.Event)
  /-- The sender has ended, and the wake goes on. -/
  | senderEnds
  deriving DecidableEq, Repr

/-- The sender's token is cancelled. -/
def cancelSender (t : WakeOnLanService.State) : WakeOnLanService.State := (WakeOnLanService.step t .cancel).getD t

/-- The sender is called when the wake comes to it, with the wake's token. -/
def withSender (fw : Framework) (device : Device) (w : WakeDeviceService.State) :
    Option WakeOnLanService.State → Option WakeOnLanService.State
  | some t => some t
  | none =>
    match w.phase with
    | .sending _ =>
      let t := WakeOnLanService.start fw device
      some (if w.cancelled then cancelSender t else t)
    | _ => none

/-- What a step of the sender reported. -/
def newReports (t t' : WakeOnLanService.State) : List WakeProgress :=
  (t'.history.drop t.history.length).filterMap fun h =>
    match h with
    | .reports progress => some progress
    | _ => none

/-- What the sender's task ended with. -/
def senderResult (t : WakeOnLanService.State) : Option (Except Exn Unit) :=
  match t.phase with
  | .returned _ _ => some (.ok ())
  | .threw e => some (.error e)
  | _ => none

def step (fw : Framework) (device : Device) (s : State) : Event → Option State
  | .cancel => (WakeDeviceService.step s.wake .cancel).map fun w => ⟨w, s.sender.map cancelSender⟩
  | .wake e =>
    match e with
    | .cancel | .senderReports _ | .sent _ => none
    | e => (WakeDeviceService.step s.wake e).map fun w => ⟨w, withSender fw device w s.sender⟩
  | .sender e =>
    match e, s.sender with
    | .cancel, _ | _, none => none
    | e, some t => (WakeOnLanService.step t e).map fun t' => ⟨(newReports t t').foldl WakeDeviceService.State.report s.wake, some t'⟩
  | .senderEnds =>
    match s.sender.bind senderResult with
    | some result => (WakeDeviceService.step s.wake (.sent result)).map fun w => ⟨w, s.sender⟩
    | none => none

def machine (fw : Framework) (device : Device) (timeout interval : Int) : Machine State Event :=
  ⟨(· = ⟨WakeDeviceService.start device timeout interval, none⟩), step fw device⟩

/-! ## What the wake's steps call -/

section Wake

variable {w w' : WakeDeviceService.State} {e : WakeDeviceService.Event}

/-- A step of the wake that is not the end of the sender: it calls the sender when it comes to it, and
    nothing of the sender ends. -/
theorem wake_calls (he : WakeDeviceService.step w e = some w') (hsent : ∀ result, e ≠ .sent result) :
    ∃ h, w'.history = w.history ++ h ∧ .sendCompletes ∉ h ∧ (∀ ex, .sendThrows ex ∉ h) ∧
      (.sendStarts ∈ h ↔ w.phase = .checkingFirst ∧ ∃ before, w'.phase = .sending before) ∧
      ((∃ before, w'.phase = .sending before) → .sendStarts ∈ h ∨ ∃ before, w.phase = .sending before) := by
  cases WakeDeviceService.step_change he with
  | cancels | fires =>
    refine ⟨[], (List.append_nil _).symm, List.not_mem_nil, fun _ => List.not_mem_nil, ?_, fun h => Or.inr h⟩
    refine iff_of_false List.not_mem_nil ?_
    intro ⟨hp, before, hp'⟩
    rw [hp] at hp'
    cases hp'
  | firstOnline hp | firstThrows hp => exact ⟨_, rfl, by simp, by simp, by simp, by simp⟩
  | firstDown hp => exact ⟨_, rfl, by simp, by simp, by simp [hp], by simp⟩
  | reports progress hp => exact ⟨[], (List.append_nil _).symm, by simp, by simp, by simp [hp], by simp [hp]⟩
  | sent => exact absurd rfl (hsent _)
  | sendThrows => exact absurd rfl (hsent _)
  | delayCut hp =>
    rcases hp with hp | hp
    · exact ⟨_, rfl, by simp, by simp, by simp, by simp⟩
    · exact ⟨_, rfl, by simp, by simp, by simp, by simp⟩
  | delays hp => exact ⟨[], (List.append_nil _).symm, by simp, by simp, by simp, by simp⟩
  | checks hp | online hp | checkCut hp | checkThrows hp => exact ⟨_, rfl, by simp, by simp, by simp, by simp⟩
  | down progress hp => exact ⟨_, rfl, by simp, by simp, by simp, by simp⟩
  | cancelled hp | timedOut hp => exact ⟨[], (List.append_nil _).symm, by simp, by simp, by simp, by simp⟩

variable {device : Device} {timeout interval : Int} {c : Bool} {p : WakeDeviceService.Phase} {h : List Happening}

/-- The sender is called only where the first check was not Online. -/
theorem first_of_sends (hs : Story c p h) (hsends : .sendStarts ∈ h) :
    ∃ o, .checkAnswers 0 o ∈ h ∧ o.state ≠ .online := by
  have hpolled {before latest : StatusObservation} {n : Nat} {h i : List Happening} (hp : Polled before latest n h) :
      ∃ o, .checkAnswers 0 o ∈ h ++ i ∧ o.state ≠ .online :=
    ⟨before, List.mem_append_left _ (hp.first_iff.mpr rfl), hp.down (hp.first_iff.mpr rfl)⟩
  cases hs with
  | refused | checkingFirst | firstThrew | alreadyOnline => simp at hsends
  | sending hb => exact ⟨_, by simp, hb⟩
  | sendThrew e hb => exact ⟨_, by simp, hb⟩
  | delaying hp | waiting hp => simpa using hpolled (i := []) hp
  | checking hp | online hp | checkThrew hp => exact hpolled hp
  | caught hp | timedOut _ hp | cancelled _ hp => exact hpolled hp

/-- A later check starts only after the sender has completed. -/
theorem completes_of_checks (hs : Story c p h) {n : Nat} (hchecks : .checkStarts (n + 1) ∈ h) : .sendCompletes ∈ h := by
  cases hs with
  | refused | checkingFirst | firstThrew | alreadyOnline | sending | sendThrew => simp at hchecks
  | delaying hp | waiting hp => exact hp.completes
  | checking hp | online hp | checkThrew hp => exact List.mem_append_left _ hp.completes
  | caught hp | timedOut _ hp | cancelled _ hp => exact List.mem_append_left _ hp.completes

/-- While the sender has been called and has not ended, the wake waits for it. -/
theorem sending_of_calls (hs : Story c p h) (hsends : .sendStarts ∈ h) (hcompletes : .sendCompletes ∉ h)
    (hthrows : ∀ e, .sendThrows e ∉ h) : ∃ before, p = .sending before := by
  cases hs with
  | refused | checkingFirst | firstThrew | alreadyOnline => simp at hsends
  | sending hb => exact ⟨_, rfl⟩
  | sendThrew e hb => exact absurd (by simp) (hthrows e)
  | delaying hp | waiting hp => exact absurd hp.completes hcompletes
  | checking hp | online hp | checkThrew hp => exact absurd (List.mem_append_left _ hp.completes) hcompletes
  | caught hp | timedOut _ hp | cancelled _ hp => exact absurd (List.mem_append_left _ hp.completes) hcompletes

theorem starts_of_throws (hs : Story c p h) {e : Exn} (hthrows : .sendThrows e ∈ h) : .sendStarts ∈ h := by
  have hpolled {before latest : StatusObservation} {n : Nat} {h : List Happening} (hp : Polled before latest n h) :
      .sendStarts ∈ h := List.count_pos_iff.mp (by rw [hp.sends]; exact Nat.one_pos)
  cases hs with
  | refused | checkingFirst | firstThrew | alreadyOnline => simp at hthrows
  | sending | sendThrew => simp
  | delaying hp | waiting hp => exact hpolled hp
  | checking hp | online hp | checkThrew hp => exact List.mem_append_left _ (hpolled hp)
  | caught hp | timedOut _ hp | cancelled _ hp => exact List.mem_append_left _ (hpolled hp)

/-- The end of the sender is noted. -/
theorem sent_calls {result : Except Exn Unit} (he : WakeDeviceService.step w (.sent result) = some w') :
    (∃ before, w.phase = .sending before) ∧
      ((result = .ok () ∧ w'.history = w.history ++ [.sendCompletes]) ∨
        ∃ ex, result = .error ex ∧ w'.history = w.history ++ [.sendThrows ex] ∧ w'.phase = .threw ex) := by
  simp only [WakeDeviceService.step] at he
  split at he
  · cases he
    exact ⟨⟨_, ‹_›⟩, Or.inl ⟨rfl, rfl⟩⟩
  · cases he
    exact ⟨⟨_, ‹_›⟩, Or.inr ⟨_, rfl, rfl, rfl⟩⟩
  · cases he

/-- Reports are steps of the wake. -/
theorem reports_reach {reports : List WakeProgress} (hr : (WakeDeviceService.machine device timeout interval).Reach w)
    {before : StatusObservation} (hp : w.phase = .sending before) :
    (WakeDeviceService.machine device timeout interval).Reach (reports.foldl WakeDeviceService.State.report w) := by
  induction reports generalizing w with
  | nil => exact hr
  | cons report reports ih =>
    refine ih (w := w.report report) (Machine.reach_step (.senderReports report) hr ?_) hp
    show WakeDeviceService.step w (.senderReports report) = _
    simp only [WakeDeviceService.step, hp]

theorem reports_frame (reports : List WakeProgress) (w : WakeDeviceService.State) :
    (reports.foldl WakeDeviceService.State.report w).phase = w.phase ∧
      (reports.foldl WakeDeviceService.State.report w).history = w.history := by
  induction reports generalizing w with
  | nil => exact ⟨rfl, rfl⟩
  | cons report reports ih => exact ih (w.report report)

end Wake

/-! ## The sender's steps -/

section Sender

variable {fw : Framework} {device : Device} {t t' : WakeOnLanService.State}

theorem cancelSender_phase (t : WakeOnLanService.State) : (cancelSender t).phase = t.phase := by
  unfold cancelSender
  simp only [WakeOnLanService.step]
  split
  · rfl
  · rfl

theorem cancelSender_reach (h : (WakeOnLanService.machine fw device).Reach t) :
    (WakeOnLanService.machine fw device).Reach (cancelSender t) := by
  unfold cancelSender
  rcases hstep : WakeOnLanService.step t .cancel with _ | t'
  · exact h
  · exact Machine.reach_step .cancel h hstep

/-- A call that has ended takes no step. -/
theorem sender_over {e : WakeOnLanService.Event} (hover : t.phase.isOver = true) : WakeOnLanService.step t e = none := by
  obtain ⟨phase, cancelled, history⟩ := t
  cases phase with
  | returned | threw => cases e <;> simp [WakeOnLanService.step, WakeOnLanService.Phase.isOver]
  | _ => cases hover

theorem senderResult_phase {result : Except Exn Unit} (h : senderResult t = some result) :
    (result = .ok () → ∃ destination count, t.phase = .returned destination count) ∧
      ∀ ex, result = .error ex → t.phase = .threw ex := by
  unfold senderResult at h
  split at h
  · cases h
    exact ⟨fun _ => ⟨_, _, ‹_›⟩, fun _ he => (by cases he)⟩
  · cases h
    exact ⟨fun he => (by cases he), fun _ he => by cases he; assumption⟩
  · cases h

end Sender

/-! ## The invariant -/

variable {fw : Framework} {device : Device} {timeout interval : Int} {s s' : State} {e : Event}

inductive Change (fw : Framework) (device : Device) (s : State) : Event → State → Prop
  | cancels {w : WakeDeviceService.State} : WakeDeviceService.step s.wake .cancel = some w →
      Change fw device s .cancel ⟨w, s.sender.map cancelSender⟩
  | wakes {e : WakeDeviceService.Event} {w : WakeDeviceService.State} : (∀ result, e ≠ .sent result) →
      WakeDeviceService.step s.wake e = some w → Change fw device s (.wake e) ⟨w, withSender fw device w s.sender⟩
  | sends {e : WakeOnLanService.Event} {t t' : WakeOnLanService.State} : s.sender = some t →
      WakeOnLanService.step t e = some t' →
      Change fw device s (.sender e) ⟨(newReports t t').foldl WakeDeviceService.State.report s.wake, some t'⟩
  | ends {t : WakeOnLanService.State} {result : Except Exn Unit} {w : WakeDeviceService.State} : s.sender = some t →
      senderResult t = some result → WakeDeviceService.step s.wake (.sent result) = some w →
      Change fw device s .senderEnds ⟨w, s.sender⟩

theorem step_change (he : step fw device s e = some s') : Change fw device s e s' := by
  cases e with
  | cancel =>
    obtain ⟨w, hw, rfl⟩ := Option.map_eq_some_iff.mp he
    exact .cancels hw
  | wake e =>
    have hother (hsent : ∀ result, e ≠ .sent result)
        (he : (WakeDeviceService.step s.wake e).map (fun w => State.mk w (withSender fw device w s.sender)) = some s') :
        Change fw device s (.wake e) s' := by
      obtain ⟨w, hw, rfl⟩ := Option.map_eq_some_iff.mp he
      exact .wakes hsent hw
    cases e with
    | cancel | senderReports | sent => cases he
    | _ => exact hother (fun _ h => (by cases h)) he
  | sender e =>
    rcases hs : s.sender with _ | t
    · simp only [step, hs] at he
      cases e <;> cases he
    · have hother (he : (WakeOnLanService.step t e).map
          (fun t' => State.mk ((newReports t t').foldl WakeDeviceService.State.report s.wake) (some t')) = some s') :
          Change fw device s (.sender e) s' := by
        obtain ⟨t', ht', rfl⟩ := Option.map_eq_some_iff.mp he
        exact .sends hs ht'
      simp only [step, hs] at he
      cases e with
      | cancel => cases he
      | _ => exact hother he
  | senderEnds =>
    simp only [step] at he
    split at he
    · rename_i result hresult
      obtain ⟨t, ht, hresult⟩ := Option.bind_eq_some_iff.mp hresult
      obtain ⟨w, hw, rfl⟩ := Option.map_eq_some_iff.mp he
      exact .ends ht hresult hw
    · cases he

/-- The sender's call and what the wake has seen of it. -/
structure Called (fw : Framework) (device : Device) (h : List Happening) (t : WakeOnLanService.State) : Prop where
  reach : (WakeOnLanService.machine fw device).Reach t
  starts : .sendStarts ∈ h
  completes : .sendCompletes ∈ h → ∃ destination count, t.phase = .returned destination count
  throws : ∀ ex, .sendThrows ex ∈ h → t.phase = .threw ex

structure Inv (fw : Framework) (device : Device) (timeout interval : Int) (s : State) : Prop where
  refines : (WakeDeviceService.machine device timeout interval).Reach s.wake
  uncalled : s.sender = none → .sendStarts ∉ s.wake.history ∧ .sendCompletes ∉ s.wake.history
  called : ∀ t, s.sender = some t → Called fw device s.wake.history t

/-- A sender that has not ended has a wake that waits for it. -/
theorem Inv.sending (h : Inv fw device timeout interval s) {t : WakeOnLanService.State} (ht : s.sender = some t)
    (hrunning : t.phase.isOver = false) : ∃ before, s.wake.phase = .sending before := by
  have hcalled := h.called t ht
  refine sending_of_calls (WakeDeviceService.story_of_reach h.refines) hcalled.starts ?_ ?_
  · intro hcompletes
    obtain ⟨destination, count, hphase⟩ := hcalled.completes hcompletes
    rw [hphase] at hrunning
    cases hrunning
  · intro ex hthrows
    rw [hcalled.throws ex hthrows] at hrunning
    cases hrunning

theorem step_inv (h : Inv fw device timeout interval s) (he : step fw device s e = some s') :
    Inv fw device timeout interval s' := by
  cases step_change he with
  | @cancels w hw =>
    have hhistory : w.history = s.wake.history := by
      simp only [WakeDeviceService.step] at hw
      split at hw
      · cases hw
      · cases hw
        rfl
    refine ⟨Machine.reach_step .cancel h.refines hw, ?_, ?_⟩
    · intro hnone
      rw [hhistory]
      exact h.uncalled (Option.map_eq_none_iff.mp hnone)
    · intro t ht
      obtain ⟨u, hu, rfl⟩ := Option.map_eq_some_iff.mp ht
      have hcalled := h.called u hu
      rw [hhistory]
      refine ⟨cancelSender_reach hcalled.reach, hcalled.starts, ?_, ?_⟩
      · rw [cancelSender_phase]
        exact hcalled.completes
      · rw [cancelSender_phase]
        exact hcalled.throws
  | @wakes e w hsent hw =>
    obtain ⟨k, hk, hcompletes, hthrows, hstarts, hsending⟩ := wake_calls hw hsent
    refine ⟨Machine.reach_step e h.refines hw, ?_, ?_⟩
    · intro hnone
      show _ ∉ w.history ∧ _ ∉ w.history
      rcases hs : s.sender with _ | t
      · obtain ⟨hstarts', hcompletes'⟩ := h.uncalled hs
        rw [hk, List.mem_append, List.mem_append]
        refine ⟨not_or.mpr ⟨hstarts', fun hk => ?_⟩, not_or.mpr ⟨hcompletes', hcompletes⟩⟩
        obtain ⟨-, before, hphase⟩ := hstarts.mp hk
        simp only [withSender, hs, hphase] at hnone
        cases hnone
      · simp only [withSender, hs] at hnone
        cases hnone
    · intro t ht
      show Called fw device w.history t
      rcases hs : s.sender with _ | u
      · obtain ⟨hstarts', hcompletes'⟩ := h.uncalled hs
        have hnew : (∃ before, w.phase = .sending before) ∧ (WakeOnLanService.machine fw device).Reach t := by
          simp only [withSender, hs] at ht
          split at ht
          · rename_i before hphase
            refine ⟨⟨before, hphase⟩, ?_⟩
            have hstart : (WakeOnLanService.machine fw device).Reach (WakeOnLanService.start fw device) := ⟨[], .init rfl⟩
            cases ht
            split
            · exact cancelSender_reach hstart
            · exact hstart
          · cases ht
        have hcalls : .sendStarts ∈ k := by
          rcases hsending hnew.1 with hk | ⟨before, hphase⟩
          · exact hk
          · -- the wake would have called the sender before
            have hstory := WakeDeviceService.story_of_reach h.refines
            rw [hphase] at hstory
            exact absurd (by rw [hstory.of_sending.1]; simp) hstarts'
        rw [hk]
        refine ⟨hnew.2, List.mem_append_right _ hcalls, ?_, ?_⟩
        · intro hmem
          exact absurd hmem (by rw [List.mem_append]; exact not_or.mpr ⟨hcompletes', hcompletes⟩)
        · intro ex hmem
          rcases List.mem_append.mp hmem with hmem | hmem
          · have hstory := WakeDeviceService.story_of_reach h.refines
            exact absurd (starts_of_throws hstory hmem) hstarts'
          · exact absurd hmem (hthrows ex)
      · simp only [withSender, hs] at ht
        obtain rfl := Option.some.inj ht
        have hcalled := h.called u hs
        rw [hk]
        refine ⟨hcalled.reach, List.mem_append_left _ hcalled.starts, fun hmem => ?_, fun ex hmem => ?_⟩
        · exact hcalled.completes ((List.mem_append.mp hmem).resolve_right hcompletes)
        · exact hcalled.throws ex ((List.mem_append.mp hmem).resolve_right (hthrows ex))
  | @sends e t t' ht hstep =>
    have hcalled := h.called t ht
    have hrunning : t.phase.isOver = false := by
      refine (Bool.not_eq_true _).mp fun hover => ?_
      rw [sender_over hover] at hstep
      cases hstep
    obtain ⟨before, hphase⟩ := h.sending ht hrunning
    obtain ⟨-, hhistory⟩ := reports_frame (newReports t t') s.wake
    refine ⟨reports_reach h.refines hphase, fun hnone => (by cases hnone), ?_⟩
    intro u hu
    cases hu
    show Called fw device ((newReports t t').foldl WakeDeviceService.State.report s.wake).history t'
    rw [hhistory]
    refine ⟨Machine.reach_step e hcalled.reach hstep, hcalled.starts, ?_, ?_⟩
    · intro hmem
      obtain ⟨destination, count, hover⟩ := hcalled.completes hmem
      rw [hover] at hrunning
      cases hrunning
    · intro ex hmem
      rw [hcalled.throws ex hmem] at hrunning
      cases hrunning
  | @ends t result w ht hresult hw =>
    have hcalled := h.called t ht
    refine ⟨Machine.reach_step (.sent result) h.refines hw, fun hnone => ?_, ?_⟩
    · exact absurd (ht.symm.trans hnone) (by simp)
    · intro u hu
      cases ht.symm.trans hu
      show Called fw device w.history t
      obtain ⟨⟨before, hphase⟩, hends⟩ := sent_calls hw
      have hnot := (WakeDeviceService.story_of_reach h.refines)
      rw [hphase] at hnot
      obtain ⟨hhistory, -⟩ := hnot.of_sending
      have hover := senderResult_phase hresult
      rcases hends with ⟨rfl, hafter⟩ | ⟨ex, rfl, hafter, -⟩
      · rw [hafter]
        refine ⟨hcalled.reach, List.mem_append_left _ hcalled.starts, fun _ => hover.1 rfl, ?_⟩
        intro ex hmem
        rw [hhistory] at hmem
        simp at hmem
      · rw [hafter]
        refine ⟨hcalled.reach, List.mem_append_left _ hcalled.starts, fun hmem => ?_, fun ex' hmem => ?_⟩
        · rw [hhistory] at hmem
          simp at hmem
        · rw [hhistory] at hmem
          have hex : ex' = ex := by simpa using hmem
          rw [hex]
          exact hover.2 ex rfl

theorem inv_of_reach (h : (machine fw device timeout interval).Reach s) : Inv fw device timeout interval s := by
  refine h.inv ?_ fun _ _ _ => step_inv
  intro s hs
  cases hs
  refine ⟨⟨[], .init rfl⟩, fun _ => ?_, fun t ht => (by cases ht)⟩
  unfold WakeDeviceService.start
  split
  · simp
  · split
    · simp
    · simp

/-! ## The packets of a wake -/

/-- The sender returned, having sent the rounds of a plan made for the device. -/
def Complete (fw : Framework) (device : Device) (s : State) : Prop :=
  ∃ t log plan, s.sender = some t ∧ (WakeOnLanService.machine fw device).Runs log t ∧
    WakeOnLanService.Planned fw device log plan ∧ t.phase = .returned plan.destination plan.count ∧ t.history = plan.rounds

theorem Inv.complete (h : Inv fw device timeout interval s) (hcompletes : .sendCompletes ∈ s.wake.history) :
    Complete fw device s := by
  rcases hs : s.sender with _ | t
  · exact absurd hcompletes (h.uncalled hs).2
  · have hcalled := h.called t hs
    obtain ⟨log, hruns⟩ := hcalled.reach
    obtain ⟨destination, count, hphase⟩ := hcalled.completes hcompletes
    have hstory := WakeOnLanService.runs_story hruns
    rw [hphase] at hstory
    obtain ⟨plan, hplan, hrounds, rfl, rfl, -⟩ := hstory.of_returned
    exact ⟨t, log, plan, hs, hruns, hplan, hphase, hrounds⟩

/-- Wherever a wake with its sender has come to. -/
theorem wake_sends_the_rounds (h : (machine fw device timeout interval).Reach s) :
    (WakeDeviceService.machine device timeout interval).Reach s.wake ∧
      (s.sender ≠ none → ∃ o, .checkAnswers 0 o ∈ s.wake.history ∧ o.state ≠ .online) ∧
      (∀ n, .checkStarts (n + 1) ∈ s.wake.history → Complete fw device s) ∧
      ∀ outcome, s.wake.phase = .returned outcome → outcome.verified = true →
        (∃ o, .checkAnswers 0 o ∈ s.wake.history ∧ o.state = .offline) ∧ Complete fw device s ∧
          ∃ n o, [.sendCompletes, .checkStarts n, .checkAnswers n o].Sublist s.wake.history ∧ o.state = .online := by
  have hinv := inv_of_reach h
  have hstory := WakeDeviceService.story_of_reach hinv.refines
  refine ⟨hinv.refines, ?_, fun n hchecks => hinv.complete (completes_of_checks hstory hchecks), ?_⟩
  · intro hsender
    obtain ⟨t, ht⟩ := Option.ne_none_iff_exists'.mp hsender
    exact first_of_sends hstory (hinv.called t ht).starts
  · intro outcome hphase hverified
    rw [hphase] at hstory
    obtain ⟨hoffline, hcompletes, honline⟩ := hstory.returned.1.mp hverified
    exact ⟨hoffline, hinv.complete hcompletes, honline⟩

/-- The computer is Offline, is sent two rounds of three packets, and answers. -/
def pcWakes : List Event :=
  [.wake (.firstAnswers (.ok ⟨.offline, ⟨0, 0⟩, []⟩))] ++ WakeOnLanService.sixPackets.map .sender ++
    [.senderEnds, .wake .delayStarts, .wake (.delayEnds true), .wake (.answers (.ok ⟨.online, ⟨1, 0⟩, []⟩))]

theorem pc_woken : ∃ s, (machine Framework.ascii WakeOnLanService.pc 1200000000 30000000).Reach s ∧
    s.wake.reports.length = 8 ∧ Complete Framework.ascii WakeOnLanService.pc s := by
  obtain ⟨log, s, hruns, -, hp⟩ := (machine Framework.ascii WakeOnLanService.pc 1200000000 30000000).exists_run_by
    (fun _ s => s.wake.phase == .returned ⟨⟨.online, ⟨1, 0⟩, []⟩, true, WakeDeviceService.nowOnline true⟩ &&
      s.wake.reports.length == 8) pcWakes rfl (by decide +kernel)
  obtain ⟨hphase, hreports⟩ := Bool.and_eq_true_iff.mp hp
  obtain ⟨-, -, -, hverified⟩ := wake_sends_the_rounds ⟨log, hruns⟩
  exact ⟨s, ⟨log, hruns⟩, eq_of_beq hreports, (hverified _ (eq_of_beq hphase) rfl).2.1⟩

end MythLab.WakeOnLan.Waking
