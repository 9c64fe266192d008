/-
  MythLab.App.TerminalWindow — connecting, disconnecting and closing one terminal window.

  A reconnect cancels the run that there is, waits for its end and starts another, unless
  the window has begun to close. Closing (`CloseCoreAsync`) cancels the run, waits for its
  end and for that of the browser's initialization, and then lets the window go. A run
  ends by itself, whatever it meets.

  A window that has closed has no run (`step_inv`), and stays closed (`step_drained`).
-/

namespace MythLab.App.TerminalWindow

/-- The task `initialization`. -/
inductive Initialization where
  | notStarted
  | running
  | ended
  deriving DecidableEq, Repr

structure State where
  /-- `RunAsync` has not ended. -/
  running : Bool
  /-- The token of the run is cancelled. -/
  cancelled : Bool
  initialization : Initialization
  /-- `ReconnectAsync` waits for the run before. -/
  restarting : Bool
  requiresReopen : Bool
  /-- `CloseCoreAsync` has begun. -/
  closing : Bool
  /-- `CloseCoreAsync` has come to its end. -/
  drained : Bool
  deriving DecidableEq, Repr

inductive Event where
  | reconnect
  /-- `ReconnectAsync` runs on after its `StopAsync`. -/
  | restart
  | disconnect
  | initialized
  | rendererFails
  | runEnds
  | close
  /-- `CloseCoreAsync` runs on after its waits. -/
  | closed
  deriving DecidableEq, Repr

def shown : State := ⟨false, false, .notStarted, false, false, false, false⟩

/-- `CloseSessionAsync` -/
def closeSession (s : State) : State := if s.closing then s else { s with closing := true, cancelled := true }

def step (s : State) : Event → Option State
  | .reconnect =>
    if s.closing || s.restarting || s.requiresReopen then some s
    else some { s with restarting := true, cancelled := true }
  | .restart =>
    if s.restarting ∧ s.running = false then
      if s.closing then some { s with restarting := false }
      else some { s with
        restarting := false
        running := true
        cancelled := false
        initialization := if s.initialization = .notStarted then .running else s.initialization }
    else none
  | .disconnect => some { s with cancelled := true }
  | .initialized => if s.initialization = .running then some { s with initialization := .ended } else none
  | .rendererFails => some { s with requiresReopen := true, cancelled := true }
  | .runEnds => if s.running then some { s with running := false } else none
  | .close => some (closeSession s)
  | .closed =>
    if s.closing ∧ s.drained = false ∧ s.running = false ∧ s.initialization ≠ .running then
      some { s with drained := true }
    else none

/-- A window that has closed was closing, and has no run. -/
def Inv (s : State) : Prop := s.drained = true → s.closing = true ∧ s.running = false

theorem closeSession_inv {s : State} (h : Inv s) : Inv (closeSession s) := by
  unfold closeSession
  split
  · exact h
  · intro hd
    exact ⟨rfl, (h hd).2⟩

theorem step_inv {s s' : State} {e : Event} (h : Inv s) (hs : step s e = some s') : Inv s' := by
  cases e with
  | reconnect =>
    simp only [step] at hs
    split at hs <;> cases hs <;> exact h
  | restart =>
    simp only [step] at hs
    split at hs
    · split at hs <;> cases hs
      · exact h
      · rename_i hc
        intro hd
        exact absurd (h hd).1 hc
    · cases hs
  | disconnect => cases hs; exact h
  | initialized =>
    simp only [step] at hs
    split at hs <;> cases hs
    exact h
  | rendererFails => cases hs; exact h
  | runEnds =>
    simp only [step] at hs
    split at hs <;> cases hs
    intro hd
    exact ⟨(h hd).1, rfl⟩
  | close => cases hs; exact closeSession_inv h
  | closed =>
    simp only [step] at hs
    split at hs <;> cases hs
    rename_i hc
    intro _
    exact ⟨hc.1, hc.2.2.1⟩

/-- What has closed stays closed. -/
theorem step_drained {s s' : State} {e : Event} (hd : s.drained = true) (hs : step s e = some s') :
    s'.drained = true := by
  cases e with
  | reconnect =>
    simp only [step] at hs
    split at hs <;> cases hs <;> exact hd
  | restart =>
    simp only [step] at hs
    split at hs
    · split at hs <;> cases hs <;> exact hd
    · cases hs
  | disconnect => cases hs; exact hd
  | initialized =>
    simp only [step] at hs
    split at hs <;> cases hs
    exact hd
  | rendererFails => cases hs; exact hd
  | runEnds =>
    simp only [step] at hs
    split at hs <;> cases hs
    exact hd
  | close =>
    cases hs
    unfold closeSession
    split <;> exact hd
  | closed =>
    simp only [step] at hs
    split at hs <;> cases hs
    rfl

end MythLab.App.TerminalWindow
