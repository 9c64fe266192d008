/-
  MythLab.Lib.Replacement — replacing a file by moving a finished copy over it.

  The new contents are written to a temporary file of a fresh name, which is moved over
  the target; a `finally` deletes the temporary file if it is still there. A call before
  the move may throw at any point and leave anything in the temporary file. The move takes
  effect or throws, never both: it is the one point where the target changes.

  A `Replacing` names the two files, and `Untouched` is what holds until the move.
  Rules: `keeps_call` and `wp_write` for the calls before the move, `wp_move` for the
  move, `wp_delete` for the deletion, and `wp_replace` for the whole: afterwards
  (`Replaced`) a program that returned has replaced the target and changed no other file,
  and one that threw has changed no file, unless a deletion threw.
-/
import Mathlib.Logic.Function.Basic
import MythLab.Lib.Effect

namespace MythLab.Lib

/-- What the files hold in a state, and two of them. -/
structure Replacing (σ φ β : Type) where
  files : σ → φ → Option β
  target : φ
  temporary : φ
  distinct : temporary ≠ target

namespace Replacing

variable {σ κ ε φ β α γ : Type} [DecidableEq φ] (p : Replacing σ φ β)

/-! ## How a replacement stands -/

/-- Calls have been made since `w`, and the temporary file holds `left`. -/
def Aside (w : World σ κ) (left : Option β) (w' : World σ κ) : Prop :=
  (∃ made, w'.calls = w.calls ++ made) ∧ p.files w'.state = Function.update (p.files w.state) p.temporary left

/-- No file has changed since `w` but the temporary one. -/
def Untouched (w w' : World σ κ) : Prop := ∃ left, p.Aside w left w'

/-- The temporary file is finished: it holds `b`. -/
def Written (w : World σ κ) (b : β) : Except ε α → World σ κ → Prop
  | .ok _, w' => p.Aside w (some b) w'
  | .error _, w' => p.Untouched w w'

/-- The target is replaced by a value that `new` allows. -/
def Moved (w : World σ κ) (new : β → Prop) : Except ε Unit → World σ κ → Prop
  | .ok _, w' => (∃ made, w'.calls = w.calls ++ made) ∧
      ∃ b, new b ∧ p.files w'.state = Function.update (p.files w.state) p.target (some b)
  | .error _, w' => p.Untouched w w'

/-- The temporary file is gone, unless its deletion threw. -/
def Cleared (deletion : κ) (w : World σ κ) : Except ε Unit → World σ κ → Prop
  | r, w' => ∃ made, w'.calls = w.calls ++ made ∧
      (p.files w'.state = p.files w.state ∨
        threw r = true ∧ ⟨deletion, true⟩ ∈ made ∧ ∃ left, p.files w'.state = Function.update (p.files w.state) p.temporary left)

/-- The replacement as a whole. -/
def Replaced (deletion : κ) (w : World σ κ) (new : β → Prop) : Except ε Unit → World σ κ → Prop
  | r, w' => ∃ made, w'.calls = w.calls ++ made ∧
      match r with
      | .ok _ => ∃ b, new b ∧ p.files w'.state = Function.update (p.files w.state) p.target (some b)
      | .error _ => p.files w'.state = p.files w.state ∨
          ⟨deletion, true⟩ ∈ made ∧ ∃ left, p.files w'.state = Function.update (p.files w.state) p.temporary left

variable {p} {w w' : World σ κ} {left : Option β} {new : β → Prop}

theorem Aside.refl (hfresh : p.files w.state p.temporary = none) : p.Aside w none w :=
  ⟨⟨[], by simp⟩, (Function.update_eq_self_iff.mpr hfresh.symm).symm⟩

/-- One more call, which touched the temporary file at most. -/
theorem Aside.snoc (h : p.Aside w left w') {s : σ} {left' : Option β}
    (hs : p.files s = Function.update (p.files w'.state) p.temporary left') (c : Call κ) :
    p.Aside w left' ⟨s, w'.calls ++ [c]⟩ := by
  obtain ⟨⟨made, hmade⟩, hfiles⟩ := h
  refine ⟨⟨made ++ [c], ?_⟩, ?_⟩
  · rw [hmade, List.append_assoc]
  · rw [hs, hfiles, Function.update_idem]

/-- One more call, which touched no file. -/
theorem Aside.idle (h : p.Aside w left w') {s : σ} (hs : p.files s = p.files w'.state) (c : Call κ) :
    p.Aside w left ⟨s, w'.calls ++ [c]⟩ := by
  refine h.snoc ?_ c
  rw [hs, h.2, Function.update_idem]

/-- A change of the state that touches no file. -/
theorem Aside.congr (h : p.Aside w left w') {s : σ} (hs : p.files s = p.files w'.state) :
    p.Aside w left ⟨s, w'.calls⟩ := ⟨h.1, hs.trans h.2⟩

/-! ## The calls before the move -/

/-- `run` touches the temporary file at most. -/
def Spares (p : Replacing σ φ β) (run : σ → Except ε α × σ) : Prop :=
  ∀ s, ∃ left, p.files (run s).2 = Function.update (p.files s) p.temporary left

theorem spares_of_eq {run : σ → Except ε α × σ} (h : ∀ s, p.files (run s).2 = p.files s) : p.Spares run := by
  intro s
  refine ⟨p.files s p.temporary, ?_⟩
  rw [h s, Function.update_eq_self]

section Calls

variable {faults : Nat → Fault ε} {site : κ} {run : σ → Except ε α × σ}

theorem keeps_call (hrun : p.Spares run) : Eff.Keeps (p.Untouched w) (call faults site run) := by
  refine Lib.keeps_call ?_ ?_
  · intro v threw ⟨left, hv⟩
    obtain ⟨left', hs⟩ := hrun v.state
    exact ⟨left', hv.snoc hs _⟩
  · intro v ⟨left, hv⟩
    exact ⟨left, hv.idle rfl _⟩

/-- A call that puts `b` into the temporary file where it returns. -/
theorem wp_write {b : β} (hw : p.Untouched w w') (hrun : p.Spares run)
    (hok : ∀ a, (run w'.state).1 = .ok a →
      p.files (run w'.state).2 = Function.update (p.files w'.state) p.temporary (some b)) :
    Eff.wp (call faults site run) (p.Written w b) w' := by
  obtain ⟨left, hw⟩ := hw
  obtain ⟨left', hs⟩ := hrun w'.state
  refine wp_call ?_ ?_
  · cases hr : (run w'.state).1 with
    | ok a => exact hw.snoc (hok a hr) _
    | error e => exact ⟨left', hw.snoc hs _⟩
  · intro tookEffect e _
    cases tookEffect
    · exact ⟨left, hw.idle rfl _⟩
    · exact ⟨left', hw.snoc hs _⟩

/-- A call that touches no file leaves the finished one as it is. -/
theorem wp_idle {b : β} (hw : p.Aside w (some b) w') (hrun : ∀ s, p.files (run s).2 = p.files s) :
    Eff.wp (call faults site run) (p.Written w b) w' := by
  refine wp_write ⟨_, hw⟩ (spares_of_eq hrun) ?_
  intro a _
  have hb : p.files w'.state p.temporary = some b := by rw [hw.2, Function.update_self]
  rw [hrun, ← hb, Function.update_eq_self]

theorem wp_checkpoint {b : β} (hw : p.Aside w (some b) w') :
    Eff.wp (checkpoint faults site) (p.Written w b) w' :=
  wp_statement (hw.idle rfl _) fun _ _ => ⟨_, hw.idle rfl _⟩

/-- The file is closed, whether it was finished or not. -/
theorem wp_finally_idle {b : β} {m : Eff (World σ κ) ε γ} (hm : m.wp (p.Written w b) w')
    (hrun : ∀ s, p.files (run s).2 = p.files s) :
    (tryFinally m (call faults site run)).wp (p.Written w b) w' := by
  rw [Eff.wp_finally]
  refine Eff.wp_mono hm ?_
  intro r v hv
  rcases r with e | a
  · refine Eff.wp_mono (keeps_call (spares_of_eq hrun) v hv) ?_
    intro r' v' hv'
    cases r' <;> exact hv'
  · refine Eff.wp_mono (wp_idle hv hrun) ?_
    intro r' v' hv'
    cases r' <;> exact hv'

end Calls

/-! ## One step after another -/

section Steps

variable {m : Eff (World σ κ) ε α} {f : α → Eff (World σ κ) ε Unit}

theorem wp_bind_of_keeps (hm : Eff.Keeps (p.Untouched w) m) (hw : p.Untouched w w')
    (hf : ∀ a v, p.Untouched w v → (f a).wp (p.Moved w new) v) : (m >>= f).wp (p.Moved w new) w' := by
  rw [Eff.wp_bind]
  refine Eff.wp_mono (hm w' hw) ?_
  intro r v hv
  rcases r with e | a
  · exact hv
  · exact hf a v hv

theorem wp_bind_of_written {b : β} (hm : m.wp (p.Written w b) w')
    (hf : ∀ a v, p.Aside w (some b) v → (f a).wp (p.Moved w new) v) : (m >>= f).wp (p.Moved w new) w' := by
  rw [Eff.wp_bind]
  refine Eff.wp_mono hm ?_
  intro r v hv
  rcases r with e | a
  · exact hv
  · exact hf a v hv

end Steps

/-! ## The move, and the deletion -/

/-- `run` moves the temporary file over the target. -/
def IsMove (p : Replacing σ φ β) (run : σ → Except ε Unit × σ) : Prop :=
  ∀ s b, p.files s p.temporary = some b → (run s).1 = .ok () ∧
    p.files (run s).2 = Function.update (Function.update (p.files s) p.target (some b)) p.temporary none

def IsDelete (p : Replacing σ φ β) (run : σ → Except ε Unit × σ) : Prop :=
  ∀ s, (run s).1 = .ok () ∧ p.files (run s).2 = Function.update (p.files s) p.temporary none

section Calls

variable {faults : Nat → Fault ε} {site : κ}

theorem wp_move {run : σ → Except ε Unit × σ} {b : β} (hfresh : p.files w.state p.temporary = none)
    (hw : p.Aside w (some b) w') (hb : new b) (hrun : p.IsMove run) :
    Eff.wp (statement faults site run) (p.Moved w new) w' := by
  refine wp_statement ?_ ?_
  · obtain ⟨⟨made, hmade⟩, hfiles⟩ := hw
    have hb' : p.files w'.state p.temporary = some b := by rw [hfiles, Function.update_self]
    obtain ⟨hok, hmoved⟩ := hrun w'.state b hb'
    rw [hok]
    refine ⟨⟨made ++ [_], by rw [hmade, List.append_assoc]⟩, b, hb, ?_⟩
    -- the temporary file was not there before, and is not there again
    rw [hmoved, hfiles, Function.update_comm p.distinct.symm, Function.update_idem, Function.update_comm p.distinct,
      Function.update_eq_self_iff.mpr]
    rw [Function.update_of_ne p.distinct, hfresh]
  · intro e _
    exact ⟨some b, hw.idle rfl _⟩

/-- `if (File.Exists(temporary)) File.Delete(temporary);` -/
theorem wp_delete {run : σ → Except ε Unit × σ} (hfresh : p.files w.state p.temporary = none) (hw : p.Untouched w w')
    (hrun : p.IsDelete run) :
    Eff.wp (Eff.provided ((p.files w'.state p.temporary).isSome = true) (call faults site run) ()) (p.Cleared site w)
      w' := by
  obtain ⟨left, ⟨made, hmade⟩, hfiles⟩ := hw
  have hgone : Function.update (p.files w.state) p.temporary none = p.files w.state :=
    Function.update_eq_self_iff.mpr hfresh.symm
  have hdeleted : p.files (run w'.state).2 = p.files w.state := by
    rw [(hrun w'.state).2, hfiles, Function.update_idem, hgone]
  refine Eff.wp_provided ?_ ?_
  · intro _
    refine wp_call ?_ ?_
    · exact ⟨made ++ [_], by rw [hmade, List.append_assoc], Or.inl hdeleted⟩
    · intro tookEffect e _
      refine ⟨made ++ [⟨site, true⟩], by rw [hmade, List.append_assoc], ?_⟩
      cases tookEffect
      · exact Or.inr ⟨rfl, by simp, left, hfiles⟩
      · exact Or.inl hdeleted
  · intro hnone
    rw [hfiles, Function.update_self, Option.not_isSome_iff_eq_none] at hnone
    refine ⟨made, hmade, Or.inl ?_⟩
    rw [hfiles, hnone, hgone]

end Calls

/-! ## The whole -/

/-- The body moves the temporary file over the target or stops before; the clean-up
    removes what a body that stopped has left, and does nothing after one that has not.
    `I` is what the body leaves for the clean-up to rely on. -/
theorem wp_replace {m f : Eff (World σ κ) ε Unit} {deletion : κ} {I : World σ κ → Prop} {v : World σ κ}
    (hm : m.wp (fun r w' => I w' ∧ p.Moved w new r w') v)
    (hstopped : ∀ w', I w' → p.Untouched w w' → f.wp (p.Cleared deletion w) w')
    (hmoved : ∀ w', I w' → p.files w'.state p.temporary = none →
      f.wp (fun r w'' => r = .ok () ∧ w''.calls = w'.calls ∧ p.files w''.state = p.files w'.state) w')
    (hfresh : p.files w.state p.temporary = none) : (tryFinally m f).wp (p.Replaced deletion w new) v := by
  rw [Eff.wp_finally]
  refine Eff.wp_mono hm ?_
  intro r w' ⟨hI, hr⟩
  rcases r with e | u
  · refine Eff.wp_mono (hstopped w' hI hr) ?_
    intro r' w'' ⟨made, hmade, hfiles⟩
    rcases r' with e' | u'
    · exact ⟨made, hmade, hfiles.imp_right And.right⟩
    · refine ⟨made, hmade, hfiles.imp_right ?_⟩
      intro ⟨hthrew, _⟩
      cases hthrew
  · obtain ⟨⟨made, hmade⟩, b, hb, hfiles⟩ := hr
    have hgone : p.files w'.state p.temporary = none := by
      rw [hfiles, Function.update_of_ne p.distinct, hfresh]
    refine Eff.wp_mono (hmoved w' hI hgone) ?_
    intro r' w'' ⟨hr', hcalls, hsame⟩
    rw [hr']
    exact ⟨made, hcalls.trans hmade, b, hb, hsame.trans hfiles⟩

/-- The target holds the new value. -/
theorem Replaced.target_new {deletion : κ} {u : Unit} (h : p.Replaced deletion w new (.ok u : Except ε Unit) w') :
    ∃ b, new b ∧ p.files w'.state p.target = some b := by
  obtain ⟨made, -, b, hb, hfiles⟩ := h
  exact ⟨b, hb, (congrFun hfiles p.target).trans (Function.update_self ..)⟩

/-- The target is as it was. -/
theorem Replaced.target_old {deletion : κ} {e : ε} (h : p.Replaced deletion w new (.error e) w') :
    p.files w'.state p.target = p.files w.state p.target := by
  obtain ⟨made, -, hsame | ⟨-, left, hleft⟩⟩ := h
  · exact congrFun hsame p.target
  · exact (congrFun hleft p.target).trans (Function.update_of_ne p.distinct.symm _ _)

end Replacing

end MythLab.Lib
