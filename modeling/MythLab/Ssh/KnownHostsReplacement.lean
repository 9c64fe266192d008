/-
  MythLab.Ssh.KnownHostsReplacement — what an update does to the known-hosts file.

  `stored` is the list that a reader makes of the file, whatever it holds. An update that
  returns has replaced the file by the changed list; one that throws has left it alone,
  and every other file, unless the deletion of its temporary file threw
  (`update_replaces`).
-/
import MythLab.Lib.Replacement
import MythLab.Ssh.KnownHostsStore

namespace MythLab.Ssh.KnownHostsStore

open Lib Dotnet KnownHosts

/-- The list in the file, or in none. -/
def stored (fw : Framework) (json : Json) : Option (List UInt8) → Except Exn (List KnownHost)
  | none => .ok []
  | some bytes => do
    throwIf (4 * 1024 * 1024 < bytes.length) (.invalidData "Known-hosts file is too large.")
    parse fw json bytes

theorem temporary_ne (name : Guid) : File.temporary name ≠ .knownHosts := by
  intro h
  cases h

/-- The two files of an update. -/
def replacing (name : Guid) : Replacing State File (List UInt8) := ⟨State.files, .knownHosts, .temporary name, temporary_ne name⟩

/-- What the clean-up of an update goes by: the permit is in hand, and the local `temporary`
    names the file if there can be one. -/
def Ready (name : Guid) (w : World State Site) : Prop :=
  w.state.gate.permits = 0 ∧
    (w.state.temporary = some name ∨ w.state.temporary = none ∧ w.state.files (.temporary name) = none)

section Specs

variable {fw : Framework} {json : Json} {faults : Nat → Fault Exn} {entries : List KnownHost} {name : Guid}
  {w w' : World State Site}

/-! ## Reading -/

theorem readStored_spec {bytes : List UInt8} (hfile : w.state.files .knownHosts = some bytes) :
    (readStored fw json faults).wp (Yields faults w.state (stored fw json (some bytes))) w := by
  have hlength : lengthOf .knownHosts w.state = (.ok bytes.length, w.state) := by simp [lengthOf, hfile]
  have hread : readAll .knownHosts w.state = (.ok bytes, w.state) := by simp [readAll, hfile]
  unfold readStored
  refine wp_bind_yields (wp_call_yields rfl hlength) nofun ?_
  intro length v hl hv
  cases hl
  refine wp_bind_yields (wp_lift_yields hv) ?_ ?_
  · intro e he
    show (throwIf _ _ >>= _) = _
    rw [he]
    rfl
  · intro _ v' hfits hv'
    refine wp_bind_yields (wp_call_yields hv' hread) nofun ?_
    intro bytes' v'' hbytes hv''
    cases hbytes
    have hparse : stored fw json (some bytes) = parse fw json bytes := by
      show (throwIf _ _ >>= _) = _
      rw [hfits]
      rfl
    rw [hparse]
    exact wp_lift_yields hv''

/-- A read returns what the file says and changes nothing, unless a call throws. -/
theorem read_yields : (read fw json faults).wp (Yields faults w.state (stored fw json (w.state.files .knownHosts))) w := by
  unfold read fileExists
  rw [Eff.wp_bind, Eff.wp_get_bind, Eff.wp_pure]
  refine Eff.wp_provided ?_ ?_
  · intro hstored
    obtain ⟨bytes, hfile⟩ := Option.isSome_iff_exists.mp hstored
    rw [hfile]
    exact readStored_spec hfile
  · intro hnone
    have hfile : w.state.files .knownHosts = none := Option.not_isSome_iff_eq_none.mp hnone
    rw [hfile]
    exact ⟨rfl, Or.inl rfl⟩

theorem lengthOf_spares : (replacing name).Spares (lengthOf .knownHosts) := by
  refine Replacing.spares_of_eq ?_
  intro s
  unfold lengthOf
  split <;> rfl

theorem readAll_spares : (replacing name).Spares (readAll .knownHosts) := by
  refine Replacing.spares_of_eq ?_
  intro s
  unfold readAll
  split <;> rfl

theorem read_untouched : Eff.Keeps ((replacing name).Untouched w) (read fw json faults) := by
  unfold read fileExists readStored
  refine .bind (.bind .get fun _ => .pure _) fun stored => .provided ?_
  refine .bind (Replacing.keeps_call lengthOf_spares) ?_
  intro length
  refine .bind (.lift _) ?_
  intro _
  exact .bind (Replacing.keeps_call readAll_spares) fun bytes => .lift _

/-! ## Replacing -/

theorem write_spares (bytes : List UInt8) : (replacing name).Spares (write (.temporary name) bytes) := fun _ => ⟨_, rfl⟩

theorem move_isMove : (replacing name).IsMove (move (.temporary name) .knownHosts) := by
  intro s b hb
  change s.files (.temporary name) = some b at hb
  unfold move
  rw [hb]
  exact ⟨rfl, rfl⟩

theorem delete_isDelete : (replacing name).IsDelete (delete (.temporary name)) := fun _ => ⟨rfl, rfl⟩

theorem replaceFile_moves (hfresh : w.state.files (.temporary name) = none) (hw : (replacing name).Untouched w w') :
    (replaceFile json faults name entries).wp ((replacing name).Moved w (· = json.serialize entries)) w' := by
  unfold replaceFile
  refine Replacing.wp_bind_of_keeps (Replacing.keeps_call (Replacing.spares_of_eq fun _ => rfl)) hw ?_
  intro _ v hv
  refine Replacing.wp_bind_of_keeps (.modify ?_) hv ?_
  · intro u ⟨left, hu⟩
    exact ⟨left, hu.congr (s := { u.state with temporary := some name }) rfl⟩
  · intro _ v' hv'
    refine Replacing.wp_bind_of_keeps (Replacing.keeps_call (write_spares [])) hv' ?_
    intro _ u hu
    refine Replacing.wp_bind_of_written (Replacing.wp_write hu (write_spares _) fun _ _ => rfl) ?_
    intro _ u' hu'
    refine Replacing.wp_bind_of_written (Replacing.wp_checkpoint hu') ?_
    intro _ u'' hu''
    exact Replacing.wp_move hfresh hu'' rfl move_isMove

theorem call_ready {α : Type} {site : Site} {run : Run α} (hgate : ∀ s, (run s).2.gate = s.gate)
    (htemporary : ∀ s, (run s).2.temporary = s.temporary) :
    Eff.Keeps (fun w => w.state.gate.permits = 0 ∧ w.state.temporary = some name) (call faults site run) :=
  keeps_call (fun w _ hw => ⟨by rw [hgate]; exact hw.1, (htemporary w.state).trans hw.2⟩) fun _ hw => hw

theorem statement_ready {α : Type} {site : Site} {run : Run α} (hgate : ∀ s, (run s).2.gate = s.gate)
    (htemporary : ∀ s, (run s).2.temporary = s.temporary) :
    Eff.Keeps (fun w => w.state.gate.permits = 0 ∧ w.state.temporary = some name) (statement faults site run) :=
  keeps_statement (fun w _ hw => ⟨by rw [hgate]; exact hw.1, (htemporary w.state).trans hw.2⟩) fun _ hw => hw

theorem move_temporary (source target : File) (s : State) : (move source target s).2.temporary = s.temporary := by
  unfold move
  split <;> rfl

/-- The local is set before the temporary file can be there. -/
theorem replaceFile_ready (hw : Ready name w) :
    (replaceFile json faults name entries).wp (fun _ w' => Ready name w') w := by
  unfold replaceFile modify
  rw [Eff.wp_bind]
  refine wp_call ?_ ?_
  · show Eff.wp (Eff.modify _ >>= _) _ _
    rw [Eff.wp_modify_bind]
    have hrest : Eff.Keeps (fun w : World State Site => w.state.gate.permits = 0 ∧ w.state.temporary = some name) (do
        call faults .createTemporary (write (.temporary name) [])
        call faults .writeTemporary (write (.temporary name) (json.serialize entries))
        checkpoint faults .cancellation
        statement faults .move (move (.temporary name) .knownHosts)) := by
      refine .bind (call_ready (fun _ => rfl) fun _ => rfl) ?_
      intro _
      refine .bind (call_ready (fun _ => rfl) fun _ => rfl) ?_
      intro _
      refine .bind (statement_ready (fun _ => rfl) fun _ => rfl) ?_
      intro _
      exact statement_ready (move_gate _ _) (move_temporary _ _)
    refine Eff.wp_mono (hrest _ ⟨hw.1, rfl⟩) ?_
    intro r v ⟨hpermits, htemporary⟩
    exact ⟨hpermits, Or.inl htemporary⟩
  · intro tookEffect e _
    cases tookEffect <;> exact hw

/-! ## The clean-up -/

theorem deleteTemporary_permits {n : Nat} :
    Eff.Keeps (fun w => w.state.gate.permits = n) (deleteTemporary faults) := by
  intro w hw
  unfold deleteTemporary
  rw [Eff.wp_get_bind]
  rcases w.state.temporary with _ | file
  · exact hw
  · exact Eff.Keeps.provided (keeps_call (fun _ _ h => h) fun _ h => h) w hw

theorem deleteTemporary_gone (hgone : w.state.temporary = some name ∨ w.state.temporary = none)
    (hnone : w.state.files (.temporary name) = none) : (deleteTemporary faults).wp (fun r v => r = .ok () ∧ v = w) w := by
  unfold deleteTemporary
  rw [Eff.wp_get_bind]
  rcases hgone with hgone | hgone
  · rw [hgone]
    refine Eff.wp_provided ?_ fun _ => ⟨rfl, rfl⟩
    intro hstored
    rw [hnone] at hstored
    cases hstored
  · rw [hgone]
    exact ⟨rfl, rfl⟩

/-- The deletion goes through and the release after it, or the deletion has thrown. -/
theorem cleanUp_stopped (hfresh : w.state.files (.temporary name) = none) (hready : Ready name w')
    (hw : (replacing name).Untouched w w') :
    Eff.wp (do
      deleteTemporary faults
      release) ((replacing name).Cleared .delete w) w' := by
  have hdelete : (deleteTemporary faults).wp ((replacing name).Cleared .delete w) w' := by
    obtain ⟨-, htemporary⟩ := hready
    rcases htemporary with htemporary | ⟨htemporary, hgone⟩
    · unfold deleteTemporary
      rw [Eff.wp_get_bind, htemporary]
      exact Replacing.wp_delete hfresh hw delete_isDelete
    · refine Eff.wp_mono (deleteTemporary_gone (Or.inr htemporary) hgone) ?_
      intro r v ⟨_, hv⟩
      subst hv
      obtain ⟨left, ⟨made, hmade⟩, hfiles⟩ := hw
      refine ⟨made, hmade, Or.inl ?_⟩
      have hleft : v.state.files (.temporary name) = left :=
        (congrFun hfiles (.temporary name)).trans (Function.update_self ..)
      rw [hfiles, ← hleft, hgone, Function.update_eq_self_iff.mpr hfresh.symm]
  rw [Eff.wp_bind]
  refine Eff.wp_mono (Eff.wp_and hdelete (deleteTemporary_permits w' hready.1)) ?_
  intro r v ⟨hcleared, hv⟩
  rcases r with e | u
  · exact hcleared
  · refine Eff.wp_mono (release_runs hv) ?_
    intro r' u ⟨hr, hu⟩
    subst hr hu
    exact hcleared

theorem cleanUp_moved (hready : Ready name w') (hgone : w'.state.files (.temporary name) = none) :
    Eff.wp (do
      deleteTemporary faults
      release) (fun r w'' => r = .ok () ∧ w''.calls = w'.calls ∧ w''.state.files = w'.state.files) w' := by
  rw [Eff.wp_bind]
  refine Eff.wp_mono (deleteTemporary_gone (hready.2.imp_right And.left) hgone) ?_
  intro r v ⟨hr, hv⟩
  subst hr hv
  refine Eff.wp_mono (release_runs hready.1) ?_
  intro r' u ⟨hr, hu⟩
  subst hr hu
  exact ⟨rfl, rfl, rfl⟩

/-! ## The whole update -/

/-- What an update is to write: the list in the file, changed. -/
def Revised (fw : Framework) (json : Json) (change : List KnownHost → Except Exn (List KnownHost))
    (contents : Option (List UInt8)) (bytes : List UInt8) : Prop :=
  ∃ entries updated, stored fw json contents = .ok entries ∧ change entries = .ok updated ∧
    bytes = json.serialize updated

/-- An update that returns has replaced the known-hosts file by the changed list, and one
    that throws has left it alone. -/
theorem update_replaces {change : List KnownHost → Except Exn (List KnownHost)}
    (hfresh : w.state.files (.temporary name) = none) (hpermits : w.state.gate.permits = 0) :
    (update fw json faults change name).wp
      ((replacing name).Replaced .delete w (Revised fw json change (w.state.files .knownHosts))) w := by
  unfold update modify
  rw [Eff.wp_modify_bind]
  have hbefore : (replacing name).Untouched w ⟨{ w.state with temporary := none }, w.calls⟩ := by
    have hrefl : (replacing name).Aside w none w := Replacing.Aside.refl hfresh
    exact ⟨none, hrefl.congr (s := { w.state with temporary := none }) rfl⟩
  refine Replacing.wp_replace (I := Ready name) ?_ ?_ ?_ hfresh
  · rw [Eff.wp_bind]
    refine Eff.wp_mono (Eff.wp_and read_yields (read_untouched _ hbefore)) ?_
    intro r v ⟨hyields, huntouched⟩
    have hready : Ready name v := by
      unfold Ready
      rw [hyields.1]
      exact ⟨hpermits, Or.inr ⟨rfl, hfresh⟩⟩
    rcases r with e | entries
    · exact ⟨hready, huntouched⟩
    · have hstored : stored fw json (w.state.files .knownHosts) = .ok entries := hyields.expected_ok
      refine Eff.wp_lift_step ?_ ?_
      · intro e _
        exact ⟨hready, huntouched⟩
      · intro updated hupdated
        refine Eff.wp_mono (Eff.wp_and (replaceFile_ready hready) (replaceFile_moves hfresh huntouched)) ?_
        intro r u ⟨hready', hmoved⟩
        refine ⟨hready', ?_⟩
        rcases r with e | _
        · exact hmoved
        · obtain ⟨hcalls, b, hb, hfiles⟩ := hmoved
          exact ⟨hcalls, b, ⟨entries, updated, hstored, hupdated, hb⟩, hfiles⟩
  · intro w' hready hw'
    exact cleanUp_stopped hfresh hready hw'
  · intro w' hready hgone
    exact cleanUp_moved hready hgone

end Specs

end MythLab.Ssh.KnownHostsStore
