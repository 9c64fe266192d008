/-
  MythLab.Connections.TemplateGrammar — what a template is.

  The grammar (`Reads`): a template is a sequence of characters that are neither control
  characters nor braces, and of placeholders. A template of that form is read back as that
  sequence (`pieces_of_reads`), so there is only one; the check accepts exactly the
  templates that have one (`validateTemplate_iff`), and expanding such a template fills in
  the pieces it was written with (`expand_eq`).
-/
import MythLab.Connections.Templates

namespace MythLab.Connections.ExternalConnections

open Lib Dotnet Devices

/-! ## The grammar -/

def isBrace (c : Char16) : Bool := c == chr '\x7b' || c == chr '\x7d'

/-- A character a template may keep, or a placeholder. -/
def Piece.ok : Piece → Bool
  | .literal c => !isControl c && !isBrace c
  | .hole _ => true

/-- The template is the text of these pieces. -/
structure Reads (template : Str) (ps : List Piece) : Prop where
  ok : ∀ p ∈ ps, p.ok = true
  text : ps.flatMap Piece.text = template

variable {ps : List Piece} {template : Str}

theorem Placeholder.text_head (q : Placeholder) : q.text.head? = some (chr '\x7b') := by
  cases q <;> rfl

theorem placeholderAt_literal {c : Char16} (h : isBrace c = false) (s : Str) : placeholderAt (c :: s) = none := by
  rcases hq : placeholderAt (c :: s) with _ | q
  · rfl
  · obtain ⟨rest, hrest⟩ := placeholderAt_starts hq
    have hhead : (q.text ++ rest).head? = some (chr '\x7b') := by rw [List.head?_append, q.text_head, Option.some_or]
    rw [hrest, List.head?_cons, Option.some.injEq] at hhead
    rw [hhead] at h
    cases h

/-- No placeholder begins with another one. -/
theorem placeholderAt_text (q : Placeholder) (s : Str) : placeholderAt (q.text ++ s) = some q := by
  cases q <;> rfl

theorem piecesFrom_skip (t s : Str) : piecesFrom t.length (t ++ s) = pieces s := by
  induction t with
  | nil => rfl
  | cons c t ih => exact ih

theorem pieces_append (hps : ∀ p ∈ ps, p.ok = true) (s : Str) : pieces (ps.flatMap Piece.text ++ s) = ps ++ pieces s := by
  induction ps with
  | nil => rfl
  | cons p ps ih =>
    rw [List.forall_mem_cons] at hps
    rw [List.flatMap_cons, List.append_assoc, List.cons_append, ← ih hps.2]
    cases p with
    | literal c =>
      have hbrace : isBrace c = false := by
        have hok := hps.1
        simp only [Piece.ok, Bool.and_eq_true, Bool.not_eq_true'] at hok
        exact hok.2
      show piecesFrom 0 (c :: (ps.flatMap Piece.text ++ s)) = _
      rw [piecesFrom, placeholderAt_literal hbrace]
      rfl
    | hole q =>
      obtain ⟨c, t, htext⟩ := List.exists_cons_of_length_pos q.text_length
      have hat := placeholderAt_text q (ps.flatMap Piece.text ++ s)
      show piecesFrom 0 (q.text ++ (ps.flatMap Piece.text ++ s)) = _
      rw [htext, List.cons_append] at hat ⊢
      rw [piecesFrom, hat]
      -- the rest of the placeholder is skipped
      show Piece.hole q :: piecesFrom (q.text.length - 1) (t ++ (ps.flatMap Piece.text ++ s)) = _
      rw [htext, List.length_cons, Nat.add_sub_cancel, piecesFrom_skip]

/-- A template is read as the pieces it was written with. -/
theorem pieces_of_reads (h : Reads template ps) : pieces template = ps := by
  have happend := pieces_append h.ok []
  rwa [h.text, List.append_nil, show pieces [] = [] from rfl, List.append_nil] at happend

/-! ## The check -/

theorem fillAll_blank (ps : List Piece) :
    fillAll (fun _ => pure []) ps = .ok (ps.flatMap (Piece.fill fun _ => [])) := by
  have hvalue : ∀ (q : Placeholder) (v : Str), (pure [] : Except Exn Str) = .ok v → v = (fun _ : Placeholder => []) q :=
    fun _ _ h => (Except.ok.inj h).symm
  rcases fillAll_cases hvalue ps with ⟨_, _, _, he, _⟩ | ⟨-, h⟩
  · cases he
  · exact h

theorem Placeholder.text_visible (q : Placeholder) : q.text.any isControl = false := by
  cases q <;> rfl

/-- A template is accepted exactly when each of its pieces may be in one. -/
theorem validateTemplate_pieces (template : Str) :
    validateTemplate template = .ok () ↔ ∀ p ∈ pieces template, p.ok = true := by
  have hremaining : replacePlaceholders (fun _ => pure []) template =
      .ok ((pieces template).flatMap (Piece.fill fun _ => [])) := (replaceFrom_eq _ 0 template).trans (fillAll_blank _)
  unfold validateTemplate
  rw [hremaining, ok_bind, throwIf_ok_iff, not_or, Bool.not_eq_true, Bool.not_eq_true]
  have hcontrol : template.any isControl = (pieces template).any fun p => p.text.any isControl := by
    conv_lhs => rw [← pieces_text template]
    rw [List.any_flatMap]
  rw [hcontrol, List.any_flatMap, List.any_eq_false, List.any_eq_false, ← forall₂_and]
  refine forall₂_congr ?_
  intro p _
  cases p with
  | literal c => simp [Piece.text, Piece.fill, Piece.ok, isBrace, chr, ← UInt16.toNat_inj]
  | hole q => simp [Piece.text, Piece.fill, Piece.ok, q.text_visible]

/-- The check accepts the templates of the grammar. -/
theorem validateTemplate_iff (template : Str) : validateTemplate template = .ok () ↔ ∃ ps, Reads template ps := by
  rw [validateTemplate_pieces]
  constructor
  · exact fun hok => ⟨pieces template, hok, pieces_text template⟩
  · rintro ⟨ps, h⟩
    rw [pieces_of_reads h]
    exact h.ok

theorem expand_eq {device : Device} {port : Option Int} (h : Reads template ps) :
    expand template device port = fillAll (placeholderValue device port) ps := by
  unfold expand
  rw [(validateTemplate_iff template).mpr ⟨ps, h⟩, ok_bind]
  refine (replaceFrom_eq _ 0 template).trans ?_
  rw [← pieces_of_reads h]
  rfl

/-- The check accepts exactly the templates of the grammar; a template has one reading; and `Expand`
    throws for a placeholder of it that has no value, or else returns its characters with every
    placeholder replaced by its value. -/
theorem template_has_one_reading (template : Str) :
    (validateTemplate template = .ok () ↔ ∃ ps, Reads template ps) ∧
      (∀ ps qs, Reads template ps → Reads template qs → ps = qs) ∧
      ∀ ps (device : Device) (port : Option Int), Reads template ps →
        (∃ q e, .hole q ∈ ps ∧ placeholderValue device port q = .error e ∧ expand template device port = .error e) ∨
          (∀ q, .hole q ∈ ps → ∃ v, placeholderValue device port q = .ok v) ∧
            expand template device port = .ok (ps.flatMap (Piece.fill (valueOf device port))) := by
  refine ⟨validateTemplate_iff template, ?_, ?_⟩
  · intro ps qs hps hqs
    rw [← pieces_of_reads hps, ← pieces_of_reads hqs]
  · intro ps device port h
    rw [expand_eq h]
    exact fillAll_cases (fun _ _ => valueOf_of_ok) ps

/-- Braces around a placeholder make no other one. -/
example : validateTemplate (str "\x7bhost\x7bip\x7dname\x7d") ≠ .ok () := by decide

def hostAndPort : List Piece := [.hole .host, .literal (chr ':'), .hole .port]

theorem host_and_port_filled : expand (str "\x7bhost\x7d:\x7bport\x7d") { id := 1, hostname := str "nas" } (some 5900) =
    .ok (str "nas:5900") := by
  have hreads : Reads (str "\x7bhost\x7d:\x7bport\x7d") hostAndPort := ⟨by decide, rfl⟩
  have hhost : placeholderValue { id := 1, hostname := str "nas" } (some 5900) .host = .ok (str "nas") := by decide
  have hport : placeholderValue { id := 1, hostname := str "nas" } (some 5900) .port = .ok (str "5900") := by decide
  rcases (template_has_one_reading _).2.2 hostAndPort { id := 1, hostname := str "nas" } (some 5900) hreads with
    ⟨q, e, hq, he, -⟩ | ⟨-, h⟩
  · simp only [hostAndPort, List.mem_cons, List.not_mem_nil, or_false, reduceCtorEq, false_or] at hq
    rcases hq with hq | hq
    · cases hq
      rw [hhost] at he
      cases he
    · cases hq
      rw [hport] at he
      cases he
  · exact h

end MythLab.Connections.ExternalConnections
