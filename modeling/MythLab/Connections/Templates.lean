/-
  MythLab.Connections.Templates — a template as the characters it keeps and the
  placeholders it leaves open, and the values that fill them.

  Proved: the pieces of a template are the template (`pieces_text`); a replacement goes
  through them once, in order (`replaceFrom_eq`), and throws for a placeholder without a
  value or puts the value of each in its place (`fillAll_cases`); the identity of a device
  and a port in range are written in letters, digits, dots and hyphens
  (`networkIdentity_plain`, `valueOf_plain`).
-/
import MythLab.Connections.ExternalConnections

namespace MythLab.Connections.ExternalConnections

open Lib Dotnet Devices

/-! ## Pieces -/

inductive Piece where
  | literal (c : Char16)
  | hole (q : Placeholder)
  deriving DecidableEq, Repr

def Piece.text : Piece → Str
  | .literal c => [c]
  | .hole q => q.text

/-- The pieces of a template, the first `skip` characters being part of a placeholder
    already read. -/
def piecesFrom : Nat → Str → List Piece
  | _, [] => []
  | skip + 1, _ :: s => piecesFrom skip s
  | 0, c :: s =>
    match placeholderAt (c :: s) with
    | some q => .hole q :: piecesFrom (q.text.length - 1) s
    | none => .literal c :: piecesFrom 0 s

def pieces (template : Str) : List Piece := piecesFrom 0 template

def Piece.fill (value : Placeholder → Str) : Piece → Str
  | .literal c => [c]
  | .hole q => value q

/-- The template with every placeholder replaced by its value. -/
def substitute (value : Placeholder → Str) (template : Str) : Str := (pieces template).flatMap (Piece.fill value)

theorem placeholderAt_starts {s : Str} {q : Placeholder} (h : placeholderAt s = some q) : q.text <+: s := by
  have h := List.find?_some h
  exact List.isPrefixOf_iff_prefix.mp h

theorem Placeholder.text_length (q : Placeholder) : 1 ≤ q.text.length := by
  cases q <;> decide

theorem piecesFrom_text (s : Str) (skip : Nat) : (piecesFrom skip s).flatMap Piece.text = s.drop skip := by
  induction s generalizing skip with
  | nil => simp [piecesFrom]
  | cons c s ih =>
    cases skip with
    | succ skip => exact ih skip
    | zero =>
      unfold piecesFrom
      cases h : placeholderAt (c :: s) with
      | none => rw [List.flatMap_cons, ih]; rfl
      | some q =>
        obtain ⟨rest, hrest⟩ := placeholderAt_starts h
        rw [List.flatMap_cons, ih]
        show q.text ++ _ = c :: s
        rw [← hrest, List.append_cancel_left_eq]
        -- the placeholder's first character is `c`, the others are skipped
        have hdrop := congrArg (List.drop q.text.length) hrest
        rw [List.drop_left] at hdrop
        obtain ⟨n, hn⟩ := Nat.exists_eq_add_of_le q.text_length
        rw [hn, Nat.add_comm, List.drop_succ_cons] at hdrop
        rw [hdrop, hn, Nat.add_sub_cancel_left]

/-- A template is the text of its pieces. -/
theorem pieces_text (template : Str) : (pieces template).flatMap Piece.text = template := piecesFrom_text template 0

/-! ## Filling in -/

def Piece.filled (f : Placeholder → Except Exn Str) : Piece → Except Exn Str
  | .literal c => pure [c]
  | .hole q => f q

/-- The pieces filled in, one after the other. -/
def fillAll (f : Placeholder → Except Exn Str) : List Piece → Except Exn Str
  | [] => pure []
  | p :: ps => do
    let value ← p.filled f
    let rest ← fillAll f ps
    pure (value ++ rest)

theorem replaceFrom_eq (f : Placeholder → Except Exn Str) (skip : Nat) (s : Str) :
    replaceFrom f skip s = fillAll f (piecesFrom skip s) := by
  induction s generalizing skip with
  | nil => cases skip <;> rfl
  | cons c s ih =>
    cases skip with
    | succ skip => exact ih skip
    | zero =>
      rw [replaceFrom, piecesFrom]
      cases placeholderAt (c :: s) with
      | none =>
        show (replaceFrom f 0 s >>= fun rest => pure (c :: rest)) = _
        rw [ih]
        rfl
      | some q =>
        show (f q >>= fun value => replaceFrom f (q.text.length - 1) s >>= fun rest => pure (value ++ rest)) = _
        rw [ih]
        rfl

/-- Filling in throws for a placeholder that has no value, or puts the value of each in its place. -/
theorem fillAll_cases {f : Placeholder → Except Exn Str} {value : Placeholder → Str}
    (hvalue : ∀ q v, f q = .ok v → v = value q) (ps : List Piece) :
    (∃ q e, .hole q ∈ ps ∧ f q = .error e ∧ fillAll f ps = .error e) ∨
      (∀ q, .hole q ∈ ps → ∃ v, f q = .ok v) ∧ fillAll f ps = .ok (ps.flatMap (Piece.fill value)) := by
  induction ps with
  | nil => exact Or.inr ⟨fun q hq => (by cases hq), rfl⟩
  | cons p ps ih =>
    have hlater {q e} : .hole q ∈ ps → f q = .error e → fillAll f ps = .error e → ∀ v, p.filled f = .ok v →
        ∃ q e, .hole q ∈ p :: ps ∧ f q = .error e ∧ fillAll f (p :: ps) = .error e := by
      intro hq he hrest v hv
      refine ⟨q, e, List.mem_cons_of_mem p hq, he, ?_⟩
      rw [fillAll, hv, hrest]
      rfl
    cases p with
    | literal c =>
      rcases ih with ⟨q, e, hq, he, hrest⟩ | ⟨hall, hrest⟩
      · exact Or.inl (hlater hq he hrest [c] rfl)
      · refine Or.inr ⟨?_, ?_⟩
        · intro q hq
          exact hall q ((List.mem_cons.mp hq).resolve_left fun h => (by cases h))
        · rw [fillAll, hrest]
          rfl
    | hole p =>
      rcases hp : f p with e | v
      · refine Or.inl ⟨p, e, List.mem_cons_self, hp, ?_⟩
        rw [fillAll, Piece.filled, hp]
        rfl
      · rcases ih with ⟨q, e, hq, he, hrest⟩ | ⟨hall, hrest⟩
        · exact Or.inl (hlater hq he hrest v hp)
        · refine Or.inr ⟨?_, ?_⟩
          · intro q hq
            rcases List.mem_cons.mp hq with hq | hq
            · cases hq
              exact ⟨v, hp⟩
            · exact hall q hq
          · rw [fillAll, Piece.filled, hp, hrest, List.flatMap_cons]
            show Except.ok (v ++ _) = _
            rw [hvalue p v hp]
            rfl

theorem replacePlaceholders_ok {f : Placeholder → Except Exn Str} {value : Placeholder → Str}
    (hvalue : ∀ q v, f q = .ok v → v = value q) {template r : Str} (h : replacePlaceholders f template = .ok r) :
    r = substitute value template := by
  have hfilled : fillAll f (pieces template) = .ok r := (replaceFrom_eq f 0 template).symm.trans h
  rcases fillAll_cases hvalue (pieces template) with ⟨_, _, _, _, herror⟩ | ⟨-, hok⟩
  · rw [hfilled] at herror
    cases herror
  · rw [hfilled] at hok
    exact Except.ok.inj hok

/-! ## Values -/

/-- A letter, a digit, a dot or a hyphen. -/
def isPlain (c : Char16) : Bool := isAsciiLetterOrDigit c || c == chr '.' || c == chr '-'

theorem isPlain_of_digit {c : Char16} (h : isAsciiDigit c = true) : isPlain c = true := by
  simp [isPlain, isAsciiLetterOrDigit, h]

theorem badOctet_digits {part : Str} (h : DeviceRules.badOctet part = false) : ∀ c ∈ part, isAsciiDigit c = true := by
  simp only [DeviceRules.badOctet, Bool.or_eq_false_iff, Bool.not_eq_false', List.all_eq_true] at h
  exact h.1.2

theorem badLabel_plain {label : Str} (h : badLabel label = false) : ∀ c ∈ label, isPlain c = true := by
  intro c hc
  simp only [badLabel, Bool.or_eq_false_iff, List.any_eq_false] at h
  have hc := h.2 c hc
  simp only [Bool.and_eq_true, Bool.not_eq_true', bne_iff_ne, ne_eq, not_and, not_not] at hc
  by_cases hl : isAsciiLetterOrDigit c = true
  · simp [isPlain, hl]
  · rw [hc ((Bool.not_eq_true _).mp hl)]
    decide

/-- The identity of a device has no character that an option, a shell or an address
    could read as syntax. -/
theorem networkIdentity_plain {value host : Str} {ipOnly : Bool} (h : networkIdentity value ipOnly = .ok host) :
    ∀ c ∈ host, isPlain c = true := by
  obtain ⟨required, -, h⟩ := bind_ok_iff.mp h
  have hparts : host = required ∧ ∀ part ∈ split (chr '.') required, ∀ c ∈ part, isPlain c = true := by
    dsimp only at h
    split at h
    · split at h
      · cases h
      · rename_i hok
        cases h
        refine ⟨rfl, fun part hp c hc => isPlain_of_digit (badOctet_digits ?_ c hc)⟩
        exact (Bool.not_eq_true _).mp fun hbad => hok (Or.inr (List.any_eq_true.mpr ⟨part, hp, hbad⟩))
    · split at h
      · cases h
      · rename_i hok
        cases h
        refine ⟨rfl, fun part hp => badLabel_plain ?_⟩
        exact (Bool.not_eq_true _).mp fun hbad => hok (Or.inr (List.any_eq_true.mpr ⟨part, hp, hbad⟩))
  obtain ⟨rfl, hparts⟩ := hparts
  intro c hc
  rcases @mem_split (chr '.') _ _ hc with rfl | ⟨part, hp, hc⟩
  · decide
  · exact hparts part hp c hc

/-- The value of a placeholder; blank where the device or the profile has none. -/
def valueOf (device : Device) (port : Option Int) (q : Placeholder) : Str :=
  match placeholderValue device port q with
  | .ok v => v
  | .error _ => []

theorem valueOf_of_ok {device : Device} {port : Option Int} {q : Placeholder} {v : Str}
    (h : placeholderValue device port q = .ok v) : v = valueOf device port q := by
  unfold valueOf
  rw [h]

theorem expand_ok {template r : Str} {device : Device} {port : Option Int} (h : expand template device port = .ok r) :
    r = substitute (valueOf device port) template := by
  obtain ⟨-, -, h⟩ := bind_ok_iff.mp h
  exact replacePlaceholders_ok (fun _ _ => valueOf_of_ok) h

theorem placeholderValue_plain {device : Device} {port : Option Int} (hport : ∀ n ∈ port, 0 ≤ n) {q : Placeholder}
    {v : Str} (h : placeholderValue device port q = .ok v) : ∀ c ∈ v, isPlain c = true := by
  cases q with
  | ip => exact networkIdentity_plain h
  | host => exact networkIdentity_plain h
  | hostname => exact networkIdentity_plain h
  | port =>
    cases port with
    | none => cases h
    | some n =>
      cases h
      exact fun c hc => isPlain_of_digit (isAsciiDigit_of_mem_toString (hport n rfl) c hc)

theorem valueOf_plain {device : Device} {port : Option Int} (hport : ∀ n ∈ port, 0 ≤ n) (q : Placeholder) :
    ∀ c ∈ valueOf device port q, isPlain c = true := by
  unfold valueOf
  cases h : placeholderValue device port q with
  | error e => exact fun c hc => nomatch hc
  | ok v => exact placeholderValue_plain hport h

end MythLab.Connections.ExternalConnections
