/-
  MythLab.Connections.ArgumentLines — the arguments of a profile as the lines of a text
  box.

  A text shows arguments (`Written`) if they are its lines in order, with blank lines
  anywhere, each line ended by a line feed or by a carriage return and a line feed. A line
  break is found whichever of the two it is (`unixLines_line`), so the text is read one
  line at a time (`parse_line`).

  Proved (`arguments_round_trip`): the arguments of every valid profile are read back from
  every text that shows them, the one in the editor among them, and nothing blank is ever
  read.
-/
import MythLab.Connections.ExternalConnections
import MythLab.Dotnet.Splitting

namespace MythLab.Connections.ExternalConnections

open Lib Dotnet Devices

/-- `text.Replace("\r\n", "\n")` -/
def unixLines : Str → Str
  | c :: d :: s => if c = chr '\r' ∧ d = chr '\n' then chr '\n' :: unixLines s else c :: unixLines (d :: s)
  | s => s

def parseArgumentLines (text : Str) : List Str :=
  (split (chr '\n') (unixLines text)).filter fun line => !isNullOrWhiteSpace line

/-- The dialog shows the arguments of a profile of this kind. -/
def showsArguments (kind : ConnectionKind) : Bool := kind == .realVnc || kind == .moonlight || kind == .custom

/-- The text of the box when the dialog opens. -/
def argumentsText (p : ConnectionProfile) : Str := join [chr '\n'] p.arguments

/-- The arguments that the dialog saves. -/
def editedArguments (kind : ConnectionKind) (text : Str) : List Str :=
  if showsArguments kind ∧ text.length > 0 then parseArgumentLines text else []

/-! ## Texts -/

inductive LineEnd where
  | lf
  | crlf
  deriving DecidableEq, Repr

def LineEnd.text : LineEnd → Str
  | .lf => [chr '\n']
  | .crlf => [chr '\r', chr '\n']

def BlankLine (line : Str) : Prop := isNullOrWhiteSpace line = true ∧ chr '\n' ∉ line

/-- The text shows these arguments, one on a line. -/
inductive Written : List Str → Str → Prop
  | nothing {line : Str} : BlankLine line → Written [] line
  | last (argument : Str) : Written [argument] argument
  | blank {line : Str} (e : LineEnd) {arguments : List Str} {text : Str} : BlankLine line → Written arguments text →
      Written arguments (line ++ e.text ++ text)
  | argument (argument : Str) (e : LineEnd) {arguments : List Str} {text : Str} : Written arguments text →
      Written (argument :: arguments) (argument ++ e.text ++ text)

/-! ## Line breaks -/

variable {line rest text : Str}

/-- A line without the carriage return at its end. -/
def withoutReturn (line : Str) : Str := if line.getLast? = some (chr '\r') then line.dropLast else line

theorem unixLines_feed (s : Str) : unixLines (chr '\n' :: s) = chr '\n' :: unixLines s := by
  cases s with
  | nil => rfl
  | cons c s =>
    rw [unixLines, if_neg]
    exact fun h => absurd h.1 (by decide)

theorem unixLines_cons {c : Char16} (h : rest.head? ≠ some (chr '\n')) : unixLines (c :: rest) = c :: unixLines rest := by
  cases rest with
  | nil => rfl
  | cons d rest =>
    rw [unixLines, if_neg]
    exact fun hd => h (congrArg some hd.2)

theorem unixLines_last (h : chr '\n' ∉ line) : unixLines line = line := by
  induction line with
  | nil => rfl
  | cons c line ih =>
    rw [List.mem_cons, not_or] at h
    have hhead : line.head? ≠ some (chr '\n') := fun he => h.2 (List.mem_of_head? he)
    rw [unixLines_cons hhead, ih h.2]

/-- A line that ends with a line feed loses the carriage return before it. -/
theorem unixLines_line (h : chr '\n' ∉ line) :
    unixLines (line ++ chr '\n' :: rest) = withoutReturn line ++ chr '\n' :: unixLines rest := by
  induction line with
  | nil => exact unixLines_feed rest
  | cons c line ih =>
    rw [List.mem_cons, not_or] at h
    cases line with
    | nil =>
      -- the line break follows
      show unixLines (c :: chr '\n' :: rest) = _
      by_cases hc : c = chr '\r'
      · subst hc
        rfl
      · have hlast : withoutReturn [c] = [c] := if_neg fun he => hc (Option.some.inj he)
        rw [unixLines, if_neg fun he => hc he.1, unixLines_feed, hlast]
        rfl
    | cons d line =>
      have hd : d ≠ chr '\n' := fun he => h.2 (he ▸ List.mem_cons_self)
      have hhead : (d :: line ++ chr '\n' :: rest).head? ≠ some (chr '\n') := fun he => hd (Option.some.inj he)
      have hreturn : withoutReturn (c :: d :: line) = c :: withoutReturn (d :: line) := by
        unfold withoutReturn
        rw [List.getLast?_cons_cons]
        split
        · rfl
        · rfl
      rw [List.cons_append, unixLines_cons hhead, ih h.2, hreturn]
      rfl

theorem mem_of_mem_withoutReturn {c : Char16} (h : c ∈ withoutReturn line) : c ∈ line := by
  unfold withoutReturn at h
  split at h
  · exact List.dropLast_subset line h
  · exact h

theorem withoutReturn_of_not_mem (h : chr '\r' ∉ line) : withoutReturn line = line :=
  if_neg fun he => h (List.mem_of_getLast? he)

theorem withoutReturn_append (line : Str) : withoutReturn (line ++ [chr '\r']) = line := by
  unfold withoutReturn
  rw [if_pos List.getLast?_concat, List.dropLast_concat]

/-! ## Reading the lines -/

theorem parse_last (h : chr '\n' ∉ line) : parseArgumentLines line = [line].filter fun l => !isNullOrWhiteSpace l := by
  unfold parseArgumentLines
  rw [unixLines_last h, split_of_not_mem h]

theorem parse_feed (h : chr '\n' ∉ line) : parseArgumentLines (line ++ chr '\n' :: rest) =
    ([withoutReturn line].filter fun l => !isNullOrWhiteSpace l) ++ parseArgumentLines rest := by
  unfold parseArgumentLines
  have hline : chr '\n' ∉ withoutReturn line := fun hin => h (mem_of_mem_withoutReturn hin)
  rw [unixLines_line h, split_append_cons, split_of_not_mem hline, List.filter_append]

/-- The first line is read, whichever line end it has. -/
theorem parse_line (h : chr '\n' ∉ line) (e : LineEnd) : ∃ kept, (kept = line ∨ kept = withoutReturn line) ∧
    parseArgumentLines (line ++ e.text ++ rest) = ([kept].filter fun l => !isNullOrWhiteSpace l) ++ parseArgumentLines rest := by
  cases e with
  | lf =>
    refine ⟨_, Or.inr rfl, ?_⟩
    rw [← parse_feed h]
    simp [LineEnd.text]
  | crlf =>
    have hreturn : chr '\n' ∉ line ++ [chr '\r'] := by
      rw [List.mem_append, List.mem_singleton]
      exact fun hin => hin.elim h (by decide)
    refine ⟨line, Or.inl rfl, ?_⟩
    rw [← withoutReturn_append line, ← parse_feed hreturn]
    simp [LineEnd.text, withoutReturn_append]

theorem not_blank_of_mem_parse {a : Str} (h : a ∈ parseArgumentLines text) : isNullOrWhiteSpace a = false := by
  have hkept := (List.mem_filter.mp h).2
  rwa [Bool.not_eq_true'] at hkept

/-- An argument that can stand on a line. -/
structure OnALine (a : Str) : Prop where
  visible : isNullOrWhiteSpace a = false
  noFeed : chr '\n' ∉ a
  noReturn : chr '\r' ∉ a

theorem parse_written {arguments : List Str} (h : Written arguments text) (hargs : ∀ a ∈ arguments, OnALine a) :
    parseArgumentLines text = arguments := by
  induction h with
  | nothing hblank =>
    rw [parse_last hblank.2, List.filter_cons_of_neg (by simp [hblank.1])]
    rfl
  | last a =>
    have ha := hargs a List.mem_cons_self
    rw [parse_last ha.noFeed, List.filter_cons_of_pos (by simp [ha.visible])]
    rfl
  | blank e hblank _ ih =>
    obtain ⟨kept, hkept, hparse⟩ := parse_line hblank.2 e
    have hspace : isNullOrWhiteSpace kept = true := by
      rcases hkept with rfl | rfl
      · exact hblank.1
      · exact List.all_eq_true.mpr fun c hc => List.all_eq_true.mp hblank.1 c (mem_of_mem_withoutReturn hc)
    rw [hparse, List.filter_cons_of_neg (by simp [hspace]), ih hargs]
    rfl
  | argument a e _ ih =>
    rw [List.forall_mem_cons] at hargs
    obtain ⟨ha, hargs⟩ := hargs
    obtain ⟨kept, hkept, hparse⟩ := parse_line ha.noFeed e
    have hkept : kept = a := hkept.elim id fun he => he.trans (withoutReturn_of_not_mem ha.noReturn)
    rw [hparse, hkept, List.filter_cons_of_pos (by simp [ha.visible]), ih hargs]
    rfl

/-- The text in the editor shows the arguments. -/
theorem written_join (arguments : List Str) : Written arguments (join [chr '\n'] arguments) := by
  induction arguments with
  | nil => exact .nothing ⟨rfl, List.not_mem_nil⟩
  | cons a arguments ih =>
    cases arguments with
    | nil =>
      unfold join
      rw [List.intercalate_singleton]
      exact .last a
    | cons b arguments =>
      have hjoin : join [chr '\n'] (a :: b :: arguments) = a ++ LineEnd.lf.text ++ join [chr '\n'] (b :: arguments) := by
        unfold join
        rw [List.intercalate_cons_cons]
        simp [LineEnd.text]
      rw [hjoin]
      exact .argument a .lf ih

/-! ## Saved arguments -/

theorem onALine_of_validate {fw : Framework} {p : ConnectionProfile} (h : validate fw p = .ok ()) (hk : p.kind ≠ .ssh) :
    ∀ a ∈ p.arguments, OnALine a := by
  obtain ⟨-, h⟩ := throwIf_bind_ok_iff.mp h
  rw [if_neg hk] at h
  obtain ⟨-, h⟩ := throwIf_bind_ok_iff.mp h
  obtain ⟨hargs, -⟩ := throwIf_bind_ok_iff.mp h
  intro a ha
  have hgood := List.any_eq_false.mp ((Bool.not_eq_true _).mp fun hany => hargs (Or.inr hany)) a ha
  simp only [Bool.or_eq_true, decide_eq_true_eq, not_or, Bool.not_eq_true] at hgood
  obtain ⟨⟨hblank, -⟩, hcontrol⟩ := hgood
  have hvisible := List.any_eq_false.mp hcontrol
  exact ⟨hblank, fun hin => hvisible _ hin (by decide), fun hin => hvisible _ hin (by decide)⟩

/-- The arguments of every valid profile of a kind that takes arguments are read back from every text that
    shows them, whatever its line ends and blank lines, and are the ones the dialog saves; the text that the
    editor shows is one of these, also of no arguments; and no text gives an empty or blank argument. -/
theorem arguments_round_trip (fw : Framework) :
    (∀ p : ConnectionProfile, validate fw p = .ok () → showsArguments p.kind = true →
      ∀ text, Written p.arguments text → parseArgumentLines text = p.arguments ∧ editedArguments p.kind text = p.arguments) ∧
      (∀ p, Written p.arguments (argumentsText p)) ∧
        parseArgumentLines [] = [] ∧
          ∀ text, ∀ a ∈ parseArgumentLines text, a ≠ [] ∧ isNullOrWhiteSpace a = false := by
  refine ⟨?_, fun p => written_join p.arguments, rfl, ?_⟩
  · intro p hvalid hkind text hwritten
    have hssh : p.kind ≠ .ssh := fun he => by
      rw [he] at hkind
      cases hkind
    have hparse := parse_written hwritten (onALine_of_validate hvalid hssh)
    refine ⟨hparse, ?_⟩
    unfold editedArguments
    split
    · exact hparse
    · rename_i hnot
      -- nothing is shown
      have hempty : text = [] := by
        rw [not_and, Nat.not_lt, Nat.le_zero] at hnot
        exact List.eq_nil_of_length_eq_zero (hnot hkind)
      rw [← hparse, hempty]
      rfl
  · intro text a ha
    have hblank := not_blank_of_mem_parse ha
    refine ⟨?_, hblank⟩
    rintro rfl
    cases hblank

/-- A program with an argument that begins and ends with blanks. -/
def paddedProfile : ConnectionProfile :=
  { id := 1, deviceId := 2, displayName := str "Player", kind := .custom, executablePath := str "./Tools/player.exe",
    arguments := [str "--host", str "  literal value  "] }

/-- Both kinds of line end, and blank lines around the arguments. -/
theorem padded_arguments_kept :
    parseArgumentLines (str "\n--host\r\n\r\n  literal value  \n \r\n") = paddedProfile.arguments := by
  have hfeed : BlankLine [] := ⟨rfl, List.not_mem_nil⟩
  have hspace : BlankLine (str " ") := ⟨rfl, by decide⟩
  have hwritten := Written.blank .lf hfeed (.argument (str "--host") .crlf (.blank .crlf hfeed
    (.argument (str "  literal value  ") .lf (.blank .crlf hspace (.nothing hfeed)))))
  exact ((arguments_round_trip .ascii).1 paddedProfile (by decide +kernel) rfl _ hwritten).1

end MythLab.Connections.ExternalConnections
