/-
  MythLab.Lib.FileTree — a file system as a tree of directories and files, and programs
  that create directories in it.

  A path is the list of its names from the root down. In a tree everything stands in a
  directory (`IsTree`), so below what is not a directory there is nothing
  (`IsTree.absent`). Creating a directory creates its missing ancestors first, one call
  each: wherever it stops, it has added directories on the way and changed nothing else,
  and the directory itself is there exactly when it was or the call returned
  (`wp_createDirectory`).
-/
import Mathlib.Logic.Function.Basic
import Mathlib.Data.List.Infix
import MythLab.Lib.Effect

namespace MythLab.Lib

inductive Entry (β : Type) where
  | directory
  | file (contents : β)
  deriving DecidableEq, Repr

/-- What is at each path. -/
abbrev FileTree (ν β : Type) := List ν → Option (Entry β)

namespace FileTree

variable {ν β : Type} {t u v : FileTree ν β} {p q : List ν}

def isDirectory (t : FileTree ν β) (p : List ν) : Bool :=
  match t p with
  | some .directory => true
  | _ => false

def contents (t : FileTree ν β) (p : List ν) : Option β :=
  match t p with
  | some (.file bytes) => some bytes
  | _ => none

def isFile (t : FileTree ν β) (p : List ν) : Bool := (t.contents p).isSome

theorem isDirectory_iff : t.isDirectory p = true ↔ t p = some .directory := by
  unfold isDirectory
  split
  · exact ⟨fun _ => ‹_›, fun _ => rfl⟩
  · rename_i h
    exact ⟨fun hf => (by cases hf), fun hd => absurd hd h⟩

theorem contents_eq_some {bytes : β} : t.contents p = some bytes ↔ t p = some (.file bytes) := by
  unfold contents
  split
  · rename_i found hp
    rw [hp, Option.some.injEq, Option.some.injEq, Entry.file.injEq]
  · rename_i h
    exact ⟨fun hf => (by cases hf), fun hf => absurd hf (h bytes)⟩

theorem isFile_iff : t.isFile p = true ↔ ∃ bytes, t p = some (.file bytes) := by
  unfold isFile
  rw [Option.isSome_iff_exists]
  exact exists_congr fun _ => contents_eq_some

/-! ## Trees -/

/-- Everything stands in a directory. -/
def IsTree (t : FileTree ν β) : Prop := ∀ p n, t (p ++ [n]) ≠ none → t p = some .directory

/-- What something stands below is a directory. -/
theorem IsTree.directory (h : IsTree t) {rest : List ν} (hrest : rest ≠ []) (hp : t (p ++ rest) ≠ none) :
    t p = some .directory := by
  induction rest using List.reverseRecOn with
  | nil => exact absurd rfl hrest
  | append_singleton rest n ih =>
    rw [← List.append_assoc] at hp
    have hparent := h _ n hp
    by_cases hnil : rest = []
    · rwa [hnil, List.append_nil] at hparent
    · exact ih hnil (by rw [hparent]; exact Option.some_ne_none _)

/-- Below what is not a directory there is nothing. -/
theorem IsTree.absent (h : IsTree t) (hp : t p ≠ some .directory) (hpq : p <+: q) (hne : q ≠ p) : t q = none := by
  obtain ⟨rest, rfl⟩ := hpq
  by_contra hq
  have hrest : rest ≠ [] := by
    rintro rfl
    exact hne (List.append_nil p)
  exact hp (h.directory hrest hq)

/-- Where there is nothing, there is nothing below. -/
theorem IsTree.absent_below (h : IsTree t) (hp : t p = none) (hpq : p <+: q) : t q = none := by
  by_cases hne : q = p
  · rwa [hne]
  · exact h.absent (by rw [hp]; exact Option.some_ne_none _ ∘ Eq.symm) hpq hne

/-! ## New directories -/

/-- Everything of `t` is in `u` too, which has new directories, all where `new` holds. -/
def Grows (new : List ν → Prop) (t u : FileTree ν β) : Prop :=
  ∀ q, u q = t q ∨ (t q = none ∧ new q ∧ u q = some .directory)

theorem Grows.refl (new : List ν → Prop) (t : FileTree ν β) : Grows new t t := fun _ => Or.inl rfl

theorem Grows.trans {new : List ν → Prop} (h : Grows new t u) (h' : Grows new u v) : Grows new t v := by
  intro q
  rcases h' q with hv | ⟨hu, hn, hv⟩
  · rcases h q with hu | ⟨ht, hn, hu⟩
    · exact Or.inl (hv.trans hu)
    · exact Or.inr ⟨ht, hn, hv.trans hu⟩
  · rcases h q with hu' | ⟨-, -, hu'⟩
    · exact Or.inr ⟨hu'.symm.trans hu, hn, hv⟩
    · rw [hu'] at hu
      cases hu

theorem Grows.mono {new new' : List ν → Prop} (h : Grows new t u) (hnew : ∀ q, new q → new' q) : Grows new' t u :=
  fun q => (h q).imp_right fun ⟨ht, hn, hu⟩ => ⟨ht, hnew q hn, hu⟩

theorem Grows.of_not {new : List ν → Prop} (h : Grows new t u) (hq : ¬ new q) : u q = t q :=
  (h q).resolve_right fun hn => hq hn.2.1

theorem Grows.kept {new : List ν → Prop} (h : Grows new t u) (hq : t q ≠ none) : u q = t q :=
  (h q).resolve_right fun hn => hq hn.1

/-! ## Changes -/

section Changes

variable [DecidableEq ν]

def put (t : FileTree ν β) (p : List ν) (e : Entry β) : FileTree ν β := fun q => if q = p then some e else t q

/-- Without what is below `p`, except what stays. -/
def removeBelow (t : FileTree ν β) (p : List ν) (stays : List ν → Bool) : FileTree ν β :=
  fun q => if p <+: q ∧ q ≠ p ∧ stays q = false then none else t q

/-- Without `p` and what is below it. -/
def remove (t : FileTree ν β) (p : List ν) : FileTree ν β := fun q => if p <+: q then none else t q

/-- What was at `source` and below is at `target` and below. -/
def rename (t : FileTree ν β) (source target : List ν) : FileTree ν β := fun q =>
  if target <+: q then t (source ++ q.drop target.length) else if source <+: q then none else t q

theorem put_self (e : Entry β) : t.put p e p = some e := if_pos rfl

theorem put_of_ne (e : Entry β) (h : q ≠ p) : t.put p e q = t q := if_neg h

theorem rename_append (source target rest : List ν) : t.rename source target (target ++ rest) = t (source ++ rest) := by
  unfold rename
  rw [if_pos (List.prefix_append _ _), List.drop_left]

theorem rename_other {source target : List ν} (h : ¬ target <+: q) (hs : ¬ source <+: q) :
    t.rename source target q = t q := by
  unfold rename
  rw [if_neg h, if_neg hs]

theorem rename_gone {source target : List ν} (h : ¬ target <+: q) (hs : source <+: q) :
    t.rename source target q = none := by
  unfold rename
  rw [if_neg h, if_pos hs]

theorem grows_put (hp : t p = none) : Grows (· = p) t (t.put p .directory) := by
  intro q
  by_cases hq : q = p
  · subst hq
    exact Or.inr ⟨hp, rfl, put_self _⟩
  · exact Or.inl (put_of_ne _ hq)

end Changes

/-! ## Creating directories -/

section Create

variable {κ ε : Type} {faults : Nat → Fault ε} {site : κ} {w w' w'' : World (FileTree ν β) κ} {new : List ν → Prop}

/-- From `w` to `w'`, directories where `new` holds were made, by calls at `site`. -/
structure Made (site : κ) (new : List ν → Prop) (w w' : World (FileTree ν β) κ) : Prop where
  entries : Grows new w.state w'.state
  calls : ∃ made, w'.calls = w.calls ++ made ∧ ∀ c ∈ made, c.site = site

theorem Made.refl (w : World (FileTree ν β) κ) : Made site new w w := ⟨.refl _ _, [], by simp⟩

theorem Made.trans (h : Made site new w w') (h' : Made site new w' w'') : Made site new w w'' := by
  obtain ⟨made, hcalls, hsites⟩ := h.calls
  obtain ⟨more, hcalls', hsites'⟩ := h'.calls
  refine ⟨h.entries.trans h'.entries, made ++ more, by rw [hcalls', hcalls, List.append_assoc], ?_⟩
  intro c hc
  exact (List.mem_append.mp hc).elim (hsites c) (hsites' c)

theorem Made.mono {new' : List ν → Prop} (h : Made site new w w') (hnew : ∀ q, new q → new' q) : Made site new' w w' :=
  ⟨h.entries.mono hnew, h.calls⟩

/-- The directories above a path, from the root down. -/
def ancestors (p : List ν) : List (List ν) := (List.range p.length).map fun n => p.take n

theorem mem_ancestors (h : q ∈ ancestors p) : q <+: p ∧ q ≠ p := by
  obtain ⟨n, hn, rfl⟩ := List.mem_map.mp h
  refine ⟨List.take_prefix n p, ?_⟩
  intro he
  have hlength := congrArg List.length he
  rw [List.length_take] at hlength
  have hn := List.mem_range.mp hn
  omega

variable [DecidableEq ν] (faults) (site) (isAFile : ε)

/-- One directory, unless it is there; where a file is in its place, the call throws. -/
def makeDirectory (p : List ν) : Eff (World (FileTree ν β) κ) ε Unit := do
  let w ← Eff.get
  match w.state p with
  | some .directory => pure ()
  | some (.file _) => Eff.lift (.error isAFile)
  | none => statement faults site fun t => (.ok (), t.put p .directory)

def createDirectory (p : List ν) : Eff (World (FileTree ν β) κ) ε Unit := do
  (ancestors p).forM (makeDirectory faults site isAFile)
  makeDirectory faults site isAFile p

variable {faults} {site} {isAFile}

theorem wp_makeDirectory (p : List ν) : (makeDirectory faults site isAFile p).wp (fun r w' =>
    Made site (· = p) w w' ∧ (∀ u, r = .ok u → w'.state p = some .directory) ∧
      ∀ e, r = .error e → w'.state p = w.state p) w := by
  unfold makeDirectory
  rw [Eff.wp_get_bind]
  split
  · rename_i hp
    exact ⟨.refl w, fun _ _ => hp, fun _ _ => rfl⟩
  · exact ⟨.refl w, fun _ h => (by cases h), fun _ _ => rfl⟩
  · rename_i hp
    have one (threw : Bool) : ∃ made, w.calls ++ [⟨site, threw⟩] = w.calls ++ made ∧ ∀ c ∈ made, c.site = site := by
      refine ⟨[⟨site, threw⟩], rfl, ?_⟩
      intro c hc
      rw [List.mem_singleton.mp hc]
    refine wp_statement ?_ ?_
    · exact ⟨⟨grows_put hp, one _⟩, fun _ _ => put_self _, fun _ h => (by cases h)⟩
    · exact fun _ _ => ⟨⟨.refl _ _, one _⟩, fun _ h => (by cases h), fun _ _ => rfl⟩

theorem wp_makeDirectories (ps : List (List ν)) (hps : ∀ q ∈ ps, new q) :
    (ps.forM (makeDirectory faults site isAFile)).wp (fun _ w' => Made site new w w') w := by
  induction ps generalizing w with
  | nil => exact .refl w
  | cons q ps ih =>
    rw [List.forall_mem_cons] at hps
    show (makeDirectory faults site isAFile q >>= fun _ => ps.forM (makeDirectory faults site isAFile)).wp _ w
    rw [Eff.wp_bind]
    refine Eff.wp_mono (wp_makeDirectory q) ?_
    intro r w' hone
    have hmade : Made site new w w' := hone.1.mono fun _ he => he ▸ hps.1
    cases r with
    | error e => exact hmade
    | ok _ => exact Eff.wp_mono (ih hps.2) fun _ _ h => hmade.trans h

/-- Creating a directory adds directories on the way to it and changes nothing else; it is there if
    the call returns, and not by this call if it throws. -/
theorem wp_createDirectory (p : List ν) : (createDirectory faults site isAFile p).wp (fun r w' =>
    Made site (· <+: p) w w' ∧ (∀ u, r = .ok u → w'.state p = some .directory) ∧
      ∀ e, r = .error e → w'.state p = w.state p) w := by
  unfold createDirectory
  rw [Eff.wp_bind]
  have habove : ∀ q ∈ ancestors p, (fun q => q <+: p ∧ q ≠ p) q := fun _ => mem_ancestors
  refine Eff.wp_mono (wp_makeDirectories _ habove) ?_
  intro r w' hmade
  have hp : w'.state p = w.state p := hmade.entries.of_not fun h => h.2 rfl
  have hmade : Made site (· <+: p) w w' := hmade.mono fun _ h => h.1
  cases r with
  | error e => exact ⟨hmade, fun _ h => (by cases h), fun _ _ => hp⟩
  | ok _ =>
    refine Eff.wp_mono (wp_makeDirectory p) ?_
    intro r w'' ⟨hone, hok, herror⟩
    exact ⟨hmade.trans (hone.mono fun _ he => he ▸ List.prefix_refl p), hok, fun e he => (herror e he).trans hp⟩

end Create

end FileTree

end MythLab.Lib
