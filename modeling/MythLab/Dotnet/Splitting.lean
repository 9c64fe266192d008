/-
  MythLab.Dotnet.Splitting — a string and its parts between separators.

  The parts hold no separator (`not_mem_of_mem_split`); a separator between two strings
  splits them (`split_append_cons`); parts that were joined come back, with the blanks
  that the joining put before them (`split_join`).
-/
import MythLab.Dotnet.Text

namespace MythLab.Dotnet

variable {separator : Char16} {s part : Str}

theorem split_nil : split separator [] = [[]] := List.splitOn_nil separator

theorem split_ne_nil : split separator s ≠ [] := List.splitOnP_ne_nil _ s

theorem split_of_not_mem (h : separator ∉ s) : split separator s = [s] := by
  refine List.splitOnP_eq_singleton ?_
  intro c hc
  exact beq_eq_false_iff_ne.mpr fun he => h (he ▸ hc)

theorem split_append_cons (s t : Str) : split separator (s ++ separator :: t) = split separator s ++ split separator t :=
  List.splitOnP_append_cons s t (beq_self_eq_true separator)

theorem split_cons (c : Char16) (s : Str) : split separator (c :: s) =
    if c = separator then [] :: split separator s else (split separator s).modifyHead (c :: ·) := by
  have hcons := List.splitOnP_cons_eq_if_modifyHead (p := (· == separator)) c s
  simp only [beq_iff_eq] at hcons
  exact hcons

theorem not_mem_of_mem_split (h : part ∈ split separator s) : separator ∉ part := by
  induction s generalizing part with
  | nil =>
    rw [split_nil, List.mem_singleton] at h
    subst h
    exact List.not_mem_nil
  | cons c s ih =>
    rw [split_cons] at h
    split at h
    · rcases List.mem_cons.mp h with rfl | h
      · exact List.not_mem_nil
      · exact ih h
    · rename_i hc
      have hne : split separator s ≠ [] := split_ne_nil
      obtain ⟨first, rest, hsplit⟩ := List.exists_cons_of_ne_nil hne
      rw [hsplit] at h ih
      rcases List.mem_cons.mp h with rfl | h
      · exact fun hmem => (List.mem_cons.mp hmem).elim (fun he => hc he.symm) (ih List.mem_cons_self)
      · exact ih (List.mem_cons_of_mem _ h)

/-- Parts joined by a separator and blanks after it. -/
theorem split_join {pad t : Str} (ts : List Str) (hpad : separator ∉ pad) (ht : separator ∉ t)
    (hts : ∀ u ∈ ts, separator ∉ u) :
    split separator (join (separator :: pad) (t :: ts)) = t :: ts.map (pad ++ ·) := by
  induction ts generalizing t with
  | nil =>
    unfold join
    rw [List.intercalate_singleton]
    exact split_of_not_mem ht
  | cons u ts ih =>
    rw [List.forall_mem_cons] at hts
    have hjoin : join (separator :: pad) (t :: u :: ts) = t ++ separator :: join (separator :: pad) ((pad ++ u) :: ts) := by
      unfold join
      rw [List.intercalate_cons_cons]
      cases ts with
      | nil => simp
      | cons v ts => simp [List.intercalate_cons_cons]
    have hu : separator ∉ pad ++ u := by
      rw [List.mem_append]
      exact fun h => h.elim hpad hts.1
    rw [hjoin, split_append_cons, split_of_not_mem ht, ih hu hts.2]
    rfl

end MythLab.Dotnet
