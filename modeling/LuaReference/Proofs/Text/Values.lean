import LuaReference.Entity
import LuaReference.Proofs.Text.Trim

/-!
# Cutting texts apart

Values behind separators are cut apart again, and blanks at the end of the text do not matter. The
pieces of a text, each behind a separator but the first, are the text.
-/

namespace LuaReference

namespace Text

variable {sep : Char}

theorem splitFirst_append_cons {a : Text} (ha : sep ∉ a) (b : Text) :
    splitFirst sep (a ++ sep :: b) = some (a, b) :=
  splitFirst_eq_some_iff.2 ⟨rfl, ha⟩

theorem behindFirst_subset (sep : Char) (t : Text) : t.behindFirst sep ⊆ t := by
  rw [behindFirst]
  cases hs : splitFirst sep t with
  | none => exact List.nil_subset t
  | some ab =>
    obtain ⟨rfl, -⟩ := splitFirst_eq_some_iff.1 hs
    exact List.subset_append_of_subset_right _ (List.subset_cons_self _ _)

theorem subset_of_mem_splitAtMost {n : Nat} {t p : Text} (hp : p ∈ splitAtMost sep n t) :
    p ⊆ t := by
  induction n generalizing t with
  | zero =>
    rw [splitAtMost, List.mem_singleton] at hp
    rw [hp]
    exact List.Subset.refl t
  | succ n ih =>
    rw [splitAtMost] at hp
    cases hs : splitFirst sep t with
    | none =>
      rw [hs, List.mem_singleton] at hp
      rw [hp]
      exact List.Subset.refl t
    | some ab =>
      obtain ⟨rfl, -⟩ := splitFirst_eq_some_iff.1 hs
      rw [hs] at hp
      rcases List.mem_cons.1 hp with rfl | hp
      · exact List.subset_append_left _ _
      · exact List.Subset.trans (ih hp)
          (List.subset_append_of_subset_right _ (List.subset_cons_self _ _))

/-- Blanks at the end of a text change its pieces by blanks only. -/
theorem map_trimEnd_splitAtMost (hsep : isBlank sep = false) (n : Nat) (t : Text) :
    (splitAtMost sep n t.trimEnd).map trimEnd = (splitAtMost sep n t).map trimEnd := by
  induction n generalizing t with
  | zero => simp only [splitAtMost, List.map_cons, List.map_nil, trimEnd_trimEnd]
  | succ n ih =>
    cases hs : splitFirst sep t with
    | none =>
      have hnot : sep ∉ t.trimEnd := by
        intro hmem
        exact splitFirst_eq_none_iff.1 hs ((prefix_trimEnd t).subset hmem)
      rw [splitAtMost, splitFirst_eq_none_iff.2 hnot, splitAtMost, hs]
      simp only [List.map_cons, List.map_nil, trimEnd_trimEnd]
    | some ab =>
      obtain ⟨ht, ha⟩ := splitFirst_eq_some_iff.1 hs
      rw [splitAtMost, splitAtMost, hs, ht, trimEnd_append_cons hsep, splitFirst_append_cons ha]
      simp only [List.map_cons, ih]

theorem map_trim_splitAtMost (hsep : isBlank sep = false) (n : Nat) (t : Text) :
    (splitAtMost sep n t.trimEnd).map trim = (splitAtMost sep n t).map trim := by
  have hcomp : ∀ pieces : List Text, pieces.map trim = (pieces.map trimEnd).map trim := by
    intro pieces
    rw [List.map_map]
    exact List.map_congr_left fun p _ => (trim_trimEnd p).symm
  rw [hcomp, map_trimEnd_splitAtMost hsep, ← hcomp]

/-- A lead and values behind it, each after a separator and a space. -/
def withValues (sep : Char) (lead : Text) (values : List Text) : Text :=
  lead ++ values.flatMap fun v => sep :: ' ' :: v

theorem withValues_cons (lead v : Text) (values : List Text) :
    withValues sep lead (v :: values) = lead ++ sep :: withValues sep (' ' :: v) values := by
  simp only [withValues, List.flatMap_cons, List.cons_append]

/-- Values without separators, the last one excepted, are the pieces. -/
theorem splitAtMost_withValues {lead : Text} {values : List Text} (hlead : sep ∉ lead)
    (hspace : sep ≠ ' ') (hvalues : ∀ v ∈ values.dropLast, sep ∉ v) :
    splitAtMost sep values.length (withValues sep lead values) =
      lead :: values.map (' ' :: ·) := by
  induction values generalizing lead with
  | nil => simp [withValues, splitAtMost]
  | cons v values ih =>
    rw [withValues_cons, List.length_cons, splitAtMost, splitFirst_append_cons hlead]
    cases values with
    | nil => simp [withValues, splitAtMost]
    | cons w values =>
      have hv : sep ∉ ' ' :: v := by
        intro hmem
        rcases List.mem_cons.1 hmem with h | h
        · exact hspace h
        · exact hvalues v List.mem_cons_self h
      have hrest : ∀ u ∈ (w :: values).dropLast, sep ∉ u :=
        fun u hu => hvalues u (List.mem_cons_of_mem v hu)
      simp only [ih hv hrest, List.map_cons]

theorem exists_splitAll (sep : Char) (t : Text) :
    ∃ p ps, splitAll sep t = p :: ps ∧ t = p ++ ps.flatMap (sep :: ·) := by
  induction t with
  | nil => exact ⟨[], [], rfl, rfl⟩
  | cons c t ih =>
    obtain ⟨p, ps, hsplit, ht⟩ := ih
    by_cases hc : c = sep
    · refine ⟨[], p :: ps, ?_, ?_⟩
      · rw [splitAll, if_pos hc, hsplit]
      · rw [List.nil_append, List.flatMap_cons, List.cons_append, ← ht, hc]
    · refine ⟨c :: p, ps, ?_, ?_⟩
      · rw [splitAll, if_neg hc, hsplit]
      · rw [List.cons_append, ← ht]

theorem subset_of_mem_splitAll {t p : Text} (hp : p ∈ splitAll sep t) : p ⊆ t := by
  induction t generalizing p with
  | nil =>
    rw [splitAll, List.mem_singleton] at hp
    rw [hp]
    exact List.Subset.refl []
  | cons c t ih =>
    obtain ⟨q, qs, hsplit, _⟩ := exists_splitAll sep t
    rw [splitAll, hsplit] at hp
    rw [hsplit] at ih
    by_cases hc : c = sep
    · rw [if_pos hc] at hp
      rcases List.mem_cons.1 hp with rfl | hp
      · exact List.nil_subset _
      · exact List.subset_cons_of_subset c (ih hp)
    · rw [if_neg hc] at hp
      rcases List.mem_cons.1 hp with rfl | hp
      · exact List.cons_subset_cons c (ih List.mem_cons_self)
      · exact List.subset_cons_of_subset c (ih (List.mem_cons_of_mem q hp))

theorem not_mem_of_mem_splitAll {t p : Text} (hp : p ∈ splitAll sep t) : sep ∉ p := by
  induction t generalizing p with
  | nil =>
    rw [splitAll, List.mem_singleton] at hp
    rw [hp]
    exact List.not_mem_nil
  | cons c t ih =>
    obtain ⟨q, qs, hsplit, _⟩ := exists_splitAll sep t
    rw [splitAll, hsplit] at hp
    rw [hsplit] at ih
    by_cases hc : c = sep
    · rw [if_pos hc] at hp
      rcases List.mem_cons.1 hp with rfl | hp
      · exact List.not_mem_nil
      · exact ih hp
    · rw [if_neg hc] at hp
      rcases List.mem_cons.1 hp with rfl | hp
      · intro hmem
        rcases List.mem_cons.1 hmem with h | h
        · exact hc h.symm
        · exact ih List.mem_cons_self h
      · exact ih (List.mem_cons_of_mem q hp)

end Text

/-! ### Descriptions -/

theorem foldl_pushLine {d : Text} (hd : d ≠ []) (lines : List Text) :
    lines.foldl pushLine d = d ++ lines.flatMap ('\n' :: ·) := by
  induction lines generalizing d with
  | nil => simp
  | cons line lines ih =>
    have hne : d ++ '\n' :: line ≠ [] := by simp
    rw [List.foldl_cons, pushLine_of_ne_nil hd, ih hne, List.flatMap_cons, List.append_assoc]

/-- Pushing the lines of a text one by one gives the text, unless its first line is empty. -/
theorem foldl_pushLine_splitAll {d : Text} (h : (d.splitAll '\n').head? ≠ some []) :
    (d.splitAll '\n').foldl pushLine [] = d := by
  obtain ⟨p, ps, hsplit, hd⟩ := Text.exists_splitAll '\n' d
  rw [hsplit] at h ⊢
  have hp : p ≠ [] := by simpa using h
  rw [List.foldl_cons, pushLine_nil, foldl_pushLine hp, ← hd]

end LuaReference
