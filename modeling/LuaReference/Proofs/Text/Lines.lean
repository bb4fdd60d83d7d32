import LuaReference.Text.Basic
import Mathlib.Data.List.Basic

/-!
# Lines of a part

A text up to the end of one of its lines has the first lines of the text, and what follows a text
whose last line is terminated adds lines of its own. Lines that are joined, each terminated, are
read back as they were.
-/

namespace LuaReference

def joinLines (lines : List Text) : Text := lines.flatMap (· ++ ['\n'])

namespace Text

/-- A text up to the end of its line number `n`. -/
def firstLines : Nat → Text → Text
  | 0, _ => []
  | _ + 1, [] => []
  | n + 1, c :: t => if c = '\n' then c :: firstLines n t else c :: firstLines (n + 1) t

theorem firstLines_prefix (n : Nat) (t : Text) : firstLines n t <+: t := by
  induction t generalizing n with
  | nil => cases n <;> exact List.nil_prefix
  | cons c t ih =>
    cases n with
    | zero => exact List.nil_prefix
    | succ n =>
      rw [firstLines]
      split
      · exact List.cons_prefix_cons.2 ⟨rfl, ih n⟩
      · exact List.cons_prefix_cons.2 ⟨rfl, ih (n + 1)⟩

theorem lines_firstLines (n : Nat) (t : Text) : (firstLines n t).lines = t.lines.take n := by
  induction t generalizing n with
  | nil => cases n <;> rfl
  | cons c t ih =>
    cases n with
    | zero => rfl
    | succ n =>
      rw [firstLines]
      split
      · next hc =>
        subst hc
        rw [lines_newline, lines_newline, ih, List.take_succ_cons]
      · next hc =>
        rw [lines_cons_of_ne hc, lines_cons_of_ne hc, ih]
        cases lines t <;> simp

theorem mem_of_mem_lines {t l : Text} (h : l ∈ t.lines) : '\n' ∉ l ∧ l ⊆ t := by
  induction t generalizing l with
  | nil => exact absurd h List.not_mem_nil
  | cons c t ih =>
    by_cases hc : c = '\n'
    · rw [hc, lines_newline] at h
      rcases List.mem_cons.1 h with rfl | h
      · exact ⟨List.not_mem_nil, List.nil_subset _⟩
      · exact ⟨(ih h).1, List.subset_cons_of_subset c (ih h).2⟩
    · rw [lines_cons_of_ne hc] at h
      cases hlines : lines t with
      | nil =>
        rw [hlines, List.mem_singleton] at h
        subst h
        exact ⟨by simpa [eq_comm] using hc, List.cons_subset_cons c (List.nil_subset t)⟩
      | cons first others =>
        rw [hlines] at h ih
        rcases List.mem_cons.1 h with rfl | h
        · obtain ⟨hfeed, hsubset⟩ := ih List.mem_cons_self
          refine ⟨?_, List.cons_subset_cons c hsubset⟩
          rw [List.mem_cons]
          exact not_or.2 ⟨Ne.symm hc, hfeed⟩
        · obtain ⟨hfeed, hsubset⟩ := ih (List.mem_cons_of_mem first h)
          exact ⟨hfeed, List.subset_cons_of_subset c hsubset⟩

theorem lines_ne_nil {t : Text} (h : t ≠ []) : lines t ≠ [] := by
  obtain ⟨c, t, rfl⟩ := List.exists_cons_of_ne_nil h
  by_cases hc : c = '\n'
  · rw [hc, lines_newline]
    exact List.cons_ne_nil _ _
  · rw [lines_cons_of_ne hc]
    cases lines t <;> exact List.cons_ne_nil _ _

/-- A text with its last line terminated. -/
def terminated (t : Text) : Text :=
  if t = [] ∨ t.getLast? = some '\n' then t else t ++ ['\n']

theorem terminated_cons (c : Char) {t : Text} (h : t ≠ []) :
    terminated (c :: t) = c :: terminated t := by
  rw [terminated, terminated, List.getLast?_cons_of_ne_nil h]
  by_cases hlast : t.getLast? = some '\n'
  · rw [if_pos (Or.inr hlast), if_pos (Or.inr hlast)]
  · have hnot : ¬ (c :: t = [] ∨ t.getLast? = some '\n') := by simp [hlast]
    rw [if_neg hnot, if_neg (by simp [h, hlast]), List.cons_append]

theorem lines_terminated_append (t u : Text) : (terminated t ++ u).lines = t.lines ++ u.lines := by
  induction t with
  | nil => rfl
  | cons c t ih =>
    by_cases ht : t = []
    · subst ht
      by_cases hc : c = '\n'
      · subst hc
        exact lines_newline u
      · have hterm : terminated [c] ++ u = [c] ++ '\n' :: u := by simp [terminated, hc]
        have hnot : '\n' ∉ [c] := by simpa [eq_comm] using hc
        have hself : lines [c] = [[c]] := by simp [lines, hc]
        rw [hterm, lines_append hnot, hself, List.singleton_append]
    · rw [terminated_cons c ht, List.cons_append]
      by_cases hc : c = '\n'
      · rw [hc, lines_newline, lines_newline, ih, List.cons_append]
      · rw [lines_cons_of_ne hc, lines_cons_of_ne hc, ih]
        cases hlines : lines t with
        | nil => exact absurd hlines (lines_ne_nil ht)
        | cons l ls => rfl

end Text

/-! ### Joined lines -/

theorem lines_joinLines {lines : List Text} (h : ∀ l ∈ lines, '\n' ∉ l) :
    (joinLines lines).lines = lines := by
  induction lines with
  | nil => rfl
  | cons l lines ih =>
    have hl : '\n' ∉ l := h l List.mem_cons_self
    have hrest : ∀ l' ∈ lines, '\n' ∉ l' := fun l' hl' => h l' (List.mem_cons_of_mem l hl')
    have hjoin : joinLines (l :: lines) = l ++ '\n' :: joinLines lines := by
      simp [joinLines]
    rw [hjoin, Text.lines_append hl, ih hrest]

theorem joinLines_lines (t : Text) : joinLines t.lines = t.terminated := by
  induction t with
  | nil => rfl
  | cons c t ih =>
    by_cases ht : t = []
    · subst ht
      by_cases hc : c = '\n'
      · subst hc
        rfl
      · simp [Text.lines, Text.terminated, joinLines, hc]
    · rw [Text.terminated_cons c ht, ← ih]
      by_cases hc : c = '\n'
      · rw [hc, Text.lines_newline]
        rfl
      · rw [Text.lines_cons_of_ne hc]
        cases hlines : Text.lines t with
        | nil => exact absurd hlines (Text.lines_ne_nil ht)
        | cons l ls => simp [joinLines]

end LuaReference
