import LuaReference.Text.Blank
import Mathlib.Data.List.DropRight

/-!
# Trimmed texts

A text is trimmed when it neither starts nor ends in a blank. Trimming keeps such texts, and its
results are such texts.
-/

namespace LuaReference

namespace Text

theorem trimEnd_append_singleton (t : Text) (c : Char) :
    trimEnd (t ++ [c]) = if isBlank c then trimEnd t else t ++ [c] := by
  induction t with
  | nil => cases h : isBlank c <;> simp [trimEnd, h]
  | cons d t ih =>
    rw [List.cons_append, trimEnd, ih]
    cases hc : isBlank c with
    | true =>
      rw [if_pos rfl, if_pos rfl]
      rfl
    | false =>
      simp only [Bool.false_eq_true, if_false]
      cases t <;> rfl

theorem trimEnd_append_cons {c : Char} (hc : isBlank c = false) (a b : Text) :
    trimEnd (a ++ c :: b) = a ++ c :: trimEnd b := by
  induction a with
  | nil =>
    rw [List.nil_append, List.nil_append, trimEnd]
    cases trimEnd b with
    | nil => simp [hc]
    | cons d t => rfl
  | cons x a ih =>
    rw [List.cons_append, trimEnd, ih]
    cases a <;> rfl

theorem trimEnd_eq_rdropWhile (t : Text) : t.trimEnd = t.rdropWhile isBlank := by
  induction t using List.reverseRecOn with
  | nil => rfl
  | append_singleton t c ih => rw [trimEnd_append_singleton, List.rdropWhile_concat, ih]

theorem trimEnd_eq_self_iff {t : Text} :
    t.trimEnd = t ↔ ∀ c, t.getLast? = some c → isBlank c = false := by
  rw [trimEnd_eq_rdropWhile, List.rdropWhile_eq_self_iff]
  constructor
  · intro h c hc
    have hne : t ≠ [] := by
      rintro rfl
      simp at hc
    rw [List.getLast?_eq_some_getLast hne, Option.some.injEq] at hc
    have hlast := h hne
    rw [hc] at hlast
    simpa using hlast
  · intro h hne
    simpa using h _ (List.getLast?_eq_some_getLast hne)

theorem trimStart_eq_self_iff {t : Text} :
    t.trimStart = t ↔ ∀ c, t.head? = some c → isBlank c = false := by
  rw [trimStart, List.dropWhile_eq_self_iff]
  cases t with
  | nil => simp
  | cons d t => simp

theorem trimEnd_trimEnd (t : Text) : t.trimEnd.trimEnd = t.trimEnd := by
  simp only [trimEnd_eq_rdropWhile, List.rdropWhile_idempotent]

theorem prefix_trimEnd (t : Text) : t.trimEnd <+: t := by
  rw [trimEnd_eq_rdropWhile]
  exact List.rdropWhile_prefix isBlank t

theorem infix_trim (t : Text) : t.trim <:+: t :=
  (prefix_trimEnd t.trimStart).isInfix.trans (List.dropWhile_suffix isBlank).isInfix

theorem trim_subset (t : Text) : t.trim ⊆ t := (infix_trim t).subset

/-- Trimming at the end does not bring a blank to the front. -/
theorem trimStart_trim (t : Text) : t.trim.trimStart = t.trim := by
  rw [trimStart_eq_self_iff]
  intro c hc
  have hstart : t.trimStart.trimStart = t.trimStart := List.dropWhile_idempotent isBlank t
  obtain ⟨rest, hrest⟩ := prefix_trimEnd t.trimStart
  apply trimStart_eq_self_iff.1 hstart c
  rw [← hrest]
  change (t.trim ++ rest).head? = some c
  rw [List.head?_append, hc]
  rfl

@[simp]
theorem trim_trim (t : Text) : t.trim.trim = t.trim := by
  have h : t.trim.trim = t.trim.trimStart.trimEnd := rfl
  rw [h, trimStart_trim]
  exact trimEnd_trimEnd t.trimStart

theorem trimStart_trimEnd (t : Text) : t.trimEnd.trimStart = t.trimStart.trimEnd := by
  induction t with
  | nil => rfl
  | cons c t ih =>
    cases hc : isBlank c with
    | false =>
      have hstart : ∀ s : Text, trimStart (c :: s) = c :: s := by
        intro s
        simp [trimStart, hc]
      have hend : trimEnd (c :: t) = c :: trimEnd t := trimEnd_append_cons hc [] t
      rw [hstart, hend, hstart]
    | true =>
      have hstart : ∀ s : Text, trimStart (c :: s) = trimStart s := by
        intro s
        simp [trimStart, hc]
      rw [hstart, ← ih, trimEnd]
      cases trimEnd t with
      | nil => simp [hc]
      | cons d s => exact hstart (d :: s)

theorem trim_trimEnd (t : Text) : t.trimEnd.trim = t.trim := by
  rw [trim, trimStart_trimEnd, trimEnd_trimEnd]
  rfl

theorem trim_eq_self_iff {t : Text} :
    t.trim = t ↔ t.trimStart = t ∧ t.trimEnd = t := by
  constructor
  · intro h
    have hstart : t.trimStart = t := by rw [← h, trimStart_trim]
    refine ⟨hstart, ?_⟩
    rw [trim, hstart] at h
    exact h
  · rintro ⟨hstart, hend⟩
    rw [trim, hstart, hend]

theorem mem_trim {t : Text} {c : Char} (hc : isBlank c = false) (h : c ∈ t) : c ∈ t.trim := by
  have hnot : ∀ b : Text, (∀ d ∈ b, isBlank d = true) → c ∉ b := by
    intro b hb hmem
    rw [hb c hmem] at hc
    cases hc
  rw [← List.takeWhile_append_dropWhile (p := isBlank) (l := t), List.mem_append] at h
  have hstart : c ∈ t.trimStart :=
    h.resolve_left (hnot _ fun d hd => List.mem_takeWhile_imp hd)
  obtain ⟨b, hb, ht⟩ := trimEnd_append_blanks t.trimStart
  rw [ht, List.mem_append] at hstart
  exact hstart.resolve_right (hnot b hb)

theorem trim_of_forall {t : Text} (h : ∀ c ∈ t, isBlank c = false) : t.trim = t :=
  trim_eq_self_iff.2 ⟨trimStart_eq_self_iff.2 fun c hc => h c (List.mem_of_head? hc),
    trimEnd_eq_self_iff.2 fun c hc => h c (List.mem_of_getLast? hc)⟩

theorem trim_cons_of_isBlank {c : Char} (hc : isBlank c = true) (t : Text) :
    trim (c :: t) = t.trim := by
  rw [trim, trimStart, List.dropWhile_cons_of_pos hc, trim, trimStart]

end Text

end LuaReference
