import LuaReference.Proofs.Text.Pieces
import LuaReference.Proofs.Text.Unbroken

/-!
# Line ends in one pass

Normalizing replaces pairs of carriage return and line feed first and single carriage returns then.
That comes to one pass from left to right: `normalizeLineEnds_eq_withFeeds`. So it does not matter
with which line end the lines of a text are joined: `normalizeLineEnds_join`.
-/

namespace LuaReference

namespace Text

/-- Each pair of carriage return and line feed, and each other carriage return, as one line feed, in
one pass from left to right. -/
def withFeeds : Text → Text
  | [] => []
  | '\r' :: '\n' :: t => '\n' :: withFeeds t
  | c :: t => (if c = '\r' then '\n' else c) :: withFeeds t

/-- What a line may end in. -/
def lineEnds : List Text := [['\n'], ['\r', '\n'], ['\r']]

/-! ### One pass -/

theorem withFeeds_return {t : Text} (h : t.head? ≠ some '\n') :
    withFeeds ('\r' :: t) = '\n' :: withFeeds t := by
  cases t with
  | nil => rfl
  | cons c t =>
    have hc : c ≠ '\n' := by
      rintro rfl
      exact h rfl
    rw [withFeeds, if_pos rfl]
    rintro t' - heq
    exact hc (List.cons.inj heq).1

theorem withFeeds_cons {c : Char} (h : c ≠ '\r') (t : Text) :
    withFeeds (c :: t) = c :: withFeeds t := by
  rw [withFeeds, if_neg h]
  rintro t' rfl -
  exact h rfl

theorem withFeeds_append {l : Text} (h : '\r' ∉ l) (t : Text) :
    withFeeds (l ++ t) = l ++ withFeeds t := by
  induction l with
  | nil => rfl
  | cons c l ih =>
    rw [List.mem_cons, not_or] at h
    rw [List.cons_append, withFeeds_cons (Ne.symm h.1), ih h.2, List.cons_append]

theorem withFeeds_of_noReturn {t : Text} (h : '\r' ∉ t) : withFeeds t = t := by
  have happend := withFeeds_append h []
  rwa [List.append_nil, withFeeds, List.append_nil] at happend

/-! ### Two replacements -/

/-- A line feed ends every occurrence of either pattern that stands in front of it. -/
theorem replace_returns_cons {c : Char} {t : Text} (hc : c ≠ '\r') :
    (replace (c :: t) ['\r', '\n'] ['\n']).replace ['\r'] ['\n'] =
      c :: (replace t ['\r', '\n'] ['\n']).replace ['\r'] ['\n'] := by
  have hpair : ¬ ['\r', '\n'] <+: c :: t := by
    rw [List.cons_prefix_cons]
    exact fun h => hc h.1.symm
  have hsingle : ¬ ['\r'] <+: c :: replace t ['\r', '\n'] ['\n'] := by
    rw [List.cons_prefix_cons]
    exact fun h => hc h.1.symm
  rw [replace_cons hpair, replace_cons hsingle]

theorem replace_returns (t : Text) :
    (t.replace ['\r', '\n'] ['\n']).replace ['\r'] ['\n'] = withFeeds t := by
  fun_induction withFeeds t with
  | case1 => rfl
  | case2 t ih =>
    have hpair := replace_pattern (List.cons_ne_nil '\r' ['\n']) ['\n'] t
    rw [List.cons_append, List.singleton_append] at hpair
    rw [hpair, ← ih]
    exact replace_cons (by simp) ['\n']
  | case3 c t hnot ih =>
    by_cases hc : c = '\r'
    · subst hc
      -- what follows is no line feed, so the pair is not here
      have hpair : ¬ ['\r', '\n'] <+: '\r' :: t := by
        rw [List.cons_prefix_cons]
        rintro ⟨-, rest, rfl⟩
        exact hnot rest rfl rfl
      have hsingle := replace_pattern (List.cons_ne_nil '\r' []) ['\n']
        (replace t ['\r', '\n'] ['\n'])
      rw [replace_cons hpair, if_pos rfl, ← ih]
      exact hsingle
    · rw [replace_returns_cons hc, if_neg hc, ih]

theorem normalizeLineEnds_eq_withFeeds (t : Text) : t.normalizeLineEnds = withFeeds t := by
  rw [normalizeLineEnds]
  split
  · exact replace_returns t
  · next h => exact (withFeeds_of_noReturn h).symm

theorem normalizeLineEnds_of_noReturn {t : Text} (h : '\r' ∉ t) : t.normalizeLineEnds = t :=
  if_neg h

/-! ### Joined lines -/

/-- Whatever ends a line becomes one line feed. A single carriage return is one unless a line feed
follows. -/
theorem withFeeds_lineEnd {sep t : Text} (hsep : sep ∈ lineEnds)
    (h : sep = ['\r'] → t.head? ≠ some '\n') : withFeeds (sep ++ t) = '\n' :: withFeeds t := by
  simp only [lineEnds, List.mem_cons, List.not_mem_nil, or_false] at hsep
  obtain rfl | rfl | rfl := hsep
  · exact withFeeds_cons (by decide) t
  · rfl
  · exact withFeeds_return (h rfl)

theorem withFeeds_join {sep : Text} (hsep : sep ∈ lineEnds) {ls : List Text}
    (h : ∀ l ∈ ls, l.Unbroken) : withFeeds (join sep ls) = join ['\n'] ls := by
  induction ls with
  | nil => rfl
  | cons l ls ih =>
    obtain ⟨hl, hls⟩ := List.forall_mem_cons.1 h
    cases ls with
    | nil => exact withFeeds_of_noReturn hl.noReturn
    | cons l' ls =>
      have hnext : sep = ['\r'] → (join sep (l' :: ls)).head? ≠ some '\n' := by
        rintro rfl hhead
        obtain hmem | ⟨p, hp, hmem⟩ := mem_join (List.mem_of_head? hhead)
        · exact absurd hmem (by decide)
        · exact (hls p hp).noFeed hmem
      rw [join, join, List.append_assoc, withFeeds_append hl.noReturn,
        withFeeds_lineEnd hsep hnext, ih hls, List.append_assoc, List.singleton_append]

theorem normalizeLineEnds_join {sep : Text} (hsep : sep ∈ lineEnds) {ls : List Text}
    (h : ∀ l ∈ ls, l.Unbroken) : (join sep ls).normalizeLineEnds = join ['\n'] ls := by
  rw [normalizeLineEnds_eq_withFeeds, withFeeds_join hsep h]

end Text

end LuaReference
