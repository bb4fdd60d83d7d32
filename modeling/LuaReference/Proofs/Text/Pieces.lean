import LuaReference.Proofs.Text.Values

/-!
# Pieces between separators

A text is cut at every separator. Joining the pieces again and cutting are inverse to each other,
and a text that is put together around a separator has the pieces of both sides.
-/

namespace LuaReference

namespace Text

variable {sep : Char}

theorem splitAll_append_cons (a b : Text) :
    splitAll sep (a ++ sep :: b) = splitAll sep a ++ splitAll sep b := by
  induction a with
  | nil => simp [splitAll]
  | cons c a ih =>
    rw [List.cons_append, splitAll, splitAll, ih]
    by_cases hc : c = sep
    · rw [if_pos hc, if_pos hc, List.cons_append]
    · rw [if_neg hc, if_neg hc]
      obtain ⟨p, ps, hsplit, -⟩ := exists_splitAll sep a
      rw [hsplit, List.cons_append, List.cons_append]

theorem splitAll_of_not_mem {t : Text} (h : sep ∉ t) : splitAll sep t = [t] := by
  induction t with
  | nil => rfl
  | cons c t ih =>
    have hc : c ≠ sep := fun hc => h (hc ▸ List.mem_cons_self)
    rw [splitAll, if_neg hc, ih fun hmem => h (List.mem_cons_of_mem c hmem)]

theorem splitAll_join {ps : List Text} (hne : ps ≠ []) (h : ∀ p ∈ ps, sep ∉ p) :
    splitAll sep (join [sep] ps) = ps := by
  induction ps with
  | nil => exact absurd rfl hne
  | cons p ps ih =>
    have hp : splitAll sep p = [p] := splitAll_of_not_mem (h p List.mem_cons_self)
    cases ps with
    | nil => exact hp
    | cons q ps =>
      have hrest := ih (List.cons_ne_nil q ps) fun r hr => h r (List.mem_cons_of_mem p hr)
      rw [join, List.append_assoc, List.singleton_append, splitAll_append_cons, hp, hrest,
        List.singleton_append]

theorem mem_join {sep : Text} {ps : List Text} {c : Char} (h : c ∈ join sep ps) :
    c ∈ sep ∨ ∃ p ∈ ps, c ∈ p := by
  induction ps with
  | nil => cases h
  | cons p ps ih =>
    cases ps with
    | nil => exact Or.inr ⟨p, List.mem_cons_self, h⟩
    | cons q ps =>
      rw [join, List.mem_append, List.mem_append] at h
      rcases h with (hp | hsep) | hrest
      · exact Or.inr ⟨p, List.mem_cons_self, hp⟩
      · exact Or.inl hsep
      · obtain hsep | ⟨r, hr, hc⟩ := ih hrest
        · exact Or.inl hsep
        · exact Or.inr ⟨r, List.mem_cons_of_mem p hr, hc⟩

/-- What stands behind a text goes to its last piece. -/
theorem splitAll_append_of_not_mem {t e : Text} (he : sep ∉ e) :
    ∃ ps p, splitAll sep t = ps ++ [p] ∧ splitAll sep (t ++ e) = ps ++ [p ++ e] := by
  induction t with
  | nil => exact ⟨[], [], rfl, splitAll_of_not_mem he⟩
  | cons c t ih =>
    obtain ⟨ps, p, hsplit, happend⟩ := ih
    rw [List.cons_append, splitAll, splitAll, hsplit, happend]
    by_cases hc : c = sep
    · rw [if_pos hc, if_pos hc]
      exact ⟨[] :: ps, p, rfl, rfl⟩
    · rw [if_neg hc, if_neg hc]
      cases ps with
      | nil => exact ⟨[], c :: p, rfl, rfl⟩
      | cons q ps => exact ⟨(c :: q) :: ps, p, rfl, rfl⟩

end Text

end LuaReference
