import LuaReference.Text.LowerCase
import LuaReference.Text.Replace

/-!
# Searching in composed texts

Where an occurrence can lie in a text that is put together from parts, and in its lower case, and
what replacing the occurrences leaves. The lower case of a part depends on its neighbours only in
the form of its sigmas, so a search without sigma may look at the parts one by one:
`infix_lower_iff` and `folded_append`.
-/

namespace LuaReference

namespace Text

/-! ### Occurrences -/

theorem prefix_of_prefix_append_cons {w p s : Text} {c : Char} (hc : c ∉ w)
    (h : w <+: p ++ c :: s) : w <+: p := by
  induction p generalizing w with
  | nil =>
    cases w with
    | nil => exact List.nil_prefix
    | cons a w =>
      rw [List.nil_append, List.cons_prefix_cons] at h
      rw [h.1] at hc
      exact absurd List.mem_cons_self hc
  | cons d p ih =>
    cases w with
    | nil => exact List.nil_prefix
    | cons a w =>
      rw [List.cons_append, List.cons_prefix_cons] at h
      rw [List.cons_prefix_cons]
      exact ⟨h.1, ih (fun hmem => hc (List.mem_cons_of_mem a hmem)) h.2⟩

/-- An occurrence without `c` lies on one side of each `c`. -/
theorem infix_append_cons_iff {w p s : Text} {c : Char} (hc : c ∉ w) :
    w <:+: p ++ c :: s ↔ w <:+: p ∨ w <:+: s := by
  induction p with
  | nil =>
    rw [List.nil_append, List.infix_cons_iff]
    constructor
    · rintro (h | h)
      · exact Or.inl (prefix_of_prefix_append_cons (p := []) hc h).isInfix
      · exact Or.inr h
    · rintro (h | h)
      · rw [List.infix_nil] at h
        rw [h]
        exact Or.inl List.nil_prefix
      · exact Or.inr h
  | cons d p ih =>
    rw [List.cons_append, List.infix_cons_iff, ih, List.infix_cons_iff]
    constructor
    · rintro (h | h | h)
      · exact Or.inl (Or.inl (prefix_of_prefix_append_cons (p := d :: p) hc h))
      · exact Or.inl (Or.inr h)
      · exact Or.inr h
    · rintro ((h | h) | h)
      · exact Or.inl (h.trans (List.prefix_append (d :: p) (c :: s)))
      · exact Or.inr (Or.inl h)
      · exact Or.inr (Or.inr h)

/-- No occurrence starts in a part without the first character. -/
theorem infix_append_iff_of_not_mem {a : Char} {w p x : Text} (ha : a ∉ p) :
    a :: w <:+: p ++ x ↔ a :: w <:+: x := by
  induction p with
  | nil => rw [List.nil_append]
  | cons d p ih =>
    have hd : a ≠ d := by
      intro h
      exact ha (h ▸ List.mem_cons_self)
    have hp : a ∉ p := fun hmem => ha (List.mem_cons_of_mem d hmem)
    rw [List.cons_append, List.infix_cons_iff, ih hp, List.cons_prefix_cons]
    constructor
    · rintro (h | h)
      · exact absurd h.1 hd
      · exact h
    · exact Or.inr

theorem replace_append_of_not_mem {a : Char} {w p : Text} (ha : a ∉ p) (r x : Text) :
    replace (p ++ x) (a :: w) r = p ++ replace x (a :: w) r := by
  induction p with
  | nil => rfl
  | cons d p ih =>
    have hnot : ¬ a :: w <+: d :: (p ++ x) := by
      rw [List.cons_prefix_cons]
      intro h
      exact ha (h.1 ▸ List.mem_cons_self)
    rw [List.cons_append, replace_cons hnot, ih fun hmem => ha (List.mem_cons_of_mem d hmem),
      List.cons_append]

/-- No occurrence runs across a character that the pattern does not have. -/
theorem replace_append_cons {p : Text} {c : Char} (hp : p ≠ []) (hc : c ∉ p) (r a b : Text) :
    replace (a ++ c :: b) p r = replace a p r ++ c :: replace b p r := by
  induction hn : a.length using Nat.strongRecOn generalizing a with
  | ind n ih =>
    by_cases hfront : p <+: a
    · obtain ⟨rest, rfl⟩ := hfront
      have hless : rest.length < n := by
        have hpos := List.length_pos_iff.2 hp
        rw [List.length_append] at hn
        omega
      rw [List.append_assoc, replace_pattern hp, replace_pattern hp, ih _ hless rest rfl,
        List.append_assoc]
    · cases a with
      | nil =>
        have hnot : ¬ p <+: c :: b := fun h => hfront (prefix_of_prefix_append_cons hc h)
        rw [List.nil_append, replace_cons hnot, replace_nil, List.nil_append]
      | cons d a =>
        have hnot : ¬ p <+: d :: (a ++ c :: b) := fun h =>
          hfront (prefix_of_prefix_append_cons (p := d :: a) hc h)
        have hless : a.length < n := by
          rw [List.length_cons] at hn
          omega
        rw [List.cons_append, replace_cons hnot, replace_cons hfront, ih _ hless a rfl,
          List.cons_append]

/-! ### Characters of a replacement -/

theorem mem_of_mem_replaceFrom {p r t : Text} {skip : Nat} {c : Char}
    (h : c ∈ replaceFrom p r skip t) : c ∈ t ∨ c ∈ r := by
  induction t generalizing skip with
  | nil => cases skip <;> exact absurd h List.not_mem_nil
  | cons d t ih =>
    cases skip with
    | succ skip => exact (ih h).imp_left (List.mem_cons_of_mem d)
    | zero =>
      rw [replaceFrom] at h
      split at h
      · rcases List.mem_append.1 h with h | h
        · exact Or.inr h
        · exact (ih h).imp_left (List.mem_cons_of_mem d)
      · rcases List.mem_cons.1 h with h | h
        · exact Or.inl (h ▸ List.mem_cons_self)
        · exact (ih h).imp_left (List.mem_cons_of_mem d)

theorem mem_of_mem_replace {p r t : Text} {c : Char} (h : c ∈ replace t p r) : c ∈ t ∨ c ∈ r :=
  mem_of_mem_replaceFrom h

theorem not_mem_replace_singleton {c : Char} {r : Text} (hc : c ∉ r) (t : Text) :
    c ∉ replace t [c] r := by
  induction t with
  | nil =>
    rw [replace_nil]
    exact List.not_mem_nil
  | cons d t ih =>
    by_cases hd : c = d
    · subst hd
      have hfront : replace (c :: t) [c] r = r ++ replace t [c] r :=
        replace_pattern (List.cons_ne_nil c []) r t
      rw [hfront, List.mem_append]
      exact not_or.2 ⟨hc, ih⟩
    · have hnot : ¬ [c] <+: d :: t := by
        rw [List.cons_prefix_cons]
        exact fun h => hd h.1
      rw [replace_cons hnot, List.mem_cons]
      exact not_or.2 ⟨hd, ih⟩

/-! ### Occurrences in other characters -/

theorem infix_map {w t : Text} (f : Char → Char) (h : w <:+: t) : w.map f <:+: t.map f := by
  obtain ⟨p, s, rfl⟩ := h
  rw [List.map_append, List.map_append]
  exact List.infix_append (p.map f) (w.map f) (s.map f)

theorem exists_infix_of_infix_map {w t : Text} {f : Char → Char} (h : w <:+: t.map f) :
    ∃ v, v <:+: t ∧ v.map f = w := by
  obtain ⟨p, s, hps⟩ := h
  obtain ⟨pv, s', ht, hpv, _⟩ := List.map_eq_append_iff.1 hps.symm
  obtain ⟨p', v, hpv', _, hv⟩ := List.map_eq_append_iff.1 hpv
  refine ⟨v, ?_, hv⟩
  rw [ht, hpv']
  exact List.infix_append p' v s'

/-! ### Lower case -/

/-- The final form of a sigma as its plain form. -/
def foldSigma (c : Char) : Char := if c = 'ς' then 'σ' else c

/-- The lower case of a text with every sigma in its plain form. -/
def folded (t : Text) : Text := t.flatMap fun c => (lowerChar c).map foldSigma

theorem folded_append (a b : Text) : folded (a ++ b) = folded a ++ folded b := by
  rw [folded, List.flatMap_append]
  rfl

theorem folded_cons (c : Char) (t : Text) :
    folded (c :: t) = (lowerChar c).map foldSigma ++ folded t := by
  rw [folded, List.flatMap_cons]
  rfl

theorem lowerAfter_map_foldSigma (before t : Text) :
    (lowerAfter before t).map foldSigma = folded t := by
  induction t generalizing before with
  | nil => rfl
  | cons c t ih =>
    rw [lowerAfter, List.map_append, ih, folded_cons]
    by_cases hc : c = 'Σ'
    · subst hc
      have hsigma : (lowerChar 'Σ').map foldSigma = ['σ'] := by decide +kernel
      rw [hsigma]
      by_cases hfinal : (meetsCased before && !meetsCased t) = true
      · rw [if_pos rfl, if_pos hfinal]
        rfl
      · rw [if_pos rfl, if_neg hfinal]
        rfl
    · rw [if_neg hc]

theorem map_foldSigma_of_noSigma {w : Text} (h : 'ς' ∉ w) : w.map foldSigma = w := by
  have hself : ∀ c ∈ w, foldSigma c = c := by
    intro c hc
    refine if_neg ?_
    rintro rfl
    exact h hc
  rw [List.map_congr_left hself, List.map_id']

/-- A search without sigmas in the lower case of a text may forget the forms of its sigmas. -/
theorem infix_lower_iff {w t : Text} (hfinal : 'ς' ∉ w) (hplain : 'σ' ∉ w) :
    w <:+: t.lower ↔ w <:+: folded t := by
  rw [← lowerAfter_map_foldSigma [] t]
  constructor
  · intro h
    have hw := infix_map foldSigma h
    rwa [map_foldSigma_of_noSigma hfinal] at hw
  · intro h
    obtain ⟨v, hv, rfl⟩ := exists_infix_of_infix_map h
    have hself : v.map foldSigma = v := by
      refine map_foldSigma_of_noSigma ?_
      intro hmem
      refine hplain (List.mem_map.2 ⟨'ς', hmem, ?_⟩)
      decide
    rwa [hself]

end Text

end LuaReference
