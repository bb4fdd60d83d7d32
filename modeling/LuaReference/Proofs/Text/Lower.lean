import Mathlib.Data.List.Infix
import LuaReference.Proofs.Text.Search

/-!
# Lower case of composed texts

Signs are their own lower case and that of no other character, so the lower case of a text has
them exactly where the text has them: `infix_lower_iff_of_signs`. A part has the lower case in a
text that it has alone when no cased character stands next to it: `lower_infix_lower`.
-/

namespace LuaReference

namespace Text

/-! ### Signs -/

/-- Whether a character comes before the letters of ASCII. -/
def IsSign (c : Char) : Prop := 0 < c.toNat ∧ c.toNat < 0x41

instance : DecidablePred IsSign := fun _ => inferInstanceAs (Decidable (_ ∧ _))

variable {a c : Char} {w t : Text}

theorem lowerRuns_high : ∀ r ∈ lowerRuns, (0x41 : Int) ≤ r.first + r.offset := by
  decide +kernel

theorem toNat_ofNat_eq (n : Nat) : (Char.ofNat n).toNat = n ∨ (Char.ofNat n).toNat = 0 := by
  by_cases h : n.isValidChar
  · have hvalid : Char.ofNat n = Char.ofNatAux n h := dif_pos h
    rw [hvalid]
    exact Or.inl rfl
  · have hnull : Char.ofNat n = '\x00' := dif_neg h
    rw [hnull]
    exact Or.inr rfl

theorem not_isSign_ofNat {n : Nat} (h : 0x41 ≤ n) : ¬ IsSign (Char.ofNat n) := by
  rintro ⟨hpos, hlow⟩
  rcases toNat_ofNat_eq n with hn | hn <;> omega

theorem lowerChar_sign (h : IsSign c) : lowerChar c = [c] := by
  obtain ⟨-, hlow⟩ := h
  have hascii : c.toNat < 0x80 := by omega
  have hnot : ¬ (0x41 ≤ c.toNat && c.toNat ≤ 0x5A) = true := by simp; omega
  rw [lowerChar, if_pos hascii, if_neg hnot]

/-- What a character becomes is the character itself or no sign. -/
theorem mem_lowerChar_cases (h : a ∈ lowerChar c) : a = c ∨ ¬ IsSign a := by
  rw [lowerChar] at h
  -- ASCII, the dotted capital I, and the runs of the table, none of which leads below the letters
  split at h
  · split at h
    · next hupper =>
      rw [Bool.and_eq_true, decide_eq_true_eq] at hupper
      obtain rfl := List.mem_singleton.1 h
      exact Or.inr (not_isSign_ofNat (by omega))
    · exact Or.inl (List.mem_singleton.1 h)
  · split at h
    · refine Or.inr ?_
      rcases List.mem_pair.1 h with rfl | rfl <;> decide
    · split at h
      · next r hr =>
        have hhigh := lowerRuns_high r (List.mem_of_find?_eq_some hr)
        have hholds := List.find?_some hr
        rw [CaseRun.holds, Bool.and_eq_true, Bool.and_eq_true, decide_eq_true_eq] at hholds
        obtain rfl := List.mem_singleton.1 h
        exact Or.inr (not_isSign_ofNat (by omega))
      · exact Or.inl (List.mem_singleton.1 h)

theorem lowerChar_ne_nil (c : Char) : lowerChar c ≠ [] := by
  rw [lowerChar]
  split
  · split <;> exact List.cons_ne_nil _ _
  · split
    · exact List.cons_ne_nil _ _
    · split <;> exact List.cons_ne_nil _ _

theorem foldSigma_sign (h : IsSign c) : foldSigma c = c := by
  refine if_neg ?_
  rintro rfl
  exact absurd h (by decide)

theorem folded_cons_sign (h : IsSign c) (t : Text) : folded (c :: t) = c :: folded t := by
  rw [folded_cons, lowerChar_sign h, List.map_singleton, foldSigma_sign h, List.singleton_append]

/-- What another character becomes has no sign. -/
theorem not_mem_map_lowerChar (ha : IsSign a) (hc : ¬ IsSign c) :
    a ∉ (lowerChar c).map foldSigma := by
  intro hmem
  obtain ⟨x, hx, hfold⟩ := List.mem_map.1 hmem
  have hself : a = x := by
    rw [foldSigma] at hfold
    split at hfold
    · rw [← hfold] at ha
      exact absurd ha (by decide)
    · exact hfold.symm
  subst hself
  rcases mem_lowerChar_cases hx with rfl | hnot
  · exact hc ha
  · exact hnot ha

theorem prefix_folded_iff (hw : ∀ a ∈ w, IsSign a) : w <+: folded t ↔ w <+: t := by
  induction t generalizing w with
  | nil => rfl
  | cons c t ih =>
    cases w with
    | nil => exact iff_of_true List.nil_prefix List.nil_prefix
    | cons a w =>
      obtain ⟨ha, hrest⟩ := List.forall_mem_cons.1 hw
      by_cases hc : IsSign c
      · rw [folded_cons_sign hc, List.cons_prefix_cons, List.cons_prefix_cons, ih hrest]
      · have hlower := not_mem_map_lowerChar ha hc
        obtain ⟨x, l, hl⟩ := List.exists_cons_of_ne_nil (lowerChar_ne_nil c)
        rw [hl, List.map_cons, List.mem_cons, not_or] at hlower
        rw [folded_cons, hl, List.map_cons, List.cons_append, List.cons_prefix_cons,
          List.cons_prefix_cons]
        refine iff_of_false (fun h => hlower.1 h.1) ?_
        rintro ⟨rfl, -⟩
        exact hc ha

theorem infix_folded_iff (hw : ∀ a ∈ w, IsSign a) : w <:+: folded t ↔ w <:+: t := by
  induction t with
  | nil => rfl
  | cons c t ih =>
    -- a sign may start an occurrence; what is no sign is passed over on both sides
    by_cases hc : IsSign c
    · rw [folded_cons_sign hc, List.infix_cons_iff, List.infix_cons_iff, ih,
        ← folded_cons_sign hc, prefix_folded_iff hw]
    · cases w with
      | nil => exact iff_of_true List.nil_infix List.nil_infix
      | cons a w =>
        have ha := (List.forall_mem_cons.1 hw).1
        have hne : a ∉ [c] := by
          intro hmem
          obtain rfl := List.mem_singleton.1 hmem
          exact hc ha
        have hskip : a :: w <:+: c :: t ↔ a :: w <:+: t :=
          infix_append_iff_of_not_mem (p := [c]) hne
        rw [folded_cons, infix_append_iff_of_not_mem (not_mem_map_lowerChar ha hc), ih, hskip]

/-- Signs are found in the lower case of a text where the text has them. -/
theorem infix_lower_iff_of_signs (hw : ∀ a ∈ w, IsSign a) : w <:+: t.lower ↔ w <:+: t := by
  have hfinal : 'ς' ∉ w := fun hmem => absurd (hw _ hmem) (by decide)
  have hplain : 'σ' ∉ w := fun hmem => absurd (hw _ hmem) (by decide)
  rw [infix_lower_iff hfinal hplain, infix_folded_iff hw]

theorem mem_lower_iff (ha : IsSign a) : a ∈ t.lower ↔ a ∈ t := by
  rw [← List.singleton_infix_iff, ← List.singleton_infix_iff]
  exact infix_lower_iff_of_signs (by simpa using ha)

/-! ### Parts of a text -/

theorem meetsCased_cons (c : Char) (t : Text) :
    meetsCased (c :: t) = if isCaseIgnorable c then meetsCased t else isCased c := by
  rw [meetsCased, List.dropWhile_cons]
  by_cases h : isCaseIgnorable c = true
  · rw [if_pos h, if_pos h, meetsCased]
  · rw [if_neg h, if_neg h]

theorem meetsCased_append {u : Text} (hu : meetsCased u = false) (t : Text) :
    meetsCased (t ++ u) = meetsCased t := by
  induction t with
  | nil => exact hu
  | cons c t ih => rw [List.cons_append, meetsCased_cons, meetsCased_cons, ih]

/-- A part is mapped without regard to what stands behind it, if no cased character follows. -/
theorem lowerAfter_append {u : Text} (hu : meetsCased u = false) (before t : Text) :
    lowerAfter before (t ++ u) = lowerAfter before t ++ lowerAfter (t.reverse ++ before) u := by
  induction t generalizing before with
  | nil => rfl
  | cons c t ih =>
    rw [List.cons_append, lowerAfter, lowerAfter, ih, meetsCased_append hu, List.reverse_cons,
      List.append_assoc, List.append_assoc, List.singleton_append]

theorem lowerAfter_context {before : Text} (hbefore : meetsCased before = false) (near t : Text) :
    lowerAfter (near ++ before) t = lowerAfter near t := by
  induction t generalizing near with
  | nil => rfl
  | cons c t ih =>
    rw [lowerAfter, lowerAfter, meetsCased_append hbefore, ← List.cons_append, ih]

theorem lowerAfter_suffix (before p x : Text) :
    lowerAfter (p.reverse ++ before) x <:+ lowerAfter before (p ++ x) := by
  induction p generalizing before with
  | nil => exact List.suffix_rfl
  | cons c p ih =>
    rw [List.cons_append, lowerAfter, List.reverse_cons, List.append_assoc]
    exact (ih (c :: before)).trans (List.suffix_append _ _)

/-- A part of a text that no cased character touches has the lower case there that it has alone. -/
theorem lower_infix_lower {p u : Text} (hp : meetsCased p.reverse = false)
    (hu : meetsCased u = false) (t : Text) : t.lower <:+: (p ++ (t ++ u)).lower := by
  have hsuffix := lowerAfter_suffix [] p (t ++ u)
  have halone : lowerAfter p.reverse t = t.lower := lowerAfter_context hp [] t
  rw [List.append_nil, lowerAfter_append hu, halone] at hsuffix
  exact (List.prefix_append _ _).isInfix.trans hsuffix.isInfix

/-! ### Letters of ASCII -/

theorem lowerChar_ascii (h : c.toNat < 0x80) : lowerChar c = [c.toLower] := by
  have hall : ∀ n < 0x80, lowerChar (Char.ofNat n) = [(Char.ofNat n).toLower] := by
    decide +kernel
  have hc := hall c.toNat h
  rwa [Char.ofNat_toNat] at hc

theorem lower_ascii (h : ∀ c ∈ t, c.toNat < 0x80) : t.lower = t.map Char.toLower := by
  have hsigma : 'Σ' ∉ t := fun hmem => absurd (h _ hmem) (by decide)
  have hlower := lower_append_of_noSigma hsigma []
  rw [List.append_nil, lowerAfter, List.append_nil] at hlower
  rw [hlower, List.map_eq_flatMap]
  exact List.flatMap_congr fun c hc => lowerChar_ascii (h c hc)

theorem toNat_lt_of_toLower (h : c.toLower.toNat < 0x80) : c.toNat < 0x80 := by
  by_contra hc
  have hself : c.toLower = c := by
    refine dif_neg ?_
    rintro ⟨-, hupper⟩
    exact hc (Nat.lt_of_le_of_lt (UInt32.le_iff_toNat_le.1 hupper) (by decide))
  exact hc (hself ▸ h)

end Text

end LuaReference
