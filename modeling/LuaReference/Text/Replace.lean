import LuaReference.Text.Basic

/-!
# Replacement

Replacing every occurrence of a pattern, from left to right and without overlaps. The main
facts: `replace_pattern` (an occurrence at the front is replaced and the search goes on behind
it) and `replace_of_not_contains` (a text without the pattern stays as it is).
-/

namespace LuaReference

namespace Text

/-- Replacement in a text whose first `skip` characters belong to an occurrence already replaced. -/
def replaceFrom (p r : Text) : (skip : Nat) → Text → Text
  | _, [] => []
  | 0, c :: t =>
    if p.isPrefixOf (c :: t) then r ++ replaceFrom p r (p.length - 1) t
    else c :: replaceFrom p r 0 t
  | k + 1, _ :: t => replaceFrom p r k t

/-- The text with each occurrence of the non-empty pattern `p` replaced by `r`, from left to
right and without overlaps. -/
def replace (t p r : Text) : Text := replaceFrom p r 0 t

theorem replaceFrom_eq_drop (p r : Text) (k : Nat) (t : Text) :
    replaceFrom p r k t = replaceFrom p r 0 (t.drop k) := by
  induction k generalizing t with
  | zero => simp
  | succ k ih =>
    cases t with
    | nil => simp [replaceFrom]
    | cons c t => simp [replaceFrom, ih]

@[simp]
theorem replace_nil (p r : Text) : replace [] p r = [] := by simp [replace, replaceFrom]

/-- An occurrence at the front is replaced, and the search goes on behind it. -/
theorem replace_pattern {p : Text} (hp : p ≠ []) (r t : Text) :
    replace (p ++ t) p r = r ++ replace t p r := by
  cases p with
  | nil => exact absurd rfl hp
  | cons a p =>
    simp [replace, replaceFrom, replaceFrom_eq_drop _ _ p.length]

theorem replace_cons {p : Text} {c : Char} {t : Text} (h : ¬ p <+: c :: t) (r : Text) :
    replace (c :: t) p r = c :: replace t p r := by
  have hb : p.isPrefixOf (c :: t) = false := by
    rw [Bool.eq_false_iff, ne_eq, List.isPrefixOf_iff_prefix]
    exact h
  simp [replace, replaceFrom, hb]

theorem replace_of_not_contains {p : Text} (r : Text) {t : Text} (h : ¬ p <:+: t) :
    replace t p r = t := by
  induction t with
  | nil => simp
  | cons c t ih =>
    rw [List.infix_cons_iff, not_or] at h
    rw [replace_cons h.1, ih h.2]

end Text

end LuaReference
