/-!
# Texts

A text is the list of its characters. This module holds the operations that the rest of the
library reads texts with: searching, cutting at a separator, joining, and cutting into lines.
The main facts: `contains_iff` (searching finds exactly the factors), `splitFirst_eq_some_iff`
(a cut is made at the first separator), and `lines_append` (a terminated text contributes its
own lines, whatever follows).
-/

namespace LuaReference

abbrev Text := List Char

namespace Text

def ofNat (n : Nat) : Text := (toString n).toList

/-! ### Searching -/

/-- Whether `p` occurs in the text as a run of adjacent characters. -/
def contains : (t p : Text) → Bool
  | [], p => p.isEmpty
  | c :: t, p => p.isPrefixOf (c :: t) || contains t p

theorem contains_iff {t p : Text} : t.contains p = true ↔ p <:+: t := by
  induction t with
  | nil => simp [contains]
  | cons c t ih => simp [contains, ih, List.infix_cons_iff]

def dropLeading? : (t p : Text) → Option Text
  | t, [] => some t
  | [], _ :: _ => none
  | c :: t, a :: p => if a = c then dropLeading? t p else none

theorem dropLeading?_eq_some_iff {t p r : Text} : t.dropLeading? p = some r ↔ t = p ++ r := by
  induction p generalizing t with
  | nil => simp [dropLeading?, eq_comm]
  | cons a p ih =>
    cases t with
    | nil => simp [dropLeading?]
    | cons c t =>
      by_cases h : a = c
      · simp [dropLeading?, h, ih]
      · simp [dropLeading?, h, Ne.symm h]

/-! ### Cutting at a separator -/

/-- The text before and after its first `sep`; `none` when there is none. -/
def splitFirst (sep : Char) : Text → Option (Text × Text)
  | [] => none
  | c :: t => if c = sep then some ([], t) else (splitFirst sep t).map fun (a, b) => (c :: a, b)

theorem splitFirst_eq_some_iff {sep : Char} {t a b : Text} :
    splitFirst sep t = some (a, b) ↔ t = a ++ sep :: b ∧ sep ∉ a := by
  induction t generalizing a with
  | nil => simp [splitFirst]
  | cons c t ih =>
    by_cases h : c = sep
    · subst h
      cases a with
      | nil => simp [splitFirst]
      | cons x a =>
        simp only [splitFirst, if_true, Option.some.injEq, Prod.mk.injEq, List.mem_cons]
        constructor
        · intro ⟨h, _⟩; cases h
        · rintro ⟨h, hn⟩
          injection h with h _
          exact absurd (Or.inl h) hn
    · cases a with
      | nil =>
        simp only [splitFirst, if_neg h, Option.map_eq_some_iff]
        constructor
        · rintro ⟨_, _, h⟩; cases h
        · rintro ⟨h', _⟩
          injection h' with h' _
          exact absurd h' h
      | cons x a =>
        simp only [splitFirst, if_neg h, Option.map_eq_some_iff, Prod.exists, Prod.mk.injEq,
          List.cons.injEq, List.cons_append, List.mem_cons, not_or]
        constructor
        · rintro ⟨a', b', hs, ⟨rfl, rfl⟩, rfl⟩
          obtain ⟨rfl, hn⟩ := ih.1 hs
          exact ⟨⟨rfl, rfl⟩, Ne.symm h, hn⟩
        · rintro ⟨⟨rfl, rfl⟩, _, hn⟩
          exact ⟨a, b, ih.2 ⟨rfl, hn⟩, ⟨rfl, rfl⟩, rfl⟩

theorem splitFirst_eq_none_iff {sep : Char} {t : Text} : splitFirst sep t = none ↔ sep ∉ t := by
  induction t with
  | nil => simp [splitFirst]
  | cons c t ih =>
    by_cases h : c = sep
    · simp [splitFirst, h]
    · simp [splitFirst, h, ih, Ne.symm h]

/-- What follows the first `sep` of a text; nothing when there is none. -/
def behindFirst (sep : Char) (t : Text) : Text :=
  match splitFirst sep t with
  | none => []
  | some (_, b) => b

/-- At most `n + 1` pieces between separators; the last keeps every further separator. -/
def splitAtMost (sep : Char) : Nat → Text → List Text
  | 0, t => [t]
  | n + 1, t =>
    match splitFirst sep t with
    | none => [t]
    | some (a, b) => a :: splitAtMost sep n b

/-- All pieces between separators. There is one more piece than there are separators. -/
def splitAll (sep : Char) : Text → List Text
  | [] => [[]]
  | c :: t =>
    if c = sep then [] :: splitAll sep t
    else match splitAll sep t with
      | [] => [[c]]
      | p :: ps => (c :: p) :: ps

theorem splitAll_ne_nil (sep : Char) (t : Text) : splitAll sep t ≠ [] := by
  cases t with
  | nil => simp [splitAll]
  | cons c t =>
    simp only [splitAll]
    split
    · simp
    · split <;> simp

/-! ### Joining -/

def join (sep : Text) : List Text → Text
  | [] => []
  | [p] => p
  | p :: q :: ps => p ++ sep ++ join sep (q :: ps)

/-! ### Lines -/

/-- The lines of a text: each line feed ends one, and what follows the last line feed is a line
of its own unless it is empty. A carriage return stays at the end of its line. -/
def lines : Text → List Text
  | [] => []
  | c :: t =>
    if c = '\n' then [] :: lines t
    else match t with
      | [] => [[c]]
      | d :: t' =>
        if d = '\n' then [c] :: lines t'
        else match lines (d :: t') with
          | [] => [[c]]
          | l :: ls => (c :: l) :: ls

theorem lines_newline (t : Text) : lines ('\n' :: t) = [] :: lines t := by
  cases t <;> simp [lines]

theorem lines_cons_of_ne {c : Char} (h : c ≠ '\n') (t : Text) :
    lines (c :: t) = match lines t with
      | [] => [[c]]
      | l :: ls => (c :: l) :: ls := by
  cases t with
  | nil => simp [lines, h]
  | cons d t =>
    by_cases hd : d = '\n'
    · subst hd; cases t <;> simp [lines, h]
    · simp [lines, h, hd]

/-- A text without line feeds, once terminated, is one line; the rest keeps its lines. -/
theorem lines_append {l : Text} (h : '\n' ∉ l) (t : Text) :
    lines (l ++ '\n' :: t) = l :: lines t := by
  induction l with
  | nil => exact lines_newline t
  | cons c l ih =>
    have hc : c ≠ '\n' := fun e => h (by simp [e])
    have hl : '\n' ∉ l := fun e => h (List.mem_cons_of_mem _ e)
    rw [List.cons_append, lines_cons_of_ne hc, ih hl]

end Text

end LuaReference
