import LuaReference.Proofs.Text.Search

/-!
# Cutting a text at a pattern

A replacement cuts a text at the occurrences that it finds, from left to right and without
overlaps, and joins the pieces around something else: `join_cut`. A more careful replacement may
look at all that stands in front of an occurrence and leave it alone; it comes to the same text
exactly when it leaves none alone: `joinWhere_eq_join_iff`.
-/

namespace LuaReference

namespace Text

/-- The pieces of a text whose first `skip` characters belong to an occurrence of `p`. -/
def cutFrom (p : Text) : (skip : Nat) → Text → List Text
  | _, [] => [[]]
  | 0, c :: t =>
    if p.isPrefixOf (c :: t) then [] :: cutFrom p (p.length - 1) t
    else (cutFrom p 0 t).modifyHead (c :: ·)
  | k + 1, _ :: t => cutFrom p k t

/-- The pieces of the text between the occurrences of the non-empty pattern `p` that
`Text.replace` replaces. -/
def cut (t p : Text) : List Text := cutFrom p 0 t

/-- What stands in front of each separator when the pieces stand behind `left`, from the start
of the text on. -/
def fronts (sep left : Text) : List Text → List Text
  | [] => []
  | [_] => []
  | a :: b :: ps => (left ++ a) :: fronts sep (left ++ a ++ sep) (b :: ps)

/-- The pieces joined around `r` where `chosen` accepts all that stood in front of the separator
`p`, and around `p` elsewhere. -/
def joinWhere (chosen : Text → Bool) (p r left : Text) : List Text → Text
  | [] => []
  | [a] => a
  | a :: b :: ps =>
    a ++ (if chosen (left ++ a) then r else p) ++
      joinWhere chosen p r (left ++ a ++ p) (b :: ps)

variable {p : Text}

/-! ### The pieces -/

theorem cutFrom_eq_drop (p : Text) (k : Nat) (t : Text) :
    cutFrom p k t = cutFrom p 0 (t.drop k) := by
  induction k generalizing t with
  | zero => rw [List.drop_zero]
  | succ k ih =>
    cases t with
    | nil => simp [cutFrom]
    | cons c t => rw [cutFrom, ih, List.drop_succ_cons]

@[simp]
theorem cut_nil (p : Text) : cut [] p = [[]] := by simp [cut, cutFrom]

theorem cut_pattern (hp : p ≠ []) (t : Text) : cut (p ++ t) p = [] :: cut t p := by
  cases p with
  | nil => exact absurd rfl hp
  | cons a p => simp [cut, cutFrom, cutFrom_eq_drop _ p.length]

theorem cut_cons {c : Char} {t : Text} (h : ¬ p <+: c :: t) :
    cut (c :: t) p = (cut t p).modifyHead (c :: ·) := by
  have hfront : p.isPrefixOf (c :: t) = false := by
    rw [Bool.eq_false_iff, ne_eq, List.isPrefixOf_iff_prefix]
    exact h
  simp [cut, cutFrom, hfront]

/-- What holds of the empty text, and of a text when it holds behind the occurrence or the
character that it starts with, holds of every text. -/
theorem cut_induction {motive : Text → Prop} (hp : p ≠ []) (nil : motive [])
    (pattern : ∀ t, motive t → motive (p ++ t))
    (cons : ∀ c t, ¬ p <+: c :: t → motive t → motive (c :: t)) (t : Text) : motive t := by
  induction hn : t.length using Nat.strongRecOn generalizing t with
  | ind n ih =>
    by_cases hfront : p <+: t
    · obtain ⟨rest, rfl⟩ := hfront
      have hless : rest.length < n := by
        have hpos := List.length_pos_iff.2 hp
        rw [List.length_append] at hn
        omega
      exact pattern rest (ih _ hless rest rfl)
    · cases t with
      | nil => exact nil
      | cons c t =>
        have hless : t.length < n := by
          rw [List.length_cons] at hn
          omega
        exact cons c t hfront (ih _ hless t rfl)

theorem exists_cut (hp : p ≠ []) (t : Text) : ∃ a ps, cut t p = a :: ps := by
  induction t using cut_induction hp with
  | nil => exact ⟨[], [], cut_nil p⟩
  | pattern t _ => exact ⟨[], cut t p, cut_pattern hp t⟩
  | cons c t hfront ih =>
    obtain ⟨a, ps, hcut⟩ := ih
    exact ⟨c :: a, ps, by rw [cut_cons hfront, hcut, List.modifyHead_cons]⟩

theorem join_nil_cons (r : Text) {ps : List Text} (hne : ps ≠ []) :
    join r ([] :: ps) = r ++ join r ps := by
  cases ps with
  | nil => exact absurd rfl hne
  | cons q ps => rw [join, List.nil_append]

theorem join_cons_head (r : Text) (c : Char) (a : Text) (ps : List Text) :
    join r ((c :: a) :: ps) = c :: join r (a :: ps) := by
  cases ps with
  | nil => rfl
  | cons q ps => rfl

/-- A replacement joins the pieces around the new text. -/
theorem join_cut (hp : p ≠ []) (r t : Text) : join r (cut t p) = replace t p r := by
  induction t using cut_induction hp with
  | nil => rw [cut_nil, replace_nil, join]
  | pattern t ih =>
    obtain ⟨a, ps, hcut⟩ := exists_cut hp t
    have hne : cut t p ≠ [] := hcut ▸ List.cons_ne_nil a ps
    rw [cut_pattern hp, replace_pattern hp, join_nil_cons r hne, ih]
  | cons c t hfront ih =>
    obtain ⟨a, ps, hcut⟩ := exists_cut hp t
    rw [hcut] at ih
    rw [cut_cons hfront, replace_cons hfront, hcut, List.modifyHead_cons, join_cons_head, ih]

theorem replace_self (hp : p ≠ []) (t : Text) : replace t p p = t := by
  induction t using cut_induction hp with
  | nil => exact replace_nil p p
  | pattern t ih => rw [replace_pattern hp, ih]
  | cons c t hfront ih => rw [replace_cons hfront, ih]

/-- A text is cut exactly when the pattern occurs in it. -/
theorem exists_cut_eq_singleton_iff (hp : p ≠ []) {t : Text} :
    (∃ a, cut t p = [a]) ↔ ¬ p <:+: t := by
  induction t using cut_induction hp with
  | nil =>
    rw [List.infix_nil]
    exact ⟨fun _ => hp, fun _ => ⟨[], cut_nil p⟩⟩
  | pattern t _ =>
    obtain ⟨a, ps, hcut⟩ := exists_cut hp t
    rw [cut_pattern hp, hcut]
    have hinfix : p <:+: p ++ t := (List.prefix_append p t).isInfix
    constructor
    · rintro ⟨b, hb⟩
      cases hb
    · exact fun h => absurd hinfix h
  | cons c t hfront ih =>
    obtain ⟨a, ps, hcut⟩ := exists_cut hp t
    rw [List.infix_cons_iff, not_or, ← ih, cut_cons hfront, hcut, List.modifyHead_cons]
    constructor
    · rintro ⟨b, hb⟩
      rw [List.cons.injEq] at hb
      exact ⟨hfront, a, by rw [hb.2]⟩
    · rintro ⟨-, b, hb⟩
      rw [List.cons.injEq] at hb
      exact ⟨c :: a, by rw [hb.2]⟩

/-! ### What stands in front of the separators -/

/-- What stands between the last separator and this one goes in front of what is put here. -/
theorem append_infix_join {a : Text} {ps : List Text} (h : a ∈ ps.dropLast) (r : Text) :
    a ++ r <:+: join r ps := by
  induction ps with
  | nil => exact absurd h List.not_mem_nil
  | cons b ps ih =>
    cases ps with
    | nil => exact absurd h List.not_mem_nil
    | cons q ps =>
      rw [List.dropLast_cons_cons, List.mem_cons] at h
      rw [join]
      rcases h with rfl | h
      · exact (List.prefix_append (a ++ r) _).isInfix
      · exact (ih h).trans (List.suffix_append (b ++ r) _).isInfix

variable (chosen : Text → Bool) {r : Text}

theorem length_joinWhere_le (hle : p.length ≤ r.length) (left : Text) (ps : List Text) :
    (joinWhere chosen p r left ps).length ≤ (join r ps).length := by
  induction ps generalizing left with
  | nil => exact Nat.le_refl 0
  | cons a ps ih =>
    cases ps with
    | nil => exact Nat.le_refl a.length
    | cons q ps =>
      have hrest := ih (left ++ a ++ p)
      have hput : (if chosen (left ++ a) then r else p).length ≤ r.length := by
        split
        · exact Nat.le_refl r.length
        · exact hle
      simp only [joinWhere, join, List.length_append]
      omega

/-- Leaving an occurrence alone makes the text shorter, so it shows. -/
theorem joinWhere_eq_join_iff (hless : p.length < r.length) (left : Text) (ps : List Text) :
    joinWhere chosen p r left ps = join r ps ↔ ∀ front ∈ fronts p left ps, chosen front = true := by
  induction ps generalizing left with
  | nil => simp [joinWhere, join, fronts]
  | cons a ps ih =>
    cases ps with
    | nil => simp [joinWhere, join, fronts]
    | cons q ps =>
      rw [fronts, List.forall_mem_cons, ← ih (left ++ a ++ p), joinWhere, join]
      by_cases hchosen : chosen (left ++ a) = true
      · rw [if_pos hchosen, List.append_cancel_left_eq]
        exact ⟨fun h => ⟨hchosen, h⟩, fun h => h.2⟩
      · rw [if_neg hchosen]
        have hrest := length_joinWhere_le chosen (Nat.le_of_lt hless) (left ++ a ++ p) (q :: ps)
        constructor
        · intro h
          have hlength := congrArg List.length h
          simp only [List.length_append] at hlength
          omega
        · exact fun h => absurd h.1 hchosen

theorem le_length_replace (hp : p ≠ []) (hle : p.length ≤ r.length) (t : Text) :
    t.length ≤ (replace t p r).length := by
  induction t using cut_induction hp with
  | nil => exact Nat.zero_le _
  | pattern t ih =>
    rw [replace_pattern hp, List.length_append, List.length_append]
    omega
  | cons c t hfront ih =>
    rw [replace_cons hfront, List.length_cons, List.length_cons]
    omega

theorem length_replace_le (hp : p ≠ []) (hle : r.length ≤ p.length) (t : Text) :
    (replace t p r).length ≤ t.length := by
  induction t using cut_induction hp with
  | nil => exact Nat.le_of_eq (congrArg List.length (replace_nil p r))
  | pattern t ih =>
    rw [replace_pattern hp, List.length_append, List.length_append]
    omega
  | cons c t hfront ih =>
    rw [replace_cons hfront, List.length_cons, List.length_cons]
    omega

/-- A replacement changes every text that the pattern occurs in, unless it puts the pattern in
again. -/
theorem replace_eq_self_iff_eq_or (hp : p ≠ []) (t : Text) :
    replace t p r = t ↔ r = p ∨ ¬ p <:+: t := by
  induction t using cut_induction hp with
  | nil =>
    rw [replace_nil, List.infix_nil]
    exact iff_of_true rfl (Or.inr hp)
  | pattern t _ =>
    have hinfix : p <:+: p ++ t := (List.prefix_append p t).isInfix
    rw [replace_pattern hp, or_iff_left (not_not_intro hinfix)]
    constructor
    · -- whatever follows cannot make up for another length
      intro heq
      have hlength := congrArg List.length heq
      rw [List.length_append, List.length_append] at hlength
      have hsame : r.length = p.length := by
        rcases Nat.lt_trichotomy r.length p.length with hless | hsame | hmore
        · have hrest := length_replace_le hp (Nat.le_of_lt hless) t
          omega
        · exact hsame
        · have hrest := le_length_replace hp (Nat.le_of_lt hmore) t
          omega
      exact (List.append_inj heq hsame).1
    · rintro rfl
      rw [replace_self hp]
  | cons c t hfront ih =>
    rw [replace_cons hfront, List.cons.injEq, and_iff_right rfl, ih, List.infix_cons_iff,
      or_iff_right hfront]

/-- A replacement by something longer changes every text that the pattern occurs in. -/
theorem replace_eq_self_iff (hp : p ≠ []) (hless : p.length < r.length) {t : Text} :
    replace t p r = t ↔ ¬ p <:+: t := by
  have hne : r ≠ p := by
    rintro rfl
    exact absurd hless (Nat.lt_irrefl _)
  rw [replace_eq_self_iff_eq_or hp, or_iff_right hne]

/-- Putting the pattern in again keeps it there. -/
theorem infix_replace_iff (hp : p ≠ []) (hinside : p <:+: r) {t : Text} :
    p <:+: replace t p r ↔ p <:+: t := by
  constructor
  · intro h
    by_cases hmem : p <:+: t
    · exact hmem
    · rwa [replace_of_not_contains r hmem] at h
  · intro h
    obtain ⟨a, ps, hcut⟩ := exists_cut hp t
    cases ps with
    | nil => exact absurd h ((exists_cut_eq_singleton_iff hp).1 ⟨a, hcut⟩)
    | cons q ps =>
      rw [← join_cut hp, hcut]
      have hfront : a ∈ (a :: q :: ps).dropLast := by
        rw [List.dropLast_cons_cons]
        exact List.mem_cons_self
      exact (hinside.trans (List.suffix_append a r).isInfix).trans (append_infix_join hfront r)

/-! ### What a replacement leaves -/

/-- The end of a pattern in front of a replaced text stood in front of the text: it cannot reach into
what was put in, which does not have its last character and does not fit into it. -/
theorem prefix_of_prefix_replace {w : Text} (hp : p ≠ []) (hw : w <:+ p)
    (hlast : ∀ b, p.getLast? = some b → b ∉ r) (hother : ∃ c ∈ r, c ∉ p) {t : Text}
    (h : w <+: replace t p r) : w <+: t := by
  induction t using cut_induction hp generalizing w with
  | nil => rwa [replace_nil] at h
  | pattern t _ =>
    rw [replace_pattern hp] at h
    obtain rfl | ⟨init, b, rfl⟩ := List.eq_nil_or_concat w
    · exact List.nil_prefix
    · rw [List.concat_eq_append] at h hw
      exfalso
      rcases List.prefix_or_prefix_of_prefix h (List.prefix_append r _) with hinside | hacross
      · obtain ⟨before, rfl⟩ := hw
        refine hlast b ?_ (hinside.subset (by simp))
        rw [← List.append_assoc, List.getLast?_concat]
      · obtain ⟨c, hc, hnot⟩ := hother
        exact hnot (hw.subset (hacross.subset hc))
  | cons c t hfront ih =>
    rw [replace_cons hfront] at h
    cases w with
    | nil => exact List.nil_prefix
    | cons d w =>
      rw [List.cons_prefix_cons] at h ⊢
      exact ⟨h.1, ih ((List.suffix_cons d w).trans hw) h.2⟩

/-- What is put in makes no new occurrence with what stands around it, if it has neither the first nor
the last character of the pattern, and has a character that the pattern does not have. -/
theorem not_infix_replace (hp : p ≠ []) (hfirst : ∀ a, p.head? = some a → a ∉ r)
    (hlast : ∀ b, p.getLast? = some b → b ∉ r) (hother : ∃ c ∈ r, c ∉ p) (t : Text) :
    ¬ p <:+: replace t p r := by
  induction t using cut_induction hp with
  | nil =>
    rw [replace_nil, List.infix_nil]
    exact hp
  | pattern t ih =>
    obtain ⟨a, w, rfl⟩ := List.exists_cons_of_ne_nil hp
    rwa [replace_pattern hp, infix_append_iff_of_not_mem (hfirst a rfl)]
  | cons c t hfront ih =>
    rw [replace_cons hfront, List.infix_cons_iff, not_or]
    refine ⟨fun h => hfront ?_, ih⟩
    obtain ⟨a, w, rfl⟩ := List.exists_cons_of_ne_nil hp
    rw [List.cons_prefix_cons] at h ⊢
    exact ⟨h.1, prefix_of_prefix_replace hp (List.suffix_cons a w) hlast hother h.2⟩

end Text

end LuaReference
