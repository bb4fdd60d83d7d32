import LuaReference.Files.Change
import LuaReference.Proofs.Path.Components

/-!
# Places of paths

Where a path leads to when no link turns it: the place that its components, read one after the
other, come to. A walk along the steps of a path comes to the same place, and so does every path
with the same components.
-/

namespace LuaReference

/-- The place that a component leads to from a place. -/
def Component.enter (names : List Text) : Component → List Text
  | root => []
  | here => names
  | up => names.dropLast
  | name n => names ++ [n]

/-- The place of a path when relative paths start at `here`. -/
def Path.place (p : Path) (here : List Text) : List Text := p.components.foldl Component.enter here

/-- The places that a walk along a path comes to, its end included. -/
def Path.Passes (p : Path) (here place : List Text) : Prop :=
  ∃ cs, cs <+: p.components ∧ place = cs.foldl Component.enter here

/-- Two places neither of which is at or below the other. -/
def Apart (x y : List Text) : Prop := ¬ x <+: y ∧ ¬ y <+: x

instance (x y : List Text) : Decidable (Apart x y) := inferInstanceAs (Decidable (_ ∧ _))

theorem Apart.symm {x y : List Text} (h : Apart x y) : Apart y x := ⟨h.2, h.1⟩

theorem Apart.append_left {x y : List Text} (h : Apart x y) (z : List Text) :
    Apart (x ++ z) y := by
  refine ⟨fun hxy => h.1 ((List.prefix_append x z).trans hxy), ?_⟩
  intro hyx
  rcases List.prefix_or_prefix_of_prefix hyx (List.prefix_append x z) with hy | hx
  · exact h.2 hy
  · exact h.1 hx

theorem Apart.append_right {x y : List Text} (h : Apart x y) (z : List Text) :
    Apart x (y ++ z) :=
  (h.symm.append_left z).symm

theorem Apart.not_prefix_append {x y : List Text} (h : Apart x y) (z : List Text) :
    ¬ x <+: y ++ z :=
  (h.append_right z).1

theorem Apart.not_prefix {x y z : List Text} (h : Apart x y) (hx : x <+: z) : ¬ y <+: z := by
  obtain ⟨below, rfl⟩ := hx
  exact h.symm.not_prefix_append below

theorem apart_concat {x : List Text} {m n : Text} (h : m ≠ n) : Apart (x ++ [m]) (x ++ [n]) := by
  constructor
  · intro hp
    have hlast := hp.eq_of_length (by simp)
    exact h (by simpa using hlast)
  · intro hp
    have hlast := hp.eq_of_length (by simp)
    exact h.symm (by simpa using hlast)

namespace Path

theorem foldl_enter_lead (p : Path) (here : List Text) :
    p.lead.foldl Component.enter here = FileTree.origin p here := by
  rw [lead, FileTree.origin]
  split
  · rfl
  · split <;> rfl

theorem place_eq (p : Path) (here : List Text) :
    p.place here = p.inner.foldl Component.enter (FileTree.origin p here) := by
  rw [place, components_eq, List.foldl_append, foldl_enter_lead]

theorem place_of_relative {p : Path} (h : p.isAbsolute = false) (here : List Text) :
    p.place here = p.inner.foldl Component.enter here := by
  rw [place_eq, FileTree.origin, if_neg (by simp [h])]

theorem foldl_enter_names (names here : List Text) :
    (names.map Component.name).foldl Component.enter here = here ++ names := by
  induction names generalizing here with
  | nil => simp
  | cons n names ih =>
    rw [List.map_cons, List.foldl_cons, Component.enter, ih, List.append_assoc]
    rfl

/-! ### Paths that consist of names -/

theorem lead_of_names {p : Path} {names : List Text}
    (h : p.components = names.map Component.name) : p.lead = [] := by
  rcases lead_eq_nil_or p with hlead | hlead | hlead
  · exact hlead
  all_goals
    rw [components_eq, hlead] at h
    cases names <;> cases h

theorem inner_of_names {p : Path} {names : List Text}
    (h : p.components = names.map Component.name) : p.inner = names.map Component.name := by
  have hlead := lead_of_names h
  rw [components_eq, hlead] at h
  exact h

theorem isAbsolute_of_names {p : Path} {names : List Text}
    (h : p.components = names.map Component.name) : p.isAbsolute = false := by
  have hroot : Component.root ∉ p.components := by
    rw [h]
    simp
  rw [← Bool.not_eq_true, isAbsolute_iff]
  exact hroot

/-! ### Joined paths -/

theorem place_join (p : Path) {q : Path} (hq : q.isAbsolute = false) (here : List Text) :
    (p.join q).place here = q.inner.foldl Component.enter (p.place here) := by
  by_cases hp : p.text = []
  · have hplace : p.place here = here := by
      obtain ⟨text⟩ := p
      obtain rfl : text = [] := hp
      rfl
    rw [join_of_text_nil hp, hplace, place_of_relative hq]
  · rw [place, components_join hp hq, List.foldl_append]
    rfl

/-- A path that consists of names leads down from the directory that it is joined to. -/
theorem place_join_names (p : Path) {q : Path} {names : List Text}
    (h : q.components = names.map Component.name) (here : List Text) :
    (p.join q).place here = p.place here ++ names := by
  rw [place_join p (isAbsolute_of_names h), inner_of_names h, foldl_enter_names]

theorem place_child (p : Path) {n : Text} (hn : n.IsName) (here : List Text) :
    (p.child n).place here = p.place here ++ [n] := by
  rw [child, place_join p (isAbsolute_of_isName hn), inner_of_isName hn]
  rfl

/-- The path of an entry below a directory, by the names that lead to it. -/
def descend (p : Path) (names : List Text) : Path := names.foldl child p

theorem descend_cons (p : Path) (n : Text) (names : List Text) :
    p.descend (n :: names) = (p.child n).descend names := rfl

theorem descend_concat (p : Path) (names : List Text) (n : Text) :
    p.descend (names ++ [n]) = (p.descend names).child n := by
  rw [descend, List.foldl_append]
  rfl

theorem place_descend (p : Path) {names : List Text} (h : ∀ n ∈ names, n.IsName)
    (here : List Text) : (p.descend names).place here = p.place here ++ names := by
  induction names generalizing p with
  | nil => exact (List.append_nil _).symm
  | cons n names ih =>
    rw [descend_cons, ih (p.child n) fun m hm => h m (List.mem_cons_of_mem n hm),
      place_child p (h n List.mem_cons_self), List.append_assoc]
    rfl

theorem components_descend (p : Path) {names : List Text} (h : ∀ n ∈ names, n.IsName) :
    (p.descend names).components = p.components ++ names.map Component.name := by
  induction names generalizing p with
  | nil => exact (List.append_nil _).symm
  | cons n names ih =>
    have hn : n.IsName := h n List.mem_cons_self
    have hrest : ∀ m ∈ names, m.IsName := fun m hm => h m (List.mem_cons_of_mem n hm)
    rw [descend_cons, ih (p.child n) hrest, components_child p hn, List.append_assoc]
    rfl

/-! ### The way along a path -/

theorem passes_place (p : Path) (here : List Text) : p.Passes here (p.place here) :=
  ⟨p.components, List.prefix_rfl, rfl⟩

theorem Passes.mono {p q : Path} {here place : List Text} (h : p.Passes here place)
    (hpq : p.components <+: q.components) : q.Passes here place := by
  obtain ⟨cs, hcs, rfl⟩ := h
  exact ⟨cs, hcs.trans hpq, rfl⟩

theorem prefix_of_mem_chain {n : Nat} {p q : Path} (h : q ∈ p.chain n) :
    q.components <+: p.components := by
  induction n generalizing p with
  | zero =>
    rw [chain, List.mem_singleton] at h
    exact h ▸ List.prefix_rfl
  | succ n ih =>
    rw [chain] at h
    rcases List.mem_cons.1 h with rfl | h
    · exact List.prefix_rfl
    · cases hparent : p.parent? with
      | none => simp [hparent] at h
      | some above =>
        rw [hparent] at h
        obtain ⟨c, hc⟩ := components_parent? hparent
        rw [hc]
        exact (ih h).trans (List.prefix_append _ _)

theorem passes_of_mem_ancestors {p q : Path} (h : q ∈ p.ancestors) (here : List Text) :
    p.Passes here (q.place here) :=
  (q.passes_place here).mono (prefix_of_mem_chain h)

/-- On the way along a path whose end consists of names, a place lies on the way to the directory
in front of them, or between it and the end. -/
theorem Passes.exists_names {p q : Path} {names here place : List Text} (h : q.Passes here place)
    (hq : q.components = p.components ++ names.map Component.name) :
    p.Passes here place ∨ ∃ below, below <+: names ∧ place = p.place here ++ below := by
  obtain ⟨cs, hcs, rfl⟩ := h
  rw [hq] at hcs
  rcases List.prefix_or_prefix_of_prefix hcs (List.prefix_append p.components _) with hle | hge
  · exact Or.inl ⟨cs, hle, rfl⟩
  · right
    obtain ⟨rest, rfl⟩ := hge
    rw [List.prefix_append_right_inj] at hcs
    obtain ⟨below, hbelow, rfl⟩ := List.prefix_map_iff.1 hcs
    refine ⟨below, hbelow, ?_⟩
    rw [List.foldl_append, foldl_enter_names]
    rfl

theorem Passes.append_names {p q : Path} {names here place : List Text} (h : q.Passes here place)
    (hq : q.components = p.components ++ names.map Component.name) :
    p.Passes here place ∨ p.place here <+: place := by
  refine (h.exists_names hq).imp_right ?_
  rintro ⟨below, -, rfl⟩
  exact List.prefix_append _ _

end Path

/-! ### Steps of a walk -/

/-- Where one step of a walk leads to when there is no link. -/
def enterStep (names : List Text) (s : Text) : List Text :=
  if s = [] ∨ s = ['.'] then names
  else if s = ['.', '.'] then names.dropLast
  else names ++ [s]

theorem foldl_enterStep_pieces (pieces names : List Text) :
    pieces.foldl enterStep names =
      (pieces.filterMap Component.ofPiece).foldl Component.enter names := by
  induction pieces generalizing names with
  | nil => rfl
  | cons s pieces ih =>
    rw [List.foldl_cons, ih, List.filterMap_cons, enterStep, Component.ofPiece]
    split
    · rfl
    · split <;> rfl

theorem foldl_enterStep_empty {steps : List Text} (h : steps.all List.isEmpty = true)
    (names : List Text) : steps.foldl enterStep names = names := by
  induction steps with
  | nil => rfl
  | cons s steps ih =>
    rw [List.all_cons, Bool.and_eq_true, List.isEmpty_iff] at h
    rw [List.foldl_cons, enterStep, if_pos (Or.inl h.1)]
    exact ih h.2

theorem filterMap_filter_ne_nil (pieces : List Text) :
    (pieces.filter (· ≠ [])).filterMap Component.ofPiece =
      pieces.filterMap Component.ofPiece := by
  rw [List.filterMap_filter]
  refine List.filterMap_congr fun piece _ => ?_
  cases piece with
  | nil => rfl
  | cons c piece => simp

/-- The steps of a path lead to its place. -/
theorem Path.foldl_enterStep_steps (p : Path) (here : List Text) :
    p.steps.foldl enterStep (FileTree.origin p here) = p.place here := by
  have htrailing : ∀ names : List Text,
      (if p.text.getLast? = some '/' then [[]] else []).foldl enterStep names = names := by
    intro names
    split <;> rfl
  rw [steps, List.foldl_append, htrailing, foldl_enterStep_pieces, filterMap_filter_ne_nil,
    place_eq]
  rfl

end LuaReference
