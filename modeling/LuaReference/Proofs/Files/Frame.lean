import LuaReference.Files.Change

/-!
# What a change leaves alone

A change of an entry that is no directory is seen at its own place only: everywhere else the same
files and links stay, and directories stay directories.
-/

namespace LuaReference

namespace Entry

/-- An entry without what is in it: all directories have one shape. -/
def shape : Entry → Entry
  | directory _ => directory .empty
  | e => e

def Bare (v : Option Entry) : Prop := ∀ d, v = some (directory d) → d = .empty

theorem bare_file (v : Option ByteArray) : Bare (v.map file) := by
  intro d h
  cases v <;> cases h

theorem bare_newDirectory : Bare (some (directory .empty)) := by
  intro d h
  cases h
  rfl

theorem at?_append (xs ys : List Text) (root : Entry) :
    root.at? (xs ++ ys) = (root.at? xs).bind (at? ys) := by
  induction xs generalizing root with
  | nil => rfl
  | cons x xs ih =>
    cases root with
    | file b => rfl
    | link target => rfl
    | directory d =>
      rw [List.cons_append, at?, at?, Option.bind_assoc]
      exact Option.bind_congr fun e _ => ih e

theorem exists_directory_of_at? {xs : List Text} {x : Text} {root e : Entry}
    (h : root.at? (xs ++ [x]) = some e) : ∃ d, root.at? xs = some (directory d) := by
  rw [at?_append] at h
  obtain ⟨above, habove, hx⟩ := Option.bind_eq_some_iff.1 h
  cases above with
  | file b => cases hx
  | link target => cases hx
  | directory d => exact ⟨d, habove⟩

theorem at?_of_not_directory {e : Entry} (h : ∀ d, e ≠ directory d) (x : Text) (xs : List Text) :
    at? (x :: xs) e = none := by
  cases e with
  | file b => rfl
  | link target => rfl
  | directory d => exact absurd rfl (h d)

/-- Only directories have something below them. -/
theorem eq_nil_of_at? {e found : Entry} (hkind : e.isDirectory = false) {names : List Text}
    (h : e.at? names = some found) : names = [] := by
  have hne : ∀ d, e ≠ directory d := by
    rintro d rfl
    cases hkind
  cases names with
  | nil => rfl
  | cons n names =>
    rw [at?_of_not_directory hne] at h
    cases h

theorem at?_of_bare {e : Entry} (h : Bare (some e)) (x : Text) (xs : List Text) :
    at? (x :: xs) e = none := by
  cases e with
  | file b => rfl
  | link target => rfl
  | directory d =>
    rw [h d rfl]
    rfl

theorem setAt_of_not_directory {e : Entry} (h : ∀ d, e ≠ directory d) (v : Option Entry)
    (x : Text) (xs : List Text) : setAt v (x :: xs) e = e := by
  cases e with
  | file b => cases xs <;> rfl
  | link target => cases xs <;> rfl
  | directory d => exact absurd rfl (h d)

/-- A change below a directory keeps the directory and every name but one. -/
theorem exists_setAt_directory (v : Option Entry) (x : Text) (xs : List Text) (d : Directory) :
    ∃ d', setAt v (x :: xs) (directory d) = directory d' ∧
      ∀ y, y ≠ x → d'.find? y = d.find? y := by
  cases xs with
  | nil => exact ⟨d.set x v, rfl, fun y hy => Directory.find?_set_of_ne hy.symm v d⟩
  | cons z zs =>
    rw [setAt]
    cases hd : d.find? x with
    | none => exact ⟨d, rfl, fun _ _ => rfl⟩
    | some e => exact ⟨_, rfl, fun y hy => Directory.find?_set_of_ne hy.symm _ d⟩

/-- A change below an entry is a change of that entry. -/
theorem at?_setAt_append {xs ys : List Text} {root e : Entry} (h : at? xs root = some e)
    (hne : ys ≠ []) (v : Option Entry) : at? xs (setAt v (xs ++ ys) root) = some (setAt v ys e) := by
  induction xs generalizing root with
  | nil =>
    cases h
    rfl
  | cons x xs ih =>
    obtain ⟨z, zs, hrest⟩ := List.exists_cons_of_ne_nil (l := xs ++ ys) (by simp [hne])
    rw [List.cons_append, hrest]
    cases root with
    | file b => cases h
    | link target => cases h
    | directory d =>
      rw [at?] at h
      obtain ⟨e', hx, h⟩ := Option.bind_eq_some_iff.1 h
      rw [setAt, hx, ← hrest]
      dsimp only
      rw [at?, Directory.find?_set_some_self]
      exact ih h

theorem at?_below_of_not_directory {d : Directory} {x : Text}
    (hx : ∀ d', d.find? x ≠ some (directory d')) (z : Text) (zs : List Text) :
    at? (x :: z :: zs) (directory d) = none := by
  rw [at?]
  cases hd : d.find? x with
  | none => rfl
  | some e =>
    refine at?_of_not_directory ?_ z zs
    rintro d' rfl
    exact hx d' hd

theorem at?_below_set_of_bare {v : Option Entry} (hv : Bare v) (d : Directory) (x z : Text)
    (zs : List Text) : at? (x :: z :: zs) (directory (d.set x v)) = none := by
  rw [at?]
  cases v with
  | none => rw [Directory.find?_set_none_self, Option.bind_none]
  | some e => rw [Directory.find?_set_some_self, Option.bind_some, at?_of_bare hv]

theorem shape_at?_setAt_of_ne {v : Option Entry} (hv : Bare v) {xs ys : List Text} {root : Entry}
    (hx : ∀ d, at? xs root ≠ some (directory d)) (hne : ys ≠ xs) :
    (at? ys (setAt v xs root)).map shape = (at? ys root).map shape := by
  induction xs generalizing ys root with
  | nil =>
    obtain ⟨y, ys, rfl⟩ := List.exists_cons_of_ne_nil hne
    have hroot : ∀ d, root ≠ directory d := fun d h => hx d (congrArg some h)
    rw [at?_of_not_directory hroot]
    cases v with
    | none => rw [setAt, Option.getD_none, at?_of_not_directory hroot]
    | some e => rw [setAt, Option.getD_some, at?_of_bare hv]
  | cons x xs ih =>
    by_cases hroot : ∀ d, root ≠ directory d
    · rw [setAt_of_not_directory hroot]
    obtain ⟨d, rfl⟩ : ∃ d, root = directory d := by
      simpa using hroot
    obtain ⟨d', hset, hfind⟩ := exists_setAt_directory v x xs d
    cases ys with
    | nil =>
      rw [hset]
      rfl
    | cons y ys =>
      by_cases hy : y = x
      · subst hy
        have hne' : ys ≠ xs := fun h => hne (congrArg (y :: ·) h)
        cases xs with
        | nil =>
          obtain ⟨z, zs, rfl⟩ := List.exists_cons_of_ne_nil hne'
          have hleaf : ∀ d', d.find? y ≠ some (directory d') := by
            intro d' h
            exact hx d' (by rw [at?, h]; rfl)
          rw [at?_below_of_not_directory hleaf, setAt, at?_below_set_of_bare hv]
        | cons z zs =>
          rw [setAt]
          cases hd : d.find? y with
          | none => rfl
          | some e =>
            have hx' : ∀ d', at? (z :: zs) e ≠ some (directory d') := by
              intro d' h
              exact hx d' (by rw [at?, hd]; exact h)
            rw [at?, Directory.find?_set_some_self, at?, hd]
            exact ih hx' hne'
      · rw [hset, at?, at?, hfind y hy]

theorem at?_setAt_none_self (xs : List Text) (x : Text) (root : Entry) :
    at? (xs ++ [x]) (setAt none (xs ++ [x]) root) = none := by
  induction xs generalizing root with
  | nil =>
    cases root with
    | file b => rfl
    | link target => rfl
    | directory d =>
      rw [List.nil_append, setAt, at?, Directory.find?_set_none_self]
      rfl
  | cons y ys ih =>
    obtain ⟨z, zs, hzs⟩ := List.exists_cons_of_ne_nil (l := ys ++ [x]) (by simp)
    rw [List.cons_append, hzs]
    cases root with
    | file b => rfl
    | link target => rfl
    | directory d =>
      rw [setAt]
      cases hd : d.find? y with
      | none =>
        rw [at?, hd]
        rfl
      | some e =>
        rw [at?, Directory.find?_set_some_self, Option.bind_some, ← hzs]
        exact ih e

end Entry

end LuaReference
