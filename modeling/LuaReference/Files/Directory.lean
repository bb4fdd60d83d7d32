import LuaReference.Path

/-!
# Directories

A directory lists its entries: files with their bytes, symbolic links with their targets, and
directories. `at?` is the view of a directory by paths of names; `at?_setAt_self` says that a
change at a path is seen there.
-/

namespace LuaReference

instance decidableEqBytes : DecidableEq ByteArray := ByteArray.instDecidableEq

inductive Directory where
  | empty
  | file (name : Text) (bytes : ByteArray) (rest : Directory)
  | link (name : Text) (target : Path) (rest : Directory)
  | sub (name : Text) (inner rest : Directory)
  deriving DecidableEq, Inhabited

inductive Entry where
  | file (bytes : ByteArray)
  | link (target : Path)
  | directory (d : Directory)
  deriving DecidableEq, Inhabited

namespace Directory

def cons (name : Text) : Entry → Directory → Directory
  | .file bytes, rest => file name bytes rest
  | .link target, rest => link name target rest
  | .directory inner, rest => sub name inner rest

def find? : Directory → Text → Option Entry
  | empty, _ => none
  | file n b rest, x => if n = x then some (.file b) else rest.find? x
  | link n t rest, x => if n = x then some (.link t) else rest.find? x
  | sub n d rest, x => if n = x then some (.directory d) else rest.find? x

def set (x : Text) (v : Option Entry) : Directory → Directory
  | empty => match v with
    | none => empty
    | some e => cons x e empty
  | file n b rest =>
    if n = x then (match v with
      | none => rest.set x none
      | some e => cons x e rest)
    else file n b (rest.set x v)
  | link n t rest =>
    if n = x then (match v with
      | none => rest.set x none
      | some e => cons x e rest)
    else link n t (rest.set x v)
  | sub n d rest =>
    if n = x then (match v with
      | none => rest.set x none
      | some e => cons x e rest)
    else sub n d (rest.set x v)

def toList : Directory → List (Text × Entry)
  | empty => []
  | file n b rest => (n, .file b) :: rest.toList
  | link n t rest => (n, .link t) :: rest.toList
  | sub n d rest => (n, .directory d) :: rest.toList

@[simp]
theorem find?_cons (n : Text) (e : Entry) (rest : Directory) (x : Text) :
    (cons n e rest).find? x = if n = x then some e else rest.find? x := by
  cases e <;> simp [cons, find?]

theorem find?_set_some_self (x : Text) (e : Entry) (d : Directory) :
    (d.set x (some e)).find? x = some e := by
  induction d with
  | empty => simp [set]
  | file n b rest ih => by_cases h : n = x <;> simp [set, h, find?, ih]
  | link n t rest ih => by_cases h : n = x <;> simp [set, h, find?, ih]
  | sub n d rest _ ih => by_cases h : n = x <;> simp [set, h, find?, ih]

theorem find?_set_none_self (x : Text) (d : Directory) : (d.set x none).find? x = none := by
  induction d with
  | empty => simp [set, find?]
  | file n b rest ih => by_cases h : n = x <;> simp [set, h, find?, ih]
  | link n t rest ih => by_cases h : n = x <;> simp [set, h, find?, ih]
  | sub n d rest _ ih => by_cases h : n = x <;> simp [set, h, find?, ih]

theorem find?_set_of_ne {x y : Text} (hxy : x ≠ y) (v : Option Entry) (d : Directory) :
    (d.set x v).find? y = d.find? y := by
  induction d generalizing v with
  | empty => cases v <;> simp [set, find?, hxy]
  | file n b rest ih =>
    by_cases h : n = x
    · subst h
      cases v <;> simp [set, find?, hxy, ih]
    · simp [set, h, find?, ih]
  | link n t rest ih =>
    by_cases h : n = x
    · subst h
      cases v <;> simp [set, find?, hxy, ih]
    · simp [set, h, find?, ih]
  | sub n d rest _ ih =>
    by_cases h : n = x
    · subst h
      cases v <;> simp [set, find?, hxy, ih]
    · simp [set, h, find?, ih]

end Directory

namespace Entry

def isDirectory : Entry → Bool
  | directory _ => true
  | _ => false

def at? : List Text → Entry → Option Entry
  | [], e => some e
  | x :: xs, directory d => (d.find? x).bind (at? xs)
  | _ :: _, _ => none

/-- The entry with another entry at a path of names, or with none there; nothing changes when the
way to it does not exist. -/
def setAt (v : Option Entry) : List Text → Entry → Entry
  | [], e => v.getD e
  | [x], directory d => directory (d.set x v)
  | x :: y :: ys, directory d =>
    match d.find? x with
    | none => directory d
    | some e => directory (d.set x (some (setAt v (y :: ys) e)))
  | _ :: _, e => e

theorem at?_setAt_self (e : Entry) (xs : List Text) (x : Text) (root : Entry) {d : Directory}
    (h : at? xs root = some (directory d)) :
    at? (xs ++ [x]) (setAt (some e) (xs ++ [x]) root) = some e := by
  induction xs generalizing root with
  | nil =>
    simp only [at?, Option.some.injEq] at h
    subst h
    simp [setAt, at?, Directory.find?_set_some_self]
  | cons y ys ih =>
    cases root with
    | file b => simp [at?] at h
    | link t => simp [at?] at h
    | directory r =>
      simp only [at?, Option.bind_eq_some_iff] at h
      obtain ⟨sub, hsub, h⟩ := h
      have ih := ih sub h
      cases ys with
      | nil =>
        simp only [List.cons_append, List.nil_append, setAt, hsub, at?,
          Directory.find?_set_some_self, Option.bind_some] at ih ⊢
        exact ih
      | cons z zs =>
        simp only [List.cons_append, setAt, hsub, at?, Directory.find?_set_some_self,
          Option.bind_some] at ih ⊢
        exact ih

end Entry

end LuaReference
