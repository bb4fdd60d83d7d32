import LuaReference.Proofs.Registry.WellFormed

/-!
# Entities by their names

`tableNamed` and `classNamed` read a registry name by name. What is not there reads as an empty
entity, so naming an entity changes nothing that is read, and a change of the entity that a name
leads to is seen under that name only.
-/

namespace LuaReference

/-! ### Reading a list by an index -/

/-- What an index leads to from a name, or `blank` if it leads nowhere. -/
def readNamed {α : Type} (blank : α) (index : List (Text × Nat)) (l : List α) (n : Text) : α :=
  ((index.lookup n).bind (l[·]?)).getD blank

namespace Indexes

variable {α : Type} {index : List (Text × Nat)} {l : List α} {name : α → Text}
  (h : Indexes index (l.map name))
include h

theorem exists_at {n : Text} {i : Nat} (hi : index.lookup n = some i) :
    ∃ a, l[i]? = some a ∧ name a = n := by
  have hname := (h n i).1 hi
  rwa [List.getElem?_map, Option.map_eq_some_iff] at hname

/-- A position belongs to one name. -/
theorem lookup_eq_iff {m : Text} {i : Nat} (hm : index.lookup m = some i) (n : Text) :
    index.lookup n = some i ↔ n = m := by
  obtain ⟨a, ha, hname⟩ := h.exists_at hm
  constructor
  · intro hn
    obtain ⟨a', ha', hname'⟩ := h.exists_at hn
    rw [← hname, ← hname', Option.some.inj (ha.symm.trans ha')]
  · rintro rfl
    exact hm

theorem lookup_add_iff (m n : Text) :
    ((m, l.length) :: index).lookup n = some l.length ↔ n = m := by
  by_cases hn : n = m
  · rw [hn, List.lookup_cons_self]
    exact iff_of_true rfl rfl
  · refine iff_of_false ?_ hn
    rw [List.lookup_cons, beq_false_of_ne hn]
    intro hlookup
    have hlt := h.lt hlookup
    rw [List.length_map] at hlt
    exact absurd hlt (Nat.lt_irrefl _)

theorem readNamed_of_mem (blank : α) {a : α} (ha : a ∈ l) :
    readNamed blank index l (name a) = a := by
  rw [readNamed, (h.find_iff (name a) a).2 ⟨ha, rfl⟩]
  rfl

theorem name_readNamed (blank : α) {n : Text} (hblank : name blank = n) :
    name (readNamed blank index l n) = n := by
  rw [readNamed]
  cases hfound : (index.lookup n).bind (l[·]?) with
  | none => exact hblank
  | some a => exact ((h.find_iff n a).1 hfound).2

/-- A blank entry that is added under a free name reads as before. -/
theorem readNamed_add {m : Text} (hm : index.lookup m = none) (blank : Text → α) (n : Text) :
    readNamed (blank n) ((m, l.length) :: index) (l ++ [blank m]) n =
      readNamed (blank n) index l n := by
  rw [readNamed, readNamed]
  by_cases hn : n = m
  · rw [hn, List.lookup_cons_self, hm, Option.bind_some, List.getElem?_concat_length]
    rfl
  · rw [List.lookup_cons, beq_false_of_ne hn]
    cases hi : index.lookup n with
    | none => rfl
    | some i =>
      obtain ⟨a, ha, -⟩ := h.exists_at hi
      have hlt := (List.getElem?_eq_some_iff.1 ha).1
      rw [Option.bind_some, Option.bind_some, List.getElem?_append_left hlt]

theorem readNamed_modify (blank : α) (i : Nat) (f : α → α) (n : Text) :
    readNamed blank index (l.modify i f) n =
      if index.lookup n = some i then f (readNamed blank index l n)
      else readNamed blank index l n := by
  rw [readNamed, readNamed]
  cases hj : index.lookup n with
  | none => rfl
  | some j =>
    obtain ⟨a, ha, -⟩ := h.exists_at hj
    rw [Option.bind_some, Option.bind_some, List.getElem?_modify, ha]
    by_cases hij : i = j
    · simp [hij]
    · simp [hij, Ne.symm hij]

end Indexes

namespace Registry

/-- The table of a name, an empty one if there is none. -/
def tableNamed (r : Registry) (n : Text) : Table := (r.table? n).getD { name := n }

/-- The class of a name, an empty one if there is none. -/
def classNamed (r : Registry) (n : Text) : Class := (r.class? n).getD { name := n }

namespace WellFormed

variable {r : Registry} (h : r.WellFormed)
include h

/-! ### Tables -/

theorem tableNamed_of_mem {t : Table} (ht : t ∈ r.tables) : r.tableNamed t.name = t :=
  h.tableIndex.readNamed_of_mem _ ht

theorem name_tableNamed (n : Text) : (r.tableNamed n).name = n :=
  h.tableIndex.name_readNamed { name := n } rfl

theorem lookup_tableEntry (name n : Text) :
    (r.tableEntry name).1.tableIndex.lookup n = some (r.tableEntry name).2 ↔ n = name.trim := by
  rcases r.tableEntry_cases name with ⟨i, hi, he⟩ | ⟨-, he⟩
  · rw [he]
    exact h.tableIndex.lookup_eq_iff hi n
  · rw [he]
    exact h.tableIndex.lookup_add_iff name.trim n

theorem tableNamed_tableEntry (name n : Text) :
    (r.tableEntry name).1.tableNamed n = r.tableNamed n := by
  rcases r.tableEntry_cases name with ⟨i, -, he⟩ | ⟨hnone, he⟩
  · rw [he]
  · rw [he]
    exact h.tableIndex.readNamed_add hnone (fun m => { name := m }) n

/-- A change of the table that a name leads to is seen under that name. -/
theorem tableNamed_change (name n : Text) (f : Table → Table) :
    ((r.tableEntry name).1.modifyTable (r.tableEntry name).2 f).tableNamed n =
      if n = name.trim then f (r.tableNamed n) else r.tableNamed n := by
  have hmodify := (h.tableEntry name).tableIndex.readNamed_modify { name := n }
    (r.tableEntry name).2 f n
  simp only [h.lookup_tableEntry] at hmodify
  rw [← h.tableNamed_tableEntry name n]
  exact hmodify

theorem ownerOf_tableEntry (name : Text) :
    (r.tableEntry name).1.ownerOf (.tableAt (r.tableEntry name).2) = .table name.trim := by
  obtain ⟨t, ht, hname⟩ := (h.tableEntry name).tableIndex.exists_at
    ((h.lookup_tableEntry name name.trim).2 rfl)
  rw [ownerOf, ht, ← hname]
  rfl

/-! ### Classes -/

theorem classNamed_of_mem {c : Class} (hc : c ∈ r.classes) : r.classNamed c.name = c :=
  h.classIndex.readNamed_of_mem _ hc

theorem name_classNamed (n : Text) : (r.classNamed n).name = n :=
  h.classIndex.name_readNamed { name := n } rfl

theorem lookup_classEntry (name n : Text) :
    (r.classEntry name).1.classIndex.lookup n = some (r.classEntry name).2 ↔ n = name.trim := by
  rcases r.classEntry_cases name with ⟨i, hi, he⟩ | ⟨-, he⟩
  · rw [he]
    exact h.classIndex.lookup_eq_iff hi n
  · rw [he]
    exact h.classIndex.lookup_add_iff name.trim n

theorem classNamed_classEntry (name n : Text) :
    (r.classEntry name).1.classNamed n = r.classNamed n := by
  rcases r.classEntry_cases name with ⟨i, -, he⟩ | ⟨hnone, he⟩
  · rw [he]
  · rw [he]
    exact h.classIndex.readNamed_add hnone (fun m => { name := m }) n

/-- A change of the class that a name leads to is seen under that name. -/
theorem classNamed_change (name n : Text) (f : Class → Class) :
    ((r.classEntry name).1.modifyClass (r.classEntry name).2 f).classNamed n =
      if n = name.trim then f (r.classNamed n) else r.classNamed n := by
  have hmodify := (h.classEntry name).classIndex.readNamed_modify { name := n }
    (r.classEntry name).2 f n
  simp only [h.lookup_classEntry] at hmodify
  rw [← h.classNamed_classEntry name n]
  exact hmodify

theorem ownerOf_classEntry (name : Text) :
    (r.classEntry name).1.ownerOf (.classAt (r.classEntry name).2) = .ofClass name.trim := by
  obtain ⟨c, hc, hname⟩ := (h.classEntry name).classIndex.exists_at
    ((h.lookup_classEntry name name.trim).2 rfl)
  rw [ownerOf, hc, ← hname]
  rfl

end WellFormed

/-! ### Entities of the other kind -/

theorem classNamed_tableEntry (r : Registry) (name n : Text) :
    (r.tableEntry name).1.classNamed n = r.classNamed n := by
  rcases r.tableEntry_cases name with ⟨i, -, he⟩ | ⟨-, he⟩
  · rw [he]
  · rw [he]
    rfl

theorem tableNamed_classEntry (r : Registry) (name n : Text) :
    (r.classEntry name).1.tableNamed n = r.tableNamed n := by
  rcases r.classEntry_cases name with ⟨i, -, he⟩ | ⟨-, he⟩
  · rw [he]
  · rw [he]
    rfl

end Registry

end LuaReference
