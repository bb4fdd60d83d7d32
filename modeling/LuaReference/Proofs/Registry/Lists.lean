import LuaReference.Proofs.Registry.WellFormed

/-!
# Registries with known entities

`Registry.Lists` says which tables and classes a registry has. The lemmas name a new entity, find
the last one again, and change it.
-/

namespace LuaReference

/-- A registry of exactly these tables and classes, found by their names, without namespace. -/
structure Registry.Lists (r : Registry) (ts : List Table) (cs : List Class) : Prop where
  tables : r.tables = ts
  classes : r.classes = cs
  tableIndex : Indexes r.tableIndex (ts.map Table.name)
  classIndex : Indexes r.classIndex (cs.map Class.name)
  nameSpace : r.nameSpace = none

namespace Registry.Lists

variable {r : Registry} {ts : List Table} {cs : List Class}

theorem empty : Registry.Lists {} [] [] := ⟨rfl, rfl, indexes_nil, indexes_nil, rfl⟩

theorem recordName (h : r.Lists ts cs) (name : Text) (p : Place) :
    (r.recordName name p).Lists ts cs :=
  ⟨h.tables, h.classes, h.tableIndex, h.classIndex, h.nameSpace⟩

/-! ### The entity at the end -/

theorem lookup_of_mem {index : List (Text × Nat)} {names : List Text} {n : Text}
    (h : Indexes index (names ++ [n])) : index.lookup n = some names.length := by
  refine (h n names.length).2 ?_
  rw [List.getElem?_append_right (Nat.le_refl _), Nat.sub_self]
  rfl

theorem lookup_of_not_mem {index : List (Text × Nat)} {names : List Text} {n : Text}
    (h : Indexes index names) (hn : n ∉ names) : index.lookup n = none := by
  cases hl : index.lookup n with
  | none => rfl
  | some i => exact absurd (List.mem_of_getElem? ((h n i).1 hl)) hn

theorem newTable (h : r.Lists ts cs) {n : Text} (htrim : n.trim = n) (hn : n ∉ ts.map Table.name) :
    (r.tableEntry n).1.Lists (ts ++ [.new n]) cs ∧ (r.tableEntry n).2 = ts.length := by
  have hnone : r.tableIndex.lookup n = none := lookup_of_not_mem h.tableIndex hn
  have hadd := h.tableIndex.add hnone
  rw [List.length_map] at hadd
  rw [Registry.tableEntry, htrim, hnone, h.tables]
  refine ⟨⟨rfl, h.classes, ?_, h.classIndex, h.nameSpace⟩, rfl⟩
  rw [List.map_append, List.map_singleton, Table.new, htrim]
  exact hadd

theorem newClass (h : r.Lists ts cs) {n : Text} (htrim : n.trim = n) (hn : n ∉ cs.map Class.name) :
    (r.classEntry n).1.Lists ts (cs ++ [.new n]) ∧ (r.classEntry n).2 = cs.length := by
  have hnone : r.classIndex.lookup n = none := lookup_of_not_mem h.classIndex hn
  have hadd := h.classIndex.add hnone
  rw [List.length_map] at hadd
  rw [Registry.classEntry, htrim, hnone, h.classes]
  refine ⟨⟨h.tables, rfl, h.tableIndex, ?_, h.nameSpace⟩, rfl⟩
  rw [List.map_append, List.map_singleton, Class.new, htrim]
  exact hadd

theorem lastTable {t : Table} (h : r.Lists (ts ++ [t]) cs) (htrim : t.name.trim = t.name) :
    r.tableEntry t.name = (r, ts.length) := by
  have hindex : Indexes r.tableIndex (ts.map Table.name ++ [t.name]) := by
    have hi := h.tableIndex
    rwa [List.map_append] at hi
  have hfound := lookup_of_mem hindex
  rw [List.length_map] at hfound
  rw [Registry.tableEntry, htrim, hfound]

theorem lastClass {c : Class} (h : r.Lists ts (cs ++ [c])) (htrim : c.name.trim = c.name) :
    r.classEntry c.name = (r, cs.length) := by
  have hindex : Indexes r.classIndex (cs.map Class.name ++ [c.name]) := by
    have hi := h.classIndex
    rwa [List.map_append] at hi
  have hfound := lookup_of_mem hindex
  rw [List.length_map] at hfound
  rw [Registry.classEntry, htrim, hfound]

theorem modifyLastTable {t : Table} (h : r.Lists (ts ++ [t]) cs) {f : Table → Table}
    (hf : (f t).name = t.name) : (r.modifyTable ts.length f).Lists (ts ++ [f t]) cs := by
  refine ⟨?_, h.classes, ?_, h.classIndex, h.nameSpace⟩
  · rw [Registry.modifyTable, h.tables]
    exact modify_length_append ts t f
  · have hi := h.tableIndex
    rw [List.map_append, List.map_singleton] at hi ⊢
    rw [hf]
    exact hi

theorem modifyLastClass {c : Class} (h : r.Lists ts (cs ++ [c])) {f : Class → Class}
    (hf : (f c).name = c.name) : (r.modifyClass cs.length f).Lists ts (cs ++ [f c]) := by
  refine ⟨h.tables, ?_, h.tableIndex, ?_, h.nameSpace⟩
  · rw [Registry.modifyClass, h.classes]
    exact modify_length_append cs c f
  · have hi := h.classIndex
    rw [List.map_append, List.map_singleton] at hi ⊢
    rw [hf]
    exact hi

end Registry.Lists

end LuaReference
