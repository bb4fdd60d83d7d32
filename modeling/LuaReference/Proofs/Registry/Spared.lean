import LuaReference.Proofs.Registry.WellFormed

/-!
# Spared entities

A registry is changed for the sake of some owners, and every other table and class stays as it is,
in its place. One lemma for each kind of change says that it spares what is not named.
-/

namespace LuaReference

/-- The second registry has the entities of the first one in their places, and those that are not
named as they were. Names lead to the old places as before, and the namespace stays. -/
structure Registry.Spares (named : Owner → Prop) (r r' : Registry) : Prop where
  tables : ∀ (i : Nat) (t : Table), r.tables[i]? = some t →
    ∃ t', r'.tables[i]? = some t' ∧ (named (.table t.name) ∨ t' = t)
  classes : ∀ (i : Nat) (c : Class), r.classes[i]? = some c →
    ∃ c', r'.classes[i]? = some c' ∧ (named (.ofClass c.name) ∨ c' = c)
  tableIndex : ∀ n i t, r'.tableIndex.lookup n = some i → r.tables[i]? = some t → t.name = n
  classIndex : ∀ n i c, r'.classIndex.lookup n = some i → r.classes[i]? = some c → c.name = n
  nameSpace : r'.nameSpace = r.nameSpace

/-- What a registry has at a place is named; a place that it does not have is free. -/
def Registry.NamedAt (named : Owner → Prop) (r : Registry) : Holder → Prop
  | .tableAt i => ∀ t, r.tables[i]? = some t → named (.table t.name)
  | .classAt i => ∀ c, r.classes[i]? = some c → named (.ofClass c.name)

theorem Registry.WellFormed.spares_self {r : Registry} (h : r.WellFormed) (named : Owner → Prop) :
    r.Spares named r where
  tables := fun _ t ht => ⟨t, ht, Or.inr rfl⟩
  classes := fun _ c hc => ⟨c, hc, Or.inr rfl⟩
  tableIndex := by
    intro n i t hi ht
    have hname := (h.tableIndex n i).1 hi
    rwa [List.getElem?_map, ht, Option.map_some, Option.some.injEq] at hname
  classIndex := by
    intro n i c hi hc
    have hname := (h.classIndex n i).1 hi
    rwa [List.getElem?_map, hc, Option.map_some, Option.some.injEq] at hname
  nameSpace := rfl

namespace Registry.Spares

variable {named : Owner → Prop} {r r' : Registry}

/-! ### Entries -/

/-- Behind the end of the registry nothing was there before. -/
theorem not_table_at_end (h : r.Spares named r') {t : Table} :
    r.tables[r'.tables.length]? ≠ some t := by
  intro ht
  obtain ⟨t', ht', -⟩ := h.tables _ t ht
  obtain ⟨hlt, -⟩ := List.getElem?_eq_some_iff.1 ht'
  omega

theorem not_class_at_end (h : r.Spares named r') {c : Class} :
    r.classes[r'.classes.length]? ≠ some c := by
  intro hc
  obtain ⟨c', hc', -⟩ := h.classes _ c hc
  obtain ⟨hlt, -⟩ := List.getElem?_eq_some_iff.1 hc'
  omega

theorem tableEntry (h : r.Spares named r') (name : Text) :
    r.Spares named (r'.tableEntry name).1 := by
  rcases r'.tableEntry_cases name with ⟨i, -, he⟩ | ⟨-, he⟩
  · rw [he]
    exact h
  · rw [he]
    refine ⟨?_, h.classes, ?_, h.classIndex, h.nameSpace⟩
    · intro i t ht
      obtain ⟨t', ht', hkept⟩ := h.tables i t ht
      obtain ⟨hlt, -⟩ := List.getElem?_eq_some_iff.1 ht'
      exact ⟨t', by rw [List.getElem?_append_left hlt, ht'], hkept⟩
    · intro n i t hi ht
      rw [List.lookup_cons] at hi
      split at hi
      · cases hi
        exact absurd ht h.not_table_at_end
      · exact h.tableIndex n i t hi ht

theorem classEntry (h : r.Spares named r') (name : Text) :
    r.Spares named (r'.classEntry name).1 := by
  rcases r'.classEntry_cases name with ⟨i, -, he⟩ | ⟨-, he⟩
  · rw [he]
    exact h
  · rw [he]
    refine ⟨h.tables, ?_, h.tableIndex, ?_, h.nameSpace⟩
    · intro i c hc
      obtain ⟨c', hc', hkept⟩ := h.classes i c hc
      obtain ⟨hlt, -⟩ := List.getElem?_eq_some_iff.1 hc'
      exact ⟨c', by rw [List.getElem?_append_left hlt, hc'], hkept⟩
    · intro n i c hi hc
      rw [List.lookup_cons] at hi
      split at hi
      · cases hi
        exact absurd hc h.not_class_at_end
      · exact h.classIndex n i c hi hc

theorem namedAt_tableEntry (h : r.Spares named r') {name : Text}
    (hname : named (.table name.trim)) : r.NamedAt named (.tableAt (r'.tableEntry name).2) := by
  intro t ht
  rcases r'.tableEntry_cases name with ⟨i, hi, he⟩ | ⟨-, he⟩
  · rw [he] at ht
    rw [h.tableIndex _ i t hi ht]
    exact hname
  · rw [he] at ht
    exact absurd ht h.not_table_at_end

theorem namedAt_classEntry (h : r.Spares named r') {name : Text}
    (hname : named (.ofClass name.trim)) : r.NamedAt named (.classAt (r'.classEntry name).2) := by
  intro c hc
  rcases r'.classEntry_cases name with ⟨i, hi, he⟩ | ⟨-, he⟩
  · rw [he] at hc
    rw [h.classIndex _ i c hi hc]
    exact hname
  · rw [he] at hc
    exact absurd hc h.not_class_at_end

/-! ### Changes in place -/

theorem modifyTable (h : r.Spares named r') {i : Nat} (hi : r.NamedAt named (.tableAt i))
    (f : Table → Table) : r.Spares named (r'.modifyTable i f) := by
  refine ⟨?_, h.classes, h.tableIndex, h.classIndex, h.nameSpace⟩
  intro j t ht
  obtain ⟨t', ht', hkept⟩ := h.tables j t ht
  by_cases hij : i = j
  · subst hij
    exact ⟨f t', by simp [Registry.modifyTable, ht'], Or.inl (hi t ht)⟩
  · exact ⟨t', by simp [Registry.modifyTable, hij, ht'], hkept⟩

theorem modifyClass (h : r.Spares named r') {i : Nat} (hi : r.NamedAt named (.classAt i))
    (f : Class → Class) : r.Spares named (r'.modifyClass i f) := by
  refine ⟨h.tables, ?_, h.tableIndex, h.classIndex, h.nameSpace⟩
  intro j c hc
  obtain ⟨c', hc', hkept⟩ := h.classes j c hc
  by_cases hij : i = j
  · subst hij
    exact ⟨f c', by simp [Registry.modifyClass, hc'], Or.inl (hi c hc)⟩
  · exact ⟨c', by simp [Registry.modifyClass, hij, hc'], hkept⟩

theorem modifyFields (h : r.Spares named r') {holder : Holder} (hholder : r.NamedAt named holder)
    (f : List Field → List Field) : r.Spares named (r'.modifyFields holder f) := by
  cases holder with
  | tableAt i => exact h.modifyTable hholder _
  | classAt i => exact h.modifyClass hholder _

theorem modifyFunctions (h : r.Spares named r') {holder : Holder}
    (hholder : r.NamedAt named holder) (f : List Function → List Function) :
    r.Spares named (r'.modifyFunctions holder f) := by
  cases holder with
  | tableAt i => exact h.modifyTable hholder _
  | classAt i => exact h.modifyClass hholder _

theorem recordName (h : r.Spares named r') (name : Text) (p : Place) :
    r.Spares named (r'.recordName name p) :=
  ⟨h.tables, h.classes, h.tableIndex, h.classIndex, h.nameSpace⟩

/-! ### What is found -/

/-- A table that is not named is found under its name as it was. -/
theorem table?_eq (h : r.Spares named r') (hr' : r'.WellFormed) {t : Table} (ht : t ∈ r.tables)
    (hnamed : ¬ named (.table t.name)) : r'.table? t.name = some t := by
  obtain ⟨i, hi⟩ := List.mem_iff_getElem?.1 ht
  obtain ⟨t', ht', hkept⟩ := h.tables i t hi
  obtain rfl := hkept.resolve_left hnamed
  exact (hr'.tableIndex.find_iff _ _).2 ⟨List.mem_of_getElem? ht', rfl⟩

theorem class?_eq (h : r.Spares named r') (hr' : r'.WellFormed) {c : Class} (hc : c ∈ r.classes)
    (hnamed : ¬ named (.ofClass c.name)) : r'.class? c.name = some c := by
  obtain ⟨i, hi⟩ := List.mem_iff_getElem?.1 hc
  obtain ⟨c', hc', hkept⟩ := h.classes i c hi
  obtain rfl := hkept.resolve_left hnamed
  exact (hr'.classIndex.find_iff _ _).2 ⟨List.mem_of_getElem? hc', rfl⟩

end Registry.Spares

end LuaReference
