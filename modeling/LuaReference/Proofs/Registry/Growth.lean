import LuaReference.Proofs.Registry.Change

/-!
# Growth of a registry

No change takes a position away: tables and classes stay where they are, and no list of members
gets shorter. `Registry.Grows` says so of two registries, with one lemma for each kind of change.
-/

namespace LuaReference

/-- Every position of the first registry is a position of the second. -/
structure Registry.Grows (r r' : Registry) : Prop where
  tables : r.tables.length ≤ r'.tables.length
  classes : r.classes.length ≤ r'.classes.length
  fields : ∀ h, r.fieldCount h ≤ r'.fieldCount h
  constructors : ∀ i, r.constructorCount i ≤ r'.constructorCount i
  functions : ∀ h, (r.functionsOf h).length ≤ (r'.functionsOf h).length

/-- A change of a table that keeps its name and takes no member away. -/
def Table.Fits (t t' : Table) : Prop :=
  t'.name = t.name ∧ t.fields.length ≤ t'.fields.length ∧
    t.functions.length ≤ t'.functions.length

def Class.Fits (c c' : Class) : Prop :=
  c'.name = c.name ∧ c.fields.length ≤ c'.fields.length ∧
    c.constructors.length ≤ c'.constructors.length ∧ c.functions.length ≤ c'.functions.length

namespace Registry

variable {r r' r'' : Registry}

theorem Grows.refl (r : Registry) : r.Grows r :=
  ⟨Nat.le_refl _, Nat.le_refl _, fun _ => Nat.le_refl _, fun _ => Nat.le_refl _, fun _ => Nat.le_refl _⟩

theorem Grows.trans (h : r.Grows r') (h' : r'.Grows r'') : r.Grows r'' where
  tables := Nat.le_trans h.tables h'.tables
  classes := Nat.le_trans h.classes h'.classes
  fields := fun x => Nat.le_trans (h.fields x) (h'.fields x)
  constructors := fun i => Nat.le_trans (h.constructors i) (h'.constructors i)
  functions := fun x => Nat.le_trans (h.functions x) (h'.functions x)

theorem grows_modifyTable (i : Nat) (f : Table → Table) (hf : ∀ t : Table, t.Fits (f t)) :
    r.Grows (r.modifyTable i f) := by
  refine ⟨by simp [modifyTable], Nat.le_refl _, ?_, fun _ => Nat.le_refl _, ?_⟩
  · intro h
    cases h with
    | classAt j => exact Nat.le_refl _
    | tableAt j =>
      simp only [fieldCount, modifyTable, List.getElem?_modify]
      cases r.tables[j]? with
      | none => simp
      | some t => by_cases hij : i = j <;> simp [hij, (hf t).2.1]
  · intro h
    cases h with
    | classAt j => exact Nat.le_refl _
    | tableAt j =>
      simp only [functionsOf, modifyTable, List.getElem?_modify]
      cases r.tables[j]? with
      | none => simp
      | some t => by_cases hij : i = j <;> simp [hij, (hf t).2.2]

theorem grows_modifyClass (i : Nat) (f : Class → Class) (hf : ∀ c : Class, c.Fits (f c)) :
    r.Grows (r.modifyClass i f) := by
  refine ⟨Nat.le_refl _, by simp [modifyClass], ?_, ?_, ?_⟩
  · intro h
    cases h with
    | tableAt j => exact Nat.le_refl _
    | classAt j =>
      simp only [fieldCount, modifyClass, List.getElem?_modify]
      cases r.classes[j]? with
      | none => simp
      | some c => by_cases hij : i = j <;> simp [hij, (hf c).2.1]
  · intro j
    simp only [constructorCount, modifyClass, List.getElem?_modify]
    cases r.classes[j]? with
    | none => simp
    | some c => by_cases hij : i = j <;> simp [hij, (hf c).2.2.1]
  · intro h
    cases h with
    | tableAt j => exact Nat.le_refl _
    | classAt j =>
      simp only [functionsOf, modifyClass, List.getElem?_modify]
      cases r.classes[j]? with
      | none => simp
      | some c => by_cases hij : i = j <;> simp [hij, (hf c).2.2.2]

theorem grows_modifyFields (h : Holder) (f : List Field → List Field)
    (hf : ∀ l, l.length ≤ (f l).length) : r.Grows (r.modifyFields h f) := by
  cases h with
  | tableAt i => exact grows_modifyTable i _ fun t => ⟨rfl, hf t.fields, Nat.le_refl _⟩
  | classAt i => exact grows_modifyClass i _ fun c => ⟨rfl, hf c.fields, Nat.le_refl _, Nat.le_refl _⟩

theorem grows_modifyFunctions (h : Holder) (f : List Function → List Function)
    (hf : ∀ l, l.length ≤ (f l).length) : r.Grows (r.modifyFunctions h f) := by
  cases h with
  | tableAt i => exact grows_modifyTable i _ fun t => ⟨rfl, Nat.le_refl _, hf t.functions⟩
  | classAt i => exact grows_modifyClass i _ fun c => ⟨rfl, Nat.le_refl _, Nat.le_refl _, hf c.functions⟩

theorem grows_modifyConstructors (i : Nat) (f : List Constructor → List Constructor)
    (hf : ∀ l, l.length ≤ (f l).length) : r.Grows (r.modifyConstructors i f) :=
  grows_modifyClass i _ fun c => ⟨rfl, Nat.le_refl _, hf c.constructors, Nat.le_refl _⟩

theorem grows_modifyField (p : Place) (f : Field → Field) : r.Grows (r.modifyField p f) :=
  grows_modifyFields p.holder _ fun l => Nat.le_of_eq (List.length_modify _ l _).symm

theorem grows_modifyFunction (p : Place) (f : Function → Function) :
    r.Grows (r.modifyFunction p f) :=
  grows_modifyFunctions p.holder _ fun l => Nat.le_of_eq (List.length_modify _ l _).symm

theorem grows_modifyConstructor (i j : Nat) (f : Constructor → Constructor) :
    r.Grows (r.modifyConstructor i j f) :=
  grows_modifyConstructors i _ fun l => Nat.le_of_eq (List.length_modify _ l _).symm

theorem grows_recordName (name : Text) (p : Place) : r.Grows (r.recordName name p) :=
  ⟨Nat.le_refl _, Nat.le_refl _, fun h => by cases h <;> exact Nat.le_refl _, fun _ => Nat.le_refl _,
    fun h => by cases h <;> exact Nat.le_refl _⟩

theorem grows_setNameSpace (name : Text) : r.Grows (r.setNameSpace name) :=
  ⟨Nat.le_refl _, Nat.le_refl _, fun h => by cases h <;> exact Nat.le_refl _, fun _ => Nat.le_refl _,
    fun h => by cases h <;> exact Nat.le_refl _⟩

/-- An entity is found at the position that the index has, or it comes to the end. -/
theorem tableEntry_cases (r : Registry) (name : Text) :
    (∃ i, r.tableIndex.lookup name.trim = some i ∧ r.tableEntry name = (r, i)) ∨
      (r.tableIndex.lookup name.trim = none ∧
        r.tableEntry name =
          ({ r with
              tables := r.tables ++ [.new name]
              tableIndex := (name.trim, r.tables.length) :: r.tableIndex },
            r.tables.length)) := by
  cases hl : r.tableIndex.lookup name.trim with
  | some i => exact Or.inl ⟨i, rfl, by simp only [tableEntry, hl]⟩
  | none => exact Or.inr ⟨rfl, by simp only [tableEntry, hl]⟩

theorem classEntry_cases (r : Registry) (name : Text) :
    (∃ i, r.classIndex.lookup name.trim = some i ∧ r.classEntry name = (r, i)) ∨
      (r.classIndex.lookup name.trim = none ∧
        r.classEntry name =
          ({ r with
              classes := r.classes ++ [.new name]
              classIndex := (name.trim, r.classes.length) :: r.classIndex },
            r.classes.length)) := by
  cases hl : r.classIndex.lookup name.trim with
  | some i => exact Or.inl ⟨i, rfl, by simp only [classEntry, hl]⟩
  | none => exact Or.inr ⟨rfl, by simp only [classEntry, hl]⟩

theorem getElem?_getD_append {α : Type} (f : α → Nat) (l : List α) (a : α) (i : Nat) :
    (l[i]?.map f).getD 0 ≤ ((l ++ [a])[i]?.map f).getD 0 := by
  by_cases hi : i < l.length
  · have hsame : (l ++ [a])[i]? = l[i]? := List.getElem?_append_left hi
    exact Nat.le_of_eq (by rw [hsame])
  · have hnone : l[i]? = none := List.getElem?_eq_none (by omega)
    rw [hnone]
    exact Nat.zero_le _

theorem functionsOf_length (r : Registry) (h : Holder) :
    (r.functionsOf h).length =
      match h with
      | .tableAt i => (r.tables[i]?.map (·.functions.length)).getD 0
      | .classAt i => (r.classes[i]?.map (·.functions.length)).getD 0 := by
  cases h with
  | tableAt i => cases ht : r.tables[i]? <;> simp [functionsOf, ht]
  | classAt i => cases hc : r.classes[i]? <;> simp [functionsOf, hc]

theorem grows_tableEntry (name : Text) : r.Grows (r.tableEntry name).1 := by
  rcases r.tableEntry_cases name with ⟨i, _, he⟩ | ⟨_, he⟩
  · rw [he]
    exact Grows.refl r
  · rw [he]
    refine ⟨by simp, Nat.le_refl _, ?_, fun _ => Nat.le_refl _, ?_⟩
    · intro h
      cases h with
      | classAt j => exact Nat.le_refl _
      | tableAt j => exact getElem?_getD_append _ r.tables _ j
    · intro h
      rw [functionsOf_length, functionsOf_length]
      cases h with
      | classAt j => exact Nat.le_refl _
      | tableAt j => exact getElem?_getD_append _ r.tables _ j

theorem grows_classEntry (name : Text) : r.Grows (r.classEntry name).1 := by
  rcases r.classEntry_cases name with ⟨i, _, he⟩ | ⟨_, he⟩
  · rw [he]
    exact Grows.refl r
  · rw [he]
    refine ⟨Nat.le_refl _, by simp, ?_, ?_, ?_⟩
    · intro h
      cases h with
      | tableAt j => exact Nat.le_refl _
      | classAt j => exact getElem?_getD_append _ r.classes _ j
    · intro j
      exact getElem?_getD_append _ r.classes _ j
    · intro h
      rw [functionsOf_length, functionsOf_length]
      cases h with
      | tableAt j => exact Nat.le_refl _
      | classAt j => exact getElem?_getD_append _ r.classes _ j

end Registry

end LuaReference
