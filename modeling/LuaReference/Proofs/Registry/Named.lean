import LuaReference.Proofs.Registry.WellFormed

/-!
# Names of functions

Names are given to functions in turn, and the last one stays. `Registry.NamedBy given r r'` says
that between two registries exactly the names of a list were given: the names of the functions and
the index of names both follow from the list. One lemma for each kind of change says what it gives.
-/

namespace LuaReference

/-- The name that a list of names gives last to the function at a place. -/
def lastName (given : List (Text × Place)) (p : Place) : Option Text :=
  (given.reverse.find? (·.2 = p)).map (·.1)

/-- The place of the function that a list of names gives a name to last. -/
def lastPlace (given : List (Text × Place)) (name : Text) : Option Place :=
  given.reverse.lookup name

theorem lastName_append (before after : List (Text × Place)) (p : Place) :
    lastName (before ++ after) p = (lastName after p).or (lastName before p) := by
  simp only [lastName, List.reverse_append, List.find?_append]
  cases after.reverse.find? (·.2 = p) <;> rfl

theorem exists_lastName {given : List (Text × Place)} {name : Text} {p : Place}
    (h : lastPlace given name = some p) : ∃ n, lastName given p = some n := by
  obtain ⟨before, after, heq, -⟩ := List.lookup_eq_some_iff.1 h
  have hmem : (name, p) ∈ given.reverse := by
    rw [heq]
    simp
  have hsome : (given.reverse.find? (·.2 = p)).isSome := List.find?_isSome.2 ⟨_, hmem, by simp⟩
  obtain ⟨x, hfound⟩ := Option.isSome_iff_exists.1 hsome
  exact ⟨x.1, by rw [lastName, hfound, Option.map_some]⟩

theorem mem_of_lastName {given : List (Text × Place)} {name : Text} {p : Place}
    (h : lastName given p = some name) : (name, p) ∈ given := by
  obtain ⟨x, hfound, rfl⟩ := Option.map_eq_some_iff.1 h
  have hp : x.2 = p := by simpa using List.find?_some hfound
  rw [← hp]
  exact List.mem_reverse.1 (List.mem_of_find?_eq_some hfound)

theorem lastPlace_eq_none_iff {given : List (Text × Place)} {name : Text} :
    lastPlace given name = none ↔ ∀ p, (name, p) ∉ given := by
  rw [lastPlace, List.lookup_eq_none_iff]
  constructor
  · intro h p hmem
    simpa using h _ (List.mem_reverse.2 hmem)
  · intro h x hmem
    rw [bne_iff_ne]
    rintro rfl
    exact h x.2 (List.mem_reverse.1 hmem)

/-! ### Names at places -/

/-- The name of the function at a position, or what an unnamed one is called where there is none. -/
def nameIn (functions : List Function) (i : Nat) : Text :=
  (functions[i]?.map (·.name)).getD unnamed

def Registry.nameAt (r : Registry) (p : Place) : Text := nameIn (r.functionsOf p.holder) p.index

theorem nameIn_append_new (functions : List Function) (owner : Owner) (i : Nat) :
    nameIn (functions ++ [{ owner := owner }]) i = nameIn functions i := by
  rcases Nat.lt_trichotomy i functions.length with hlt | rfl | hgt
  · rw [nameIn, nameIn, List.getElem?_append_left hlt]
  · simp [nameIn]
  · rw [nameIn, nameIn, List.getElem?_eq_none hgt.le, List.getElem?_eq_none]
    rw [List.length_append, List.length_singleton]
    exact hgt

theorem nameIn_modify (functions : List Function) (i j : Nat) (f : Function → Function)
    (hf : ∀ g, (f g).name = g.name) : nameIn (functions.modify i f) j = nameIn functions j := by
  rw [nameIn, nameIn, List.getElem?_modify]
  by_cases hij : i = j <;> cases functions[j]? <;> simp [hij, hf]

theorem nameIn_modify_name (functions : List Function) (i j : Nat) {f : Function → Function}
    {name : Text} (hf : ∀ g, (f g).name = name) (hi : i < functions.length) :
    nameIn (functions.modify i f) j = if i = j then name else nameIn functions j := by
  rw [nameIn, nameIn, List.getElem?_modify]
  by_cases hij : i = j
  · subst hij
    simp [hi, hf]
  · cases functions[j]? <;> simp [hij]

namespace Registry

variable {r r' r'' : Registry}

theorem nameAt_eq {p : Place} {f : Function} (h : r.functionAt? p = some f) :
    r.nameAt p = f.name := by
  have hf : (r.functionsOf p.holder)[p.index]? = some f := h
  rw [nameAt, nameIn, hf, Option.map_some, Option.getD_some]

/-- Between the registries the names of the list were given, one after another, and no other. -/
structure NamedBy (given : List (Text × Place)) (r r' : Registry) : Prop where
  named : r'.named = given.reverse ++ r.named
  nameAt : ∀ p, r'.nameAt p = (lastName given p).getD (r.nameAt p)

namespace NamedBy

variable {given given' : List (Text × Place)}

theorem trans (h : NamedBy given r r') (h' : NamedBy given' r' r'') :
    NamedBy (given ++ given') r r'' where
  named := by rw [h'.named, h.named, List.reverse_append, List.append_assoc]
  nameAt := by
    intro p
    rw [h'.nameAt, h.nameAt, lastName_append]
    cases lastName given' p <;> rfl

theorem none_given (hnamed : r'.named = r.named) (hnameAt : ∀ p, r'.nameAt p = r.nameAt p) :
    NamedBy [] r r' :=
  ⟨hnamed, hnameAt⟩

theorem refl (r : Registry) : NamedBy [] r r := none_given rfl fun _ => rfl

end NamedBy

/-! ### Changes that give no name -/

theorem namedBy_modifyTable (i : Nat) {f : Table → Table}
    (hf : ∀ t j, nameIn (f t).functions j = nameIn t.functions j) :
    NamedBy [] r (r.modifyTable i f) := by
  refine .none_given rfl ?_
  rintro ⟨holder, j⟩
  cases holder with
  | classAt k => rfl
  | tableAt k =>
    simp only [Registry.nameAt, functionsOf, Registry.modifyTable, List.getElem?_modify]
    by_cases hik : i = k <;> cases r.tables[k]? <;> simp [hik, hf]

theorem namedBy_modifyClass (i : Nat) {f : Class → Class}
    (hf : ∀ c j, nameIn (f c).functions j = nameIn c.functions j) :
    NamedBy [] r (r.modifyClass i f) := by
  refine .none_given rfl ?_
  rintro ⟨holder, j⟩
  cases holder with
  | tableAt k => rfl
  | classAt k =>
    simp only [Registry.nameAt, functionsOf, Registry.modifyClass, List.getElem?_modify]
    by_cases hik : i = k <;> cases r.classes[k]? <;> simp [hik, hf]

theorem namedBy_modifyFields (h : Holder) (f : List Field → List Field) :
    NamedBy [] r (r.modifyFields h f) := by
  cases h with
  | tableAt i => exact namedBy_modifyTable i fun _ _ => rfl
  | classAt i => exact namedBy_modifyClass i fun _ _ => rfl

theorem namedBy_addField (h : Holder) : NamedBy [] r (r.addField h).1 :=
  namedBy_modifyFields h (· ++ [({} : Field)])

theorem namedBy_addConstructor (i : Nat) : NamedBy [] r (r.addConstructor i).1 :=
  namedBy_modifyClass i fun _ _ => rfl

theorem namedBy_modifyFunctions (h : Holder) {f : List Function → List Function}
    (hf : ∀ l j, nameIn (f l) j = nameIn l j) : NamedBy [] r (r.modifyFunctions h f) := by
  cases h with
  | tableAt i => exact namedBy_modifyTable i fun t => hf t.functions
  | classAt i => exact namedBy_modifyClass i fun c => hf c.functions

theorem namedBy_addFunction (h : Holder) : NamedBy [] r (r.addFunction h).1 :=
  namedBy_modifyFunctions h fun l => nameIn_append_new l _

theorem namedBy_modifyFunction (p : Place) {f : Function → Function}
    (hf : ∀ g, (f g).name = g.name) : NamedBy [] r (r.modifyFunction p f) :=
  namedBy_modifyFunctions p.holder fun l j => nameIn_modify l p.index j f hf

theorem namedBy_tableEntry (name : Text) : NamedBy [] r (r.tableEntry name).1 := by
  rcases r.tableEntry_cases name with ⟨i, -, he⟩ | ⟨-, he⟩
  · rw [he]
    exact .refl r
  · rw [he]
    refine .none_given rfl ?_
    rintro ⟨holder, j⟩
    cases holder with
    | classAt k => rfl
    | tableAt k =>
      -- a table that is added has no functions, so the names are those of no function
      rcases Nat.lt_trichotomy k r.tables.length with hlt | rfl | hgt
      · simp [Registry.nameAt, functionsOf, List.getElem?_append_left hlt]
      · simp [Registry.nameAt, functionsOf, Table.new]
      · have hnone : (r.tables ++ [Table.new name])[k]? = none := by simp; omega
        simp [Registry.nameAt, functionsOf, hnone, List.getElem?_eq_none hgt.le]

theorem namedBy_classEntry (name : Text) : NamedBy [] r (r.classEntry name).1 := by
  rcases r.classEntry_cases name with ⟨i, -, he⟩ | ⟨-, he⟩
  · rw [he]
    exact .refl r
  · rw [he]
    refine .none_given rfl ?_
    rintro ⟨holder, j⟩
    cases holder with
    | tableAt k => rfl
    | classAt k =>
      rcases Nat.lt_trichotomy k r.classes.length with hlt | rfl | hgt
      · simp [Registry.nameAt, functionsOf, List.getElem?_append_left hlt]
      · simp [Registry.nameAt, functionsOf, Class.new]
      · have hnone : (r.classes ++ [Class.new name])[k]? = none := by simp; omega
        simp [Registry.nameAt, functionsOf, hnone, List.getElem?_eq_none hgt.le]

theorem namedBy_setNameSpace (name : Text) : NamedBy [] r (r.setNameSpace name) :=
  .none_given rfl fun ⟨holder, _⟩ => by cases holder <;> rfl

/-! ### A name line -/

theorem functionsOf_modifyFunctions (h : Holder) {f : List Function → List Function}
    (hf : f [] = []) (k : Holder) :
    (r.modifyFunctions h f).functionsOf k =
      if h = k then f (r.functionsOf k) else r.functionsOf k := by
  cases h with
  | tableAt i =>
    cases k with
    | classAt j => rfl
    | tableAt j =>
      simp only [modifyFunctions, functionsOf, Registry.modifyTable, List.getElem?_modify]
      by_cases hij : i = j <;> cases r.tables[j]? <;> simp [hij, hf]
  | classAt i =>
    cases k with
    | tableAt j => rfl
    | classAt j =>
      simp only [modifyFunctions, functionsOf, Registry.modifyClass, List.getElem?_modify]
      by_cases hij : i = j <;> cases r.classes[j]? <;> simp [hij, hf]

/-- A name that is given to a function stands first in the index, and the function has it. -/
theorem namedBy_name {p : Place} (hp : r.HasFunction p) {name : Text} {f : Function → Function}
    (hf : ∀ g, (f g).name = name) :
    NamedBy [(name, p)] r ((r.recordName name p).modifyFunction p f) := by
  rw [modifyFunction_recordName]
  constructor
  · have hnamed : (r.modifyFunction p f).named = r.named := by
      obtain ⟨holder, k⟩ := p
      cases holder <;> rfl
    rw [recordName, hnamed, List.reverse_singleton, List.singleton_append]
  · rintro ⟨holder, j⟩
    have hfunctions : ((r.modifyFunction p f).recordName name p).functionsOf holder =
        (r.modifyFunction p f).functionsOf holder := by cases holder <;> rfl
    have hmodify := functionsOf_modifyFunctions (r := r) p.holder
      (f := (·.modify p.index f)) (by simp) holder
    rw [Registry.nameAt, hfunctions, Registry.modifyFunction, hmodify]
    obtain ⟨holder', i⟩ := p
    by_cases hholder : holder' = holder
    · subst hholder
      rw [if_pos rfl, nameIn_modify_name _ i j hf hp]
      by_cases hij : i = j <;> simp [lastName, hij, Registry.nameAt]
    · simp [lastName, hholder, Registry.nameAt]

/-! ### The index of names -/

/-- The index finds functions by this name: it has a function exactly when some function was given
the name that it has now, and what it has is called so. -/
def FindsByName (r : Registry) (given : List (Text × Place)) (name : Text) : Prop :=
  ((r.function? name).isSome ↔
      ∃ p f, r.functionAt? p = some f ∧ f.name = name ∧ lastName given p = some name) ∧
    ∀ f, r.function? name = some f → f.name = name

namespace NamedBy

variable {given : List (Text × Place)}

theorem log_eq (h : NamedBy given {} r) : r.named = given.reverse := by
  rw [h.named, List.append_nil]

theorem name_eq (h : NamedBy given {} r) {p : Place} {f : Function}
    (hf : r.functionAt? p = some f) : f.name = (lastName given p).getD unnamed := by
  have hempty : ({} : Registry).nameAt p = unnamed := by
    obtain ⟨holder, i⟩ := p
    cases holder <;> rfl
  rw [← nameAt_eq hf, h.nameAt, hempty]

/-- A name leads to the function that it was given to last, and that function was named. -/
theorem exists_function? (h : NamedBy given {} r) (hr : r.WellFormed) {name : Text} {p : Place}
    (hp : lastPlace given name = some p) :
    ∃ f, r.function? name = some f ∧ r.functionAt? p = some f ∧ lastName given p = some f.name := by
  have hmem : (name, p) ∈ r.named := by
    obtain ⟨before, after, heq, -⟩ := List.lookup_eq_some_iff.1 hp
    rw [h.log_eq, heq]
    simp
  obtain ⟨f, hf⟩ := (hr.named _ hmem).exists
  obtain ⟨n, hn⟩ := exists_lastName hp
  refine ⟨f, ?_, hf, ?_⟩
  · rw [function?, h.log_eq]
    exact Option.bind_eq_some_iff.2 ⟨p, hp, hf⟩
  · rw [h.name_eq hf, hn, Option.getD_some]

theorem function?_eq_none (h : NamedBy given {} r) {name : Text}
    (hnone : lastPlace given name = none) : r.function? name = none := by
  have hlookup : given.reverse.lookup name = none := hnone
  rw [function?, h.log_eq, hlookup, Option.bind_none]

theorem isSome_function?_iff (h : NamedBy given {} r) (hr : r.WellFormed) {name : Text} :
    (r.function? name).isSome ↔ ∃ p, (name, p) ∈ given := by
  rw [← not_iff_not, not_exists, ← lastPlace_eq_none_iff]
  cases hplace : lastPlace given name with
  | none => simp [h.function?_eq_none hplace]
  | some p =>
    obtain ⟨f, hf, -⟩ := h.exists_function? hr hplace
    simp [hf]

/-- The index finds functions by a name when the function that got the name last has kept it. -/
theorem findsByName_iff (h : NamedBy given {} r) (hr : r.WellFormed) {name : Text} :
    r.FindsByName given name ↔
      ∀ p, lastPlace given name = some p → lastName given p = some name := by
  cases hplace : lastPlace given name with
  | none =>
    have hnever : ∀ p, (name, p) ∉ given := lastPlace_eq_none_iff.1 hplace
    refine iff_of_true ⟨?_, ?_⟩ fun p hp => nomatch hp
    · rw [h.function?_eq_none hplace]
      refine iff_of_false (by simp) ?_
      rintro ⟨p, -, -, -, hlast⟩
      exact hnever p (mem_of_lastName hlast)
    · intro f hf
      rw [h.function?_eq_none hplace] at hf
      cases hf
  | some p =>
    obtain ⟨f, hfound, hf, hlast⟩ := h.exists_function? hr hplace
    constructor
    · rintro ⟨-, hcalled⟩ q hq
      obtain rfl := Option.some.inj hq
      rw [hlast, hcalled f hfound]
    · intro hkept
      have hname : f.name = name := Option.some.inj (hlast.symm.trans (hkept p rfl))
      refine ⟨iff_of_true (by rw [hfound]; rfl) ⟨p, f, hf, hname, hkept p rfl⟩, ?_⟩
      intro g hg
      rw [hfound] at hg
      rw [← Option.some.inj hg, hname]

end NamedBy

end Registry

end LuaReference
