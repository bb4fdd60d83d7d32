import LuaReference.Proofs.Registry.Growth

/-!
# Extensions of a registry

A registry extends another one when it has the tables and classes of the other at their positions,
under their names, with every list of members and every description continued at its end. One lemma
for each kind of change says when it keeps an extension.
-/

namespace LuaReference

structure Table.Extends (t t' : Table) : Prop where
  name : t'.name = t.name
  fields : t.fields <+: t'.fields
  functions : t.functions <+: t'.functions
  description : t.description <+: t'.description

structure Class.Extends (c c' : Class) : Prop where
  name : c'.name = c.name
  parents : c.parents <+: c'.parents
  fields : c.fields <+: c'.fields
  constructors : c.constructors <+: c'.constructors
  functions : c.functions <+: c'.functions
  description : c.description <+: c'.description

/-- The second registry has all that the first one has, in the same places. -/
structure Registry.Extends (r r' : Registry) : Prop where
  tables : ∀ (i : Nat) (t : Table), r.tables[i]? = some t →
    ∃ t', r'.tables[i]? = some t' ∧ t.Extends t'
  classes : ∀ (i : Nat) (c : Class), r.classes[i]? = some c →
    ∃ c', r'.classes[i]? = some c' ∧ c.Extends c'

/-! ### Entities -/

theorem Table.Extends.refl (t : Table) : t.Extends t :=
  ⟨rfl, List.prefix_rfl, List.prefix_rfl, List.prefix_rfl⟩

theorem Class.Extends.refl (c : Class) : c.Extends c :=
  ⟨rfl, List.prefix_rfl, List.prefix_rfl, List.prefix_rfl, List.prefix_rfl, List.prefix_rfl⟩

theorem Class.Extends.trans {c c' c'' : Class} (h : c.Extends c') (h' : c'.Extends c'') :
    c.Extends c'' where
  name := h'.name.trans h.name
  parents := h.parents.trans h'.parents
  fields := h.fields.trans h'.fields
  constructors := h.constructors.trans h'.constructors
  functions := h.functions.trans h'.functions
  description := h.description.trans h'.description

theorem prefix_pushLine (description line : Text) : description <+: pushLine description line := by
  by_cases h : description = []
  · rw [h]
    exact List.nil_prefix
  · rw [pushLine_of_ne_nil h]
    exact List.prefix_append _ _

theorem Class.extends_inherit (c : Class) (parent : Text) : c.Extends (c.inherit parent) := by
  rw [Class.inherit]
  split
  · exact .refl c
  · exact { Class.Extends.refl c with parents := List.prefix_append _ _ }

/-- A change behind the end of a list's old part leaves the old part alone. -/
theorem prefix_modify {α : Type} {l l' : List α} {i : Nat} (h : l <+: l') (hi : l.length ≤ i)
    (f : α → α) : l <+: l'.modify i f := by
  obtain ⟨later, rfl⟩ := h
  refine List.prefix_iff_getElem?.2 ?_
  intro j hj
  have hne : i ≠ j := by omega
  rw [List.getElem?_modify, List.getElem?_append_left hj, List.getElem?_eq_getElem hj]
  simp [hne]

namespace Registry.Extends

variable {r r' : Registry}

theorem refl (r : Registry) : r.Extends r :=
  ⟨fun _ t ht => ⟨t, ht, .refl t⟩, fun _ c hc => ⟨c, hc, .refl c⟩⟩

/-! ### Numbers of members -/

theorem fieldCount_le (h : r.Extends r') (holder : Holder) :
    r.fieldCount holder ≤ r'.fieldCount holder := by
  cases holder with
  | tableAt i =>
    cases ht : r.tables[i]? with
    | none => simp [fieldCount, ht]
    | some t =>
      obtain ⟨t', ht', hext⟩ := h.tables i t ht
      simp [fieldCount, ht, ht', hext.fields.length_le]
  | classAt i =>
    cases hc : r.classes[i]? with
    | none => simp [fieldCount, hc]
    | some c =>
      obtain ⟨c', hc', hext⟩ := h.classes i c hc
      simp [fieldCount, hc, hc', hext.fields.length_le]

theorem functionCount_le (h : r.Extends r') (holder : Holder) :
    (r.functionsOf holder).length ≤ (r'.functionsOf holder).length := by
  cases holder with
  | tableAt i =>
    cases ht : r.tables[i]? with
    | none => simp [functionsOf, ht]
    | some t =>
      obtain ⟨t', ht', hext⟩ := h.tables i t ht
      simp [functionsOf, ht, ht', hext.functions.length_le]
  | classAt i =>
    cases hc : r.classes[i]? with
    | none => simp [functionsOf, hc]
    | some c =>
      obtain ⟨c', hc', hext⟩ := h.classes i c hc
      simp [functionsOf, hc, hc', hext.functions.length_le]

theorem constructorCount_le (h : r.Extends r') (i : Nat) :
    r.constructorCount i ≤ r'.constructorCount i := by
  cases hc : r.classes[i]? with
  | none => simp [constructorCount, hc]
  | some c =>
    obtain ⟨c', hc', hext⟩ := h.classes i c hc
    simp [constructorCount, hc, hc', hext.constructors.length_le]

/-! ### Changes -/

theorem modifyTable (h : r.Extends r') (i : Nat) {f : Table → Table}
    (hf : ∀ t t', r.tables[i]? = some t → t.Extends t' → t.Extends (f t')) :
    r.Extends (r'.modifyTable i f) := by
  refine ⟨?_, h.classes⟩
  intro j t ht
  obtain ⟨t', ht', hext⟩ := h.tables j t ht
  by_cases hij : i = j
  · subst hij
    exact ⟨f t', by simp [Registry.modifyTable, ht'], hf t t' ht hext⟩
  · exact ⟨t', by simp [Registry.modifyTable, hij, ht'], hext⟩

theorem modifyClass (h : r.Extends r') (i : Nat) {f : Class → Class}
    (hf : ∀ c c', r.classes[i]? = some c → c.Extends c' → c.Extends (f c')) :
    r.Extends (r'.modifyClass i f) := by
  refine ⟨h.tables, ?_⟩
  intro j c hc
  obtain ⟨c', hc', hext⟩ := h.classes j c hc
  by_cases hij : i = j
  · subst hij
    exact ⟨f c', by simp [Registry.modifyClass, hc'], hf c c' hc hext⟩
  · exact ⟨c', by simp [Registry.modifyClass, hij, hc'], hext⟩

theorem modifyFields (h : r.Extends r') (holder : Holder) {f : List Field → List Field}
    (hf : ∀ l l' : List Field, l.length = r.fieldCount holder → l <+: l' → l <+: f l') :
    r.Extends (r'.modifyFields holder f) := by
  cases holder with
  | tableAt i =>
    refine h.modifyTable i ?_
    intro t t' ht hext
    have hlength : t.fields.length = r.fieldCount (.tableAt i) := by simp [fieldCount, ht]
    exact { hext with fields := hf _ _ hlength hext.fields }
  | classAt i =>
    refine h.modifyClass i ?_
    intro c c' hc hext
    have hlength : c.fields.length = r.fieldCount (.classAt i) := by simp [fieldCount, hc]
    exact { hext with fields := hf _ _ hlength hext.fields }

theorem modifyFunctions (h : r.Extends r') (holder : Holder) {f : List Function → List Function}
    (hf : ∀ l l' : List Function, l.length = (r.functionsOf holder).length → l <+: l' →
      l <+: f l') : r.Extends (r'.modifyFunctions holder f) := by
  cases holder with
  | tableAt i =>
    refine h.modifyTable i ?_
    intro t t' ht hext
    have hlength : t.functions.length = (r.functionsOf (.tableAt i)).length := by
      simp [functionsOf, ht]
    exact { hext with functions := hf _ _ hlength hext.functions }
  | classAt i =>
    refine h.modifyClass i ?_
    intro c c' hc hext
    have hlength : c.functions.length = (r.functionsOf (.classAt i)).length := by
      simp [functionsOf, hc]
    exact { hext with functions := hf _ _ hlength hext.functions }

theorem modifyConstructors (h : r.Extends r') (i : Nat)
    {f : List Constructor → List Constructor}
    (hf : ∀ l l' : List Constructor, l.length = r.constructorCount i → l <+: l' → l <+: f l') :
    r.Extends (r'.modifyConstructors i f) := by
  refine h.modifyClass i ?_
  intro c c' hc hext
  have hlength : c.constructors.length = r.constructorCount i := by simp [constructorCount, hc]
  exact { hext with constructors := hf _ _ hlength hext.constructors }

theorem addField (h : r.Extends r') (holder : Holder) : r.Extends (r'.addField holder).1 :=
  h.modifyFields holder fun _ _ _ hprefix => hprefix.trans (List.prefix_append _ _)

theorem addFunction (h : r.Extends r') (holder : Holder) : r.Extends (r'.addFunction holder).1 :=
  h.modifyFunctions holder fun _ _ _ hprefix => hprefix.trans (List.prefix_append _ _)

theorem addConstructor (h : r.Extends r') (i : Nat) : r.Extends (r'.addConstructor i).1 :=
  h.modifyConstructors i fun _ _ _ hprefix => hprefix.trans (List.prefix_append _ _)

theorem modifyField (h : r.Extends r') {p : Place} (hp : r.fieldCount p.holder ≤ p.index)
    (f : Field → Field) : r.Extends (r'.modifyField p f) :=
  h.modifyFields p.holder fun _ _ hlength hprefix => prefix_modify hprefix (hlength ▸ hp) f

theorem modifyFunction (h : r.Extends r') {p : Place}
    (hp : (r.functionsOf p.holder).length ≤ p.index) (f : Function → Function) :
    r.Extends (r'.modifyFunction p f) :=
  h.modifyFunctions p.holder fun _ _ hlength hprefix => prefix_modify hprefix (hlength ▸ hp) f

theorem modifyConstructor (h : r.Extends r') {i j : Nat} (hj : r.constructorCount i ≤ j)
    (f : Constructor → Constructor) : r.Extends (r'.modifyConstructor i j f) :=
  h.modifyConstructors i fun _ _ hlength hprefix => prefix_modify hprefix (hlength ▸ hj) f

/-! ### Entries -/

theorem tableEntry (h : r.Extends r') (name : Text) : r.Extends (r'.tableEntry name).1 := by
  rcases r'.tableEntry_cases name with ⟨i, _, he⟩ | ⟨_, he⟩
  · rw [he]
    exact h
  · rw [he]
    refine ⟨?_, h.classes⟩
    intro j t ht
    obtain ⟨t', ht', hext⟩ := h.tables j t ht
    obtain ⟨hlt, _⟩ := List.getElem?_eq_some_iff.1 ht'
    exact ⟨t', by rw [List.getElem?_append_left hlt, ht'], hext⟩

theorem classEntry (h : r.Extends r') (name : Text) : r.Extends (r'.classEntry name).1 := by
  rcases r'.classEntry_cases name with ⟨i, _, he⟩ | ⟨_, he⟩
  · rw [he]
    exact h
  · rw [he]
    refine ⟨h.tables, ?_⟩
    intro j c hc
    obtain ⟨c', hc', hext⟩ := h.classes j c hc
    obtain ⟨hlt, _⟩ := List.getElem?_eq_some_iff.1 hc'
    exact ⟨c', by rw [List.getElem?_append_left hlt, hc'], hext⟩

end Registry.Extends

end LuaReference
