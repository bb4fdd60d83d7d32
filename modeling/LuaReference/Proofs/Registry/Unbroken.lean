import LuaReference.Proofs.Registry.WellFormed
import LuaReference.Proofs.Text.Unbroken

/-!
# Texts without line ends in a registry

A registry is unbroken when no name, no type and no other text that was cut from one line has a line
end in it. Descriptions are put together from lines, so they have line feeds, but no carriage
returns. One lemma for each kind of change says when it keeps a registry unbroken.
-/

namespace LuaReference

structure Parameter.Unbroken (p : Parameter) : Prop where
  name : p.name.Unbroken
  type : p.type.Unbroken
  description : p.description.Unbroken

structure Field.Unbroken (f : Field) : Prop where
  name : f.name.Unbroken
  type : f.type.Unbroken
  description : '\r' ∉ f.description

structure Constructor.Unbroken (c : Constructor) : Prop where
  makes : c.makes.Unbroken
  parameters : ∀ p ∈ c.parameters, p.Unbroken
  description : '\r' ∉ c.description

structure Function.Unbroken (f : Function) : Prop where
  name : f.name.Unbroken
  owner : f.owner.name.Unbroken
  parameters : ∀ p ∈ f.parameters, p.Unbroken
  returnType : ∀ type, f.returnType = some type → type.Unbroken
  returnDescription : f.returnDescription.Unbroken
  description : '\r' ∉ f.description

structure Table.Unbroken (t : Table) : Prop where
  name : t.name.Unbroken
  fields : ∀ f ∈ t.fields, f.Unbroken
  functions : ∀ f ∈ t.functions, f.Unbroken
  description : '\r' ∉ t.description

structure Class.Unbroken (c : Class) : Prop where
  name : c.name.Unbroken
  parents : ∀ p ∈ c.parents, p.Unbroken
  fields : ∀ f ∈ c.fields, f.Unbroken
  constructors : ∀ k ∈ c.constructors, k.Unbroken
  functions : ∀ f ∈ c.functions, f.Unbroken
  description : '\r' ∉ c.description

/-- No text of the registry that was cut from one line has a line end, and no text a carriage
return. -/
structure Registry.Unbroken (r : Registry) : Prop where
  tables : ∀ t ∈ r.tables, t.Unbroken
  classes : ∀ c ∈ r.classes, c.Unbroken
  nameSpace : ∀ n, r.nameSpace = some n → n.Unbroken

/-! ### New entities and members -/

theorem Text.Unbroken.trim {t : Text} (h : t.Unbroken) : t.trim.Unbroken := h.mono t.trim_subset

theorem noReturn_pushLine {description line : Text} (hd : '\r' ∉ description) (hl : line.Unbroken) :
    '\r' ∉ pushLine description line := by
  rw [pushLine]
  split
  · exact hl.noReturn
  · rw [List.mem_append, List.mem_cons]
    rintro (h | h | h)
    · exact hd h
    · exact absurd h (by decide)
    · exact hl.noReturn h

theorem Field.unbroken_empty : ({} : Field).Unbroken :=
  ⟨Text.unbroken_nil, Text.unbroken_nil, List.not_mem_nil⟩

theorem Constructor.unbroken_makes {name : Text} (h : name.Unbroken) :
    ({ makes := name } : Constructor).Unbroken :=
  ⟨h, by simp, List.not_mem_nil⟩

theorem Function.unbroken_owned {o : Owner} (h : o.name.Unbroken) :
    ({ owner := o } : Function).Unbroken := by
  have hname : unnamed.Unbroken := by decide
  exact ⟨hname, h, by simp, by simp, Text.unbroken_nil, List.not_mem_nil⟩

theorem Table.unbroken_new {name : Text} (h : name.Unbroken) : (Table.new name).Unbroken :=
  ⟨h.trim, by simp [Table.new], by simp [Table.new], List.not_mem_nil⟩

theorem Class.unbroken_new {name : Text} (h : name.Unbroken) : (Class.new name).Unbroken :=
  ⟨h.trim, by simp [Class.new], by simp [Class.new], by simp [Class.new], by simp [Class.new],
    List.not_mem_nil⟩

theorem Class.Unbroken.inherit {c : Class} (h : c.Unbroken) {parent : Text}
    (hp : parent.Unbroken) : (c.inherit parent).Unbroken := by
  rw [Class.inherit]
  split
  · exact h
  · refine { h with parents := ?_ }
    intro p hmem
    rcases List.mem_append.1 hmem with hmem | hmem
    · exact h.parents p hmem
    · rw [List.mem_singleton.1 hmem]
      exact hp.trim

namespace Registry.Unbroken

variable {r : Registry}

theorem empty : Registry.Unbroken {} := ⟨by simp, by simp, by simp⟩

theorem ownerOf (h : r.Unbroken) (holder : Holder) : (r.ownerOf holder).name.Unbroken := by
  cases holder with
  | tableAt i =>
    rw [Registry.ownerOf, Owner.name]
    cases ht : r.tables[i]? with
    | none => exact Text.unbroken_nil
    | some t => exact (h.tables t (List.mem_of_getElem? ht)).name
  | classAt i =>
    rw [Registry.ownerOf, Owner.name]
    cases hc : r.classes[i]? with
    | none => exact Text.unbroken_nil
    | some c => exact (h.classes c (List.mem_of_getElem? hc)).name

/-! ### Changes -/

theorem modifyTable (h : r.Unbroken) (i : Nat) {f : Table → Table}
    (hf : ∀ t : Table, t.Unbroken → (f t).Unbroken) : (r.modifyTable i f).Unbroken :=
  { h with tables := forall_mem_modify h.tables fun t _ ht => hf t ht }

theorem modifyClass (h : r.Unbroken) (i : Nat) {f : Class → Class}
    (hf : ∀ c : Class, c.Unbroken → (f c).Unbroken) : (r.modifyClass i f).Unbroken :=
  { h with classes := forall_mem_modify h.classes fun c _ hc => hf c hc }

theorem modifyFields (h : r.Unbroken) (holder : Holder) (f : List Field → List Field)
    (hf : ∀ l, (∀ x ∈ l, Field.Unbroken x) → ∀ x ∈ f l, Field.Unbroken x) :
    (r.modifyFields holder f).Unbroken := by
  cases holder with
  | tableAt i => exact h.modifyTable i fun t ht => { ht with fields := hf t.fields ht.fields }
  | classAt i => exact h.modifyClass i fun c hc => { hc with fields := hf c.fields hc.fields }

theorem modifyFunctions (h : r.Unbroken) (holder : Holder) (f : List Function → List Function)
    (hf : ∀ l, (∀ x ∈ l, Function.Unbroken x) → ∀ x ∈ f l, Function.Unbroken x) :
    (r.modifyFunctions holder f).Unbroken := by
  cases holder with
  | tableAt i =>
    exact h.modifyTable i fun t ht => { ht with functions := hf t.functions ht.functions }
  | classAt i =>
    exact h.modifyClass i fun c hc => { hc with functions := hf c.functions hc.functions }

theorem modifyConstructors (h : r.Unbroken) (i : Nat) (f : List Constructor → List Constructor)
    (hf : ∀ l, (∀ x ∈ l, Constructor.Unbroken x) → ∀ x ∈ f l, Constructor.Unbroken x) :
    (r.modifyConstructors i f).Unbroken :=
  h.modifyClass i fun c hc => { hc with constructors := hf c.constructors hc.constructors }

theorem addField (h : r.Unbroken) (holder : Holder) : (r.addField holder).1.Unbroken := by
  refine h.modifyFields holder (· ++ [({} : Field)]) ?_
  intro l hl
  exact List.forall_mem_append.2 ⟨hl, List.forall_mem_singleton.2 Field.unbroken_empty⟩

theorem addFunction (h : r.Unbroken) (holder : Holder) : (r.addFunction holder).1.Unbroken := by
  refine h.modifyFunctions holder (· ++ [{ owner := r.ownerOf holder }]) ?_
  intro l hl
  have hnew := Function.unbroken_owned (h.ownerOf holder)
  exact List.forall_mem_append.2 ⟨hl, List.forall_mem_singleton.2 hnew⟩

theorem addConstructor (h : r.Unbroken) (i : Nat) : (r.addConstructor i).1.Unbroken := by
  refine h.modifyConstructors i (· ++ [{ makes := (r.ownerOf (.classAt i)).name }]) ?_
  intro l hl
  have hnew := Constructor.unbroken_makes (h.ownerOf (.classAt i))
  exact List.forall_mem_append.2 ⟨hl, List.forall_mem_singleton.2 hnew⟩

theorem modifyField (h : r.Unbroken) (p : Place) {f : Field → Field}
    (hf : ∀ x : Field, x.Unbroken → (f x).Unbroken) : (r.modifyField p f).Unbroken :=
  h.modifyFields p.holder _ fun _ hl => forall_mem_modify hl fun x _ hx => hf x hx

theorem modifyFunction (h : r.Unbroken) (p : Place) {f : Function → Function}
    (hf : ∀ x : Function, x.Unbroken → (f x).Unbroken) : (r.modifyFunction p f).Unbroken :=
  h.modifyFunctions p.holder _ fun _ hl => forall_mem_modify hl fun x _ hx => hf x hx

theorem modifyConstructor (h : r.Unbroken) (i j : Nat) {f : Constructor → Constructor}
    (hf : ∀ x : Constructor, x.Unbroken → (f x).Unbroken) :
    (r.modifyConstructor i j f).Unbroken :=
  h.modifyConstructors i _ fun _ hl => forall_mem_modify hl fun x _ hx => hf x hx

/-! ### Entries -/

theorem tableEntry (h : r.Unbroken) {name : Text} (hn : name.Unbroken) :
    (r.tableEntry name).1.Unbroken := by
  rcases r.tableEntry_cases name with ⟨i, _, he⟩ | ⟨_, he⟩
  · rw [he]
    exact h
  · rw [he]
    have hnew := Table.unbroken_new hn
    exact { h with
      tables := List.forall_mem_append.2 ⟨h.tables, List.forall_mem_singleton.2 hnew⟩ }

theorem classEntry (h : r.Unbroken) {name : Text} (hn : name.Unbroken) :
    (r.classEntry name).1.Unbroken := by
  rcases r.classEntry_cases name with ⟨i, _, he⟩ | ⟨_, he⟩
  · rw [he]
    exact h
  · rw [he]
    have hnew := Class.unbroken_new hn
    exact { h with
      classes := List.forall_mem_append.2 ⟨h.classes, List.forall_mem_singleton.2 hnew⟩ }

theorem setNameSpace (h : r.Unbroken) {name : Text} (hn : name.Unbroken) :
    (r.setNameSpace name).Unbroken := by
  refine { h with nameSpace := ?_ }
  intro n hset
  rw [Registry.setNameSpace] at hset
  split at hset
  · cases hset
  · obtain rfl := Option.some.inj hset
    exact hn.trim

end Registry.Unbroken

end LuaReference
