import LuaReference.Proofs.Registry.Growth
import LuaReference.Proofs.Text.Trim
import Mathlib.Data.List.Nodup

/-!
# Well-formed registries

The invariant of a registry: names are trimmed and indexed, members name their holder, parents
and namespace are trimmed, and every place in the function index is in range. One lemma for each
kind of change says that it keeps the invariant.
-/

namespace LuaReference

/-! ### Indexes -/

/-- An index has exactly the positions of the names in a list. -/
def Indexes (index : List (Text × Nat)) (names : List Text) : Prop :=
  ∀ n i, index.lookup n = some i ↔ names[i]? = some n

theorem indexes_nil : Indexes [] [] := by
  intro n i
  simp

theorem Indexes.nodup {index : List (Text × Nat)} {names : List Text} (h : Indexes index names) :
    names.Nodup := by
  rw [List.nodup_iff_getElem?_ne_getElem?]
  intro i j hij hj heq
  have hnj : names[j]? = some names[j] := List.getElem?_eq_getElem hj
  have hi : index.lookup names[j] = some i := (h _ _).2 (heq.trans hnj)
  have hj : index.lookup names[j] = some j := (h _ _).2 hnj
  rw [hi, Option.some.injEq] at hj
  omega

theorem Indexes.not_mem {index : List (Text × Nat)} {names : List Text} (h : Indexes index names)
    {n : Text} (hn : index.lookup n = none) : n ∉ names := by
  intro hmem
  obtain ⟨i, hi⟩ := List.mem_iff_getElem?.1 hmem
  rw [(h n i).2 hi] at hn
  cases hn

theorem Indexes.lt {index : List (Text × Nat)} {names : List Text} (h : Indexes index names)
    {n : Text} {i : Nat} (hi : index.lookup n = some i) : i < names.length := by
  obtain ⟨hlt, _⟩ := List.getElem?_eq_some_iff.1 ((h n i).1 hi)
  exact hlt

theorem Indexes.add {index : List (Text × Nat)} {names : List Text} (h : Indexes index names)
    {n : Text} (hn : index.lookup n = none) :
    Indexes ((n, names.length) :: index) (names ++ [n]) := by
  intro m i
  by_cases hmn : m = n
  · subst hmn
    have hnot : m ∉ names := h.not_mem hn
    rw [List.lookup_cons_self, Option.some.injEq]
    constructor
    · rintro rfl
      simp
    · intro hi
      by_cases hlt : i < names.length
      · rw [List.getElem?_append_left hlt] at hi
        exact absurd (List.mem_of_getElem? hi) hnot
      · have hlen : i < (names ++ [m]).length := by
          obtain ⟨hb, _⟩ := List.getElem?_eq_some_iff.1 hi
          exact hb
        rw [List.length_append, List.length_singleton] at hlen
        omega
  · have hbeq : (m == n) = false := by simpa using hmn
    rw [List.lookup_cons, hbeq, h m i]
    constructor
    · intro hi
      obtain ⟨hb, _⟩ := List.getElem?_eq_some_iff.1 hi
      rw [List.getElem?_append_left hb]
      exact hi
    · intro hi
      by_cases hlt : i < names.length
      · rwa [List.getElem?_append_left hlt] at hi
      · rw [List.getElem?_append_right (by omega)] at hi
        have hmem : m ∈ [n] := List.mem_of_getElem? hi
        exact absurd (List.mem_singleton.1 hmem) hmn

theorem Indexes.find_iff {α : Type} {index : List (Text × Nat)} {l : List α} {name : α → Text}
    (h : Indexes index (l.map name)) (n : Text) (a : α) :
    (index.lookup n).bind (l[·]?) = some a ↔ a ∈ l ∧ name a = n := by
  rw [Option.bind_eq_some_iff]
  constructor
  · rintro ⟨i, hi, ha⟩
    have hn := (h n i).1 hi
    rw [List.getElem?_map, ha, Option.map_some, Option.some.injEq] at hn
    exact ⟨List.mem_of_getElem? ha, hn⟩
  · rintro ⟨hmem, rfl⟩
    obtain ⟨i, hi⟩ := List.mem_iff_getElem?.1 hmem
    refine ⟨i, (h (name a) i).2 ?_, hi⟩
    rw [List.getElem?_map, hi, Option.map_some]

/-! ### The invariant -/

/-- A table whose name is trimmed and whose functions name it. -/
structure Table.Sound (t : Table) : Prop where
  trimmed : t.name.trim = t.name
  owned : ∀ f ∈ t.functions, f.owner = .table t.name

/-- A class whose name is trimmed, whose members name it, and whose parents are trimmed and
without repeats. -/
structure Class.Sound (c : Class) : Prop where
  trimmed : c.name.trim = c.name
  owned : ∀ f ∈ c.functions, f.owner = .ofClass c.name
  made : ∀ k ∈ c.constructors, k.makes = c.name
  parents_nodup : c.parents.Nodup
  parents_trimmed : ∀ p ∈ c.parents, p.trim = p

def Registry.HasFunction (r : Registry) (p : Place) : Prop :=
  p.index < (r.functionsOf p.holder).length

structure Registry.WellFormed (r : Registry) : Prop where
  tables : ∀ t ∈ r.tables, t.Sound
  classes : ∀ c ∈ r.classes, c.Sound
  tableIndex : Indexes r.tableIndex (r.tables.map Table.name)
  classIndex : Indexes r.classIndex (r.classes.map Class.name)
  nameSpace : ∀ n, r.nameSpace = some n → n ≠ [] ∧ n.trim = n
  named : ∀ x ∈ r.named, r.HasFunction x.2

theorem Registry.HasFunction.grows {r r' : Registry} {p : Place} (h : r.HasFunction p)
    (hg : r.Grows r') : r'.HasFunction p :=
  lt_of_lt_of_le h (hg.functions p.holder)

theorem Registry.HasFunction.exists {r : Registry} {p : Place} (h : r.HasFunction p) :
    ∃ f, r.functionAt? p = some f :=
  ⟨_, List.getElem?_eq_getElem h⟩

theorem Registry.wellFormed_empty : Registry.WellFormed {} where
  tables := by simp
  classes := by simp
  tableIndex := indexes_nil
  classIndex := indexes_nil
  nameSpace := by simp
  named := by simp

/-! ### Entities -/

theorem Class.fits_inherit (c : Class) (parent : Text) : c.Fits (c.inherit parent) := by
  rw [Class.inherit]
  split
  · exact ⟨rfl, Nat.le_refl _, Nat.le_refl _, Nat.le_refl _⟩
  · exact ⟨rfl, Nat.le_refl _, Nat.le_refl _, Nat.le_refl _⟩

theorem Class.Sound.inherit {c : Class} (h : c.Sound) (parent : Text) :
    (c.inherit parent).Sound := by
  by_cases hp : parent.trim ∈ c.parents
  · have heq : c.inherit parent = c := by simp [Class.inherit, Class.inherits, hp]
    rw [heq]
    exact h
  · have heq : c.inherit parent = { c with parents := c.parents ++ [parent.trim] } := by
      simp [Class.inherit, Class.inherits, hp]
    rw [heq]
    refine ⟨h.trimmed, h.owned, h.made, ?_, ?_⟩
    · refine List.nodup_append.2 ⟨h.parents_nodup, List.nodup_singleton _, ?_⟩
      intro a ha b hb hab
      rw [List.mem_singleton.1 hb] at hab
      exact hp (hab ▸ ha)
    · intro p hmem
      rcases List.mem_append.1 hmem with hmem | hmem
      · exact h.parents_trimmed p hmem
      · rw [List.mem_singleton.1 hmem]
        exact Text.trim_trim parent

theorem forall_mem_modify {α : Type} {P : α → Prop} {l : List α} {i : Nat} {f : α → α}
    (h : ∀ a ∈ l, P a) (hf : ∀ a, l[i]? = some a → P a → P (f a)) : ∀ a ∈ l.modify i f, P a := by
  intro a ha
  obtain ⟨j, hj⟩ := List.mem_iff_getElem?.1 ha
  rw [List.getElem?_modify] at hj
  cases hb : l[j]? with
  | none => simp [hb] at hj
  | some b =>
    have hPb : P b := h b (List.mem_of_getElem? hb)
    by_cases hij : i = j
    · subst hij
      have hab : f b = a := by simpa [hb] using hj
      rw [← hab]
      exact hf b hb hPb
    · have hab : b = a := by simpa [hb, hij] using hj
      rwa [← hab]

theorem map_modify_of_eq {α β : Type} (l : List α) (i : Nat) (f : α → α) (g : α → β)
    (h : ∀ a, g (f a) = g a) : (l.modify i f).map g = l.map g := by
  induction l generalizing i with
  | nil => simp
  | cons a l ih => cases i <;> simp [h, ih]

namespace Registry.WellFormed

variable {r : Registry}

theorem modifyTable (h : r.WellFormed) (i : Nat) (f : Table → Table)
    (hs : ∀ t, r.tables[i]? = some t → t.Sound → (f t).Sound) (hf : ∀ t : Table, t.Fits (f t)) :
    (r.modifyTable i f).WellFormed where
  tables := forall_mem_modify h.tables hs
  classes := h.classes
  tableIndex := by
    have hnames : (r.tables.modify i f).map Table.name = r.tables.map Table.name :=
      map_modify_of_eq r.tables i f Table.name fun t => (hf t).1
    rw [Registry.modifyTable, hnames]
    exact h.tableIndex
  classIndex := h.classIndex
  nameSpace := h.nameSpace
  named := fun x hx => (h.named x hx).grows (grows_modifyTable i f hf)

theorem modifyClass (h : r.WellFormed) (i : Nat) (f : Class → Class)
    (hs : ∀ c, r.classes[i]? = some c → c.Sound → (f c).Sound) (hf : ∀ c : Class, c.Fits (f c)) :
    (r.modifyClass i f).WellFormed where
  tables := h.tables
  classes := forall_mem_modify h.classes hs
  tableIndex := h.tableIndex
  classIndex := by
    have hnames : (r.classes.modify i f).map Class.name = r.classes.map Class.name :=
      map_modify_of_eq r.classes i f Class.name fun c => (hf c).1
    rw [Registry.modifyClass, hnames]
    exact h.classIndex
  nameSpace := h.nameSpace
  named := fun x hx => (h.named x hx).grows (grows_modifyClass i f hf)

theorem tableEntry (h : r.WellFormed) (name : Text) : (r.tableEntry name).1.WellFormed := by
  have hgrows : r.Grows (r.tableEntry name).1 := grows_tableEntry name
  rcases r.tableEntry_cases name with ⟨i, _, he⟩ | ⟨hnone, he⟩
  · rw [he]
    exact h
  · rw [he] at hgrows ⊢
    refine ⟨?_, h.classes, ?_, h.classIndex, h.nameSpace,
      fun x hx => (h.named x hx).grows hgrows⟩
    · intro t ht
      rcases List.mem_append.1 ht with ht | ht
      · exact h.tables t ht
      · rw [List.mem_singleton.1 ht]
        exact ⟨Text.trim_trim name, by simp [Table.new]⟩
    · have hadd := h.tableIndex.add hnone
      rw [List.length_map] at hadd
      rw [List.map_append]
      exact hadd

theorem classEntry (h : r.WellFormed) (name : Text) : (r.classEntry name).1.WellFormed := by
  have hgrows : r.Grows (r.classEntry name).1 := grows_classEntry name
  rcases r.classEntry_cases name with ⟨i, _, he⟩ | ⟨hnone, he⟩
  · rw [he]
    exact h
  · rw [he] at hgrows ⊢
    refine ⟨h.tables, ?_, h.tableIndex, ?_, h.nameSpace,
      fun x hx => (h.named x hx).grows hgrows⟩
    · intro c hc
      rcases List.mem_append.1 hc with hc | hc
      · exact h.classes c hc
      · rw [List.mem_singleton.1 hc]
        exact ⟨Text.trim_trim name, by simp [Class.new], by simp [Class.new],
          by simp [Class.new], by simp [Class.new]⟩
    · have hadd := h.classIndex.add hnone
      rw [List.length_map] at hadd
      rw [List.map_append]
      exact hadd

theorem setNameSpace (h : r.WellFormed) (name : Text) : (r.setNameSpace name).WellFormed where
  tables := h.tables
  classes := h.classes
  tableIndex := h.tableIndex
  classIndex := h.classIndex
  nameSpace := by
    intro n hn
    rw [Registry.setNameSpace] at hn
    by_cases hblank : name.trim = []
    · simp [hblank] at hn
    · have heq : name.trim = n := by simpa [hblank] using hn
      rw [← heq]
      exact ⟨hblank, Text.trim_trim name⟩
  named := fun x hx => (h.named x hx).grows (grows_setNameSpace name)

theorem recordName (h : r.WellFormed) (name : Text) (p : Place) (hp : r.HasFunction p) :
    (r.recordName name p).WellFormed where
  tables := h.tables
  classes := h.classes
  tableIndex := h.tableIndex
  classIndex := h.classIndex
  nameSpace := h.nameSpace
  named := by
    intro x hx
    have hgrows : r.Grows (r.recordName name p) := grows_recordName name p
    rcases List.mem_cons.1 hx with rfl | hx
    · exact hp.grows hgrows
    · exact (h.named x hx).grows hgrows

/-! ### Members -/

theorem modifyFields (h : r.WellFormed) (holder : Holder) (f : List Field → List Field)
    (hf : ∀ l, l.length ≤ (f l).length) : (r.modifyFields holder f).WellFormed := by
  cases holder with
  | tableAt i =>
    exact h.modifyTable i _ (fun t _ ht => ⟨ht.trimmed, ht.owned⟩)
      fun t => ⟨rfl, hf t.fields, le_rfl⟩
  | classAt i =>
    exact h.modifyClass i _
      (fun c _ hc => ⟨hc.trimmed, hc.owned, hc.made, hc.parents_nodup, hc.parents_trimmed⟩)
      fun c => ⟨rfl, hf c.fields, le_rfl, le_rfl⟩

/-- A change of the functions of one holder, each of which names the holder. -/
theorem modifyFunctions (h : r.WellFormed) (holder : Holder) (f : List Function → List Function)
    (hf : ∀ l, l.length ≤ (f l).length)
    (ho : ∀ l, (∀ g ∈ l, g.owner = r.ownerOf holder) → ∀ g ∈ f l, g.owner = r.ownerOf holder) :
    (r.modifyFunctions holder f).WellFormed := by
  cases holder with
  | tableAt i =>
    refine h.modifyTable i _ ?_ fun t => ⟨rfl, le_rfl, hf t.functions⟩
    intro t ht hs
    have howner : r.ownerOf (.tableAt i) = .table t.name := by simp [ownerOf, ht]
    rw [howner] at ho
    exact ⟨hs.trimmed, ho t.functions hs.owned⟩
  | classAt i =>
    refine h.modifyClass i _ ?_ fun c => ⟨rfl, le_rfl, le_rfl, hf c.functions⟩
    intro c hc hs
    have howner : r.ownerOf (.classAt i) = .ofClass c.name := by simp [ownerOf, hc]
    rw [howner] at ho
    exact ⟨hs.trimmed, ho c.functions hs.owned, hs.made, hs.parents_nodup, hs.parents_trimmed⟩

theorem modifyConstructors (h : r.WellFormed) (i : Nat) (f : List Constructor → List Constructor)
    (hf : ∀ l, l.length ≤ (f l).length)
    (ho : ∀ l, (∀ k ∈ l, k.makes = (r.ownerOf (.classAt i)).name) →
      ∀ k ∈ f l, k.makes = (r.ownerOf (.classAt i)).name) :
    (r.modifyConstructors i f).WellFormed := by
  refine h.modifyClass i _ ?_ fun c => ⟨rfl, le_rfl, hf c.constructors, le_rfl⟩
  intro c hc hs
  have howner : (r.ownerOf (.classAt i)).name = c.name := by simp [ownerOf, hc, Owner.name]
  rw [howner] at ho
  exact ⟨hs.trimmed, hs.owned, ho c.constructors hs.made, hs.parents_nodup, hs.parents_trimmed⟩

theorem addField (h : r.WellFormed) (holder : Holder) : (r.addField holder).1.WellFormed :=
  h.modifyFields holder (· ++ [({} : Field)]) fun l => by simp

theorem addFunction (h : r.WellFormed) (holder : Holder) :
    (r.addFunction holder).1.WellFormed := by
  refine h.modifyFunctions holder (· ++ [{ owner := r.ownerOf holder }]) (fun l => by simp) ?_
  intro l hl g hg
  rcases List.mem_append.1 hg with hg | hg
  · exact hl g hg
  · rw [List.mem_singleton.1 hg]

theorem addConstructor (h : r.WellFormed) (i : Nat) : (r.addConstructor i).1.WellFormed := by
  refine h.modifyConstructors i (· ++ [{ makes := (r.ownerOf (.classAt i)).name }])
    (fun l => by simp) ?_
  intro l hl k hk
  rcases List.mem_append.1 hk with hk | hk
  · exact hl k hk
  · rw [List.mem_singleton.1 hk]

theorem modifyField (h : r.WellFormed) (p : Place) (f : Field → Field) :
    (r.modifyField p f).WellFormed :=
  h.modifyFields p.holder _ fun l => by rw [List.length_modify]

theorem modifyFunction (h : r.WellFormed) (p : Place) (f : Function → Function)
    (ho : ∀ g, (f g).owner = g.owner) : (r.modifyFunction p f).WellFormed := by
  refine h.modifyFunctions p.holder _ (fun l => by rw [List.length_modify]) ?_
  intro l hl
  exact forall_mem_modify hl fun g _ hg => (ho g).trans hg

theorem modifyConstructor (h : r.WellFormed) (i j : Nat) (f : Constructor → Constructor)
    (ho : ∀ k, (f k).makes = k.makes) : (r.modifyConstructor i j f).WellFormed := by
  refine h.modifyConstructors i _ (fun l => by rw [List.length_modify]) ?_
  intro l hl
  exact forall_mem_modify hl fun k _ hk => (ho k).trans hk

/-! ### Positions -/

theorem tableEntry_lt (h : r.WellFormed) (name : Text) :
    (r.tableEntry name).2 < (r.tableEntry name).1.tables.length := by
  rcases r.tableEntry_cases name with ⟨i, hi, he⟩ | ⟨_, he⟩
  · have hlt := h.tableIndex.lt hi
    rw [List.length_map] at hlt
    rw [he]
    exact hlt
  · rw [he]
    simp

theorem classEntry_lt (h : r.WellFormed) (name : Text) :
    (r.classEntry name).2 < (r.classEntry name).1.classes.length := by
  rcases r.classEntry_cases name with ⟨i, hi, he⟩ | ⟨_, he⟩
  · have hlt := h.classIndex.lt hi
    rw [List.length_map] at hlt
    rw [he]
    exact hlt
  · rw [he]
    simp

end Registry.WellFormed

def Registry.HasHolder (r : Registry) : Holder → Prop
  | .tableAt i => i < r.tables.length
  | .classAt i => i < r.classes.length

namespace Registry.HasHolder

variable {r : Registry}

theorem addField {h : Holder} (hh : r.HasHolder h) :
    (r.addField h).2.index < (r.addField h).1.fieldCount h := by
  cases h with
  | tableAt i =>
    have hi : i < r.tables.length := hh
    simp [Registry.addField, modifyFields, fieldCount, modifyTable, hi]
  | classAt i =>
    have hi : i < r.classes.length := hh
    simp [Registry.addField, modifyFields, fieldCount, modifyClass, hi]

theorem addFunction {h : Holder} (hh : r.HasHolder h) :
    (r.addFunction h).1.HasFunction (r.addFunction h).2 := by
  rw [HasFunction, functionsOf_length]
  cases h with
  | tableAt i =>
    have hi : i < r.tables.length := hh
    simp [Registry.addFunction, modifyFunctions, functionsOf, modifyTable, hi]
  | classAt i =>
    have hi : i < r.classes.length := hh
    simp [Registry.addFunction, modifyFunctions, functionsOf, modifyClass, hi]

theorem addConstructor {i : Nat} (hi : i < r.classes.length) :
    (r.addConstructor i).2 < (r.addConstructor i).1.constructorCount i := by
  simp [Registry.addConstructor, modifyConstructors, constructorCount, modifyClass, hi]

end Registry.HasHolder

end LuaReference
