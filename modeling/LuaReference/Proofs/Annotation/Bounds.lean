import LuaReference.Proofs.Annotation.Invariant

/-!
# Positions in range

`Recorder.after?` records a comment line with every position checked before it is read or written.
In a sound recorder no check fails, and the outcome is that of `Recorder.after`.
-/

namespace LuaReference

/-! ### Checked positions -/

/-- The list with the member at a position changed; nothing when there is no such member or when
the change fails. -/
def changeAt? {α : Type} (l : List α) (i : Nat) (f : α → Option α) : Option (List α) :=
  l[i]?.bind fun a => (f a).map (l.set i ·)

namespace Registry

def changeTable? (r : Registry) (i : Nat) (f : Table → Option Table) : Option Registry :=
  (changeAt? r.tables i f).map fun l => { r with tables := l }

def changeClass? (r : Registry) (i : Nat) (f : Class → Option Class) : Option Registry :=
  (changeAt? r.classes i f).map fun l => { r with classes := l }

def changeFields? (r : Registry) (h : Holder) (f : List Field → Option (List Field)) :
    Option Registry :=
  match h with
  | .tableAt i => r.changeTable? i fun t => (f t.fields).map fun l => { t with fields := l }
  | .classAt i => r.changeClass? i fun c => (f c.fields).map fun l => { c with fields := l }

def changeFunctions? (r : Registry) (h : Holder) (f : List Function → Option (List Function)) :
    Option Registry :=
  match h with
  | .tableAt i => r.changeTable? i fun t => (f t.functions).map fun l => { t with functions := l }
  | .classAt i => r.changeClass? i fun c => (f c.functions).map fun l => { c with functions := l }

def changeConstructors? (r : Registry) (i : Nat)
    (f : List Constructor → Option (List Constructor)) : Option Registry :=
  r.changeClass? i fun c => (f c.constructors).map fun l => { c with constructors := l }

def owner? (r : Registry) : Holder → Option Owner
  | .tableAt i => r.tables[i]?.map fun t => .table t.name
  | .classAt i => r.classes[i]?.map fun c => .ofClass c.name

end Registry

/-- `Cursor.fill` with every position checked. -/
def Cursor.fill? (c : Cursor) (r : Registry) (line : Text) : Option Registry :=
  match c with
  | table (some i) => r.changeTable? i fun t => some (Recorder.extendTable line t)
  | ofClass (some i) => r.changeClass? i fun c => some (Recorder.extendClass line c)
  | field (some p) =>
    r.changeFields? p.holder (changeAt? · p.index fun f => some (Recorder.extendField line f))
  | constructor (some (i, j)) =>
    r.changeConstructors? i (changeAt? · j fun k => some (Recorder.extendConstructor line k))
  | function (some p) =>
    if tagged "name" line then
      (r.recordName (tagValue line) p).changeFunctions? p.holder
        (changeAt? · p.index fun f => some (Recorder.nameFunction line f))
    else
      r.changeFunctions? p.holder
        (changeAt? · p.index fun f => some (Recorder.extendFunction line f))
  | _ => some r

/-- `Kind.openPart` with every position checked. -/
def Kind.openPart? (k : Kind) (r : Registry) (line : Text) : Option Recorder :=
  match k with
  | table | ofClass | nameSpace => some (k.openPart r line)
  | field =>
    let owner := r.ownerEntry line
    (owner.1.changeFields? owner.2 fun l => some (l ++ [({} : Field)])).map fun r =>
      ⟨r, .field (some ⟨owner.2, owner.1.fieldCount owner.2⟩)⟩
  | constructor =>
    let c := r.classEntry (tagValue line)
    (c.1.owner? (.classAt c.2)).bind fun owner =>
      (c.1.changeConstructors? c.2 fun l => some (l ++ [{ makes := owner.name }])).map fun r =>
        ⟨r, .constructor (some (c.2, c.1.constructorCount c.2))⟩
  | function =>
    let owner := r.ownerEntry line
    (owner.1.owner? owner.2).bind fun o =>
      (owner.1.changeFunctions? owner.2 fun l => some (l ++ [{ owner := o }])).map fun r =>
        ⟨r, .function (some ⟨owner.2, (owner.1.functionsOf owner.2).length⟩)⟩

/-- `Recorder.after` with every position checked. -/
def Recorder.after? (r : Recorder) (line : Text) : Option Recorder :=
  match r.cursor.kind? with
  | none => some r
  | some k =>
    if k.opens line then k.openPart? r.registry line
    else (r.cursor.fill? r.registry line).map fun g => { r with registry := g }

/-! ### Positions in range -/

theorem changeAt?_eq {α : Type} {l : List α} {i : Nat} {f : α → Option α} {g : α → α}
    (hi : i < l.length) (h : ∀ a, l[i]? = some a → f a = some (g a)) :
    changeAt? l i f = some (l.modify i g) := by
  have ha : l[i]? = some l[i] := List.getElem?_eq_getElem hi
  rw [changeAt?, ha, Option.bind_some, h _ ha, Option.map_some, Option.some.injEq]
  refine List.ext_getElem? ?_
  intro j
  rw [List.getElem?_set, List.getElem?_modify]
  by_cases hij : i = j
  · subst hij
    simp [hi]
  · simp [hij]

theorem lt_getD_iff {α : Type} {f : α → Nat} {o : Option α} {j : Nat} :
    j < (o.map f).getD 0 ↔ ∃ a, o = some a ∧ j < f a := by
  cases o <;> simp

namespace Registry

variable {r : Registry}

theorem changeTable?_eq {i : Nat} {f : Table → Option Table} {g : Table → Table}
    (hi : i < r.tables.length) (h : ∀ t, r.tables[i]? = some t → f t = some (g t)) :
    r.changeTable? i f = some (r.modifyTable i g) := by
  rw [changeTable?, changeAt?_eq hi h]
  rfl

theorem changeClass?_eq {i : Nat} {f : Class → Option Class} {g : Class → Class}
    (hi : i < r.classes.length) (h : ∀ c, r.classes[i]? = some c → f c = some (g c)) :
    r.changeClass? i f = some (r.modifyClass i g) := by
  rw [changeClass?, changeAt?_eq hi h]
  rfl

theorem changeFields?_eq {h : Holder} (hh : r.HasHolder h)
    {f : List Field → Option (List Field)} {g : List Field → List Field}
    (hf : ∀ l, l.length = r.fieldCount h → f l = some (g l)) :
    r.changeFields? h f = some (r.modifyFields h g) := by
  cases h with
  | tableAt i =>
    refine changeTable?_eq hh ?_
    intro t ht
    have hlen : t.fields.length = r.fieldCount (.tableAt i) := by simp [fieldCount, ht]
    simp only [hf _ hlen, Option.map_some]
  | classAt i =>
    refine changeClass?_eq hh ?_
    intro c hc
    have hlen : c.fields.length = r.fieldCount (.classAt i) := by simp [fieldCount, hc]
    simp only [hf _ hlen, Option.map_some]

theorem changeFunctions?_eq {h : Holder} (hh : r.HasHolder h)
    {f : List Function → Option (List Function)} {g : List Function → List Function}
    (hf : ∀ l, l.length = (r.functionsOf h).length → f l = some (g l)) :
    r.changeFunctions? h f = some (r.modifyFunctions h g) := by
  cases h with
  | tableAt i =>
    refine changeTable?_eq hh ?_
    intro t ht
    have hlen : t.functions.length = (r.functionsOf (.tableAt i)).length := by
      simp [functionsOf, ht]
    simp only [hf _ hlen, Option.map_some]
  | classAt i =>
    refine changeClass?_eq hh ?_
    intro c hc
    have hlen : c.functions.length = (r.functionsOf (.classAt i)).length := by
      simp [functionsOf, hc]
    simp only [hf _ hlen, Option.map_some]

theorem changeConstructors?_eq {i : Nat} (hi : i < r.classes.length)
    {f : List Constructor → Option (List Constructor)} {g : List Constructor → List Constructor}
    (hf : ∀ l, l.length = r.constructorCount i → f l = some (g l)) :
    r.changeConstructors? i f = some (r.modifyConstructors i g) := by
  refine changeClass?_eq hi ?_
  intro c hc
  have hlen : c.constructors.length = r.constructorCount i := by simp [constructorCount, hc]
  simp only [hf _ hlen, Option.map_some]

theorem hasHolder_of_lt_fieldCount {h : Holder} {j : Nat} (hj : j < r.fieldCount h) :
    r.HasHolder h := by
  cases h with
  | tableAt i =>
    obtain ⟨t, ht, _⟩ := lt_getD_iff.1 hj
    exact (List.getElem?_eq_some_iff.1 ht).1
  | classAt i =>
    obtain ⟨c, hc, _⟩ := lt_getD_iff.1 hj
    exact (List.getElem?_eq_some_iff.1 hc).1

theorem HasFunction.hasHolder {p : Place} (hp : r.HasFunction p) : r.HasHolder p.holder := by
  rw [HasFunction, functionsOf_length] at hp
  cases hh : p.holder with
  | tableAt i =>
    rw [hh] at hp
    obtain ⟨t, ht, _⟩ := lt_getD_iff.1 hp
    exact (List.getElem?_eq_some_iff.1 ht).1
  | classAt i =>
    rw [hh] at hp
    obtain ⟨c, hc, _⟩ := lt_getD_iff.1 hp
    exact (List.getElem?_eq_some_iff.1 hc).1

theorem changeField?_eq {p : Place} (hp : p.index < r.fieldCount p.holder) (g : Field → Field) :
    r.changeFields? p.holder (changeAt? · p.index fun f => some (g f)) =
      some (r.modifyField p g) := by
  refine changeFields?_eq (hasHolder_of_lt_fieldCount hp) ?_
  intro l hl
  exact changeAt?_eq (hl ▸ hp) fun _ _ => rfl

theorem changeFunction?_eq {p : Place} (hp : r.HasFunction p) (g : Function → Function) :
    r.changeFunctions? p.holder (changeAt? · p.index fun f => some (g f)) =
      some (r.modifyFunction p g) := by
  refine changeFunctions?_eq hp.hasHolder ?_
  intro l hl
  have hlt : p.index < l.length := by rw [hl]; exact hp
  exact changeAt?_eq hlt fun _ _ => rfl

theorem changeConstructor?_eq {i j : Nat} (hj : j < r.constructorCount i)
    (g : Constructor → Constructor) :
    r.changeConstructors? i (changeAt? · j fun k => some (g k)) =
      some (r.modifyConstructor i j g) := by
  obtain ⟨c, hc, _⟩ := lt_getD_iff.1 hj
  obtain ⟨hi, _⟩ := List.getElem?_eq_some_iff.1 hc
  refine changeConstructors?_eq hi ?_
  intro l hl
  exact changeAt?_eq (hl ▸ hj) fun _ _ => rfl

theorem HasHolder.owner? {h : Holder} (hh : r.HasHolder h) : r.owner? h = some (r.ownerOf h) := by
  cases h with
  | tableAt i =>
    have hi : i < r.tables.length := hh
    simp [Registry.owner?, ownerOf, hi]
  | classAt i =>
    have hi : i < r.classes.length := hh
    simp [Registry.owner?, ownerOf, hi]

end Registry

theorem openPart?_eq (k : Kind) {r : Registry} (h : r.WellFormed) (line : Text) :
    k.openPart? r line = some (k.openPart r line) := by
  cases k with
  | table => rfl
  | ofClass => rfl
  | nameSpace => rfl
  | field =>
    obtain ⟨_, hh⟩ := h.ownerEntry line
    simp only [Kind.openPart?]
    rw [Registry.changeFields?_eq hh fun _ _ => rfl]
    rfl
  | constructor =>
    have hi := h.classEntry_lt (tagValue line)
    have howner := Registry.HasHolder.owner? (h := .classAt (r.classEntry (tagValue line)).2) hi
    simp only [Kind.openPart?, howner, Option.bind_some]
    rw [Registry.changeConstructors?_eq hi fun _ _ => rfl]
    rfl
  | function =>
    obtain ⟨_, hh⟩ := h.ownerEntry line
    simp only [Kind.openPart?, hh.owner?, Option.bind_some]
    rw [Registry.changeFunctions?_eq hh fun _ _ => rfl]
    rfl

theorem fill?_eq {c : Cursor} {r : Registry} (hc : c.InRange r) (line : Text) :
    c.fill? r line = some (c.fill r line) := by
  cases c with
  | outside => rfl
  | nameSpace => rfl
  | table current =>
    cases current with
    | none => rfl
    | some i => exact Registry.changeTable?_eq hc fun _ _ => rfl
  | ofClass current =>
    cases current with
    | none => rfl
    | some i => exact Registry.changeClass?_eq hc fun _ _ => rfl
  | field current =>
    cases current with
    | none => rfl
    | some p => exact Registry.changeField?_eq hc _
  | constructor current =>
    cases current with
    | none => rfl
    | some ij => exact Registry.changeConstructor?_eq hc _
  | function current =>
    cases current with
    | none => rfl
    | some p =>
      rw [Cursor.fill?, Cursor.fill]
      split
      · exact Registry.changeFunction?_eq
          (Registry.HasFunction.grows hc (Registry.grows_recordName _ p)) _
      · exact Registry.changeFunction?_eq hc _

/-- Recording a line in a sound recorder meets no position out of range. -/
theorem Recorder.Sound.after?_eq {r : Recorder} (h : r.Sound) (line : Text) :
    r.after? line = some (r.after line) := by
  rw [Recorder.after?, Recorder.after]
  cases hk : r.cursor.kind? with
  | none => rfl
  | some k =>
    by_cases ho : k.opens line = true
    · simp only [ho, if_true]
      exact openPart?_eq k h.registry line
    · simp only [ho, if_false, Bool.false_eq_true, fill?_eq h.cursor, Option.map_some]

end LuaReference
