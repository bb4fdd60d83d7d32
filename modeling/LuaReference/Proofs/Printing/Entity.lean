import LuaReference.Proofs.Printing.Row

/-!
# Printed entities

How tables and classes are printed, which of them can be printed without loss, and what the rows
of a printed block read as: the description, the field, the constructor or the function that they
were printed from.
-/

namespace LuaReference

/-! ### Printing -/

def descriptionRows (d : Text) : List Row :=
  if d = [] then [] else (d.splitAll '\n').map .text

def parameterRow (p : Parameter) : Row := .tag .param [p.name, p.type, p.description]

def ownerRow : Owner → Row
  | .table n => .tag .table [n]
  | .ofClass n => .tag .ofClass [n]

def returnRows (f : Function) : List Row :=
  match f.returnType with
  | none => []
  | some t => [.tag .result [t, f.returnDescription]]

def Field.printed (owner : Owner) (f : Field) : Printed :=
  ⟨.field, ownerRow owner, .tag .field [f.name, f.type] :: descriptionRows f.description⟩

def Constructor.printed (k : Constructor) : Printed :=
  ⟨.constructor, .tag .ofClass [k.makes],
    k.parameters.map parameterRow ++ descriptionRows k.description⟩

def Function.printed (f : Function) : Printed :=
  ⟨.function, ownerRow f.owner,
    .tag .name [f.name] ::
      (f.parameters.map parameterRow ++ (returnRows f ++ descriptionRows f.description))⟩

def Table.heading (t : Table) : Printed :=
  ⟨.table, .tag .name [t.name], descriptionRows t.description⟩

def Class.heading (c : Class) : Printed :=
  ⟨.ofClass, .tag .name [c.name],
    c.parents.map (fun p => .tag .inherit [p]) ++ descriptionRows c.description⟩

/-- A block for the table, then one for each field and each function. -/
def Table.printed (t : Table) : List Printed :=
  t.heading ::
    (t.fields.map (Field.printed (.table t.name)) ++ t.functions.map Function.printed)

/-- A block for the class, then one for each field, each constructor and each method. -/
def Class.printed (c : Class) : List Printed :=
  c.heading ::
    (c.fields.map (Field.printed (.ofClass c.name)) ++
      (c.constructors.map Constructor.printed ++ c.functions.map Function.printed))

/-! ### What can be printed -/

/-- A description that is empty, or has lines of which the first is not empty. -/
def Kind.DescribesAll (k : Kind) (d : Text) : Prop :=
  d = [] ∨ (d.splitAll '\n').head? ≠ some [] ∧ ∀ l ∈ d.splitAll '\n', k.Describes l

instance (k : Kind) (d : Text) : Decidable (k.DescribesAll d) := inferInstanceAs (Decidable (_ ∨ _))

structure Field.Printable (f : Field) : Prop where
  name : f.name.Printable
  nameMark : tagMark ∉ f.name
  type : f.type.Printable
  description : Kind.field.DescribesAll f.description

structure Parameter.Printable (p : Parameter) : Prop where
  name : p.name.Printable
  nameMark : tagMark ∉ p.name
  type : p.type.Printable
  typeMark : tagMark ∉ p.type
  description : p.description.Printable

structure Constructor.Printable (makes : Text) (k : Constructor) : Prop where
  makes : k.makes = makes
  parameters : ∀ p ∈ k.parameters, p.Printable
  description : Kind.constructor.DescribesAll k.description

structure Function.Printable (owner : Owner) (f : Function) : Prop where
  owner : f.owner = owner
  name : f.name.Printable
  parameters : ∀ p ∈ f.parameters, p.Printable
  returnType : ∀ t, f.returnType = some t → t.Printable ∧ tagMark ∉ t
  returnDescription : f.returnDescription.Printable
  noReturn : f.returnType = none → f.returnDescription = []
  description : Kind.function.DescribesAll f.description

structure Table.Printable (t : Table) : Prop where
  name : t.name.Printable
  fields : ∀ f ∈ t.fields, f.Printable
  functions : ∀ f ∈ t.functions, f.Printable (.table t.name)
  description : Kind.table.DescribesAll t.description

structure Class.Printable (c : Class) : Prop where
  name : c.name.Printable
  parents : ∀ p ∈ c.parents, p.Printable
  parents_nodup : c.parents.Nodup
  fields : ∀ f ∈ c.fields, f.Printable
  constructors : ∀ k ∈ c.constructors, k.Printable c.name
  functions : ∀ f ∈ c.functions, f.Printable (.ofClass c.name)
  description : Kind.ofClass.DescribesAll c.description

/-! ### Rows of a description -/

section
variable (t : Tag) (d : Text)

theorem has_of_mem_descriptionRows {row : Row} (h : row ∈ descriptionRows d) :
    row.has t = false := by
  rw [descriptionRows] at h
  split at h
  · cases h
  · obtain ⟨l, _, rfl⟩ := List.mem_map.1 h
    rfl

@[simp]
theorem filter_has_descriptionRows : (descriptionRows d).filter (Row.has t) = [] := by
  rw [List.filter_eq_nil_iff]
  intro row hrow
  simp [has_of_mem_descriptionRows t d hrow]

@[simp]
theorem filter_not_has_descriptionRows :
    (descriptionRows d).filter (fun row => !row.has t) = descriptionRows d := by
  rw [List.filter_eq_self]
  intro row hrow
  simp [has_of_mem_descriptionRows t d hrow]

end

variable {k : Kind} {d : Text}

theorem fits_descriptionRows (h : k.DescribesAll d) : ∀ row ∈ descriptionRows d, row.Fits k := by
  intro row hrow
  rw [descriptionRows] at hrow
  split at hrow
  · cases hrow
  · next hne =>
    obtain ⟨l, hl, rfl⟩ := List.mem_map.1 hrow
    exact ⟨Text.not_mem_of_mem_splitAll hl, (h.resolve_left hne).2 l hl⟩

theorem describe_descriptionRows (h : k.DescribesAll d) :
    describe [] ((descriptionRows d).map Row.read) = d := by
  rw [descriptionRows]
  split
  · next he => rw [he]; rfl
  · next hne =>
    obtain ⟨hfirst, hlines⟩ := h.resolve_left hne
    have hread : ∀ l ∈ d.splitAll '\n', sanitize (Row.read (.text l)) = l := by
      intro l hl
      have hl := hlines l hl
      rw [Row.read, Row.line, trim_textLine hl.endTrimmed]
      exact sanitize_textLine hl.endTrimmed hl.start
    have hmap : (((d.splitAll '\n').map Row.text).map Row.read).map sanitize =
        d.splitAll '\n' := by
      rw [List.map_map, List.map_map]
      exact (List.map_congr_left hread).trans (List.map_id' _)
    rw [describe, hmap]
    exact foldl_pushLine_splitAll hfirst

/-! ### Rows of a member -/

theorem fits_tag_singleton {t : Tag} {v : Text} (hv : v.Printable) :
    (Row.tag t [v]).Fits k := by
  refine ⟨by simp, ?_⟩
  intro w hw
  rw [List.mem_singleton.1 hw]
  exact hv

theorem fits_ownerRow {owner : Owner} (h : owner.name.Printable) : (ownerRow owner).Fits k := by
  cases owner with
  | table n => exact fits_tag_singleton h
  | ofClass n => exact fits_tag_singleton h

theorem Parameter.Printable.fits {p : Parameter} (h : p.Printable) : (parameterRow p).Fits k := by
  refine ⟨by simp, ?_⟩
  simp only [List.forall_mem_cons]
  exact ⟨h.name, h.type, h.description, by simp⟩

theorem Parameter.Printable.read {p : Parameter} (h : p.Printable) :
    parameterOf (parameterRow p).read = p := by
  have hvalues : tagValues 3 (parameterRow p).read = [p.name, p.type, p.description] := by
    refine Tag.tagValues_line .param [p.name, p.type, p.description] ?_ ?_
    · simp only [List.forall_mem_cons]
      exact ⟨h.name.trimmed, h.type.trimmed, h.description.trimmed, by simp⟩
    · simp only [List.dropLast, List.forall_mem_cons]
      exact ⟨h.nameMark, h.typeMark, by simp⟩
  rw [parameterOf, hvalues]
  rfl

theorem map_parameterOf {ps : List Parameter} (h : ∀ p ∈ ps, p.Printable) :
    ((ps.map parameterRow).map Row.read).map parameterOf = ps := by
  have hread : ∀ p ∈ ps, parameterOf (parameterRow p).read = p := fun p hp => (h p hp).read
  rw [List.map_map, List.map_map]
  exact (List.map_congr_left hread).trans (List.map_id' ps)

theorem fits_parameterRows {ps : List Parameter} (h : ∀ p ∈ ps, p.Printable) :
    ∀ row ∈ ps.map parameterRow, row.Fits k := by
  intro row hrow
  obtain ⟨p, hp, rfl⟩ := List.mem_map.1 hrow
  exact (h p hp).fits

section
variable (t : Tag) (ps : List Parameter)

@[simp]
theorem filter_has_parameterRows :
    (ps.map parameterRow).filter (Row.has t) = if t = .param then ps.map parameterRow else [] := by
  by_cases ht : t = .param <;> simp [ht, List.filter_map, Function.comp_def, parameterRow, Row.has]

@[simp]
theorem filter_not_has_parameterRows :
    (ps.map parameterRow).filter (fun row => !row.has t) =
      if t = .param then [] else ps.map parameterRow := by
  by_cases ht : t = .param <;> simp [ht, List.filter_map, Function.comp_def, parameterRow, Row.has]

end

end LuaReference
