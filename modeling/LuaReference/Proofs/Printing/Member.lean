import LuaReference.Proofs.Printing.Entity

/-!
# Reading printed members

The block of a printed entity or member fits its kind, and its rows read as what was printed.
-/

namespace LuaReference

/-! ### Fields -/

theorem Field.Printable.fits {f : Field} (h : f.Printable) {owner : Owner}
    (howner : owner.name.Printable) : (f.printed owner).Fits where
  first := fits_ownerRow howner
  rest := by
    intro row hrow
    rcases List.mem_cons.1 hrow with rfl | hrow
    · refine ⟨by simp, ?_⟩
      simp only [List.forall_mem_cons]
      exact ⟨h.name, h.type, by simp⟩
    · exact fits_descriptionRows h.description row hrow
  opening := by cases owner <;> rfl
  rows := by
    intro row hrow
    rcases List.mem_cons.1 hrow with rfl | hrow
    · rfl
    · simp [Printed.opens, Printed.openers, Field.printed,
        has_of_mem_descriptionRows _ f.description hrow]

theorem Field.Printable.read {f : Field} (h : f.Printable) {owner : Owner}
    (howner : owner.name.Printable) :
    fieldOf ((f.printed owner).rows.map Row.read) = f := by
  have hfits : ∀ row ∈ (f.printed owner).rows, row.Fits .field := (h.fits howner).rest
  have hfield : ((f.printed owner).rows.map Row.read).filter (tagged "field") =
      [(Row.tag .field [f.name, f.type]).read] := by
    refine (Row.filter_read hfits (t := .field) (by decide)).trans ?_
    simp [Field.printed]
  have hothers : ((f.printed owner).rows.map Row.read).filter (fun l => !tagged "field" l) =
      (descriptionRows f.description).map Row.read := by
    refine (Row.filter_not_read hfits (t := .field) (by decide)).trans ?_
    simp [Field.printed]
  have hvalues : tagValues 2 (Row.tag .field [f.name, f.type]).read = [f.name, f.type] := by
    refine Tag.tagValues_line .field [f.name, f.type] ?_ ?_
    · simp only [List.forall_mem_cons]
      exact ⟨h.name.trimmed, h.type.trimmed, by simp⟩
    · simp only [List.dropLast, List.forall_mem_cons]
      exact ⟨h.nameMark, by simp⟩
  have hdescription := describe_descriptionRows h.description
  simp [fieldOf, hfield, hothers, hvalues, hdescription]

/-! ### Constructors -/

theorem Constructor.Printable.fits {makes : Text} {k : Constructor} (h : k.Printable makes)
    (hmakes : makes.Printable) : k.printed.Fits where
  first := fits_tag_singleton (h.makes ▸ hmakes)
  rest := by
    intro row hrow
    rcases List.mem_append.1 hrow with hrow | hrow
    · exact fits_parameterRows h.parameters row hrow
    · exact fits_descriptionRows h.description row hrow
  opening := rfl
  rows := by
    intro row hrow
    rcases List.mem_append.1 hrow with hrow | hrow
    · obtain ⟨p, _, rfl⟩ := List.mem_map.1 hrow
      rfl
    · simp [Printed.opens, Printed.openers, Constructor.printed,
        has_of_mem_descriptionRows _ k.description hrow]

theorem Constructor.Printable.read {makes : Text} {k : Constructor} (h : k.Printable makes)
    (hmakes : makes.Printable) :
    constructorOf makes (k.printed.rows.map Row.read) = k := by
  have hfits : ∀ row ∈ k.printed.rows, row.Fits .constructor := (h.fits hmakes).rest
  have hparams : (k.printed.rows.map Row.read).filter (tagged "param") =
      (k.parameters.map parameterRow).map Row.read := by
    refine (Row.filter_read hfits (t := .param) (by decide)).trans ?_
    simp [Constructor.printed]
  have hothers : (k.printed.rows.map Row.read).filter (fun l => !tagged "param" l) =
      (descriptionRows k.description).map Row.read := by
    refine (Row.filter_not_read hfits (t := .param) (by decide)).trans ?_
    simp [Constructor.printed]
  rw [constructorOf, hparams, hothers, map_parameterOf h.parameters,
    describe_descriptionRows h.description, ← h.makes]

/-! ### Functions -/

theorem mem_returnRows {f : Function} {row : Row} (hrow : row ∈ returnRows f) :
    ∃ t, f.returnType = some t ∧ row = .tag .result [t, f.returnDescription] := by
  rw [returnRows] at hrow
  cases ht : f.returnType with
  | none =>
    rw [ht] at hrow
    cases hrow
  | some t =>
    rw [ht] at hrow
    exact ⟨t, rfl, List.mem_singleton.1 hrow⟩

theorem Function.Printable.fits {owner : Owner} {f : Function} (h : f.Printable owner)
    (howner : owner.name.Printable) : f.printed.Fits where
  first := fits_ownerRow (h.owner ▸ howner)
  rest := by
    intro row hrow
    rcases List.mem_cons.1 hrow with rfl | hrow
    · exact fits_tag_singleton h.name
    rcases List.mem_append.1 hrow with hrow | hrow
    · exact fits_parameterRows h.parameters row hrow
    rcases List.mem_append.1 hrow with hrow | hrow
    · obtain ⟨t, ht, rfl⟩ := mem_returnRows hrow
      refine ⟨by simp, ?_⟩
      simp only [List.forall_mem_cons]
      exact ⟨(h.returnType t ht).1, h.returnDescription, by simp⟩
    · exact fits_descriptionRows h.description row hrow
  opening := by
    rw [Function.printed]
    cases f.owner <;> rfl
  rows := by
    intro row hrow
    rcases List.mem_cons.1 hrow with rfl | hrow
    · rfl
    rcases List.mem_append.1 hrow with hrow | hrow
    · obtain ⟨p, _, rfl⟩ := List.mem_map.1 hrow
      rfl
    rcases List.mem_append.1 hrow with hrow | hrow
    · obtain ⟨t, _, rfl⟩ := mem_returnRows hrow
      rfl
    · simp [Printed.opens, Printed.openers, Function.printed,
        has_of_mem_descriptionRows _ f.description hrow]

theorem filter_has_returnRows (f : Function) (t : Tag) :
    (returnRows f).filter (Row.has t) = if t = .result then returnRows f else [] := by
  rw [returnRows]
  cases f.returnType <;> by_cases ht : t = .result <;> simp [ht]

theorem filter_not_has_returnRows (f : Function) (t : Tag) :
    (returnRows f).filter (fun row => !row.has t) = if t = .result then [] else returnRows f := by
  rw [returnRows]
  cases f.returnType <;> by_cases ht : t = .result <;> simp [ht]

theorem Function.Printable.read_returnRows {owner : Owner} {f : Function} (h : f.Printable owner) :
    ((returnRows f).map Row.read).map (tagValues 2) =
      (f.returnType.map fun t => [t, f.returnDescription]).toList := by
  rw [returnRows]
  cases ht : f.returnType with
  | none => rfl
  | some t =>
    obtain ⟨htype, hmark⟩ := h.returnType t ht
    have hvalues : tagValues 2 (Row.tag .result [t, f.returnDescription]).read =
        [t, f.returnDescription] := by
      refine Tag.tagValues_line .result [t, f.returnDescription] ?_ ?_
      · simp only [List.forall_mem_cons]
        exact ⟨htype.trimmed, h.returnDescription.trimmed, by simp⟩
      · simp only [List.dropLast, List.forall_mem_cons]
        exact ⟨hmark, by simp⟩
    simp [hvalues]

/-- The rows behind the name and the parameters. -/
def Function.closingRows (f : Function) : List Row :=
  returnRows f ++ descriptionRows f.description

/-- The rows behind the name. -/
def Function.laterRows (f : Function) : List Row :=
  f.parameters.map parameterRow ++ f.closingRows

section
variable {owner : Owner} {f : Function}

theorem Function.Printable.fits_laterRows (h : f.Printable owner)
    (howner : owner.name.Printable) : ∀ row ∈ f.laterRows, row.Fits .function := by
  intro row hrow
  exact (h.fits howner).rest row (List.mem_cons_of_mem _ hrow)

theorem Function.Printable.fits_closingRows (h : f.Printable owner)
    (howner : owner.name.Printable) : ∀ row ∈ f.closingRows, row.Fits .function := by
  intro row hrow
  exact h.fits_laterRows howner row (List.mem_append_right _ hrow)

theorem Function.Printable.filter_name (h : f.Printable owner) (howner : owner.name.Printable) :
    (f.printed.rows.map Row.read).filter (tagged "name") = [(Row.tag .name [f.name]).read] ∧
      (f.printed.rows.map Row.read).filter (fun l => !tagged "name" l) =
        f.laterRows.map Row.read := by
  have hfits : ∀ row ∈ f.printed.rows, row.Fits .function := (h.fits howner).rest
  constructor
  · refine (Row.filter_read hfits (t := .name) (by decide)).trans ?_
    simp [Function.printed, filter_has_returnRows]
  · refine (Row.filter_not_read hfits (t := .name) (by decide)).trans ?_
    simp [Function.printed, filter_not_has_returnRows, Function.laterRows, Function.closingRows]

theorem Function.Printable.filter_param (h : f.Printable owner) (howner : owner.name.Printable) :
    (f.laterRows.map Row.read).filter (tagged "param") =
        (f.parameters.map parameterRow).map Row.read ∧
      (f.laterRows.map Row.read).filter (fun l => !tagged "param" l) =
        f.closingRows.map Row.read := by
  have hfits := h.fits_laterRows howner
  constructor
  · refine (Row.filter_read hfits (t := .param) (by decide)).trans ?_
    simp [filter_has_returnRows, Function.laterRows, Function.closingRows]
  · refine (Row.filter_not_read hfits (t := .param) (by decide)).trans ?_
    simp [filter_not_has_returnRows, Function.laterRows, Function.closingRows]

theorem Function.Printable.filter_return (h : f.Printable owner)
    (howner : owner.name.Printable) :
    (f.closingRows.map Row.read).filter (tagged "return") = (returnRows f).map Row.read ∧
      (f.closingRows.map Row.read).filter (fun l => !tagged "return" l) =
        (descriptionRows f.description).map Row.read := by
  have hfits := h.fits_closingRows howner
  constructor
  · refine (Row.filter_read hfits (t := .result) (by decide)).trans ?_
    simp [filter_has_returnRows, Function.closingRows]
  · refine (Row.filter_not_read hfits (t := .result) (by decide)).trans ?_
    simp [filter_not_has_returnRows, Function.closingRows]

theorem Function.Printable.read (h : f.Printable owner) (howner : owner.name.Printable) :
    functionOf owner (f.printed.rows.map Row.read) = f := by
  obtain ⟨hname, hlater⟩ := h.filter_name howner
  obtain ⟨hparams, hclosing⟩ := h.filter_param howner
  obtain ⟨hreturns, hlines⟩ := h.filter_return howner
  have hvalue : tagValue (Row.tag .name [f.name]).read = f.name :=
    Tag.tagValue_line .name h.name.trimmed
  have htype : ((f.returnType.map fun t => [t, f.returnDescription]).toList.filterMap
      (·[0]?)).getLast? = f.returnType := by cases f.returnType <;> rfl
  have hreturned : ((f.returnType.map fun t => [t, f.returnDescription]).toList.filterMap
      (·[1]?)).getLast?.getD [] = f.returnDescription := by
    cases ht : f.returnType with
    | none => exact (h.noReturn ht).symm
    | some t => rfl
  simp only [functionOf, hname, hlater, hparams, hclosing, hreturns, hlines, h.read_returnRows,
    map_parameterOf h.parameters, describe_descriptionRows h.description, List.getLast?_singleton,
    Option.map_some, Option.getD_some, hvalue, htype, hreturned]
  rw [← h.owner]

end

/-! ### Tables and classes -/

theorem Table.Printable.fits {t : Table} (h : t.Printable) : t.heading.Fits where
  first := fits_tag_singleton h.name
  rest := fits_descriptionRows h.description
  opening := rfl
  rows := by
    intro row hrow
    simp [Printed.opens, Printed.openers, Table.heading,
      has_of_mem_descriptionRows _ t.description hrow]

theorem Table.Printable.read {t : Table} (h : t.Printable) :
    (Table.new t.name).withLines (t.heading.rows.map Row.read) =
      { name := t.name, description := t.description } := by
  have hdescription : describe [] (t.heading.rows.map Row.read) = t.description :=
    describe_descriptionRows h.description
  rw [Table.withLines, Table.new, hdescription, h.name.trimmed]

theorem Class.Printable.fits {c : Class} (h : c.Printable) : c.heading.Fits where
  first := fits_tag_singleton h.name
  rest := by
    intro row hrow
    rcases List.mem_append.1 hrow with hrow | hrow
    · obtain ⟨p, hp, rfl⟩ := List.mem_map.1 hrow
      exact fits_tag_singleton (h.parents p hp)
    · exact fits_descriptionRows h.description row hrow
  opening := rfl
  rows := by
    intro row hrow
    rcases List.mem_append.1 hrow with hrow | hrow
    · obtain ⟨p, _, rfl⟩ := List.mem_map.1 hrow
      rfl
    · simp [Printed.opens, Printed.openers, Class.heading,
        has_of_mem_descriptionRows _ c.description hrow]

theorem foldl_inherit {parents : List Text} (c : Class) (htrim : ∀ p ∈ parents, p.trim = p)
    (hnodup : (c.parents ++ parents).Nodup) :
    parents.foldl Class.inherit c = { c with parents := c.parents ++ parents } := by
  induction parents generalizing c with
  | nil => simp
  | cons p parents ih =>
    have hp : p.trim = p := htrim p List.mem_cons_self
    have hnew : p ∉ c.parents := by
      intro hmem
      exact (List.nodup_append.1 hnodup).2.2 p hmem p List.mem_cons_self rfl
    have hinherit : c.inherit p = { c with parents := c.parents ++ [p] } := by
      simp [Class.inherit, Class.inherits, hp, hnew]
    have hsplit : c.parents ++ p :: parents = (c.parents ++ [p]) ++ parents := by simp
    rw [List.foldl_cons, hinherit, ih _ (fun q hq => htrim q (List.mem_cons_of_mem p hq)), hsplit]
    rwa [hsplit] at hnodup

theorem Class.Printable.read {c : Class} (h : c.Printable) :
    (Class.new c.name).withLines (c.heading.rows.map Row.read) =
      { name := c.name, parents := c.parents, description := c.description } := by
  have hfits : ∀ row ∈ c.heading.rows, row.Fits .ofClass := h.fits.rest
  have hparents : (c.heading.rows.map Row.read).filter (tagged "inherit") =
      (c.parents.map fun p => Row.tag .inherit [p]).map Row.read := by
    refine (Row.filter_read hfits (t := .inherit) (by decide)).trans ?_
    simp [Class.heading, List.filter_map, Function.comp_def]
  have hothers : (c.heading.rows.map Row.read).filter (fun l => !tagged "inherit" l) =
      (descriptionRows c.description).map Row.read := by
    refine (Row.filter_not_read hfits (t := .inherit) (by decide)).trans ?_
    simp [Class.heading, List.filter_map, Function.comp_def]
  have hvalue : ∀ p ∈ c.parents, tagValue (Row.tag .inherit [p]).read = p :=
    fun p hp => Tag.tagValue_line .inherit (h.parents p hp).trimmed
  have hvalues : ((c.parents.map fun p => Row.tag .inherit [p]).map Row.read).map tagValue =
      c.parents := by
    rw [List.map_map, List.map_map]
    exact (List.map_congr_left hvalue).trans (List.map_id' _)
  have hlisted : c.parents.foldl Class.inherit (Class.new c.name) =
      { Class.new c.name with parents := c.parents } :=
    foldl_inherit _ (fun p hp => (h.parents p hp).trimmed) h.parents_nodup
  have hinherit : ((c.parents.map fun p => Row.tag .inherit [p]).map Row.read).foldl
      (fun c line => c.inherit (tagValue line)) (Class.new c.name) =
        { Class.new c.name with parents := c.parents } := by
    rw [← hlisted, ← List.foldl_map (f := tagValue) (g := Class.inherit), hvalues]
  rw [Class.withLines, hparents, hothers, hinherit]
  simp [Class.new, describe_descriptionRows h.description, h.name.trimmed]

end LuaReference
