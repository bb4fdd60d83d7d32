import LuaReference.Proofs.Printing.Block
import LuaReference.Proofs.Printing.Member
import LuaReference.Proofs.Registry.Lists

/-!
# Scanning undoes printing

Block by block, a printed source rebuilds the tables and classes that it was printed from. The
invariant is `Registry.Lists`: the registry has exactly the entities printed so far, and its
indexes know them. Main statement: `scan_printedEntities`.
-/

namespace LuaReference

def printedEntities (tables : List Table) (classes : List Class) : Text :=
  printed (tables.flatMap Table.printed ++ classes.flatMap Class.printed)

/-! ### One block -/

theorem tagValue_ownerRow {owner : Owner} (h : owner.name.Printable) :
    tagValue (ownerRow owner).read = owner.name := by
  cases owner with
  | table n => exact Tag.tagValue_line .table h.trimmed
  | ofClass n => exact Tag.tagValue_line .ofClass h.trimmed

theorem ownerEntry_table (r : Registry) {n : Text} (h : n.Printable) :
    r.ownerEntry (ownerRow (.table n)).read = ((r.tableEntry n).1, .tableAt (r.tableEntry n).2) := by
  have hfits : (ownerRow (.table n)).Fits .field := fits_ownerRow h
  have htag : tagged "table" (ownerRow (.table n)).read = true :=
    hfits.tagged_read (t := .table) (by decide)
  have hvalue : tagValue (ownerRow (.table n)).read = n := tagValue_ownerRow h
  rw [Registry.ownerEntry, htag, hvalue]
  rfl

theorem ownerEntry_ofClass (r : Registry) {n : Text} (h : n.Printable) :
    r.ownerEntry (ownerRow (.ofClass n)).read =
      ((r.classEntry n).1, .classAt (r.classEntry n).2) := by
  have hfits : (ownerRow (.ofClass n)).Fits .field := fits_ownerRow h
  have htag : tagged "table" (ownerRow (.ofClass n)).read = false :=
    hfits.tagged_read (t := .table) (by decide)
  have hvalue : tagValue (ownerRow (.ofClass n)).read = n := tagValue_ownerRow h
  rw [Registry.ownerEntry, htag, hvalue]
  rfl

namespace Registry.Lists

variable {r : Registry} {ts : List Table} {cs : List Class}

theorem foldl_recordName (h : r.Lists ts cs) (lines : List Text) (p : Place) :
    (lines.foldl (fun r line => r.recordName (tagValue line) p) r).Lists ts cs := by
  induction lines generalizing r with
  | nil => exact h
  | cons line lines ih => exact ih (h.recordName (tagValue line) p)

/-- A block for each item of a list takes a property of the registry along the list. -/
theorem foldl_blocks {α : Type} {block : α → Printed} {P : List α → Registry → Prop}
    {items : List α} (hstart : P [] r)
    (hstep : ∀ done a r, a ∈ items → P done r → P (done ++ [a]) (addBlock r (block a).run)) :
    P items (((items.map block).map Printed.run).foldl addBlock r) := by
  have hfrom : ∀ rest done r, (∀ a ∈ rest, a ∈ items) → P done r →
      P (done ++ rest) (((rest.map block).map Printed.run).foldl addBlock r) := by
    intro rest
    induction rest with
    | nil =>
      intro done r _ hdone
      rw [List.append_nil]
      exact hdone
    | cons a rest ih =>
      intro done r hmem hdone
      have hnext := hstep done a r (hmem a List.mem_cons_self) hdone
      have htail := ih (done ++ [a]) _ (fun b hb => hmem b (List.mem_cons_of_mem a hb)) hnext
      rwa [List.append_assoc] at htail
  exact hfrom items [] r (fun a ha => ha) hstart

/-! ### Tables -/

theorem addHeading_table (h : r.Lists ts cs) {t : Table} (ht : t.Printable)
    (hn : t.name ∉ ts.map Table.name) :
    (addBlock r t.heading.run).Lists
      (ts ++ [{ name := t.name, description := t.description }]) cs := by
  have hvalue : tagValue t.heading.opening.read = t.name :=
    Tag.tagValue_line .name ht.name.trimmed
  obtain ⟨hnew, hlast⟩ := h.newTable ht.name.trimmed hn
  have hmodify : ((r.tableEntry t.name).1.modifyTable ts.length
      (·.withLines (t.heading.rows.map Row.read))).Lists
        (ts ++ [(Table.new t.name).withLines (t.heading.rows.map Row.read)]) cs :=
    hnew.modifyLastTable rfl
  rw [ht.read] at hmodify
  rw [ht.fits.addBlock_run]
  change ((r.tableEntry (tagValue t.heading.opening.read)).1.modifyTable
    (r.tableEntry (tagValue t.heading.opening.read)).2
    (·.withLines (t.heading.rows.map Row.read))).Lists _ cs
  rw [hvalue, hlast]
  exact hmodify

theorem addField_table {t : Table} (h : r.Lists (ts ++ [t]) cs) (hname : t.name.Printable)
    {f : Field} (hf : f.Printable) :
    (addBlock r (f.printed (.table t.name)).run).Lists
      (ts ++ [{ t with fields := t.fields ++ [f] }]) cs := by
  have hfits : (f.printed (.table t.name)).Fits := hf.fits hname
  have hread : fieldOf ((f.printed (.table t.name)).rows.map Row.read) = f := hf.read hname
  rw [hfits.addBlock_run]
  change ((r.ownerEntry (ownerRow (.table t.name)).read).1.modifyFields
    (r.ownerEntry (ownerRow (.table t.name)).read).2
    (· ++ [fieldOf ((f.printed (.table t.name)).rows.map Row.read)])).Lists _ cs
  rw [ownerEntry_table r hname, h.lastTable hname.trimmed, hread]
  exact h.modifyLastTable (f := fun t => { t with fields := t.fields ++ [f] }) rfl

theorem addFunction_table {t : Table} (h : r.Lists (ts ++ [t]) cs) (hname : t.name.Printable)
    {f : Function} (hf : f.Printable (.table t.name)) :
    (addBlock r f.printed.run).Lists (ts ++ [{ t with functions := t.functions ++ [f] }]) cs := by
  have hfits : f.printed.Fits := hf.fits hname
  have hread : functionOf (.table t.name) (f.printed.rows.map Row.read) = f := hf.read hname
  have hopening : f.printed.opening = ownerRow (.table t.name) := congrArg ownerRow hf.owner
  have howner : r.ownerOf (.tableAt ts.length) = .table t.name := by
    simp [Registry.ownerOf, h.tables]
  rw [hfits.addBlock_run]
  refine foldl_recordName ?_ _ _
  dsimp only
  rw [hopening, ownerEntry_table r hname, h.lastTable hname.trimmed]
  dsimp only
  rw [howner, hread]
  exact h.modifyLastTable (f := fun t => { t with functions := t.functions ++ [f] }) rfl

theorem addTable (h : r.Lists ts cs) {t : Table} (ht : t.Printable)
    (hn : t.name ∉ ts.map Table.name) :
    ((t.printed.map Printed.run).foldl addBlock r).Lists (ts ++ [t]) cs := by
  have hheading := h.addHeading_table ht hn
  have hfields : (((t.fields.map (Field.printed (.table t.name))).map Printed.run).foldl addBlock
      (addBlock r t.heading.run)).Lists
        (ts ++ [{ name := t.name, fields := t.fields, description := t.description }]) cs := by
    refine foldl_blocks (P := fun fields r => r.Lists
      (ts ++ [{ name := t.name, fields := fields, description := t.description }]) cs) hheading ?_
    intro done f r hmem hdone
    exact addField_table hdone ht.name (ht.fields f hmem)
  rw [Table.printed, List.map_cons, List.foldl_cons, List.map_append, List.foldl_append]
  refine foldl_blocks (P := fun functions r => r.Lists
    (ts ++ [{ t with functions := functions }]) cs) hfields ?_
  intro done f r hmem hdone
  exact addFunction_table hdone ht.name (ht.functions f hmem)

theorem addTables (h : r.Lists ts cs) {tables : List Table} (ht : ∀ t ∈ tables, t.Printable)
    (hn : ((ts ++ tables).map Table.name).Nodup) :
    (((tables.flatMap Table.printed).map Printed.run).foldl addBlock r).Lists (ts ++ tables) cs := by
  induction tables generalizing r ts with
  | nil =>
    rw [List.append_nil]
    exact h
  | cons t tables ih =>
    have hsplit : ts ++ t :: tables = (ts ++ [t]) ++ tables := by simp
    have hnew : t.name ∉ ts.map Table.name := by
      rw [List.map_append, List.map_cons] at hn
      intro hmem
      exact (List.nodup_append.1 hn).2.2 _ hmem _ List.mem_cons_self rfl
    rw [hsplit] at hn ⊢
    rw [List.flatMap_cons, List.map_append, List.foldl_append]
    exact ih (h.addTable (ht t List.mem_cons_self) hnew)
      (fun t' ht' => ht t' (List.mem_cons_of_mem t ht')) hn

/-! ### Classes -/

theorem addHeading_class (h : r.Lists ts cs) {c : Class} (hc : c.Printable)
    (hn : c.name ∉ cs.map Class.name) :
    (addBlock r c.heading.run).Lists ts
      (cs ++ [{ name := c.name, parents := c.parents, description := c.description }]) := by
  have hvalue : tagValue c.heading.opening.read = c.name :=
    Tag.tagValue_line .name hc.name.trimmed
  obtain ⟨hnew, hlast⟩ := h.newClass hc.name.trimmed hn
  have hmodify : ((r.classEntry c.name).1.modifyClass cs.length
      (·.withLines (c.heading.rows.map Row.read))).Lists ts
        (cs ++ [(Class.new c.name).withLines (c.heading.rows.map Row.read)]) :=
    hnew.modifyLastClass (by rw [hc.read]; exact hc.name.trimmed.symm)
  rw [hc.read] at hmodify
  rw [hc.fits.addBlock_run]
  change ((r.classEntry (tagValue c.heading.opening.read)).1.modifyClass
    (r.classEntry (tagValue c.heading.opening.read)).2
    (·.withLines (c.heading.rows.map Row.read))).Lists ts _
  rw [hvalue, hlast]
  exact hmodify

theorem addField_class {c : Class} (h : r.Lists ts (cs ++ [c])) (hname : c.name.Printable)
    {f : Field} (hf : f.Printable) :
    (addBlock r (f.printed (.ofClass c.name)).run).Lists ts
      (cs ++ [{ c with fields := c.fields ++ [f] }]) := by
  have hfits : (f.printed (.ofClass c.name)).Fits := hf.fits hname
  have hread : fieldOf ((f.printed (.ofClass c.name)).rows.map Row.read) = f := hf.read hname
  rw [hfits.addBlock_run]
  change ((r.ownerEntry (ownerRow (.ofClass c.name)).read).1.modifyFields
    (r.ownerEntry (ownerRow (.ofClass c.name)).read).2
    (· ++ [fieldOf ((f.printed (.ofClass c.name)).rows.map Row.read)])).Lists ts _
  rw [ownerEntry_ofClass r hname, h.lastClass hname.trimmed, hread]
  exact h.modifyLastClass (f := fun c => { c with fields := c.fields ++ [f] }) rfl

theorem addConstructor_class {c : Class} (h : r.Lists ts (cs ++ [c])) (hname : c.name.Printable)
    {k : Constructor} (hk : k.Printable c.name) :
    (addBlock r k.printed.run).Lists ts
      (cs ++ [{ c with constructors := c.constructors ++ [k] }]) := by
  have hfits : k.printed.Fits := hk.fits hname
  have hread : constructorOf c.name (k.printed.rows.map Row.read) = k := hk.read hname
  have hvalue : tagValue k.printed.opening.read = c.name :=
    (Tag.tagValue_line .ofClass (hk.makes ▸ hname.trimmed)).trans hk.makes
  have howner : (r.ownerOf (.classAt cs.length)).name = c.name := by
    simp [Registry.ownerOf, h.classes, Owner.name]
  rw [hfits.addBlock_run]
  change ((r.classEntry (tagValue k.printed.opening.read)).1.modifyConstructors
    (r.classEntry (tagValue k.printed.opening.read)).2
    (· ++ [constructorOf ((r.classEntry (tagValue k.printed.opening.read)).1.ownerOf
      (.classAt (r.classEntry (tagValue k.printed.opening.read)).2)).name
      (k.printed.rows.map Row.read)])).Lists ts _
  rw [hvalue, h.lastClass hname.trimmed]
  dsimp only
  rw [howner, hread]
  exact h.modifyLastClass (f := fun c => { c with constructors := c.constructors ++ [k] }) rfl

theorem addFunction_class {c : Class} (h : r.Lists ts (cs ++ [c])) (hname : c.name.Printable)
    {f : Function} (hf : f.Printable (.ofClass c.name)) :
    (addBlock r f.printed.run).Lists ts
      (cs ++ [{ c with functions := c.functions ++ [f] }]) := by
  have hfits : f.printed.Fits := hf.fits hname
  have hread : functionOf (.ofClass c.name) (f.printed.rows.map Row.read) = f := hf.read hname
  have hopening : f.printed.opening = ownerRow (.ofClass c.name) := congrArg ownerRow hf.owner
  have howner : r.ownerOf (.classAt cs.length) = .ofClass c.name := by
    simp [Registry.ownerOf, h.classes]
  rw [hfits.addBlock_run]
  refine foldl_recordName ?_ _ _
  dsimp only
  rw [hopening, ownerEntry_ofClass r hname, h.lastClass hname.trimmed]
  dsimp only
  rw [howner, hread]
  exact h.modifyLastClass (f := fun c => { c with functions := c.functions ++ [f] }) rfl

theorem addClass (h : r.Lists ts cs) {c : Class} (hc : c.Printable)
    (hn : c.name ∉ cs.map Class.name) :
    ((c.printed.map Printed.run).foldl addBlock r).Lists ts (cs ++ [c]) := by
  have hheading := h.addHeading_class hc hn
  have hfields : (((c.fields.map (Field.printed (.ofClass c.name))).map Printed.run).foldl addBlock
      (addBlock r c.heading.run)).Lists ts
        (cs ++ [{ c with constructors := [], functions := [] }]) := by
    refine foldl_blocks (P := fun fields r => r.Lists ts
      (cs ++ [{ c with fields := fields, constructors := [], functions := [] }])) hheading ?_
    intro done f r hmem hdone
    exact addField_class hdone hc.name (hc.fields f hmem)
  rw [Class.printed, List.map_cons, List.foldl_cons, List.map_append, List.foldl_append,
    List.map_append, List.foldl_append]
  generalize ((c.fields.map (Field.printed (.ofClass c.name))).map Printed.run).foldl addBlock
    (addBlock r c.heading.run) = r' at hfields ⊢
  have hconstructors : (((c.constructors.map Constructor.printed).map Printed.run).foldl addBlock
      r').Lists ts (cs ++ [{ c with functions := [] }]) := by
    refine foldl_blocks (P := fun constructors r => r.Lists ts
      (cs ++ [{ c with constructors := constructors, functions := [] }])) hfields ?_
    intro done k r hmem hdone
    exact addConstructor_class hdone hc.name (hc.constructors k hmem)
  refine foldl_blocks (P := fun functions r => r.Lists ts
    (cs ++ [{ c with functions := functions }])) hconstructors ?_
  intro done f r hmem hdone
  exact addFunction_class hdone hc.name (hc.functions f hmem)

theorem addClasses (h : r.Lists ts cs) {classes : List Class} (hc : ∀ c ∈ classes, c.Printable)
    (hn : ((cs ++ classes).map Class.name).Nodup) :
    (((classes.flatMap Class.printed).map Printed.run).foldl addBlock r).Lists ts
      (cs ++ classes) := by
  induction classes generalizing r cs with
  | nil =>
    rw [List.append_nil]
    exact h
  | cons c classes ih =>
    have hsplit : cs ++ c :: classes = (cs ++ [c]) ++ classes := by simp
    have hnew : c.name ∉ cs.map Class.name := by
      rw [List.map_append, List.map_cons] at hn
      intro hmem
      exact (List.nodup_append.1 hn).2.2 _ hmem _ List.mem_cons_self rfl
    rw [hsplit] at hn ⊢
    rw [List.flatMap_cons, List.map_append, List.foldl_append]
    exact ih (h.addClass (hc c List.mem_cons_self) hnew)
      (fun c' hc' => hc c' (List.mem_cons_of_mem c hc')) hn

end Registry.Lists

/-! ### All entities -/

theorem Table.Printable.fits_printed {t : Table} (h : t.Printable) : ∀ b ∈ t.printed, b.Fits := by
  intro b hb
  rcases List.mem_cons.1 hb with rfl | hb
  · exact h.fits
  rcases List.mem_append.1 hb with hb | hb
  · obtain ⟨f, hf, rfl⟩ := List.mem_map.1 hb
    exact (h.fields f hf).fits h.name
  · obtain ⟨f, hf, rfl⟩ := List.mem_map.1 hb
    exact (h.functions f hf).fits h.name

theorem Class.Printable.fits_printed {c : Class} (h : c.Printable) : ∀ b ∈ c.printed, b.Fits := by
  intro b hb
  rcases List.mem_cons.1 hb with rfl | hb
  · exact h.fits
  rcases List.mem_append.1 hb with hb | hb
  · obtain ⟨f, hf, rfl⟩ := List.mem_map.1 hb
    exact (h.fields f hf).fits h.name
  rcases List.mem_append.1 hb with hb | hb
  · obtain ⟨k, hk, rfl⟩ := List.mem_map.1 hb
    exact (h.constructors k hk).fits h.name
  · obtain ⟨f, hf, rfl⟩ := List.mem_map.1 hb
    exact (h.functions f hf).fits h.name

/-- Tables and classes that are printed and read again are the same tables and classes. -/
theorem scan_printedEntities (file : Path) (tables : List Table) (classes : List Class)
    (htables : ∀ t ∈ tables, t.Printable) (hclasses : ∀ c ∈ classes, c.Printable)
    (htableNames : (tables.map Table.name).Nodup)
    (hclassNames : (classes.map Class.name).Nodup) :
    (scan {} file (printedEntities tables classes) {}).fault = none ∧
      (scan {} file (printedEntities tables classes) {}).blocks =
        (tables.flatMap Table.printed ++ classes.flatMap Class.printed).length ∧
      (scan {} file (printedEntities tables classes) {}).recorder.registry.tables = tables ∧
      (scan {} file (printedEntities tables classes) {}).recorder.registry.classes = classes ∧
      (scan {} file (printedEntities tables classes) {}).recorder.registry.nameSpace = none := by
  have hfits : ∀ b ∈ tables.flatMap Table.printed ++ classes.flatMap Class.printed, b.Fits := by
    intro b hb
    rcases List.mem_append.1 hb with hb | hb
    · obtain ⟨t, ht, hb⟩ := List.mem_flatMap.1 hb
      exact (htables t ht).fits_printed b hb
    · obtain ⟨c, hc, hb⟩ := List.mem_flatMap.1 hb
      exact (hclasses c hc).fits_printed b hb
  obtain ⟨hfault, hcount, hregistry⟩ := scan_printed file {} hfits
  have hready := Registry.Lists.empty.addTables htables htableNames
  have hdone := hready.addClasses hclasses hclassNames
  rw [← List.foldl_append, ← List.map_append, ← hregistry] at hdone
  exact ⟨hfault, hcount, hdone.tables, hdone.classes, hdone.nameSpace⟩

def sampleTable : Table where
  name := "Map".toList
  fields := [{ name := "size".toList, type := "fun(): int".toList }]
  functions := [{
    name := "at".toList
    owner := .table "Map".toList
    parameters := [⟨"x".toList, "int".toList, "From: left".toList⟩]
    returnType := some "Tile".toList
    description := "Looks up.\n\n  Twice.".toList }]

def sampleClass : Class where
  name := "Tile".toList
  parents := ["Cell".toList]
  constructors := [{ makes := "Tile".toList }]
  description := "One: tile.".toList

theorem scan_sampleEntities :
    (∀ t ∈ [sampleTable], t.Printable) ∧ (∀ c ∈ [sampleClass], c.Printable) ∧
      (scan {} (Path.ofString "map.cpp") (printedEntities [sampleTable] [sampleClass]) {}).fault =
        none ∧
      (scan {} (Path.ofString "map.cpp") (printedEntities [sampleTable] [sampleClass]) {}).blocks =
        ([sampleTable].flatMap Table.printed ++ [sampleClass].flatMap Class.printed).length ∧
      (scan {} (Path.ofString "map.cpp") (printedEntities [sampleTable] [sampleClass])
        {}).recorder.registry.tables = [sampleTable] ∧
      (scan {} (Path.ofString "map.cpp") (printedEntities [sampleTable] [sampleClass])
        {}).recorder.registry.classes = [sampleClass] ∧
      (scan {} (Path.ofString "map.cpp") (printedEntities [sampleTable] [sampleClass])
        {}).recorder.registry.nameSpace = none := by
  have htable : sampleTable.Printable := by
    refine ⟨by decide +kernel, ?_, ?_, by decide +kernel⟩
    · simp only [sampleTable, List.forall_mem_singleton]
      exact ⟨by decide +kernel, by decide, by decide +kernel, by decide +kernel⟩
    · simp only [sampleTable, List.forall_mem_singleton]
      refine ⟨rfl, by decide +kernel, ?_, by decide +kernel, by decide +kernel, by decide,
        by decide +kernel⟩
      simp only [List.forall_mem_singleton]
      exact ⟨by decide +kernel, by decide, by decide +kernel, by decide, by decide +kernel⟩
  have hclass : sampleClass.Printable := by
    refine ⟨by decide +kernel, by decide +kernel, by decide, by simp [sampleClass], ?_,
      by simp [sampleClass], by decide +kernel⟩
    simp only [sampleClass, List.forall_mem_singleton]
    exact ⟨rfl, by simp, by decide +kernel⟩
  have htables : ∀ t ∈ [sampleTable], t.Printable := by simpa using htable
  have hclasses : ∀ c ∈ [sampleClass], c.Printable := by simpa using hclass
  exact ⟨htables, hclasses, scan_printedEntities (Path.ofString "map.cpp") [sampleTable]
    [sampleClass] htables hclasses (by decide) (by decide)⟩

end LuaReference
