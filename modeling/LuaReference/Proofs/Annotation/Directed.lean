import LuaReference.Proofs.Annotation.Failure
import LuaReference.Proofs.Annotation.Named
import LuaReference.Proofs.Annotation.Refusal
import LuaReference.Proofs.Registry.Entities

/-!
# What annotations add to an entity

The lines of a source up to the first one that fails are cut into annotations, the parts of its
blocks. A registry is what the annotations of all its sources add, one after the other, and what it
has under a name is what those add that are directed to the name: `eq_annotated_of_mem_tables`,
`eq_annotated_of_mem_classes`.
-/

namespace LuaReference

/-! ### Annotations -/

/-- A part of a block, with the kind of the block. -/
structure Annotation where
  kind : Kind
  part : Run
  deriving DecidableEq

/-- The table or class that an annotation is about, or adds a member to. -/
def Annotation.owner? (a : Annotation) : Option Owner := a.kind.owner? a.part.opening

/-- The annotations of a kind that are directed to an owner, in order. -/
def directed (as : List Annotation) (k : Kind) (o : Owner) : List Annotation :=
  as.filter fun a => a.kind = k ∧ a.owner? = some o

theorem directed_append (as as' : List Annotation) (k : Kind) (o : Owner) :
    directed (as ++ as') k o = directed as k o ++ directed as' k o :=
  List.filter_append as as'

def Run.annotations (block : Run) : List Annotation :=
  match headerKind? block.opening with
  | none => []
  | some k => (k.parts block.lines).map fun part => ⟨k, part⟩

/-- The annotations in some trimmed lines. -/
def annotationsOf (s : Settings) (lines : List Text) : List Annotation :=
  (blocksOf s lines).flatMap Run.annotations

/-- The lines before the first one that fails; `before` is the line above them. -/
def linesRead (s : Settings) (file : Path) : Nat → Option Text → List Text → List Text
  | _, _, [] => []
  | number, before, line :: rest =>
    if (lineFault? s file before number line).isSome then []
    else line :: linesRead s file (number + 1) (some line) rest

/-- The trimmed lines of a source that are read before one fails. -/
def Source.lines (source : Source) : List Text :=
  linesRead source.settings source.file 1 none (sourceLines source.content)

def Source.annotations (source : Source) : List Annotation :=
  annotationsOf source.settings source.lines

/-- The registry with what an annotation adds. -/
def Registry.annotated (r : Registry) (a : Annotation) : Registry := a.kind.addPart r a.part

theorem scanLines_linesRead {s : Settings} {r : Recorder} {before : Option Text}
    (h : r.Follows s before) (file : Path) (number : Nat) (lines : List Text) :
    (scanLines s file number r (linesRead s file number before lines)).fault = none ∧
      (scanLines s file number r (linesRead s file number before lines)).recorder =
        (scanLines s file number r lines).recorder := by
  induction lines generalizing number r before with
  | nil => exact ⟨rfl, rfl⟩
  | cons line rest ih =>
    have hread := h.read_fault file number line
    rw [linesRead]
    cases hfault : (r.read s file number line).fault with
    | some f =>
      have hkept := (read_of_fault hfault).1
      have hline : (lineFault? s file before number line).isSome = true := by
        rw [← hread, hfault]
        rfl
      rw [if_pos hline, scanLines, scanLines, hfault]
      exact ⟨rfl, hkept.symm⟩
    | none =>
      have hline : ¬ (lineFault? s file before number line).isSome = true := by
        rw [← hread, hfault]
        exact Bool.false_ne_true
      rw [if_neg hline, scanLines, scanLines, hfault]
      exact ih (follows_read hfault) (number + 1)

theorem foldl_addBlock (r : Registry) (blocks : List Run) :
    blocks.foldl addBlock r = (blocks.flatMap Run.annotations).foldl Registry.annotated r := by
  induction blocks generalizing r with
  | nil => rfl
  | cons block blocks ih =>
    have hblock : addBlock r block = block.annotations.foldl Registry.annotated r := by
      rw [addBlock, Run.annotations]
      cases headerKind? block.opening with
      | none => rfl
      | some k =>
        dsimp only
        rw [List.foldl_map]
        rfl
    rw [List.foldl_cons, List.flatMap_cons, List.foldl_append, ih, hblock]

/-- A scan that does not fail adds all annotations of its source. -/
theorem registry_scan_eq_annotated {s : Settings} {file : Path} {content : Text} {r : Registry}
    (h : (scan s file content r).fault = none) :
    (scan s file content r).recorder.registry =
      (annotationsOf s (sourceLines content)).foldl Registry.annotated r := by
  rw [registry_scan h, foldl_addBlock, annotationsOf]

theorem withSource_eq (r : Registry) (source : Source) :
    r.withSource source = source.annotations.foldl Registry.annotated r := by
  have hstart : Recorder.Follows source.settings { registry := r } none :=
    follows_outside _ rfl fun b hb => nomatch hb
  obtain ⟨hfault, hrecorder⟩ :=
    scanLines_linesRead hstart source.file 1 (sourceLines source.content)
  have hblocks := (scanLines_eq_blocks _ _ _ _ _ hfault).2.2
  rw [foldl_after_outside _ _ rfl, hrecorder, ← scan_recorder] at hblocks
  rw [Registry.withSource, hblocks, foldl_addBlock]
  rfl

theorem withSources_eq (r : Registry) (sources : List Source) :
    r.withSources sources =
      (sources.flatMap Source.annotations).foldl Registry.annotated r := by
  induction sources generalizing r with
  | nil => rfl
  | cons source sources ih =>
    rw [Registry.withSources, ih, withSource_eq, List.flatMap_cons, List.foldl_append]

/-! ### Well-formed registries -/

theorem sound_foldl_fill {r : Registry} {c : Cursor} (h : Recorder.Sound ⟨r, c⟩)
    (lines : List Text) : Recorder.Sound ⟨lines.foldl c.fill r, c⟩ := by
  induction lines generalizing r with
  | nil => exact h
  | cons line lines ih =>
    exact ih ⟨wellFormed_fill h.registry h.cursor line, h.cursor.grows (grows_fill c r line)⟩

namespace Registry.WellFormed

variable {r : Registry}

theorem annotated (h : r.WellFormed) (a : Annotation) : (r.annotated a).WellFormed := by
  rw [Registry.annotated, ← foldl_fill_openPart]
  exact (sound_foldl_fill (sound_openPart a.kind h a.part.opening) a.part.lines).registry

end Registry.WellFormed

/-! ### What annotations add to an entity -/

def Table.withMembers (t : Table) (fields : List Field) (functions : List Function) : Table :=
  { t with fields := t.fields ++ fields, functions := t.functions ++ functions }

def Class.withMembers (c : Class) (fields : List Field) (constructors : List Constructor)
    (functions : List Function) : Class :=
  { c with
    fields := c.fields ++ fields
    constructors := c.constructors ++ constructors
    functions := c.functions ++ functions }

/-- A table with what the annotations that are directed to it add: lines that describe it, fields
and functions. -/
def Table.annotated (t : Table) (as : List Annotation) : Table :=
  (t.withLines ((directed as .table (.table t.name)).flatMap (·.part.lines))).withMembers
    ((directed as .field (.table t.name)).map fun a => fieldOf a.part.lines)
    ((directed as .function (.table t.name)).map fun a =>
      functionOf (.table t.name) a.part.lines)

/-- A class with what the annotations that are directed to it add. -/
def Class.annotated (c : Class) (as : List Annotation) : Class :=
  (c.withLines ((directed as .ofClass (.ofClass c.name)).flatMap (·.part.lines))).withMembers
    ((directed as .field (.ofClass c.name)).map fun a => fieldOf a.part.lines)
    ((directed as .constructor (.ofClass c.name)).map fun a => constructorOf c.name a.part.lines)
    ((directed as .function (.ofClass c.name)).map fun a =>
      functionOf (.ofClass c.name) a.part.lines)

theorem Table.annotated_append (t : Table) (as as' : List Annotation) :
    t.annotated (as ++ as') = (t.annotated as).annotated as' := by
  simp only [annotated, withMembers, withLines, directed_append, List.flatMap_append,
    List.map_append, List.append_assoc, describe_append_lines]

theorem extendClass_withMembers (line : Text) (c : Class) (fields : List Field)
    (constructors : List Constructor) (functions : List Function) :
    Recorder.extendClass line (c.withMembers fields constructors functions) =
      (Recorder.extendClass line c).withMembers fields constructors functions := by
  rw [Recorder.extendClass, Recorder.extendClass]
  split
  · rw [Class.inherit, Class.inherit]
    split
    · next hlisted => exact (if_pos hlisted).symm ▸ rfl
    · next hfree => exact (if_neg hfree).symm ▸ rfl
  · rfl

theorem Class.withLines_withMembers (c : Class) (fields : List Field)
    (constructors : List Constructor) (functions : List Function) (lines : List Text) :
    (c.withMembers fields constructors functions).withLines lines =
      (c.withLines lines).withMembers fields constructors functions := by
  rw [← foldl_extendClass, ← foldl_extendClass]
  induction lines generalizing c with
  | nil => rfl
  | cons line lines ih => rw [List.foldl_cons, extendClass_withMembers, ih, List.foldl_cons]

theorem Class.withLines_append (c : Class) (lines lines' : List Text) :
    c.withLines (lines ++ lines') = (c.withLines lines).withLines lines' := by
  rw [← foldl_extendClass, List.foldl_append, foldl_extendClass, foldl_extendClass]

/-- Lines of a block about a class change neither its name nor its members. -/
theorem Class.kept_withLines (c : Class) (lines : List Text) :
    (c.withLines lines).name = c.name ∧ (c.withLines lines).fields = c.fields ∧
      (c.withLines lines).constructors = c.constructors ∧
        (c.withLines lines).functions = c.functions := by
  rw [← foldl_extendClass]
  induction lines generalizing c with
  | nil => exact ⟨rfl, rfl, rfl, rfl⟩
  | cons line lines ih =>
    have hline : (Recorder.extendClass line c).name = c.name ∧
        (Recorder.extendClass line c).fields = c.fields ∧
          (Recorder.extendClass line c).constructors = c.constructors ∧
            (Recorder.extendClass line c).functions = c.functions := by
      rw [Recorder.extendClass, Class.inherit]
      split
      · split <;> exact ⟨rfl, rfl, rfl, rfl⟩
      · exact ⟨rfl, rfl, rfl, rfl⟩
    rw [List.foldl_cons, ← hline.1, ← hline.2.1, ← hline.2.2.1, ← hline.2.2.2]
    exact ih _

theorem Class.name_annotated (c : Class) (as : List Annotation) : (c.annotated as).name = c.name :=
  (c.kept_withLines _).1

theorem Table.fields_annotated (t : Table) (as : List Annotation) :
    (t.annotated as).fields =
      t.fields ++ (directed as .field (.table t.name)).map fun a => fieldOf a.part.lines := rfl

theorem Table.functions_annotated (t : Table) (as : List Annotation) :
    (t.annotated as).functions = t.functions ++ (directed as .function (.table t.name)).map fun a =>
      functionOf (.table t.name) a.part.lines := rfl

theorem Class.fields_annotated (c : Class) (as : List Annotation) :
    (c.annotated as).fields =
      c.fields ++ (directed as .field (.ofClass c.name)).map fun a => fieldOf a.part.lines :=
  congrArg (· ++ _) (c.kept_withLines _).2.1

theorem Class.constructors_annotated (c : Class) (as : List Annotation) :
    (c.annotated as).constructors =
      c.constructors ++ (directed as .constructor (.ofClass c.name)).map fun a =>
        constructorOf c.name a.part.lines :=
  congrArg (· ++ _) (c.kept_withLines _).2.2.1

theorem Class.functions_annotated (c : Class) (as : List Annotation) :
    (c.annotated as).functions =
      c.functions ++ (directed as .function (.ofClass c.name)).map fun a =>
        functionOf (.ofClass c.name) a.part.lines :=
  congrArg (· ++ _) (c.kept_withLines _).2.2.2

theorem Class.annotated_append (c : Class) (as as' : List Annotation) :
    c.annotated (as ++ as') = (c.annotated as).annotated as' := by
  have hmembers : ∀ (d : Class) (f f' : List Field) (k k' : List Constructor)
      (g g' : List Function), (d.withMembers f k g).withMembers f' k' g' =
        d.withMembers (f ++ f') (k ++ k') (g ++ g') := by
    intro d f f' k k' g g'
    simp only [withMembers, List.append_assoc]
  rw [annotated, annotated, name_annotated, annotated, withLines_withMembers, hmembers]
  simp only [directed_append, List.flatMap_append, List.map_append, withLines_append]

/-! ### One annotation -/

theorem directed_singleton (a : Annotation) (k : Kind) (o : Owner) :
    directed [a] k o = if a.kind = k ∧ a.owner? = some o then [a] else [] := by
  rw [directed, List.filter_singleton]
  by_cases h : a.kind = k ∧ a.owner? = some o <;> simp [h]

section
variable {k : Kind} {part : Run} {n : Text}

/-- What is directed elsewhere adds nothing. -/
theorem Table.annotated_foreign {t : Table} (hname : t.name = n)
    (h : k.owner? part.opening ≠ some (.table n)) : t.annotated [⟨k, part⟩] = t := by
  rw [annotated, hname]
  simp [directed_singleton, Annotation.owner?, h, withMembers, withLines, describe]

theorem Class.annotated_foreign {c : Class} (hname : c.name = n)
    (h : k.owner? part.opening ≠ some (.ofClass n)) : c.annotated [⟨k, part⟩] = c := by
  rw [annotated, hname]
  simp [directed_singleton, Annotation.owner?, h, withMembers, withLines, describe]

theorem Table.annotated_own {t : Table} (hname : t.name = n)
    (h : k.owner? part.opening = some (.table n)) :
    t.annotated [⟨k, part⟩] =
      (t.withLines (if k = .table then part.lines else [])).withMembers
        (if k = .field then [fieldOf part.lines] else [])
        (if k = .function then [functionOf (.table n) part.lines] else []) := by
  rw [annotated, hname]
  simp only [directed_singleton, Annotation.owner?, h, and_true]
  cases k <;> simp

theorem Class.annotated_own {c : Class} (hname : c.name = n)
    (h : k.owner? part.opening = some (.ofClass n)) :
    c.annotated [⟨k, part⟩] =
      (c.withLines (if k = .ofClass then part.lines else [])).withMembers
        (if k = .field then [fieldOf part.lines] else [])
        (if k = .constructor then [constructorOf n part.lines] else [])
        (if k = .function then [functionOf (.ofClass n) part.lines] else []) := by
  rw [annotated, hname]
  simp only [directed_singleton, Annotation.owner?, h, and_true]
  cases k <;> simp

end

/-- The registry with the entity of a holder changed. -/
def Registry.modifyHolder (r : Registry) (h : Holder) (f : Table → Table) (g : Class → Class) :
    Registry :=
  match h with
  | .tableAt i => r.modifyTable i f
  | .classAt i => r.modifyClass i g

theorem Registry.modifyFields_eq (r : Registry) (h : Holder) (f : List Field → List Field) :
    r.modifyFields h f = r.modifyHolder h (fun t => { t with fields := f t.fields })
      fun c => { c with fields := f c.fields } := by
  cases h <;> rfl

theorem Registry.modifyFunctions_eq (r : Registry) (h : Holder)
    (f : List Function → List Function) :
    r.modifyFunctions h f = r.modifyHolder h (fun t => { t with functions := f t.functions })
      fun c => { c with functions := f c.functions } := by
  cases h <;> rfl

theorem Registry.foldl_recordName (r : Registry) (lines : List Text) (p : Place) (n : Text) :
    (lines.foldl (fun r line => r.recordName (tagValue line) p) r).tableNamed n =
        r.tableNamed n ∧
      (lines.foldl (fun r line => r.recordName (tagValue line) p) r).classNamed n =
        r.classNamed n := by
  induction lines generalizing r with
  | nil => exact ⟨rfl, rfl⟩
  | cons line lines ih => exact ih (r.recordName (tagValue line) p)

theorem trim_tagValue (line : Text) : (tagValue line).trim = tagValue line := Text.trim_trim _

namespace Registry.WellFormed

variable {r : Registry} (h : r.WellFormed)
include h

theorem tableNamed_modifyOwner (line n : Text) (f : Table → Table) (g : Class → Class) :
    ((r.ownerEntry line).1.modifyHolder (r.ownerEntry line).2 f g).tableNamed n =
      if Kind.field.owner? line = some (.table n) then f (r.tableNamed n)
      else r.tableNamed n := by
  rw [Registry.ownerEntry, Kind.owner?]
  by_cases htable : tagged "table" line = true
  · rw [if_pos htable, if_pos htable]
    refine (h.tableNamed_change (tagValue line) n f).trans ?_
    simp only [trim_tagValue, Option.some.injEq, Owner.table.injEq, eq_comm]
  · rw [if_neg htable, if_neg htable, if_neg (by simp)]
    exact r.tableNamed_classEntry (tagValue line) n

theorem classNamed_modifyOwner (line n : Text) (f : Table → Table) (g : Class → Class) :
    ((r.ownerEntry line).1.modifyHolder (r.ownerEntry line).2 f g).classNamed n =
      if Kind.field.owner? line = some (.ofClass n) then g (r.classNamed n)
      else r.classNamed n := by
  rw [Registry.ownerEntry, Kind.owner?]
  by_cases htable : tagged "table" line = true
  · rw [if_pos htable, if_pos htable, if_neg (by simp)]
    exact r.classNamed_tableEntry (tagValue line) n
  · rw [if_neg htable, if_neg htable]
    refine (h.classNamed_change (tagValue line) n g).trans ?_
    simp only [trim_tagValue, Option.some.injEq, Owner.ofClass.injEq, eq_comm]

theorem owner?_eq_ownerOf (line : Text) :
    Kind.function.owner? line = some ((r.ownerEntry line).1.ownerOf (r.ownerEntry line).2) := by
  rw [Registry.ownerEntry, Kind.owner?]
  split
  · rw [h.ownerOf_tableEntry, trim_tagValue]
  · rw [h.ownerOf_classEntry, trim_tagValue]

/-- What an annotation adds is seen under the name of the table that it is directed to. -/
theorem tableNamed_annotated (a : Annotation) (n : Text) :
    (r.annotated a).tableNamed n = (r.tableNamed n).annotated [a] := by
  obtain ⟨k, part⟩ := a
  have hname := h.name_tableNamed n
  cases k with
  | table =>
    refine (h.tableNamed_change (tagValue part.opening) n _).trans ?_
    rw [trim_tagValue]
    split
    · next hn =>
      rw [Table.annotated_own hname (hn ▸ rfl)]
      simp [Table.withMembers]
    · next hn =>
      have ho : Kind.table.owner? part.opening ≠ some (.table n) := by
        simpa [Kind.owner?] using Ne.symm hn
      exact (Table.annotated_foreign hname ho).symm
  | ofClass =>
    rw [Table.annotated_foreign hname (by simp [Kind.owner?])]
    exact r.tableNamed_classEntry (tagValue part.opening) n
  | field =>
    rw [Registry.annotated, Kind.addPart, Registry.modifyFields_eq, h.tableNamed_modifyOwner]
    split
    · next ho =>
      rw [Table.annotated_own hname ho]
      simp [Table.withMembers, Table.withLines, describe]
    · next ho => exact (Table.annotated_foreign hname ho).symm
  | constructor =>
    rw [Table.annotated_foreign hname (by simp [Kind.owner?])]
    exact r.tableNamed_classEntry (tagValue part.opening) n
  | function =>
    have hof := h.owner?_eq_ownerOf part.opening
    rw [Registry.annotated, Kind.addPart, (Registry.foldl_recordName _ _ _ _).1,
      Registry.modifyFunctions_eq, h.tableNamed_modifyOwner]
    split
    · next hmember =>
      have ho : Kind.function.owner? part.opening = some (.table n) := hmember
      rw [Table.annotated_own hname ho, ← Option.some.inj (hof.symm.trans ho)]
      simp [Table.withMembers, Table.withLines, describe]
    · next hmember =>
      have ho : Kind.function.owner? part.opening ≠ some (.table n) := hmember
      exact (Table.annotated_foreign hname ho).symm
  | nameSpace =>
    rw [Table.annotated_foreign hname (by simp [Kind.owner?])]
    rfl

/-- What an annotation adds is seen under the name of the class that it is directed to. -/
theorem classNamed_annotated (a : Annotation) (n : Text) :
    (r.annotated a).classNamed n = (r.classNamed n).annotated [a] := by
  obtain ⟨k, part⟩ := a
  have hname := h.name_classNamed n
  cases k with
  | table =>
    rw [Class.annotated_foreign hname (by simp [Kind.owner?])]
    exact r.classNamed_tableEntry (tagValue part.opening) n
  | ofClass =>
    refine (h.classNamed_change (tagValue part.opening) n _).trans ?_
    rw [trim_tagValue]
    split
    · next hn =>
      rw [Class.annotated_own hname (hn ▸ rfl)]
      simp [Class.withMembers]
    · next hn =>
      have ho : Kind.ofClass.owner? part.opening ≠ some (.ofClass n) := by
        simpa [Kind.owner?] using Ne.symm hn
      exact (Class.annotated_foreign hname ho).symm
  | field =>
    rw [Registry.annotated, Kind.addPart, Registry.modifyFields_eq, h.classNamed_modifyOwner]
    split
    · next ho =>
      rw [Class.annotated_own hname ho]
      simp [Class.withMembers, Class.withLines, describe]
    · next ho => exact (Class.annotated_foreign hname ho).symm
  | constructor =>
    have hof := h.ownerOf_classEntry (tagValue part.opening)
    rw [Registry.annotated]
    simp only [Kind.addPart, hof, trim_tagValue, Owner.name]
    refine (h.classNamed_change (tagValue part.opening) n _).trans ?_
    rw [trim_tagValue]
    split
    · next hn =>
      rw [Class.annotated_own hname (hn ▸ rfl)]
      simp [hn, Class.withMembers, Class.withLines, describe]
    · next hn =>
      have ho : Kind.constructor.owner? part.opening ≠ some (.ofClass n) := by
        simpa [Kind.owner?] using Ne.symm hn
      exact (Class.annotated_foreign hname ho).symm
  | function =>
    have hof := h.owner?_eq_ownerOf part.opening
    rw [Registry.annotated, Kind.addPart, (Registry.foldl_recordName _ _ _ _).2,
      Registry.modifyFunctions_eq, h.classNamed_modifyOwner]
    split
    · next hmember =>
      have ho : Kind.function.owner? part.opening = some (.ofClass n) := hmember
      rw [Class.annotated_own hname ho, ← Option.some.inj (hof.symm.trans ho)]
      simp [Class.withMembers, Class.withLines, describe]
    · next hmember =>
      have ho : Kind.function.owner? part.opening ≠ some (.ofClass n) := hmember
      exact (Class.annotated_foreign hname ho).symm
  | nameSpace =>
    rw [Class.annotated_foreign hname (by simp [Kind.owner?])]
    rfl

/-! ### All annotations -/

theorem foldl_annotated (as : List Annotation) : (as.foldl Registry.annotated r).WellFormed := by
  induction as generalizing r with
  | nil => exact h
  | cons a as ih => exact ih (h.annotated a)

theorem tableNamed_foldl_annotated (as : List Annotation) (n : Text) :
    (as.foldl Registry.annotated r).tableNamed n = (r.tableNamed n).annotated as := by
  induction as generalizing r with
  | nil => simp [Table.annotated, directed, Table.withMembers, Table.withLines, describe]
  | cons a as ih =>
    rw [List.foldl_cons, ih (h.annotated a), h.tableNamed_annotated, ← Table.annotated_append,
      List.singleton_append]

theorem classNamed_foldl_annotated (as : List Annotation) (n : Text) :
    (as.foldl Registry.annotated r).classNamed n = (r.classNamed n).annotated as := by
  induction as generalizing r with
  | nil => simp [Class.annotated, directed, Class.withMembers, Class.withLines, describe]
  | cons a as ih =>
    rw [List.foldl_cons, ih (h.annotated a), h.classNamed_annotated, ← Class.annotated_append,
      List.singleton_append]

theorem eq_annotated_of_mem_tables {as : List Annotation} {t : Table}
    (ht : t ∈ (as.foldl Registry.annotated r).tables) :
    t = (r.tableNamed t.name).annotated as := by
  rw [← h.tableNamed_foldl_annotated, (h.foldl_annotated as).tableNamed_of_mem ht]

theorem eq_annotated_of_mem_classes {as : List Annotation} {c : Class}
    (hc : c ∈ (as.foldl Registry.annotated r).classes) :
    c = (r.classNamed c.name).annotated as := by
  rw [← h.classNamed_foldl_annotated, (h.foldl_annotated as).classNamed_of_mem hc]

end Registry.WellFormed

end LuaReference
