import LuaReference.Proofs.Annotation.Step
import LuaReference.Proofs.Registry.Change
import Mathlib.Data.List.Induction

/-!
# Parts of a block

Lines are cut into runs: a line that opens one, and the lines directly behind it that belong to
it. The parts of a block are its runs at opening lines. `Kind.addPart` says what one part adds,
from its lines as a whole and without a cursor; `foldl_after_registry` says that recording the
lines of a block one by one adds its parts one by one.
-/

namespace LuaReference

/-! ### Runs -/

/-- A line that opens something, and the lines directly behind it that belong to it. -/
structure Run where
  opening : Text
  lines : List Text
  deriving DecidableEq

/-- The runs of some lines, in order. Lines before the first opening line are in none. -/
def runs (opens keeps : Text → Bool) : List Text → List Run
  | [] => []
  | line :: rest =>
    if opens line then ⟨line, rest.takeWhile keeps⟩ :: runs opens keeps rest
    else runs opens keeps rest

/-- The parts of the body of a block: an opening line and everything up to the next one. -/
def Kind.parts (k : Kind) (body : List Text) : List Run :=
  runs k.opens (fun line => !k.opens line) body

theorem map_opening_runs (opens keeps : Text → Bool) (lines : List Text) :
    (runs opens keeps lines).map Run.opening = lines.filter opens := by
  induction lines with
  | nil => rfl
  | cons line lines ih =>
    rw [runs, List.filter_cons]
    split
    · rw [List.map_cons, ih]
    · exact ih

theorem opening_of_mem_runs {opens keeps : Text → Bool} {lines : List Text} {part : Run}
    (h : part ∈ runs opens keeps lines) : part.opening ∈ lines ∧ opens part.opening = true := by
  have hopening := List.mem_map_of_mem (f := Run.opening) h
  rwa [map_opening_runs, List.mem_filter] at hopening

/-- The table or class that an opening line names in a block of this kind. -/
def Kind.owner? (k : Kind) (line : Text) : Option Owner :=
  match k with
  | table => some (.table (tagValue line))
  | ofClass | constructor => some (.ofClass (tagValue line))
  | field | function =>
    some (if tagged "table" line then .table (tagValue line) else .ofClass (tagValue line))
  | nameSpace => none

/-! ### Members as their lines give them -/

/-- A description with more lines, each without its comment mark. -/
def describe (description : Text) (lines : List Text) : Text :=
  (lines.map sanitize).foldl pushLine description

/-- The field that the lines of a part describe: the last field line names and types it, all
lines without tag describe it. -/
def fieldOf (lines : List Text) : Field :=
  let values := ((lines.filter (tagged "field")).getLast?.map (tagValues 2)).getD []
  { name := values[0]?.getD []
    type := values[1]?.getD []
    description := describe [] (lines.filter fun line => !tagged "field" line) }

def constructorOf (makes : Text) (lines : List Text) : Constructor :=
  { makes := makes
    parameters := (lines.filter (tagged "param")).map parameterOf
    description := describe [] (lines.filter fun line => !tagged "param" line) }

/-- The function that the lines of a part describe: the last name line names it, the last return
lines with a first and with a second value say what it returns. -/
def functionOf (owner : Owner) (lines : List Text) : Function :=
  let others := lines.filter fun line => !tagged "name" line
  let rest := others.filter fun line => !tagged "param" line
  let returns := (rest.filter (tagged "return")).map (tagValues 2)
  { name := ((lines.filter (tagged "name")).getLast?.map tagValue).getD unnamed
    owner := owner
    parameters := (others.filter (tagged "param")).map parameterOf
    returnType := (returns.filterMap (·[0]?)).getLast?
    returnDescription := (returns.filterMap (·[1]?)).getLast?.getD []
    description := describe [] (rest.filter fun line => !tagged "return" line) }

def Table.withLines (t : Table) (lines : List Text) : Table :=
  { t with description := describe t.description lines }

/-- A class with the parents and the description that the lines of a part add. -/
def Class.withLines (c : Class) (lines : List Text) : Class :=
  { (lines.filter (tagged "inherit")).foldl (fun c line => c.inherit (tagValue line)) c with
    description := describe c.description (lines.filter fun line => !tagged "inherit" line) }

def Kind.addPart (k : Kind) (r : Registry) (part : Run) : Registry :=
  match k with
  | table =>
    let t := r.tableEntry (tagValue part.opening)
    t.1.modifyTable t.2 (·.withLines part.lines)
  | ofClass =>
    let c := r.classEntry (tagValue part.opening)
    c.1.modifyClass c.2 (·.withLines part.lines)
  | field =>
    let owner := r.ownerEntry part.opening
    owner.1.modifyFields owner.2 (· ++ [fieldOf part.lines])
  | constructor =>
    let c := r.classEntry (tagValue part.opening)
    c.1.modifyConstructors c.2
      (· ++ [constructorOf (c.1.ownerOf (.classAt c.2)).name part.lines])
  | function =>
    let owner := r.ownerEntry part.opening
    let place := Place.mk owner.2 (owner.1.functionsOf owner.2).length
    (part.lines.filter (tagged "name")).foldl (fun r line => r.recordName (tagValue line) place)
      (owner.1.modifyFunctions owner.2 (· ++ [functionOf (owner.1.ownerOf owner.2) part.lines]))
  | nameSpace => r.setNameSpace (tagValue part.opening)

/-! ### Line by line -/

theorem describe_append_lines (d : Text) (lines lines' : List Text) :
    describe d (lines ++ lines') = describe (describe d lines) lines' := by
  rw [describe, List.map_append, List.foldl_append]
  rfl

theorem describe_append (d : Text) (lines : List Text) (line : Text) :
    describe d (lines ++ [line]) = pushLine (describe d lines) (sanitize line) :=
  describe_append_lines d lines [line]

theorem withLines_append_table (t : Table) (lines : List Text) (line : Text) :
    t.withLines (lines ++ [line]) = Recorder.extendTable line (t.withLines lines) := by
  simp only [Table.withLines, Recorder.extendTable, describe_append]

theorem foldl_extendTable (t : Table) (lines : List Text) :
    lines.foldl (fun t line => Recorder.extendTable line t) t = t.withLines lines := by
  induction lines using List.reverseRecOn with
  | nil => rfl
  | append_singleton lines line ih =>
    rw [List.foldl_append, ih, withLines_append_table]
    rfl

theorem inherit_description (c : Class) (parent description : Text) :
    ({ c with description := description } : Class).inherit parent =
      { c.inherit parent with description := description } := by
  by_cases h : parent.trim ∈ c.parents <;> simp [Class.inherit, Class.inherits, h]

theorem withLines_append_class (c : Class) (lines : List Text) (line : Text) :
    c.withLines (lines ++ [line]) = Recorder.extendClass line (c.withLines lines) := by
  by_cases h : tagged "inherit" line = true
  · simp only [Class.withLines, Recorder.extendClass, h, if_true, List.filter_append,
      List.filter_singleton, List.foldl_append, List.foldl_cons, List.foldl_nil, Bool.not_true,
      Bool.cond_false, Bool.cond_true, List.append_nil, inherit_description]
  · simp only [Class.withLines, Recorder.extendClass, h, if_false, List.filter_append,
      List.filter_singleton, Bool.not_false, Bool.cond_false, Bool.cond_true, List.append_nil,
      describe_append, Bool.false_eq_true]

theorem foldl_extendClass (c : Class) (lines : List Text) :
    lines.foldl (fun c line => Recorder.extendClass line c) c = c.withLines lines := by
  induction lines using List.reverseRecOn with
  | nil => rfl
  | append_singleton lines line ih =>
    rw [List.foldl_append, ih, withLines_append_class]
    rfl

theorem fieldOf_append (lines : List Text) (line : Text) :
    fieldOf (lines ++ [line]) = Recorder.extendField line (fieldOf lines) := by
  by_cases h : tagged "field" line = true
  · simp only [fieldOf, Recorder.extendField, h, if_true, List.filter_append,
      List.filter_singleton, List.getLast?_concat, Option.map_some, Option.getD_some,
      Bool.not_true, Bool.cond_false, Bool.cond_true, List.append_nil]
  · simp only [fieldOf, Recorder.extendField, h, if_false, List.filter_append,
      List.filter_singleton, Bool.not_false, Bool.cond_false, Bool.cond_true, List.append_nil,
      describe_append, Bool.false_eq_true]

theorem foldl_extendField (lines : List Text) :
    lines.foldl (fun f line => Recorder.extendField line f) {} = fieldOf lines := by
  induction lines using List.reverseRecOn with
  | nil => rfl
  | append_singleton lines line ih =>
    rw [List.foldl_append, ih, fieldOf_append]
    rfl

theorem constructorOf_append (makes : Text) (lines : List Text) (line : Text) :
    constructorOf makes (lines ++ [line]) =
      Recorder.extendConstructor line (constructorOf makes lines) := by
  by_cases h : tagged "param" line = true
  · simp only [constructorOf, Recorder.extendConstructor, h, if_true, List.filter_append,
      List.filter_singleton, List.map_append, List.map_cons, List.map_nil, Bool.not_true,
      Bool.cond_false, Bool.cond_true, List.append_nil]
  · simp only [constructorOf, Recorder.extendConstructor, h, if_false, List.filter_append,
      List.filter_singleton, Bool.not_false, Bool.cond_false, Bool.cond_true, List.append_nil,
      describe_append, Bool.false_eq_true]

theorem foldl_extendConstructor (makes : Text) (lines : List Text) :
    lines.foldl (fun c line => Recorder.extendConstructor line c) { makes := makes } =
      constructorOf makes lines := by
  induction lines using List.reverseRecOn with
  | nil => rfl
  | append_singleton lines line ih =>
    rw [List.foldl_append, ih, constructorOf_append]
    rfl

/-- What a line adds to the selected function: a name, or what any other line adds. -/
def fillFunction (line : Text) (f : Function) : Function :=
  if tagged "name" line then Recorder.nameFunction line f else Recorder.extendFunction line f

theorem functionOf_append (owner : Owner) (lines : List Text) (line : Text) :
    functionOf owner (lines ++ [line]) = fillFunction line (functionOf owner lines) := by
  by_cases hn : tagged "name" line = true
  · simp [functionOf, fillFunction, Recorder.nameFunction, hn]
  · by_cases hp : tagged "param" line = true
    · simp [functionOf, fillFunction, Recorder.extendFunction, hn, hp]
    · by_cases hr : tagged "return" line = true
      · -- the values of this line come last, and a missing one leaves the earlier ones in force
        simp [functionOf, fillFunction, Recorder.extendFunction, hn, hp, hr]
      · simp [functionOf, fillFunction, Recorder.extendFunction, hn, hp, hr, describe_append]

theorem foldl_fillFunction (owner : Owner) (lines : List Text) :
    lines.foldl (fun f line => fillFunction line f) { owner := owner } =
      functionOf owner lines := by
  induction lines using List.reverseRecOn with
  | nil => rfl
  | append_singleton lines line ih =>
    rw [List.foldl_append, ih, functionOf_append]
    rfl

/-! ### One part -/

theorem kind?_openPart (k : Kind) (r : Registry) (line : Text) :
    (k.openPart r line).cursor.kind? = some k := by
  cases k <;> rfl

theorem fill_start (k : Kind) (r : Registry) (line : Text) : (Cursor.start k).fill r line = r := by
  cases k <;> rfl

/-- Lines that go to a selected function fill it, and its name lines give it names. -/
theorem foldl_fill_function (p : Place) (lines : List Text) (r : Registry) :
    lines.foldl (Cursor.function (some p)).fill r =
      (lines.filter (tagged "name")).foldl (fun r line => r.recordName (tagValue line) p)
        (r.modifyFunction p fun f => lines.foldl (fun f line => fillFunction line f) f) := by
  induction lines generalizing r with
  | nil => exact (r.modifyFunction_self p).symm
  | cons line lines ih =>
    rw [List.foldl_cons, ih]
    by_cases hn : tagged "name" line = true
    · have hf : fillFunction line = Recorder.nameFunction line := by
        funext f
        simp only [fillFunction, hn, if_true]
      simp only [Cursor.fill, hn, if_true, List.filter_cons, List.foldl_cons, hf,
        Registry.modifyFunction_recordName, Registry.modifyFunction_modifyFunction]
    · have hf : fillFunction line = Recorder.extendFunction line := by
        funext f
        simp only [fillFunction, hn, if_false, Bool.false_eq_true]
      simp only [Cursor.fill, hn, if_false, List.filter_cons, List.foldl_cons, hf,
        Registry.modifyFunction_modifyFunction, Bool.false_eq_true]

theorem foldl_fill_openPart (k : Kind) (r : Registry) (part : Run) :
    part.lines.foldl (k.openPart r part.opening).cursor.fill
        (k.openPart r part.opening).registry = k.addPart r part := by
  cases k with
  | table =>
    rw [Kind.addPart, Kind.openPart]
    refine (foldl_change (fun f r => Registry.modifyTable r _ f) Recorder.extendTable
      (fun r => r.modifyTable_self _) (fun f g r => r.modifyTable_modifyTable _ f g)
      part.lines _).trans ?_
    simp only [foldl_extendTable]
  | ofClass =>
    rw [Kind.addPart, Kind.openPart]
    refine (foldl_change (fun f r => Registry.modifyClass r _ f) Recorder.extendClass
      (fun r => r.modifyClass_self _) (fun f g r => r.modifyClass_modifyClass _ f g)
      part.lines _).trans ?_
    simp only [foldl_extendClass]
  | field =>
    rw [Kind.addPart, Kind.openPart]
    refine (foldl_change (fun f r => Registry.modifyField r _ f) Recorder.extendField
      (fun r => r.modifyField_self _) (fun f g r => r.modifyField_modifyField _ f g)
      part.lines _).trans ?_
    rw [Registry.modifyField_addField, foldl_extendField]
  | constructor =>
    rw [Kind.addPart, Kind.openPart]
    refine (foldl_change (fun f r => Registry.modifyConstructor r _ _ f)
      Recorder.extendConstructor (fun r => r.modifyConstructor_self _ _)
      (fun f g r => r.modifyConstructor_modifyConstructor _ _ f g) part.lines _).trans ?_
    rw [Registry.modifyConstructor_addConstructor, foldl_extendConstructor]
  | function =>
    rw [Kind.addPart, Kind.openPart, foldl_fill_function, Registry.modifyFunction_addFunction,
      foldl_fillFunction]
    rfl
  | nameSpace =>
    rw [Kind.addPart, Kind.openPart]
    induction part.lines with
    | nil => rfl
    | cons line lines ih => exact ih

/-! ### The lines of a block -/

/-- Recording lines from a block on: the lines up to the next opening line fill what is
selected, then every part is added. -/
theorem foldl_after_registry (k : Kind) (body : List Text) (r : Registry) (c : Cursor)
    (hc : c.kind? = some k) :
    (body.foldl Recorder.after ⟨r, c⟩).registry =
      (k.parts body).foldl k.addPart
        ((body.takeWhile fun line => !k.opens line).foldl c.fill r) := by
  induction body generalizing r c with
  | nil => rfl
  | cons line rest ih =>
    by_cases h : k.opens line = true
    · have hafter : Recorder.after ⟨r, c⟩ line = k.openPart r line := by
        simp only [Recorder.after, hc, h, if_true]
      rw [List.foldl_cons, hafter, ih _ _ (kind?_openPart k r line)]
      simp only [Kind.parts, runs, h, if_true, List.takeWhile_cons, Bool.not_true,
        Bool.false_eq_true, if_false, List.foldl_nil, List.foldl_cons]
      rw [← foldl_fill_openPart]
    · have hafter : Recorder.after ⟨r, c⟩ line = ⟨c.fill r line, c⟩ := by
        simp only [Recorder.after, hc, h, if_false, Bool.false_eq_true]
      rw [List.foldl_cons, hafter, ih _ _ hc]
      simp only [Kind.parts, runs, h, if_false, List.takeWhile_cons, Bool.not_false, if_true,
        List.foldl_cons, Bool.false_eq_true]

theorem foldl_after_start (k : Kind) (body : List Text) (r : Registry) :
    (body.foldl Recorder.after ⟨r, .start k⟩).registry = (k.parts body).foldl k.addPart r := by
  have hskip : ∀ lines : List Text, lines.foldl (Cursor.start k).fill r = r := by
    intro lines
    induction lines with
    | nil => rfl
    | cons line lines ih => rw [List.foldl_cons, fill_start, ih]
  rw [foldl_after_registry k body r (.start k) (Cursor.kind?_start k), hskip]

end LuaReference
