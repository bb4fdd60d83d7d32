import LuaReference.Proofs.Annotation.Block
import LuaReference.Proofs.Registry.Growth

/-!
# The namespace that a source sets

Only the name lines of blocks about the namespace set it, each anew, so the last of them decides
which namespace a source leaves: `nameSpace_scan`.
-/

namespace LuaReference

/-- A namespace as it is recorded: without surrounding blanks, and none when it is blank. -/
def nameSpaceOf (name : Text) : Option Text :=
  if name.trim = [] then none else some name.trim

/-- The namespace after some values were given to it, of which the last counts. -/
def spaceAfter (before : Option Text) (values : List Text) : Option Text :=
  match values.getLast? with
  | none => before
  | some value => nameSpaceOf value

theorem spaceAfter_append (before : Option Text) (values values' : List Text) :
    spaceAfter before (values ++ values') = spaceAfter (spaceAfter before values) values' := by
  rw [spaceAfter, spaceAfter, spaceAfter, List.getLast?_append]
  cases values'.getLast? <;> rfl

/-! ### What leaves it alone -/

namespace Registry

variable {r : Registry}

theorem nameSpace_setNameSpace (name : Text) :
    (r.setNameSpace name).nameSpace = spaceAfter r.nameSpace [name] := rfl

theorem nameSpace_tableEntry (name : Text) : (r.tableEntry name).1.nameSpace = r.nameSpace := by
  rcases r.tableEntry_cases name with ⟨i, -, he⟩ | ⟨-, he⟩ <;> rw [he]

theorem nameSpace_classEntry (name : Text) : (r.classEntry name).1.nameSpace = r.nameSpace := by
  rcases r.classEntry_cases name with ⟨i, -, he⟩ | ⟨-, he⟩ <;> rw [he]

theorem nameSpace_ownerEntry (line : Text) : (r.ownerEntry line).1.nameSpace = r.nameSpace := by
  rw [ownerEntry]
  split
  · exact nameSpace_tableEntry _
  · exact nameSpace_classEntry _

theorem nameSpace_modifyFields (h : Holder) (f : List Field → List Field) :
    (r.modifyFields h f).nameSpace = r.nameSpace := by
  cases h <;> rfl

theorem nameSpace_modifyFunctions (h : Holder) (f : List Function → List Function) :
    (r.modifyFunctions h f).nameSpace = r.nameSpace := by
  cases h <;> rfl

theorem nameSpace_foldl_recordName (lines : List Text) (p : Place) :
    (lines.foldl (fun r line => r.recordName (tagValue line) p) r).nameSpace = r.nameSpace := by
  induction lines generalizing r with
  | nil => rfl
  | cons line lines ih => exact ih

end Registry

theorem nameSpace_addPart {k : Kind} (hk : k ≠ .nameSpace) (r : Registry) (part : Run) :
    (k.addPart r part).nameSpace = r.nameSpace := by
  cases k with
  | table => exact r.nameSpace_tableEntry _
  | ofClass => exact r.nameSpace_classEntry _
  | field => exact (Registry.nameSpace_modifyFields _ _).trans (r.nameSpace_ownerEntry _)
  | constructor => exact r.nameSpace_classEntry _
  | function =>
    rw [Kind.addPart, Registry.nameSpace_foldl_recordName, Registry.nameSpace_modifyFunctions,
      Registry.nameSpace_ownerEntry]
  | nameSpace => exact absurd rfl hk

theorem nameSpace_foldl_addPart {k : Kind} (hk : k ≠ .nameSpace) (r : Registry)
    (parts : List Run) : (parts.foldl k.addPart r).nameSpace = r.nameSpace := by
  induction parts generalizing r with
  | nil => rfl
  | cons part parts ih => rw [List.foldl_cons, ih, nameSpace_addPart hk]

/-! ### What sets it -/

/-- The values of the name lines in a block about the namespace. -/
def Run.spaces (block : Run) : List Text :=
  if headerKind? block.opening = some .nameSpace then
    (block.lines.filter (tagged "name")).map tagValue
  else []

/-- The values of the name lines in all blocks about the namespace, in order. -/
def sourceSpaces (s : Settings) (content : Text) : List Text :=
  (blocksOf s (sourceLines content)).flatMap Run.spaces

theorem nameSpace_foldl_setNameSpace (r : Registry) (parts : List Run) :
    (parts.foldl (Kind.addPart .nameSpace) r).nameSpace =
      spaceAfter r.nameSpace (parts.map fun part => tagValue part.opening) := by
  induction parts generalizing r with
  | nil => rfl
  | cons part parts ih =>
    rw [List.foldl_cons, ih, List.map_cons, ← List.singleton_append, spaceAfter_append]
    rfl

theorem nameSpace_addBlock (r : Registry) (block : Run) :
    (addBlock r block).nameSpace = spaceAfter r.nameSpace block.spaces := by
  rw [addBlock, Run.spaces]
  cases hk : headerKind? block.opening with
  | none => rfl
  | some k =>
    by_cases hkind : k = .nameSpace
    · subst hkind
      have hopenings : (Kind.parts .nameSpace block.lines).map Run.opening =
          block.lines.filter (tagged "name") := map_opening_runs _ _ _
      rw [if_pos rfl, ← hopenings, List.map_map]
      exact nameSpace_foldl_setNameSpace r _
    · rw [if_neg (by simpa using hkind)]
      exact nameSpace_foldl_addPart hkind r _

theorem nameSpace_foldl_addBlock (r : Registry) (blocks : List Run) :
    (blocks.foldl addBlock r).nameSpace = spaceAfter r.nameSpace (blocks.flatMap Run.spaces) := by
  induction blocks generalizing r with
  | nil => rfl
  | cons block blocks ih =>
    rw [List.foldl_cons, ih, nameSpace_addBlock, List.flatMap_cons, spaceAfter_append]

theorem nameSpace_scan {s : Settings} {file : Path} {content : Text} {r : Registry}
    (h : (scan s file content r).fault = none) :
    (scan s file content r).recorder.registry.nameSpace =
      spaceAfter r.nameSpace (sourceSpaces s content) := by
  rw [registry_scan h, nameSpace_foldl_addBlock, sourceSpaces]

end LuaReference
