import LuaReference.Event
import LuaReference.Fault
import LuaReference.Registry

/-!
# Validation

What is checked before anything is rendered. Fields of one owner must have different names;
functions without a name and parents without documentation are reported only.
-/

namespace LuaReference

/-- The fields whose name is among `seen` or repeats an earlier field. -/
def repeatsAfter (seen : List Text) : List Field → List Field
  | [] => []
  | f :: fs =>
    if f.name ∈ seen then f :: repeatsAfter seen fs else repeatsAfter (f.name :: seen) fs

/-- The fields that repeat the name of an earlier one, labelled with their owner. -/
def repeatedFields (owner : Text) (fields : List Field) : List RepeatedField :=
  (repeatsAfter [] fields).map (⟨owner, ·⟩)

namespace Registry

/-- Every repeated field: tables before classes, in first-seen order. -/
def repeatedFields (r : Registry) : List RepeatedField :=
  r.tables.flatMap (fun t => LuaReference.repeatedFields (Owner.table t.name).label t.fields) ++
    r.classes.flatMap fun c => LuaReference.repeatedFields (Owner.ofClass c.name).label c.fields

def unknownParents (r : Registry) : List Event :=
  r.classes.flatMap fun c =>
    (c.parents.filter fun p => (r.class? p).isNone).map (.unknownParent c.name ·)

def functions (r : Registry) : List Function :=
  r.tables.flatMap (·.functions) ++ r.classes.flatMap (·.functions)

def unnamedFunctions (r : Registry) : List Event :=
  (r.functions.filter (·.name = unnamed)).map (.unnamedFunction ·.owner)

def warnings (r : Registry) : List Event := r.unknownParents ++ r.unnamedFunctions

def validate (r : Registry) : Except Fault Unit :=
  if r.repeatedFields = [] then .ok () else .error (.repeatedFields r.repeatedFields)

end Registry

end LuaReference
