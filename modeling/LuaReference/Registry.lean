import LuaReference.Entity

/-!
# The registry of documented entities

Tables and classes in the order in which they were first named, the functions that name lines
have named, and the namespace. Names are looked up in indexes that are kept beside the lists;
entities are changed in place.
-/

namespace LuaReference

inductive Holder where
  | tableAt (i : Nat)
  | classAt (i : Nat)
  deriving DecidableEq

structure Place where
  holder : Holder
  index : Nat
  deriving DecidableEq

structure Registry where
  /-- The tables, in first-seen order. -/
  tables : List Table := []
  /-- The positions of the tables by name, the latest first. -/
  tableIndex : List (Text × Nat) := []
  /-- The classes, in first-seen order. -/
  classes : List Class := []
  /-- The positions of the classes by name, the latest first. -/
  classIndex : List (Text × Nat) := []
  /-- Names given to functions, the latest first. -/
  named : List (Text × Place) := []
  nameSpace : Option Text := none
  deriving DecidableEq

instance : Inhabited Registry := ⟨{}⟩

namespace Registry

def isEmpty (r : Registry) : Bool := r.tables.isEmpty && r.classes.isEmpty

/-! ### Finding -/

/-- The table that the index has for this name. -/
def table? (r : Registry) (name : Text) : Option Table :=
  (r.tableIndex.lookup name).bind (r.tables[·]?)

/-- The class that the index has for this name. -/
def class? (r : Registry) (name : Text) : Option Class :=
  (r.classIndex.lookup name).bind (r.classes[·]?)

def functionsOf (r : Registry) : Holder → List Function
  | .tableAt i => (r.tables[i]?.map (·.functions)).getD []
  | .classAt i => (r.classes[i]?.map (·.functions)).getD []

def functionAt? (r : Registry) (p : Place) : Option Function := (r.functionsOf p.holder)[p.index]?

/-- The function that a name line named last with this name. -/
def function? (r : Registry) (name : Text) : Option Function :=
  (r.named.lookup name).bind r.functionAt?

/-! ### Naming -/

/-- The registry with a table of this name, and the table's position. -/
def tableEntry (r : Registry) (name : Text) : Registry × Nat :=
  match r.tableIndex.lookup name.trim with
  | some i => (r, i)
  | none =>
    ({ r with
        tables := r.tables ++ [.new name]
        tableIndex := (name.trim, r.tables.length) :: r.tableIndex },
      r.tables.length)

/-- The registry with a class of this name, and the class's position. -/
def classEntry (r : Registry) (name : Text) : Registry × Nat :=
  match r.classIndex.lookup name.trim with
  | some i => (r, i)
  | none =>
    ({ r with
        classes := r.classes ++ [.new name]
        classIndex := (name.trim, r.classes.length) :: r.classIndex },
      r.classes.length)

/-- The registry with another namespace; a blank one clears it. -/
def setNameSpace (r : Registry) (name : Text) : Registry :=
  { r with nameSpace := if name.trim = [] then none else some name.trim }

/-- The registry in which `name` was given to the function at `p`. -/
def recordName (r : Registry) (name : Text) (p : Place) : Registry :=
  { r with named := (name, p) :: r.named }

/-! ### Changing in place -/

def modifyTable (r : Registry) (i : Nat) (f : Table → Table) : Registry :=
  { r with tables := r.tables.modify i f }

def modifyClass (r : Registry) (i : Nat) (f : Class → Class) : Registry :=
  { r with classes := r.classes.modify i f }

def modifyFields (r : Registry) (h : Holder) (f : List Field → List Field) : Registry :=
  match h with
  | .tableAt i => r.modifyTable i fun t => { t with fields := f t.fields }
  | .classAt i => r.modifyClass i fun c => { c with fields := f c.fields }

/-- The registry with the functions of one table or class changed. -/
def modifyFunctions (r : Registry) (h : Holder) (f : List Function → List Function) : Registry :=
  match h with
  | .tableAt i => r.modifyTable i fun t => { t with functions := f t.functions }
  | .classAt i => r.modifyClass i fun c => { c with functions := f c.functions }

def modifyConstructors (r : Registry) (i : Nat) (f : List Constructor → List Constructor) :
    Registry :=
  r.modifyClass i fun c => { c with constructors := f c.constructors }

def fieldCount (r : Registry) : Holder → Nat
  | .tableAt i => (r.tables[i]?.map (·.fields.length)).getD 0
  | .classAt i => (r.classes[i]?.map (·.fields.length)).getD 0

def constructorCount (r : Registry) (i : Nat) : Nat :=
  (r.classes[i]?.map (·.constructors.length)).getD 0

def ownerOf (r : Registry) : Holder → Owner
  | .tableAt i => .table ((r.tables[i]?.map (·.name)).getD [])
  | .classAt i => .ofClass ((r.classes[i]?.map (·.name)).getD [])

/-- The registry with an empty field added, and the place of the field. -/
def addField (r : Registry) (h : Holder) : Registry × Place :=
  (r.modifyFields h (· ++ [({} : Field)]), ⟨h, r.fieldCount h⟩)

/-- The registry with an unnamed function added, and the place of the function. -/
def addFunction (r : Registry) (h : Holder) : Registry × Place :=
  (r.modifyFunctions h (· ++ [{ owner := r.ownerOf h }]), ⟨h, (r.functionsOf h).length⟩)

/-- The registry with a constructor added to a class, and the constructor's position. -/
def addConstructor (r : Registry) (i : Nat) : Registry × Nat :=
  (r.modifyConstructors i (· ++ [{ makes := (r.ownerOf (.classAt i)).name }]),
    r.constructorCount i)

def modifyField (r : Registry) (p : Place) (f : Field → Field) : Registry :=
  r.modifyFields p.holder (·.modify p.index f)

def modifyFunction (r : Registry) (p : Place) (f : Function → Function) : Registry :=
  r.modifyFunctions p.holder (·.modify p.index f)

def modifyConstructor (r : Registry) (i j : Nat) (f : Constructor → Constructor) : Registry :=
  r.modifyConstructors i (·.modify j f)

end Registry

end LuaReference
