import LuaReference.Text.Blank

/-!
# Documented entities

Tables and classes with their fields, constructors and functions. A description grows line by
line: `pushLine_of_ne_nil` and `pushLine_nil` say how.
-/

namespace LuaReference

/-! ### Descriptions -/

/-- A description with one more line. Lines are joined by line feeds; while the description is
empty, a new line replaces it. -/
def pushLine (description line : Text) : Text :=
  if description = [] then line else description ++ '\n' :: line

@[simp]
theorem pushLine_nil (line : Text) : pushLine [] line = line := rfl

theorem pushLine_of_ne_nil {d : Text} (h : d ≠ []) (line : Text) :
    pushLine d line = d ++ '\n' :: line := if_neg h

/-! ### Members -/

structure Field where
  name : Text := []
  type : Text := []
  description : Text := []
  deriving DecidableEq, Inhabited

structure Parameter where
  name : Text
  type : Text
  description : Text
  deriving DecidableEq, Inhabited

structure Constructor where
  makes : Text
  parameters : List Parameter := []
  description : Text := []
  deriving DecidableEq, Inhabited

inductive Owner where
  | table (name : Text)
  | ofClass (name : Text)
  deriving DecidableEq, Inhabited

namespace Owner

def name : Owner → Text
  | table n => n
  | ofClass n => n

/-- What stands between owner and member in a call: a table's functions are reached with a
period, methods of a class with a colon. -/
def separator : Owner → Char
  | table _ => '.'
  | ofClass _ => ':'

def label : Owner → Text
  | table n => "table `".toList ++ n ++ "`".toList
  | ofClass n => "class `".toList ++ n ++ "`".toList

end Owner

def unnamed : Text := "unset".toList

structure Function where
  name : Text := unnamed
  owner : Owner
  parameters : List Parameter := []
  /-- The type of its result, once a return annotation was read. -/
  returnType : Option Text := none
  returnDescription : Text := []
  description : Text := []
  deriving DecidableEq, Inhabited

/-- The type of the result, when one was given that is not empty. -/
def Function.declaredReturn (f : Function) : Option Text := f.returnType.filter (· ≠ [])

/-! ### Tables and classes -/

structure Table where
  name : Text
  fields : List Field := []
  functions : List Function := []
  description : Text := []
  deriving DecidableEq, Inhabited

/-- An empty table with the given name, without surrounding blanks. -/
def Table.new (name : Text) : Table := { name := name.trim }

structure Class where
  name : Text
  /-- The names of the classes it inherits from, without repeats. -/
  parents : List Text := []
  fields : List Field := []
  constructors : List Constructor := []
  functions : List Function := []
  description : Text := []
  deriving DecidableEq, Inhabited

/-- An empty class with the given name, without surrounding blanks. -/
def Class.new (name : Text) : Class := { name := name.trim }

/-- Whether a parent, without surrounding blanks, is listed already. -/
def Class.inherits (c : Class) (parent : Text) : Bool := decide (parent.trim ∈ c.parents)

/-- The class with one more parent, unless it is listed already. -/
def Class.inherit (c : Class) (parent : Text) : Class :=
  if c.inherits parent then c else { c with parents := c.parents ++ [parent.trim] }

end LuaReference
