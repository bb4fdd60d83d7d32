import LuaReference.Text.Basic

/-!
# Paths

A path is a text; nothing in it is normalised. Two paths are the same place by spelling when
their components agree, so doubled slashes, inner `.` components and trailing slashes do not
count. Joining, parents and removal of a leading path work on the text and keep its spelling.
-/

namespace LuaReference

structure Path where
  text : Text
  deriving DecidableEq, Inhabited

inductive Component where
  | root
  /-- A leading `.`. -/
  | here
  | up
  | name (n : Text)
  deriving DecidableEq

namespace Component

/-- The component that a piece between slashes stands for; empty pieces and `.` stand for none. -/
def ofPiece (p : Text) : Option Component :=
  if p = [] ∨ p = ['.'] then none else if p = ['.', '.'] then some .up else some (.name p)

/-- The rank of a component, then the characters of its name: the order in which paths sort. -/
def key : Component → List Nat
  | root => [0]
  | here => [1]
  | up => [2]
  | name n => 3 :: n.map Char.toNat

end Component

namespace Path

def ofString (s : String) : Path := ⟨s.toList⟩

def isAbsolute (p : Path) : Bool := p.text.head? == some '/'

def lead (p : Path) : List Component :=
  if p.isAbsolute then [.root]
  else if (Text.splitAll '/' p.text).head? = some ['.'] then [.here]
  else []

def body (p : Path) : List Text :=
  if p.lead = [] then Text.splitAll '/' p.text else (Text.splitAll '/' p.text).tail

def components (p : Path) : List Component := p.lead ++ p.body.filterMap Component.ofPiece

def agrees (p q : Path) : Bool := p.components == q.components

def ofParts (lead : List Component) (body : List Text) : Path :=
  match lead with
  | .root :: _ => ⟨'/' :: Text.join ['/'] body⟩
  | .here :: _ => ⟨'.' :: (if body = [] then [] else '/' :: Text.join ['/'] body)⟩
  | _ => ⟨Text.join ['/'] body⟩

def trimPieces (ps : List Text) : List Text :=
  (ps.reverse.dropWhile fun p => (Component.ofPiece p).isNone).reverse

def dropPieces : Nat → List Text → List Text
  | _, [] => []
  | n, p :: ps =>
    match n, Component.ofPiece p with
    | n, none => dropPieces n ps
    | 0, some _ => p :: ps
    | n + 1, some _ => dropPieces n ps

def join (p q : Path) : Path :=
  if q.isAbsolute then q
  else if p.text = [] ∨ p.text.getLast? = some '/' then ⟨p.text ++ q.text⟩
  else ⟨p.text ++ '/' :: q.text⟩

def child (p : Path) (n : Text) : Path := p.join ⟨n⟩

/-- The path without its last component; `none` for the root and for a path without components. -/
def parent? (p : Path) : Option Path :=
  match trimPieces p.body with
  | [] => if p.lead = [.here] then some ⟨[]⟩ else none
  | ps => some (ofParts p.lead (trimPieces ps.dropLast))

def startsWith (p root : Path) : Bool := root.components.isPrefixOf p.components

def strip? (root p : Path) : Option Path :=
  if p.startsWith root then
    let n := root.components.length
    if n = 0 then some (ofParts p.lead (trimPieces p.body))
    else some (ofParts [] (trimPieces (dropPieces (n - p.lead.length) p.body)))
  else none

/-- The path below `root`, or the path itself when it lies elsewhere. -/
def relativeTo (p root : Path) : Path := (strip? root p).getD p

def fileName? (p : Path) : Option Text :=
  match p.components.getLast? with
  | some (.name n) => some n
  | _ => none

/-- What follows the last dot of a file name; a dot at its start does not count. -/
def extensionOf (n : Text) : Option Text :=
  match Text.splitFirst '.' n.reverse with
  | none => none
  | some (after, before) => if before = [] then none else some after.reverse

def extension? (p : Path) : Option Text := p.fileName?.bind extensionOf

/-- The keys of the components: paths sort by them, component by component. -/
def key (p : Path) : List (List Nat) := p.components.map Component.key

def sortsBefore (p q : Path) : Bool := decide (¬ q.key < p.key)

end Path

end LuaReference
