import LuaReference.Fault
import LuaReference.Files.Directory
import LuaReference.Text.Utf8

/-!
# File trees

A file tree is everything below the root directory, and the directory where relative paths start.
`locate` walks along a path as the operating system does: `.` stays, `..` leaves a directory, and
a link leads on to its target. What a path leads to is an entry, or a name that is still free in
an existing directory; everything else is refused. Reading is asking `locate`.
-/

namespace LuaReference

structure FileTree where
  top : Entry := .directory .empty
  /-- The names that lead from the root to the working directory. -/
  here : List Text := []
  deriving DecidableEq, Inhabited

inductive Located where
  /-- An entry, by the names that lead to it from the root. -/
  | found (names : List Text) (e : Entry)
  /-- A free name in the directory that the names lead to. -/
  | vacant (names : List Text) (name : Text)
  deriving DecidableEq

/-- A stretch of a walk: it ends where the path leads to, or at a link that is to be followed. -/
inductive Stretch where
  | ends (l : Located)
  | turns (names : List Text) (target : Path) (rest : List Text)
  deriving DecidableEq

inductive Aim where
  /-- The entry at the end, even if it is a link. -/
  | itself
  /-- What the entry at the end leads to, if it is a link. -/
  | target
  /-- A file to be written, new or not. No slash may follow its name. -/
  | file
  deriving DecidableEq

/-- The steps of a walk along a path. A slash at its end is an empty step: it stays where it is,
and asks for a directory. -/
def Path.steps (p : Path) : List Text :=
  (Text.splitAll '/' p.text).filter (· ≠ []) ++
    if p.text.getLast? = some '/' then [[]] else []

namespace FileTree

def longestName : Nat := 255

def longestPath : Nat := 4095

def mostLinks : Nat := 40

def entry? (t : FileTree) (names : List Text) : Option Entry := t.top.at? names

/-! ### Walking -/

/-- The names where a walk along a path starts, when a relative one starts at `names`. -/
def origin (p : Path) (names : List Text) : List Text := if p.isAbsolute then [] else names

/-- A walk from a directory along steps, up to the first link that is to be followed. -/
def stretch (t : FileTree) (aim : Aim) : (names steps : List Text) → Except Refusal Stretch
  | names, [] =>
    match t.entry? names with
    | none => .error .missing
    | some e => .ok (.ends (.found names e))
  | names, s :: rest =>
    if s = [] ∨ s = ['.'] then stretch t aim names rest
    else if s = ['.', '.'] then stretch t aim names.dropLast rest
    else if aim = .file ∧ rest ≠ [] ∧ rest.all List.isEmpty then .error .isDirectory
    else if longestName < s.utf8Size then .error .tooLong
    else match t.entry? (names ++ [s]) with
      | none => if rest.all List.isEmpty then .ok (.ends (.vacant names s)) else .error .missing
      | some (.directory _) => stretch t aim (names ++ [s]) rest
      | some (.file bytes) =>
        if rest = [] then .ok (.ends (.found (names ++ [s]) (.file bytes)))
        else .error .notDirectory
      | some (.link target) =>
        if rest = [] ∧ aim = .itself then .ok (.ends (.found (names ++ [s]) (.link target)))
        else .ok (.turns names target rest)

def walk (t : FileTree) (aim : Aim) (links : Nat) (names steps : List Text) :
    Except Refusal Located :=
  match t.stretch aim names steps with
  | .error why => .error why
  | .ok (.ends l) => .ok l
  | .ok (.turns names target rest) =>
    match links with
    | 0 => .error .tooManyLinks
    | links + 1 => walk t aim links (origin target names) (target.steps ++ rest)

def locate (t : FileTree) (aim : Aim) (p : Path) : Except Refusal Located :=
  if '\x00' ∈ p.text then .error .nulInPath
  else if p.text = [] then .error .missing
  else if longestPath < p.text.utf8Size then .error .tooLong
  else t.walk aim mostLinks (origin p t.here) p.steps

def entry (t : FileTree) (p : Path) : Except Refusal Entry :=
  match t.locate .target p with
  | .error why => .error why
  | .ok (.vacant ..) => .error .missing
  | .ok (.found _ e) => .ok e

/-! ### Reading -/

def isPresent (t : FileTree) (p : Path) : Bool := (t.entry p).isOk

def isDirectory (t : FileTree) (p : Path) : Bool :=
  match t.entry p with
  | .ok (.directory _) => true
  | _ => false

def isFile (t : FileTree) (p : Path) : Bool :=
  match t.entry p with
  | .ok (.file _) => true
  | _ => false

def readBytes (t : FileTree) (p : Path) : Except Refusal ByteArray :=
  match t.entry p with
  | .error why => .error why
  | .ok (.file bytes) => .ok bytes
  | .ok _ => .error .isDirectory

def readText (t : FileTree) (p : Path) : Except Refusal Text :=
  match t.readBytes p with
  | .error why => .error why
  | .ok bytes =>
    match Text.ofUtf8? bytes with
    | none => .error .notUtf8
    | some text => .ok text

def list (t : FileTree) (p : Path) : Except Refusal Directory :=
  match t.entry p with
  | .error why => .error why
  | .ok (.directory d) => .ok d
  | .ok _ => .error .notDirectory

end FileTree

end LuaReference
