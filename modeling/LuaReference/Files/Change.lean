import LuaReference.Files.Tree

/-!
# Changes of a file tree

Making directories, writing, copying and removing files. A change that is refused leaves the tree
as it was; only `makeDirectories`, which makes several directories, keeps those made before it
was refused.
-/

namespace LuaReference

/-- A path and the directories above it, innermost first, at most so many. -/
def Path.chain : Nat → Path → List Path
  | 0, p => [p]
  | n + 1, p =>
    p :: match p.parent? with
      | none => []
      | some q => q.chain n

def Path.ancestors (p : Path) : List Path := p.chain p.text.length

namespace FileTree

def put (t : FileTree) (names : List Text) (name : Text) (e : Entry) : FileTree :=
  { t with top := t.top.setAt (some e) (names ++ [name]) }

def drop (t : FileTree) (names : List Text) : FileTree :=
  { t with top := t.top.setAt none names }

def replace (t : FileTree) (names : List Text) (e : Entry) : FileTree :=
  { t with top := t.top.setAt (some e) names }

def makeDirectory (p : Path) (t : FileTree) : Except Refusal FileTree :=
  match t.locate .itself p with
  | .error why => .error why
  | .ok (.found ..) => .error .present
  | .ok (.vacant names name) => .ok (t.put names name (.directory .empty))

/-- The first of these directories, after as many of the following ones as are missing. -/
def makeChain : List Path → FileTree → FileTree × Except Refusal Unit
  | [], t => (t, .error .missing)
  | p :: above, t =>
    if p.text = [] then (t, .ok ())
    else match t.makeDirectory p with
      | .ok made => (made, .ok ())
      | .error .missing =>
        match makeChain above t with
        | (ready, .error why) => (ready, .error why)
        | (ready, .ok _) =>
          match ready.makeDirectory p with
          | .ok made => (made, .ok ())
          | .error why => (ready, if ready.isDirectory p then .ok () else .error why)
      | .error why => (t, if t.isDirectory p then .ok () else .error why)

/-- A directory, with the directories above it as far as they are missing. -/
def makeDirectories (p : Path) (t : FileTree) : FileTree × Except Refusal Unit :=
  t.makeChain p.ancestors

/-- The tree without a file; a link at the end of the path goes, its target stays. -/
def removeFile (p : Path) (t : FileTree) : Except Refusal FileTree :=
  match t.locate .itself p with
  | .error why => .error why
  | .ok (.vacant ..) => .error .missing
  | .ok (.found _ (.directory _)) => .error .isDirectory
  | .ok (.found names _) => .ok (t.drop names)

def writeFile (p : Path) (bytes : ByteArray) (t : FileTree) : Except Refusal FileTree :=
  match t.locate .file p with
  | .error why => .error why
  | .ok (.vacant names name) => .ok (t.put names name (.file bytes))
  | .ok (.found _ (.directory _)) => .error .isDirectory
  | .ok (.found names _) => .ok (t.replace names (.file bytes))

/-- The tree in which the destination has the bytes of the source. The destination is emptied
before the source is read, so a file that is copied onto itself ends up empty. -/
def copyFile (source destination : Path) (t : FileTree) : Except Refusal FileTree :=
  match t.readBytes source, t.writeFile destination .empty with
  | .error why, _ => .error why
  | .ok _, .error why => .error why
  | .ok _, .ok opened =>
    match opened.readBytes source with
    | .error why => .error why
    | .ok bytes => opened.writeFile destination bytes

end FileTree

end LuaReference
