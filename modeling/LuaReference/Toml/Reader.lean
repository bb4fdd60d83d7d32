import LuaReference.Toml.Strings
import LuaReference.Toml.Value

/-!
# Reading TOML

The text of a document as statements, and the statements as one table. Every reader of a part
gives what it read and the text behind it, or nothing when the part is malformed.
-/

namespace LuaReference

namespace Toml

/-! ### Blanks, comments and line ends -/

def skipBlanks (t : Text) : Text := t.dropWhile fun c => c = ' ' || c = '\t'

def skipComment : Text → Text
  | '#' :: t => t.dropWhile isPlain
  | t => t

/-- A text without the blanks, comments and line ends at its start; `comment` says that it starts
inside a comment. -/
def skipFiller : (comment : Bool) → Text → Text
  | _, '\n' :: t => skipFiller false t
  | _, '\r' :: '\n' :: t => skipFiller false t
  | true, c :: t => if isPlain c then skipFiller true t else c :: t
  | false, ' ' :: t => skipFiller false t
  | false, '\t' :: t => skipFiller false t
  | false, '#' :: t => skipFiller true t
  | _, t => t

/-- What follows the end of a line, where blanks and a comment may come first. -/
def readLineEnd (t : Text) : Option Text :=
  match skipComment (skipBlanks t) with
  | [] => some []
  | '\n' :: r => some r
  | '\r' :: '\n' :: r => some r
  | _ => none

/-! ### Keys -/

def isBare (c : Char) : Bool :=
  isDecimal c || ('a' ≤ c && c ≤ 'z') || ('A' ≤ c && c ≤ 'Z') || c = '_' || c = '-'

def readSimpleKey : Text → Option (Text × Text)
  | '"' :: t => readBasic t
  | '\'' :: t => readLiteral t
  | t => if (t.takeWhile isBare).isEmpty then none else some (t.takeWhile isBare, t.dropWhile isBare)

def longestKey : Nat := 80

/-- A key of at most `n` parts with dots and blanks between them. -/
def readKey : (n : Nat) → Text → Option (List Text × Text)
  | 0, _ => none
  | n + 1, t => do
    let (k, t) ← readSimpleKey (skipBlanks t)
    match skipBlanks t with
    | '.' :: t => (readKey n t).map fun (ks, t) => (k :: ks, t)
    | t => some ([k], t)

/-! ### Values -/

def isDelimiter (c : Char) : Bool := "=,[]\x7b\x7d# \t\r\n".toList.contains c

def readScalar (t : Text) : Option (Value × Text) :=
  let w := t.takeWhile (!isDelimiter ·)
  let t := t.dropWhile (!isDelimiter ·)
  let w' := t.tail.takeWhile (!isDelimiter ·)
  if isDate w && t.head? = some ' ' && w'.head?.any isDecimal then
    if isDateTime (w ++ ' ' :: w') then some (.scalar, t.tail.dropWhile (!isDelimiter ·)) else none
  else if isScalar w then some (.scalar, t)
  else none

/-- The most lists and tables in braces that may stand one in the other. -/
def mostLevels : Nat := 80

mutual

/-- A value of at most `n` items, in which `room` more levels may open. -/
def readValue : (n room : Nat) → Text → Option (Value × Text)
  | 0, _, _ => none
  | n + 1, room, t =>
    match t, room with
    | '[' :: r, room + 1 => (readItems n room r).map fun (items, r) => (.array items, r)
    | '\x7b' :: r, room + 1 => (readPairs n room [] r).map fun (es, r) => (.table .inline es, r)
    | c :: _, _ =>
      if c = '"' || c = '\'' then (readString t).map fun (s, r) => (.text s, r) else readScalar t
    | [], _ => none

def readItems : (n room : Nat) → Text → Option (List Value × Text)
  | 0, _, _ => none
  | n + 1, room, t =>
    match skipFiller false t with
    | ']' :: r => some ([], r)
    | t' => do
      let (v, r) ← readValue n room t'
      match skipFiller false r with
      | ',' :: r => (readItems n room r).map fun (vs, r) => (v :: vs, r)
      | ']' :: r => some ([v], r)
      | _ => none

/-- The pairs of a table in braces and its closing brace, behind the entries read so far. Blanks,
comments and line ends may stand between all their parts, but not within a key. -/
def readPairs : (n room : Nat) → Entries → Text → Option (Entries × Text)
  | 0, _, _, _ => none
  | n + 1, room, es, t =>
    match skipFiller false t with
    | '\x7d' :: r => some (es, r)
    | t' => do
      let (key, r) ← readKey longestKey t'
      match skipFiller false r with
      | '=' :: r =>
        let (v, r) ← readValue n room (skipFiller false r)
        let es ← assign v key es
        match skipFiller false r with
        | ',' :: r => readPairs n room es r
        | '\x7d' :: r => some (es, r)
        | _ => none
      | _ => none

end

/-! ### Documents -/

/-- A statement at the start of a text, with at most `n` items in its value, and what follows it
on its line. -/
def readStatement (n : Nat) (t : Text) : Option (Statement × Text) :=
  match t with
  | '[' :: '[' :: r =>
    match readKey longestKey r with
    | some (path, ']' :: ']' :: r) => some (.item path, r)
    | _ => none
  | '[' :: r =>
    match readKey longestKey r with
    | some (path, ']' :: r) => some (.table path, r)
    | _ => none
  | _ =>
    match readKey longestKey t with
    | some (key, '=' :: r) =>
      (readValue n mostLevels (skipBlanks r)).map fun (v, r) => (.assign key v, r)
    | _ => none

/-- The statements of at most `n` lines, added to a document. -/
def readLines : (n : Nat) → Document → Text → Option Document
  | 0, d, t => if t.isEmpty then some d else none
  | n + 1, d, t =>
    match readLineEnd t with
    | some [] => some d
    | some t => readLines n d t
    | none => do
      let (s, t) ← readStatement (n + 1) (skipBlanks t)
      let d ← d.add s
      let t ← readLineEnd t
      readLines n d t

/-- A text without a byte order mark at its start. -/
def dropMark : Text → Text
  | '\uFEFF' :: t => t
  | t => t

/-- The entries of a document; `none` when the text is no TOML document. -/
def read (t : Text) : Option Entries :=
  (readLines (t.length + 1) {} (dropMark t)).map Document.root

end Toml

end LuaReference
