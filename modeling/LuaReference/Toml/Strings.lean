import LuaReference.Toml.Scalar

/-!
# Strings of TOML

The four kinds of strings: basic ones with escapes and literal ones without, each on one line or
on several. Every reader takes the text behind the opening quotes and gives the value and the
text behind the closing ones.
-/

namespace LuaReference

namespace Toml

/-- Whether a character may stand in a string, a comment or a line as it is. -/
def isPlain (c : Char) : Bool :=
  let n := c.toNat
  n == 9 || (0x20 ≤ n && n ≠ 0x7F)

def escape? (c : Char) : Option Char :=
  match c with
  | 'b' => some '\x08'
  | 't' => some '\t'
  | 'n' => some '\n'
  | 'f' => some '\x0c'
  | 'r' => some '\r'
  | 'e' => some '\x1b'
  | '"' => some '"'
  | '\\' => some '\\'
  | _ => none

def hexValue (c : Char) : Nat :=
  if isDecimal c then c.toNat - 48 else if 'a' ≤ c then c.toNat - 87 else c.toNat - 55

def hexChar? (t : Text) : Option Char :=
  let n := t.foldl (fun n c => 16 * n + hexValue c) 0
  if t.all isHex && (n < 0xD800 || (0xDFFF < n && n < 0x110000)) then some (Char.ofNat n) else none

def prepend (c : Option Char) (r : Option (Text × Text)) : Option (Text × Text) :=
  match c, r with
  | some c, some (t, rest) => some (c :: t, rest)
  | _, _ => none

def readBasic : Text → Option (Text × Text)
  | [] => none
  | '"' :: r => some ([], r)
  | '\\' :: 'x' :: a :: b :: r => prepend (hexChar? [a, b]) (readBasic r)
  | '\\' :: 'u' :: a :: b :: c :: d :: r => prepend (hexChar? [a, b, c, d]) (readBasic r)
  | '\\' :: 'U' :: a :: b :: c :: d :: e :: f :: g :: h :: r =>
    prepend (hexChar? [a, b, c, d, e, f, g, h]) (readBasic r)
  | '\\' :: c :: r => prepend (escape? c) (readBasic r)
  | c :: r => if isPlain c then prepend (some c) (readBasic r) else none

def readLiteral : Text → Option (Text × Text)
  | [] => none
  | '\'' :: r => some ([], r)
  | c :: r => if isPlain c then prepend (some c) (readLiteral r) else none

/-- Whether only spaces and tabs come before the end of the line. -/
def endsLine (t : Text) : Bool :=
  match t.dropWhile fun c => c = ' ' || c = '\t' with
  | '\n' :: _ => true
  | '\r' :: '\n' :: _ => true
  | _ => false

/-- Whether a character may stand in a string of several lines, before the given text. -/
def isPlainLine (c : Char) (r : Text) : Bool :=
  isPlain c || c = '\n' || (c = '\r' && r.head? = some '\n')

/-- A basic string of several lines. A backslash at the end of a line takes the line end and all
blanks behind it away; `trimming` says that it is still at work. -/
def readBasicLines : (trimming : Bool) → Text → Option (Text × Text)
  | _, [] => none
  | true, ' ' :: r => readBasicLines true r
  | true, '\t' :: r => readBasicLines true r
  | true, '\n' :: r => readBasicLines true r
  | true, '\r' :: '\n' :: r => readBasicLines true r
  | _, '"' :: '"' :: '"' :: '"' :: '"' :: r => some (['"', '"'], r)
  | _, '"' :: '"' :: '"' :: '"' :: r => some (['"'], r)
  | _, '"' :: '"' :: '"' :: r => some ([], r)
  | _, '\\' :: 'x' :: a :: b :: r => prepend (hexChar? [a, b]) (readBasicLines false r)
  | _, '\\' :: 'u' :: a :: b :: c :: d :: r =>
    prepend (hexChar? [a, b, c, d]) (readBasicLines false r)
  | _, '\\' :: 'U' :: a :: b :: c :: d :: e :: f :: g :: h :: r =>
    prepend (hexChar? [a, b, c, d, e, f, g, h]) (readBasicLines false r)
  | _, '\\' :: c :: r =>
    if endsLine (c :: r) then
      if c = '\r' || c = '\n' || c = ' ' || c = '\t' then readBasicLines true r else none
    else prepend (escape? c) (readBasicLines false r)
  | _, c :: r => if isPlainLine c r then prepend (some c) (readBasicLines false r) else none

def readLiteralLines : Text → Option (Text × Text)
  | [] => none
  | '\'' :: '\'' :: '\'' :: '\'' :: '\'' :: r => some (['\'', '\''], r)
  | '\'' :: '\'' :: '\'' :: '\'' :: r => some (['\''], r)
  | '\'' :: '\'' :: '\'' :: r => some ([], r)
  | c :: r => if isPlainLine c r then prepend (some c) (readLiteralLines r) else none

/-- A text without the line end at its start, which several lines may begin with. -/
def dropLineEnd : Text → Text
  | '\n' :: r => r
  | '\r' :: '\n' :: r => r
  | t => t

def readString : Text → Option (Text × Text)
  | '"' :: '"' :: '"' :: r => readBasicLines false (dropLineEnd r)
  | '"' :: r => readBasic r
  | '\'' :: '\'' :: '\'' :: r => readLiteralLines (dropLineEnd r)
  | '\'' :: r => readLiteral r
  | _ => none

end Toml

end LuaReference
