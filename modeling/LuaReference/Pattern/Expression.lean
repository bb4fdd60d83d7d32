import LuaReference.Pattern.Match

/-!
# Patterns as regular expressions

How a pattern is spelled as a regular expression on bytes, as the log shows it, and how deeply
that expression nests. An expression that nests deeper than `deepestExpression` is refused.
-/

namespace LuaReference

namespace Token

/-! ### Spelling -/

/-- Whether a regular expression gives a meaning of its own to this byte. -/
def isSpecial (b : UInt8) : Bool := "\\.+*?()|[]\x7b\x7d^$#&-~".toList.any (·.toNat = b.toNat)

/-- A byte in a regular expression: one beyond ASCII is written in hexadecimal digits. -/
def spellByte (b : UInt8) : Text :=
  if b < 0x80 then (if isSpecial b then ['\\'] else []) ++ [Char.ofNat b.toNat]
  else ['\\', 'x', Nat.digitChar (b.toNat / 16), Nat.digitChar (b.toNat % 16)]

def spell (c : Char) : Text := (bytes c).flatMap spellByte

def spellRange (r : Char × Char) : Text :=
  if r.1 = r.2 then spell r.1 else spell r.1 ++ '-' :: spell r.2

mutual

def expression : Token → Text
  | literal c => spell c
  | any => "[^/]".toList
  | many => "[^/]*".toList
  | leading => "(?:/?|.*/)".toList
  | trailing => "/.*".toList
  | between => "(?:/|/.*/)".toList
  | oneOf negated ranges =>
    '[' :: (if negated then ['^'] else []) ++ ranges.flatMap spellRange ++ [']']
  | group [] => []
  | group (b :: bs) => "(?:".toList ++ expressionAll b ++ expressionSome bs ++ [')']

def expressionAll : List Token → Text
  | [] => []
  | t :: ts => t.expression ++ expressionAll ts

def expressionSome : List (List Token) → Text
  | [] => []
  | b :: bs => '|' :: expressionAll b ++ expressionSome bs

end

def wholeExpression (ts : List Token) : Text :=
  "(?-u)^".toList ++ (match ts with
    | [leading] => ".*".toList
    | _ => expressionAll ts) ++ ['$']

/-! ### Nesting -/

/-- A sequence in a regular expression: how many parts it has, and how deeply the deepest nests. -/
structure Nesting where
  parts : Nat
  deepest : Nat

def Nesting.append (m n : Nesting) : Nesting := ⟨m.parts + n.parts, max m.deepest n.deepest⟩

/-- The levels of a sequence: more than one part make a level of their own. -/
def Nesting.levels (n : Nesting) : Nat := n.deepest + if 2 ≤ n.parts then 1 else 0

/-- The number of single bytes and ranges of bytes that a range of characters is spelled with. -/
def rangeParts (r : Char × Char) : Nat :=
  if r.1 = r.2 then (bytes r.1).length else (bytes r.1).length + (bytes r.2).length - 1

mutual

def nesting : Token → Nesting
  | literal c => ⟨(bytes c).length, 0⟩
  | any => ⟨1, 1⟩
  | many => ⟨1, 2⟩
  | leading => ⟨1, 4⟩
  | trailing => ⟨2, 1⟩
  | between => ⟨1, 4⟩
  | oneOf _ ranges => ⟨1, if 2 ≤ (ranges.map rangeParts).sum then 2 else 1⟩
  | group [] => ⟨0, 0⟩
  | group [b] => ⟨1, (nestingAll b).levels + 1⟩
  | group (b :: bs) => ⟨1, max (nestingAll b).levels (levelsSome bs) + 2⟩

def nestingAll : List Token → Nesting
  | [] => ⟨0, 0⟩
  | t :: ts => t.nesting.append (nestingAll ts)

def levelsSome : List (List Token) → Nat
  | [] => 0
  | b :: bs => max (nestingAll b).levels (levelsSome bs)

end

def deepestExpression : Nat := 250

/-- Whether the expression of a whole pattern, a sequence from its start to its end, nests too
deeply. -/
def isTooDeep (ts : List Token) : Bool := deepestExpression < (nestingAll ts).deepest + 1

end Token

end LuaReference
