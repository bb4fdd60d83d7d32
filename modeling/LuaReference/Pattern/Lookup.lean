import LuaReference.Pattern.Expression
import LuaReference.Text.Quoted

/-!
# Looking patterns up

Few patterns need a regular expression: most are looked up by a path, a name or an extension.
`Lookup.of` says how a pattern is looked up, and `lookupDetails` what the log says about a set of
patterns.
-/

namespace LuaReference

inductive Lookup where
  | path (t : Text)
  | name (t : Text)
  | extension (t : Text)
  | start (t : Text)
  | names (t : Text)
  /-- The extension is this text, and a regular expression decides about the rest. -/
  | extensionAnd (t : Text)
  /-- A regular expression decides about the last name. -/
  | nameExpression
  /-- A regular expression decides about the path. -/
  | expression
  deriving DecidableEq

namespace Lookup

/-- The text that tokens stand for when each is a character that stands for itself. -/
def literals? : List Token → Option Text
  | [] => some []
  | .literal c :: ts => (literals? ts).map (c :: ·)
  | _ => none

/-- The extension, with its dot, that every path of a pattern has; `none` when there is none or
the last name of the pattern has no such end. -/
def extension? (ts : List Token) : Option Text :=
  let isPlain : Token → Bool
    | .literal c => c != '/' && c != '.'
    | _ => false
  match ts.reverse.dropWhile isPlain with
  | .literal '.' :: _ => (literals? (ts.reverse.takeWhile isPlain).reverse).map ('.' :: ·)
  | _ => none

/-- Whether a token stands within one name: for itself or for bytes that are no slashes. -/
def isInName : Token → Bool
  | .literal c => c != '/'
  | .any | .many => true
  | _ => false

/-- How a pattern behind `**/` is looked up without a regular expression, if it can be. -/
def anywhere? (ts : List Token) : Option Lookup :=
  match ts, literals? ts with
  | _, some [] => none
  | _, some t => some (if '/' ∈ t then names t else name t)
  | .many :: .literal '.' :: rest, _ =>
    match literals? rest with
    | some t => if '/' ∈ t ∨ '.' ∈ t then none else some (extension ('.' :: t))
    | none => none
  | _, _ => none

/-- How a pattern that starts at the root is looked up without a regular expression, if it can
be. -/
def fromRoot? (ts : List Token) : Option Lookup :=
  match literals? ts, ts.getLast?, literals? ts.dropLast with
  | some [], _, _ => none
  | some t, _, _ => some (path t)
  | none, some .trailing, some t => some (start (t ++ ['/']))
  | _, _, _ => none

/-- How a pattern is looked up when only a regular expression decides. -/
def deciding (ts : List Token) : Lookup :=
  match extension? ts, ts with
  | some t, _ => extensionAnd t
  | none, .leading :: t :: rest => if (t :: rest).all isInName then nameExpression else expression
  | none, _ => expression

def of (ts : List Token) : Lookup :=
  (match ts with
    | .leading :: rest => anywhere? rest
    | _ => fromRoot? ts).getD (deciding ts)

def needsExpression : Lookup → Bool
  | extensionAnd _ | nameExpression | expression => true
  | _ => false

end Lookup

/-! ### Details for the log -/

/-- The line about a pattern, by its text, that only a regular expression decides about. -/
def expressionDetail (pattern : Text) (ts : List Token) : Text :=
  "glob `Glob(".toList ++ pattern.quoted ++ ")` converted to regex: `".toList ++
    (Token.wholeExpression ts).quoted ++ ['`']

/-- The line about a set of patterns: how many are looked up in which way. A text that several
patterns are looked up by counts once. -/
def lookupTally (ls : List Lookup) : Text :=
  let distinct (pick : Lookup → Option Text) : Nat := (ls.filterMap pick).eraseDups.length
  let parts : List (Nat × String) :=
    [(distinct fun | .path t | .names t => some t | _ => none, "literals"),
      (distinct fun | .name t => some t | _ => none, "basenames"),
      (distinct fun | .extension t => some t | _ => none, "extensions"),
      ((ls.filter fun | .start _ => true | _ => false).length, "prefixes"),
      ((ls.filter fun | .names _ => true | _ => false).length, "suffixes"),
      (distinct fun | .extensionAnd t => some t | _ => none, "required extensions"),
      (ls.count .nameExpression, "basename regexes"),
      (ls.count .expression, "regexes")]
  "built glob set; ".toList ++ Text.join ", ".toList
    (parts.map fun (n, what) => Text.ofNat n ++ ' ' :: what.toList)

/-- What the log says about a set of patterns, each with its text; nothing when there is none. -/
def lookupDetails (ps : List (Text × List Token)) : List Text :=
  if ps.isEmpty then []
  else
    (ps.filter fun p => Lookup.of p.2 = .expression).map (fun p => expressionDetail p.1 p.2) ++
      [lookupTally (ps.map fun p => Lookup.of p.2)]

end LuaReference
