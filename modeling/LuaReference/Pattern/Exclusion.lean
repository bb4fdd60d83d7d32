import LuaReference.Pattern.Lookup
import LuaReference.Settings
import LuaReference.Text.Blank

/-!
# Exclusion

Exclude patterns are lines as in a file of ignore rules: comments, negation, anchoring to the
root, and rules for directories only. Of the rules that match an entry the last one decides.
-/

namespace LuaReference

structure IgnoreRule where
  pattern : Text
  tokens : List Token
  keeps : Bool
  directoriesOnly : Bool

namespace IgnoreRule

/-- The part of a line that counts: trailing blanks do not, unless a backslash escapes them. -/
def content (line : Text) : Text :=
  if "\\ ".toList.reverse.isPrefixOf line.reverse then line else line.trimEnd

/-- A line without its negation and anchor: whether it negates, whether it is anchored, and the
rest. An escaped `!` or `#` at the start stands for itself. -/
def opening (line : Text) : Bool × Bool × Text :=
  match line with
  | '\\' :: '!' :: r => (false, false, '!' :: r)
  | '\\' :: '#' :: r => (false, false, '#' :: r)
  | '!' :: '/' :: r => (true, true, r)
  | '!' :: r => (true, false, r)
  | '/' :: r => (false, true, r)
  | r => (false, false, r)

/-- A line without the slash at its end, and whether it had one; a backslash before the slash
goes as well. -/
def closing (line : Text) : Bool × Text :=
  match line.reverse with
  | '/' :: '\\' :: r => (true, r.reverse)
  | '/' :: r => (true, r.reverse)
  | _ => (false, line)

/-- The pattern of a line: one without slash matches in every directory, and one that ends in
two stars matches what is inside a directory, not the directory. -/
def patternOf (anchored : Bool) (body : Text) : Text :=
  let free := !anchored && decide ('/' ∉ body) && body != "**".toList
  let full := if free then "**/".toList ++ body else body
  if "/**".toList.reverse.isPrefixOf full.reverse then full ++ "/*".toList else full

def ofLine? (line : Text) : Except PatternFault (Option IgnoreRule) :=
  if line.head? = some '#' || (content line).isEmpty then .ok none
  else
    let (keeps, anchored, rest) := opening (content line)
    let (directoriesOnly, body) := closing rest
    let pattern := patternOf anchored body
    (Token.read pattern).map fun tokens => some ⟨pattern, tokens, keeps, directoriesOnly⟩

/-- Whether a rule needs a regular expression that nests too deeply. -/
def isTooDeep (r : IgnoreRule) : Bool :=
  (Lookup.of r.tokens).needsExpression && Token.isTooDeep r.tokens

end IgnoreRule

structure Exclusion where
  root : Text
  rules : List IgnoreRule

namespace Exclusion

def withoutHere (t : Text) : Text := (t.dropLeading? "./".toList).getD t

/-- The rules of the given lines; the first malformed line is a fault. -/
def rulesOf : List Text → Except Fault (List IgnoreRule)
  | [] => .ok []
  | line :: lines =>
    match IgnoreRule.ofLine? line with
    | .error why => .error (.badPattern line (IgnoreRule.content line) why)
    | .ok none => rulesOf lines
    | .ok (some rule) => (rulesOf lines).map (rule :: ·)

def of (s : Settings) (root : Path) : Except Fault Exclusion :=
  (rulesOf s.exclude).map (⟨withoutHere root.text, ·⟩)

def details (e : Exclusion) : List Text :=
  lookupDetails (e.rules.map fun r => (r.pattern, r.tokens))

/-- A path as the rules see it: below the root, when it has more than one name and the root is
not the current directory. -/
def localPath (e : Exclusion) (p : Path) : Text :=
  let t := withoutHere p.text
  if (Path.mk e.root).components = [.here] || decide ('/' ∉ t) then t
  else
    let t := (t.dropLeading? e.root).getD t
    (t.dropLeading? ['/']).getD t

/-- The rule that decides about an entry: the last one that matches it. -/
def decisive? (e : Exclusion) (p : Path) (isDirectory : Bool) : Option IgnoreRule :=
  e.rules.reverse.find? fun r =>
    Token.matchesPath r.tokens (e.localPath p) && (!r.directoriesOnly || isDirectory)

def ignores (e : Exclusion) (p : Path) (isDirectory : Bool) : Bool :=
  match e.decisive? p isDirectory with
  | some r => !r.keeps
  | none => false

end Exclusion

end LuaReference
