import LuaReference.Fault

/-!
# Path patterns

A pattern is a list of tokens, read from a text by `Token.read`: wildcards, classes of
characters, groups of alternatives, and characters that stand for themselves.
-/

namespace LuaReference

inductive Token where
  | literal (c : Char)
  | any
  | many
  /-- A leading `**/`: nothing, or directories. -/
  | leading
  /-- A closing `/**`: anything below. -/
  | trailing
  /-- A `/**/`: a slash, or directories between slashes. -/
  | between
  | oneOf (negated : Bool) (ranges : List (Char × Char))
  | group (branches : List (List Token))
  deriving Inhabited

namespace Token

def isVoid : Token → Bool
  | group [] => true
  | _ => false

def ofBranches (branches : List (List Token)) : Token :=
  group (branches.filter fun b => !b.all isVoid)

/-! ### Classes -/

/-- A class that is being read: its ranges, the latest first, and whether a range is open. -/
structure OpenClass where
  /-- The ranges so far, the latest first. -/
  ranges : List (Char × Char) := []
  /-- Whether a hyphen behind the latest range waits for its end. -/
  opened : Bool := false

/-- The class with the latest range ending in `c`. -/
def OpenClass.extend (k : OpenClass) (c : Char) : Except PatternFault OpenClass :=
  match k.ranges with
  | [] => .ok ⟨[(c, c)], false⟩
  | (a, _) :: rs => if c < a then .error (.backwardRange a c) else .ok ⟨(a, c) :: rs, false⟩

/-- The ranges of a class and the text behind its closing bracket; `none` when it is not closed.
A bracket or a hyphen in the first place stands for itself, as does a hyphen in the last. -/
def readClass : (first : Bool) → OpenClass → Text →
    Except PatternFault (Option (List (Char × Char) × Text))
  | _, _, [] => .ok none
  | first, k, c :: t =>
    if c = ']' && !first then
      .ok (some ((if k.opened then ('-', '-') :: k.ranges else k.ranges).reverse, t))
    else if c = '-' && !first && !k.opened then readClass false { k with opened := true } t
    else if k.opened then
      match k.extend c with
      | .error e => .error e
      | .ok k => readClass false k t
    else readClass false { k with ranges := (c, c) :: k.ranges } t

/-- Whether a class is negated, and its text behind the mark of that. -/
def classBody : Text → Bool × Text
  | '!' :: t => (true, t)
  | '^' :: t => (true, t)
  | t => (false, t)

/-! ### Patterns -/

/-- A level of a pattern: its finished alternatives and the tokens of the one being read, the
latest first. -/
structure Branches where
  /-- The finished alternatives, the latest first. -/
  finished : List (List Token) := []
  /-- The tokens of the alternative being read, the latest first. -/
  current : List Token := []

structure Reading where
  level : Branches := {}
  /-- The levels around it, the innermost first. -/
  outer : List Branches := []
  last : Option Char := none
  /-- Whether a bracket without its closing one was met: later brackets stand for themselves. -/
  bracketOpen : Bool := false

namespace Reading

def push (r : Reading) (t : Token) : Reading :=
  { r with level := { r.level with current := t :: r.level.current } }

def seen (r : Reading) (c : Char) : Reading := { r with last := some c }

/-- The reading with its latest token replaced. -/
def swap (r : Reading) (f : Token → Token) : Reading :=
  match r.level.current with
  | [] => r
  | t :: ts => { r with level := { r.level with current := f t :: ts } }

def openGroup (r : Reading) : Reading :=
  { r with level := {}, outer := r.level :: r.outer }

def nextBranch (r : Reading) : Reading :=
  { r with level := ⟨r.level.current.reverse :: r.level.finished, []⟩ }

def closeGroup (r : Reading) : Except PatternFault Reading :=
  match r.outer with
  | [] => .error .unopenedGroup
  | l :: ls =>
    .ok ({ r with level := l, outer := ls }.push
      (ofBranches (r.level.current.reverse :: r.level.finished).reverse))

def finish (r : Reading) : Except PatternFault (List Token) :=
  if r.outer.isEmpty then .ok r.level.current.reverse else .error .unclosedGroup

def pushStars (r : Reading) : Reading := (r.push .many).push .many

def recursive (closing : Bool) (before : Token) : Token :=
  match before with
  | .leading => .leading
  | .trailing => .trailing
  | _ => if closing then .trailing else .between

/-- Two stars, with the text behind them and the character before them: they stand for
directories when they fill the space between slashes, ends of groups, and ends of the pattern. -/
def doubleStar (r : Reading) (before : Option Char) (t : Text) : Reading × Text :=
  if r.level.current.isEmpty then
    match t with
    | [] => (r.push .leading, [])
    | '/' :: t => ((r.push .leading).seen '/', t)
    | t => (r.pushStars, t)
  else if before != some '/' && (r.outer.isEmpty || (before != some ',' && before != some '\x7b')) then
    (r.pushStars, t)
  else
    match t with
    | [] => (r.swap (recursive true), [])
    | '/' :: t => ((r.swap (recursive false)).seen '/', t)
    | c :: t' =>
      if (c = ',' || c = '\x7d') && !r.outer.isEmpty then (r.swap (recursive true), c :: t')
      else (r.pushStars, c :: t')

/-- A class behind its opening bracket. A bracket that is never closed stands for itself. -/
def openBracket (r : Reading) (t : Text) : Except PatternFault (Reading × Text) :=
  let (negated, body) := classBody t
  match readClass true {} body with
  | .error e => .error e
  | .ok (some (ranges, t)) => .ok ((r.push (.oneOf negated ranges)).seen ']', t)
  | .ok none => .ok ({ r.push (.literal '[') with bracketOpen := true }, t)

/-- One step: the reading behind the character `c` and the text `t` behind it. -/
def step (r : Reading) (c : Char) (t : Text) : Except PatternFault (Reading × Text) :=
  let before := r.last
  let r := r.seen c
  match c with
  | '?' => .ok (r.push .any, t)
  | '*' =>
    match t with
    | '*' :: t => .ok (r.doubleStar before t)
    | t => .ok (r.push .many, t)
  | '[' => if r.bracketOpen then .ok (r.push (.literal '['), t) else r.openBracket t
  | '\x7b' => .ok (r.openGroup, t)
  | '\x7d' => r.closeGroup.map fun r => (r, t)
  | ',' => .ok (if r.outer.isEmpty then r.push (.literal ',') else r.nextBranch, t)
  | '\\' =>
    match t with
    | [] => .error .danglingEscape
    | d :: t => .ok ((r.push (.literal d)).seen d, t)
  | c => .ok (r.push (.literal c), t)

/-- The tokens of the rest of a pattern, in at most `n` steps. -/
def run : (n : Nat) → Reading → Text → Except PatternFault (List Token)
  | _, r, [] => r.finish
  | 0, r, _ => r.finish
  | n + 1, r, c :: t =>
    match r.step c t with
    | .error e => .error e
    | .ok (r, t) => run n r t

end Reading

def read (t : Text) : Except PatternFault (List Token) := Reading.run t.length {} t

end Token

end LuaReference
