import LuaReference.Pattern.Token
import LuaReference.Text.Utf8

/-!
# Matching paths

Which paths a pattern stands for. Patterns are matched on bytes: a wildcard for one stands for
one byte, and a class holds the bytes of its characters.
-/

namespace LuaReference

namespace Token

def bytes (c : Char) : List UInt8 := (Text.utf8 [c]).toList

def slash : UInt8 := 0x2F

/-- Whether a byte belongs to a range of characters: to the bytes from the last one of the first
character up to the first one of the last character, or to the bytes of either. -/
def inRange (b : UInt8) (r : Char × Char) : Bool :=
  let first := bytes r.1
  let last := bytes r.2
  if r.1 = r.2 then first.contains b
  else first.contains b || last.contains b ||
    match first.getLast?, last.head? with
    | some low, some high => low ≤ b && b ≤ high
    | _, _ => false

/-! ### Places

The places of a text are those before, between and behind its bytes. A set of places has a truth
value for each, the first place first. -/

/-- The places one byte further on, where the byte passes a test; `first` is the first of them. -/
def advance (test : UInt8 → Bool) (first : Bool) : (text : List UInt8) → List Bool → List Bool
  | b :: text, m :: ms => first :: advance test (m && test b) text ms
  | _, _ => [first]

/-- The places any number of bytes further on that all pass a test; `arriving` says that such bytes
lead to the first place. -/
def spread (test : UInt8 → Bool) (arriving : Bool) : (text : List UInt8) → List Bool → List Bool
  | b :: text, m :: ms => (m || arriving) :: spread test ((m || arriving) && test b) text ms
  | _, ms => ms.map (· || arriving)

/-- The places in one set or the other. -/
def union (ms ns : List Bool) : List Bool := List.zipWith (· || ·) ms ns

/-- The places behind a slash at the place or further on. -/
def behindSlash (text : List UInt8) (ms : List Bool) : List Bool :=
  advance (· == slash) false text (spread (fun _ => true) false text ms)

mutual

/-- The places behind a token that starts at a place of a set. -/
def behind (text : List UInt8) : Token → List Bool → List Bool
  | literal c, ms => (bytes c).foldl (fun ms b => advance (· == b) false text ms) ms
  | any, ms => advance (· != slash) false text ms
  | many, ms => spread (· != slash) false text ms
  | leading, ms => union ms (behindSlash text ms)
  | trailing, ms => spread (fun _ => true) false text (advance (· == slash) false text ms)
  | between, ms =>
    let ms := advance (· == slash) false text ms
    union ms (behindSlash text ms)
  | oneOf negated ranges, ms =>
    advance (fun b => ranges.any (inRange b) != negated) false text ms
  | group [], ms => ms
  | group (b :: bs), ms => behindSome text bs ms (behindAll text b ms)

/-- The places behind a list of tokens. -/
def behindAll (text : List UInt8) : List Token → List Bool → List Bool
  | [], ms => ms
  | t :: ts, ms => behindAll text ts (t.behind text ms)

/-- The places of a set `reached` and those behind one of several lists of tokens. -/
def behindSome (text : List UInt8) : List (List Token) → (ms reached : List Bool) → List Bool
  | [], _, reached => reached
  | b :: bs, ms, reached => behindSome text bs ms (union reached (behindAll text b ms))

end

/-- Whether a pattern stands for a path: its tokens lead from the first place to the last one. The
pattern of two stars alone stands for every path. -/
def matchesPath (ts : List Token) (path : Text) : Bool :=
  match ts with
  | [leading] => true
  | _ =>
    let text := path.utf8.toList
    (behindAll text ts (true :: text.map fun _ => false)).getLast? == some true

end Token

end LuaReference
