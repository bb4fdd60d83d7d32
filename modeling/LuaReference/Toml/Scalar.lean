import LuaReference.Text.Basic

/-!
# Numbers, truth values and dates of TOML

Which bare words are values. Their meaning is not kept, since no setting takes one, so a number is
only looked at as far as its form goes.
-/

namespace LuaReference

namespace Toml

def isDecimal (c : Char) : Bool := '0' ≤ c && c ≤ '9'

def isHex (c : Char) : Bool := isDecimal c || ('a' ≤ c && c ≤ 'f') || ('A' ≤ c && c ≤ 'F')

def unsigned : Text → Text
  | '+' :: t => t
  | '-' :: t => t
  | t => t

/-! ### Numbers -/

/-- Whether every underscore comes behind a digit and before one. At the start of the text
`behind` tells whether one may come. -/
def isSpaced (digit : Char → Bool) : (behind : Bool) → Text → Bool
  | _, [] => true
  | behind, c :: t =>
    if c = '_' then behind && t.head?.any digit && isSpaced digit false t
    else isSpaced digit (digit c) t

/-- Whether the underscores of a number stand between digits, or behind its sign. -/
def isSpacedNumber (digit : Char → Bool) (t : Text) : Bool :=
  isSpaced digit ((unsigned t).length != t.length) (unsigned t)

/-- Whether a text is digits of one class with underscores between them; it may be empty. -/
def isRadixed (digit : Char → Bool) (t : Text) : Bool :=
  t.all (fun c => digit c || c == '_') && isSpaced digit false t

def isDecimalOrSpace (c : Char) : Bool := isDecimal c || c == '_'

/-- What follows the decimal digits at the start of a text; `none` when there are none, or when
zeros lead and `zeros` forbids that. -/
def dropDigits? (zeros : Bool) (t : Text) : Option Text :=
  let n := (t.takeWhile isDecimalOrSpace).countP isDecimal
  if n = 0 ∨ (zeros = false ∧ 2 ≤ n ∧ t.head? = some '0') then none
  else some (t.dropWhile isDecimalOrSpace)

def dropFraction? : Text → Option Text
  | '.' :: t => dropDigits? true t
  | t => some t

def dropExponent? : Text → Option Text
  | 'e' :: t => dropDigits? true (unsigned t)
  | 'E' :: t => dropDigits? true (unsigned t)
  | t => some t

/-- Whether a text is digits, a fraction and an exponent, of which the last two may be missing. -/
def isFloat (t : Text) : Bool :=
  (((dropDigits? false t).bind dropFraction?).bind dropExponent?).any List.isEmpty

/-! ### Dates and times -/

def digits? (t : Text) : Option Nat :=
  if t.all isDecimal then some (t.foldl (fun n c => 10 * n + (c.toNat - 48)) 0) else none

def daysIn (year month : Nat) : Nat :=
  if month = 2 then if year % 4 = 0 && (year % 100 != 0 || year % 400 = 0) then 29 else 28
  else if month = 4 || month = 6 || month = 9 || month = 11 then 30 else 31

def isDate (t : Text) : Bool :=
  match t with
  | [a, b, c, d, '-', e, f, '-', g, h] =>
    match digits? [a, b, c, d], digits? [e, f], digits? [g, h] with
    | some y, some m, some n => 1 ≤ m && m ≤ 12 && 1 ≤ n && n ≤ daysIn y m
    | _, _, _ => false
  | _ => false

def isUpTo (bound : Nat) (a b : Char) : Bool :=
  match digits? [a, b] with
  | some n => n ≤ bound
  | none => false

/-- Whether a text is a time of the day; the seconds may be left out. -/
def isTime (t : Text) : Bool :=
  match t with
  | a :: b :: ':' :: c :: d :: r =>
    isUpTo 23 a b && isUpTo 59 c d &&
      match r with
      | [] => true
      | ':' :: e :: f :: r' => isUpTo 60 e f &&
        match r' with
        | [] => true
        | '.' :: g => g != [] && g.all isDecimal
        | _ => false
      | _ => false
  | _ => false

/-- A time without its offset from universal time, when what follows the time is an offset. -/
def withoutOffset (t : Text) : Option Text :=
  match t.reverse with
  | 'Z' :: r => some r.reverse
  | 'z' :: r => some r.reverse
  | d :: c :: ':' :: b :: a :: s :: r =>
    if (s = '+' || s = '-') && isUpTo 23 a b && isUpTo 59 c d then some r.reverse else some t
  | _ => some t

/-- Whether a text is a date, a time, or both with or without an offset. -/
def isDateTime (t : Text) : Bool :=
  isDate t || isTime t ||
    (isDate (t.take 10) &&
      match t.drop 10 with
      | c :: r => (c = 'T' || c = 't' || c = ' ') &&
        (isTime r || ((withoutOffset r).map isTime).getD false)
      | [] => false)

/-! ### Bare words -/

/-- Whether a text is a number in decimal digits, or a date or time. What comes behind the first
digits decides which of them it has to be. -/
def isDecimalOrDate (t : Text) : Bool :=
  let u := unsigned t
  let rest := u.dropWhile isDecimal
  let leading := u.head? == some '0'
  match rest with
  | [] => u != [] && (!leading || u.length == 1)
  | c :: _ =>
    if c = '-' || c = ':' then isDateTime t
    else if rest.any (fun d => d == '.' || d == 'e' || d == 'E') then
      isFloat u && isSpacedNumber isDecimal t
    else c = '_' && !leading && isSpacedNumber isHex t

/-- Whether a bare word is a value. -/
def isScalar (t : Text) : Bool :=
  match t with
  | '0' :: 'x' :: r => isRadixed isHex r
  | '0' :: 'o' :: r => isRadixed (fun c => '0' ≤ c && c ≤ '7') r
  | '0' :: 'b' :: r => isRadixed (fun c => c == '0' || c == '1') r
  | _ => t == "true".toList || t == "false".toList || unsigned t == "inf".toList ||
    unsigned t == "nan".toList || isDecimalOrDate t

end Toml

end LuaReference
