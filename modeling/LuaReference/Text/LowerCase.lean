import LuaReference.Text.Blank
import LuaReference.Text.CaseRanges

/-!
# Lower case

The full lower-case mapping of Unicode without language rules: each character by its own
mapping, İ to an i with a combining dot, and a capital sigma at the end of a word to the final
form ς. `lower_append_of_noSigma` says that a part without capital sigma is mapped on its own.
-/

namespace LuaReference

/-- Whether a character has the property Cased. -/
def isCased (c : Char) : Bool :=
  let n := c.toNat
  if n < 0x80 then (0x41 ≤ n && n ≤ 0x5A) || (0x61 ≤ n && n ≤ 0x7A) else inRanges casedRanges n

/-- Whether a character has the property Case_Ignorable. -/
def isCaseIgnorable (c : Char) : Bool :=
  let n := c.toNat
  if n < 0x80 then n == 0x27 || n == 0x2E || n == 0x3A || n == 0x5E || n == 0x60
  else inRanges ignorableRanges n

def lowerChar (c : Char) : Text :=
  let n := c.toNat
  if n < 0x80 then
    if 0x41 ≤ n && n ≤ 0x5A then [Char.ofNat (n + 32)] else [c]
  else if n = 0x130 then ['i', '\u0307']
  else match lowerRuns.find? (·.holds n) with
    | some r => [Char.ofNat (↑n + r.offset).toNat]
    | none => [c]

namespace Text

/-- Whether the first character that is not case-ignorable is cased. -/
def meetsCased (t : Text) : Bool :=
  match t.dropWhile isCaseIgnorable with
  | [] => false
  | c :: _ => isCased c

/-- The lower case of a text that stands after the characters `before`, nearest first. A capital
sigma takes its final form after a cased character and before none. -/
def lowerAfter (before : Text) : Text → Text
  | [] => []
  | c :: t =>
    (if c = 'Σ' then [if meetsCased before && !meetsCased t then 'ς' else 'σ'] else lowerChar c)
      ++ lowerAfter (c :: before) t

def lower (t : Text) : Text := lowerAfter [] t

theorem lowerAfter_append_of_noSigma {p : Text} (h : 'Σ' ∉ p) (before t : Text) :
    lowerAfter before (p ++ t) = p.flatMap lowerChar ++ lowerAfter (p.reverse ++ before) t := by
  induction p generalizing before with
  | nil => simp
  | cons c p ih =>
    have hc : c ≠ 'Σ' := fun e => h (by simp [e])
    have hp : 'Σ' ∉ p := fun e => h (List.mem_cons_of_mem _ e)
    simp [lowerAfter, hc, ih hp]

/-- A part without capital sigma is mapped character by character, whatever follows. -/
theorem lower_append_of_noSigma {p : Text} (h : 'Σ' ∉ p) (t : Text) :
    lower (p ++ t) = p.flatMap lowerChar ++ lowerAfter p.reverse t := by
  simp [lower, lowerAfter_append_of_noSigma h]

end Text

end LuaReference
