import LuaReference.Text.Basic

/-!
# UTF-8

The bytes of a text and the text of bytes. Reading is exact (`ofUtf8?`) or lenient
(`ofUtf8Lossy`): the lenient reading puts U+FFFD in place of each longest run of bytes that could
still have begun a character. The main facts: `ofUtf8?_utf8` (what was written reads back),
`utf8_of_ofUtf8?` (only written bytes read exactly) and `ofUtf8Lossy_utf8` (the lenient reading
agrees where the exact one succeeds).
-/

namespace LuaReference

namespace Text

def utf8 (t : Text) : ByteArray := (String.ofList t).toUTF8

def utf8Size (t : Text) : Nat := (String.ofList t).utf8ByteSize

/-- The text with the given bytes, when they are well-formed. -/
def ofUtf8? (b : ByteArray) : Option Text := (String.fromUTF8? b).map String.toList

/-! ### Lenient reading -/

/-- A character of which some bytes are still to come: how many, the bounds of the next one, and
the value so far. -/
structure Unfinished where
  missing : Nat
  /-- The least byte that may come next. -/
  low : UInt8
  /-- The greatest byte that may come next. -/
  high : UInt8
  /-- The value of the bits read so far. -/
  value : Nat

def replacement : Char := '\uFFFD'

/-- What a byte at the start of a character gives: characters, or one that is unfinished. -/
def leadByte (b : UInt8) : Text × Option Unfinished :=
  let n := b.toNat
  if n < 0x80 then ([Char.ofNat n], none)
  else if n < 0xC2 then ([replacement], none)
  else if n < 0xE0 then ([], some ⟨1, 0x80, 0xBF, n - 0xC0⟩)
  else if n = 0xE0 then ([], some ⟨2, 0xA0, 0xBF, 0⟩)
  else if n = 0xED then ([], some ⟨2, 0x80, 0x9F, 0xD⟩)
  else if n < 0xF0 then ([], some ⟨2, 0x80, 0xBF, n - 0xE0⟩)
  else if n = 0xF0 then ([], some ⟨3, 0x90, 0xBF, 0⟩)
  else if n < 0xF4 then ([], some ⟨3, 0x80, 0xBF, n - 0xF0⟩)
  else if n = 0xF4 then ([], some ⟨3, 0x80, 0x8F, 4⟩)
  else ([replacement], none)

/-- The lenient reading of bytes after a possibly unfinished character. -/
def repair : Option Unfinished → List UInt8 → Text
  | none, [] => []
  | some _, [] => [replacement]
  | none, b :: bs => (leadByte b).1 ++ repair (leadByte b).2 bs
  | some u, b :: bs =>
    if u.low ≤ b ∧ b ≤ u.high then
      let value := u.value * 64 + (b.toNat - 0x80)
      if u.missing = 1 then Char.ofNat value :: repair none bs
      else repair (some ⟨u.missing - 1, 0x80, 0xBF, value⟩) bs
    else replacement :: (leadByte b).1 ++ repair (leadByte b).2 bs

/-- The text of any bytes: well-formed bytes as they are, others repaired. -/
def ofUtf8Lossy (b : ByteArray) : Text := (ofUtf8? b).getD (repair none b.toList)

/-! ### Reading what was written -/

@[simp]
theorem ofUtf8?_utf8 (t : Text) : ofUtf8? (utf8 t) = some t := by
  have h : String.fromUTF8? (utf8 t) = some (String.ofList t) := by
    have hv : (utf8 t).IsValidUTF8 := (String.ofList t).isValidUTF8
    simp only [String.fromUTF8?, hv, dite_true]
    rfl
  simp [ofUtf8?, h]

@[simp]
theorem ofUtf8Lossy_utf8 (t : Text) : ofUtf8Lossy (utf8 t) = t := by
  simp [ofUtf8Lossy]

theorem utf8_of_ofUtf8? {b : ByteArray} {t : Text} (h : ofUtf8? b = some t) : utf8 t = b := by
  simp only [ofUtf8?, String.fromUTF8?] at h
  split at h
  · simp only [Option.map_some, Option.some.injEq] at h
    subst h
    simp only [utf8, String.ofList_toList]
    rfl
  · simp at h

end Text

end LuaReference
