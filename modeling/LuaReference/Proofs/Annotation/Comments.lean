import LuaReference.Proofs.Annotation.Block
import LuaReference.Proofs.Text.Lower
import LuaReference.Proofs.Text.Trim

/-!
# Code between annotations

A line without a comment mark does the same wherever it stands and whatever it says: it closes the
block before it. Sources that differ in such lines only, and in the blanks around the others, are
scanned alike: `scan_eq_of_same_comments`.
-/

namespace LuaReference

variable {s : Settings} {file : Path} {line line' : Text}

/-! ### Lines without a comment mark -/

theorem isSign_commentMark : ∀ c ∈ commentMark, Text.IsSign c := by
  have hall : commentMark.all (fun c => decide (Text.IsSign c)) = true := by decide
  simpa using hall

theorem contains_lower_commentMark (line : Text) :
    line.lower.contains commentMark = line.contains commentMark := by
  rw [Bool.eq_iff_iff, Text.contains_iff, Text.contains_iff,
    Text.infix_lower_iff_of_signs isSign_commentMark]

theorem isHeader_of_not_contains (h : line.contains commentMark = false) :
    isHeader s line.lower = false := by
  rw [isHeader, contains_lower_commentMark, h, Bool.and_false]

theorem read_of_not_contains (h : line.contains commentMark = false) (r : Recorder)
    (number : Nat) : r.read s file number line = { recorder := r.close } := by
  rw [Recorder.read, isHeader_of_not_contains h, h]
  simp

theorem contains_trim (h : line.contains commentMark = false) :
    line.trim.contains commentMark = false := by
  rw [Bool.eq_false_iff, ne_eq, Text.contains_iff] at h ⊢
  exact fun hmark => h (hmark.trans (Text.infix_trim line))

/-! ### Two sources -/

/-- Whether two lines are the same but for the blanks around them, or both without a comment
mark. -/
def SameComment (line line' : Text) : Prop :=
  line.trim = line'.trim ∨
    line.contains commentMark = false ∧ line'.contains commentMark = false

instance : Decidable (SameComment line line') := inferInstanceAs (Decidable (_ ∨ _))

theorem SameComment.read (h : SameComment line line') (s : Settings) (file : Path) (r : Recorder)
    (number : Nat) :
    r.read s file number line.trim = r.read s file number line'.trim ∧
      isHeader s line.trim.lower = isHeader s line'.trim.lower := by
  rcases h with h | ⟨h, h'⟩
  · rw [h]
    exact ⟨rfl, rfl⟩
  · rw [read_of_not_contains (contains_trim h), read_of_not_contains (contains_trim h'),
      isHeader_of_not_contains (contains_trim h), isHeader_of_not_contains (contains_trim h')]
    exact ⟨rfl, rfl⟩

theorem scanLines_eq_of_same_comments {lines lines' : List Text}
    (h : List.Forall₂ SameComment lines lines') (number : Nat) (r : Recorder) :
    scanLines s file number r (lines.map Text.trim) =
      scanLines s file number r (lines'.map Text.trim) := by
  induction h generalizing number r with
  | nil => rfl
  | cons hline _ ih =>
    obtain ⟨hread, hheader⟩ := hline.read s file r number
    rw [List.map_cons, List.map_cons, scanLines, scanLines, hread, hheader]
    simp only [ih]

/-- Two contents whose lines, one by one, are the same but for the blanks around them or lack a
comment mark in both, have the same scan: registry, events, number of blocks and fault. -/
theorem scan_eq_of_same_comments {content content' : Text}
    (h : List.Forall₂ SameComment content.lines content'.lines) (r : Registry) :
    scan s file content r = scan s file content' r := by
  rw [scan, scan, sourceLines, sourceLines, scanLines_eq_of_same_comments h]

/-- A block, code and a header of no kind. -/
def codeBetween : Text :=
  "// Lua API: Table\n// Name: A\nint a;\n// stray\n// Lua API: Struct\n".toList

/-- The same comments, further in, with other code between them. -/
def otherCodeBetween : Text :=
  "  // Lua API: Table\n  // Name: A\n\n\t// stray\n  // Lua API: Struct".toList

theorem scan_codeBetween_eq :
    List.Forall₂ SameComment codeBetween.lines otherCodeBetween.lines ∧
      scan {} sampleFile codeBetween {} = scan {} sampleFile otherCodeBetween {} := by
  have hsame : List.Forall₂ SameComment codeBetween.lines otherCodeBetween.lines := by
    decide +kernel
  exact ⟨hsame, scan_eq_of_same_comments hsame {}⟩

end LuaReference
