import LuaReference.Proofs.Annotation.Block
import LuaReference.Proofs.Printing.Line

/-!
# Printed blocks

A block is printed as a header and rows, each a tag with values or a line of a description. The
blocks of a source that is printed from blocks are those blocks, row by row as they are read.
-/

namespace LuaReference

/-! ### Rows -/

inductive Row where
  | tag (t : Tag) (values : List Text)
  | text (line : Text)

namespace Row

def line : Row → Text
  | tag t values => t.line values
  | text l => textLine l

def read (row : Row) : Text := row.line.trim

def has (t : Tag) : Row → Bool
  | tag u _ => decide (t = u)
  | text _ => false

@[simp]
theorem has_tag (t u : Tag) (values : List Text) : (tag u values).has t = decide (t = u) := rfl

end Row

/-- The tags that the lines of a block of this kind are searched for. -/
def Kind.tags : Kind → List Tag
  | table => [.name]
  | ofClass => [.name, .inherit]
  | field => [.table, .ofClass, .field]
  | constructor => [.ofClass, .param]
  | function => [.table, .ofClass, .name, .param, .result]
  | nameSpace => [.name]

/-- A value on one line, trimmed, without the word that headers are found by. -/
structure Text.Printable (v : Text) : Prop where
  trimmed : v.trim = v
  oneLine : '\n' ∉ v
  plain : ¬ Marked v

instance (v : Text) : Decidable v.Printable :=
  decidable_of_iff (v.trim = v ∧ '\n' ∉ v ∧ ¬ Marked v)
    ⟨fun ⟨ht, ho, hp⟩ => ⟨ht, ho, hp⟩, fun ⟨ht, ho, hp⟩ => ⟨ht, ho, hp⟩⟩

/-- A line that can stand in a description of a block of this kind: no blank at its end, not
exactly one space at its start, not the word that headers are found by, no tag once printed. -/
structure Kind.Describes (k : Kind) (l : Text) : Prop where
  endTrimmed : l.trimEnd = l
  start : ¬ startsWithOneSpace l
  plain : ¬ Marked l
  untagged : ∀ t ∈ k.tags, tagged t.word (textLine l) = false

instance (k : Kind) (l : Text) : Decidable (k.Describes l) :=
  decidable_of_iff
    (l.trimEnd = l ∧ ¬ startsWithOneSpace l ∧ ¬ Marked l ∧
      ∀ t ∈ k.tags, tagged t.word (textLine l) = false)
    ⟨fun ⟨he, hs, hp, hu⟩ => ⟨he, hs, hp, hu⟩, fun ⟨he, hs, hp, hu⟩ => ⟨he, hs, hp, hu⟩⟩

namespace Row

def Fits (k : Kind) : Row → Prop
  | tag _ values => values ≠ [] ∧ ∀ v ∈ values, v.Printable
  | text l => '\n' ∉ l ∧ k.Describes l

variable {k : Kind} {row : Row}

theorem Fits.oneLine (h : row.Fits k) : '\n' ∉ row.line := by
  cases row with
  | tag t values =>
    have hlead : '\n' ∉ t.lead := by cases t <;> decide
    intro hmem
    rcases List.mem_append.1 hmem with hmem | hmem
    · exact hlead hmem
    · obtain ⟨v, hv, hmem⟩ := List.mem_flatMap.1 hmem
      have hnot : '\n' ∉ v := (h.2 v hv).oneLine
      simp [tagMark, hnot] at hmem
  | text l =>
    intro hmem
    rcases textLine_eq l with he | he
    · simp [line, he, commentMark, h.1] at hmem
    · simp [line, he, commentMark, h.1] at hmem

theorem Fits.tagged_read (h : row.Fits k) {t : Tag} (ht : t ∈ k.tags) :
    tagged t.word row.read = row.has t := by
  cases row with
  | tag u values =>
    obtain ⟨rest, hrest⟩ := u.exists_trim_line h.1
    rw [read, line, hrest, u.tagged_line]
    rfl
  | text l =>
    rw [read, line, trim_textLine h.2.endTrimmed, h.2.untagged t ht]
    rfl

theorem Fits.not_marked (h : row.Fits k) : ¬ Marked row.read := by
  cases row with
  | tag t values =>
    intro hmarked
    rw [read, line, t.trim_line] at hmarked
    have hline : Marked (t.line values) := hmarked.mono (Text.prefix_trimEnd _)
    rcases marked_withValues_iff.1 hline with hlead | ⟨v, hv, hmarked⟩
    · exact t.not_marked_lead hlead
    · exact (h.2 v hv).plain hmarked
  | text l =>
    rw [read, line, trim_textLine h.2.endTrimmed, marked_textLine_iff]
    exact h.2.plain

theorem Fits.contains_read (h : row.Fits k) : row.read.contains commentMark = true := by
  cases row with
  | tag t values =>
    obtain ⟨rest, hrest⟩ := t.exists_trim_line h.1
    rw [read, line, hrest]
    exact t.contains_line
  | text l =>
    rw [read, line, trim_textLine h.2.endTrimmed]
    exact contains_textLine l

theorem Fits.bodyLine_read (h : row.Fits k) : bodyLine {} row.read = true := by
  rw [bodyLine, h.contains_read, isHeader_of_not_marked h.not_marked]
  rfl

/-- Searching the lines of a block for a tag is searching its rows. -/
theorem filter_read {rows : List Row} (h : ∀ row ∈ rows, row.Fits k) {t : Tag}
    (ht : t ∈ k.tags) :
    (rows.map read).filter (tagged t.word) = (rows.filter (has t)).map read := by
  rw [List.filter_map]
  congr 1
  exact List.filter_congr fun row hrow => (h row hrow).tagged_read ht

theorem filter_not_read {rows : List Row} (h : ∀ row ∈ rows, row.Fits k) {t : Tag}
    (ht : t ∈ k.tags) :
    (rows.map read).filter (fun l => !tagged t.word l) =
      (rows.filter fun row => !row.has t).map read := by
  rw [List.filter_map]
  congr 1
  refine List.filter_congr ?_
  intro row hrow
  simp only [Function.comp_apply, (h row hrow).tagged_read ht]

end Row

/-! ### Blocks -/

/-- A block as it is printed: what it is about, how its first row names that, and the rest. -/
structure Printed where
  kind : Kind
  opening : Row
  rows : List Row

namespace Printed

def lines (b : Printed) : List Text :=
  headerLine b.kind :: b.opening.line :: b.rows.map Row.line

def run (b : Printed) : Run := ⟨headerLine b.kind, b.opening.read :: b.rows.map Row.read⟩

/-- The tags that a first row of a block of this kind can have. -/
def openers : Kind → List Tag
  | .table | .ofClass | .nameSpace => [.name]
  | .field | .function => [.table, .ofClass]
  | .constructor => [.ofClass]

def opens (k : Kind) (row : Row) : Bool := (openers k).any row.has

structure Fits (b : Printed) : Prop where
  first : b.opening.Fits b.kind
  rest : ∀ row ∈ b.rows, row.Fits b.kind
  opening : opens b.kind b.opening = true
  rows : ∀ row ∈ b.rows, opens b.kind row = false

end Printed

end LuaReference
