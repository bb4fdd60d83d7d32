import LuaReference.Annotation.Line
import LuaReference.Proofs.Text.Search
import LuaReference.Proofs.Text.Values

/-!
# Printed lines

The lines of the annotation syntax as they are written by hand: headers, tags with their values,
and lines of a description. Reading such a line gives back what was printed: its tag, its values,
or its text.
-/

namespace LuaReference

/-! ### Tags -/

inductive Tag where
  | name
  | inherit
  | table
  | ofClass
  | field
  | param
  | result
  deriving DecidableEq

namespace Tag

def title : Tag → Text
  | name => "Name".toList
  | inherit => "Inherit".toList
  | table => "Table".toList
  | ofClass => "Class".toList
  | field => "Field".toList
  | param => "Param".toList
  | result => "Return".toList

/-- The tag as lines are searched for it. -/
def word : Tag → String
  | name => "name"
  | inherit => "inherit"
  | table => "table"
  | ofClass => "class"
  | field => "field"
  | param => "param"
  | result => "return"

/-- What stands before the first separator of a line with this tag. -/
def lead (t : Tag) : Text := "// ".toList ++ t.title

def line (t : Tag) (values : List Text) : Text := Text.withValues tagMark t.lead values

end Tag

/-! ### Marked texts -/

/-- Whether the lower case of a text has the word that headers are found by. -/
def Marked (t : Text) : Prop := "lua api".toList <:+: t.lower

instance : DecidablePred Marked := fun t => inferInstanceAs (Decidable (_ <:+: t.lower))

theorem marked_iff {t : Text} : Marked t ↔ "lua api".toList <:+: Text.folded t :=
  Text.infix_lower_iff (by decide) (by decide)

theorem isHeader_of_not_marked {t : Text} (h : ¬ Marked t) : isHeader {} t.lower = false := by
  have hword : ({} : Settings).identifier.lower = "lua api".toList := by decide +kernel
  have hnot : t.lower.contains "lua api".toList = false := by
    rw [Bool.eq_false_iff, ne_eq, Text.contains_iff]
    exact h
  rw [isHeader, hword, hnot, Bool.false_and, Bool.false_and]

theorem marked_append_tagMark_iff {a b : Text} :
    Marked (a ++ tagMark :: b) ↔ Marked a ∨ Marked b := by
  have hmark : (lowerChar tagMark).map Text.foldSigma = [tagMark] := by decide
  rw [marked_iff, marked_iff, marked_iff, Text.folded_append, Text.folded_cons, hmark]
  exact Text.infix_append_cons_iff (by decide)

/-- Nothing is found across a part without the letter that the word starts with. -/
theorem marked_append_iff {p x : Text} (hp : 'l' ∉ Text.folded p) :
    Marked (p ++ x) ↔ Marked x := by
  rw [marked_iff, marked_iff, Text.folded_append]
  exact Text.infix_append_iff_of_not_mem hp

theorem Marked.mono {p t : Text} (hp : Marked p) (h : p <+: t) : Marked t := by
  obtain ⟨s, rfl⟩ := h
  rw [marked_iff] at hp ⊢
  rw [Text.folded_append]
  exact hp.trans (List.prefix_append (Text.folded p) (Text.folded s)).isInfix

theorem marked_withValues_iff {lead : Text} {values : List Text} :
    Marked (Text.withValues tagMark lead values) ↔ Marked lead ∨ ∃ v ∈ values, Marked v := by
  induction values generalizing lead with
  | nil => simp [Text.withValues]
  | cons v values ih =>
    have hspace : Marked (' ' :: v) ↔ Marked v := marked_append_iff (p := [' ']) (by decide)
    rw [Text.withValues_cons, marked_append_tagMark_iff, ih, hspace]
    simp

theorem Tag.not_marked_lead (t : Tag) : ¬ Marked t.lead := by
  rw [Marked, ← Text.contains_iff]
  cases t <;> decide +kernel

/-! ### A line with a tag -/

namespace Tag

variable (t : Tag) (values : List Text)

theorem trim_line : (t.line values).trim = (t.line values).trimEnd := by
  have hstart : (t.line values).trimStart = t.line values := by
    rw [Text.trimStart_eq_self_iff]
    intro c hc
    have hslash : c = '/' := by
      cases t <;> simpa [line, Text.withValues, lead, eq_comm] using hc
    rw [hslash]
    decide
  rw [Text.trim, hstart]

/-- A line with values keeps its tag and the separator behind it when it is trimmed. -/
theorem exists_trim_line {values : List Text} (h : values ≠ []) :
    ∃ rest, (t.line values).trim = t.lead ++ tagMark :: rest := by
  obtain ⟨v, values, rfl⟩ := List.exists_cons_of_ne_nil h
  refine ⟨Text.trimEnd (Text.withValues tagMark (' ' :: v) values), ?_⟩
  rw [trim_line, line, Text.withValues_cons]
  exact Text.trimEnd_append_cons (by decide) _ _

/-- A line carries its own tag and no other. -/
theorem tagged_line (u : Tag) (rest : Text) :
    tagged u.word (t.lead ++ tagMark :: rest) = decide (u = t) := by
  have hsplit : t.lead ++ tagMark :: rest = (t.lead ++ [tagMark]) ++ rest := by simp
  have hsigma : 'Σ' ∉ t.lead ++ [tagMark] := by cases t <;> decide
  have hlower : (t.lead ++ [tagMark]).flatMap lowerChar =
      commentMark ++ (' ' :: t.word.toList ++ [tagMark]) := by cases t <;> decide
  rw [tagged, hsplit, Text.lower_append_of_noSigma hsigma, hlower, hasTag, List.append_assoc,
    Text.replace_pattern (by decide), List.nil_append]
  generalize Text.lowerAfter (t.lead ++ [tagMark]).reverse rest = after
  have hslash : '/' ∉ ' ' :: t.word.toList ++ [tagMark] := by cases t <;> decide
  have hreplace : Text.replace ((' ' :: t.word.toList ++ [tagMark]) ++ after) commentMark [] =
      (' ' :: t.word.toList ++ [tagMark]) ++ Text.replace after commentMark [] :=
    Text.replace_append_of_not_mem hslash [] after
  rw [hreplace]
  generalize Text.replace after commentMark [] = kept
  have htrim : Text.trim ((' ' :: t.word.toList ++ [tagMark]) ++ kept) =
      t.word.toList ++ tagMark :: Text.trimEnd kept := by
    have hstart : Text.trimStart ((' ' :: t.word.toList ++ [tagMark]) ++ kept) =
        t.word.toList ++ tagMark :: kept := by cases t <;> rfl
    rw [Text.trim, hstart]
    exact Text.trimEnd_append_cons (by decide) _ _
  rw [htrim]
  have hmem : tagMark ∈ commentMark ++ ((' ' :: t.word.toList ++ [tagMark]) ++ after) := by simp
  rw [decide_eq_true hmem, Bool.true_and]
  cases t <;> cases u <;> rfl

theorem contains_line {rest : Text} : (t.lead ++ tagMark :: rest).contains commentMark = true := by
  rw [Text.contains_iff, lead, List.append_assoc]
  exact (List.prefix_append commentMark _).isInfix

/-- The values of a line, read with as many pieces as it has values. -/
theorem tagValues_line (htrim : ∀ v ∈ values, v.trim = v)
    (hmark : ∀ v ∈ values.dropLast, tagMark ∉ v) :
    tagValues values.length (t.line values).trim = values := by
  have hlead : tagMark ∉ t.lead := by cases t <;> decide
  have hpieces : Text.splitAtMost tagMark values.length (t.line values) =
      t.lead :: values.map (' ' :: ·) :=
    Text.splitAtMost_withValues hlead (by decide) hmark
  have hspace : ∀ v ∈ values, Text.trim (' ' :: v) = v := by
    intro v hv
    have hstart : Text.trimStart (' ' :: v) = Text.trimStart v := rfl
    rw [Text.trim, hstart]
    exact htrim v hv
  rw [tagValues, trim_line, List.map_tail, Text.map_trim_splitAtMost (by decide), hpieces,
    List.map_cons, List.tail_cons, List.map_map]
  exact (List.map_congr_left hspace).trans (List.map_id' values)

theorem tagValue_line {v : Text} (htrim : v.trim = v) : tagValue (t.line [v]).trim = v := by
  have hlead : tagMark ∉ t.lead := by cases t <;> decide
  have hend : (t.line [v]).trimEnd = t.lead ++ tagMark :: Text.trimEnd (' ' :: v) := by
    have hline : t.line [v] = t.lead ++ tagMark :: ' ' :: v := by simp [line, Text.withValues]
    rw [hline]
    exact Text.trimEnd_append_cons (by decide) _ _
  have hstart : Text.trimStart (' ' :: v) = Text.trimStart v := rfl
  rw [tagValue, trim_line, hend, Text.behindFirst, Text.splitFirst_append_cons hlead]
  dsimp only
  rw [Text.trim_trimEnd, Text.trim, hstart]
  exact htrim

end Tag

/-! ### A line of a description -/

/-- A line of a description behind a comment mark, and behind a space unless it brings its own. -/
def textLine : Text → Text
  | [] => commentMark
  | c :: l => if c = ' ' then commentMark ++ c :: l else commentMark ++ ' ' :: c :: l

def startsWithOneSpace (l : Text) : Prop := l.head? = some ' ' ∧ l.tail.head? ≠ some ' '

instance : DecidablePred startsWithOneSpace := fun _ => inferInstanceAs (Decidable (_ ∧ _))

/-- A printed line of a description is its comment mark, something without the letter that the
word of a header starts with, and the line. -/
theorem textLine_eq (l : Text) : textLine l = commentMark ++ l ∨
    textLine l = commentMark ++ ' ' :: l := by
  cases l with
  | nil => exact Or.inl rfl
  | cons c l =>
    by_cases hc : c = ' '
    · exact Or.inl (if_pos hc)
    · exact Or.inr (if_neg hc)

theorem marked_textLine_iff {l : Text} : Marked (textLine l) ↔ Marked l := by
  rcases textLine_eq l with h | h
  · rw [h]
    exact marked_append_iff (by decide)
  · rw [h]
    exact marked_append_iff (p := commentMark ++ [' ']) (by decide)

theorem contains_textLine (l : Text) : (textLine l).contains commentMark = true := by
  rw [Text.contains_iff]
  rcases textLine_eq l with h | h
  · rw [h]
    exact (List.prefix_append commentMark l).isInfix
  · rw [h]
    exact (List.prefix_append commentMark (' ' :: l)).isInfix

theorem trimEnd_append {p l : Text} (hl : l ≠ []) (h : l.trimEnd = l) :
    Text.trimEnd (p ++ l) = p ++ l := by
  rw [Text.trimEnd_eq_self_iff] at h ⊢
  rw [List.getLast?_append_of_ne_nil p hl]
  exact h

theorem trim_textLine {l : Text} (h : l.trimEnd = l) : (textLine l).trim = textLine l := by
  rw [Text.trim_eq_self_iff]
  constructor
  · rcases textLine_eq l with he | he
    · rw [he]
      rfl
    · rw [he]
      rfl
  · cases l with
    | nil => rfl
    | cons c l =>
      rcases textLine_eq (c :: l) with he | he
      · rw [he]
        exact trimEnd_append (List.cons_ne_nil c l) h
      · rw [he]
        exact trimEnd_append (p := commentMark ++ [' ']) (List.cons_ne_nil c l) h

theorem sanitize_textLine {l : Text} (hend : l.trimEnd = l) (hstart : ¬ startsWithOneSpace l) :
    sanitize (textLine l) = l := by
  cases l with
  | nil => rfl
  | cons c l =>
    by_cases hc : c = ' '
    · have hl : l.head? = some ' ' := by
        by_contra hne
        exact hstart ⟨by rw [hc]; rfl, hne⟩
      have hdrop : (textLine (c :: l)).dropLeading? commentMark = some (' ' :: l) := by
        rw [Text.dropLeading?_eq_some_iff, textLine, if_pos hc, hc]
      rw [sanitize, hdrop]
      simp only [hl, if_true]
      rw [← hc]
      exact hend
    · have hdrop : (textLine (c :: l)).dropLeading? commentMark = some (' ' :: c :: l) := by
        rw [Text.dropLeading?_eq_some_iff, textLine, if_neg hc]
      have hhead : (c :: l).head? ≠ some ' ' := by simpa using hc
      rw [sanitize, hdrop]
      simp only [hhead, if_false]
      exact hend

/-! ### Headers -/

def Kind.title : Kind → Text
  | table => "Table".toList
  | ofClass => "Class".toList
  | field => "Field".toList
  | constructor => "Constructor".toList
  | function => "Function".toList
  | nameSpace => "Namespace".toList

def headerLine (k : Kind) : Text := "// Lua API: ".toList ++ k.title

theorem isHeader_headerLine (k : Kind) : isHeader {} (headerLine k).lower = true := by
  cases k <;> decide +kernel

theorem headerKind?_headerLine (k : Kind) : headerKind? (headerLine k) = some k := by
  cases k <;> decide +kernel

theorem trim_headerLine (k : Kind) : (headerLine k).trim = headerLine k := by
  cases k <;> decide +kernel

end LuaReference
