import LuaReference.Document.Stub
import LuaReference.Proofs.Text.Unbroken

/-!
# The layout of stubs

A stub is laid out in blank lines, comment lines and definitions, whatever the texts in it say:
`Laid` is the grammar, and indexes a text by the definitions in it. Parts that are laid out may
follow each other, and the namespace may be put in place of its placeholder. `Laid.declares` reads
the lines of such a text.
-/

namespace LuaReference

namespace Stub

/-! ### Definitions -/

/-- What is written in a definition: the call, and the names of the parameters. -/
structure Signature where
  call : Text
  parameters : Text
  deriving DecidableEq

namespace Signature

def line (d : Signature) : Text :=
  "function ".toList ++ (d.call ++ '(' :: (d.parameters ++ ')' :: " end".toList))

structure Unbroken (d : Signature) : Prop where
  call : d.call.Unbroken
  parameters : d.parameters.Unbroken

theorem Unbroken.line {d : Signature} (h : d.Unbroken) : d.line.Unbroken := by
  have hfront : Text.Unbroken "function ".toList := by decide
  have hopen : Text.Unbroken ['('] := by decide
  have hend : Text.Unbroken (')' :: " end".toList) := by decide
  exact hfront.append (h.call.append (hopen.append (h.parameters.append hend)))

/-- The signature with every occurrence of `p` in its parts replaced by `r`. -/
def replace (p r : Text) (d : Signature) : Signature :=
  ⟨d.call.replace p r, d.parameters.replace p r⟩

end Signature

/-- Whether a line has the form `function <call>(<parameters>) end`. -/
def isDefinition (line : Text) : Bool :=
  match line.dropLeading? "function ".toList with
  | none => false
  | some rest =>
    match rest.splitFirst '(' with
    | none => false
    | some (_, behind) => (')' :: " end".toList).isSuffixOf behind

theorem isDefinition_line (d : Signature) : isDefinition d.line = true := by
  have hrest : d.line.dropLeading? "function ".toList =
      some (d.call ++ '(' :: (d.parameters ++ ')' :: " end".toList)) :=
    Text.dropLeading?_eq_some_iff.2 rfl
  rw [isDefinition, hrest]
  dsimp only
  cases hsplit : Text.splitFirst '(' (d.call ++ '(' :: (d.parameters ++ ')' :: " end".toList)) with
  | none => exact absurd (by simp) (Text.splitFirst_eq_none_iff.1 hsplit)
  | some ab =>
    obtain ⟨a, b⟩ := ab
    obtain ⟨hab, -⟩ := Text.splitFirst_eq_some_iff.1 hsplit
    -- the cut at the first parenthesis comes before the closing part
    have hend : ')' :: " end".toList <:+ a ++ '(' :: b := by
      rw [← hab]
      exact ⟨d.call ++ '(' :: d.parameters, by simp⟩
    rw [List.isSuffixOf_iff_suffix]
    rcases List.suffix_or_suffix_of_suffix (List.suffix_append a ('(' :: b)) hend with h | h
    · exact absurd (h.subset List.mem_cons_self) (by decide)
    · rcases List.suffix_cons_iff.1 h with h | h
      · cases h
      · exact h

theorem not_isDefinition_comment (l : Text) : isDefinition ("--".toList ++ l) = false := rfl

/-! ### The grammar -/

/-- Texts that are laid out in blank lines, comment lines and definitions, with the signatures of
their definitions in order. -/
inductive Laid : Text → List Signature → Prop where
  | nil : Laid [] []
  | blank {t : Text} {ds : List Signature} (h : Laid t ds) : Laid ('\n' :: t) ds
  | comment {l t : Text} {ds : List Signature} (hl : l.Unbroken) (h : Laid t ds) :
      Laid ("--".toList ++ l ++ '\n' :: t) ds
  | definition {d : Signature} {t : Text} {ds : List Signature} (hd : d.Unbroken) (h : Laid t ds) :
      Laid (d.line ++ '\n' :: t) (d :: ds)

namespace Laid

variable {t u : Text} {ds es : List Signature}

theorem append (ht : Laid t ds) (hu : Laid u es) : Laid (t ++ u) (ds ++ es) := by
  induction ht with
  | nil => exact hu
  | blank _ ih => exact .blank ih
  | comment hl _ ih =>
    rw [List.append_assoc, List.cons_append]
    exact .comment hl ih
  | definition hd _ ih =>
    rw [List.append_assoc, List.cons_append, List.cons_append]
    exact .definition hd ih

theorem flatMap {α : Type} {l : List α} {f : α → Text} {g : α → List Signature}
    (h : ∀ a ∈ l, Laid (f a) (g a)) : Laid (l.flatMap f) (l.flatMap g) := by
  induction l with
  | nil => exact .nil
  | cons a l ih =>
    obtain ⟨ha, hl⟩ := List.forall_mem_cons.1 h
    rw [List.flatMap_cons, List.flatMap_cons]
    exact ha.append (ih hl)

theorem flatMap_nil {α : Type} {l : List α} {f : α → Text} (h : ∀ a ∈ l, Laid (f a) []) :
    Laid (l.flatMap f) [] := by
  have hlaid := flatMap h
  rwa [List.flatMap_eq_nil_iff.2 fun _ _ => rfl] at hlaid

theorem flatMap_map {α : Type} {l : List α} {f : α → Text} {g : α → Signature}
    (h : ∀ a ∈ l, Laid (f a) [g a]) : Laid (l.flatMap f) (l.map g) := by
  rw [List.map_eq_flatMap]
  exact flatMap h

end Laid

/-! ### Replacement -/

/-- A pattern that takes hold in no text that belongs to the layout. -/
structure Foreign (p : Text) : Prop where
  head : p.head? = some '\x7b'
  noFeed : '\n' ∉ p
  noOpen : '(' ∉ p
  noClose : ')' ∉ p

namespace Foreign

variable {p : Text} (hp : Foreign p)
include hp

theorem ne_nil : p ≠ [] := by
  obtain ⟨w, rfl⟩ := List.head?_eq_some_iff.1 hp.head
  exact List.cons_ne_nil _ w

theorem concat : Foreign (p ++ ['.']) where
  head := by rw [List.head?_append, hp.head, Option.some_or]
  noFeed := by simp [hp.noFeed]
  noOpen := by simp [hp.noOpen]
  noClose := by simp [hp.noClose]

theorem replace_append {fixed : Text} (hfixed : '\x7b' ∉ fixed) (r t : Text) :
    (fixed ++ t).replace p r = fixed ++ t.replace p r := by
  obtain ⟨w, rfl⟩ := List.head?_eq_some_iff.1 hp.head
  exact Text.replace_append_of_not_mem hfixed r t

theorem replace_newline (r t : Text) : Text.replace ('\n' :: t) p r = '\n' :: t.replace p r := by
  have hfeed := Text.replace_append_cons hp.ne_nil hp.noFeed r [] t
  rwa [Text.replace_nil, List.nil_append, List.nil_append] at hfeed

theorem replace_line (r : Text) (d : Signature) : d.line.replace p r = (d.replace p r).line := by
  have hfront : '\x7b' ∉ "function ".toList := by decide
  have hback : '\x7b' ∉ " end".toList := by decide
  have hend : Text.replace " end".toList p r = " end".toList := by
    have h := hp.replace_append hback r []
    rwa [Text.replace_nil, List.append_nil] at h
  unfold Signature.line Signature.replace
  rw [hp.replace_append hfront, Text.replace_append_cons hp.ne_nil hp.noOpen,
    Text.replace_append_cons hp.ne_nil hp.noClose, hend]

end Foreign

theorem Laid.replace {p r t : Text} {ds : List Signature} (hp : Foreign p) (hr : r.Unbroken)
    (h : Laid t ds) : Laid (t.replace p r) (ds.map (·.replace p r)) := by
  induction h with
  | nil =>
    rw [Text.replace_nil]
    exact .nil
  | blank _ ih =>
    rw [hp.replace_newline]
    exact .blank ih
  | comment hl _ ih =>
    have hmark : '\x7b' ∉ "--".toList := by decide
    rw [Text.replace_append_cons hp.ne_nil hp.noFeed, hp.replace_append hmark]
    exact .comment (hl.replace hr p) ih
  | definition hd _ ih =>
    rw [Text.replace_append_cons hp.ne_nil hp.noFeed, hp.replace_line]
    exact .definition ⟨hd.call.replace hr p, hd.parameters.replace hr p⟩ ih

/-! ### Lines -/

/-- What a Lua reader finds in a text line by line: nothing, comments, and the definitions with the
given signatures in this order. -/
structure Declares (text : Text) (signatures : List Signature) : Prop where
  noReturn : '\r' ∉ text
  lines : ∀ l ∈ text.lines, l = [] ∨ "--".toList <+: l ∨ ∃ d ∈ signatures, l = d.line
  definitions : text.lines.filter isDefinition = signatures.map Signature.line

namespace Declares

variable {t : Text} {ds : List Signature}

theorem nil : Declares [] [] := ⟨List.not_mem_nil, by simp [Text.lines], rfl⟩

theorem noReturn_line (h : Declares t ds) {l : Text} (hl : l.Unbroken) : '\r' ∉ l ++ '\n' :: t := by
  rw [List.mem_append, List.mem_cons]
  exact not_or.2 ⟨hl.noReturn, not_or.2 ⟨by decide, h.noReturn⟩⟩

theorem aside (h : Declares t ds) {l : Text} (hl : l.Unbroken)
    (hkind : l = [] ∨ "--".toList <+: l) : Declares (l ++ '\n' :: t) ds where
  noReturn := h.noReturn_line hl
  lines := by
    rw [Text.lines_append hl.noFeed]
    exact List.forall_mem_cons.2 ⟨hkind.imp_right Or.inl, h.lines⟩
  definitions := by
    have hnot : ¬ isDefinition l = true := by
      rcases hkind with rfl | ⟨rest, rfl⟩
      · decide
      · rw [not_isDefinition_comment]
        decide
    rw [Text.lines_append hl.noFeed, List.filter_cons_of_neg hnot]
    exact h.definitions

theorem definition (h : Declares t ds) {d : Signature} (hd : d.Unbroken) :
    Declares (d.line ++ '\n' :: t) (d :: ds) where
  noReturn := h.noReturn_line hd.line
  lines := by
    rw [Text.lines_append hd.line.noFeed]
    refine List.forall_mem_cons.2 ⟨Or.inr (Or.inr ⟨d, List.mem_cons_self, rfl⟩), ?_⟩
    intro l hl
    refine (h.lines l hl).imp_right (Or.imp_right ?_)
    rintro ⟨e, he, rfl⟩
    exact ⟨e, List.mem_cons_of_mem d he, rfl⟩
  definitions := by
    rw [Text.lines_append hd.line.noFeed, List.filter_cons_of_pos (isDefinition_line d),
      List.map_cons, h.definitions]

end Declares

theorem Laid.declares {t : Text} {ds : List Signature} (h : Laid t ds) : Declares t ds := by
  induction h with
  | nil => exact .nil
  | blank _ ih => exact ih.aside Text.unbroken_nil (Or.inl rfl)
  | comment hl _ ih =>
    have hline := Text.Unbroken.append (t := "--".toList) (by decide) hl
    exact ih.aside hline (Or.inr (List.prefix_append _ _))
  | definition hd _ ih => exact ih.definition hd

end Stub

end LuaReference
