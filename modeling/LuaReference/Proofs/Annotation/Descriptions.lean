import LuaReference.Proofs.Annotation.Directed
import LuaReference.Proofs.Printing.Row

/-!
# What descriptions say

A description grows line by line, with a line feed in front of a line unless it is the first one
that is not empty. So it is the list of all lines without tag that are directed to its entity or
member, without the empty lines in front and joined by line feeds: `descriptions_keep_lines`.
-/

namespace LuaReference

/-! ### Line by line -/

/-- The description that lines make: without the empty ones in front, joined by line feeds. -/
def joinedLines (lines : List Text) : Text := Text.join ['\n'] (lines.dropWhile (· = []))

theorem join_feed (d : Text) (lines : List Text) :
    Text.join ['\n'] (d :: lines) = d ++ lines.flatMap ('\n' :: ·) := by
  induction lines generalizing d with
  | nil => simp [Text.join]
  | cons line lines ih => simp [Text.join, ih]

theorem foldl_pushLine_nil (lines : List Text) : lines.foldl pushLine [] = joinedLines lines := by
  induction lines with
  | nil => rfl
  | cons line lines ih =>
    rw [List.foldl_cons, pushLine_nil, joinedLines, List.dropWhile_cons]
    by_cases hline : line = []
    · rw [hline, ih, joinedLines]
      rfl
    · rw [foldl_pushLine hline, if_neg (by simpa using hline), join_feed]

/-- Empty lines in front do not count, those in between and at the end do. -/
example : joinedLines [[], ['a'], [], ['b'], []] = "a\n\nb\n".toList := by decide

theorem describe_nil (lines : List Text) : describe [] lines = joinedLines (lines.map sanitize) :=
  foldl_pushLine_nil _

/-! ### Lines without tag -/

/-- The line carries a tag that blocks of this kind are searched for. -/
def Kind.tagsLine (k : Kind) (line : Text) : Bool := k.tags.any fun t => tagged t.word line

/-- The lines of an annotation without tag, as text. -/
def Annotation.untagged (a : Annotation) : List Text :=
  (a.part.lines.filter fun line => !a.kind.tagsLine line).map sanitize

/-- The lines of a part open no other part. -/
def Annotation.Closed (a : Annotation) : Prop := ∀ line ∈ a.part.lines, a.kind.opens line = false

theorem keeps_of_mem_runs {opens keeps : Text → Bool} {lines : List Text} {part : Run}
    (h : part ∈ runs opens keeps lines) : ∀ line ∈ part.lines, keeps line = true := by
  induction lines with
  | nil => cases h
  | cons first lines ih =>
    rw [runs] at h
    split at h
    · rcases List.mem_cons.1 h with rfl | h
      · exact fun line hline => List.mem_takeWhile_imp hline
      · exact ih h
    · exact ih h

theorem closed_of_mem_annotations {source : Source} {a : Annotation}
    (h : a ∈ source.annotations) : a.Closed := by
  obtain ⟨block, -, ha⟩ := List.mem_flatMap.1 h
  rw [Run.annotations] at ha
  split at ha
  · cases ha
  · obtain ⟨part, hpart, rfl⟩ := List.mem_map.1 ha
    intro line hline
    simpa using keeps_of_mem_runs hpart line hline

/-- Lines that open nothing are without tag when they carry none of the other tags either. -/
theorem Annotation.Closed.untagged_eq {a : Annotation} (h : a.Closed) {p : Text → Bool}
    (hp : ∀ line, a.kind.opens line = false → p line = !a.kind.tagsLine line) :
    (a.part.lines.filter p).map sanitize = a.untagged := by
  rw [untagged, List.filter_congr fun line hline => hp line (h line hline)]

/-! ### Members -/

section
variable {as : List Annotation} (hclosed : ∀ a ∈ as, a.Closed)
include hclosed

theorem closed_of_mem_directed {k : Kind} {o : Owner} {a : Annotation} (h : a ∈ directed as k o) :
    a.Closed ∧ a.kind = k := by
  obtain ⟨hmem, hdirected⟩ := List.mem_filter.1 h
  exact ⟨hclosed a hmem, (of_decide_eq_true hdirected).1⟩

theorem fields_described (o : Owner) :
    (directed as .field o).map (fun a => (fieldOf a.part.lines).description) =
      (directed as .field o).map fun a => joinedLines a.untagged := by
  refine List.map_congr_left fun a ha => ?_
  obtain ⟨hlines, hkind⟩ := closed_of_mem_directed hclosed ha
  rw [fieldOf, describe_nil, hlines.untagged_eq]
  intro line hopens
  rw [hkind, Kind.opens, Bool.or_eq_false_iff] at hopens
  simp [hkind, Kind.tagsLine, Kind.tags, Tag.word, hopens.1, hopens.2]

theorem constructors_described (o : Owner) (makes : Text) :
    (directed as .constructor o).map (fun a => (constructorOf makes a.part.lines).description) =
      (directed as .constructor o).map fun a => joinedLines a.untagged := by
  refine List.map_congr_left fun a ha => ?_
  obtain ⟨hlines, hkind⟩ := closed_of_mem_directed hclosed ha
  rw [constructorOf, describe_nil, hlines.untagged_eq]
  intro line hopens
  rw [hkind, Kind.opens] at hopens
  simp [hkind, Kind.tagsLine, Kind.tags, Tag.word, hopens]

theorem functions_described (o owner : Owner) :
    (directed as .function o).map (fun a => (functionOf owner a.part.lines).description) =
      (directed as .function o).map fun a => joinedLines a.untagged := by
  refine List.map_congr_left fun a ha => ?_
  obtain ⟨hlines, hkind⟩ := closed_of_mem_directed hclosed ha
  simp only [functionOf, describe_nil, List.filter_filter]
  rw [hlines.untagged_eq]
  intro line hopens
  rw [hkind, Kind.opens, Bool.or_eq_false_iff] at hopens
  simp [hkind, Kind.tagsLine, Kind.tags, Tag.word, hopens.1, hopens.2, Bool.and_comm,
    Bool.and_assoc]

/-! ### Tables and classes -/

theorem table_described (o : Owner) :
    describe [] ((directed as .table o).flatMap (·.part.lines)) =
      joinedLines ((directed as .table o).flatMap Annotation.untagged) := by
  rw [describe_nil, List.map_flatMap]
  refine congrArg joinedLines (List.flatMap_congr fun a ha => ?_)
  obtain ⟨hlines, hkind⟩ := closed_of_mem_directed hclosed ha
  rw [← hlines.untagged_eq (p := fun _ => true), List.filter_true]
  intro line hopens
  rw [hkind, Kind.opens] at hopens
  simp [hkind, Kind.tagsLine, Kind.tags, Tag.word, hopens]

theorem class_described (o : Owner) :
    describe [] (((directed as .ofClass o).flatMap (·.part.lines)).filter
        fun line => !tagged "inherit" line) =
      joinedLines ((directed as .ofClass o).flatMap Annotation.untagged) := by
  rw [describe_nil, List.filter_flatMap, List.map_flatMap]
  refine congrArg joinedLines (List.flatMap_congr fun a ha => ?_)
  obtain ⟨hlines, hkind⟩ := closed_of_mem_directed hclosed ha
  rw [hlines.untagged_eq]
  intro line hopens
  rw [hkind, Kind.opens] at hopens
  simp [hkind, Kind.tagsLine, Kind.tags, Tag.word, hopens]

theorem described_annotated_table (n : Text) :
    (Table.annotated { name := n } as).description =
        joinedLines ((directed as .table (.table n)).flatMap Annotation.untagged) ∧
      (Table.annotated { name := n } as).fields.map Field.description =
        (directed as .field (.table n)).map (fun a => joinedLines a.untagged) ∧
      (Table.annotated { name := n } as).functions.map Function.description =
        (directed as .function (.table n)).map fun a => joinedLines a.untagged := by
  refine ⟨table_described hclosed _, ?_, ?_⟩
  · rw [Table.fields_annotated, List.nil_append, List.map_map]
    exact fields_described hclosed _
  · rw [Table.functions_annotated, List.nil_append, List.map_map]
    exact functions_described hclosed _ _

theorem described_annotated_class (n : Text) :
    (Class.annotated { name := n } as).description =
        joinedLines ((directed as .ofClass (.ofClass n)).flatMap Annotation.untagged) ∧
      (Class.annotated { name := n } as).fields.map Field.description =
        (directed as .field (.ofClass n)).map (fun a => joinedLines a.untagged) ∧
      (Class.annotated { name := n } as).constructors.map Constructor.description =
        (directed as .constructor (.ofClass n)).map (fun a => joinedLines a.untagged) ∧
      (Class.annotated { name := n } as).functions.map Function.description =
        (directed as .function (.ofClass n)).map fun a => joinedLines a.untagged := by
  refine ⟨class_described hclosed _, ?_, ?_, ?_⟩
  · rw [Class.fields_annotated, List.nil_append, List.map_map]
    exact fields_described hclosed _
  · rw [Class.constructors_annotated, List.nil_append, List.map_map]
    exact constructors_described hclosed _ _
  · rw [Class.functions_annotated, List.nil_append, List.map_map]
    exact functions_described hclosed _ _

end

/-- After any sources were read, whether some of them failed or not, the description of a table or
class is the list of all lines without tag in the annotations about it, those of a member are the
lines without tag of the annotation that added it. -/
theorem descriptions_keep_lines (sources : List Source) :
    let r := ({} : Registry).withSources sources
    let as := sources.flatMap Source.annotations
    (∀ t ∈ r.tables,
      t.description =
          joinedLines ((directed as .table (.table t.name)).flatMap Annotation.untagged) ∧
        t.fields.map Field.description =
          (directed as .field (.table t.name)).map (fun a => joinedLines a.untagged) ∧
        t.functions.map Function.description =
          (directed as .function (.table t.name)).map fun a => joinedLines a.untagged) ∧
      ∀ c ∈ r.classes,
        c.description =
            joinedLines ((directed as .ofClass (.ofClass c.name)).flatMap Annotation.untagged) ∧
          c.fields.map Field.description =
            (directed as .field (.ofClass c.name)).map (fun a => joinedLines a.untagged) ∧
          c.constructors.map Constructor.description =
            (directed as .constructor (.ofClass c.name)).map (fun a => joinedLines a.untagged) ∧
          c.functions.map Function.description =
            (directed as .function (.ofClass c.name)).map fun a => joinedLines a.untagged := by
  intro r as
  have hr : r = as.foldl Registry.annotated {} := withSources_eq {} sources
  have hclosed : ∀ a ∈ as, a.Closed := by
    intro a ha
    obtain ⟨source, -, ha⟩ := List.mem_flatMap.1 ha
    exact closed_of_mem_annotations ha
  constructor
  · intro t ht
    rw [hr] at ht
    have hannotated : t = Table.annotated { name := t.name } as :=
      Registry.wellFormed_empty.eq_annotated_of_mem_tables ht
    have hdescribed := described_annotated_table hclosed t.name
    rwa [← hannotated] at hdescribed
  · intro c hc
    rw [hr] at hc
    have hannotated : c = Class.annotated { name := c.name } as :=
      Registry.wellFormed_empty.eq_annotated_of_mem_classes hc
    have hdescribed := described_annotated_class hclosed c.name
    rwa [← hannotated] at hdescribed

end LuaReference
