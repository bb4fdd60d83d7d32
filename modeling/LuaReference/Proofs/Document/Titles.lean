import LuaReference.Proofs.Annotation.Block
import LuaReference.Proofs.Document.Parents
import LuaReference.Proofs.Output.Distinct
import LuaReference.Proofs.Text.Cut

/-!
# Titles and file names

A document is filed under the qualified name of its entity, and says that name with the placeholder
replaced: in the title of a page and in the declaration of a stub. The two agree exactly for the
names that the replacement leaves alone: `titled_by_stem`.
-/

namespace LuaReference

/-! ### Names that the replacement leaves alone -/

namespace Naming

/-- What is replaced in documents: the placeholder, with a period behind it when there is no
namespace to take its place. -/
def token (n : Naming) : Text :=
  if n.nameSpace = none then n.placeholder ++ ['.'] else n.placeholder

theorem substitute_eq_self_iff {n : Naming} (hne : n.placeholder ≠ []) (t : Text) :
    n.substitute t = t ↔ n.nameSpace = some n.placeholder ∨ ¬ n.token <:+: t := by
  rw [substitute, if_neg hne, token]
  cases hns : n.nameSpace with
  | none =>
    have hpattern : n.placeholder ++ ['.'] ≠ [] := by simp
    rw [if_pos rfl, or_iff_right (Option.some_ne_none _).symm]
    exact (Text.replace_eq_self_iff_eq_or hpattern t).trans (or_iff_right hpattern.symm)
  | some ns =>
    rw [if_neg (Option.some_ne_none ns), Option.some.injEq]
    exact Text.replace_eq_self_iff_eq_or hne t

theorem substitute_of_not_infix {n : Naming} {t : Text} (h : ¬ n.placeholder <:+: t) :
    n.substitute t = t := by
  by_cases hne : n.placeholder = []
  · rw [substitute, if_pos hne]
  · refine (substitute_eq_self_iff hne t).2 (Or.inr fun htoken => h ?_)
    rw [token] at htoken
    split at htoken
    · exact (List.prefix_append _ _).isInfix.trans htoken
    · exact htoken

/-- A line behind a fixed word keeps the word. -/
theorem Separable.substitute_titled {n : Naming} (hn : n.Separable) {word : Text}
    (hword : ¬ n.placeholder <:+: word) (name rest : Text) :
    n.substitute (Piece.line (word ++ ' ' :: name) ++ rest) =
      Piece.line (word ++ ' ' :: n.substitute name) ++ n.substitute rest := by
  have hline : ∀ name rest : Text, Piece.line (word ++ ' ' :: name) ++ rest =
      word ++ ' ' :: (name ++ '\n' :: rest) := by
    intro name rest
    simp [Piece.line]
  rw [hline, hn.substitute_space, hn.substitute_newline, substitute_of_not_infix hword, ← hline]

end Naming

/-! ### Paths -/

/-- The file lies in a directory under a stem with the ending of a format, as its path is
spelled. -/
def GeneratedFile.IsAt (f : GeneratedFile) (dir : Path) (stem : Text) (format : Format) : Prop :=
  f.path.text = dir.text ++ '/' :: (stem ++ '.' :: format.extension)

instance (f : GeneratedFile) (dir : Path) (stem : Text) (format : Format) :
    Decidable (f.IsAt dir stem format) :=
  inferInstanceAs (Decidable (_ = _))

theorem text_child_named_iff {dir dir' : Path} {q stem : Text} {format format' : Format}
    (hdir : dir ∈ [tablesDir, classesDir]) (hdir' : dir' ∈ [tablesDir, classesDir]) :
    (dir.child (q ++ '.' :: format.extension)).text =
        dir'.text ++ '/' :: (stem ++ '.' :: format'.extension) ↔
      dir = dir' ∧ q = stem ∧ format = format' ∧ stem.head? ≠ some '/' := by
  have habsolute := Path.isAbsolute_named q format.extension
  have hspelled : ∀ d ∈ [tablesDir, classesDir], d.text ≠ [] ∧ d.text.getLast? ≠ some '/' ∧
      d.text.head? ≠ some '/' := by decide
  have hheads : ∀ d ∈ [tablesDir, classesDir], ∀ d' ∈ [tablesDir, classesDir],
      d.text.head? = d'.text.head? → d = d' := by decide
  obtain ⟨hne, hlast, -⟩ := hspelled dir hdir
  obtain ⟨hne', -, hfirst'⟩ := hspelled dir' hdir'
  by_cases hslash : q.head? = some '/'
  · -- a name that starts at the root leads out of the directory
    refine iff_of_false ?_ ?_
    · rw [Path.child, Path.join, if_pos (habsolute.2 hslash)]
      intro heq
      have hhead := congrArg List.head? heq
      rw [List.head?_append, hslash, List.head?_append_of_ne_nil _ hne'] at hhead
      exact hfirst' hhead.symm
    · rintro ⟨-, rfl, -, hrelative⟩
      exact hrelative hslash
  · have htext : (dir.child (q ++ '.' :: format.extension)).text =
        dir.text ++ '/' :: (q ++ '.' :: format.extension) := by
      rw [Path.child, Path.join, if_neg (mt habsolute.1 hslash), if_neg (not_or.2 ⟨hne, hlast⟩)]
    rw [htext]
    constructor
    · intro heq
      have hhead := congrArg List.head? heq
      rw [List.head?_append_of_ne_nil _ hne, List.head?_append_of_ne_nil _ hne'] at hhead
      obtain rfl := hheads dir hdir dir' hdir' hhead
      obtain ⟨rfl, rfl⟩ := named_eq_iff.1 (List.cons.inj (List.append_cancel_left heq)).2
      exact ⟨rfl, rfl, rfl, hslash⟩
    · rintro ⟨rfl, rfl, rfl, -⟩
      rfl

section
variable {r : Registry} {s : Settings} {f : GeneratedFile} {stem : Text} {format : Format}

theorem isAt_ofTable_iff {n : Naming} {t : Table} {format' : Format} :
    (GeneratedFile.ofTable n format t).IsAt tablesDir stem format' ↔
      n.qualifyTable t.name = stem ∧ format = format' ∧ stem.head? ≠ some '/' := by
  rw [GeneratedFile.IsAt]
  exact (text_child_named_iff (by decide) (by decide)).trans (and_iff_right rfl)

theorem isAt_ofClass_iff {n : Naming} {c : Class} {format' : Format} :
    (GeneratedFile.ofClass n format c).IsAt classesDir stem format' ↔
      n.qualify c.name = stem ∧ format = format' ∧ stem.head? ≠ some '/' := by
  rw [GeneratedFile.IsAt]
  exact (text_child_named_iff (by decide) (by decide)).trans (and_iff_right rfl)

/-- Only tables are filed among the tables. -/
theorem exists_table_of_isAt (hf : f ∈ r.documents s) (h : f.IsAt tablesDir stem format) :
    ∃ t ∈ r.tables, f = .ofTable (.of r s) format t ∧
      (Naming.of r s).qualifyTable t.name = stem ∧ stem.head? ≠ some '/' := by
  rcases mem_documents_iff.1 hf with ⟨t, ht, format', rfl⟩ | ⟨c, -, format', rfl⟩
  · obtain ⟨hstem, rfl, hrelative⟩ := isAt_ofTable_iff.1 h
    exact ⟨t, ht, rfl, hstem, hrelative⟩
  · obtain ⟨hdir, -⟩ := (text_child_named_iff (by decide) (by decide)).1 h
    exact absurd hdir (by decide)

theorem exists_class_of_isAt (hf : f ∈ r.documents s) (h : f.IsAt classesDir stem format) :
    ∃ c ∈ r.classes, f = .ofClass (.of r s) format c ∧
      (Naming.of r s).qualify c.name = stem ∧ stem.head? ≠ some '/' := by
  rcases mem_documents_iff.1 hf with ⟨t, -, format', rfl⟩ | ⟨c, hc, format', rfl⟩
  · obtain ⟨hdir, -⟩ := (text_child_named_iff (by decide) (by decide)).1 h
    exact absurd hdir (by decide)
  · obtain ⟨hstem, rfl, hrelative⟩ := isAt_ofClass_iff.1 h
    exact ⟨c, hc, rfl, hstem, hrelative⟩

end

/-! ### Documents -/

theorem separable_default (r : Registry) : (Naming.of r {}).Separable :=
  -- only the placeholder counts, which is the same for every registry
  have hempty : (Naming.of {} {}).Separable := by decide
  ⟨hempty.separators, hempty.mark⟩

namespace Naming.Separable

variable {n : Naming} (hn : n.Separable)
include hn

theorem table_titled (hword : ¬ n.placeholder <:+: "# Table:".toList) (t : Table) :
    Piece.line ("# Table: ".toList ++ n.substitute (n.qualifyTable t.name)) <+: Page.table n t := by
  have hmark : ∀ name : Text, "# Table: ".toList ++ name = "# Table:".toList ++ ' ' :: name :=
    fun _ => rfl
  rw [Page.table]
  simp only [List.append_assoc, hmark]
  rw [hn.substitute_titled hword]
  exact List.prefix_append _ _

theorem class_titled (hword : ¬ n.placeholder <:+: "# Class:".toList) (c : Class) :
    Piece.line ("# Class: ".toList ++ n.substitute (n.qualify c.name)) <+: Page.ofClass n c := by
  have hmark : ∀ name : Text, "# Class: ".toList ++ name = "# Class:".toList ++ ' ' :: name :=
    fun _ => rfl
  rw [Page.ofClass]
  simp only [List.append_assoc, hmark]
  rw [hn.substitute_titled hword]
  exact List.prefix_append _ _

theorem table_declared (t : Table) :
    Stub.DeclaresClass (Stub.table n t) (n.substitute (n.qualifyTable t.name)) [] := by
  obtain ⟨front, hfront⟩ := Stub.exists_header_eq t.name t.description
  unfold Stub.table
  simp only [List.append_assoc]
  rw [hfront, List.append_assoc, List.singleton_append, hn.substitute_newline,
    hn.substitute_declaration]
  exact ⟨_, _, rfl⟩

end Naming.Separable

/-- With the default settings, the page under a stem begins with a title, and the stub under the
same stem declares a class, that have the stem with the placeholder replaced. This is the stem
itself exactly when nothing in it is replaced, or the placeholder by itself. -/
theorem titled_by_stem {r : Registry} {files : List GeneratedFile}
    (h : r.generate {} = .ok files) :
    let n := Naming.of r {}
    (∀ stem, ∀ f ∈ files, f.IsAt tablesDir stem .page →
        Piece.line ("# Table: ".toList ++ n.substitute stem) <+: f.content ∧
          ∃ g ∈ files, g.IsAt tablesDir stem .stub) ∧
      (∀ stem, ∀ f ∈ files, f.IsAt tablesDir stem .stub →
        Stub.DeclaresClass f.content (n.substitute stem) []) ∧
      (∀ stem, ∀ f ∈ files, f.IsAt classesDir stem .page →
        Piece.line ("# Class: ".toList ++ n.substitute stem) <+: f.content ∧
          ∃ g ∈ files, g.IsAt classesDir stem .stub) ∧
      (∀ stem, ∀ f ∈ files, f.IsAt classesDir stem .stub →
        ∃ parents, Stub.DeclaresClass f.content (n.substitute stem) parents) ∧
      ∀ stem, n.substitute stem = stem ↔
        n.nameSpace = some n.placeholder ∨ ¬ n.token <:+: stem := by
  intro n
  obtain ⟨-, rfl⟩ := generate_eq_ok_iff.1 h
  have hseparable := separable_default r
  have htable : ¬ n.placeholder <:+: "# Table:".toList :=
    (by decide : ¬ ({} : Settings).placeholder <:+: _)
  have hclass : ¬ n.placeholder <:+: "# Class:".toList :=
    (by decide : ¬ ({} : Settings).placeholder <:+: _)
  refine ⟨?_, ?_, ?_, ?_, n.substitute_eq_self_iff (by decide : ({} : Settings).placeholder ≠ [])⟩
  · intro stem f hf hat
    obtain ⟨t, ht, rfl, rfl, hrelative⟩ := exists_table_of_isAt hf hat
    refine ⟨hseparable.table_titled htable t, .ofTable n .stub t, ?_, ?_⟩
    · exact mem_documents_iff.2 (Or.inl ⟨t, ht, .stub, rfl⟩)
    · exact isAt_ofTable_iff.2 ⟨rfl, rfl, hrelative⟩
  · intro stem f hf hat
    obtain ⟨t, -, rfl, rfl, -⟩ := exists_table_of_isAt hf hat
    exact hseparable.table_declared t
  · intro stem f hf hat
    obtain ⟨c, hc, rfl, rfl, hrelative⟩ := exists_class_of_isAt hf hat
    refine ⟨hseparable.class_titled hclass c, .ofClass n .stub c, ?_, ?_⟩
    · exact mem_documents_iff.2 (Or.inr ⟨c, hc, .stub, rfl⟩)
    · exact isAt_ofClass_iff.2 ⟨rfl, rfl, hrelative⟩
  · intro stem f hf hat
    obtain ⟨c, -, rfl, rfl, -⟩ := exists_class_of_isAt hf hat
    exact ⟨_, Stub.ofClass_declaresClass hseparable c⟩

/-- A table of a name, scanned and put in a namespace. -/
def tableInRom (name : String) : Registry :=
  (scan {} sampleFile ("// Lua API: Table\n// Name: ".toList ++ name.toList)
    {}).recorder.registry.setNameSpace "rom".toList

theorem titled_by_stem_x :
    (tableInRom "x").generate {} = .ok ((tableInRom "x").documents {}) ∧
      ∀ f ∈ (tableInRom "x").documents {}, f.IsAt tablesDir "rom.x".toList .page →
        Piece.line "# Table: rom.x".toList <+: f.content := by
  have hgenerate : (tableInRom "x").generate {} = .ok ((tableInRom "x").documents {}) := by
    decide +kernel
  have hself : (Naming.of (tableInRom "x") {}).substitute "rom.x".toList = "rom.x".toList := by
    decide +kernel
  refine ⟨hgenerate, fun f hf hat => ?_⟩
  have htitled := ((titled_by_stem hgenerate).1 "rom.x".toList f hf hat).1
  rw [hself] at htitled
  exact htitled

/-- The page of a table that is called after the placeholder has another title than its stem. -/
theorem placeholder_not_titled_by_stem :
    (tableInRom "\x7bLUA_API_NAMESPACE\x7d.x").generate {} =
        .ok ((tableInRom "\x7bLUA_API_NAMESPACE\x7d.x").documents {}) ∧
      ∃ f ∈ (tableInRom "\x7bLUA_API_NAMESPACE\x7d.x").documents {},
        f.IsAt tablesDir "rom.\x7bLUA_API_NAMESPACE\x7d.x".toList .page ∧
          Piece.line "# Table: rom.rom.x".toList <+: f.content ∧
          ¬ Piece.line "# Table: rom.\x7bLUA_API_NAMESPACE\x7d.x".toList <+: f.content :=
  ⟨by decide +kernel, by decide +kernel⟩

end LuaReference
