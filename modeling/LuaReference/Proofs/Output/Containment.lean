import LuaReference.Proofs.Output.Confined

/-!
# Documents below the output directory

Documents stay below the output directory exactly when the qualified names of all entities lead
down. A name that steps up or starts at the root takes its documents elsewhere.
-/

namespace LuaReference

/-- The names that the files of a registry are called after, without their endings. -/
def Registry.stems (r : Registry) (s : Settings) : List Text :=
  r.tables.map (fun t => (Naming.of r s).qualifyTable t.name) ++
    r.classes.map fun c => (Naming.of r s).qualify c.name

/-- Every document of a table stays in the directory for tables, and every document of a class in
the one for classes. -/
def Registry.Contained (r : Registry) (s : Settings) : Prop :=
  (∀ t ∈ r.tables, ∀ format,
      (GeneratedFile.ofTable (.of r s) format t).path.StaysIn tablesDir) ∧
    ∀ c ∈ r.classes, ∀ format,
      (GeneratedFile.ofClass (.of r s) format c).path.StaysIn classesDir

variable {r : Registry} {s : Settings}

theorem contained_iff : r.Contained s ↔ ∀ q ∈ r.stems s, q.LeadsDown := by
  have htable : ∀ t : Table, ∀ format,
      (GeneratedFile.ofTable (.of r s) format t).path.StaysIn tablesDir ↔
        ((Naming.of r s).qualifyTable t.name).LeadsDown :=
    fun t format => Path.staysIn_child_iff components_tablesDir _ format
  have hclass : ∀ c : Class, ∀ format,
      (GeneratedFile.ofClass (.of r s) format c).path.StaysIn classesDir ↔
        ((Naming.of r s).qualify c.name).LeadsDown :=
    fun c format => Path.staysIn_child_iff components_classesDir _ format
  constructor
  · rintro ⟨htables, hclasses⟩ q hq
    rcases List.mem_append.1 hq with hq | hq
    · obtain ⟨t, ht, rfl⟩ := List.mem_map.1 hq
      exact (htable t .page).1 (htables t ht .page)
    · obtain ⟨c, hc, rfl⟩ := List.mem_map.1 hq
      exact (hclass c .page).1 (hclasses c hc .page)
  · intro hstems
    refine ⟨fun t ht format => ?_, fun c hc format => ?_⟩
    · have hq := List.mem_map_of_mem (f := fun t => (Naming.of r s).qualifyTable t.name) ht
      exact (htable t format).2 (hstems _ (List.mem_append_left _ hq))
    · have hq := List.mem_map_of_mem (f := fun c => (Naming.of r s).qualify c.name) hc
      exact (hclass c format).2 (hstems _ (List.mem_append_right _ hq))

theorem Registry.Contained.stays (h : r.Contained s) {f : GeneratedFile}
    (hf : f ∈ r.documents s) : f.Stays := by
  rcases mem_documents_iff.1 hf with ⟨t, ht, format, rfl⟩ | ⟨c, hc, format, rfl⟩
  · exact Or.inl (h.1 t ht format)
  · exact Or.inr (h.2 c hc format)

/-- Outside the directories for documents every entry stays, and at most the missing directories
on the way to them are made. -/
def FileTree.KeptOutside (out : Path) (t t' : FileTree) : Prop :=
  ∀ names, ¬ InDocuments out t.here names →
    (t'.entry? names).map Entry.shape = (t.entry? names).map Entry.shape ∨
      OnTheWay out t.here names ∧ t.entry? names = none ∧
        ∃ d, t'.entry? names = some (.directory d)

/-- All documents stay in their directories exactly when all names lead down, and then writing
them keeps everything elsewhere, however it ends. -/
theorem generated_contained_iff {files : List GeneratedFile} (h : r.generate s = .ok files) :
    (r.Contained s ↔ ∀ q ∈ r.stems s, q.LeadsDown) ∧
      ((∀ q ∈ r.stems s, q.LeadsDown) → ∀ (out : Path) (t : FileTree), t.Plain →
        t.KeptOutside out ((writeGenerated out files).left t)) := by
  refine ⟨contained_iff, ?_⟩
  intro hstems out t ht names hnames
  obtain ⟨-, rfl⟩ := generate_eq_ok_iff.1 h
  have hcontained := contained_iff.2 hstems
  have hstay : ∀ f ∈ r.documents s, f.Stays := fun f hf => hcontained.stays hf
  have hedits := confined_writeGenerated_of_stays out hstay t ht rfl
  rcases hedits.kept hnames with hsame | ⟨hplace, hnone, hmade⟩
  · exact Or.inl hsame
  · have hway := hplace.resolve_right hnames
    exact Or.inr ⟨hway, hnone, hmade⟩

/-! ### One table under two names -/

/-- A registry with one table of this name. -/
def tableNamed (name : String) : Registry := (({} : Registry).tableEntry name.toList).1

theorem generated_contained_iff_kept :
    (tableNamed "kept").generate {} = .ok ((tableNamed "kept").documents {}) ∧
      ((tableNamed "kept").Contained {} ↔
        ∀ q ∈ (tableNamed "kept").stems {}, q.LeadsDown) ∧
      ((∀ q ∈ (tableNamed "kept").stems {}, q.LeadsDown) →
        ∀ (out : Path) (t : FileTree), t.Plain →
          t.KeptOutside out
            ((writeGenerated out ((tableNamed "kept").documents {})).left t)) := by
  have hgenerate : (tableNamed "kept").generate {} = .ok ((tableNamed "kept").documents {}) := by
    decide +kernel
  exact ⟨hgenerate, generated_contained_iff hgenerate⟩

/-- A tree with a hand-written page beside the output directory. -/
def notesTree : FileTree where
  top := .directory <| .sub "notes".toList (.file "kept.md".toList "hand".toUTF8 .empty) .empty

/-- A name that steps up takes the page of a table to another directory, where it replaces a
hand-written one. -/
theorem tableNamed_steps_up :
    (tableNamed "../../notes/kept").generate {} =
        .ok ((tableNamed "../../notes/kept").documents {}) ∧
      ¬ (tableNamed "../../notes/kept").Contained {} ∧
      (writeGenerated (.ofString "site") ((tableNamed "../../notes/kept").documents {})).Done
        notesTree () ((writeGenerated (.ofString "site")
          ((tableNamed "../../notes/kept").documents {})).left notesTree) ∧
      ¬ InDocuments (.ofString "site") [] ["notes".toList, "kept.md".toList] ∧
      notesTree.bytesAt ["notes".toList, "kept.md".toList] = some "hand".toUTF8 ∧
      ((writeGenerated (.ofString "site")
          ((tableNamed "../../notes/kept").documents {})).left notesTree).bytesAt
        ["notes".toList, "kept.md".toList] = some "# Table: ../../notes/kept\n\n".toUTF8 := by
  refine ⟨by decide +kernel, ?_, ⟨rfl, by decide +kernel⟩, by decide +kernel, by decide +kernel,
    by decide +kernel⟩
  rw [contained_iff]
  decide +kernel

end LuaReference
