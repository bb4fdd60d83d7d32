import LuaReference.Proofs.Output.Documents
import LuaReference.Proofs.Registry.WellFormed

/-!
# Documents of their own

The path of a document is made from the qualified name of its entity. Two documents share a path
only when a global table, which keeps its name, is called what the namespace makes of another
table's name.
-/

namespace LuaReference

namespace Naming

variable {n : Naming} {name name' : Text}

theorem qualify_injective (n : Naming) : Function.Injective n.qualify := by
  intro name name' h
  unfold qualify at h
  split at h
  · exact (List.cons.inj (List.append_cancel_left h)).2
  · exact h

/-- Two tables are qualified alike when they have the same name, or when one is global and has the
name that the other gets. -/
theorem qualifyTable_eq_iff :
    n.qualifyTable name = n.qualifyTable name' ↔
      name = name' ∨
        n.isGlobal name = true ∧ n.isGlobal name' = false ∧ name = n.qualify name' ∨
        n.isGlobal name' = true ∧ n.isGlobal name = false ∧ name' = n.qualify name := by
  unfold qualifyTable
  cases hname : n.isGlobal name with
  | true =>
    cases hname' : n.isGlobal name' with
    | true => simp
    | false =>
      have hne : name ≠ name' := by
        rintro rfl
        rw [hname] at hname'
        cases hname'
      simp [hne]
  | false =>
    cases hname' : n.isGlobal name' with
    | true =>
      have hne : name ≠ name' := by
        rintro rfl
        rw [hname] at hname'
        cases hname'
      simp [hne, eq_comm]
    | false => simpa using n.qualify_injective.eq_iff

end Naming

/-! ### Paths of documents -/

theorem named_eq_iff {q q' : Text} {format format' : Format} :
    q ++ '.' :: format.extension = q' ++ '.' :: format'.extension ↔ q = q' ∧ format = format' := by
  constructor
  · intro h
    have hformat : format = format' := by
      have hlast := congrArg List.getLast? h
      cases format <;> cases format' <;> simp [Format.extension] at hlast ⊢
    subst hformat
    exact ⟨List.append_cancel_right h, rfl⟩
  · rintro ⟨rfl, rfl⟩
    rfl

namespace Registry.Flat

variable {r : Registry} {s : Settings} {format format' : Format}

theorem components_ofTable (h : r.Flat) {t : Table} (ht : t ∈ r.tables) :
    (GeneratedFile.ofTable (.of r s) format t).path.components =
      [.name "tables".toList,
        .name ((Naming.of r s).qualifyTable t.name ++ '.' :: format.extension)] := by
  have hname := isName_named (h.not_mem_qualifyTable (s := s) (h.tables t ht)) format
  exact (Path.components_child tablesDir hname).trans (congrArg (· ++ _) components_tablesDir)

theorem components_ofClass (h : r.Flat) {c : Class} (hc : c ∈ r.classes) :
    (GeneratedFile.ofClass (.of r s) format c).path.components =
      [.name "classes".toList,
        .name ((Naming.of r s).qualify c.name ++ '.' :: format.extension)] := by
  have hname := isName_named (h.not_mem_qualify (s := s) (h.classes c hc)) format
  exact (Path.components_child classesDir hname).trans (congrArg (· ++ _) components_classesDir)

theorem agrees_ofTable_iff (h : r.Flat) {t t' : Table} (ht : t ∈ r.tables) (ht' : t' ∈ r.tables) :
    (GeneratedFile.ofTable (.of r s) format t).path.agrees
        (GeneratedFile.ofTable (.of r s) format' t').path = true ↔
      (Naming.of r s).qualifyTable t.name = (Naming.of r s).qualifyTable t'.name ∧
        format = format' := by
  rw [Path.agrees, h.components_ofTable ht, h.components_ofTable ht', beq_iff_eq, ← named_eq_iff]
  simp

theorem agrees_ofClass_iff (h : r.Flat) {c c' : Class} (hc : c ∈ r.classes) (hc' : c' ∈ r.classes) :
    (GeneratedFile.ofClass (.of r s) format c).path.agrees
        (GeneratedFile.ofClass (.of r s) format' c').path = true ↔
      c.name = c'.name ∧ format = format' := by
  rw [Path.agrees, h.components_ofClass hc, h.components_ofClass hc', beq_iff_eq,
    ← (Naming.of r s).qualify_injective.eq_iff, ← named_eq_iff]
  simp

theorem not_agrees_ofClass (h : r.Flat) {t : Table} {c : Class} (ht : t ∈ r.tables)
    (hc : c ∈ r.classes) :
    (GeneratedFile.ofTable (.of r s) format t).path.agrees
      (GeneratedFile.ofClass (.of r s) format' c).path = false := by
  rw [Path.agrees, h.components_ofTable ht, h.components_ofClass hc, beq_eq_false_iff_ne]
  intro heq
  have htables : "tables".toList ≠ "classes".toList := by decide
  exact htables (Component.name.inj (List.cons.inj heq).1)

end Registry.Flat

/-! ### All documents -/

/-- No two of these files are at the same path. -/
def Distinct (files : List GeneratedFile) : Prop :=
  files.Pairwise fun f g => f.path.agrees g.path = false

instance (files : List GeneratedFile) : Decidable (Distinct files) :=
  inferInstanceAs (Decidable (List.Pairwise _ files))

/-- Some global table has the name that the namespace gives to another table. -/
def Registry.Collides (r : Registry) (s : Settings) : Prop :=
  ∃ g ∈ r.tables, ∃ t ∈ r.tables, (Naming.of r s).isGlobal g.name = true ∧
    (Naming.of r s).isGlobal t.name = false ∧ g.name = (Naming.of r s).qualify t.name

instance (r : Registry) (s : Settings) : Decidable (r.Collides s) :=
  inferInstanceAs (Decidable (∃ g ∈ r.tables, ∃ t ∈ r.tables, _ ∧ _ ∧ _))

variable {r : Registry} {s : Settings}

theorem distinct_ofTable_iff (h : r.Flat) (format : Format) :
    Distinct (r.tables.map (.ofTable (.of r s) format)) ↔
      (r.tables.map fun t => (Naming.of r s).qualifyTable t.name).Nodup := by
  rw [Distinct, List.pairwise_map, List.nodup_iff_pairwise_ne, List.pairwise_map]
  refine List.Pairwise.iff_of_mem fun ht ht' => ?_
  rw [← Bool.not_eq_true, h.agrees_ofTable_iff ht ht']
  simp

theorem distinct_ofClass (h : r.Flat) (hr : r.WellFormed) (format : Format) :
    Distinct (r.classes.map (.ofClass (.of r s) format)) := by
  have hnames := hr.classIndex.nodup
  rw [List.nodup_iff_pairwise_ne, List.pairwise_map] at hnames
  rw [Distinct, List.pairwise_map]
  refine hnames.imp_of_mem fun hc hc' hne => ?_
  rw [← Bool.not_eq_true, h.agrees_ofClass_iff hc hc']
  exact fun hsame => hne hsame.1

theorem nodup_qualifyTable_iff (hr : r.WellFormed) :
    (r.tables.map fun t => (Naming.of r s).qualifyTable t.name).Nodup ↔ ¬ r.Collides s := by
  have hnames : (r.tables.map Table.name).Nodup := hr.tableIndex.nodup
  rw [List.nodup_map_iff_inj_on hnames.of_map]
  constructor
  · rintro hinj ⟨g, hg, t, ht, hglobal, hother, hname⟩
    have hsame := hinj g hg t ht (Naming.qualifyTable_eq_iff.2 (Or.inr (Or.inl
      ⟨hglobal, hother, hname⟩)))
    rw [hsame, hother] at hglobal
    cases hglobal
  · intro hnone g hg t ht heq
    rcases Naming.qualifyTable_eq_iff.1 heq with hsame | ⟨hglobal, hother, hname⟩ |
      ⟨hglobal, hother, hname⟩
    · exact List.inj_on_of_nodup_map hnames hg ht hsame
    · exact absurd ⟨g, hg, t, ht, hglobal, hother, hname⟩ hnone
    · exact absurd ⟨t, ht, g, hg, hglobal, hother, hname⟩ hnone

theorem distinct_append_iff {fs gs : List GeneratedFile} :
    Distinct (fs ++ gs) ↔ Distinct fs ∧ Distinct gs ∧
      ∀ f ∈ fs, ∀ g ∈ gs, f.path.agrees g.path = false := List.pairwise_append

/-- The documents of a registry have paths of their own exactly when no table collides with a
global one. -/
theorem generated_distinct_iff {files : List GeneratedFile} (hr : r.WellFormed) (hflat : r.Flat)
    (h : r.generate s = .ok files) : Distinct files ↔ ¬ r.Collides s := by
  obtain ⟨-, rfl⟩ := generate_eq_ok_iff.1 h
  have htables : ∀ format, Distinct (r.tables.map (.ofTable (.of r s) format)) ↔ ¬ r.Collides s :=
    fun format => (distinct_ofTable_iff hflat format).trans (nodup_qualifyTable_iff hr)
  have hclasses := distinct_ofClass (s := s) hflat hr
  -- a page is no stub, and a table is no class
  have htableFormats : ∀ f ∈ r.tables.map (GeneratedFile.ofTable (.of r s) .page),
      ∀ g ∈ r.tables.map (GeneratedFile.ofTable (.of r s) .stub), f.path.agrees g.path = false := by
    simp only [List.forall_mem_map]
    intro t ht t' ht'
    rw [← Bool.not_eq_true, hflat.agrees_ofTable_iff ht ht']
    exact fun hsame => nomatch hsame.2
  have hclassFormats : ∀ f ∈ r.classes.map (GeneratedFile.ofClass (.of r s) .page),
      ∀ g ∈ r.classes.map (GeneratedFile.ofClass (.of r s) .stub),
        f.path.agrees g.path = false := by
    simp only [List.forall_mem_map]
    intro c hc c' hc'
    rw [← Bool.not_eq_true, hflat.agrees_ofClass_iff hc hc']
    exact fun hsame => nomatch hsame.2
  have hkinds : ∀ format format', ∀ f ∈ r.tables.map (GeneratedFile.ofTable (.of r s) format),
      ∀ g ∈ r.classes.map (GeneratedFile.ofClass (.of r s) format'),
        f.path.agrees g.path = false := by
    simp only [List.forall_mem_map]
    intro format format' t ht c hc
    exact hflat.not_agrees_ofClass ht hc
  simp only [Registry.documents, distinct_append_iff, List.forall_mem_append, htables]
  constructor
  · intro hall
    exact hall.1.1.1
  · intro hnone
    exact ⟨⟨⟨hnone, hnone, htableFormats⟩, hclasses .page, hkinds .page .page, hkinds .stub .page⟩,
      hclasses .stub, ⟨hkinds .page .stub, hkinds .stub .stub⟩, hclassFormats⟩

/-! ### A name with the namespace in it -/

/-- Two tables in a namespace that has the name of the global table in it. -/
def globalSpace (first second : String) : Registry :=
  ((((({} : Registry).setNameSpace "Global Table".toList).tableEntry first.toList).1.tableEntry
    second.toList).1)

theorem globalSpace_wellFormed (first second : String) : (globalSpace first second).WellFormed :=
  ((Registry.wellFormed_empty.setNameSpace _).tableEntry _).tableEntry _

theorem generated_distinct_iff_globalSpace :
    (globalSpace "x" "y").WellFormed ∧ (globalSpace "x" "y").Flat ∧
      (globalSpace "x" "y").generate {} = .ok ((globalSpace "x" "y").documents {}) ∧
      Distinct ((globalSpace "x" "y").documents {}) := by
  have hflat : (globalSpace "x" "y").Flat :=
    ⟨by decide +kernel, by decide +kernel, by decide +kernel⟩
  have hgenerate : (globalSpace "x" "y").generate {} =
      .ok ((globalSpace "x" "y").documents {}) := by decide +kernel
  have hdistinct := generated_distinct_iff (globalSpace_wellFormed "x" "y") hflat hgenerate
  exact ⟨globalSpace_wellFormed "x" "y", hflat, hgenerate, hdistinct.2 (by decide +kernel)⟩

/-- The namespace makes `Global Table.x` of the first table, which the second one is called. -/
theorem globalSpace_collides :
    (globalSpace "x" "Global Table.x").WellFormed ∧ (globalSpace "x" "Global Table.x").Flat ∧
      (globalSpace "x" "Global Table.x").generate {} =
        .ok ((globalSpace "x" "Global Table.x").documents {}) ∧
      ¬ Distinct ((globalSpace "x" "Global Table.x").documents {}) :=
  ⟨globalSpace_wellFormed _ _, ⟨by decide +kernel, by decide +kernel, by decide +kernel⟩,
    by decide +kernel, by decide +kernel⟩

end LuaReference
