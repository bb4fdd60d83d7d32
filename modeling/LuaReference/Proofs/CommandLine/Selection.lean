import LuaReference.CommandLine.Run
import LuaReference.Proofs.Output.Containment

/-!
# What the batches take

The four batches take the documents apart by format and by directory. Together they take them in
the order in which they were generated, but leave out those whose names start with a slash.
-/

namespace LuaReference

open Arguments (Batch batches)

variable {r : Registry} {s : Settings} {files : List GeneratedFile} {format : Format}

/-! ### What one batch takes -/

theorem isAbsolute_of_components {dir : Path} {d : Text} (hdir : dir.components = [.name d]) :
    dir.isAbsolute = false := by
  have hnames : dir.components = [d].map .name := hdir
  exact Path.isAbsolute_of_names hnames

/-- A document lies below the directory that its name is joined to, unless the name starts at the
root. -/
theorem startsWith_child {dir dir' : Path} {d d' : Text} (hdir : dir.components = [.name d])
    (hdir' : dir'.components = [.name d']) (name : Text) :
    (dir.child name).startsWith dir' = (decide (d' = d) && !(dir.child name).isAbsolute) := by
  by_cases hroot : Path.isAbsolute ⟨name⟩ = true
  · have hchild : dir.child name = ⟨name⟩ := by rw [Path.child, Path.join, if_pos hroot]
    rw [hchild, hroot, Path.startsWith, hdir', Path.components_eq, Path.lead_of_isAbsolute hroot,
      Bool.not_true, Bool.and_false]
    rfl
  · rw [Bool.not_eq_true] at hroot
    have hdirText := Path.text_ne_nil_of_components hdir
    have hdirRelative : dir.isAbsolute = false := isAbsolute_of_components hdir
    rw [Path.child, Path.isAbsolute_join hdirText hroot, hdirRelative, Path.startsWith,
      Path.components_join hdirText hroot, hdir, hdir', Bool.not_false, Bool.and_true,
      Bool.eq_iff_iff, decide_eq_true_iff, List.isPrefixOf_iff_prefix, List.singleton_append,
      List.cons_prefix_cons]
    simp

theorem select_append (b : Batch) (files more : List GeneratedFile) :
    b.select (files ++ more) = b.select files ++ b.select more := List.filter_append ..

theorem select_map {α : Type} {as : List α} {make : α → GeneratedFile} {name : α → Text}
    {b : Batch} {dir : Path} {d d' : Text} (hdir : dir.components = [.name d])
    (hb : b.dir.components = [.name d'])
    (hmake : ∀ a, (make a).format = format ∧ (make a).path = dir.child (name a)) :
    b.select (as.map make) = if format = b.format ∧ d' = d
      then (as.map make).filter fun f => !f.path.isAbsolute else [] := by
  have htakes : ∀ f ∈ as.map make, (f.format = b.format && f.path.startsWith b.dir) =
      (decide (format = b.format ∧ d' = d) && !f.path.isAbsolute) := by
    simp only [List.forall_mem_map]
    intro a _
    obtain ⟨hformat, hpath⟩ := hmake a
    rw [hformat, hpath, startsWith_child hdir hb, ← Bool.and_assoc, Bool.decide_and]
  unfold Batch.select
  rw [List.filter_congr htakes]
  split
  · next h => simp [h]
  · next h => simp [h]

theorem select_tables {b : Batch} {d : Text} (hb : b.dir.components = [.name d]) (n : Naming)
    (ts : List Table) (format : Format) :
    b.select (ts.map (.ofTable n format)) = if format = b.format ∧ d = "tables".toList
      then (ts.map (.ofTable n format)).filter fun f => !f.path.isAbsolute else [] :=
  select_map components_tablesDir hb fun _ => ⟨rfl, rfl⟩

theorem select_classes {b : Batch} {d : Text} (hb : b.dir.components = [.name d]) (n : Naming)
    (cs : List Class) (format : Format) :
    b.select (cs.map (.ofClass n format)) = if format = b.format ∧ d = "classes".toList
      then (cs.map (.ofClass n format)).filter fun f => !f.path.isAbsolute else [] :=
  select_map components_classesDir hb fun _ => ⟨rfl, rfl⟩

/-- Together the batches take the documents with relative paths, in the order in which all
documents are generated. -/
theorem flatMap_select_documents (r : Registry) (s : Settings) :
    batches.flatMap (·.select (r.documents s)) =
      (r.documents s).filter fun f => !f.path.isAbsolute := by
  have hnames : "tables".toList ≠ "classes".toList := by decide
  have htables : ∀ format message, Batch.select ⟨tablesDir, format, message⟩ (r.documents s) =
      (r.tables.map (.ofTable (.of r s) format)).filter fun f => !f.path.isAbsolute := by
    intro format message
    have hdir : (Batch.mk tablesDir format message).dir.components = [.name "tables".toList] :=
      components_tablesDir
    rw [Registry.documents]
    simp only [select_append, select_tables hdir, select_classes hdir, hnames, and_false,
      and_true, if_false, List.append_nil]
    cases format <;> simp
  have hclasses : ∀ format message, Batch.select ⟨classesDir, format, message⟩ (r.documents s) =
      (r.classes.map (.ofClass (.of r s) format)).filter fun f => !f.path.isAbsolute := by
    intro format message
    have hdir : (Batch.mk classesDir format message).dir.components = [.name "classes".toList] :=
      components_classesDir
    rw [Registry.documents]
    simp only [select_append, select_tables hdir, select_classes hdir, hnames.symm, and_false,
      and_true, if_false, List.nil_append]
    cases format <;> simp
  simp only [batches, List.flatMap_cons, List.flatMap_nil, htables, hclasses, List.append_nil]
  simp only [Registry.documents, List.filter_append, List.append_assoc]

/-! ### Names that start with a slash -/

theorem isAbsolute_document {dir : Path} {d : Text} (hdir : dir.components = [.name d])
    (q ending : Text) :
    (dir.child (q ++ '.' :: ending)).isAbsolute = true ↔ q.head? = some '/' := by
  rw [← Path.isAbsolute_named q ending]
  by_cases hroot : Path.isAbsolute ⟨q ++ '.' :: ending⟩ = true
  · rw [Path.child, Path.join, if_pos hroot]
  · rw [Bool.not_eq_true] at hroot
    have hdirRelative : dir.isAbsolute = false := isAbsolute_of_components hdir
    rw [Path.child, Path.isAbsolute_join (Path.text_ne_nil_of_components hdir) hroot,
      hdirRelative, hroot]

theorem forall_relative_iff :
    (∀ f ∈ r.documents s, f.path.isAbsolute = false) ↔ ∀ q ∈ r.stems s, q.head? ≠ some '/' := by
  have htable : ∀ (t : Table) (format : Format),
      (GeneratedFile.ofTable (.of r s) format t).path.isAbsolute = false ↔
        ((Naming.of r s).qualifyTable t.name).head? ≠ some '/' := by
    intro t format
    rw [← Bool.not_eq_true]
    exact not_congr (isAbsolute_document components_tablesDir _ format.extension)
  have hclass : ∀ (c : Class) (format : Format),
      (GeneratedFile.ofClass (.of r s) format c).path.isAbsolute = false ↔
        ((Naming.of r s).qualify c.name).head? ≠ some '/' := by
    intro c format
    rw [← Bool.not_eq_true]
    exact not_congr (isAbsolute_document components_classesDir _ format.extension)
  simp only [Registry.documents, Registry.stems, List.forall_mem_append, List.forall_mem_map,
    htable, hclass]
  tauto

theorem flatMap_select_eq_iff :
    batches.flatMap (·.select (r.documents s)) = r.documents s ↔
      ∀ q ∈ r.stems s, q.head? ≠ some '/' := by
  rw [flatMap_select_documents, List.filter_eq_self, ← forall_relative_iff]
  simp

end LuaReference
