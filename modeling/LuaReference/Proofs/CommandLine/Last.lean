import LuaReference.Proofs.CommandLine.Batches
import LuaReference.Proofs.CommandLine.Selection

/-!
# The last document at a place

Documents may share a place, and then the one that is written last stays. Writing a list of
documents leaves at each place the content of the last one there, and what was there before where
none of them goes. The batches write the documents in the order in which they are generated.
-/

namespace LuaReference

open Arguments (Batch batches)

variable {t t' : FileTree} {out : Path} {files more : List GeneratedFile}

/-- The last of the documents that go to a place. -/
def lastAt? (out : Path) (here : List Text) (files : List GeneratedFile) (place : List Text) :
    Option GeneratedFile :=
  files.reverse.find? fun f => (f.pathIn out).place here = place

/-- The bytes at a place when the documents were written. -/
def FileTree.bytesAfter (t : FileTree) (out : Path) (files : List GeneratedFile)
    (place : List Text) : Option ByteArray :=
  ((lastAt? out t.here files place).map (·.content.utf8)).or (t.bytesAt place)

theorem lastAt?_append (here place : List Text) :
    lastAt? out here (files ++ more) place =
      (lastAt? out here more place).or (lastAt? out here files place) := by
  rw [lastAt?, List.reverse_append, List.find?_append]
  rfl

theorem lastAt?_eq_none_iff {here place : List Text} :
    lastAt? out here files place = none ↔ ∀ f ∈ files, (f.pathIn out).place here ≠ place := by
  simp [lastAt?]

/-! ### Writing -/

theorem bytesAt_of_write {f : GeneratedFile} (ht : t.Plain) (h : (f.write out).Done t () t')
    (place : List Text) : t'.bytesAt place = t.bytesAfter out [f] place := by
  have hedits := edits_of_write ht h
  unfold FileTree.bytesAfter
  by_cases hplace : (f.pathIn out).place t.here = place
  · have hlast : lastAt? out t.here [f] place = some f := by simp [lastAt?, hplace]
    have hbytes := (fresh_of_write ht h).bytesAt (hedits.plain ht)
    rw [hedits.here, hplace] at hbytes
    rw [hbytes, hlast]
    rfl
  · have hnone : lastAt? out t.here [f] place = none := by simp [lastAt?, hplace]
    rw [hnone]
    exact hedits.bytesAt_eq fun heq => hplace heq.symm

/-- What was written first stays where nothing is written afterwards. -/
theorem bytesAfter_append {u : FileTree} (hhere : u.here = t.here)
    (hu : ∀ place, u.bytesAt place = t.bytesAfter out files place) (place : List Text) :
    u.bytesAfter out more place = t.bytesAfter out (files ++ more) place := by
  unfold FileTree.bytesAfter
  rw [hhere, hu, FileTree.bytesAfter, lastAt?_append]
  cases lastAt? out t.here more place <;> rfl

theorem bytesAt_of_each (ht : t.Plain) (h : (Job.each (·.write out) files).Done t () t')
    (place : List Text) : t'.bytesAt place = t.bytesAfter out files place := by
  induction files generalizing t with
  | nil =>
    rw [Job.each] at h
    rw [← Job.done_pure h]
    rfl
  | cons f files ih =>
    rw [Job.each] at h
    obtain ⟨_, u, hfirst, hrest⟩ := Job.done_bind h
    have hedits := edits_of_write ht hfirst
    rw [ih (hedits.plain ht) hrest]
    exact bytesAfter_append hedits.here (bytesAt_of_write ht hfirst) place

theorem bytesAt_of_documents (ht : t.Plain) (h : (writeGenerated out files).Done t () t')
    (place : List Text) : t'.bytesAt place = t.bytesAfter out files place := by
  obtain ⟨made, hmade, hwritten⟩ := each_of_writeGenerated ht h
  rw [bytesAt_of_each (hmade.plain ht) hwritten, FileTree.bytesAfter, hmade.here,
    hmade.bytesAt_eq id]
  rfl

theorem bytesAt_of_each_batch {bs : List Batch} (ht : t.Plain)
    (h : (Job.each (Batch.write out files) bs).Done t () t') (place : List Text) :
    t'.bytesAt place = t.bytesAfter out (bs.flatMap (·.select files)) place := by
  induction bs generalizing t with
  | nil =>
    rw [Job.each] at h
    rw [← Job.done_pure h]
    rfl
  | cons b bs ih =>
    rw [Job.each] at h
    obtain ⟨_, u, hfirst, hrest⟩ := Job.done_bind h
    have hwritten := writeGenerated_of_batch hfirst
    have hedits := edits_of_writeGenerated ht hwritten
    rw [ih (hedits.plain ht) hrest, List.flatMap_cons]
    exact bytesAfter_append hedits.here (bytesAt_of_documents ht hwritten) place

/-! ### The order of the batches -/

/-- A path that is relative and never steps up. -/
def Path.Forward (p : Path) : Prop := p.isAbsolute = false ∧ Component.up ∉ p.components

instance (p : Path) : Decidable p.Forward := inferInstanceAs (Decidable (_ ∧ _))

theorem Path.Forward.staysIn {dir : Path} {d name : Text} (hdir : dir.components = [.name d])
    (h : (dir.child name).Forward) : (dir.child name).StaysIn dir := by
  have hrelative : Path.isAbsolute ⟨name⟩ = false := by
    by_contra habsolute
    rw [Bool.not_eq_false] at habsolute
    have hjoin := h.1
    rw [Path.child, Path.join, if_pos habsolute, habsolute] at hjoin
    cases hjoin
  refine ⟨h.1, ?_, h.2⟩
  rw [Path.child, Path.components_join (Path.text_ne_nil_of_components hdir) hrelative]
  exact List.prefix_append _ _

variable {r : Registry} {s : Settings}

theorem stays_of_forward (h : ∀ f ∈ r.documents s, f.path.Forward) :
    ∀ f ∈ r.documents s, f.Stays := by
  intro f hf
  have hforward := h f hf
  rcases mem_documents_iff.1 hf with ⟨t, -, format, rfl⟩ | ⟨c, -, format, rfl⟩
  · exact Or.inl (hforward.staysIn components_tablesDir)
  · exact Or.inr (hforward.staysIn components_classesDir)

/-- The batches write the documents in the order in which they are generated. -/
theorem flatMap_select_batches (h : ∀ f ∈ r.documents s, f.path.Forward) :
    batches.flatMap (·.select (r.documents s)) = r.documents s := by
  rw [flatMap_select_documents, List.filter_eq_self]
  intro f hf
  rw [(h f hf).1, Bool.not_false]

end LuaReference
