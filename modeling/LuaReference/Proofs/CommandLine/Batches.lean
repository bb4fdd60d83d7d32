import LuaReference.Proofs.CommandLine.Runs
import LuaReference.Proofs.Output.Fresh

/-!
# Writing in batches

The generated documents are written in four batches. What writing them in one go does to a plain
tree, writing them in batches does as well.
-/

namespace LuaReference

open FileTree (Edits)
open Arguments (Batch)

variable {t t' : FileTree} {out : Path} {files : List GeneratedFile} {bs : List Batch}

theorem mem_of_mem_select {b : Batch} {f : GeneratedFile} (h : f ∈ b.select files) : f ∈ files :=
  List.mem_of_mem_filter h

theorem exists_batch_for (format : Format) :
    (∃ b ∈ Arguments.batches, b.dir = tablesDir ∧ b.format = format) ∧
      ∃ b ∈ Arguments.batches, b.dir = classesDir ∧ b.format = format := by
  cases format <;> decide

theorem exists_batch {f : GeneratedFile} (hf : f ∈ files) (hstays : f.Stays) :
    ∃ b ∈ Arguments.batches, f ∈ b.select files := by
  have hselect : ∀ b : Batch, b.format = f.format → f.path.StaysIn b.dir → f ∈ b.select files := by
    intro b hformat hdir
    have hstarts : f.path.startsWith b.dir = true := List.isPrefixOf_iff_prefix.2 hdir.begins
    exact List.mem_filter.2 ⟨hf, by simp [hformat, hstarts]⟩
  obtain ⟨⟨b, hb, hdir, hformat⟩, c, hc, hdir', hformat'⟩ := exists_batch_for f.format
  rcases hstays with hstays | hstays
  · exact ⟨b, hb, hselect b hformat (hdir ▸ hstays)⟩
  · exact ⟨c, hc, hselect c hformat' (hdir' ▸ hstays)⟩

theorem writeGenerated_of_batch {b : Batch} (h : (b.write out files).Done t () t') :
    (writeGenerated out (b.select files)).Done t () t' := by
  rw [Batch.write] at h
  obtain ⟨_, written, hwritten, hnote⟩ := Job.done_bind h
  exact Job.done_note hnote ▸ hwritten

theorem edits_of_batches (ht : t.Plain)
    (h : (Job.each (Batch.write out files) bs).Done t () t') :
    Edits (fun x => ∃ f ∈ files, x = (f.pathIn out).place t.here)
      (fun x => OnTheWay out t.here x ∨ ∃ f ∈ files, (f.pathIn out).Passes t.here x) t t' := by
  induction bs generalizing t with
  | nil =>
    rw [Job.each] at h
    rw [← Job.done_pure h]
    exact .refl
  | cons b bs ih =>
    rw [Job.each] at h
    obtain ⟨_, u, hfirst, hrest⟩ := Job.done_bind h
    have hedits := edits_of_writeGenerated ht (writeGenerated_of_batch hfirst)
    have hlast := ih (hedits.plain ht) hrest
    rw [hedits.here] at hlast
    refine (hedits.mono ?_ ?_).trans hlast
    · rintro x ⟨f, hf, hx⟩
      exact ⟨f, mem_of_mem_select hf, hx⟩
    · rintro x (hway | ⟨f, hf, hx⟩)
      · exact Or.inl hway
      · exact Or.inr ⟨f, mem_of_mem_select hf, hx⟩

/-- A document in one of the batches is fresh when all are written. -/
theorem fresh_of_batches {f : GeneratedFile} (ht : t.Plain)
    (hplaces : ∀ g ∈ files, (g.pathIn out).place t.here = (f.pathIn out).place t.here → g = f)
    (hf : f.Fresh out t ∨ ∃ b ∈ bs, f ∈ b.select files)
    (h : (Job.each (Batch.write out files) bs).Done t () t') : f.Fresh out t' := by
  induction bs generalizing t with
  | nil =>
    rw [Job.each] at h
    rw [← Job.done_pure h]
    rcases hf with hf | ⟨b, hb, -⟩
    · exact hf
    · exact absurd hb List.not_mem_nil
  | cons b bs ih =>
    rw [Job.each] at h
    obtain ⟨_, u, hfirst, hrest⟩ := Job.done_bind h
    have hwritten := writeGenerated_of_batch hfirst
    have hedits := edits_of_writeGenerated ht hwritten
    have hselected : ∀ g ∈ b.select files,
        (g.pathIn out).place t.here = (f.pathIn out).place t.here → g = f :=
      fun g hg => hplaces g (mem_of_mem_select hg)
    have hnow : f.Fresh out t ∨ f ∈ b.select files → f.Fresh out u :=
      fun hf => fresh_of_writeGenerated ht hselected hf hwritten
    refine ih (hedits.plain ht) (hedits.here.symm ▸ hplaces) ?_ hrest
    rcases hf with hf | ⟨b', hb', hf⟩
    · exact Or.inl (hnow (Or.inl hf))
    · rcases List.mem_cons.1 hb' with rfl | hb'
      · exact Or.inl (hnow (Or.inr hf))
      · exact Or.inr ⟨b', hb', hf⟩

/-- Batches of documents that are fresh already change no bytes, apart from those at some
places. -/
theorem bytesAt_of_batches (spare : List Text → Prop) (ht : t.Plain)
    (hfiles : ∀ f ∈ files, spare ((f.pathIn out).place t.here) ∨
      t.bytesAt ((f.pathIn out).place t.here) = some f.content.utf8)
    (h : (Job.each (Batch.write out files) bs).Done t () t') {place : List Text}
    (hplace : ¬ spare place) : t'.bytesAt place = t.bytesAt place := by
  induction bs generalizing t with
  | nil =>
    rw [Job.each] at h
    rw [← Job.done_pure h]
  | cons b bs ih =>
    rw [Job.each] at h
    obtain ⟨_, u, hfirst, hrest⟩ := Job.done_bind h
    have hwritten := writeGenerated_of_batch hfirst
    have hedits := edits_of_writeGenerated ht hwritten
    have hselected := fun f hf => hfiles f (mem_of_mem_select (b := b) hf)
    have hkept : ∀ x, ¬ spare x → u.bytesAt x = t.bytesAt x :=
      fun x hx => bytesAt_of_writeGenerated ht hselected hwritten hx
    rw [← hkept place hplace]
    refine ih (hedits.plain ht) ?_ hrest
    intro f hf
    rw [hedits.here]
    by_cases hspare : spare ((f.pathIn out).place t.here)
    · exact Or.inl hspare
    · rw [hkept _ hspare]
      exact hfiles f hf

end LuaReference
