import LuaReference.Proofs.Files.Standing
import LuaReference.Proofs.Output.Fresh

/-!
# Writing the documents again

A job repeats when, after it came to its end, it comes to its end again as long as what it left is
still there. Writing documents repeats, since a document is cleared away before it is written, and
a directory that is there is not made again.
-/

namespace LuaReference

open FileTree (Edits)

variable {t t' : FileTree} {p : Path}

namespace Job

/-- The job loses no file and no directory, and comes to its end wherever persists what it left
when it came to its end before. -/
structure Repeats (j : Job Unit) : Prop where
  persists : ∀ {t t'}, t.Plain → j.Done t () t' → t'.Plain ∧ t.Persists t'
  again : ∀ {t t' v}, t.Plain → j.Done t () t' → v.Plain → t'.Persists v → ∃ v', j.Done v () v'

theorem repeats_pure : Repeats (pure ()) where
  persists := by
    intro t t' ht h
    obtain rfl := done_pure h
    exact ⟨ht, .refl t⟩
  again := fun _ _ _ _ => ⟨_, pure_done () _⟩

theorem repeats_note (n : Notice) : Repeats (note n) where
  persists := by
    intro t t' ht h
    obtain rfl := done_note h
    exact ⟨ht, .refl t⟩
  again := fun _ _ _ _ => ⟨_, note_done n _⟩

theorem repeats_bind {j k : Job Unit} (hj : j.Repeats) (hk : k.Repeats) :
    Repeats (j >>= fun _ => k) where
  persists := by
    intro t t' ht h
    obtain ⟨_, u, hfirst, hlast⟩ := done_bind h
    obtain ⟨hu, htu⟩ := hj.persists ht hfirst
    obtain ⟨ht', hut⟩ := hk.persists hu hlast
    exact ⟨ht', htu.trans hut⟩
  again := by
    intro t t' v ht h hv hpersists
    obtain ⟨_, u, hfirst, hlast⟩ := done_bind h
    obtain ⟨hu, -⟩ := hj.persists ht hfirst
    obtain ⟨-, hut⟩ := hk.persists hu hlast
    obtain ⟨w, hw⟩ := hj.again ht hfirst hv (hut.trans hpersists)
    obtain ⟨hplain, hvw⟩ := hj.persists hv hw
    obtain ⟨v', hv'⟩ := hk.again hu hlast hplain (hpersists.trans hvw)
    exact ⟨v', hw.bind hv'⟩

theorem repeats_each {α : Type} {f : α → Job Unit} {as : List α} (hf : ∀ a, (f a).Repeats) :
    Repeats (each f as) := by
  induction as with
  | nil => exact repeats_pure
  | cons a as ih => exact repeats_bind (hf a) ih

theorem repeats_makeDirectories (p : Path) : Repeats (changes (FileTree.makeDirectories p)) where
  persists := by
    intro t t' ht h
    have hedits := ht.edits_makeDirectories p
    rw [done_changes h] at hedits
    refine ⟨hedits.plain ht, .of_edits hedits fun place bytes hbytes => ⟨bytes, ?_⟩⟩
    rw [hedits.bytesAt_eq id]
    exact hbytes
  again := by
    intro t t' v ht h hv hpersists
    have hedits := ht.edits_makeDirectories p
    rw [done_changes h] at hedits
    have hready := ht.ready_of_makeDirectories (done_changes_iff.1 h)
    have hstands := hpersists.ready (hedits.plain ht) hv hready
    exact ⟨v, done_changes_iff.2 (hv.makeDirectories_of_ready hstands)⟩

end Job

/-! ### One document -/

theorem repeats_makeParent (p : Path) : (makeParent p).Repeats := by
  rw [makeParent]
  cases p.parent? with
  | none => exact Job.repeats_pure
  | some dir => exact Job.repeats_makeDirectories dir

/-- What is at a path cleared away, and a file written there. -/
def rewriteFile (p : Path) (bytes : ByteArray) (n : Notice) : Job Unit := do
  clearPath p
  .change (FileTree.writeFile p bytes)
  .note n

theorem write_eq (out : Path) (f : GeneratedFile) :
    f.write out = (do
      makeParent (f.pathIn out)
      rewriteFile (f.pathIn out) f.content.utf8 (.event (.wroteDocument (f.pathIn out)))) := rfl

variable {bytes : ByteArray} {n : Notice}

theorem edits_of_rewriteFile (ht : t.Plain) (h : (rewriteFile p bytes n).Done t () t') :
    Edits (· = p.place t.here) (fun _ => False) t t' := by
  have hconfined : Job.Confined t.here (· = p.place t.here) (fun _ => False)
      (rewriteFile p bytes n) := by
    refine Job.confined_bind (confined_clearPath t.here p) fun _ => ?_
    refine Job.confined_bind (confined_writeFile t.here p bytes) fun _ => ?_
    exact Job.confined_note n
  have hedits := hconfined t ht rfl
  rw [h.1] at hedits
  exact hedits

theorem readBytes_of_rewriteFile (ht : t.Plain) (h : (rewriteFile p bytes n).Done t () t') :
    t'.readBytes p = .ok bytes := by
  rw [rewriteFile] at h
  obtain ⟨_, cleared, hcleared, h⟩ := Job.done_bind h
  obtain ⟨_, written, hwritten, hnote⟩ := Job.done_bind h
  obtain rfl := Job.done_note hnote
  have hedits := confined_clearPath t.here p t ht rfl
  rw [hcleared.1] at hedits
  exact (hedits.plain ht).readBytes_of_writeFile (Job.done_change hwritten)

/-- A file is cleared away before it is written, so where there is one it can be written again. -/
theorem exists_rewritten (ht : t.Plain) {old : ByteArray} (hread : t.readBytes p = .ok old)
    (bytes : ByteArray) (n : Notice) : ∃ t', (rewriteFile p bytes n).Done t () t' := by
  obtain ⟨cleared, hremoved, hnone⟩ := ht.exists_removeFile hread
  have hedits := ht.edits_removeFile hremoved
  have hfree : ∀ e, cleared.entry? (p.place t.here) = some e → ∃ bytes', e = .file bytes' := by
    intro e he
    rw [hnone] at he
    cases he
  obtain ⟨t', hwritten⟩ :=
    ht.exists_writeFile hread hedits.keepsDirectories hedits.here hfree bytes
  have hpresent : t.isPresent p = true := by
    rw [FileTree.isPresent, ht.entry_eq_ok_iff.2 (ht.readBytes_eq_ok_iff.1 hread)]
    rfl
  have hasked : (Job.reading fun t => .done (t.isPresent p)).Done t true t :=
    Job.reading_done (congrArg Except.ok hpresent)
  have hcleared : (clearPath p).Done t () cleared := hasked.bind (Job.change_done hremoved)
  exact ⟨t', hcleared.bind ((Job.change_done hwritten).bind (Job.note_done n t'))⟩

theorem repeats_rewriteFile (p : Path) (bytes : ByteArray) (n : Notice) :
    (rewriteFile p bytes n).Repeats where
  persists := by
    intro t t' ht h
    have hedits := edits_of_rewriteFile ht h
    refine ⟨hedits.plain ht, .of_edits hedits fun place old hold => ?_⟩
    by_cases hplace : place = p.place t.here
    · have hbytes := (hedits.plain ht).bytesAt_of_readBytes (readBytes_of_rewriteFile ht h)
      rw [hedits.here, ← hplace] at hbytes
      exact ⟨bytes, hbytes⟩
    · exact ⟨old, (hedits.bytesAt_eq hplace).trans hold⟩
  again := by
    intro t t' v ht h hv hpersists
    have hplain := (edits_of_rewriteFile ht h).plain ht
    obtain ⟨old, hold⟩ := hpersists.readBytes hplain hv (readBytes_of_rewriteFile ht h)
    exact exists_rewritten hv hold bytes n

/-! ### All documents -/

theorem repeats_write (out : Path) (f : GeneratedFile) : (f.write out).Repeats := by
  rw [write_eq]
  exact Job.repeats_bind (repeats_makeParent _) (repeats_rewriteFile _ _ _)

theorem repeats_writeGenerated (out : Path) (files : List GeneratedFile) :
    (writeGenerated out files).Repeats := by
  refine Job.repeats_bind (Job.repeats_makeDirectories _) ?_
  refine Job.repeats_bind (Job.repeats_makeDirectories _) ?_
  exact Job.repeats_each (repeats_write out)

theorem isDirectory_of_writeGenerated {out : Path} {files : List GeneratedFile} (ht : t.Plain)
    (h : (writeGenerated out files).Done t () t') :
    t'.isDirectory (out.join tablesDir) = true ∧ t'.isDirectory (out.join classesDir) = true := by
  rw [writeGenerated] at h
  obtain ⟨_, first, hfirst, h⟩ := Job.done_bind h
  obtain ⟨_, made, hmade, hwritten⟩ := Job.done_bind h
  obtain ⟨hplain, -⟩ := (Job.repeats_makeDirectories _).persists ht hfirst
  obtain ⟨hplain', hmore⟩ := (Job.repeats_makeDirectories _).persists hplain hmade
  obtain ⟨ht', hrest⟩ := (Job.repeats_each (repeats_write out)).persists hplain' hwritten
  have htables := ht.ready_of_makeDirectories (Job.done_changes_iff.1 hfirst)
  have hclasses := hplain.ready_of_makeDirectories (Job.done_changes_iff.1 hmade)
  have hlast := (hmore.trans hrest).isDirectory hplain ht'
    (htables.resolve_left (out.text_child_ne_nil (by decide)))
  exact ⟨hlast, hrest.isDirectory hplain' ht'
    (hclasses.resolve_left (out.text_child_ne_nil (by decide)))⟩

end LuaReference
