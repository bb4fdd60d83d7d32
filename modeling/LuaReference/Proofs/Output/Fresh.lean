import LuaReference.Proofs.Output.Confined

/-!
# Fresh documents

A document is fresh when its file has its content. A comparison finds no stale document exactly
when all documents that are not shadowed are fresh; writing a document makes it fresh, and it stays
so while no other file is written at its place.
-/

namespace LuaReference

open FileTree (Edits)

variable {t t' : FileTree} {out : Path} {here : List Text}

/-- The file of the document in the output directory has its content. -/
def GeneratedFile.Fresh (out : Path) (t : FileTree) (f : GeneratedFile) : Prop :=
  t.readBytes (f.pathIn out) = .ok f.content.utf8

/-! ### Comparing -/

theorem isFile_of_readBytes {p : Path} {bytes : ByteArray} (h : t.readBytes p = .ok bytes) :
    t.isFile p = true := by
  rw [FileTree.readBytes] at h
  rw [FileTree.isFile]
  split at h
  · cases h
  · next hentry => rw [hentry]
  · cases h

theorem currentText_eq_some_iff {p : Path} {text : Text} :
    t.currentText p = .ok (some text) ↔ t.readBytes p = .ok text.utf8 := by
  rw [FileTree.currentText, FileTree.readText]
  constructor
  · intro h
    split at h
    · cases hread : t.readBytes p with
      | error why =>
        rw [hread] at h
        cases h
      | ok bytes =>
        rw [hread] at h
        dsimp only at h
        cases htext : Text.ofUtf8? bytes with
        | none =>
          rw [htext] at h
          cases h
        | some text' =>
          rw [htext] at h
          cases h
          rw [Text.utf8_of_ofUtf8? htext]
    · cases h
  · intro h
    rw [if_pos (isFile_of_readBytes h), h]
    dsimp only
    rw [Text.ofUtf8?_utf8]

theorem stale_eq_nil_iff {shadowed : List Path} {files : List GeneratedFile} :
    t.stale out shadowed files = .ok [] ↔
      ∀ f ∈ files, shadowed.any f.path.agrees = true ∨ f.Fresh out t := by
  induction files with
  | nil => simp [FileTree.stale]
  | cons f files ih =>
    rw [FileTree.stale, List.forall_mem_cons, ← ih]
    by_cases hshadowed : shadowed.any f.path.agrees = true
    · rw [if_pos hshadowed, and_iff_right (Or.inl hshadowed)]
    · rw [if_neg hshadowed, or_iff_right hshadowed, GeneratedFile.Fresh, ← currentText_eq_some_iff]
      cases hcurrent : t.currentText (f.pathIn out) with
      | error e => simp
      | ok current =>
        dsimp only
        by_cases hsame : current = some f.content
        · rw [if_pos hsame, hsame, and_iff_right rfl]
        · rw [if_neg hsame]
          refine iff_of_false ?_ fun hboth => hsame (Except.ok.inj hboth.1)
          cases t.stale out shadowed files with
          | error e => exact fun h => nomatch h
          | ok ss => exact fun h => nomatch h

/-! ### Staying fresh -/

theorem GeneratedFile.Fresh.bytesAt {f : GeneratedFile} (h : f.Fresh out t) (ht : t.Plain) :
    t.bytesAt ((f.pathIn out).place t.here) = some f.content.utf8 :=
  ht.bytesAt_of_readBytes h

theorem GeneratedFile.Fresh.of_edits {files dirs : List Text → Prop} {f : GeneratedFile}
    (h : f.Fresh out t) (ht : t.Plain) (hedits : Edits files dirs t t')
    (hbytes : t'.bytesAt ((f.pathIn out).place t.here) = some f.content.utf8) :
    f.Fresh out t' :=
  ht.readBytes_of_bytesAt hedits.keepsDirectories hedits.here (hedits.plain ht) h hbytes

/-! ### Writing -/

/-- A written document is fresh. -/
theorem fresh_of_write {f : GeneratedFile} (ht : t.Plain) (h : (f.write out).Done t () t') :
    f.Fresh out t' := by
  rw [GeneratedFile.write] at h
  obtain ⟨_, made, hmade, h⟩ := Job.done_bind h
  obtain ⟨_, cleared, hcleared, h⟩ := Job.done_bind h
  obtain ⟨_, written, hwritten, hnote⟩ := Job.done_bind h
  obtain rfl := Job.done_note hnote
  have hmadeEdits := confined_makeParent t.here (f.pathIn out) t ht rfl
  rw [hmade.1] at hmadeEdits
  have hmadePlain := hmadeEdits.plain ht
  have hclearedEdits := confined_clearPath t.here (f.pathIn out) made hmadePlain hmadeEdits.here
  rw [hcleared.1] at hclearedEdits
  have hclearedPlain := hclearedEdits.plain hmadePlain
  exact hclearedPlain.readBytes_of_writeFile (Job.done_change hwritten)

/-- What writing a document does to a plain tree. -/
theorem edits_of_write {f : GeneratedFile} (ht : t.Plain) (h : (f.write out).Done t () t') :
    Edits (· = (f.pathIn out).place t.here) ((f.pathIn out).Passes t.here) t t' := by
  have hedits := confined_write t.here out f t ht rfl
  rw [h.1] at hedits
  exact hedits

/-- While documents are written at places of their own, a document that is fresh or is among them
ends up fresh. -/
theorem fresh_of_each_write {files : List GeneratedFile} {f : GeneratedFile} (ht : t.Plain)
    (hplaces : ∀ g ∈ files, (g.pathIn out).place t.here = (f.pathIn out).place t.here → g = f)
    (hf : f.Fresh out t ∨ f ∈ files) (h : (Job.each (·.write out) files).Done t () t') :
    f.Fresh out t' := by
  induction files generalizing t with
  | nil =>
    rw [Job.each] at h
    rw [← Job.done_pure h]
    exact hf.resolve_right List.not_mem_nil
  | cons g files ih =>
    rw [Job.each] at h
    obtain ⟨_, u, hfirst, hrest⟩ := Job.done_bind h
    obtain ⟨hg, hothers⟩ := List.forall_mem_cons.1 hplaces
    have hedits := edits_of_write ht hfirst
    rw [← hedits.here] at hothers
    refine ih (hedits.plain ht) hothers ?_ hrest
    by_cases hsame : g = f
    · exact Or.inl (hsame ▸ fresh_of_write ht hfirst)
    · rcases hf with hf | hf
      · have hbytes := hedits.bytesAt_eq fun hplace => hsame (hg hplace.symm)
        rw [hf.bytesAt ht] at hbytes
        exact Or.inl (hf.of_edits ht hedits hbytes)
      · exact Or.inr ((List.mem_cons.1 hf).resolve_left (Ne.symm hsame))

/-- While documents are written that are fresh already, every file keeps its bytes, apart from
those at some places. -/
theorem bytesAt_of_each_write {files : List GeneratedFile} {spare : List Text → Prop}
    (ht : t.Plain)
    (hfiles : ∀ f ∈ files, spare ((f.pathIn out).place t.here) ∨
      t.bytesAt ((f.pathIn out).place t.here) = some f.content.utf8)
    (h : (Job.each (·.write out) files).Done t () t') {place : List Text} (hplace : ¬ spare place) :
    t'.bytesAt place = t.bytesAt place := by
  induction files generalizing t with
  | nil =>
    rw [Job.each] at h
    rw [← Job.done_pure h]
  | cons g files ih =>
    rw [Job.each] at h
    obtain ⟨_, u, hfirst, hrest⟩ := Job.done_bind h
    obtain ⟨hg, hothers⟩ := List.forall_mem_cons.1 hfiles
    have hedits := edits_of_write ht hfirst
    have hkept : ∀ x, ¬ spare x → u.bytesAt x = t.bytesAt x := by
      intro x hx
      by_cases hsame : x = (g.pathIn out).place t.here
      · subst hsame
        have hfresh := (fresh_of_write ht hfirst).bytesAt (hedits.plain ht)
        rw [hedits.here] at hfresh
        rw [hfresh, hg.resolve_left hx]
      · exact hedits.bytesAt_eq hsame
    rw [← hkept place hplace]
    refine ih (hedits.plain ht) ?_ hrest
    intro f hf
    rw [hedits.here]
    by_cases hspare : spare ((f.pathIn out).place t.here)
    · exact Or.inl hspare
    · rw [hkept _ hspare]
      exact hothers f hf

/-! ### All documents -/

theorem edits_of_writeGenerated {files : List GeneratedFile} (ht : t.Plain)
    (h : (writeGenerated out files).Done t () t') :
    Edits (fun x => ∃ f ∈ files, x = (f.pathIn out).place t.here)
      (fun x => OnTheWay out t.here x ∨ ∃ f ∈ files, (f.pathIn out).Passes t.here x) t t' := by
  have hedits := confined_writeGenerated t.here out files t ht rfl
  rw [h.1] at hedits
  exact hedits

/-- The two directories are made first, which changes no file. -/
theorem each_of_writeGenerated {files : List GeneratedFile} (ht : t.Plain)
    (h : (writeGenerated out files).Done t () t') :
    ∃ made, Edits (fun _ => False) (OnTheWay out t.here) t made ∧
      (Job.each (·.write out) files).Done made () t' := by
  rw [writeGenerated] at h
  obtain ⟨_, first, hfirst, h⟩ := Job.done_bind h
  obtain ⟨_, made, hmade, h⟩ := Job.done_bind h
  have htables := ht.edits_makeDirectories (out.join tablesDir)
  rw [Job.done_changes hfirst] at htables
  have hclasses := (htables.plain ht).edits_makeDirectories (out.join classesDir)
  rw [Job.done_changes hmade, htables.here] at hclasses
  refine ⟨made, ?_, h⟩
  exact (htables.mono (fun _ => id) fun _ => Or.inl).trans
    (hclasses.mono (fun _ => id) fun _ => Or.inr)

theorem fresh_of_writeGenerated {files : List GeneratedFile} {f : GeneratedFile} (ht : t.Plain)
    (hplaces : ∀ g ∈ files, (g.pathIn out).place t.here = (f.pathIn out).place t.here → g = f)
    (hf : f.Fresh out t ∨ f ∈ files) (h : (writeGenerated out files).Done t () t') :
    f.Fresh out t' := by
  obtain ⟨made, hmade, hwritten⟩ := each_of_writeGenerated ht h
  rw [← hmade.here] at hplaces
  refine fresh_of_each_write (hmade.plain ht) hplaces ?_ hwritten
  rcases hf with hf | hf
  · have hbytes : made.bytesAt ((f.pathIn out).place t.here) = some f.content.utf8 := by
      rw [hmade.bytesAt_eq id, hf.bytesAt ht]
    exact Or.inl (hf.of_edits ht hmade hbytes)
  · exact Or.inr hf

theorem bytesAt_of_writeGenerated {files : List GeneratedFile} {spare : List Text → Prop}
    (ht : t.Plain)
    (hfiles : ∀ f ∈ files, spare ((f.pathIn out).place t.here) ∨
      t.bytesAt ((f.pathIn out).place t.here) = some f.content.utf8)
    (h : (writeGenerated out files).Done t () t') {place : List Text} (hplace : ¬ spare place) :
    t'.bytesAt place = t.bytesAt place := by
  obtain ⟨made, hmade, hwritten⟩ := each_of_writeGenerated ht h
  have hsame : ∀ x, made.bytesAt x = t.bytesAt x := fun x => hmade.bytesAt_eq id
  rw [← hsame place]
  refine bytesAt_of_each_write (hmade.plain ht) ?_ hwritten hplace
  intro f hf
  rw [hmade.here, hsame]
  exact hfiles f hf

end LuaReference
