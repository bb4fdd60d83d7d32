import LuaReference.Proofs.Files.Reach

/-!
# One file put in its place

What single operations do to the files of a tree that may have links: making directories changes
no file, and writing or copying puts one file where the path leads to. A file that is removed so
that another can be written can always be replaced: `exists_writeFile_of_removeFile`.
-/

namespace LuaReference

namespace FileTree

/-- The same files are at the same places, and directories are where they were. -/
structure SameFiles (t t' : FileTree) : Prop where
  here : t'.here = t.here
  directories : ∀ names d, t.entry? names = some (.directory d) →
    ∃ d', t'.entry? names = some (.directory d')
  bytesAt : ∀ place, t'.bytesAt place = t.bytesAt place

/-- The path leads to a file with these bytes now, and every other file is as it was. -/
structure Puts (t : FileTree) (p : Path) (place : List Text) (bytes : ByteArray)
    (t' : FileTree) : Prop where
  leads : t'.locate .target p = .ok (.found place (.file bytes))
  others : ∀ x, x ≠ place → t'.bytesAt x = t.bytesAt x

variable {t t' u : FileTree} {place : List Text} {p : Path} {bytes : ByteArray}

theorem SameFiles.refl (t : FileTree) : t.SameFiles t :=
  ⟨rfl, fun _ d hd => ⟨d, hd⟩, fun _ => rfl⟩

theorem SameFiles.trans {v : FileTree} (h : t.SameFiles u) (h' : u.SameFiles v) :
    t.SameFiles v where
  here := h'.here.trans h.here
  directories := by
    intro names d hd
    obtain ⟨d', hd'⟩ := h.directories names d hd
    exact h'.directories names d' hd'
  bytesAt := fun x => (h'.bytesAt x).trans (h.bytesAt x)

theorem SameFiles.settled (h : t.SameFiles t') (ht : t.Settled) : t'.Settled := by
  obtain ⟨d, hd⟩ := ht
  rw [Settled, h.here]
  exact h.directories t.here d hd

theorem Puts.bytesAt (h : t.Puts p place bytes t') : t'.bytesAt place = some bytes :=
  bytesAt_eq_some_iff.2 (locate_holds h.leads)

/-! ### Directories -/

theorem exists_directory_of_shape {e e' : Option Entry} {d : Directory}
    (h : e.map Entry.shape = e'.map Entry.shape) (hd : e = some (.directory d)) :
    ∃ d', e' = some (.directory d') := by
  rw [hd] at h
  obtain ⟨found, rfl, hshape⟩ := Option.map_eq_some_iff.1 h.symm
  cases found with
  | directory d' => exact ⟨d', rfl⟩
  | file bytes => cases hshape
  | link target => cases hshape

theorem bytesAt_newDirectory (hnone : t.entry? place = none) (x : List Text) :
    FileTree.bytesAt (t.setEntry place (some (.directory .empty))) x = t.bytesAt x := by
  have hkeeps : ∀ y, y ≠ place →
      (FileTree.entry? (t.setEntry place (some (.directory .empty))) y).map Entry.shape =
        (t.entry? y).map Entry.shape :=
    fun y => shape_entry?_setEntry Entry.bare_newDirectory (not_directory_of_none hnone)
  by_cases hx : x = place
  · subst hx
    have hbefore : t.bytesAt x = none := by rw [bytesAt, hnone]
    rw [hbefore, Option.eq_none_iff_forall_ne_some]
    intro bytes hbytes
    rw [bytesAt_eq_some_iff] at hbytes
    obtain rfl | ⟨above, name, rfl⟩ := List.eq_nil_or_concat x
    · cases hnone
    -- a file there would have a directory above it, and then the new directory is there
    rw [List.concat_eq_append] at hnone hkeeps hbytes
    obtain ⟨d', hd'⟩ := Entry.exists_directory_of_at? hbytes
    obtain ⟨d, hd⟩ := exists_directory_of_shape (hkeeps above (by simp)) hd'
    have hself := Entry.at?_setAt_self (.directory .empty) above name t.top hd
    cases hself.symm.trans hbytes
  · exact bytesAt_congr (hkeeps x hx)

theorem sameFiles_makeDirectory (h : t.makeDirectory p = .ok t') : t.SameFiles t' := by
  rw [makeDirectory] at h
  split at h
  · cases h
  · cases h
  · next names name hl =>
    cases h
    have hnone : t.entry? (names ++ [name]) = none := locate_holds hl
    exact ⟨rfl, directories_setEntry Entry.bare_newDirectory (not_directory_of_none hnone),
      bytesAt_newDirectory hnone⟩

theorem sameFiles_makeChain (t : FileTree) (ps : List Path) : t.SameFiles (t.makeChain ps).1 := by
  induction ps with
  | nil => exact .refl t
  | cons p above ih =>
    rw [makeChain]
    split
    · exact .refl t
    split
    · next hmade => exact sameFiles_makeDirectory hmade
    · cases hc : t.makeChain above with
      | mk ready result =>
        rw [hc] at ih
        cases result with
        | error why => exact ih
        | ok _ =>
          dsimp only
          split
          · next hmade => exact ih.trans (sameFiles_makeDirectory hmade)
          · exact ih
    · exact .refl t

theorem sameFiles_makeDirectories (t : FileTree) (p : Path) :
    t.SameFiles (t.makeDirectories p).1 :=
  sameFiles_makeChain t p.ancestors

/-! ### Files -/

theorem readBytes_eq_ok_iff :
    t.readBytes p = .ok bytes ↔ ∃ place, t.locate .target p = .ok (.found place (.file bytes)) := by
  constructor
  · intro h
    rw [readBytes, entry] at h
    cases hl : t.locate .target p with
    | error why =>
      rw [hl] at h
      cases h
    | ok l =>
      rw [hl] at h
      cases l with
      | vacant names name => cases h
      | found place e =>
        cases e with
        | file old =>
          cases h
          exact ⟨place, rfl⟩
        | link target => cases h
        | directory d => cases h
  · rintro ⟨place, hl⟩
    exact readBytes_of_locate hl

theorem Open.not_directory (h : t.Open place) (d : Directory) :
    t.entry? place ≠ some (.directory d) := by
  intro hd
  obtain ⟨old, hold⟩ := h _ hd
  cases hold

theorem keepsWays_setEntry (h : t.Open place) (v : Option ByteArray) :
    t.KeepsWays (t.setEntry place (v.map .file)) := by
  refine ⟨rfl, directories_setEntry (Entry.bare_file v) h.not_directory, ?_⟩
  intro names target hlink
  have hne : names ≠ place := by
    rintro rfl
    obtain ⟨old, hold⟩ := h _ hlink
    cases hold
  have hshape := shape_entry?_setEntry (Entry.bare_file v) h.not_directory hne
  rw [hlink] at hshape
  obtain ⟨e, he, hshape⟩ := Option.map_eq_some_iff.1 hshape
  cases e with
  | link target' =>
    cases hshape
    exact he
  | file old => cases hshape
  | directory d => cases hshape

theorem Slot.entry?_setEntry (ht : t.Settled) (h : t.Slot p place) (bytes : ByteArray) :
    FileTree.entry? (t.setEntry place (some (.file bytes))) place = some (.file bytes) := by
  obtain ⟨above, name, d, rfl, hd⟩ := h.exists_directory ht
  exact Entry.at?_setAt_self (.file bytes) above name t.top hd

/-- A path to a place for a file leads to the file that is put there. -/
theorem Slot.puts (ht : t.Settled) (h : t.Slot p place) (hopen : t.Open place)
    (bytes : ByteArray) : t.Puts p place bytes (t.setEntry place (some (.file bytes))) := by
  have hslot := h.mono (keepsWays_setEntry hopen (some bytes))
  refine ⟨hslot.locate_file (by decide) (h.entry?_setEntry ht bytes), ?_⟩
  intro x hx
  exact bytesAt_congr (shape_entry?_setEntry (Entry.bare_file (some bytes)) hopen.not_directory hx)

theorem puts_of_writeFile (ht : t.Settled) (h : t.writeFile p bytes = .ok t') :
    t'.Settled ∧ ∃ place, t.Puts p place bytes t' := by
  obtain ⟨place, hslot, hopen, rfl⟩ := (writeFile_eq_ok_iff ht).1 h
  exact ⟨ht.mono (keepsWays_setEntry hopen (some bytes)), place, hslot.puts ht hopen bytes⟩

theorem entry?_setEntry_none (t : FileTree) (above : List Text) (name : Text) :
    FileTree.entry? (t.setEntry (above ++ [name]) none) (above ++ [name]) = none :=
  Entry.at?_setAt_none_self above name t.top

/-- Removing an entry takes no file away, or a file can be written in its place. -/
theorem exists_writeFile_of_removeFile (ht : t.Settled) (h : t.removeFile p = .ok u)
    (bytes : ByteArray) : t.SameFiles u ∨
      ∃ t' place, u.writeFile p bytes = .ok t' ∧ t'.Settled ∧ t.Puts p place bytes t' := by
  rw [removeFile] at h
  split at h
  · cases h
  · cases h
  · cases h
  next place e hdir hl =>
  cases h
  have hplace : t.entry? place = some e := locate_holds hl
  cases e with
  | directory d => exact absurd rfl (hdir d)
  | link target =>
    left
    have hnot := not_directory_of_ne hplace hdir
    refine ⟨rfl, directories_setEntry (Entry.bare_file none) hnot, fun x => ?_⟩
    by_cases hx : x = place
    · subst hx
      obtain rfl | ⟨above, name, rfl⟩ := List.eq_nil_or_concat x
      · obtain ⟨d, hd⟩ := ht
        obtain ⟨d', hd'⟩ := exists_directory_of_prefix (List.nil_append t.here ▸ hd)
        exact absurd hd' (hnot d')
      · rw [List.concat_eq_append] at hplace ⊢
        have hbefore : t.bytesAt (above ++ [name]) = none := by rw [bytesAt, hplace]
        have hafter : FileTree.bytesAt (t.setEntry (above ++ [name]) none) (above ++ [name]) =
            none := by
          rw [bytesAt, entry?_setEntry_none]
        exact hafter.trans hbefore.symm
    · exact bytesAt_congr (shape_entry?_setEntry (Entry.bare_file none) hnot hx)
  | file old =>
    right
    have hopen : t.Open place := fun e he => ⟨old, Option.some.inj (he.symm.trans hplace)⟩
    have hways := keepsWays_setEntry hopen none
    have hslot := (slot_of_locate_file ht hl).mono hways
    have hsettled := ht.mono hways
    have hfree : FileTree.Open (t.setEntry place none) place := by
      obtain ⟨above, name, -, rfl, -⟩ := hslot.exists_directory hsettled
      intro e he
      cases (entry?_setEntry_none t above name).symm.trans he
    have hputs := hslot.puts hsettled hfree bytes
    refine ⟨_, place, hslot.writeFile hfree bytes,
      hsettled.mono (keepsWays_setEntry hfree (some bytes)), hputs.leads,
      fun x hx => (hputs.others x hx).trans ?_⟩
    exact bytesAt_congr (shape_entry?_setEntry (Entry.bare_file none) hopen.not_directory hx)

/-- A copy puts the bytes of the source at the destination; a file that is copied onto itself is
emptied first. -/
theorem puts_of_copyFile {source destination : Path} (ht : t.Settled)
    (h : t.copyFile source destination = .ok t') :
    t'.Settled ∧ ∃ origin old place, t.locate .target source = .ok (.found origin (.file old)) ∧
      t.Puts destination place (if origin = place then .empty else old) t' := by
  rw [copyFile] at h
  cases hread : t.readBytes source with
  | error why =>
    rw [hread] at h
    cases h
  | ok old =>
    cases hempty : t.writeFile destination .empty with
    | error why =>
      rw [hread, hempty] at h
      cases h
    | ok opened =>
      obtain ⟨origin, hsource⟩ := readBytes_eq_ok_iff.1 hread
      have horigin : t.entry? origin = some (.file old) := locate_holds hsource
      obtain ⟨place, hslot, hopen, rfl⟩ := (writeFile_eq_ok_iff ht).1 hempty
      have hways : t.KeepsWays (t.setEntry place (some (.file .empty))) :=
        keepsWays_setEntry hopen (some .empty)
      have hsettled := ht.mono hways
      -- the source is still found, and is empty now when it is the destination
      have hfile : FileTree.entry? (t.setEntry place (some (.file .empty))) origin =
          some (.file (if origin = place then .empty else old)) := by
        by_cases hsame : origin = place
        · rw [if_pos hsame, hsame]
          exact hslot.entry?_setEntry ht .empty
        · rw [if_neg hsame, ← bytesAt_eq_some_iff, ← bytesAt_eq_some_iff.2 horigin]
          exact (hslot.puts ht hopen .empty).others origin hsame
      have hbytes := readBytes_of_locate
        (((slot_of_locate_file ht hsource).mono hways).locate_file (by decide) hfile)
      have hnow : FileTree.Open (t.setEntry place (some (.file .empty))) place := fun e he =>
        ⟨.empty, Option.some.inj (he.symm.trans (hslot.entry?_setEntry ht .empty))⟩
      have hagain := hslot.mono hways
      rw [hread, hempty] at h
      dsimp only at h
      rw [hbytes] at h
      obtain rfl := Except.ok.inj ((hagain.writeFile hnow _).symm.trans h)
      have hputs := hagain.puts hsettled hnow (if origin = place then .empty else old)
      refine ⟨hsettled.mono (keepsWays_setEntry hnow (some _)), origin, old, place, hsource,
        hputs.leads, fun x hx => (hputs.others x hx).trans ?_⟩
      exact (hslot.puts ht hopen .empty).others x hx

end FileTree

end LuaReference
