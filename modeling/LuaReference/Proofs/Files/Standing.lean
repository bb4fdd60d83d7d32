import LuaReference.Proofs.Files.Edits

/-!
# What stands already

Where a path leads to a file or a directory, the operations that make one there succeed: a file is
written again, and a directory is not made again. A tree persists in another one when its
directories and files are there too, with whatever bytes; then its paths lead there as well.
-/

namespace LuaReference

namespace FileTree

variable {t t' w : FileTree} {p : Path} {names steps place : List Text} {bytes : ByteArray}

/-! ### Persisting -/

/-- The directories and files of the one tree are directories and files of the other. -/
structure Persists (t t' : FileTree) : Prop where
  directories : t.KeepsDirectories t'
  files : ∀ place bytes, t.bytesAt place = some bytes → ∃ bytes', t'.bytesAt place = some bytes'
  here : t'.here = t.here

namespace Persists

theorem refl (t : FileTree) : t.Persists t := ⟨fun _ d hd => ⟨d, hd⟩, fun _ b hb => ⟨b, hb⟩, rfl⟩

theorem trans (h : t.Persists t') (h' : t'.Persists w) : t.Persists w where
  directories := h.directories.trans h'.directories
  files := by
    intro place bytes hbytes
    obtain ⟨bytes', hbytes'⟩ := h.files place bytes hbytes
    exact h'.files place bytes' hbytes'
  here := h'.here.trans h.here

theorem of_edits {files dirs : List Text → Prop} (h : Edits files dirs t t')
    (hfiles : ∀ place bytes, t.bytesAt place = some bytes →
      ∃ bytes', t'.bytesAt place = some bytes') : t.Persists t' :=
  ⟨h.keepsDirectories, hfiles, h.here⟩

theorem isDirectory (h : t.Persists t') (ht : t.Plain) (ht' : t'.Plain)
    (hp : t.isDirectory p = true) : t'.isDirectory p = true :=
  ht.isDirectory_mono ht' h.directories h.here hp

theorem readBytes (h : t.Persists t') (ht : t.Plain) (ht' : t'.Plain)
    (hp : t.readBytes p = .ok bytes) : ∃ bytes', t'.readBytes p = .ok bytes' := by
  obtain ⟨bytes', hbytes'⟩ := h.files _ bytes (ht.bytesAt_of_readBytes hp)
  exact ⟨bytes', ht.readBytes_of_bytesAt h.directories h.here ht' hp hbytes'⟩

end Persists

/-! ### On the way to a directory -/

theorem Leads.entry {e : Entry} (h : t.Leads names steps (.found place e)) :
    t.entry? place = some e := by
  have hstretch : t.stretch .target names steps = .ok (.ends (.found place e)) :=
    h.stretch (by decide)
  exact stretch_holds hstretch

/-- A path to a directory passes through directories only. -/
theorem Plain.exists_directory_of_passes (ht : t.Plain) (hp : t.isDirectory p = true)
    (h : p.Passes t.here place) : ∃ d, t.entry? place = some (.directory d) := by
  obtain ⟨cs, hcs, rfl⟩ := h
  rw [p.components_eq] at hcs
  rcases List.prefix_or_prefix_of_prefix hcs (List.prefix_append p.lead p.inner) with hle | hge
  · by_cases hnil : cs = []
    · rw [hnil]
      exact ht.here
    · -- what leads to the first name is one component at most
      have hlead : p.lead.length ≤ 1 := by
        rcases p.lead_eq_nil_or with hlead | hlead | hlead <;> simp [hlead]
      have hlength : p.lead.length ≤ cs.length :=
        hlead.trans (List.length_pos_iff.2 hnil)
      rw [hle.eq_of_length_le hlength, p.foldl_enter_lead]
      exact ht.origin p
  · obtain ⟨inner, rfl⟩ := hge
    rw [List.prefix_append_right_inj, Path.inner, ← filterMap_filter_ne_nil, ← p.filter_steps,
      List.prefix_filterMap_iff] at hcs
    obtain ⟨steps, ⟨more, hsteps⟩, rfl⟩ := hcs
    obtain ⟨d, hd⟩ := ht.isDirectory_iff.1 hp
    have hwalk := (ht.leads_of_locate hd).2.filter
    rw [← hsteps] at hwalk
    obtain ⟨mid, d', hmid⟩ := hwalk.of_append (ht.origin p)
    rw [List.foldl_append, p.foldl_enter_lead, ← foldl_enterStep_pieces, ← hmid.place]
    exact ⟨d', hmid.entry⟩

/-! ### Entries below a place -/

/-- Below the place the trees have the same files and directories. -/
def SameBelow (place : List Text) (t t' : FileTree) : Prop :=
  ∀ below,
    (t'.entry? (place ++ below)).map Entry.shape = (t.entry? (place ++ below)).map Entry.shape

theorem SameBelow.refl (t : FileTree) : SameBelow place t t := fun _ => rfl

theorem SameBelow.trans (h : SameBelow place t t') (h' : SameBelow place t' w) :
    SameBelow place t w :=
  fun below => (h' below).trans (h below)

theorem SameBelow.symm (h : SameBelow place t t') : SameBelow place t' t :=
  fun below => (h below).symm

theorem SameBelow.append (h : SameBelow place t t') (more : List Text) :
    SameBelow (place ++ more) t t' := by
  intro below
  rw [List.append_assoc]
  exact h (more ++ below)

theorem SameBelow.exists_entry (h : SameBelow place t t') {below : List Text} {e : Entry}
    (he : t'.entry? (place ++ below) = some e) : ∃ e', t.entry? (place ++ below) = some e' := by
  have hshape := h below
  rw [he] at hshape
  obtain ⟨e', he', -⟩ := Option.map_eq_some_iff.1 hshape.symm
  exact ⟨e', he'⟩

/-- Nothing changes below a place when no file is written there, and directories are made elsewhere
or on the way to directories that are there already. -/
theorem Edits.sameBelow {files dirs : List Text → Prop} (h : Edits files dirs t t') (ht : t.Plain)
    (hfiles : ∀ x, files x → ¬ place <+: x)
    (hdirs : ∀ x, dirs x → (∃ p, t.isDirectory p = true ∧ p.Passes t.here x) ∨ ¬ place <+: x) :
    SameBelow place t t' := by
  intro below
  have hplace : place <+: place ++ below := List.prefix_append _ _
  rcases h.kept fun hfile => hfiles _ hfile hplace with hshape | ⟨hmade, hnone, -⟩
  · exact hshape
  · rcases hdirs _ hmade with ⟨p, hp, hpasses⟩ | hoff
    · obtain ⟨d, hd⟩ := ht.exists_directory_of_passes hp hpasses
      rw [hd] at hnone
      cases hnone
    · exact absurd hplace hoff

/-! ### Files that are written again -/

/-- A walk to a file does not end in slashes. -/
theorem Leads.not_all_isEmpty (h : t.Leads names steps (.found place (.file bytes)))
    (hstart : ∃ d, t.entry? names = some (.directory d)) : steps.all List.isEmpty = false := by
  generalize hl : Located.found place (.file bytes) = l at h
  induction h with
  | arrive he =>
    cases hl
    obtain ⟨d, hd⟩ := hstart
    rw [he] at hd
    cases hd
  | stay hstep _ ih => rw [List.all_cons, ih hstart hl, Bool.and_false]
  | up _ _ => rfl
  | enter hstay _ _ _ _ _ => rw [List.all_cons, List.isEmpty_eq_false_iff.2 (not_or.1 hstay).1]; rfl
  | file hstay _ _ _ => rw [List.all_cons, List.isEmpty_eq_false_iff.2 (not_or.1 hstay).1]; rfl
  | free _ _ _ _ _ => cases hl

/-- Where a walk came to a file, a file can be written as long as the directories are there and
nothing else is at its place. -/
theorem Leads.exists_stretch (h : t.Leads names steps (.found place (.file bytes)))
    (hstart : ∃ d, t.entry? names = some (.directory d)) (hkeeps : t.KeepsDirectories w)
    (hplace : ∀ e, w.entry? place = some e → ∃ bytes', e = .file bytes') :
    ∃ l, w.stretch .file names steps = .ok (.ends l) ∧
      ∀ above d, l ≠ .found above (.directory d) := by
  generalize hl : Located.found place (.file bytes) = l at h
  induction h with
  | arrive he =>
    cases hl
    obtain ⟨d, hd⟩ := hstart
    rw [he] at hd
    cases hd
  | stay hstep _ ih =>
    rw [FileTree.stretch, if_pos hstep]
    exact ih hstart hl
  | up _ ih =>
    obtain ⟨d, hd⟩ := hstart
    rw [FileTree.stretch, if_neg (by decide), if_pos rfl]
    exact ih (exists_directory_dropLast hd) hl
  | enter hstay hup hsize hd hrest ih =>
    subst hl
    have hslashes := hrest.not_all_isEmpty ⟨_, hd⟩
    obtain ⟨d', hd'⟩ := hkeeps _ _ hd
    rw [FileTree.stretch, if_neg hstay, if_neg hup, if_neg (by simp [hslashes]),
      if_neg (Nat.not_lt.2 hsize), hd']
    exact ih ⟨_, hd⟩ rfl
  | @file above step _ hstay hup hsize hfile =>
    cases hl
    rw [FileTree.stretch, if_neg hstay, if_neg hup, if_neg (by simp), if_neg (Nat.not_lt.2 hsize)]
    cases hentry : w.entry? (above ++ [step]) with
    | none =>
      refine ⟨_, rfl, ?_⟩
      intro _ _ hfound
      cases hfound
    | some e =>
      obtain ⟨bytes', rfl⟩ := hplace e hentry
      refine ⟨_, rfl, ?_⟩
      intro _ _ hfound
      cases hfound
  | free _ _ _ _ _ => cases hl

theorem Plain.exists_writeFile (ht : t.Plain) (hread : t.readBytes p = .ok bytes)
    (hkeeps : t.KeepsDirectories w) (hhere : w.here = t.here)
    (hplace : ∀ e, w.entry? (p.place t.here) = some e → ∃ bytes', e = .file bytes')
    (written : ByteArray) : ∃ w', w.writeFile p written = .ok w' := by
  obtain ⟨hp, hleads⟩ := ht.leads_of_locate (ht.readBytes_eq_ok_iff.1 hread)
  obtain ⟨l, hstretch, hnot⟩ := hleads.exists_stretch (ht.origin p) hkeeps hplace
  have hlocate : w.locate .file p = .ok l := by
    rw [locate, if_neg hp.1, if_neg hp.2.1, if_neg (Nat.not_lt.2 hp.2.2), hhere, mostLinks, walk,
      hstretch]
  rw [writeFile, hlocate]
  cases l with
  | vacant above n => exact ⟨_, rfl⟩
  | found above e =>
    cases e with
    | file b => exact ⟨_, rfl⟩
    | link target => exact ⟨_, rfl⟩
    | directory d => exact absurd rfl (hnot above d)

theorem Plain.exists_overwritten (ht : t.Plain) (hread : t.readBytes p = .ok bytes)
    (written : ByteArray) : ∃ t', t.writeFile p written = .ok t' := by
  refine ht.exists_writeFile hread (Persists.refl t).directories rfl ?_ written
  intro e he
  have hentry := bytesAt_eq_some_iff.1 (ht.bytesAt_of_readBytes hread)
  rw [he] at hentry
  exact ⟨bytes, Option.some.inj hentry⟩

theorem Plain.exists_removeFile (ht : t.Plain) (hread : t.readBytes p = .ok bytes) :
    ∃ w, t.removeFile p = .ok w ∧ w.entry? (p.place t.here) = none := by
  have hfound := ht.readBytes_eq_ok_iff.1 hread
  obtain ⟨hp, hleads⟩ := ht.leads_of_locate hfound
  have hlocate : t.locate .itself p = .ok (.found (p.place t.here) (.file bytes)) :=
    locate_of_leads (by decide) hp hleads
  obtain ⟨above, n, hplace, -⟩ := ht.exists_name hfound fun d hd => nomatch hd
  refine ⟨t.drop (p.place t.here), ?_, ?_⟩
  · rw [removeFile, hlocate]
  · rw [hplace]
    exact Entry.at?_setAt_none_self above n t.top

theorem Plain.exists_readBytes_of_copyFile (ht : t.Plain) {source destination : Path}
    (h : t.copyFile source destination = .ok t') :
    ∃ bytes, t'.readBytes destination = .ok bytes := by
  obtain ⟨opened, bytes, hopened, hcopied⟩ := exists_writeFile_of_copyFile h
  exact ⟨bytes, ((ht.edits_writeFile hopened).plain ht).readBytes_of_writeFile hcopied⟩

theorem isDirectory_of_readBytes (h : t.readBytes p = .ok bytes) : t.isDirectory p = false := by
  rw [readBytes] at h
  rw [isDirectory]
  split at h
  · cases h
  · next hentry => rw [hentry]
  · cases h

theorem Plain.exists_copyFile (ht : t.Plain) {source destination : Path} {old : ByteArray}
    (hsource : t.readBytes source = .ok bytes) (hdestination : t.readBytes destination = .ok old) :
    ∃ t', t.copyFile source destination = .ok t' := by
  obtain ⟨opened, hopened⟩ := ht.exists_overwritten hdestination .empty
  have hempty := ht.edits_writeFile hopened
  have hplain := hempty.plain ht
  -- the source is still a file, even when it is the destination
  have hpersists : t.Persists opened := by
    refine .of_edits hempty fun place b hb => ?_
    by_cases hplace : place = destination.place t.here
    · exact ⟨_, hplace ▸ ht.bytesAt_writeFile hopened⟩
    · exact ⟨b, (hempty.bytesAt_eq hplace).trans hb⟩
  obtain ⟨last, hlast⟩ := hpersists.readBytes ht hplain hsource
  obtain ⟨copied, hcopied⟩ :=
    hplain.exists_overwritten (ht.readBytes_of_writeFile hopened) last
  refine ⟨copied, ?_⟩
  unfold copyFile
  simp only [hsource, hopened, hlast]
  exact hcopied

/-! ### Directories that are made again -/

theorem exists_ancestors (p : Path) : ∃ above, p.ancestors = p :: above := by
  unfold Path.ancestors
  cases p.text.length with
  | zero => exact ⟨[], rfl⟩
  | succ n => exact ⟨_, rfl⟩

/-- A directory that is there, or a path without text, needs no making. -/
def Ready (t : FileTree) (p : Path) : Prop := p.text = [] ∨ t.isDirectory p = true

theorem Persists.ready (h : t.Persists t') (ht : t.Plain) (ht' : t'.Plain) (hp : t.Ready p) :
    t'.Ready p :=
  hp.imp_right (h.isDirectory ht ht')

theorem Plain.makeDirectories_of_ready (ht : t.Plain) (hp : t.Ready p) :
    t.makeDirectories p = (t, .ok ()) := by
  obtain ⟨above, hancestors⟩ := exists_ancestors p
  unfold makeDirectories
  rw [hancestors, makeChain]
  rcases hp with hempty | hdir
  · rw [if_pos hempty]
  · obtain ⟨d, hd⟩ := ht.isDirectory_iff.1 hdir
    obtain ⟨hp, hleads⟩ := ht.leads_of_locate hd
    have hlocate : t.locate .itself p = .ok (.found (p.place t.here) (.directory d)) :=
      locate_of_leads (by decide) hp hleads
    have hpresent : t.makeDirectory p = .error .present := by rw [makeDirectory, hlocate]
    rw [if_neg hp.2.1, hpresent]
    dsimp only
    rw [if_pos hdir]

theorem Plain.exists_directory_of_ready (ht : t.Plain) (h : t.Ready p) :
    ∃ d, t.entry? (p.place t.here) = some (.directory d) := by
  rcases h with hempty | hdir
  · have hplace : p.place t.here = t.here := by
      obtain ⟨text⟩ := p
      obtain rfl : text = [] := hempty
      rfl
    rw [hplace]
    exact ht.here
  · obtain ⟨d, hd⟩ := ht.isDirectory_iff.1 hdir
    exact ⟨d, locate_holds hd⟩

theorem leads_of_all_isEmpty {e : Entry} (he : t.entry? names = some e)
    (hsteps : steps.all List.isEmpty = true) : t.Leads names steps (.found names e) := by
  induction steps with
  | nil => exact .arrive he
  | cons step rest ih =>
    rw [List.all_cons, Bool.and_eq_true, List.isEmpty_iff] at hsteps
    exact .stay (Or.inl hsteps.1) (ih hsteps.2)

/-- A walk to a free name comes to the directory that is made there. -/
theorem Leads.made {above : List Text} {n : Text} {d : Directory}
    (h : t.Leads names steps (.vacant above n)) (hkeeps : t.KeepsDirectories w)
    (hd : w.entry? (above ++ [n]) = some (.directory d)) :
    w.Leads names steps (.found (above ++ [n]) (.directory d)) := by
  generalize hl : Located.vacant above n = l at h
  induction h with
  | arrive _ => cases hl
  | stay hstep _ ih => exact .stay hstep (ih hl)
  | up _ ih => exact .up (ih hl)
  | enter hstay hup hsize hdir _ ih =>
    obtain ⟨d', hd'⟩ := hkeeps _ _ hdir
    exact .enter hstay hup hsize hd' (ih hl)
  | file _ _ _ _ => cases hl
  | free hstay hup hsize _ hrest =>
    cases hl
    exact .enter hstay hup hsize hd (leads_of_all_isEmpty hd hrest)

theorem Plain.isDirectory_of_makeDirectory (ht : t.Plain) (h : t.makeDirectory p = .ok t') :
    t'.isDirectory p = true := by
  have hedits := ht.edits_makeDirectory h
  rw [makeDirectory] at h
  split at h
  · cases h
  · cases h
  · next above n hl =>
    cases h
    obtain ⟨d, hd⟩ := ht.locate_vacant hl
    obtain ⟨hp, hleads⟩ := ht.leads_of_locate hl
    have hmade := Entry.at?_setAt_self (.directory .empty) above n t.top hd
    have hlocate : (t.put above n (.directory .empty)).locate .target p =
        .ok (.found (above ++ [n]) (.directory .empty)) :=
      locate_of_leads (by decide) hp (hleads.made hedits.keepsDirectories hmade)
    unfold isDirectory entry
    rw [hlocate]

theorem Plain.ready_of_makeDirectories (ht : t.Plain)
    (h : t.makeDirectories p = (t', .ok ())) : t'.Ready p := by
  obtain ⟨above, hancestors⟩ := exists_ancestors p
  unfold makeDirectories at h
  rw [hancestors, makeChain] at h
  split at h
  · next hempty => exact Or.inl hempty
  right
  split at h
  · next hmade =>
    cases h
    exact ht.isDirectory_of_makeDirectory hmade
  · have hedits := ht.edits_makeChain above
    rcases hchain : t.makeChain above with ⟨ready, why | _⟩
    · rw [hchain] at h
      cases h
    · rw [hchain] at h hedits
      dsimp only at h
      split at h
      · next hmade =>
        cases h
        exact (hedits.plain ht).isDirectory_of_makeDirectory hmade
      · obtain ⟨rfl, hdir⟩ := Prod.mk.inj h
        split at hdir
        · assumption
        · cases hdir
  · obtain ⟨rfl, hdir⟩ := Prod.mk.inj h
    split at hdir
    · assumption
    · cases hdir

end FileTree

end LuaReference
