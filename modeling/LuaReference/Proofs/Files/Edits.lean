import LuaReference.Proofs.Files.Done
import LuaReference.Proofs.Files.Below

/-!
# Edits of a plain tree

A run changes a tree one entry at a time: it writes or removes a file, or makes an empty directory.
`FileTree.Edits` bounds where this happens, and the frame lemmas say what then stays as it was.
-/

namespace LuaReference

namespace Entry

theorem at?_setAt_of_apart (v : Option Entry) {xs ys : List Text} (h : Apart xs ys)
    (root : Entry) : at? ys (setAt v xs root) = at? ys root := by
  induction xs generalizing ys root with
  | nil => exact absurd List.nil_prefix h.1
  | cons x xs ih =>
    cases ys with
    | nil => exact absurd List.nil_prefix h.2
    | cons y ys =>
      by_cases hroot : ∀ d, root ≠ directory d
      · rw [setAt_of_not_directory hroot]
      obtain ⟨d, rfl⟩ : ∃ d, root = directory d := by simpa using hroot
      obtain ⟨d', hset, hfind⟩ := exists_setAt_directory v x xs d
      by_cases hy : y = x
      · subst hy
        have hbelow : Apart xs ys := by
          refine ⟨fun hxy => h.1 ?_, fun hyx => h.2 ?_⟩
          · exact List.cons_prefix_cons.2 ⟨rfl, hxy⟩
          · exact List.cons_prefix_cons.2 ⟨rfl, hyx⟩
        cases xs with
        | nil => exact absurd List.nil_prefix hbelow.1
        | cons z zs =>
          rw [setAt]
          cases hd : d.find? y with
          | none => rfl
          | some e =>
            rw [at?, Directory.find?_set_some_self, at?, hd]
            exact ih hbelow e
      · rw [hset, at?, at?, hfind y hy]

end Entry

namespace FileTree

/-- The one tree comes from the other by writing and removing files at some places and making
directories at some places. -/
inductive Edits (files dirs : List Text → Prop) (t : FileTree) : FileTree → Prop
  | refl : Edits files dirs t t
  | touch {u : FileTree} {above : List Text} {n : Text} (h : Edits files dirs t u)
      (bytes : Option ByteArray) (hplace : files (above ++ [n])) (hn : n.IsName)
      (hnot : ∀ d, u.entry? (above ++ [n]) ≠ some (.directory d)) :
      Edits files dirs t (u.setEntry (above ++ [n]) (bytes.map .file))
  | make {u : FileTree} {above : List Text} {n : Text} {d : Directory} (h : Edits files dirs t u)
      (hplace : dirs (above ++ [n])) (hn : n.IsName)
      (habove : u.entry? above = some (.directory d)) (hfree : u.entry? (above ++ [n]) = none) :
      Edits files dirs t (u.setEntry (above ++ [n]) (some (.directory .empty)))

namespace Edits

variable {files dirs files' dirs' : List Text → Prop} {t t' t'' : FileTree}

theorem mono (h : Edits files dirs t t') (hfiles : ∀ x, files x → files' x)
    (hdirs : ∀ x, dirs x → dirs' x) : Edits files' dirs' t t' := by
  induction h with
  | refl => exact .refl
  | touch _ bytes hplace hn hnot ih => exact .touch ih bytes (hfiles _ hplace) hn hnot
  | make _ hplace hn habove hfree ih => exact .make ih (hdirs _ hplace) hn habove hfree

theorem trans (h : Edits files dirs t t') (h' : Edits files dirs t' t'') :
    Edits files dirs t t'' := by
  induction h' with
  | refl => exact h
  | touch _ bytes hplace hn hnot ih => exact .touch ih bytes hplace hn hnot
  | make _ hplace hn habove hfree ih => exact .make ih hplace hn habove hfree

theorem here (h : Edits files dirs t t') : t'.here = t.here := by
  induction h with
  | refl => rfl
  | touch _ _ _ _ _ ih => exact ih
  | make _ _ _ _ _ ih => exact ih

/-! ### What stays -/

theorem keepsDirectories (h : Edits files dirs t t') : t.KeepsDirectories t' := by
  induction h with
  | refl => exact fun _ d hd => ⟨d, hd⟩
  | touch _ bytes _ _ hnot ih =>
    exact ih.trans (directories_setEntry (Entry.bare_file bytes) hnot)
  | make _ _ _ _ hfree ih =>
    exact ih.trans (directories_setEntry Entry.bare_newDirectory (not_directory_of_none hfree))

theorem plain (h : Edits files dirs t t') (ht : t.Plain) : t'.Plain := by
  have htop : t'.top.Plain := by
    induction h with
    | refl => exact ht.top
    | touch _ bytes _ hn _ ih =>
      refine ih.setAt ?_ _ hn
      intro e he
      cases bytes <;> cases he
      trivial
    | make _ _ hn _ _ ih =>
      refine ih.setAt ?_ _ hn
      intro e he
      cases he
      trivial
  obtain ⟨d, hd⟩ := ht.here
  refine ⟨htop, ?_⟩
  rw [h.here]
  exact h.keepsDirectories _ d hd

theorem isDirectory (h : Edits files dirs t t') (ht : t.Plain) {p : Path}
    (hp : t.isDirectory p = true) : t'.isDirectory p = true :=
  ht.isDirectory_mono (h.plain ht) h.keepsDirectories h.here hp

/-- Where no file is written or removed, the entry stays what it was, or a directory is made
where there was nothing. -/
theorem kept (h : Edits files dirs t t') {names : List Text} (hnames : ¬ files names) :
    (t'.entry? names).map Entry.shape = (t.entry? names).map Entry.shape ∨
      dirs names ∧ t.entry? names = none ∧ ∃ d, t'.entry? names = some (.directory d) := by
  induction h with
  | refl => exact Or.inl rfl
  | @touch u above n hu bytes hplace hn hnot ih =>
    have hne : names ≠ above ++ [n] := by
      rintro rfl
      exact hnames hplace
    rcases ih with ih | ⟨hdirs, hnone, d, hd⟩
    · exact Or.inl ((shape_entry?_setEntry (Entry.bare_file bytes) hnot hne).trans ih)
    · exact Or.inr ⟨hdirs, hnone, directories_setEntry (Entry.bare_file bytes) hnot _ d hd⟩
  | @make u above n _ hu hplace hn habove hfree ih =>
    have hnot := not_directory_of_none hfree
    rcases ih with ih | ⟨hdirs, hnone, d, hd⟩
    · by_cases hne : names = above ++ [n]
      · subst hne
        rw [hfree, Option.map_none, eq_comm, Option.map_eq_none_iff] at ih
        exact Or.inr ⟨hplace, ih, .empty, Entry.at?_setAt_self _ above n u.top habove⟩
      · exact Or.inl ((shape_entry?_setEntry Entry.bare_newDirectory hnot hne).trans ih)
    · exact Or.inr ⟨hdirs, hnone, directories_setEntry Entry.bare_newDirectory hnot _ d hd⟩

theorem bytesAt_eq (h : Edits files dirs t t') {place : List Text} (hplace : ¬ files place) :
    t'.bytesAt place = t.bytesAt place := by
  rcases h.kept hplace with hshape | ⟨-, hnone, d, hd⟩
  · exact bytesAt_congr hshape
  · rw [bytesAt, bytesAt, hnone, hd]

theorem exists_entry (h : Edits files dirs t t') {place : List Text} (hplace : ¬ files place)
    {e : Entry} (he : t.entry? place = some e) : ∃ e', t'.entry? place = some e' := by
  rcases h.kept hplace with hshape | ⟨-, hnone, -⟩
  · rw [he] at hshape
    obtain ⟨e', he', -⟩ := Option.map_eq_some_iff.1 hshape
    exact ⟨e', he'⟩
  · rw [he] at hnone
    cases hnone

end Edits

/-! ### Operations -/

variable {t t' : FileTree} {p : Path}

theorem Plain.edits_makeDirectory (h : t.Plain) (hmade : t.makeDirectory p = .ok t') :
    Edits (fun _ => False) (· = p.place t.here) t t' := by
  rw [makeDirectory] at hmade
  split at hmade
  · cases hmade
  · cases hmade
  · next above n hl =>
    cases hmade
    obtain ⟨d, hd⟩ := h.locate_vacant hl
    exact Edits.refl.make (h.locate_place hl) (h.locate_vacant_isName hl) hd (locate_holds hl)

theorem Plain.edits_makeChain (h : t.Plain) (ps : List Path) :
    Edits (fun _ => False) (fun x => ∃ p ∈ ps, x = p.place t.here) t (t.makeChain ps).1 := by
  induction ps with
  | nil => exact .refl
  | cons p above ih =>
    have hfirst : ∀ x, x = p.place t.here → ∃ q ∈ p :: above, x = q.place t.here :=
      fun x hx => ⟨p, List.mem_cons_self, hx⟩
    have habove : ∀ x, (∃ q ∈ above, x = q.place t.here) →
        ∃ q ∈ p :: above, x = q.place t.here :=
      fun x ⟨q, hq, hx⟩ => ⟨q, List.mem_cons_of_mem p hq, hx⟩
    rw [makeChain]
    split
    · exact .refl
    split
    · next hmade => exact (h.edits_makeDirectory hmade).mono (fun _ => id) hfirst
    · cases hc : t.makeChain above with
      | mk ready result =>
        rw [hc] at ih
        cases result with
        | error why => exact ih.mono (fun _ => id) habove
        | ok _ =>
          have hready : Edits (fun _ => False) _ t ready := ih.mono (fun _ => id) habove
          dsimp only
          split
          · next hmade =>
            have hlast := (hready.plain h).edits_makeDirectory hmade
            rw [hready.here] at hlast
            exact hready.trans (hlast.mono (fun _ => id) hfirst)
          · exact hready
    · exact .refl

theorem Plain.edits_makeDirectories (h : t.Plain) (p : Path) :
    Edits (fun _ => False) (p.Passes t.here) t (t.makeDirectories p).1 := by
  refine (h.edits_makeChain p.ancestors).mono (fun _ => id) ?_
  rintro _ ⟨q, hq, rfl⟩
  exact Path.passes_of_mem_ancestors hq t.here

theorem Plain.exists_name (h : t.Plain) {aim : Aim} {place : List Text} {e : Entry}
    (hl : t.locate aim p = .ok (.found place e)) (hnot : ∀ d, e ≠ .directory d) :
    ∃ above n, place = above ++ [n] ∧ n.IsName := by
  have he : t.entry? place = some e := locate_holds hl
  obtain rfl | ⟨above, n, rfl⟩ := List.eq_nil_or_concat place
  · obtain ⟨d, hd⟩ := h.origin ⟨['/']⟩
    rw [show FileTree.origin ⟨['/']⟩ t.here = [] from rfl, he, Option.some.injEq] at hd
    exact absurd hd (hnot d)
  · rw [List.concat_eq_append] at he ⊢
    exact ⟨above, n, rfl, h.isName he⟩

theorem Plain.edits_removeFile (h : t.Plain) (hremoved : t.removeFile p = .ok t') :
    Edits (· = p.place t.here) (fun _ => False) t t' := by
  rw [removeFile] at hremoved
  split at hremoved
  · cases hremoved
  · cases hremoved
  · cases hremoved
  · next place e hnot hl =>
    cases hremoved
    obtain ⟨above, n, rfl, hn⟩ := h.exists_name hl hnot
    exact Edits.refl.touch none (h.found_place hl) hn (not_directory_of_ne (locate_holds hl) hnot)

theorem Plain.edits_writeFile (h : t.Plain) {bytes : ByteArray}
    (hwritten : t.writeFile p bytes = .ok t') :
    Edits (· = p.place t.here) (fun _ => False) t t' := by
  rw [writeFile] at hwritten
  split at hwritten
  · cases hwritten
  · next above n hl =>
    cases hwritten
    have hfree : t.entry? (above ++ [n]) = none := locate_holds hl
    exact Edits.refl.touch (some bytes) (h.locate_place hl) (h.locate_vacant_isName hl)
      (not_directory_of_none hfree)
  · cases hwritten
  · next place e hnot hl =>
    cases hwritten
    obtain ⟨above, n, rfl, hn⟩ := h.exists_name hl hnot
    exact Edits.refl.touch (some bytes) (h.found_place hl) hn
      (not_directory_of_ne (locate_holds hl) hnot)

/-! ### What is read afterwards -/

theorem Plain.leads_of_filled (h : t.Plain) (hkeeps : t.KeepsDirectories t')
    {names steps above : List Text} {n : Text} {bytes : ByteArray}
    (hs : t.stretch .file names steps = .ok (.ends (.vacant above n)))
    (hbytes : t'.entry? (above ++ [n]) = some (.file bytes)) :
    t'.Leads names steps (.found (above ++ [n]) (.file bytes)) := by
  induction steps generalizing names with
  | nil =>
    rw [stretch] at hs
    split at hs <;> cases hs
  | cons step rest ih =>
    rw [stretch] at hs
    split at hs
    · next hstay => exact .stay hstay (ih hs)
    split at hs
    · next hup => exact hup ▸ .up (ih hs)
    next hstay hup =>
    split at hs
    · cases hs
    next hslash =>
    split at hs
    · cases hs
    next hlong =>
    have hsize := Nat.not_lt.1 hlong
    split at hs
    · split at hs
      · next hempty =>
        cases hs
        -- only a name without a slash behind it can be written
        obtain rfl : rest = [] := by
          by_contra hne
          exact hslash ⟨rfl, hne, hempty⟩
        exact .file hstay hup hsize hbytes
      · cases hs
    · next hd =>
      obtain ⟨d', hd'⟩ := hkeeps _ _ hd
      exact .enter hstay hup hsize hd' (ih hs)
    · split at hs <;> cases hs
    · next hlink => exact absurd hlink (h.not_link _ _)

theorem Plain.locate_writeFile (h : t.Plain) {bytes : ByteArray}
    (hwritten : t.writeFile p bytes = .ok t') :
    t'.locate .target p = .ok (.found (p.place t.here) (.file bytes)) := by
  have hedits := h.edits_writeFile hwritten
  rw [writeFile] at hwritten
  split at hwritten
  · cases hwritten
  · next above n hl =>
    cases hwritten
    obtain ⟨d, hd⟩ := h.locate_vacant hl
    have hbytes := Entry.at?_setAt_self (.file bytes) above n t.top hd
    have hplace : above ++ [n] = p.place t.here := h.locate_place hl
    obtain ⟨hp, -⟩ := h.leads_of_locate hl
    rw [← hplace]
    refine locate_of_leads (by decide) hp ?_
    rw [locate, if_neg hp.1, if_neg hp.2.1, if_neg (Nat.not_lt.2 hp.2.2), mostLinks, walk] at hl
    split at hl
    · cases hl
    · next hs =>
      cases hl
      exact h.leads_of_filled hedits.keepsDirectories hs hbytes
    · next hs =>
      obtain ⟨l, hends, -⟩ := h.leads_of_stretch hs
      cases hends
  · cases hwritten
  · next place e hnot hl =>
    cases hwritten
    have htarget : t.locate .target p = .ok (.found place e) := h.locate_of_file (by decide) hl
    rw [h.found_place hl] at htarget ⊢
    cases e with
    | directory d => exact absurd rfl (hnot d)
    | link target => exact absurd (locate_holds htarget) (h.not_link _ _)
    | file old =>
      exact locate_setEntry_file bytes htarget

theorem Plain.bytesAt_writeFile (h : t.Plain) {bytes : ByteArray}
    (hwritten : t.writeFile p bytes = .ok t') : t'.bytesAt (p.place t.here) = some bytes := by
  have hfound : t'.entry? (p.place t.here) = some (.file bytes) :=
    locate_holds (h.locate_writeFile hwritten)
  rw [bytesAt, hfound]

theorem Plain.readBytes_of_writeFile (h : t.Plain) {bytes : ByteArray}
    (hwritten : t.writeFile p bytes = .ok t') : t'.readBytes p = .ok bytes := by
  have hedits := h.edits_writeFile hwritten
  have hlocate := h.locate_writeFile hwritten
  rw [← hedits.here] at hlocate
  exact (hedits.plain h).readBytes_eq_ok_iff.2 hlocate

theorem Plain.bytesAt_of_readBytes (h : t.Plain) {bytes : ByteArray}
    (hread : t.readBytes p = .ok bytes) : t.bytesAt (p.place t.here) = some bytes := by
  have hfound : t.entry? (p.place t.here) = some (.file bytes) :=
    locate_holds (h.readBytes_eq_ok_iff.1 hread)
  rw [bytesAt, hfound]

/-- A path that leads to a file leads there as long as a file is there. -/
theorem Plain.readBytes_of_bytesAt (ht : t.Plain) (hkeeps : t.KeepsDirectories t')
    (hhere : t'.here = t.here) (ht' : t'.Plain) {p : Path} {bytes bytes' : ByteArray}
    (hread : t.readBytes p = .ok bytes) (hbytes : t'.bytesAt (p.place t.here) = some bytes') :
    t'.readBytes p = .ok bytes' := by
  have hlocate := ht.readBytes_eq_ok_iff.1 hread
  have hentry := bytesAt_eq_some_iff.1 hbytes
  refine ht'.readBytes_eq_ok_iff.2 ?_
  rw [hhere]
  exact ht.locate_mono hkeeps hhere (by decide) hlocate hentry rfl

/-- A copy writes its destination twice: it is emptied, and then it gets its bytes. -/
theorem exists_writeFile_of_copyFile {source destination : Path}
    (h : t.copyFile source destination = .ok t') : ∃ opened bytes,
      t.writeFile destination .empty = .ok opened ∧
        opened.writeFile destination bytes = .ok t' := by
  rw [copyFile] at h
  split at h
  · cases h
  · cases h
  · next opened _ hopened =>
    split at h
    · cases h
    · next bytes _ => exact ⟨opened, bytes, hopened, h⟩

/-- A copy of a file changes its destination only, which then has the bytes that the source had,
when it is another place. -/
theorem Plain.edits_copyFile (h : t.Plain) {source destination : Path}
    (hcopied : t.copyFile source destination = .ok t') :
    Edits (· = destination.place t.here) (fun _ => False) t t' ∧
      ∃ bytes, t.readBytes source = .ok bytes ∧
        (source.place t.here ≠ destination.place t.here →
          t'.bytesAt (destination.place t.here) = some bytes) := by
  rw [copyFile] at hcopied
  cases hread : t.readBytes source with
  | error why =>
    rw [hread] at hcopied
    cases hcopied
  | ok bytes =>
    cases hopened : t.writeFile destination .empty with
    | error why =>
      rw [hread, hopened] at hcopied
      cases hcopied
    | ok opened =>
      have hempty := h.edits_writeFile hopened
      have hplain := hempty.plain h
      cases hagain : opened.readBytes source with
      | error why =>
        simp only [hread, hopened, hagain] at hcopied
        cases hcopied
      | ok last =>
        simp only [hread, hopened, hagain] at hcopied
        have hlast := hplain.edits_writeFile hcopied
        rw [hempty.here] at hlast
        refine ⟨hempty.trans hlast, bytes, rfl, ?_⟩
        intro hne
        have hsame : some last = some bytes := by
          rw [← hplain.bytesAt_of_readBytes hagain, ← h.bytesAt_of_readBytes hread, hempty.here]
          exact hempty.bytesAt_eq hne
        rw [← hsame, ← hempty.here]
        exact hplain.bytesAt_writeFile hcopied

end FileTree

end LuaReference
