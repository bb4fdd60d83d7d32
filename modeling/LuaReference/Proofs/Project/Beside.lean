import LuaReference.Proofs.Project.Loading

/-!
# Settings beside the primary root

Without a given file, settings are looked for where the path of the primary root leads to without
its last component. That is the directory above the root when the component is a name; a path that
ends in `.` or `..` leads elsewhere. Main statement: `settings_beside_primary`.
-/

namespace LuaReference

open FileTree (Admissible)

namespace Path

variable {p q : Path}

/-! ### The directory above -/

/-- The path that leads to the directory above. -/
def above (p : Path) : Path := p.join (.ofString "..")

theorem place_above (p : Path) (here : List Text) :
    p.above.place here = (p.place here).dropLast := by
  have hinner : inner (.ofString "..") = [.up] := by decide
  rw [above, place_join p rfl, hinner]
  rfl

/-- Only the root has no parent. -/
theorem place_of_parent?_eq_none (h : p.parent? = none) (hne : p.text ≠ []) (here : List Text) :
    p.place here = [] := by
  rw [parent?] at h
  split at h
  · next htrim =>
    have hinner : p.inner = [] := by
      rw [← filterMap_body, ← filterMap_trimPieces, htrim]
      rfl
    rcases lead_eq_nil_or p with hlead | hlead | hlead
    · -- a path without components is empty
      exfalso
      obtain ⟨first, rest, hsplit, htext⟩ := Text.exists_splitAll '/' p.text
      have hbody : p.body = first :: rest := (if_pos hlead).trans hsplit
      obtain ⟨hdot, hempty⟩ := startless_body hlead
      rw [inner, hsplit, List.filterMap_eq_nil_iff] at hinner
      have hfirst := hinner first List.mem_cons_self
      rw [hbody, List.head?_cons] at hdot hempty
      have hnil : first = [] := by
        by_contra hfirstNe
        have hother : first ≠ ['.'] := fun he => hdot (congrArg some he)
        rw [Component.ofPiece, if_neg (not_or.2 ⟨hfirstNe, hother⟩)] at hfirst
        split at hfirst <;> cases hfirst
      have hrest := hempty (congrArg some hnil)
      rw [List.cons.injEq] at hrest
      rw [htext, hrest.1, hrest.2] at hne
      exact hne rfl
    · rw [place, components_eq, hlead, hinner]
      rfl
    · rw [if_pos hlead] at h
      cases h
  · cases h

/-- The parent of a path is the directory above when the last component is a name. Otherwise it is
so only at the root. -/
theorem place_home_iff (hne : p.text ≠ []) (here : List Text) :
    (Project.home p).place here = p.above.place here ↔
      (∃ n, p.components.getLast? = some (.name n)) ∨ (Project.home p).place here = [] := by
  rw [place_above]
  cases hparent : p.parent? with
  | none =>
    have hhome : Project.home p = p := by rw [Project.home, hparent]; rfl
    have hplace := place_of_parent?_eq_none hparent hne here
    rw [hhome, hplace]
    exact iff_of_true rfl (Or.inr rfl)
  | some q =>
    have hhome : Project.home p = q := by rw [Project.home, hparent]; rfl
    obtain ⟨c, hc⟩ := components_parent? hparent
    have hplace : p.place here = Component.enter (q.place here) c := by
      rw [place, hc, List.foldl_append]
      rfl
    have hroot : q.place here = (q.place here).dropLast.dropLast ↔ q.place here = [] := by
      rw [← List.length_eq_zero_iff]
      constructor
      · intro h
        have hlength := congrArg List.length h
        rw [List.length_dropLast, List.length_dropLast] at hlength
        omega
      · intro h
        rw [List.length_eq_zero_iff.1 h]
        rfl
    have hup : q.place here = (q.place here).dropLast ↔ q.place here = [] := by
      rw [← List.length_eq_zero_iff]
      constructor
      · intro h
        have hlength := congrArg List.length h
        rw [List.length_dropLast] at hlength
        omega
      · intro h
        rw [List.length_eq_zero_iff.1 h]
        rfl
    rw [hhome, hplace, hc, List.getLast?_concat]
    cases c with
    | root => exact (or_iff_right (by simp)).symm
    | here => exact hup.trans (or_iff_right (by simp)).symm
    | up => exact hroot.trans (or_iff_right (by simp)).symm
    | name n => exact iff_of_true List.dropLast_concat.symm (Or.inl ⟨n, rfl⟩)

/-! ### Spelling of the parent -/

theorem mem_ofParts {lead : List Component} {pieces : List Text} {c : Char}
    (h : c ∈ (ofParts lead pieces).text) : c ∈ ['/', '.'] ∨ ∃ piece ∈ pieces, c ∈ piece := by
  have hjoin : c ∈ Text.join ['/'] pieces → c ∈ ['/', '.'] ∨ ∃ piece ∈ pieces, c ∈ piece := by
    intro hc
    rcases Text.mem_join hc with hslash | hpiece
    · exact Or.inl (List.mem_cons.2 (Or.inl (List.mem_singleton.1 hslash)))
    · exact Or.inr hpiece
  unfold ofParts at h
  split at h
  · rcases List.mem_cons.1 h with rfl | h
    · exact Or.inl (by decide)
    · exact hjoin h
  · rcases List.mem_cons.1 h with rfl | h
    · exact Or.inl (by decide)
    · split at h
      · cases h
      · rcases List.mem_cons.1 h with rfl | h
        · exact Or.inl (by decide)
        · exact hjoin h
  · exact hjoin h

theorem subset_of_mem_body {piece : Text} (h : piece ∈ p.body) : piece ⊆ p.text := by
  rw [body] at h
  split at h
  · exact Text.subset_of_mem_splitAll h
  · exact Text.subset_of_mem_splitAll (List.mem_of_mem_tail h)

theorem mem_of_mem_parent? (h : p.parent? = some q) {c : Char} (hc : c ∈ q.text) :
    c ∈ ['/', '.'] ∨ c ∈ p.text := by
  rw [parent?] at h
  split at h
  · split at h
    · rw [← Option.some.inj h] at hc
      cases hc
    · cases h
  · rw [← Option.some.inj h] at hc
    have hkept := (prefix_trimPieces _).trans
      ((List.dropLast_prefix _).trans (prefix_trimPieces p.body))
    rcases mem_ofParts hc with hmark | ⟨piece, hpiece, hmem⟩
    · exact Or.inl hmark
    · exact Or.inr (subset_of_mem_body (hkept.subset hpiece) hmem)

end Path

/-! ### The settings of a directory -/

/-- The places in a directory where settings lie, in the order in which they are asked. -/
def FileTree.settingsAt (t : FileTree) (dir : List Text) : List Path :=
  settingsPlaces.filter fun q => (t.bytesAt (dir ++ q.steps)).isSome

/-- A project is loaded with the settings at a place in a directory, or with the defaults. -/
def Project.Uses (t : FileTree) (primary secondary : Path) (dir : List Text) :
    Option Path → Prop
  | none => load t primary secondary none = .ok ⟨primary, secondary, {}, none⟩
  | some q => ∃ p bytes, p.place t.here = dir ++ q.steps ∧ t.readBytes p = .ok bytes ∧
      load t primary secondary none =
        (t.readSettings p).map (⟨primary, secondary, ·, some p⟩)

variable {t : FileTree} {primary : Path}

theorem settingsPlaces_admissible : ∀ q ∈ settingsPlaces, '\x00' ∉ q.text := by decide

theorem FileTree.Plain.admissible_settings_iff (ht : t.Plain)
    (hp : t.isDirectory primary = true) {q : Path} (hq : q ∈ settingsPlaces) :
    Admissible ((Project.home primary).join q) ↔
      ((Project.home primary).join q).text.utf8Size ≤ longestPath := by
  obtain ⟨d, hd⟩ := ht.isDirectory_iff.1 hp
  obtain ⟨⟨hnul, -, -⟩, -⟩ := ht.leads_of_locate hd
  obtain ⟨hne, hcomponents, -, -, -⟩ := settingsPlaces_names q hq
  have hhome : '\x00' ∉ (Project.home primary).text := by
    intro hmem
    rw [Project.home] at hmem
    cases hparent : primary.parent? with
    | none =>
      rw [hparent] at hmem
      exact hnul hmem
    | some above =>
      rw [hparent] at hmem
      rcases Path.mem_of_mem_parent? hparent hmem with hlead | hmem
      · exact absurd hlead (by decide)
      · exact hnul hmem
  have hjoin : '\x00' ∉ ((Project.home primary).join q).text ∧
      ((Project.home primary).join q).text ≠ [] := by
    have hnul := settingsPlaces_admissible q hq
    rw [Path.join, Path.isAbsolute_of_names hcomponents, if_neg Bool.false_ne_true]
    split
    · exact ⟨by simp [hhome, hnul], by simp [hne]⟩
    · exact ⟨by simp [hhome, hnul], by simp⟩
  exact ⟨fun h => h.2.2, fun h => ⟨hjoin.1, hjoin.2, h⟩⟩

/-- The settings file that is found is the first one in the directory of the project whose path is
not too long. -/
theorem FileTree.Plain.settingsIn_eq (ht : t.Plain) (hp : t.isDirectory primary = true) :
    t.settingsIn (Project.home primary) =
      ((t.settingsAt ((Project.home primary).place t.here)).find? fun q =>
        ((Project.home primary).join q).text.utf8Size ≤ longestPath).map
          (Project.home primary).join := by
  rw [settingsIn, List.find?_map, settingsAt, List.find?_filter]
  refine congrArg _ (List.find?_congr fun q hq => ?_)
  rw [Bool.eq_iff_iff, Function.comp, ht.isFile_settings_iff hp hq,
    ht.admissible_settings_iff hp hq, decide_eq_true_iff, decide_eq_true_iff,
    Option.isSome_iff_exists, and_comm]

/-- A project is loaded with the first settings in the directory where the path of its primary root
leads to without its last component. This is the directory above the root exactly when that
component is a name, or there is nothing above. -/
theorem settings_beside_primary (ht : t.Plain) (hp : t.isDirectory primary = true)
    (secondary : Path) :
    Project.Uses t primary secondary ((Project.home primary).place t.here)
        ((t.settingsAt ((Project.home primary).place t.here)).find? fun q =>
          ((Project.home primary).join q).text.utf8Size ≤ FileTree.longestPath) ∧
      ((Project.home primary).place t.here = primary.above.place t.here ↔
        (∃ n, primary.components.getLast? = some (.name n)) ∨
          (Project.home primary).place t.here = []) := by
  obtain ⟨d, hd⟩ := ht.isDirectory_iff.1 hp
  obtain ⟨⟨-, hne, -⟩, -⟩ := ht.leads_of_locate hd
  refine ⟨?_, Path.place_home_iff hne t.here⟩
  have hsettings := ht.settingsIn_eq hp
  cases hfirst : (t.settingsAt ((Project.home primary).place t.here)).find? fun q =>
      ((Project.home primary).join q).text.utf8Size ≤ FileTree.longestPath with
  | none =>
    rw [hfirst] at hsettings
    rw [Project.Uses, Project.load, hsettings]
    rfl
  | some q =>
    rw [hfirst] at hsettings
    have hq : q ∈ settingsPlaces := List.mem_of_mem_filter (List.mem_of_find?_eq_some hfirst)
    obtain ⟨-, hcomponents, -, -, -⟩ := settingsPlaces_names q hq
    have hfile : t.isFile ((Project.home primary).join q) = true :=
      List.find?_some hsettings
    obtain ⟨bytes, hlocate⟩ := ht.isFile_iff.1 hfile
    refine ⟨(Project.home primary).join q, bytes, Path.place_join_names _ hcomponents _, ?_, ?_⟩
    · exact ht.readBytes_eq_ok_iff.2 hlocate
    · rw [Project.load, hsettings]
      rfl

/-- Settings at the top, beside a root with a directory in it. -/
def rootWithSettings : FileTree where
  top := .directory <| .sub "src".toList (.sub "sub".toList .empty .empty) <|
    .file "luadoc.toml".toList "namespace = \"rom\"\n".toUTF8 .empty

theorem plain_rootWithSettings : rootWithSettings.Plain :=
  FileTree.plain_of_decide (by decide +kernel)

theorem settings_beside_src :
    Project.Uses rootWithSettings (.ofString "./src/") (.ofString "lib") []
      (some (.ofString "luadoc.toml")) := by
  have hdir : rootWithSettings.isDirectory (.ofString "./src/") = true := by decide +kernel
  have huses := (settings_beside_primary plain_rootWithSettings hdir (.ofString "lib")).1
  have hplace : (Project.home (.ofString "./src/")).place rootWithSettings.here = [] := by
    decide +kernel
  have hfirst : ((rootWithSettings.settingsAt []).find? fun q =>
      ((Project.home (.ofString "./src/")).join q).text.utf8Size ≤ FileTree.longestPath) =
        some (.ofString "luadoc.toml") := by
    decide +kernel
  rw [hplace, hfirst] at huses
  exact huses

/-- The settings above a root that is spelled with `..` at its end are not used: the path without
its last component leads into the directory `sub`. -/
theorem settings_above_passed_over :
    rootWithSettings.isDirectory (.ofString "src/sub/..") = true ∧
      (rootWithSettings.settingsAt ((Path.ofString "src/sub/..").above.place [])).head? =
        some (.ofString "luadoc.toml") ∧
      Project.load rootWithSettings (.ofString "src/sub/..") (.ofString "lib") none =
        .ok ⟨.ofString "src/sub/..", .ofString "lib", {}, none⟩ ∧
      ¬ Project.Uses rootWithSettings (.ofString "src/sub/..") (.ofString "lib")
        ((Path.ofString "src/sub/..").above.place [])
        (rootWithSettings.settingsAt ((Path.ofString "src/sub/..").above.place [])).head? := by
  have hhead : (rootWithSettings.settingsAt ((Path.ofString "src/sub/..").above.place [])).head? =
      some (.ofString "luadoc.toml") := by
    decide +kernel
  have hnone : rootWithSettings.settingsIn (Project.home (.ofString "src/sub/..")) = none := by
    decide +kernel
  have hload : Project.load rootWithSettings (.ofString "src/sub/..") (.ofString "lib") none =
      .ok ⟨.ofString "src/sub/..", .ofString "lib", {}, none⟩ := by
    rw [Project.load, hnone]
    rfl
  refine ⟨by decide +kernel, hhead, hload, ?_⟩
  rw [hhead]
  rintro ⟨p, -, -, -, hused⟩
  rw [hload] at hused
  cases hread : rootWithSettings.readSettings p with
  | error why =>
    rw [hread] at hused
    cases hused
  | ok s =>
    rw [hread] at hused
    have hfile := congrArg (Except.toOption · |>.bind Project.settingsFile) hused
    cases hfile

end LuaReference
