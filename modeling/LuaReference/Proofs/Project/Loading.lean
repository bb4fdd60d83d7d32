import Mathlib.Data.List.Find
import LuaReference.Project
import LuaReference.Proofs.Output.Fresh

/-!
# Loading a project again

Edits in the directories for documents do not change which settings a project is loaded with: the
settings file is looked for beside the primary root, which lies elsewhere.
-/

namespace LuaReference

open FileTree (Edits Leads)

variable {t t' : FileTree} {primary : Path}

/-! ### The directory of a project -/

theorem foldl_enterStep_filter (p : Path) (here : List Text) :
    (p.steps.filter (· ≠ [])).foldl enterStep (FileTree.origin p here) = p.place here := by
  rw [p.filter_steps, foldl_enterStep_pieces, filterMap_filter_ne_nil, p.place_eq]
  rfl

/-- The directory of a project is found whenever its primary root is a directory. -/
theorem FileTree.Plain.leads_home (ht : t.Plain) (hp : t.isDirectory primary = true) :
    ∃ d, t.Leads (FileTree.origin (Project.home primary) t.here)
      ((Project.home primary).steps.filter (· ≠ []))
      (.found ((Project.home primary).place t.here) (.directory d)) := by
  obtain ⟨d, hd⟩ := ht.isDirectory_iff.1 hp
  have hwalk := (ht.leads_of_locate hd).2.filter
  cases hparent : primary.parent? with
  | none =>
    have hhome : Project.home primary = primary := by rw [Project.home, hparent]; rfl
    rw [hhome]
    exact ⟨d, hwalk⟩
  | some q =>
    have hhome : Project.home primary = q := by rw [Project.home, hparent]; rfl
    obtain ⟨rest, hrest⟩ := Path.steps_parent? hparent
    rw [← hrest] at hwalk
    obtain ⟨mid, d', hmid⟩ := hwalk.of_append (ht.origin primary)
    rw [← Path.origin_parent? hparent] at hmid
    have hplace : mid = q.place t.here := by
      rw [← foldl_enterStep_filter]
      exact hmid.place
    rw [hhome]
    exact ⟨d', hplace ▸ hmid⟩

/-- No directory apart from the primary root holds the directory of the project. -/
theorem not_prefix_home {here x : List Text} (h : Apart (primary.place here) x) :
    ¬ x <+: (Project.home primary).place here := by
  intro hdown
  cases hparent : primary.parent? with
  | none =>
    have hhome : Project.home primary = primary := by rw [Project.home, hparent]; rfl
    exact h.2 (hhome ▸ hdown)
  | some q =>
    have hhome : Project.home primary = q := by rw [Project.home, hparent]; rfl
    obtain ⟨c, hc⟩ := Path.components_parent? hparent
    have hplace : primary.place here = Component.enter (q.place here) c := by
      rw [Path.place, hc, List.foldl_append]
      rfl
    rw [hhome] at hdown
    rw [hplace] at h
    -- the root is its parent and one component, so a place above the parent is above the root
    cases c with
    | root => exact h.1 List.nil_prefix
    | here => exact h.2 hdown
    | name n => exact h.2 (hdown.trans (List.prefix_append _ _))
    | up =>
      obtain ⟨rest, hrest⟩ := hdown
      by_cases hempty : rest = []
      · rw [← hrest, hempty, List.append_nil] at h
        exact h.1 (List.dropLast_prefix x)
      · rw [← hrest] at h
        refine h.2 ?_
        rw [Component.enter, List.dropLast_append_of_ne_nil hempty]
        exact List.prefix_append x _

/-! ### Settings files -/

theorem settingsPlaces_names : ∀ q ∈ settingsPlaces,
    q.text ≠ [] ∧ q.components = q.steps.map .name ∧
      (∀ n ∈ q.steps, n.IsName ∧ n.utf8Size ≤ FileTree.longestName) ∧
      "tables".toList ∉ q.steps ∧ "classes".toList ∉ q.steps := by
  decide

/-- A settings file is found where its path is admissible and a file is there. -/
theorem FileTree.Plain.isFile_settings_iff (ht : t.Plain) (hp : t.isDirectory primary = true)
    {q : Path} (hq : q ∈ settingsPlaces) :
    t.isFile ((Project.home primary).join q) = true ↔
      FileTree.Admissible ((Project.home primary).join q) ∧
        ∃ bytes, t.bytesAt ((Project.home primary).place t.here ++ q.steps) = some bytes := by
  obtain ⟨hne, hcomponents, hsteps, -, -⟩ := settingsPlaces_names q hq
  have hrelative := Path.isAbsolute_of_names hcomponents
  have hplace := (Project.home primary).place_join_names hcomponents t.here
  rw [ht.isFile_iff, hplace]
  constructor
  · rintro ⟨bytes, hlocate⟩
    obtain ⟨hadmissible, -⟩ := ht.leads_of_locate hlocate
    exact ⟨hadmissible, bytes, FileTree.bytesAt_eq_some_iff.2 (FileTree.locate_holds hlocate)⟩
  · rintro ⟨hadmissible, bytes, hbytes⟩
    obtain ⟨d, hhome⟩ := ht.leads_home hp
    have hdown := ht.leads_names hsteps (FileTree.bytesAt_eq_some_iff.1 hbytes)
    refine ⟨bytes, FileTree.locate_of_leads (by decide) hadmissible ?_⟩
    rw [Path.origin_join _ hrelative, Path.steps_join _ hrelative hne]
    exact hhome.append hdown

theorem prefix_append_concat {x h steps : List Text} {m : Text} (hx : x ++ [m] <+: h ++ steps) :
    x ++ [m] <+: h ∨ m ∈ steps := by
  rcases List.prefix_or_prefix_of_prefix hx (List.prefix_append h steps) with hle | ⟨rest, hrest⟩
  · exact Or.inl hle
  · rw [← hrest, List.prefix_append_right_inj] at hx
    obtain rfl | ⟨above, n, rfl⟩ := List.eq_nil_or_concat rest
    · rw [List.append_nil] at hrest
      exact Or.inl (hrest ▸ List.prefix_rfl)
    · rw [List.concat_eq_append, ← List.append_assoc] at hrest
      have hlast : [n] = [m] := (List.append_inj' hrest rfl).2
      have hmem : n ∈ steps := hx.subset (by simp)
      exact Or.inr (List.singleton_inj.1 hlast ▸ hmem)

variable {out : Path}

theorem not_inDocuments_settings {here : List Text}
    (happart : ApartFromDocuments out here (primary.place here)) {q : Path}
    (hq : q ∈ settingsPlaces) :
    ¬ InDocuments out here ((Project.home primary).place here ++ q.steps) := by
  obtain ⟨-, -, -, htables, hclasses⟩ := settingsPlaces_names q hq
  have hout : ∀ {d : Text}, d.IsName → d ∉ q.steps →
      Apart (primary.place here) ((out.child d).place here) →
      ¬ (out.child d).place here <+: (Project.home primary).place here ++ q.steps := by
    intro d hd hnot hroot hdown
    have hhome := not_prefix_home hroot
    rw [out.place_child hd] at hdown hhome
    rcases prefix_append_concat hdown with hdown | hmem
    · exact hhome hdown
    · exact hnot hmem
  rintro (hdown | hdown)
  · exact hout (by decide) htables happart.1 hdown
  · exact hout (by decide) hclasses happart.2 hdown

theorem settingsIn_of_edits {dirs : List Text → Prop} (ht : t.Plain)
    (hp : t.isDirectory primary = true)
    (happart : ApartFromDocuments out t.here (primary.place t.here))
    (hedits : Edits (InDocuments out t.here) dirs t t') :
    t'.settingsIn (Project.home primary) = t.settingsIn (Project.home primary) := by
  have hplain := hedits.plain ht
  have hprimary := hedits.isDirectory ht hp
  refine List.find?_congr fun p hmem => ?_
  obtain ⟨q, hq, rfl⟩ := List.mem_map.1 hmem
  have hsame := hedits.bytesAt_eq (not_inDocuments_settings happart hq)
  rw [Bool.eq_iff_iff, hplain.isFile_settings_iff hprimary hq, ht.isFile_settings_iff hp hq,
    hedits.here, hsame]

theorem readBytes_of_edits {files dirs : List Text → Prop} (ht : t.Plain)
    (hedits : Edits files dirs t t') {p : Path} (hp : ¬ files (p.place t.here))
    {bytes : ByteArray} (hread : t.readBytes p = .ok bytes) : t'.readBytes p = .ok bytes := by
  refine ht.readBytes_of_bytesAt hedits.keepsDirectories hedits.here (hedits.plain ht) hread ?_
  rw [hedits.bytesAt_eq hp]
  exact ht.bytesAt_of_readBytes hread

theorem readSettings_of_edits {files dirs : List Text → Prop} (ht : t.Plain)
    (hedits : Edits files dirs t t') {p : Path} (hp : ¬ files (p.place t.here))
    {s : Settings} (hread : t.readSettings p = .ok s) : t'.readSettings p = .ok s := by
  rw [FileTree.readSettings, FileTree.readText] at hread ⊢
  cases hbytes : t.readBytes p with
  | error why =>
    rw [hbytes] at hread
    cases hread
  | ok bytes =>
    rw [hbytes] at hread
    rw [readBytes_of_edits ht hedits hp hbytes]
    exact hread

/-! ### Projects -/

theorem roots_of_load {secondary : Path} {given : Option Path} {p : Project}
    (h : Project.load t primary secondary given = .ok p) :
    p.primary = primary ∧ p.secondary = secondary := by
  rw [Project.load] at h
  split at h
  · rw [← Except.ok.inj h]
    exact ⟨rfl, rfl⟩
  · next c _ =>
    cases hread : t.readSettings c with
    | error e =>
      rw [hread] at h
      cases h
    | ok s =>
      rw [hread] at h
      rw [← Except.ok.inj h]
      exact ⟨rfl, rfl⟩

theorem load_of_edits {dirs : List Text → Prop} {secondary : Path} {given : Option Path}
    {p : Project} (ht : t.Plain) (hload : Project.load t primary secondary given = .ok p)
    (hp : t.isDirectory primary = true)
    (happart : ApartFromDocuments out t.here (primary.place t.here))
    (hsettings : ∀ c, p.settingsFile = some c → ¬ InDocuments out t.here (c.place t.here))
    (hedits : Edits (InDocuments out t.here) dirs t t') :
    Project.load t' primary secondary given = .ok p := by
  rw [Project.load] at hload ⊢
  rw [settingsIn_of_edits ht hp happart hedits]
  cases hfile : given.or (t.settingsIn (Project.home primary)) with
  | none =>
    rw [hfile] at hload
    exact hload
  | some c =>
    rw [hfile] at hload
    change (t.readSettings c).map _ = _ at hload
    change (t'.readSettings c).map _ = _
    cases hread : t.readSettings c with
    | error e =>
      rw [hread] at hload
      cases hload
    | ok s =>
      rw [hread] at hload
      have hc : ¬ InDocuments out t.here (c.place t.here) := by
        refine hsettings c ?_
        rw [← Except.ok.inj hload]
      rw [readSettings_of_edits ht hedits hc hread]
      exact hload

end LuaReference
