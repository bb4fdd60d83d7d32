import LuaReference.Proofs.Overlay.Listing

/-!
# Shadowed paths

The paths that overlays bring, seen from the output directory: the name of the overlaid directory,
and the names that lead to a file below the source.
-/

namespace LuaReference

variable {t : FileTree} {out : Path} {o : Overlay} {d : Text}

/-- The overlay is copied into a directory of this name in the output directory. -/
structure Overlay.Enters (o : Overlay) (out : Path) (d : Text) : Prop where
  isName : d.IsName
  destination : o.destination = out.child d

/-- A file below the source has a path below the output directory. -/
theorem Overlay.Enters.exists_path (h : o.Enters out d) {below : List Text}
    (hbelow : ∀ n ∈ below, n.IsName) :
    ∃ q, ((o.source.strip? (o.source.descend below)).bind fun p =>
        out.strip? (o.destination.join p)) = some q ∧
      q.components = (d :: below).map .name := by
  have hfile := o.source.components_descend hbelow
  obtain ⟨p, hp⟩ := Path.exists_strip? (hfile ▸ List.prefix_append _ _)
  have hcomponents : p.components = below.map .name := by
    have hwhole := Path.components_strip? hp
    rw [hfile] at hwhole
    exact (List.append_cancel_left hwhole).symm
  have hdestination : o.destination.components = out.components ++ [.name d] := by
    rw [h.destination, out.components_child h.isName]
  have htext : o.destination.text ≠ [] := by
    rw [h.destination]
    exact out.text_child_ne_nil h.isName.1
  have hjoined : (o.destination.join p).components =
      out.components ++ (d :: below).map .name := by
    rw [Path.components_join htext (Path.isAbsolute_of_names hcomponents), hdestination,
      Path.inner_of_names hcomponents, List.append_assoc]
    rfl
  obtain ⟨q, hq⟩ := Path.exists_strip? (hjoined ▸ List.prefix_append _ _)
  refine ⟨q, ?_, ?_⟩
  · rw [hp, Option.bind_some, hq]
  · have hwhole := Path.components_strip? hq
    rw [hjoined] at hwhole
    exact (List.append_cancel_left hwhole).symm

namespace FileTree

/-! ### One overlay -/

theorem Plain.exists_overlayPathsOf (ht : t.Plain) (hsource : t.isDirectory o.source = true)
    (out : Path) : ∃ qs, t.overlayPathsOf out o = .ok qs := by
  obtain ⟨files, hfiles⟩ := ht.exists_filesUnder hsource
  rw [overlayPathsOf, hfiles]
  exact ⟨_, rfl⟩

theorem overlayPathsOf_eq_ok {qs : List Path} (h : t.overlayPathsOf out o = .ok qs) :
    ∃ dir files, t.list o.source = .ok dir ∧
      t.filesBelow longestPath o.source dir.names = .ok files ∧
      qs = files.filterMap fun file =>
        (o.source.strip? file).bind fun below => out.strip? (o.destination.join below) := by
  rw [overlayPathsOf, filesUnder] at h
  cases hlist : t.list o.source with
  | error why =>
    rw [hlist] at h
    cases h
  | ok dir =>
    rw [hlist] at h
    change (t.filesBelow longestPath o.source dir.names).map _ = _ at h
    cases hfiles : t.filesBelow longestPath o.source dir.names with
    | error why =>
      rw [hfiles] at h
      cases h
    | ok files =>
      rw [hfiles] at h
      exact ⟨dir, files, rfl, hfiles, (Except.ok.inj h).symm⟩

theorem Plain.of_mem_overlayPathsOf (ht : t.Plain) (ho : o.Enters out d) {qs : List Path}
    (h : t.overlayPathsOf out o = .ok qs) {q : Path} (hq : q ∈ qs) :
    ∃ below e, q.components = (d :: below).map .name ∧ (∀ n ∈ below, n.IsName) ∧
      t.entry? (o.source.place t.here ++ below) = some e ∧
      t.isDirectory (o.source.descend below) = false := by
  obtain ⟨dir, files, hlist, hfiles, rfl⟩ := overlayPathsOf_eq_ok h
  obtain ⟨file, hfile, hpath⟩ := List.mem_filterMap.1 hq
  have hsource : t.entry? (o.source.place t.here) = some (.directory dir) :=
    locate_holds (ht.list_eq_ok_iff.1 hlist)
  have hplain : dir.Plain := ht.top.of_at? hsource
  have hnames : ∀ n ∈ dir.names,
      n.IsName ∧ ∃ e, t.entry? (o.source.place t.here ++ [n]) = some e := by
    intro n hn
    exact ⟨hplain.isName hn, exists_entry_of_mem_names hsource hn⟩
  obtain ⟨below, e, rfl, hbelow, he, hleaf⟩ := ht.of_mem_filesBelow hnames hfiles hfile
  obtain ⟨q', hq', hcomponents⟩ := ho.exists_path hbelow
  obtain rfl : q' = q := Option.some.inj (hq'.symm.trans hpath)
  exact ⟨below, e, hcomponents, hbelow, he, hleaf⟩

theorem Plain.mem_overlayPathsOf (ht : t.Plain) (ho : o.Enters out d) {qs : List Path}
    (h : t.overlayPathsOf out o = .ok qs) {n : Text} {e : Entry}
    (he : t.entry? (o.source.place t.here ++ [n]) = some e)
    (hleaf : t.isDirectory (o.source.child n) = false) :
    ∃ q ∈ qs, q.components = [.name d, .name n] := by
  obtain ⟨dir, files, hlist, hfiles, rfl⟩ := overlayPathsOf_eq_ok h
  have hsource : t.entry? (o.source.place t.here) = some (.directory dir) :=
    locate_holds (ht.list_eq_ok_iff.1 hlist)
  have hn : n ∈ dir.names := mem_names_of_entry? hsource he
  have hname : ∀ m ∈ [n], m.IsName := by
    intro m hm
    exact List.mem_singleton.1 hm ▸ ht.isName he
  have hfile := mem_filesBelow_of_leaf hn hleaf hfiles
  obtain ⟨q, hq, hcomponents⟩ := ho.exists_path hname
  exact ⟨q, List.mem_filterMap.2 ⟨_, hfile, hq⟩, hcomponents⟩

/-! ### All overlays -/

theorem Plain.exists_overlayPaths (ht : t.Plain) {os : List Overlay}
    (hsources : ∀ o ∈ os, t.isDirectory o.source = true) (out : Path) :
    ∃ qs, t.overlayPaths out os = .ok qs := by
  induction os with
  | nil => exact ⟨[], rfl⟩
  | cons o os ih =>
    obtain ⟨hsource, hrest⟩ := List.forall_mem_cons.1 hsources
    obtain ⟨first, hfirst⟩ := ht.exists_overlayPathsOf hsource out
    obtain ⟨others, hothers⟩ := ih hrest
    rw [overlayPaths, hfirst, hothers]
    exact ⟨first ++ others, rfl⟩

theorem mem_overlayPaths_iff {os : List Overlay} {qs : List Path}
    (h : t.overlayPaths out os = .ok qs) {q : Path} :
    q ∈ qs ↔ ∃ o ∈ os, ∃ first, t.overlayPathsOf out o = .ok first ∧ q ∈ first := by
  induction os generalizing qs with
  | nil =>
    cases h
    simp
  | cons o os ih =>
    rw [overlayPaths] at h
    cases hfirst : t.overlayPathsOf out o with
    | error why =>
      rw [hfirst] at h
      cases h
    | ok first =>
      cases hothers : t.overlayPaths out os with
      | error why =>
        rw [hfirst, hothers] at h
        cases h
      | ok others =>
        rw [hfirst, hothers] at h
        obtain rfl : first ++ others = qs := Except.ok.inj h
        rw [List.mem_append, ih hothers, List.exists_mem_cons_iff, hfirst]
        simp

end FileTree

namespace FileTree

theorem Plain.of_shadowed (ht : t.Plain) {os : List Overlay} (hos : ∀ o ∈ os, ∃ d, o.Enters out d)
    {shadowed : List Path} (h : t.overlayPaths out os = .ok shadowed) {p : Path}
    (hp : shadowed.any p.agrees = true) :
    ∃ o ∈ os, ∃ below e, (out.join p).place t.here = o.destination.place t.here ++ below ∧
      (∀ n ∈ below, n.IsName) ∧ t.entry? (o.source.place t.here ++ below) = some e ∧
      t.isDirectory (o.source.descend below) = false := by
  obtain ⟨q, hq, hagrees⟩ := List.any_eq_true.1 hp
  have hsame : p.components = q.components := eq_of_beq hagrees
  obtain ⟨o, ho, first, hfirst, hq⟩ := (mem_overlayPaths_iff h).1 hq
  obtain ⟨d, hd⟩ := hos o ho
  obtain ⟨below, e, hcomponents, hbelow, he, hleaf⟩ := ht.of_mem_overlayPathsOf hd hfirst hq
  refine ⟨o, ho, below, e, ?_, hbelow, he, hleaf⟩
  rw [hcomponents] at hsame
  rw [out.place_join_names hsame, hd.destination, out.place_child hd.isName, List.append_assoc]
  rfl

end FileTree

/-! ### Planned overlays -/

theorem mem_overlays_iff {primary : Path} {s : Settings} :
    o ∈ t.overlays primary out s ↔
      t.isDirectory o.source = true ∧
        (o = ⟨(primary.join s.fragmentsDir).join classesDir, out.join classesDir⟩ ∨
          o = ⟨(primary.join s.fragmentsDir).join tablesDir, out.join tablesDir⟩) := by
  rw [FileTree.overlays, List.mem_filter, and_comm]
  simp

theorem exists_enters {primary : Path} {s : Settings} (h : o ∈ t.overlays primary out s) :
    ∃ d, o.Enters out d := by
  obtain ⟨-, rfl | rfl⟩ := mem_overlays_iff.1 h
  · exact ⟨"classes".toList, by decide, rfl⟩
  · exact ⟨"tables".toList, by decide, rfl⟩

/-- What the overlays have below one place, by the names of their two directories, is apart. -/
theorem pairwise_overlays_of {primary : Path} {s : Settings} {f : Overlay → List Text}
    {place : List Text}
    (hf : ∀ n : Text, n.IsName →
      f ⟨(primary.join s.fragmentsDir).child n, out.child n⟩ = place ++ [n]) :
    (t.overlays primary out s).Pairwise fun o o' => Apart (f o) (f o') := by
  have hclasses := hf "classes".toList (by decide)
  have htables := hf "tables".toList (by decide)
  refine List.Pairwise.filter _ ?_
  simp only [List.map_cons, List.map_nil, List.pairwise_cons, List.mem_singleton,
    forall_eq, List.not_mem_nil, false_imp_iff, implies_true, List.Pairwise.nil, and_true]
  change Apart (f ⟨(primary.join s.fragmentsDir).child _, out.child _⟩)
    (f ⟨(primary.join s.fragmentsDir).child _, out.child _⟩)
  rw [hclasses, htables]
  exact apart_concat (by decide)

theorem pairwise_overlays (t : FileTree) (primary out : Path) (s : Settings) (here : List Text) :
    (t.overlays primary out s).Pairwise fun o o' =>
      Apart (o.destination.place here) (o'.destination.place here) :=
  pairwise_overlays_of fun _ hn => out.place_child hn here

theorem pairwise_sources (t : FileTree) (primary out : Path) (s : Settings) (here : List Text) :
    (t.overlays primary out s).Pairwise fun o o' =>
      Apart (o.source.place here) (o'.source.place here) :=
  pairwise_overlays_of fun _ hn => (primary.join s.fragmentsDir).place_child hn here

end LuaReference
