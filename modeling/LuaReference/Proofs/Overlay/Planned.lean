import LuaReference.Proofs.Overlay.Steps
import Mathlib.Data.List.Forall2
import Mathlib.Data.List.Nodup
import Mathlib.Data.List.Perm.Subperm

/-!
# Planned copies

What the steps of a copy are, before it is made: they enter directories of the sources, each of
them once (`nodup_copySteps`), and fill the files whose paths are listed for the output directory
(`overlayPaths_places`).
-/

namespace LuaReference

/-! ### Directories of a tree -/

/-- The places of the directories below a directory. -/
def Directory.directories : Directory → List (List Text)
  | empty => []
  | file _ _ rest => rest.directories
  | link _ _ rest => rest.directories
  | sub name inner rest => ([] :: inner.directories).map (name :: ·) ++ rest.directories

def Entry.directories : Entry → List (List Text)
  | directory d => [] :: d.directories
  | _ => []

theorem Directory.mem_directories {d found : Directory} {n : Text} {below : List Text} {e : Entry}
    (hn : d.find? n = some e) (he : e.at? below = some (.directory found)) :
    n :: below ∈ d.directories := by
  induction d generalizing n below e with
  | empty => cases hn
  | file m b rest ih =>
    rw [find?] at hn
    split at hn
    · cases hn
      cases below <;> cases he
    · exact ih hn he
  | link m target rest ih =>
    rw [find?] at hn
    split at hn
    · cases hn
      cases below <;> cases he
    · exact ih hn he
  | sub m inner rest ihInner ih =>
    rw [find?] at hn
    rw [directories, List.mem_append]
    split at hn
    · next hm =>
      left
      cases hn
      refine List.mem_map.2 ⟨below, ?_, congrArg (· :: below) hm⟩
      cases below with
      | nil => exact List.mem_cons_self
      | cons k below =>
        obtain ⟨e, hk, he⟩ := Option.bind_eq_some_iff.1 he
        exact List.mem_cons_of_mem _ (ihInner hk he)
    · exact Or.inr (ih hn he)

theorem Entry.mem_directories {e : Entry} {place : List Text} {found : Directory}
    (h : e.at? place = some (.directory found)) : place ∈ e.directories := by
  cases e with
  | file b => cases place <;> cases h
  | link target => cases place <;> cases h
  | directory d =>
    cases place with
    | nil => exact List.mem_cons_self
    | cons n below =>
      obtain ⟨e, hn, he⟩ := Option.bind_eq_some_iff.1 h
      exact List.mem_cons_of_mem _ (Directory.mem_directories hn he)

namespace FileTree

/-- The places of the directories at and below the sources of overlays. -/
def sourceDirectories (t : FileTree) (os : List Overlay) : List (List Text) :=
  t.top.directories.filter fun x => os.any fun o => decide (o.source.place t.here <+: x)

/-- The places of the directories that steps list. -/
def enteredPlaces (t : FileTree) (steps : List CopyStep) : List (List Text) :=
  (steps.filterMap CopyStep.entered?).map (·.place t.here)

/-- The places of the files that steps create or overwrite. -/
def filledPlaces (t : FileTree) (steps : List CopyStep) : List (List Text) :=
  (steps.filterMap CopyStep.filled?).map (·.place t.here)

end FileTree

section Plan

variable {t : FileTree} {source destination : Path} {names below : List Text} {depth : Nat}
  {os : List Overlay} {s : CopyStep}

/-! ### Where the steps are -/

/-- The step is for an entry so far below a directory, which is copied so far below another. -/
structure CopyStep.IsAt (t : FileTree) (source destination : Path) (below : List Text)
    (s : CopyStep) : Prop where
  isName : ∀ n ∈ below, n.IsName
  source_eq : s.source = source.descend below
  destination_eq : s.destination = destination.descend below
  entry : ∃ e, t.entry? (source.place t.here ++ below) = some e
  isDirectory : ∀ p, s.entered? = some p → p = s.source ∧ t.isDirectory p = true

theorem CopyStep.IsAt.cons {n : Text} (hn : n.IsName)
    (h : s.IsAt t (source.child n) (destination.child n) below) :
    s.IsAt t source destination (n :: below) where
  isName := List.forall_mem_cons.2 ⟨hn, h.isName⟩
  source_eq := h.source_eq
  destination_eq := h.destination_eq
  entry := by
    have hentry := h.entry
    rw [source.place_child hn, List.append_assoc] at hentry
    exact hentry
  isDirectory := h.isDirectory

theorem FileTree.Plain.of_mem_entriesSteps (ht : t.Plain)
    (hnames : ∀ n ∈ names, n.IsName ∧ ∃ e, t.entry? (source.place t.here ++ [n]) = some e)
    (hs : s ∈ t.entriesSteps depth source destination names) :
    ∃ n ∈ names, ∃ below, s.IsAt t source destination (n :: below) := by
  induction depth generalizing source destination names with
  | zero => exact absurd hs List.not_mem_nil
  | succ depth ih =>
    rw [entriesSteps] at hs
    obtain ⟨n, hn, hs⟩ := List.mem_flatMap.1 hs
    obtain ⟨hname, hentry⟩ := hnames n hn
    rw [← source.place_child hname] at hentry
    refine ⟨n, hn, ?_⟩
    rw [entrySteps] at hs
    split at hs
    · next hdir =>
      rcases List.mem_cons.1 hs with rfl | hs
      · refine ⟨[], .cons hname ⟨fun _ hm => absurd hm List.not_mem_nil, rfl, rfl, ?_, ?_⟩⟩
        · rw [List.append_nil]
          exact hentry
        · rintro _ ⟨⟩
          exact ⟨rfl, hdir⟩
      · obtain ⟨m, -, below, hbelow⟩ := ih (fun m hm => ht.of_mem_namesIn hm) hs
        exact ⟨m :: below, hbelow.cons hname⟩
    · obtain rfl := List.mem_singleton.1 hs
      refine ⟨[], .cons hname ⟨fun _ hm => absurd hm List.not_mem_nil, rfl, rfl, ?_, ?_⟩⟩
      · rw [List.append_nil]
        exact hentry
      · rintro _ ⟨⟩

theorem FileTree.Plain.of_mem_overlaySteps (ht : t.Plain) {o : Overlay}
    (ho : t.isDirectory o.source = true) (hs : s ∈ t.overlaySteps o) :
    ∃ below, s.IsAt t o.source o.destination below := by
  rw [overlaySteps] at hs
  rcases List.mem_cons.1 hs with rfl | hs
  · obtain ⟨d, -, hentry, -⟩ := ht.exists_list ho
    refine ⟨[], fun _ hm => absurd hm List.not_mem_nil, rfl, rfl, ⟨.directory d, ?_⟩, ?_⟩
    · rw [List.append_nil]
      exact hentry
    · rintro _ ⟨⟩
      exact ⟨rfl, ho⟩
  · obtain ⟨n, -, below, hbelow⟩ := ht.of_mem_entriesSteps (fun m hm => ht.of_mem_namesIn hm) hs
    exact ⟨n :: below, hbelow⟩

/-! ### Each directory once -/

theorem FileTree.enteredPlaces_flatMap {α : Type} (t : FileTree) (f : α → List CopyStep)
    (as : List α) :
    t.enteredPlaces (as.flatMap f) = as.flatMap fun a => t.enteredPlaces (f a) := by
  rw [enteredPlaces, List.filterMap_flatMap, List.map_flatMap]
  rfl

theorem FileTree.mem_enteredPlaces {ss : List CopyStep} {x : List Text} :
    x ∈ t.enteredPlaces ss ↔ ∃ s ∈ ss, ∃ p, s.entered? = some p ∧ p.place t.here = x := by
  simp only [enteredPlaces, List.mem_map, List.mem_filterMap]
  constructor
  · rintro ⟨p, ⟨s, hs, hp⟩, hx⟩
    exact ⟨s, hs, p, hp, hx⟩
  · rintro ⟨s, hs, p, hp, hx⟩
    exact ⟨p, ⟨s, hs, hp⟩, hx⟩

theorem FileTree.Plain.nodup_namesIn (ht : t.Plain) (hdistinct : t.top.Distinct) (p : Path) :
    (t.namesIn p).Nodup := by
  rw [namesIn]
  split
  · exact List.nodup_nil
  · next d hlist =>
    have hentry := locate_holds (ht.list_eq_ok_iff.1 hlist)
    have hd : d.Distinct := hdistinct.of_at? hentry
    exact hd.nodup

theorem CopyStep.IsAt.place_entered (h : s.IsAt t source destination below) {p : Path}
    (hp : s.entered? = some p) : p.place t.here = source.place t.here ++ below := by
  rw [(h.isDirectory p hp).1, h.source_eq, source.place_descend h.isName]

theorem FileTree.Plain.of_mem_enteredPlaces (ht : t.Plain)
    (hnames : ∀ n ∈ names, n.IsName ∧ ∃ e, t.entry? (source.place t.here ++ [n]) = some e)
    {x : List Text}
    (hx : x ∈ t.enteredPlaces (t.entriesSteps depth source destination names)) :
    ∃ n ∈ names, source.place t.here ++ [n] <+: x := by
  obtain ⟨s, hs, p, hp, rfl⟩ := mem_enteredPlaces.1 hx
  obtain ⟨n, hn, below, hbelow⟩ := ht.of_mem_entriesSteps hnames hs
  refine ⟨n, hn, below, ?_⟩
  rw [hbelow.place_entered hp, List.append_assoc]
  rfl

/-- A directory and those in it are entered once each, when it is itself. -/
theorem nodup_cons_entered (ht : t.Plain)
    (h : (t.enteredPlaces (t.entriesSteps depth source destination (t.namesIn source))).Nodup) :
    (t.enteredPlaces (.enter source destination ::
      t.entriesSteps depth source destination (t.namesIn source))).Nodup := by
  refine List.nodup_cons.2 ⟨fun hself => ?_, h⟩
  obtain ⟨n, -, hn⟩ := ht.of_mem_enteredPlaces (fun m hm => ht.of_mem_namesIn hm) hself
  have hlength : (source.place t.here ++ [n]).length ≤ (source.place t.here).length := hn.length_le
  rw [List.length_append] at hlength
  exact absurd hlength (Nat.not_succ_le_self _)

theorem FileTree.Plain.nodup_entriesSteps (ht : t.Plain) (hdistinct : t.top.Distinct)
    (hnames : ∀ n ∈ names, n.IsName ∧ ∃ e, t.entry? (source.place t.here ++ [n]) = some e)
    (hnodup : names.Nodup) :
    (t.enteredPlaces (t.entriesSteps depth source destination names)).Nodup := by
  induction depth generalizing source destination names with
  | zero => exact List.nodup_nil
  | succ depth ih =>
    rw [entriesSteps, enteredPlaces_flatMap, List.nodup_flatMap]
    constructor
    · intro n hn
      rw [entrySteps]
      split
      · exact nodup_cons_entered ht
          (ih (fun m hm => ht.of_mem_namesIn hm) (ht.nodup_namesIn hdistinct _))
      · exact List.nodup_nil
    · -- what is entered for one name lies below that name
      have hunder : ∀ n ∈ names, ∀ x ∈ t.enteredPlaces
          (t.entrySteps (t.entriesSteps depth) source destination n),
          source.place t.here ++ [n] <+: x := by
        intro n hn x hx
        have hone : x ∈ t.enteredPlaces (t.entriesSteps (depth + 1) source destination [n]) := by
          rw [entriesSteps, List.flatMap_singleton]
          exact hx
        obtain ⟨m, hm, hbelow⟩ := ht.of_mem_enteredPlaces
          (List.forall_mem_singleton.2 (hnames n hn)) hone
        exact List.mem_singleton.1 hm ▸ hbelow
      refine hnodup.imp_of_mem fun {n m} hn hm hne x hx hx' => ?_
      have hapart := apart_concat (x := source.place t.here) hne
      exact hapart.not_prefix (hunder n hn x hx) (hunder m hm x hx')

/-! ### Listed files -/

/-- The two paths lead to the same entry below the one directory and below the other. -/
def Parallel (source destination file copy : Path) : Prop :=
  ∃ below, (∀ n ∈ below, n.IsName) ∧ file = source.descend below ∧
    copy = destination.descend below

theorem Parallel.cons {n : Text} (hn : n.IsName) {file copy : Path}
    (h : Parallel (source.child n) (destination.child n) file copy) :
    Parallel source destination file copy := by
  obtain ⟨below, hbelow, hfile, hcopy⟩ := h
  exact ⟨n :: below, List.forall_mem_cons.2 ⟨hn, hbelow⟩, hfile, hcopy⟩

/-- The files that are listed below a directory are those that are filled, in the same order. -/
theorem FileTree.Plain.forall₂_filesBelow (ht : t.Plain) (hnames : ∀ n ∈ names, n.IsName)
    {files : List Path} (h : t.filesBelow depth source names = .ok files) :
    List.Forall₂ (Parallel source destination) files
      ((t.entriesSteps depth source destination names).filterMap CopyStep.filled?) := by
  induction depth generalizing source destination names files with
  | zero =>
    cases names with
    | nil =>
      rw [filesBelow] at h
      cases h
      exact .nil
    | cons n names =>
      rw [filesBelow] at h
      cases h
  | succ depth ih =>
    rw [entriesSteps]
    induction names generalizing files with
    | nil =>
      rw [filesBelow] at h
      cases h
      exact .nil
    | cons n names ihNames =>
      obtain ⟨hn, hothers⟩ := List.forall_mem_cons.1 hnames
      obtain ⟨first, others, hlisted, rfl, hfirst⟩ := filesBelow_cons_eq_ok h
      rw [List.flatMap_cons, List.filterMap_append]
      refine List.rel_append ?_ (ihNames hothers hlisted)
      rw [entrySteps]
      obtain ⟨hleaf, rfl⟩ | ⟨hsub, d, hlist, hinside⟩ := hfirst
      · rw [if_neg (by simp [hleaf])]
        exact .cons ⟨[n], List.forall_mem_singleton.2 hn, rfl, rfl⟩ .nil
      · have hnamesIn : t.namesIn (source.child n) = d.names := by rw [namesIn, hlist]; rfl
        rw [if_pos hsub, hnamesIn, List.filterMap_cons_none rfl]
        exact (ih (fun m hm => ht.isName_of_list hlist hm) hinside).imp fun _ _ => .cons hn

/-- Seen from the output directory, a listed file is where its copy is. -/
theorem Overlay.Enters.place_of_parallel {o : Overlay} {out : Path} {d : Text}
    (ho : o.Enters out d) {file copy : Path} (h : Parallel o.source o.destination file copy)
    (here : List Text) :
    ∃ q, ((o.source.strip? file).bind fun p => out.strip? (o.destination.join p)) = some q ∧
      (out.join q).place here = copy.place here := by
  obtain ⟨below, hbelow, rfl, rfl⟩ := h
  obtain ⟨q, hq, hcomponents⟩ := ho.exists_path hbelow
  refine ⟨q, hq, ?_⟩
  rw [out.place_join_names hcomponents, o.destination.place_descend hbelow, ho.destination,
    out.place_child ho.isName, List.append_assoc]
  rfl

theorem Overlay.Enters.map_place {o : Overlay} {out : Path} {d : Text} (ho : o.Enters out d)
    {files copies : List Path}
    (h : List.Forall₂ (Parallel o.source o.destination) files copies) (here : List Text) :
    (files.filterMap fun file =>
        (o.source.strip? file).bind fun p => out.strip? (o.destination.join p)).map
      (fun q => (out.join q).place here) = copies.map (·.place here) := by
  induction h with
  | nil => rfl
  | cons hfirst _ ih =>
    obtain ⟨q, hq, hplace⟩ := ho.place_of_parallel hfirst here
    rw [List.filterMap_cons, hq, List.map_cons, List.map_cons, ← ih, ← hplace]

theorem FileTree.Plain.overlayPathsOf_places (ht : t.Plain) {o : Overlay} {out : Path} {d : Text}
    (ho : o.Enters out d) {qs : List Path} (h : t.overlayPathsOf out o = .ok qs) :
    qs.map (fun q => (out.join q).place t.here) = t.filledPlaces (t.overlaySteps o) := by
  obtain ⟨dir, files, hlist, hfiles, rfl⟩ := overlayPathsOf_eq_ok h
  have hnamesIn : t.namesIn o.source = dir.names := by rw [namesIn, hlist]; rfl
  rw [filledPlaces, overlaySteps, List.filterMap_cons_none rfl, hnamesIn]
  exact ho.map_place
    (ht.forall₂_filesBelow (fun n hn => ht.isName_of_list hlist hn) hfiles) t.here

/-- The listed paths lead to the files that the copies fill, in the same order. -/
theorem FileTree.Plain.overlayPaths_places (ht : t.Plain) {out : Path}
    (hos : ∀ o ∈ os, ∃ d, o.Enters out d) {qs : List Path} (h : t.overlayPaths out os = .ok qs) :
    qs.map (fun q => (out.join q).place t.here) = t.filledPlaces (t.copySteps os) := by
  induction os generalizing qs with
  | nil =>
    cases h
    rfl
  | cons o os ih =>
    obtain ⟨⟨d, ho⟩, hothers⟩ := List.forall_mem_cons.1 hos
    rw [overlayPaths] at h
    cases hfirst : t.overlayPathsOf out o with
    | error why =>
      rw [hfirst] at h
      cases h
    | ok first =>
      cases hrest : t.overlayPaths out os with
      | error why =>
        rw [hfirst, hrest] at h
        cases h
      | ok others =>
        rw [hfirst, hrest] at h
        obtain rfl : first ++ others = qs := Except.ok.inj h
        rw [List.map_append, ht.overlayPathsOf_places ho hfirst, ih hothers hrest, copySteps,
          copySteps, List.flatMap_cons, filledPlaces, filledPlaces, filledPlaces,
          List.filterMap_append, List.map_append]

/-! ### All sources -/

variable (hsources : ∀ o ∈ os, t.isDirectory o.source = true)

include hsources

theorem FileTree.Plain.of_mem_copySteps (ht : t.Plain) (hs : s ∈ t.copySteps os) :
    ∃ o ∈ os, ∃ below, s.IsAt t o.source o.destination below := by
  obtain ⟨o, ho, hs⟩ := List.mem_flatMap.1 hs
  exact ⟨o, ho, ht.of_mem_overlaySteps (hsources o ho) hs⟩

/-- Every directory that a step lists is a directory of a source. -/
theorem inSource_of_entered (ht : t.Plain) (hs : s ∈ t.copySteps os) {p : Path}
    (hp : s.entered? = some p) : InSource t os p := by
  obtain ⟨o, ho, below, hbelow⟩ := ht.of_mem_copySteps hsources hs
  obtain ⟨rfl, hdir⟩ := hbelow.isDirectory p hp
  refine ⟨hdir, o, ho, ?_⟩
  rw [hbelow.source_eq, o.source.place_descend hbelow.isName]
  exact List.prefix_append _ _

/-- No directory is entered twice when the sources are apart. -/
theorem FileTree.Plain.nodup_copySteps (ht : t.Plain) (hdistinct : t.top.Distinct)
    (hapart : os.Pairwise fun o o' => Apart (o.source.place t.here) (o'.source.place t.here)) :
    (t.enteredPlaces (t.copySteps os)).Nodup := by
  rw [copySteps, enteredPlaces_flatMap, List.nodup_flatMap]
  constructor
  · intro o _
    exact nodup_cons_entered ht (ht.nodup_entriesSteps hdistinct
      (fun m hm => ht.of_mem_namesIn hm) (ht.nodup_namesIn hdistinct _))
  · have hunder : ∀ o ∈ os, ∀ x ∈ t.enteredPlaces (t.overlaySteps o),
        o.source.place t.here <+: x := by
      intro o ho x hx
      obtain ⟨s, hs, p, hp, rfl⟩ := mem_enteredPlaces.1 hx
      obtain ⟨below, hbelow⟩ := ht.of_mem_overlaySteps (hsources o ho) hs
      exact ⟨below, (hbelow.place_entered hp).symm⟩
    refine hapart.imp_of_mem fun {o o'} ho ho' h x hx hx' => ?_
    exact h.not_prefix (hunder o ho x hx) (hunder o' ho' x hx')

/-- So there are no more steps that list a directory than directories in the sources. -/
theorem FileTree.Plain.length_enteredPlaces_le (ht : t.Plain)
    (hnodup : (t.enteredPlaces (t.copySteps os)).Nodup) :
    (t.enteredPlaces (t.copySteps os)).length ≤ (t.sourceDirectories os).length := by
  refine (List.subperm_of_subset hnodup fun x hx => ?_).length_le
  obtain ⟨s, hs, p, hp, rfl⟩ := mem_enteredPlaces.1 hx
  obtain ⟨hdir, o, ho, hbelow⟩ := inSource_of_entered hsources ht hs hp
  obtain ⟨d, -, hentry, -⟩ := ht.exists_list hdir
  refine List.mem_filter.2 ⟨Entry.mem_directories hentry, List.any_eq_true.2 ⟨o, ho, ?_⟩⟩
  exact decide_eq_true hbelow

end Plan

end LuaReference
