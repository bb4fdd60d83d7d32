import LuaReference.Proofs.Files.Contracts
import LuaReference.Proofs.Files.Skeleton
import LuaReference.Proofs.Overlay.Shadows
import LuaReference.Proofs.Overlay.Touches

/-!
# The steps of a copy

A copy enters directories and fills files. `copySteps` reads its steps off a tree in which nothing
has been copied yet. When no step makes anything new in a source, the copy is these steps, one
after the other: `copyOverlays_eq_each`. So the directories that it lists are those that it finds
at its start, however it ends.
-/

namespace LuaReference

open FileTree (SameSkeleton)

/-- A step of a copy. It enters a directory, after its counterpart was made, or fills a file. -/
inductive CopyStep where
  | enter (source destination : Path)
  | fill (source destination : Path)
  deriving DecidableEq

namespace CopyStep

def run : CopyStep → Job Unit
  | enter source destination => do
    .changes (FileTree.makeDirectories destination)
    let _ ← Job.names source
  | fill source destination => do
    .change (FileTree.copyFile source destination)
    .note (.event (.copiedFragment destination))

def source : CopyStep → Path
  | enter source _ => source
  | fill source _ => source

def destination : CopyStep → Path
  | enter _ destination => destination
  | fill _ destination => destination

/-- The directory that the step lists. -/
def entered? : CopyStep → Option Path
  | enter source _ => some source
  | fill _ _ => none

/-- The file that the step creates or overwrites. -/
def filled? : CopyStep → Option Path
  | enter _ _ => none
  | fill _ destination => some destination

variable {source destination : Path} {t t' : FileTree}

theorem enter_done (h : (enter source destination).run.Done t () t') :
    (Job.changes (FileTree.makeDirectories destination)).Done t () t' ∧
      ∃ names, (Job.names source).Done t' names t' := by
  obtain ⟨_, made, hmade, h⟩ := Job.done_bind h
  obtain ⟨names, last, hlisted, hlast⟩ := Job.done_bind h
  obtain rfl := (done_names hlisted).1
  obtain rfl := Job.done_pure hlast
  exact ⟨hmade, names, hlisted⟩

theorem fill_done (h : (fill source destination).run.Done t () t') :
    (Job.change (FileTree.copyFile source destination)).Done t () t' := by
  obtain ⟨_, copied, hcopied, hnoted⟩ := Job.done_bind h
  obtain rfl := Job.done_note hnoted
  exact hcopied

/-- The places where there is something after the step. -/
def Makes (here : List Text) : CopyStep → List Text → Prop
  | enter _ destination, x => destination.Passes here x
  | fill _ destination, x => x = destination.place here

end CopyStep

/-! ### Planned steps -/

namespace FileTree

/-- The steps for one entry of a directory; those for what is in it are `inside`. -/
def entrySteps (t : FileTree)
    (inside : (source destination : Path) → List Text → List CopyStep)
    (source destination : Path) (name : Text) : List CopyStep :=
  if t.isDirectory (source.child name) then
    .enter (source.child name) (destination.child name) ::
      inside (source.child name) (destination.child name) (t.namesIn (source.child name))
  else [.fill (source.child name) (destination.child name)]

def entriesSteps (t : FileTree) : (depth : Nat) → (source destination : Path) → List Text →
    List CopyStep
  | 0, _, _, _ => []
  | depth + 1, source, destination, names =>
    names.flatMap (t.entrySteps (t.entriesSteps depth) source destination)

def overlaySteps (t : FileTree) (o : Overlay) : List CopyStep :=
  .enter o.source o.destination ::
    t.entriesSteps longestPath o.source o.destination (t.namesIn o.source)

/-- The steps of the copies, as the tree is before the first of them. -/
def copySteps (t : FileTree) (os : List Overlay) : List CopyStep := os.flatMap t.overlaySteps

/-- The step makes nothing new at or below a source. -/
def Spares (t : FileTree) (os : List Overlay) (s : CopyStep) : Prop :=
  ∀ o ∈ os, ∀ x, o.source.place t.here <+: x → s.Makes t.here x → t.entry? x ≠ none

/-- No step of the copies makes anything new at or below a source. -/
def NothingNew (t : FileTree) (os : List Overlay) : Prop := ∀ s ∈ t.copySteps os, t.Spares os s

end FileTree

/-! ### What the steps keep -/

/-- The copies have left their sources as they were, but for the bytes of files. -/
structure SourcesKept (os : List Overlay) (t u : FileTree) : Prop where
  plain : u.Plain
  here : u.here = t.here
  directories : t.KeepsDirectories u
  skeletons : ∀ o ∈ os, SameSkeleton (o.source.place t.here) t u

section Kept

variable {t u : FileTree} {os : List Overlay}

theorem SourcesKept.refl (ht : t.Plain) : SourcesKept os t t :=
  ⟨ht, rfl, fun _ d hd => ⟨d, hd⟩, fun _ _ => .refl t⟩

theorem SourcesKept.skeleton_below (hu : SourcesKept os t u) {x : List Text}
    (hx : ∃ o ∈ os, o.source.place t.here <+: x) : SameSkeleton x t u := by
  obtain ⟨o, ho, below, rfl⟩ := hx
  exact (hu.skeletons o ho).append below

/-- What a step makes in a source is there, while the sources are kept. -/
theorem SourcesKept.makes_there (hu : SourcesKept os t u) {s : CopyStep} (hs : t.Spares os s)
    {o : Overlay} (ho : o ∈ os) {x : List Text} (hx : o.source.place t.here <+: x)
    (hmakes : s.Makes t.here x) : u.entry? x ≠ none :=
  (hu.skeleton_below ⟨o, ho, hx⟩).exists_entry (hs o ho x hx hmakes)

variable (hsources : ∀ o ∈ os, ∃ d, t.entry? (o.source.place t.here) = some (.directory d))

include hsources

theorem SourcesKept.source_there (hu : SourcesKept os t u) {o : Overlay} (ho : o ∈ os) :
    u.entry? (o.source.place t.here) ≠ none := by
  obtain ⟨d, hd⟩ := hsources o ho
  refine (hu.skeletons o ho).exists_entry ?_
  rw [hd]
  exact Option.some_ne_none _

theorem SourcesKept.makeDirectories (hu : SourcesKept os t u) {source destination : Path}
    (hs : t.Spares os (.enter source destination)) :
    SourcesKept os t (u.makeDirectories destination).1 := by
  have hedits := hu.plain.edits_makeDirectories destination
  refine ⟨hedits.plain hu.plain, hedits.here.trans hu.here,
    hu.directories.trans hedits.keepsDirectories, fun o ho => ?_⟩
  refine (hu.skeletons o ho).trans (hedits.sameSkeleton (hu.source_there hsources ho) ?_)
  intro x hmakes hx
  rw [hu.here] at hmakes
  exact hu.makes_there hs ho hx hmakes

theorem SourcesKept.copyFile (hu : SourcesKept os t u) {source destination : Path}
    (hs : t.Spares os (.fill source destination)) {u' : FileTree}
    (h : u.copyFile source destination = .ok u') : SourcesKept os t u' := by
  have hedits := (hu.plain.edits_copyFile h).1
  refine ⟨hedits.plain hu.plain, hedits.here.trans hu.here,
    hu.directories.trans hedits.keepsDirectories, fun o ho => ?_⟩
  refine (hu.skeletons o ho).trans
    (hu.plain.sameSkeleton_copyFile (hu.source_there hsources ho) ?_ h)
  intro hx
  rw [hu.here] at hx ⊢
  exact hu.makes_there hs ho hx rfl

theorem meets_step {s : CopyStep} (hs : t.Spares os s) :
    s.run.Meets (SourcesKept os t) (fun _ => SourcesKept os t) fun _ => True := by
  refine ⟨fun u _ u' hu hdone => ?_, fun _ _ _ _ => trivial⟩
  cases s with
  | enter source destination =>
    rw [← Job.done_changes (CopyStep.enter_done hdone).1]
    exact hu.makeDirectories hsources hs
  | fill source destination =>
    exact hu.copyFile hsources hs (Job.done_change (CopyStep.fill_done hdone))

theorem meets_steps {steps : List CopyStep} (hs : ∀ s ∈ steps, t.Spares os s) :
    (Job.each CopyStep.run steps).Meets (SourcesKept os t) (fun _ => SourcesKept os t)
      fun _ => True := by
  refine Job.meets_each (fun _ => SourcesKept os t) fun before s hbefore => ?_
  exact meets_step hsources (hs s (hbefore.subset (List.mem_append_right _ List.mem_cons_self)))

end Kept

/-! ### A directory of a source -/

/-- A name that is listed in a directory is a name, and there is an entry behind it. -/
theorem FileTree.Plain.of_mem_namesIn {t : FileTree} (ht : t.Plain) {dir : Path} {n : Text}
    (hn : n ∈ t.namesIn dir) :
    n.IsName ∧ ∃ e, t.entry? (dir.place t.here ++ [n]) = some e := by
  rw [namesIn] at hn
  split at hn
  · exact absurd hn List.not_mem_nil
  · next d hlist =>
    have hentry := locate_holds (ht.list_eq_ok_iff.1 hlist)
    exact ⟨ht.isName_of_list hlist hn, exists_entry_of_mem_names hentry hn⟩

/-- A directory at or below a source. -/
structure InSource (t : FileTree) (os : List Overlay) (dir : Path) : Prop where
  isDirectory : t.isDirectory dir = true
  below : ∃ o ∈ os, o.source.place t.here <+: dir.place t.here

section Source

variable {t u : FileTree} {os : List Overlay} {dir source destination : Path}

theorem InSource.child {n : Text} (h : InSource t os dir) (hn : n.IsName)
    (hdir : t.isDirectory (dir.child n) = true) : InSource t os (dir.child n) := by
  obtain ⟨o, ho, hbelow⟩ := h.below
  refine ⟨hdir, o, ho, ?_⟩
  rw [dir.place_child hn]
  exact hbelow.trans (List.prefix_append _ _)

/-- The directories of the sources stay those that they were. -/
theorem SourcesKept.isDirectory_child (hu : SourcesKept os t u) (ht : t.Plain)
    (hdir : InSource t os dir) {n : Text} (hn : n.IsName) :
    u.isDirectory (dir.child n) = t.isDirectory (dir.child n) := by
  rw [Bool.eq_iff_iff]
  constructor
  · intro h
    obtain ⟨d, hd⟩ := hu.plain.isDirectory_iff.1 h
    have hentry : u.entry? (dir.place t.here ++ [n]) = some (.directory d) := by
      rw [← dir.place_child hn, ← hu.here]
      exact FileTree.locate_holds hd
    have hkept := (hu.skeleton_below hdir.below).append [n]
    obtain ⟨d', hd', -⟩ := hkept.symm.exists_directory hentry
    refine ht.isDirectory_iff.2 ⟨d', ?_⟩
    rw [dir.place_child hn]
    exact ht.locate_descend hdir.isDirectory (List.forall_mem_singleton.2 hn)
      (hu.plain.allowed hd) hd'
  · exact ht.isDirectory_mono hu.plain hu.directories hu.here

/-- A directory of a source is still listed as it was. -/
theorem SourcesKept.names_done (hu : SourcesKept os t u) (ht : t.Plain)
    (hdir : InSource t os dir) : (Job.names dir).Done u (t.namesIn dir) u := by
  obtain ⟨d, hd⟩ := ht.isDirectory_iff.1 hdir.isDirectory
  have hentry : t.entry? (dir.place t.here) = some (.directory d) := FileTree.locate_holds hd
  obtain ⟨d', hd', hnames⟩ := (hu.skeleton_below hdir.below).exists_directory hentry
  refine done_list.2 ⟨rfl, d', hu.plain.list_eq_ok_iff.2 ?_, ?_⟩
  · rw [hu.here]
    exact ht.locate_mono hu.directories hu.here (by decide) hd hd' rfl
  · rw [FileTree.namesIn, ht.list_eq_ok_iff.2 hd]
    exact hnames.symm

variable (ht : t.Plain)
  (hsources : ∀ o ∈ os, ∃ d, t.entry? (o.source.place t.here) = some (.directory d))

include ht hsources

/-- Entering a directory of a source leads on with the names that it has had from the start. -/
theorem enter_eq (hdir : InSource t os source) (hs : t.Spares os (.enter source destination))
    (hu : SourcesKept os t u) {inside : List Text → Job Unit} {steps : List CopyStep}
    (hinside : ∀ w, SourcesKept os t w →
      inside (t.namesIn source) w = Job.each CopyStep.run steps w) :
    (do
      .changes (FileTree.makeDirectories destination)
      let names ← Job.names source
      inside names : Job Unit) u =
      Job.each CopyStep.run (.enter source destination :: steps) u := by
  rw [Job.each, CopyStep.run, Job.bind_assoc]
  refine Job.bind_congr rfl fun _ made hmade => ?_
  have hkept : SourcesKept os t made := by
    rw [← Job.done_changes hmade]
    exact hu.makeDirectories hsources hs
  rw [Job.bind_assoc]
  refine Job.bind_congr rfl fun names last hlisted => ?_
  obtain ⟨rfl, hresult⟩ := done_names hlisted
  obtain ⟨-, hnames⟩ := done_names (hkept.names_done ht hdir)
  rw [← hresult, hnames]
  exact hinside made hkept

theorem copyEntry_eq {inside : (source destination : Path) → List Text → Job Unit}
    {steps : (source destination : Path) → List Text → List CopyStep} {n : Text} (hn : n.IsName)
    (hdir : InSource t os source)
    (hs : ∀ s ∈ t.entrySteps steps source destination n, t.Spares os s)
    (hinside : t.isDirectory (source.child n) = true → ∀ w, SourcesKept os t w →
      inside (source.child n) (destination.child n) (t.namesIn (source.child n)) w =
        Job.each CopyStep.run
          (steps (source.child n) (destination.child n) (t.namesIn (source.child n))) w)
    (hu : SourcesKept os t u) :
    copyEntry inside source destination n u =
      Job.each CopyStep.run (t.entrySteps steps source destination n) u := by
  have hasked : ∀ f : Bool → Job Unit,
      (Job.reading (fun w => .done (w.isDirectory (source.child n))) >>= f) u =
        f (t.isDirectory (source.child n)) u := by
    intro f
    rw [← hu.isDirectory_child ht hdir hn]
    rfl
  rw [FileTree.entrySteps] at hs ⊢
  rw [copyEntry, hasked]
  by_cases hsub : t.isDirectory (source.child n) = true
  · rw [if_pos hsub] at hs ⊢
    rw [if_pos hsub]
    exact enter_eq ht hsources (hdir.child hn hsub) (hs _ List.mem_cons_self) hu
      (hinside hsub)
  · rw [if_neg hsub, if_neg hsub, Job.each, Job.each, Job.bind_pure_unit]
    rfl

/-- The depth never runs out: a directory further down has a longer path. -/
theorem copyEntries_eq {depth : Nat}
    (hdepth : FileTree.longestPath < depth + source.text.utf8Size) (hdir : InSource t os source)
    {names : List Text} (hnames : ∀ n ∈ names, n.IsName)
    (hs : ∀ s ∈ t.entriesSteps depth source destination names, t.Spares os s)
    (hu : SourcesKept os t u) :
    copyEntries depth source destination names u =
      Job.each CopyStep.run (t.entriesSteps depth source destination names) u := by
  induction depth generalizing source destination names u with
  | zero =>
    obtain ⟨d, -, -, ⟨-, -, hsize⟩, -⟩ := ht.exists_list hdir.isDirectory
    omega
  | succ depth ih =>
    rw [FileTree.entriesSteps] at hs ⊢
    rw [copyEntries]
    have hentry : ∀ n ∈ names, ∀ s ∈ t.entrySteps (t.entriesSteps depth) source destination n,
        t.Spares os s :=
      fun n hn s hstep => hs s (List.mem_flatMap.2 ⟨n, hn, hstep⟩)
    refine Job.each_eq_flatMap (fun n hn w hw => ?_)
      (fun n hn => meets_steps hsources (hentry n hn)) hu
    refine copyEntry_eq ht hsources (hnames n hn) hdir (hentry n hn) (fun hsub w' hw' => ?_) hw
    have hlonger := source.utf8Size_child_lt (hnames n hn)
    have hbelow := hdir.child (hnames n hn) hsub
    have hlisted : ∀ m ∈ t.namesIn (source.child n), m.IsName :=
      fun m hm => (ht.of_mem_namesIn hm).1
    refine ih (by omega) hbelow hlisted (fun s hstep => hentry n hn s ?_) hw'
    rw [FileTree.entrySteps, if_pos hsub]
    exact List.mem_cons_of_mem _ hstep

theorem copy_eq {o : Overlay} (ho : InSource t os o.source)
    (hs : ∀ s ∈ t.overlaySteps o, t.Spares os s) (hu : SourcesKept os t u) :
    o.copy u = Job.each CopyStep.run (t.overlaySteps o) u := by
  rw [FileTree.overlaySteps] at hs ⊢
  obtain ⟨hfirst, hothers⟩ := List.forall_mem_cons.1 hs
  refine enter_eq ht hsources ho hfirst hu fun w hw => ?_
  obtain ⟨d, -, -, ⟨-, hne, hsize⟩, -⟩ := ht.exists_list ho.isDirectory
  have hpos := Text.utf8Size_pos hne
  exact copyEntries_eq ht hsources (by omega) ho (fun n hn => (ht.of_mem_namesIn hn).1) hothers hw

end Source

/-- Where nothing new is made in a source, the copies are the planned steps. -/
theorem copyOverlays_eq_each {t : FileTree} {os : List Overlay} (ht : t.Plain)
    (hsources : ∀ o ∈ os, t.isDirectory o.source = true) (hnew : t.NothingNew os) :
    copyOverlays os t = Job.each CopyStep.run (t.copySteps os) t := by
  have hentries : ∀ o ∈ os, ∃ d, t.entry? (o.source.place t.here) = some (.directory d) := by
    intro o ho
    obtain ⟨d, hd⟩ := ht.isDirectory_iff.1 (hsources o ho)
    exact ⟨d, FileTree.locate_holds hd⟩
  have hsteps : ∀ o ∈ os, ∀ s ∈ t.overlaySteps o, t.Spares os s :=
    fun o ho s hs => hnew s (List.mem_flatMap.2 ⟨o, ho, hs⟩)
  refine Job.each_eq_flatMap (fun o ho u hu => ?_)
    (fun o ho => meets_steps hentries (hsteps o ho)) (.refl ht)
  exact copy_eq ht hentries ⟨hsources o ho, o, ho, List.prefix_rfl⟩ (hsteps o ho) hu

end LuaReference
