import Mathlib.Data.List.Infix
import LuaReference.Proofs.CommandLine.Passing
import LuaReference.Proofs.CommandLine.Written
import LuaReference.Proofs.Files.Slashed

/-!
# Checking what a run wrote

A check of the tree that a run left builds the same documents and finds the same pages, so it
passes. It can fail only where the run made a directory in a source root whose path is too long.
-/

namespace LuaReference

open FileTree (Edits longestPath)

variable {a : Arguments} {t t' : FileTree} {out : Path} {p : Project} {b : Build}

/-! ### Where the project lies -/

/-- The source roots are directories apart from those for documents, as are the directories of
hand-written pages, and the settings file does not lie there. -/
structure Project.Aside (p : Project) (out : Path) (t : FileTree) : Prop where
  isDirectory : ∀ root ∈ p.roots, t.isDirectory root = true
  roots : ∀ root ∈ p.roots, ApartFromDocuments out t.here (root.place t.here)
  settings : ∀ c, p.settingsFile = some c → ¬ InDocuments out t.here (c.place t.here)
  pages : ∀ o ∈ t.overlays p.primary out p.settings,
    ApartFromDocuments out t.here (o.source.place t.here)

/-- A directory on the way to the documents that is missing in a source root has a path there that
is not too long. -/
def Project.HasRoom (p : Project) (out : Path) (t : FileTree) : Prop :=
  ∀ root ∈ p.roots, ∀ below, below ≠ [] → OnTheWay out t.here (root.place t.here ++ below) →
    t.entry? (root.place t.here ++ below) = none →
      (root.descend below).text.utf8Size ≤ longestPath

theorem Project.Aside.rootKept (h : p.Aside out t) (hroom : p.HasRoom out t) {root : Path}
    (hroot : root ∈ p.roots) :
    RootKept (InDocuments out t.here) (fun x => OnTheWay out t.here x ∨ InDocuments out t.here x)
      t root where
  isDirectory := h.isDirectory root hroot
  apart := by
    obtain ⟨htables, hclasses⟩ := h.roots root hroot
    rintro place (⟨below, rfl⟩ | ⟨below, rfl⟩)
    · exact htables.symm.append_left below
    · exact hclasses.symm.append_left below
  short := by
    intro below hne hplace hnone
    have houtside := (h.roots root hroot).not_inDocuments below
    exact hroom root hroot below hne (hplace.resolve_right houtside) hnone

/-- What a run reads and what it writes keep apart: the documents have places of their own, away
from the sources, the settings and the hand-written pages. -/
structure Arguments.Orderly (a : Arguments) (t : FileTree) (p : Project) (b : Build) : Prop where
  plain : t.Plain
  load : Project.load t a.primary a.secondary a.settings = .ok p
  build : (p.build t a.nameSpace).result = .ok b
  aside : p.Aside a.output t
  flat : b.scanned.registry.Flat
  distinct : (b.files.map (·.path)).Nodup

/-! ### Checking after a run -/

namespace Arguments.Orderly

theorem written (h : a.Orderly t p b) {plan : Arguments.Plan} (hplan : (a.plan t).result = .ok plan)
    (hwritten : (a.write plan.build.files plan.overlays).Done t () t') :
    (a.write (b.scanned.registry.documents p.settings)
        (t.overlays p.primary a.output p.settings)).Done t () t' ∧
      b.files = b.scanned.registry.documents p.settings := by
  obtain ⟨p', hload, b', hbuild, rfl⟩ := Arguments.plan_result.1 hplan
  obtain rfl : p' = p := Except.ok.inj (hload.symm.trans h.load)
  obtain rfl : b' = b := Except.ok.inj (hbuild.symm.trans h.build)
  obtain ⟨_, -, -, hgenerate⟩ := build_result.1 h.build
  obtain ⟨-, hfiles⟩ := generate_eq_ok_iff.1 hgenerate
  exact ⟨hfiles ▸ hwritten, hfiles⟩

theorem plan_of_edits (h : a.Orderly t p b) (hroom : p.HasRoom a.output t)
    (hedits : Edits (InDocuments a.output t.here)
      (fun x => OnTheWay a.output t.here x ∨ InDocuments a.output t.here x) t t') :
    (({ a with check := true } : Arguments).plan t').result =
      .ok ⟨b, t'.overlays p.primary a.output p.settings⟩ := by
  have hprimary := (roots_of_load h.load).1
  have hroot : a.primary ∈ p.roots := hprimary ▸ List.mem_cons_self
  have hload : Project.load t' a.primary a.secondary a.settings = .ok p :=
    load_of_edits h.plain h.load (h.aside.isDirectory _ hroot) (h.aside.roots _ hroot)
      h.aside.settings hedits
  have hbuild : (p.build t' a.nameSpace).result = .ok b :=
    build_of_edits h.plain (fun root hroot => h.aside.rootKept hroom hroot) hedits h.build
  exact Arguments.plan_result.2 ⟨p, hload, b, hbuild, rfl⟩

end Arguments.Orderly

/-- A run that ends well leaves a tree that passes the check, which changes nothing. -/
theorem respond_check_after_run {words : List Text} {checked : Arguments}
    {terminal terminal' : Bool} (h : a.Orderly t p b) (hroom : p.HasRoom a.output t)
    (hwords : Arguments.ofWords words = .ok a)
    (hchecked : Arguments.ofWords (words ++ [checkWord]) = .ok checked)
    (hrun : (respond words terminal t).verdict.status = 0) :
    (respond (words ++ [checkWord]) terminal' (respond words terminal t).files).verdict.status = 0 ∧
      (respond (words ++ [checkWord]) terminal' (respond words terminal t).files).files =
        (respond words terminal t).files := by
  obtain ⟨hnoCheck, hnoDryRun, rfl⟩ := eq_of_ofWords_append_check hwords hchecked
  have hdone := (respond_status_zero hwords).1 hrun
  generalize (respond words terminal t).files = t' at hdone ⊢
  obtain ⟨plan, hplan, hwritten⟩ := Arguments.run_write hnoCheck hnoDryRun hdone
  obtain ⟨hwritten, hfiles⟩ := h.written hplan hwritten
  have hedits := edits_of_run h.plain h.flat h.aside.pages hwritten
  obtain ⟨shadowed, hshadowed, hstale⟩ :=
    stale_after_run h.plain h.flat h.aside.pages hwritten (hfiles ▸ h.distinct)
  have hplan' : (({ a with check := true } : Arguments).plan t').result =
      .ok ⟨b, t'.overlays p.primary a.output p.settings⟩ := h.plan_of_edits hroom hedits
  have hcompare : ∀ on, (({ a with check := true } : Arguments).run on).Done t' .done t' := by
    intro on
    rw [← hfiles] at hstale
    exact (Arguments.run_compare rfl).2 ⟨rfl, _, hplan', shadowed, hshadowed, hstale⟩
  exact respond_of_done hchecked (hcompare _)

/-! ### A detour through a source root -/

theorem hasRoom_of_ways {p : Project} {out : Path} {t : FileTree}
    (h : ∀ root ∈ p.roots, ∀ dir ∈ [tablesDir, classesDir], ∀ cs ∈ (out.join dir).components.inits,
      (root.descend ((cs.foldl Component.enter t.here).drop
        (root.place t.here).length)).text.utf8Size ≤ longestPath) : p.HasRoom out t := by
  intro root hroot below _ hway _
  have hsize : ∀ dir ∈ [tablesDir, classesDir],
      (out.join dir).Passes t.here (root.place t.here ++ below) →
        (root.descend below).text.utf8Size ≤ longestPath := by
    rintro dir hdir ⟨cs, hcs, hplace⟩
    have hlast := h root hroot dir hdir cs ((List.mem_inits cs _).2 hcs)
    rw [← hplace, List.drop_left] at hlast
    exact hlast
  rcases hway with hway | hway
  · exact hsize tablesDir (by simp) hway
  · exact hsize classesDir (by simp) hway

/-- A source with one table, and a hand-written page for that table. -/
def pagedSource : FileTree where
  top := .directory <|
    .sub "src".toList (.file "a.cpp".toList "// Lua API: Table\n// Name: A\n".toUTF8 .empty) <|
    .sub "lib".toList .empty <|
    .sub "docs".toList (.sub "lua".toList
      (.sub "tables".toList (.file "A.md".toList "hand".toUTF8 .empty) .empty) .empty) .empty

def pagedRegistry : Registry := (({} : Registry).tableEntry "A".toList).1

/-- The way to this output directory leads through a directory in `src`. -/
def detour : Path := .ofString "src/new/../../site"

def detourWords : List Text := ["src".toList, "lib".toList, detour.text]

def pagedBuild : Build where
  scanned := ⟨pagedRegistry, 1, 1⟩
  files := pagedRegistry.documents {}

theorem pagedSource_builds : (sampleProject.build pagedSource none).result = .ok pagedBuild :=
  build_result.2 ⟨pagedBuild.scanned, by decide +kernel, rfl, by decide +kernel⟩

theorem pagedSource_aside : sampleProject.Aside detour pagedSource where
  isDirectory := by decide +kernel
  roots := by decide +kernel
  settings := fun _ hc => nomatch hc
  pages := by decide +kernel

theorem respond_check_after_run_detour :
    (respond (detourWords ++ [checkWord]) false
        (respond detourWords false pagedSource).files).verdict.status = 0 ∧
      (respond (detourWords ++ [checkWord]) false
        (respond detourWords false pagedSource).files).files =
          (respond detourWords false pagedSource).files := by
  have hwords : Arguments.ofWords detourWords =
      .ok { sampleArguments with output := detour } := by decide +kernel
  have hchecked : Arguments.ofWords (detourWords ++ [checkWord]) =
      .ok { sampleArguments with output := detour, check := true } := by
    decide +kernel
  have hplain : pagedSource.Plain := FileTree.plain_of_decide (by decide +kernel)
  have hload : Project.load pagedSource sampleArguments.primary sampleArguments.secondary none =
      .ok sampleProject := by decide +kernel
  have hroom : sampleProject.HasRoom detour pagedSource :=
    hasRoom_of_ways (by decide +kernel)
  have hflat : pagedRegistry.Flat := ⟨by decide, by decide, fun _ hn => nomatch hn⟩
  have horderly : ({ sampleArguments with output := detour } : Arguments).Orderly pagedSource
      sampleProject pagedBuild :=
    ⟨hplain, hload, pagedSource_builds, pagedSource_aside, hflat, by decide +kernel⟩
  exact respond_check_after_run horderly hroom hwords hchecked (by decide +kernel)

/-! ### Ways that are too long -/

def bareRoots : FileTree where
  top := .directory <| .sub "src".toList .empty <| .sub "lib".toList .empty .empty

/-- The tree that a run leaves when the way to the documents leads through `src`. -/
def detouredRoots : FileTree where
  top := .directory <| .sub "src".toList (.sub "new".toList .empty .empty) <|
    .sub "lib".toList .empty <|
    .sub "site".toList (.sub "tables".toList .empty (.sub "classes".toList .empty .empty)) .empty

def slashedArguments (k : Nat) : Arguments where
  primary := .ofString "lib"
  secondary := slashed k
  output := detour

def slashedProject (k : Nat) : Project := ⟨.ofString "lib", slashed k, {}, none⟩

def slashedWords (k : Nat) : List Text := ["lib".toList, (slashed k).text, detour.text]

variable {k : Nat}

theorem ofWords_slashedWords : Arguments.ofWords (slashedWords k) = .ok (slashedArguments k) := rfl

theorem ofWords_slashedWords_check : Arguments.ofWords (slashedWords k ++ [checkWord]) =
    .ok { slashedArguments k with check := true } := rfl

theorem exclusionFor_slashed {s : Settings} (hs : s.exclude = []) {x : Exclusion} :
    (FileTree.exclusionFor s (slashed k)).result = .ok x ↔
      x = ⟨Exclusion.withoutHere (slashed k).text, []⟩ := by
  rw [FileTree.exclusionFor, Exclusion.of, hs, eq_comm]
  exact Iff.of_eq (Except.ok.injEq _ _)

theorem collectRoot_slashed {t : FileTree} {s : Settings} (hk : k + 5 ≤ longestPath)
    (hs : s.exclude = []) (ht : t.Plain) (hhere : t.here = []) {d : Directory}
    (hd : t.entry? ["src".toList] = some (.directory d)) {paths : List Path} :
    (t.collectRoot s (slashed k)).result = .ok paths ↔
      ∃ found, d.sources s ⟨Exclusion.withoutHere (slashed k).text, []⟩ (slashed k) = .ok found ∧
        found.mergeSort Path.sortsBefore = paths := by
  have hlocate := locate_slashed hk hhere hd
  rw [ht.found_place hlocate] at hlocate
  have hlist : t.list (slashed k) = .ok d := ht.list_eq_ok_iff.2 hlocate
  rw [collectRoot_result (ht.isDirectory_iff.2 ⟨d, hlocate⟩), hlist]
  simp only [exclusionFor_slashed hs, exists_eq_left, Except.ok.injEq, exists_eq_left']

theorem scanSources_slashed (hk : k + 5 ≤ longestPath) :
    (bareRoots.scanSources (slashedProject k).settings (slashedProject k).roots).result =
      .ok {} := by
  have hplain : bareRoots.Plain := FileTree.plain_of_decide (by decide +kernel)
  have hlib : (bareRoots.collectRoot {} (.ofString "lib")).result = .ok [] := by decide +kernel
  have hsrc : (bareRoots.collectRoot (slashedProject k).settings (slashed k)).result = .ok [] :=
    (collectRoot_slashed hk rfl hplain rfl rfl).2 ⟨[], rfl, List.mergeSort_nil⟩
  have hcollect : (bareRoots.collect (slashedProject k).settings (slashedProject k).roots).result =
      .ok [] := by
    rw [Project.roots, slashedProject]
    simp only [FileTree.collect, Report.bind_result]
    exact ⟨[], hlib, [], ⟨[], hsrc, [], rfl, rfl⟩, rfl⟩
  rw [FileTree.scanSources, Report.bind_result]
  exact ⟨[], hcollect, rfl⟩

theorem bareRoots_builds (hk : k + 5 ≤ longestPath) :
    ((slashedProject k).build bareRoots none).result = .ok ⟨{}, []⟩ :=
  build_result.2 ⟨{}, scanSources_slashed hk, rfl, rfl⟩

theorem load_slashed {t : FileTree} (h : t.settingsIn (Project.home (.ofString "lib")) = none) :
    Project.load t (slashedArguments k).primary (slashedArguments k).secondary
      (slashedArguments k).settings = .ok (slashedProject k) := by
  have hgiven : (slashedArguments k).settings.or
      (t.settingsIn (Project.home (slashedArguments k).primary)) = none := Option.none_or.trans h
  rw [Project.load, hgiven]
  rfl

theorem run_slashed (hk : k + 5 ≤ longestPath) (on : Bool) :
    ((slashedArguments k).run on).Done bareRoots .done detouredRoots := by
  have hoverlays : bareRoots.overlays (.ofString "lib") detour {} = [] := by decide +kernel
  have hplan : ((slashedArguments k).plan bareRoots).result = .ok ⟨⟨{}, []⟩, []⟩ :=
    Arguments.plan_result.2 ⟨slashedProject k, load_slashed (by decide +kernel), ⟨{}, []⟩,
      bareRoots_builds hk, congrArg (Arguments.Plan.mk _) hoverlays.symm⟩
  have hread : (Job.reading (slashedArguments k).plan).Done bareRoots ⟨⟨{}, []⟩, []⟩ bareRoots :=
    ⟨rfl, hplan⟩
  have hwrite : (({ sampleArguments with output := detour } : Arguments).write [] []).Done bareRoots
      () detouredRoots := ⟨by decide +kernel, by decide +kernel⟩
  have hlast : (pure Ending.done : Job Ending).Done detouredRoots .done detouredRoots := ⟨rfl, rfl⟩
  exact hread.bind (hwrite.bind hlast)

theorem respond_slashed (hk : k + 5 ≤ longestPath) (terminal : Bool) :
    (respond (slashedWords k) terminal bareRoots).verdict.status = 0 ∧
      (respond (slashedWords k) terminal bareRoots).files = detouredRoots :=
  respond_of_done ofWords_slashedWords (run_slashed hk _)

/-- The new directory has too long a path to be read as part of the source root. -/
theorem sources_detoured (hlong : longestPath < k + 9) {s : Settings} {root : Text} :
    Directory.sources s ⟨root, []⟩ (slashed k) (.sub "new".toList .empty .empty) =
      .error .tooLong := by
  have hnew : Text.utf8Size "new".toList = 3 := by decide
  have htooLong : longestPath < ((slashed k).child "new".toList).text.utf8Size := by
    rw [utf8Size_child_slashed k (by decide), hnew]
    exact hlong
  rw [Directory.sources, if_neg (by exact Bool.false_ne_true), if_pos htooLong]

theorem check_slashed_fails (hk : k + 5 ≤ longestPath) (hlong : longestPath < k + 9)
    (terminal : Bool) :
    (respond (slashedWords k ++ [checkWord]) terminal detouredRoots).verdict.status ≠ 0 := by
  intro hstatus
  have hdone := (respond_status_zero ofWords_slashedWords_check).1 hstatus
  obtain ⟨-, plan, hplan, -⟩ := (Arguments.run_compare rfl).1 hdone
  obtain ⟨p, hload, b, hbuild, -⟩ := Arguments.plan_result.1 hplan
  obtain rfl : p = slashedProject k := by
    have hslashed := load_slashed (k := k) (t := detouredRoots) (by decide +kernel)
    exact Except.ok.inj (hload.symm.trans hslashed)
  obtain ⟨so, hscan, -⟩ := build_result.1 hbuild
  rw [FileTree.scanSources, Report.bind_result] at hscan
  obtain ⟨paths, hcollect, -⟩ := hscan
  rw [Project.roots, slashedProject] at hcollect
  simp only [FileTree.collect, Report.bind_result] at hcollect
  obtain ⟨first, -, others, ⟨second, hsecond, -⟩, -⟩ := hcollect
  have hplain : detouredRoots.Plain := FileTree.plain_of_decide (by decide +kernel)
  obtain ⟨found, hfound, -⟩ := (collectRoot_slashed hk rfl hplain rfl rfl).1 hsecond
  rw [sources_detoured hlong] at hfound
  cases hfound

theorem flat_empty : ({} : Registry).Flat := ⟨by simp, by simp, by simp⟩

theorem slashed_orderly (hk : k + 5 ≤ longestPath) :
    (slashedArguments k).Orderly bareRoots (slashedProject k) ⟨{}, []⟩ := by
  have hplain : bareRoots.Plain := FileTree.plain_of_decide (by decide +kernel)
  have hoverlays : bareRoots.overlays (.ofString "lib") detour {} = [] := by decide +kernel
  have hlocate : bareRoots.locate .target (slashed k) =
      .ok (.found ["src".toList] (.directory .empty)) := locate_slashed hk rfl rfl
  have hplace : ["src".toList] = (slashed k).place bareRoots.here := hplain.found_place hlocate
  have hroot : ApartFromDocuments detour bareRoots.here ((slashed k).place bareRoots.here) := by
    rw [← hplace]
    decide +kernel
  rw [hplace] at hlocate
  refine ⟨hplain, load_slashed (by decide +kernel), bareRoots_builds hk, ⟨?_, ?_, ?_, ?_⟩, ?_, ?_⟩
  · have hlib : bareRoots.isDirectory (.ofString "lib") = true := by decide +kernel
    refine List.forall_mem_cons.2 ⟨hlib, List.forall_mem_singleton.2 ?_⟩
    exact hplain.isDirectory_iff.2 ⟨_, hlocate⟩
  · have hlib : ApartFromDocuments detour [] (Path.place (.ofString "lib") []) := by decide +kernel
    exact List.forall_mem_cons.2 ⟨hlib, List.forall_mem_singleton.2 hroot⟩
  · exact fun _ hc => nomatch hc
  · intro o ho
    have hnone : o ∈ bareRoots.overlays (.ofString "lib") detour {} := ho
    rw [hoverlays] at hnone
    exact absurd hnone List.not_mem_nil
  · exact flat_empty
  · exact List.nodup_nil

def dryWords : List Text := sampleWords ++ ["--dry-run".toList]

/-- The check fails after a run that ended well when a new directory in a source root has too long
a path, and when the switch for a dry run excludes the check. -/
theorem check_after_run_fails :
    ((slashedArguments 4090).Orderly bareRoots (slashedProject 4090) ⟨{}, []⟩ ∧
      Arguments.ofWords (slashedWords 4090) = .ok (slashedArguments 4090) ∧
      (respond (slashedWords 4090) false bareRoots).verdict.status = 0 ∧
      (respond (slashedWords 4090 ++ [checkWord]) false
        (respond (slashedWords 4090) false bareRoots).files).verdict.status ≠ 0) ∧
    (({ sampleArguments with dryRun := true } : Arguments).Orderly bareRoots sampleProject
        ⟨{}, []⟩ ∧
      Arguments.ofWords dryWords = .ok { sampleArguments with dryRun := true } ∧
      (respond dryWords false bareRoots).verdict.status = 0 ∧
      (respond (dryWords ++ [checkWord]) false
        (respond dryWords false bareRoots).files).verdict.status ≠ 0) := by
  refine ⟨?_, ?_, by decide +kernel, by decide +kernel, by decide +kernel⟩
  · have hshort : 4090 + 5 ≤ longestPath := by decide
    have hlong : longestPath < 4090 + 9 := by decide
    obtain ⟨hstatus, hfiles⟩ := respond_slashed hshort false
    refine ⟨slashed_orderly hshort, ofWords_slashedWords, hstatus, ?_⟩
    rw [hfiles]
    exact check_slashed_fails hshort hlong false
  · have hbuild : (sampleProject.build bareRoots none).result = .ok ⟨{}, []⟩ :=
      build_result.2 ⟨{}, by decide +kernel, rfl, rfl⟩
    refine ⟨FileTree.plain_of_decide (by decide +kernel), by decide +kernel, hbuild, ?_, ?_, ?_⟩
    · exact ⟨by decide +kernel, by decide +kernel, (fun _ hc => nomatch hc), by decide +kernel⟩
    · exact flat_empty
    · exact List.nodup_nil

end LuaReference
