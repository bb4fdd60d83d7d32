import LuaReference.Proofs.CommandLine.Clean

/-!
# Runs that only read

A comparison, a dry run, and a run that fails before it writes leave the file tree as it was. A
comparison ends with status 0 exactly when every document that no hand-written page replaces is
fresh, and reports the others in the order in which they are generated.
-/

namespace LuaReference

variable {a : Arguments} {t : FileTree} {on : Bool} {f : Fault}

/-! ### What stops a run -/

/-- What stops a run before it compares or writes: the settings cannot be loaded, the sources cannot
be read, or fields of one owner share a name. -/
inductive Arguments.Stops (a : Arguments) (t : FileTree) (f : Fault) : Prop
  | loading (h : Project.load t a.primary a.secondary a.settings = .error f)
  | scanning {p : Project} (hload : Project.load t a.primary a.secondary a.settings = .ok p)
      (h : (t.scanSources p.settings p.roots).result = .error f)
  | validating {p : Project} {so : Scanned}
      (hload : Project.load t a.primary a.secondary a.settings = .ok p)
      (hscan : (t.scanSources p.settings p.roots).result = .ok so)
      (h : (so.registry.override a.nameSpace).validate = .error f)

theorem Report.ofFiles_ok_bind {α β : Type} (a : α) (f : α → Report β) :
    (Report.ofFiles (.ok a) >>= f) = f a := rfl

theorem build_result_error {p : Project} {nameSpace : Option Text} :
    (p.build t nameSpace).result = .error f ↔
      (t.scanSources p.settings p.roots).result = .error f ∨
        ∃ so, (t.scanSources p.settings p.roots).result = .ok so ∧
          (so.registry.override nameSpace).validate = .error f := by
  rw [Project.build, Report.bind_result_error]
  refine or_congr_right (exists_congr fun so => and_congr_right fun _ => ?_)
  rw [← generate_eq_error_iff (s := p.settings), Report.log_bind_result]
  cases (so.registry.override nameSpace).generate p.settings <;> simp [Report.failed, Report.done]

namespace Arguments

theorem plan_result_error :
    (a.plan t).result = .error f ↔
      Project.load t a.primary a.secondary a.settings = .error f ∨
        ∃ p, Project.load t a.primary a.secondary a.settings = .ok p ∧
          (p.build t a.nameSpace).result = .error f := by
  unfold Arguments.plan
  cases Project.load t a.primary a.secondary a.settings with
  | error f' => simp [Report.bind_result_error, Report.failed]
  | ok p =>
    have hlast : ∀ b : Build,
        ¬ ((do
          if b.scanned.registry.isEmpty then Report.log [.nothingFound b.scanned.files]
          return ⟨b, t.overlays p.primary a.output p.settings⟩ : Report Plan)).result =
            .error f := by
      intro b hb
      split at hb <;> cases hb
    simp only [Report.bind_result_error, Report.log_bind_result, Report.done, reduceCtorEq,
      false_or, Except.ok.injEq, exists_eq_left', hlast, and_false, exists_false, or_false]

theorem plan_stops : (a.plan t).result = .error f ↔ a.Stops t f := by
  rw [plan_result_error]
  constructor
  · rintro (hload | ⟨p, hload, hbuild⟩)
    · exact .loading hload
    · rcases build_result_error.1 hbuild with hscan | ⟨so, hscan, hvalid⟩
      · exact .scanning hload hscan
      · exact .validating hload hscan hvalid
  · rintro (hload | ⟨hload, hscan⟩ | ⟨hload, hscan, hvalid⟩)
    · exact Or.inl hload
    · exact Or.inr ⟨_, hload, build_result_error.2 (Or.inl hscan)⟩
    · exact Or.inr ⟨_, hload, build_result_error.2 (Or.inr ⟨_, hscan, hvalid⟩)⟩

/-! ### Runs -/

theorem run_of_stops (h : a.Stops t f) : a.run on t = (t, ⟨(a.plan t).notices, .error f⟩) := by
  have hplan : Job.reading a.plan t = (t, ⟨(a.plan t).notices, .error f⟩) := by
    rw [Job.reading, ← plan_stops.2 h]
  exact Job.andThen_of_error hplan

theorem run_check {plan : Plan} (hcheck : a.check = true) (hplan : (a.plan t).result = .ok plan) :
    a.run on t = (t, ⟨(a.plan t).notices ++
        (a.compare on t plan.build.files plan.overlays).notices,
      (a.compare on t plan.build.files plan.overlays).result⟩) := by
  have hread : Job.reading a.plan t = (t, ⟨(a.plan t).notices, .ok plan⟩) := by
    rw [Job.reading, ← hplan]
  unfold Arguments.run
  rw [Job.andThen_of_ok hread, if_pos hcheck]
  rfl

theorem run_dryRun {plan : Plan} (hcheck : a.check = false) (hdryRun : a.dryRun = true)
    (hplan : (a.plan t).result = .ok plan) :
    a.run on t = (t, ⟨(a.plan t).notices ++ a.preview plan.build.files plan.overlays,
      .ok .done⟩) := by
  have hread : Job.reading a.plan t = (t, ⟨(a.plan t).notices, .ok plan⟩) := by
    rw [Job.reading, ← hplan]
  unfold Arguments.run
  rw [Job.andThen_of_ok hread, hcheck, hdryRun]
  rfl

theorem run_reads_only (h : a.check = true ∨ a.dryRun = true) : (a.run on).left t = t := by
  unfold Job.left
  cases hplan : (a.plan t).result with
  | error f => rw [run_of_stops (plan_stops.1 hplan)]
  | ok plan =>
    cases hcheck : a.check with
    | true => rw [run_check hcheck hplan]
    | false =>
      have hdryRun := h.resolve_left (by simp [hcheck])
      rw [run_dryRun hcheck hdryRun hplan]

end Arguments

/-! ### What a comparison reports -/

/-- The files that are there at the paths of these documents are texts. -/
def FileTree.Readable (t : FileTree) (out : Path) (files : List GeneratedFile) : Prop :=
  ∀ f ∈ files, ∀ bytes, t.readBytes (f.pathIn out) = .ok bytes →
    ∃ text, t.readText (f.pathIn out) = .ok text

instance (f : GeneratedFile) (out : Path) : Decidable (f.Fresh out t) :=
  inferInstanceAs (Decidable (_ = _))

/-- The documents that are neither shadowed nor fresh, in the order in which they are generated. -/
def FileTree.outdated (t : FileTree) (out : Path) (shadowed : List Path)
    (files : List GeneratedFile) : List GeneratedFile :=
  files.filter fun f => !(shadowed.any f.path.agrees || decide (f.Fresh out t))

/-- The document as it is reported: with the text that is at its path, if there is a file. -/
def GeneratedFile.staleIn (out : Path) (t : FileTree) (f : GeneratedFile) : StaleFile where
  path := f.pathIn out
  current := (t.readText (f.pathIn out)).toOption
  expected := f.content

variable {out : Path} {shadowed : List Path} {files : List GeneratedFile}

theorem outdated_eq_nil_iff :
    t.outdated out shadowed files = [] ↔
      ∀ f ∈ files, shadowed.any f.path.agrees = true ∨ f.Fresh out t := by
  rw [FileTree.outdated, List.filter_eq_nil_iff]
  refine forall₂_congr fun f _ => ?_
  rw [Bool.not_eq_true', Bool.not_eq_false, Bool.or_eq_true, decide_eq_true_iff]

theorem currentText_of_readable {p : Path}
    (h : ∀ bytes, t.readBytes p = .ok bytes → ∃ text, t.readText p = .ok text) :
    t.currentText p = .ok (t.readText p).toOption := by
  unfold FileTree.currentText
  by_cases hfile : t.isFile p = true
  · obtain ⟨bytes, hbytes⟩ : ∃ bytes, t.readBytes p = .ok bytes := by
      unfold FileTree.isFile at hfile
      unfold FileTree.readBytes
      split at hfile
      · next bytes hentry => exact ⟨bytes, by rw [hentry]⟩
      · cases hfile
    obtain ⟨text, htext⟩ := h bytes hbytes
    rw [if_pos hfile, htext]
    rfl
  · have hnone : ∀ text, t.readText p ≠ .ok text := by
      intro text htext
      unfold FileTree.readText at htext
      split at htext
      · cases htext
      · next bytes hbytes => exact hfile (isFile_of_readBytes hbytes)
    rw [if_neg hfile]
    cases htext : t.readText p with
    | error why => rfl
    | ok text => exact absurd htext (hnone text)

theorem stale_eq_ok (h : t.Readable out files) :
    t.stale out shadowed files = .ok ((t.outdated out shadowed files).map (·.staleIn out t)) := by
  induction files with
  | nil => rfl
  | cons f files ih =>
    obtain ⟨hf, hfiles⟩ := List.forall_mem_cons.1 h
    have hcurrent := currentText_of_readable hf
    have hfresh : (t.readText (f.pathIn out)).toOption = some f.content ↔ f.Fresh out t := by
      rw [GeneratedFile.Fresh, ← currentText_eq_some_iff, hcurrent, Except.ok.injEq]
    rw [FileTree.stale, ih hfiles, hcurrent]
    unfold FileTree.outdated
    by_cases hshadowed : shadowed.any f.path.agrees = true
    · rw [if_pos hshadowed, List.filter_cons_of_neg (by simp [hshadowed])]
    · rw [if_neg hshadowed]
      by_cases hsame : f.Fresh out t
      · rw [List.filter_cons_of_neg (by simp [hsame])]
        exact if_pos (hfresh.2 hsame)
      · rw [List.filter_cons_of_pos (by simp [hshadowed, hsame])]
        exact if_neg (mt hfresh.1 hsame)

namespace Arguments

variable {os : List Overlay}

theorem compare_fresh (hshadowed : t.overlayPaths a.output os = .ok shadowed)
    (hstale : t.stale a.output shadowed files = .ok []) :
    a.compare on t files os =
      ⟨[.say (Colour.green.paint on "All generated files are up to date.".toList)], .ok .done⟩ := by
  unfold Arguments.compare
  rw [hshadowed, Report.ofFiles_ok_bind, hstale]
  rfl

theorem compare_stale (hshadowed : t.overlayPaths a.output os = .ok shadowed) {ss : List StaleFile}
    (hne : ss ≠ []) (hstale : t.stale a.output shadowed files = .ok ss) :
    a.compare on t files os = ⟨[.complaint (shownStale on a.diff a.output ss)], .ok .outdated⟩ := by
  obtain ⟨first, rest, rfl⟩ := List.exists_cons_of_ne_nil hne
  unfold Arguments.compare
  rw [hshadowed, Report.ofFiles_ok_bind, hstale]
  rfl

end Arguments

/-! ### Responses -/

variable {words : List Text} {terminal : Bool}

theorem respond_of_failed (hwords : Arguments.ofWords words = .ok a) {notices : List Notice}
    {t' : FileTree} (hrun : a.run (terminal && !a.noColor) t = (t', ⟨notices, .error f⟩)) :
    (respond words terminal t).files = t' ∧ (respond words terminal t).verdict = .failed f := by
  unfold respond
  rw [hwords]
  simp only [hrun, and_self]

theorem respond_of_ended (hwords : Arguments.ofWords words = .ok a) {notices : List Notice}
    {t' : FileTree} {e : Ending}
    (hrun : a.run (terminal && !a.noColor) t = (t', ⟨notices, .ok e⟩)) :
    (respond words terminal t).files = t' ∧ (respond words terminal t).verdict = .ended e ∧
      (respond words terminal t).complaints =
        notices.flatMap (Notice.onError a.verbose (terminal && !a.noColor)) := by
  unfold respond
  rw [hwords]
  simp only [hrun, and_self]

theorem respond_files (hwords : Arguments.ofWords words = .ok a) :
    (respond words terminal t).files = (a.run (terminal && !a.noColor)).left t := by
  unfold Job.left
  rcases hrun : a.run (terminal && !a.noColor) t with ⟨t', notices, f | e⟩
  · exact (respond_of_failed hwords hrun).1
  · exact (respond_of_ended hwords hrun).1

/-- Runs that read only change nothing; what stops a run is its verdict; and a comparison ends with
status 0 when no document is outdated, and reports the outdated ones otherwise. -/
theorem respond_reads_only (words : List Text) (terminal : Bool) (t : FileTree) :
    ((∀ a, Arguments.ofWords words = .ok a →
        a.check = true ∨ a.dryRun = true ∨ ∃ f, a.Stops t f) →
      (respond words terminal t).files = t) ∧
    (∀ a f, Arguments.ofWords words = .ok a → a.Stops t f →
      (respond words terminal t).verdict = .failed f ∧
        (respond words terminal t).verdict.status = 2) ∧
    ∀ a p b shadowed, Arguments.ofWords words = .ok a → a.check = true →
      Project.load t a.primary a.secondary a.settings = .ok p →
      (p.build t a.nameSpace).result = .ok b →
      t.overlayPaths a.output (a.overlays t p) = .ok shadowed → t.Readable a.output b.files →
      ((respond words terminal t).verdict.status = 0 ↔
          ∀ f ∈ b.files, shadowed.any f.path.agrees = true ∨ f.Fresh a.output t) ∧
        ((respond words terminal t).verdict.status ≠ 0 →
          (respond words terminal t).verdict.status = 1 ∧
          (respond words terminal t).complaints =
            (a.plan t).notices.flatMap (Notice.onError a.verbose (terminal && !a.noColor)) ++
              shownStale (terminal && !a.noColor) a.diff a.output
                ((t.outdated a.output shadowed b.files).map (·.staleIn a.output t))) := by
  refine ⟨?_, ?_, ?_⟩
  · intro hreads
    cases hwords : Arguments.ofWords words with
    | error u =>
      unfold respond
      rw [hwords]
      cases u <;> rfl
    | ok a =>
      rw [respond_files hwords]
      rcases hreads a hwords with hcheck | hdryRun | ⟨f, hstops⟩
      · exact Arguments.run_reads_only (Or.inl hcheck)
      · exact Arguments.run_reads_only (Or.inr hdryRun)
      · unfold Job.left
        rw [Arguments.run_of_stops hstops]
  · intro a f hwords hstops
    have hrun : a.run (terminal && !a.noColor) t = (t, ⟨(a.plan t).notices, .error f⟩) :=
      Arguments.run_of_stops hstops
    have hverdict := (respond_of_failed hwords hrun).2
    exact ⟨hverdict, congrArg Verdict.status hverdict⟩
  · intro a p b shadowed hwords hcheck hload hbuild hshadowed hreadable
    have hplan : (a.plan t).result = .ok ⟨b, a.overlays t p⟩ :=
      Arguments.plan_result.2 ⟨p, hload, b, hbuild, rfl⟩
    let on := terminal && !a.noColor
    have hrun : a.run on t = (t, ⟨(a.plan t).notices ++
        (a.compare on t b.files (a.overlays t p)).notices,
      (a.compare on t b.files (a.overlays t p)).result⟩) := Arguments.run_check hcheck hplan
    have hstale : t.stale a.output shadowed b.files =
        .ok ((t.outdated a.output shadowed b.files).map (·.staleIn a.output t)) :=
      stale_eq_ok hreadable
    rw [← outdated_eq_nil_iff]
    by_cases hnone : t.outdated a.output shadowed b.files = []
    · rw [hnone] at hstale
      rw [Arguments.compare_fresh hshadowed hstale] at hrun
      obtain ⟨-, hverdict, -⟩ := respond_of_ended hwords hrun
      rw [hverdict]
      exact ⟨iff_of_true rfl hnone, fun hstatus => absurd rfl hstatus⟩
    · have hne : (t.outdated a.output shadowed b.files).map (·.staleIn a.output t) ≠ [] :=
        mt List.map_eq_nil_iff.1 hnone
      rw [Arguments.compare_stale hshadowed hne hstale] at hrun
      obtain ⟨-, hverdict, hcomplaints⟩ := respond_of_ended hwords hrun
      rw [hverdict, hcomplaints, List.flatMap_append]
      refine ⟨iff_of_false (by decide) hnone, fun _ => ⟨rfl, ?_⟩⟩
      exact congrArg _ (List.append_nil _)

/-! ### A missing stub -/

def missingSettingsWords : List Text := sampleWords ++ ["--config".toList, "none.toml".toList]

theorem pagedSource_shadowed :
    pagedSource.overlayPaths sampleArguments.output
      (sampleArguments.overlays pagedSource sampleProject) = .ok [.ofString "tables/A.md"] := by
  let pages : Path := .ofString "src/../docs/lua/tables"
  have hoverlays : sampleArguments.overlays pagedSource sampleProject =
      [⟨pages, .ofString "site/tables"⟩] := by decide +kernel
  have hlist : pagedSource.list pages = .ok (.file "A.md".toList "hand".toUTF8 .empty) := by
    decide +kernel
  have hleaf : pagedSource.isDirectory (pages.child "A.md".toList) = false := by decide +kernel
  have hunder : pagedSource.filesUnder pages = .ok [pages.child "A.md".toList] := by
    rw [FileTree.filesUnder, hlist]
    change pagedSource.filesBelow (4094 + 1) pages ["A.md".toList] = _
    rw [FileTree.filesBelow, hleaf, FileTree.filesBelow]
    rfl
  rw [hoverlays, FileTree.overlayPaths, FileTree.overlayPathsOf, hunder]
  decide +kernel

/-- The page of the table is written by hand, and its stub is missing. -/
theorem respond_reads_only_pagedSource :
    (respond (sampleWords ++ [checkWord]) false pagedSource).files = pagedSource ∧
      (respond (sampleWords ++ [checkWord]) false pagedSource).verdict.status = 1 ∧
      (respond (sampleWords ++ [checkWord]) false pagedSource).complaints =
        ("Check failed.\n\nStale files:\n  tables/A.lua (missing)\n\n" ++
          "1 generated file(s) are out of date. " ++
          "Run `luadoc` without `--check` to regenerate.\n").toList ∧
      (respond missingSettingsWords false pagedSource).files = pagedSource ∧
      (respond missingSettingsWords false pagedSource).verdict.status = 2 := by
  have hwords : Arguments.ofWords (sampleWords ++ [checkWord]) =
      .ok { sampleArguments with check := true } := by decide +kernel
  have hload : Project.load pagedSource sampleArguments.primary sampleArguments.secondary none =
      .ok sampleProject := by decide +kernel
  have hreadable : pagedSource.Readable sampleArguments.output pagedBuild.files := by
    have hnone : ∀ f ∈ pagedBuild.files,
        pagedSource.readBytes (f.pathIn sampleArguments.output) = .error .missing := by
      decide +kernel
    intro f hf bytes hbytes
    rw [hnone f hf] at hbytes
    cases hbytes
  have hsettings : Arguments.ofWords missingSettingsWords =
      .ok { sampleArguments with settings := some (.ofString "none.toml") } := by decide +kernel
  have hstops : Arguments.Stops
      { sampleArguments with settings := some (.ofString "none.toml") } pagedSource
        (.refused .missing) := .loading (by decide +kernel)
  obtain ⟨hreads, -, hreports⟩ := respond_reads_only (sampleWords ++ [checkWord]) false pagedSource
  obtain ⟨hstatus, hcomplaints⟩ :=
    hreports _ _ _ _ hwords rfl hload pagedSource_builds pagedSource_shadowed hreadable
  obtain ⟨hkeeps, hfails, -⟩ := respond_reads_only missingSettingsWords false pagedSource
  have hstale : (respond (sampleWords ++ [checkWord]) false pagedSource).verdict.status ≠ 0 := by
    rw [ne_eq, hstatus]
    decide +kernel
  obtain ⟨hone, hcomplaints⟩ := hcomplaints hstale
  refine ⟨hreads fun a ha => ?_, hone, hcomplaints.trans (by decide +kernel),
    hkeeps fun a ha => ?_, (hfails _ _ hsettings hstops).2⟩
  · obtain rfl := Except.ok.inj (hwords.symm.trans ha)
    exact Or.inl rfl
  · obtain rfl := Except.ok.inj (hsettings.symm.trans ha)
    exact Or.inr (Or.inr ⟨_, hstops⟩)

end LuaReference
