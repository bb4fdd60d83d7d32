import LuaReference.Proofs.CommandLine.Clean
import LuaReference.Proofs.CommandLine.Selection
import LuaReference.Proofs.Output.Logged

/-!
# Documents that are announced and documents that are written

A dry run lists all documents, a comparison expects them, and a run that writes counts them. It
writes what the batches take, so the four agree exactly when no name starts with a slash.
-/

namespace LuaReference

open Arguments (Batch batches)

variable {r : Registry} {s : Settings} {files : List GeneratedFile}

/-! ### What a run logs -/

theorem logs_batches (out : Path) (files : List GeneratedFile) :
    (Job.each (Batch.write out files) batches).Logs
      ((batches.flatMap (·.select files)).map (·.pathIn out)) := by
  rw [List.map_flatMap]
  refine Job.logs_each fun b _ => ?_
  have hsaid : (Job.note (.say b.message)).Logs [] := Job.logs_note rfl
  have h := Job.logs_bind (logs_writeGenerated out (b.select files)) fun _ => hsaid
  rwa [List.append_nil] at h

theorem logs_arguments_write (a : Arguments) (files : List GeneratedFile) (os : List Overlay) :
    (a.write files os).Logs ((batches.flatMap (·.select files)).map (·.pathIn a.output)) := by
  have hsaid : (Job.each (fun o : Overlay => .note (.say ("Copying '".toList ++ o.source.text ++
      "' to '".toList ++ o.destination.text ++ ['\'']))) os).Logs [] :=
    Job.logs_each_nil fun _ _ => Job.logs_note rfl
  have hcopied := Job.logs_bind hsaid fun _ => logs_copyOverlays os
  have h := Job.logs_bind (logs_batches a.output files) fun _ => hcopied
  rw [List.append_nil, List.append_nil] at h
  exact h

/-! ### Three ways to run -/

/-- What the runs with a plan do about documents: a writing run writes `written` and counts all
documents of the plan, a dry run lists all of them, and a comparison expects all of them. -/
structure Arguments.Treats (a : Arguments) (on : Bool) (t : FileTree) (p : Arguments.Plan)
    (written : List GeneratedFile) : Prop where
  writing : a.check = false → a.dryRun = false → ∀ t', (a.run on).Done t .done t' →
    ∃ said, (a.run on t).2.notices = (a.plan t).notices ++ said ++
        (if a.verbose then [summary on p.build] else []) ∧
      said.filterMap Notice.document? = written.map (·.pathIn a.output)
  listing : a.check = false → a.dryRun = true →
    a.run on t = (t, ⟨(a.plan t).notices ++ a.preview p.build.files p.overlays, .ok .done⟩)
  comparing : a.check = true → ((a.run on).Done t .done t ↔
    ∃ shadowed, t.overlayPaths a.output p.overlays = .ok shadowed ∧
      ∀ f ∈ p.build.files, shadowed.any f.path.agrees = true ∨ f.Fresh a.output t)

theorem Arguments.treats_plan {a : Arguments} {on : Bool} {t : FileTree} {p : Arguments.Plan}
    (hplan : (a.plan t).result = .ok p) :
    a.Treats on t p (batches.flatMap (·.select p.build.files)) where
  writing := by
    intro hcheck hdryRun t' h
    rw [Arguments.run, hcheck, hdryRun] at h ⊢
    have hread : (Job.reading a.plan).Done t p t := Job.reading_done hplan
    obtain ⟨p', u, hread', h⟩ := Job.done_bind h
    obtain ⟨rfl, hplan'⟩ := Job.done_reading hread'
    obtain rfl : p' = p := Except.ok.inj (hplan'.symm.trans hplan)
    obtain ⟨_, u, hwritten, _⟩ := Job.done_bind h
    refine ⟨_, ?_, logs_arguments_write a _ _ t () u hwritten⟩
    rw [Job.notices_bind hread]
    dsimp only [Bool.false_eq_true, if_false]
    rw [if_neg Bool.false_ne_true, if_neg Bool.false_ne_true, Job.notices_bind hwritten,
      List.append_assoc]
    cases a.verbose with
    | false => rfl
    | true => rfl
  listing := by
    intro hcheck hdryRun
    rcases hp : a.plan t with ⟨notices, result⟩
    rw [hp] at hplan
    obtain rfl : result = .ok p := hplan
    have hread : Job.reading a.plan t = (t, ⟨notices, .ok p⟩) := by rw [Job.reading, hp]
    rw [Arguments.run, Job.andThen_of_ok hread, hcheck, hdryRun]
    rfl
  comparing := by
    intro hcheck
    rw [run_compare hcheck]
    simp only [hplan, true_and, Except.ok.injEq, exists_eq_left', stale_eq_nil_iff]

/-- The batches take all documents, each once and in their order, exactly when no name starts with
a slash; they never take one with another path than a relative one. This is what a run writes,
while all documents are listed, expected and counted. -/
theorem generated_selected_iff (h : r.generate s = .ok files) :
    batches.flatMap (·.select files) = files.filter (fun f => !f.path.isAbsolute) ∧
      (batches.flatMap (·.select files) = files ↔ ∀ q ∈ r.stems s, q.head? ≠ some '/') ∧
      ∀ (a : Arguments) (on : Bool) (t : FileTree) (p : Arguments.Plan),
        (a.plan t).result = .ok p → p.build.files = files →
          a.Treats on t p (batches.flatMap (·.select files)) := by
  obtain ⟨-, rfl⟩ := generate_eq_ok_iff.1 h
  refine ⟨flatMap_select_documents r s, flatMap_select_eq_iff, ?_⟩
  intro a on t p hplan hfiles
  rw [← hfiles]
  exact Arguments.treats_plan hplan

/-! ### One table under two names -/

/-- A source with one table of this name. -/
def sourceOf (name : String) : FileTree where
  top := .directory <|
    .sub "src".toList (.file "a.cpp".toList
      ("// Lua API: Table\n// Name: " ++ name).toUTF8 .empty) <|
    .sub "lib".toList .empty .empty

def buildOf (name : String) : Build where
  scanned := ⟨tableNamed name, 1, 1⟩
  files := (tableNamed name).documents {}

theorem generated_selected_iff_x :
    (tableNamed "x").generate {} = .ok (buildOf "x").files ∧
      batches.flatMap (·.select (buildOf "x").files) = (buildOf "x").files ∧
      (sampleArguments.plan (sourceOf "x")).result = .ok ⟨buildOf "x", []⟩ ∧
      sampleArguments.Treats false (sourceOf "x") ⟨buildOf "x", []⟩ (buildOf "x").files := by
  have hgenerate : (tableNamed "x").generate {} = .ok (buildOf "x").files := by decide +kernel
  have hbuild : (sampleProject.build (sourceOf "x") none).result = .ok (buildOf "x") :=
    build_result.2 ⟨(buildOf "x").scanned, by decide +kernel, rfl, hgenerate⟩
  have hoverlays : sampleArguments.overlays (sourceOf "x") sampleProject = [] := by
    decide +kernel
  have hplan : (sampleArguments.plan (sourceOf "x")).result = .ok ⟨buildOf "x", []⟩ :=
    Arguments.plan_result.2 ⟨sampleProject, by decide +kernel, _, hbuild, by rw [← hoverlays]; rfl⟩
  obtain ⟨-, hall, htreats⟩ := generated_selected_iff hgenerate
  have hsame := hall.2 (by decide +kernel)
  have htreated := htreats sampleArguments false (sourceOf "x") _ hplan rfl
  rw [hsame] at htreated
  exact ⟨hgenerate, hsame, hplan, htreated⟩

/-- No batch takes the documents of a table whose name starts with a slash, so the run writes
nothing, and the comparison of the tree that it leaves finds both of them missing. -/
theorem rooted_not_selected :
    (tableNamed "/x").generate {} = .ok ((tableNamed "/x").documents {}) ∧
      ((tableNamed "/x").documents {}).map (·.path) = [.ofString "/x.md", .ofString "/x.lua"] ∧
      batches.flatMap (·.select ((tableNamed "/x").documents {})) = [] ∧
      (respond sampleWords false (sourceOf "/x")).verdict.status = 0 ∧
      (respond (sampleWords ++ [checkWord]) false
        (respond sampleWords false (sourceOf "/x")).files).verdict.status = 1 :=
  ⟨by decide +kernel, by decide +kernel, by decide +kernel, by decide +kernel, by decide +kernel⟩

end LuaReference
