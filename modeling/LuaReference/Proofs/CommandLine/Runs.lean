import LuaReference.CommandLine.Run
import LuaReference.Proofs.Files.Done

/-!
# What a run that ends well has done

A run that ends well is taken apart: which project was loaded and built, which overlays were
planned, and what was compared or written.
-/

namespace LuaReference

namespace Arguments

variable {a : Arguments} {t t' : FileTree} {on : Bool}

theorem plan_result {plan : Plan} :
    (a.plan t).result = .ok plan ↔
      ∃ p, Project.load t a.primary a.secondary a.settings = .ok p ∧
        ∃ b, (p.build t a.nameSpace).result = .ok b ∧
          plan = ⟨b, t.overlays p.primary a.output p.settings⟩ := by
  rw [Arguments.plan]
  cases Project.load t a.primary a.secondary a.settings with
  | error f => simp
  | ok p =>
    simp only [Report.bind_result, Report.done_result, Report.log_bind_result, exists_eq_left',
      Except.ok.injEq]
    refine exists_congr fun b => and_congr_right fun _ => ?_
    split
    · rw [Report.log_bind_result, Report.pure_result, eq_comm]
    · rw [Report.pure_result, eq_comm]

theorem compare_done {files : List GeneratedFile} {os : List Overlay} :
    (a.compare on t files os).result = .ok .done ↔
      ∃ shadowed, t.overlayPaths a.output os = .ok shadowed ∧
        t.stale a.output shadowed files = .ok [] := by
  rw [Arguments.compare, Report.bind_result]
  simp only [Report.ofFiles_result]
  refine exists_congr fun shadowed => and_congr_right fun _ => ?_
  cases t.stale a.output shadowed files with
  | error f => simp
  | ok ss => cases ss <;> simp

/-! ### Runs -/

/-- A comparison ends well exactly when all documents can be made and none is stale. -/
theorem run_compare (hcheck : a.check = true) :
    (a.run on).Done t .done t' ↔
      t = t' ∧ ∃ plan, (a.plan t).result = .ok plan ∧
        ∃ shadowed, t.overlayPaths a.output plan.overlays = .ok shadowed ∧
          t.stale a.output shadowed plan.build.files = .ok [] := by
  rw [Arguments.run, hcheck]
  constructor
  · intro h
    obtain ⟨plan, _, hread, h⟩ := Job.done_bind h
    obtain ⟨rfl, hplan⟩ := Job.done_reading hread
    obtain ⟨rfl, hcompare⟩ := Job.done_reading h
    exact ⟨rfl, plan, hplan, compare_done.1 hcompare⟩
  · rintro ⟨rfl, plan, hplan, hcompare⟩
    have hfirst : (Job.reading a.plan).Done t plan t := ⟨rfl, hplan⟩
    have hlast : (Job.reading fun t => a.compare on t plan.build.files plan.overlays).Done
      t .done t := ⟨rfl, compare_done.2 hcompare⟩
    exact hfirst.bind hlast

theorem run_write (hcheck : a.check = false) (hdryRun : a.dryRun = false)
    (h : (a.run on).Done t .done t') :
    ∃ plan, (a.plan t).result = .ok plan ∧
      (a.write plan.build.files plan.overlays).Done t () t' := by
  rw [Arguments.run, hcheck, hdryRun] at h
  obtain ⟨plan, _, hread, h⟩ := Job.done_bind h
  obtain ⟨rfl, hplan⟩ := Job.done_reading hread
  obtain ⟨_, written, hwritten, h⟩ := Job.done_bind h
  have hlast : written = t' := by
    cases hverbose : a.verbose with
    | false =>
      rw [hverbose] at h
      exact Job.done_pure h
    | true =>
      rw [hverbose] at h
      obtain ⟨_, noted, hnote, h⟩ := Job.done_bind h
      exact (Job.done_note hnote).trans (Job.done_pure h)
  exact ⟨plan, hplan, hlast ▸ hwritten⟩

/-- The documents of one batch written, and the message for it. -/
def Batch.write (out : Path) (files : List GeneratedFile) (b : Batch) : Job Unit := do
  writeGenerated out (b.select files)
  .note (.say b.message)

theorem write_done {files : List GeneratedFile} {os : List Overlay}
    (h : (a.write files os).Done t () t') :
    ∃ u, (Job.each (Batch.write a.output files) batches).Done t () u ∧
      (copyOverlays os).Done u () t' := by
  rw [Arguments.write] at h
  obtain ⟨_, u, hwritten, h⟩ := Job.done_bind h
  obtain ⟨_, v, hnoted, hcopied⟩ := Job.done_bind h
  have hsame : u = v := Job.done_each_note hnoted
  exact ⟨u, hwritten, hsame ▸ hcopied⟩

theorem done_write {files : List GeneratedFile} {os : List Overlay} {u : FileTree}
    (hwritten : (Job.each (Batch.write a.output files) batches).Done t () u)
    (hcopied : (copyOverlays os).Done u () t') : (a.write files os).Done t () t' :=
  hwritten.bind ((Job.each_note_done _ os u).bind hcopied)

theorem done_run (hcheck : a.check = false) (hdryRun : a.dryRun = false) {plan : Plan}
    (hplan : (a.plan t).result = .ok plan)
    (hwritten : (a.write plan.build.files plan.overlays).Done t () t') :
    (a.run on).Done t .done t' := by
  rw [Arguments.run, hcheck, hdryRun]
  refine (Job.reading_done hplan).bind (hwritten.bind ?_)
  cases a.verbose with
  | false => exact Job.pure_done _ t'
  | true => exact (Job.note_done _ t').bind (Job.pure_done _ t')

end Arguments

/-! ### Responses -/

/-- The program ends with status 0 on words that it can read exactly when the run ends well. -/
theorem respond_status_zero {words : List Text} {a : Arguments} {terminal : Bool} {t : FileTree}
    (h : Arguments.ofWords words = .ok a) :
    (respond words terminal t).verdict.status = 0 ↔
      (a.run (terminal && !a.noColor)).Done t .done (respond words terminal t).files := by
  rw [respond, h]
  dsimp only
  rcases hrun : a.run (terminal && !a.noColor) t with ⟨made, notices, f | e⟩
  · refine iff_of_false (fun hstatus => nomatch hstatus) ?_
    rintro ⟨-, hresult⟩
    rw [hrun] at hresult
    cases hresult
  · dsimp only
    rw [Job.Done, Job.left, hrun]
    cases e with
    | done => simp [Verdict.status]
    | outdated => simp [Verdict.status]

theorem respond_of_done {words : List Text} {a : Arguments} {terminal : Bool} {t t' : FileTree}
    (h : Arguments.ofWords words = .ok a)
    (hrun : (a.run (terminal && !a.noColor)).Done t .done t') :
    (respond words terminal t).verdict.status = 0 ∧ (respond words terminal t).files = t' := by
  obtain ⟨htree, hresult⟩ := hrun
  have hfiles : (respond words terminal t).files = t' := by
    rw [respond, h, ← htree, Job.left]
    dsimp only
    split <;> rfl
  refine ⟨(respond_status_zero h).2 ⟨htree.trans hfiles.symm, hresult⟩, hfiles⟩

end LuaReference
