import LuaReference.Proofs.CommandLine.Comparison
import LuaReference.Proofs.Files.Contracts
import LuaReference.Proofs.Files.Placing

/-!
# Runs that fail while they write

Nothing that a run has written is taken back when the run fails. `PartlyWritten` says which trees a
run goes through, and `respond_interrupted` that a run which fails leaves one of them: a first part
of the documents is there, and pages only behind the last document, each file whole; no file is
lost, and no other file has changed.
-/

namespace LuaReference

open Arguments (Batch batches)
open FileTree (SameFiles Settled)

/-- The trees that a run goes through which writes documents and then copies overlays: a tree after
the documents `written` and, behind the last document, any of the pages. -/
inductive PartlyWritten (out : Path) (documents : List GeneratedFile) (os : List Overlay)
    (t : FileTree) : (written : List GeneratedFile) → FileTree → Prop
  | start : PartlyWritten out documents os t [] t
  /-- Directories are made, or a link is removed. -/
  | quiet {written : List GeneratedFile} {u v : FileTree}
      (h : PartlyWritten out documents os t written u)
      (hsame : ∀ place, v.bytesAt place = u.bytesAt place) :
      PartlyWritten out documents os t written v
  | document {written : List GeneratedFile} {f : GeneratedFile} {u v : FileTree}
      {place : List Text} (h : PartlyWritten out documents os t written u)
      (hnext : written ++ [f] <+: documents)
      (hputs : u.Puts (f.pathIn out) place f.content.utf8 v) :
      PartlyWritten out documents os t (written ++ [f]) v
  /-- A page that is copied onto itself is emptied. -/
  | page {u v : FileTree} {o : Overlay} {below origin place : List Text} {bytes : ByteArray}
      (h : PartlyWritten out documents os t documents u) (ho : o ∈ os)
      (hsource : u.locate .target (o.source.descend below) = .ok (.found origin (.file bytes)))
      (hputs : u.Puts (o.destination.descend below) place
        (if origin = place then .empty else bytes) v) :
      PartlyWritten out documents os t documents v

variable {out : Path} {documents written : List GeneratedFile} {os : List Overlay}
  {t u v : FileTree}

namespace PartlyWritten

theorem of_sameFiles (h : PartlyWritten out documents os t written u) (hsame : u.SameFiles v) :
    PartlyWritten out documents os t written v :=
  .quiet h hsame.bytesAt

/-- A first part of the documents is written. -/
theorem initial (h : PartlyWritten out documents os t written u) : written <+: documents := by
  induction h with
  | start => exact List.nil_prefix
  | quiet _ _ ih => exact ih
  | document _ hnext _ _ => exact hnext
  | page _ _ _ _ ih => exact ih

/-- A place that has had a file has one. -/
theorem keeps (h : PartlyWritten out documents os t written u) {place : List Text}
    (hplace : t.bytesAt place ≠ none) : u.bytesAt place ≠ none := by
  induction h with
  | start => exact hplace
  | quiet _ hsame ih => rwa [hsame]
  | @document _ _ _ _ x _ _ hputs ih | @page _ _ _ _ _ x _ _ _ _ hputs ih =>
    by_cases hx : place = x
    · rw [hx, hputs.bytesAt]
      exact Option.some_ne_none _
    · rwa [hputs.others place hx]

end PartlyWritten

/-- A tree in which work can go on. -/
def Underway (out : Path) (documents : List GeneratedFile) (os : List Overlay) (t : FileTree)
    (written : List GeneratedFile) (u : FileTree) : Prop :=
  u.Settled ∧ PartlyWritten out documents os t written u

/-- A tree in which work may have stopped. -/
def Stopped (out : Path) (documents : List GeneratedFile) (os : List Overlay)
    (t u : FileTree) : Prop :=
  ∃ written, PartlyWritten out documents os t written u

theorem Underway.stopped (h : Underway out documents os t written u) :
    Stopped out documents os t u := ⟨written, h.2⟩

theorem Underway.quiet (h : Underway out documents os t written u) (hsame : u.SameFiles v) :
    Underway out documents os t written v :=
  ⟨hsame.settled h.1, h.2.of_sameFiles hsame⟩

/-- Asking the tree changes nothing. -/
theorem meets_asking {α : Type} (f : FileTree → Report α) :
    (Job.reading f).Meets (Underway out documents os t written)
      (fun _ => Underway out documents os t written) (Stopped out documents os t) :=
  Job.meets_reading (fun _ _ hu _ => hu) fun _ hu => hu.stopped

/-! ### Documents -/

theorem meets_makeDirectories (p : Path) :
    (Job.changes (FileTree.makeDirectories p)).Meets (Underway out documents os t written)
      (fun _ => Underway out documents os t written) (Stopped out documents os t) :=
  Job.meets_changes (fun u hu => hu.quiet (u.sameFiles_makeDirectories p))
    fun u hu => (hu.quiet (u.sameFiles_makeDirectories p)).stopped

theorem meets_makeParent (p : Path) :
    (makeParent p).Meets (Underway out documents os t written)
      (fun _ => Underway out documents os t written) (Stopped out documents os t) := by
  rw [makeParent]
  cases p.parent? with
  | none => exact Job.meets_pure () _ _
  | some dir => exact meets_makeDirectories dir

/-- A file was removed, and then the document can be written in its place. -/
def Cleared (out : Path) (documents : List GeneratedFile) (os : List Overlay) (t : FileTree)
    (written : List GeneratedFile) (f : GeneratedFile) (u : FileTree) : Prop :=
  ∃ v, u.writeFile (f.pathIn out) f.content.utf8 = .ok v ∧
    Underway out documents os t (written ++ [f]) v

variable {f : GeneratedFile}

theorem meets_clearPath (hnext : written ++ [f] <+: documents) :
    (clearPath (f.pathIn out)).Meets (Underway out documents os t written)
      (fun _ u => Underway out documents os t written u ∨
        Cleared out documents os t written f u) (Stopped out documents os t) := by
  rw [clearPath]
  refine Job.meets_bind (meets_asking _) fun present => ?_
  cases present with
  | false =>
    exact (Job.meets_pure () _ _).weaken (fun _ => id) fun _ _ => Or.inl
  | true =>
    refine Job.meets_change ?_ fun _ _ hu _ => hu.stopped
    intro u v hu hremoved
    rcases FileTree.exists_writeFile_of_removeFile hu.1 hremoved f.content.utf8 with
      hsame | ⟨w, place, hwritten, hsettled, hputs⟩
    · exact Or.inl (hu.quiet hsame)
    · exact Or.inr ⟨w, hwritten, hsettled, .document hu.2 hnext hputs⟩

theorem meets_write (hnext : written ++ [f] <+: documents) :
    (f.write out).Meets (Underway out documents os t written)
      (fun _ => Underway out documents os t (written ++ [f])) (Stopped out documents os t) := by
  rw [GeneratedFile.write]
  refine Job.meets_bind (meets_makeParent _) fun _ => ?_
  refine Job.meets_bind (meets_clearPath hnext) fun _ => ?_
  refine Job.meets_bind (Job.meets_change ?_ ?_) fun _ => Job.meets_note _ _ _
  · rintro u v (hu | ⟨w, hwritten, hw⟩) hv
    · obtain ⟨hsettled, place, hputs⟩ := FileTree.puts_of_writeFile hu.1 hv
      exact ⟨hsettled, .document hu.2 hnext hputs⟩
    · obtain rfl := Except.ok.inj (hwritten.symm.trans hv)
      exact hw
  · rintro u why (hu | ⟨w, hwritten, -⟩) herror
    · exact hu.stopped
    · cases hwritten.symm.trans herror

theorem meets_writeGenerated {files : List GeneratedFile}
    (hnext : written ++ files <+: documents) :
    (writeGenerated out files).Meets (Underway out documents os t written)
      (fun _ => Underway out documents os t (written ++ files)) (Stopped out documents os t) := by
  rw [writeGenerated]
  refine Job.meets_bind (meets_makeDirectories _) fun _ => ?_
  refine Job.meets_bind (meets_makeDirectories _) fun _ => ?_
  have hstart : written = written ++ [] := (List.append_nil written).symm
  nth_rewrite 1 [hstart]
  refine Job.meets_each (fun before => Underway out documents os t (written ++ before)) ?_
  intro before f hbefore
  rw [← List.append_assoc]
  refine meets_write ?_
  rw [List.append_assoc]
  exact ((List.prefix_append_right_inj written).2 hbefore).trans hnext

theorem meets_batches {files : List GeneratedFile} (bs : List Batch) :
    (Job.each (Batch.write out files) bs).Meets
      (Underway out (bs.flatMap (·.select files)) os t [])
      (fun _ => Underway out (bs.flatMap (·.select files)) os t (bs.flatMap (·.select files)))
      (Stopped out (bs.flatMap (·.select files)) os t) := by
  refine Job.meets_each (fun before : List Batch =>
    Underway out (bs.flatMap (·.select files)) os t (before.flatMap (·.select files))) ?_
  rintro before b ⟨rest, rfl⟩
  refine Job.meets_bind ?_ fun _ => Job.meets_note _ _ _
  simp only [List.flatMap_append, List.flatMap_singleton]
  exact meets_writeGenerated (List.prefix_append _ _)

/-! ### Pages -/

theorem meets_copyEntries {o : Overlay} (ho : o ∈ os) (depth : Nat) (below names : List Text) :
    (copyEntries depth (o.source.descend below) (o.destination.descend below) names).Meets
      (Underway out documents os t documents) (fun _ => Underway out documents os t documents)
      (Stopped out documents os t) := by
  induction depth generalizing below names with
  | zero =>
    cases names with
    | nil => exact Job.meets_pure () _ _
    | cons name names =>
      exact Job.meets_reading (fun _ _ _ hfailed => nomatch hfailed) fun _ hu => hu.stopped
  | succ depth ih =>
    rw [copyEntries]
    refine Job.meets_each (fun _ => Underway out documents os t documents) fun _ name _ => ?_
    have hsource : (o.source.descend below).child name = o.source.descend (below ++ [name]) :=
      (Path.descend_concat o.source below name).symm
    have hdestination : (o.destination.descend below).child name =
        o.destination.descend (below ++ [name]) :=
      (Path.descend_concat o.destination below name).symm
    rw [copyEntry, hsource, hdestination]
    refine Job.meets_bind (meets_asking _) fun isDir => ?_
    cases isDir with
    | true =>
      refine Job.meets_bind (meets_makeDirectories _) fun _ => ?_
      exact Job.meets_bind (meets_asking _) fun names => ih (below ++ [name]) names
    | false =>
      refine Job.meets_bind (Job.meets_change ?_ fun _ _ hu _ => hu.stopped) fun _ =>
        Job.meets_note _ _ _
      intro u v hu hcopied
      obtain ⟨hsettled, origin, bytes, place, hfound, hputs⟩ :=
        FileTree.puts_of_copyFile hu.1 hcopied
      exact ⟨hsettled, .page hu.2 ho hfound hputs⟩

theorem meets_copyOverlays :
    (copyOverlays os).Meets (Underway out documents os t documents)
      (fun _ => Underway out documents os t documents) (Stopped out documents os t) := by
  refine Job.meets_each (fun _ => Underway out documents os t documents) ?_
  rintro before o ⟨rest, hos⟩
  have ho : o ∈ os := by
    rw [← hos]
    simp
  rw [Overlay.copy]
  refine Job.meets_bind (meets_makeDirectories _) fun _ => ?_
  exact Job.meets_bind (meets_asking _) fun names =>
    meets_copyEntries ho FileTree.longestPath [] names

/-! ### Runs -/

namespace Arguments

variable {a : Arguments} {files : List GeneratedFile} {on : Bool}

theorem meets_write (ht : t.Settled) :
    (a.write files os).Meets (· = t) (fun _ _ => True)
      (Stopped a.output (batches.flatMap (·.select files)) os t) := by
  rw [Arguments.write]
  refine Job.meets_bind ((meets_batches batches).weaken ?_ fun _ _ => id) fun _ => ?_
  · rintro u rfl
    exact ⟨ht, .start⟩
  refine Job.meets_bind (Job.meets_each
    (fun _ => Underway a.output (batches.flatMap (·.select files)) os t
      (batches.flatMap (·.select files))) fun _ o _ => Job.meets_note _ _ _) fun _ => ?_
  exact meets_copyOverlays.weaken (fun _ => id) fun _ _ _ => trivial

theorem meets_run {plan : Plan} (ht : t.Settled) (hcheck : a.check = false)
    (hdryRun : a.dryRun = false) (hplan : (a.plan t).result = .ok plan) :
    (a.run on).Meets (· = t) (fun _ _ => True)
      (Stopped a.output (batches.flatMap (·.select plan.build.files)) plan.overlays t) := by
  rw [Arguments.run, hcheck, hdryRun]
  have hread : (Job.reading a.plan).Meets (· = t) (fun p u => p = plan ∧ u = t)
      (Stopped a.output (batches.flatMap (·.select plan.build.files)) plan.overlays t) := by
    refine Job.meets_reading ?_ ?_
    · rintro u p rfl hresult
      exact ⟨Except.ok.inj (hresult.symm.trans hplan), rfl⟩
    · rintro u rfl
      exact ⟨[], .start⟩
  refine Job.meets_bind hread fun p => ?_
  by_cases hp : p = plan
  · subst hp
    refine Job.meets_bind ((meets_write ht).weaken (fun _ hu => hu.2) fun _ _ => id) fun _ => ?_
    -- what follows cannot fail
    cases a.verbose with
    | false => exact Job.meets_pure Ending.done (fun _ => True) _
    | true => exact Job.meets_bind (Job.meets_note _ _ _) fun _ => Job.meets_pure _ _ _
  · exact ⟨fun _ _ _ hu => absurd hu.1 hp, fun _ _ hu => absurd hu.1 hp⟩

end Arguments

/-! ### Responses -/

/-- When the program can build, writes and fails, a first part of the documents and, behind the
last one, some pages are in place, each file whole. Every other file is as it was, and no place
that had a file is without one. -/
theorem respond_interrupted {words : List Text} {a : Arguments} {p : Project} {b : Build}
    {e : Fault} (terminal : Bool) (ht : t.Settled) (hwords : Arguments.ofWords words = .ok a)
    (hcheck : a.check = false) (hdryRun : a.dryRun = false)
    (hload : Project.load t a.primary a.secondary a.settings = .ok p)
    (hbuild : (p.build t a.nameSpace).result = .ok b)
    (hfailed : (respond words terminal t).verdict = .failed e) :
    ∃ written, written <+: batches.flatMap (·.select b.files) ∧
      PartlyWritten a.output (batches.flatMap (·.select b.files)) (a.overlays t p) t written
        (respond words terminal t).files ∧
      ∀ place, t.bytesAt place ≠ none → (respond words terminal t).files.bytesAt place ≠ none := by
  have hplan : (a.plan t).result = .ok ⟨b, a.overlays t p⟩ :=
    Arguments.plan_result.2 ⟨p, hload, b, hbuild, rfl⟩
  have hrun : ((a.run (terminal && !a.noColor)) t).2.result = .error e := by
    rcases hrun : a.run (terminal && !a.noColor) t with ⟨t', notices, e' | ending⟩
    · have hverdict := (respond_of_failed hwords hrun).2
      rw [hfailed] at hverdict
      cases hverdict
      rfl
    · have hverdict := (respond_of_ended hwords hrun).2.1
      rw [hfailed] at hverdict
      cases hverdict
  obtain ⟨written, hwritten⟩ := (Arguments.meets_run ht hcheck hdryRun hplan).fails t e rfl hrun
  rw [respond_files hwords]
  exact ⟨written, hwritten.initial, hwritten, fun _ => hwritten.keeps⟩

/-! ### A directory in the way of the second document -/

/-- A tree with two tables, where a directory has the name that the page of the second one is to
get. -/
def blockedSource : FileTree where
  top := .directory <|
    .sub "src".toList (.file "a.cpp".toList
      "// Lua API: Table\n// Name: A\n\n// Lua API: Table\n// Name: B\n".toUTF8 .empty) <|
    .sub "lib".toList .empty <|
    .sub "site".toList (.sub "tables".toList (.sub "B.md".toList .empty .empty) .empty) .empty

def blockedRegistry : Registry :=
  ((({} : Registry).tableEntry "A".toList).1.tableEntry "B".toList).1

def blockedBuild : Build where
  scanned := ⟨blockedRegistry, 1, 2⟩
  files := blockedRegistry.documents {}

theorem blockedSource_builds :
    (sampleProject.build blockedSource none).result = .ok blockedBuild :=
  build_result.2 ⟨blockedBuild.scanned, by decide +kernel, rfl, by decide +kernel⟩

theorem respond_interrupted_blockedSource :
    blockedSource.Settled ∧
      (respond sampleWords false blockedSource).verdict = .failed (.refused .isDirectory) ∧
      ∃ written, written <+: batches.flatMap (·.select blockedBuild.files) ∧
        PartlyWritten (.ofString "site") (batches.flatMap (·.select blockedBuild.files))
          (sampleArguments.overlays blockedSource sampleProject) blockedSource written
          (respond sampleWords false blockedSource).files := by
  have hsettled : blockedSource.Settled := ⟨_, rfl⟩
  have hwords : Arguments.ofWords sampleWords = .ok sampleArguments := by decide +kernel
  have hload : Project.load blockedSource sampleArguments.primary sampleArguments.secondary none =
      .ok sampleProject := by decide +kernel
  have hfailed : (respond sampleWords false blockedSource).verdict =
      .failed (.refused .isDirectory) := by decide +kernel
  obtain ⟨written, hinitial, hwritten, -⟩ := respond_interrupted false hsettled hwords rfl rfl
    hload blockedSource_builds hfailed
  exact ⟨hsettled, hfailed, written, hinitial, hwritten⟩

/-- The run fails at the second page, and the first one stays below the output directory. -/
theorem blockedSource_keeps_first :
    Arguments.ofWords sampleWords = .ok sampleArguments ∧
      Project.load blockedSource sampleArguments.primary sampleArguments.secondary none =
        .ok sampleProject ∧
      (sampleProject.build blockedSource none).result = .ok blockedBuild ∧
      (respond sampleWords false blockedSource).verdict.status = 2 ∧
      blockedSource.bytesAt ["site".toList, "tables".toList, "A.md".toList] = none ∧
      (respond sampleWords false blockedSource).files.bytesAt
        ["site".toList, "tables".toList, "A.md".toList] = some "# Table: A\n\n".toUTF8 :=
  ⟨by decide +kernel, by decide +kernel, blockedSource_builds, by decide +kernel,
    by decide +kernel, by decide +kernel⟩

end LuaReference
