import LuaReference.Overlay
import LuaReference.Output
import LuaReference.Proofs.Files.Done

/-!
# What jobs log about documents

Every document that is written is logged, and nothing else is logged as a document. A job logs
some documents when it says so of exactly these, in this order, whenever it ends well; jobs that
are put together log what their parts log, one after the other.
-/

namespace LuaReference

/-- The document that a notice says was written. -/
def Notice.document? : Notice → Option Path
  | event (.wroteDocument p) => some p
  | _ => none

namespace Job

variable {α β : Type} {ps qs : List Path}

/-- Whenever the job ends well, it has logged that it wrote these documents, and no others. -/
def Logs (j : Job α) (ps : List Path) : Prop :=
  ∀ t a t', j.Done t a t' → (j t).2.notices.filterMap Notice.document? = ps

theorem logs_bind {j : Job α} {f : α → Job β} (hj : j.Logs ps) (hf : ∀ a, (f a).Logs qs) :
    (j >>= f).Logs (ps ++ qs) := by
  intro t b t'' h
  obtain ⟨a, t', hfirst, hrest⟩ := done_bind h
  rw [notices_bind hfirst, List.filterMap_append, hj t a t' hfirst, hf a t' b t'' hrest]

theorem logs_pure (a : α) : (pure a : Job α).Logs [] := fun _ _ _ _ => rfl

theorem logs_change (f : FileTree → Except Refusal FileTree) : (change f).Logs [] := by
  intro t a t' _
  rw [notices_change]
  rfl

theorem logs_changes (f : FileTree → FileTree × Except Refusal Unit) : (changes f).Logs [] := by
  intro t a t' _
  rw [changes, Report.ofFiles_notices]
  rfl

theorem logs_note {n : Notice} (hn : n.document? = none) : (note n).Logs [] := by
  intro t a t' _
  change List.filterMap Notice.document? [n] = []
  rw [List.filterMap_cons, hn]
  rfl

theorem logs_each {f : α → Job Unit} {logged : α → List Path} {as : List α}
    (hf : ∀ a ∈ as, (f a).Logs (logged a)) : (each f as).Logs (as.flatMap logged) := by
  induction as with
  | nil => exact logs_pure ()
  | cons a as ih =>
    obtain ⟨hfirst, hothers⟩ := List.forall_mem_cons.1 hf
    rw [each, List.flatMap_cons]
    exact logs_bind hfirst fun _ => ih hothers

/-- Work on a list that logs nothing about documents for any member logs nothing at all. -/
theorem logs_each_nil {f : α → Job Unit} {as : List α} (hf : ∀ a ∈ as, (f a).Logs []) :
    (each f as).Logs [] := by
  have h := logs_each hf
  rwa [List.flatMap_eq_nil_iff.2 fun _ _ => rfl] at h

end Job

/-! ### Writing documents -/

open Job

theorem logs_makeParent (p : Path) : (makeParent p).Logs [] := by
  rw [makeParent]
  split
  · exact logs_pure ()
  · exact logs_changes _

theorem logs_clearPath (p : Path) : (clearPath p).Logs [] := by
  have hasked : (reading fun t => Report.done (t.isPresent p)).Logs [] := fun _ _ _ _ => rfl
  rw [clearPath]
  refine logs_bind hasked fun present => ?_
  split
  · exact logs_change _
  · exact logs_pure ()

theorem logs_write (out : Path) (f : GeneratedFile) : (f.write out).Logs [f.pathIn out] := by
  have hnoted : (note (.event (.wroteDocument (f.pathIn out)))).Logs [f.pathIn out] :=
    fun _ _ _ _ => rfl
  rw [GeneratedFile.write]
  exact logs_bind (logs_makeParent _) fun _ => logs_bind (logs_clearPath _) fun _ =>
    logs_bind (logs_change _) fun _ => hnoted

/-- Generated files are logged one after the other. -/
theorem logs_writeGenerated (out : Path) (files : List GeneratedFile) :
    (writeGenerated out files).Logs (files.map (·.pathIn out)) := by
  have hfiles : (each (·.write out) files).Logs (files.flatMap fun f => [f.pathIn out]) :=
    logs_each fun f _ => logs_write out f
  rw [← List.map_eq_flatMap] at hfiles
  rw [writeGenerated]
  exact logs_bind (logs_changes _) fun _ => logs_bind (logs_changes _) fun _ => hfiles

/-! ### Copying pages -/

theorem logs_names (dir : Path) : (Job.names dir).Logs [] := by
  intro t names t' _
  rw [Job.names, reading, Report.ofFiles_notices]
  rfl

theorem logs_copyEntry {inside : Path → Path → List Text → Job Unit}
    (hinside : ∀ source destination names, (inside source destination names).Logs [])
    (source destination : Path) (name : Text) :
    (copyEntry inside source destination name).Logs [] := by
  have hasked : (reading fun t => Report.done (t.isDirectory (source.child name))).Logs [] :=
    fun _ _ _ _ => rfl
  rw [copyEntry]
  refine logs_bind hasked fun isDirectory => ?_
  split
  · exact logs_bind (logs_changes _) fun _ => logs_bind (logs_names _) fun names =>
      hinside _ _ names
  · exact logs_bind (logs_change _) fun _ => logs_note rfl

theorem logs_copyEntries (depth : Nat) (source destination : Path) (names : List Text) :
    (copyEntries depth source destination names).Logs [] := by
  induction depth generalizing source destination names with
  | zero =>
    cases names with
    | nil => exact logs_pure ()
    | cons name names => exact fun _ _ _ h => nomatch h.2
  | succ depth ih =>
    rw [copyEntries]
    exact logs_each_nil fun name _ => logs_copyEntry ih source destination name

/-- Pages that are copied are no documents that are written. -/
theorem logs_copyOverlays (os : List Overlay) : (copyOverlays os).Logs [] := by
  refine logs_each_nil fun o _ => ?_
  rw [Overlay.copy]
  exact logs_bind (logs_changes _) fun _ => logs_bind (logs_names _) fun names =>
    logs_copyEntries _ _ _ names

end LuaReference
