import LuaReference.Sources
import LuaReference.Proofs.Annotation.Unbroken
import LuaReference.Proofs.Files.Done

/-!
# All sources

Sources are read one after another into one registry. What every single source keeps, all of them
keep; so no line end comes into a registry: `unbroken_scanSources`.
-/

namespace LuaReference

/-- What is scanned of a source file. -/
def sourceText (bytes : ByteArray) : Text := (Text.ofUtf8Lossy bytes).normalizeLineEnds

variable {t : FileTree} {s : Settings} {before so : Scanned} {paths roots : List Path}

theorem scanFile_result {p : Path} : (t.scanFile s before p).result = .ok so ↔
    ∃ bytes, t.readBytes p = .ok bytes ∧
      (scan s p (sourceText bytes) before.registry).fault = none ∧
      so.registry = (scan s p (sourceText bytes) before.registry).recorder.registry ∧
      so.files = before.files + 1 ∧
      so.blocks = before.blocks + (scan s p (sourceText bytes) before.registry).blocks := by
  rw [FileTree.scanFile, Report.bind_result]
  refine exists_congr fun bytes => ?_
  rw [Report.ofFiles_result]
  refine and_congr_right fun _ => ?_
  dsimp only
  rw [← sourceText]
  generalize scan s p (sourceText bytes) before.registry = made
  obtain ⟨registry, files, blocks⟩ := so
  rw [Report.log_bind_result]
  cases made.fault with
  | some f => simp
  | none =>
    rw [Report.done_result, Scanned.mk.injEq]
    simp only [eq_comm, true_and]

/-- What holds of the registry before and is kept by every source without carriage returns holds of
the registry after all files. -/
theorem scanFiles_keeps {P : Registry → Prop}
    (hscan : ∀ (p : Path) (content : Text) (r : Registry), '\r' ∉ content → P r →
      P (scan s p content r).recorder.registry)
    (hbefore : P before.registry) (h : (t.scanFiles s before paths).result = .ok so) :
    P so.registry := by
  induction paths generalizing before with
  | nil =>
    obtain rfl := (Report.done_result _ _).1 h
    exact hbefore
  | cons p paths ih =>
    rw [FileTree.scanFiles, Report.bind_result] at h
    obtain ⟨next, hnext, hrest⟩ := h
    obtain ⟨bytes, _, _, hregistry, _⟩ := scanFile_result.1 hnext
    refine ih ?_ hrest
    rw [hregistry]
    exact hscan p _ _ (Text.noReturn_normalizeLineEnds _) hbefore

theorem unbroken_scanFiles (hbefore : before.registry.Unbroken)
    (h : (t.scanFiles s before paths).result = .ok so) : so.registry.Unbroken :=
  scanFiles_keeps (fun p _ _ hcontent hr => unbroken_scan s p hcontent hr) hbefore h

theorem scanSources_result : (t.scanSources s roots).result = .ok so ↔
    ∃ paths, (t.collect s roots).result = .ok paths ∧
      (t.scanFiles s { registry := FileTree.startRegistry s } paths).result = .ok so := by
  rw [FileTree.scanSources, Report.bind_result]
  simp

/-- Without a namespace in the settings, all texts of the registry come from the sources. -/
theorem unbroken_scanSources (hnone : s.nameSpace = none)
    (h : (t.scanSources s roots).result = .ok so) : so.registry.Unbroken := by
  obtain ⟨paths, _, hfiles⟩ := scanSources_result.1 h
  refine unbroken_scanFiles ?_ hfiles
  rw [FileTree.startRegistry, hnone]
  exact .empty

end LuaReference
