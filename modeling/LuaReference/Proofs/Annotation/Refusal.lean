import LuaReference.Proofs.Annotation.Reading
import LuaReference.Proofs.Text.Lines

/-!
# Lines that fail

A line that fails leaves the recorder as it was, so a source that fails in one of its lines leaves
what the lines before it give: `fault_changes_nothing`.
-/

namespace LuaReference

/-- The number of the line that a source fails in. -/
def Fault.line? : Fault → Option Nat
  | unknownKind _ _ number | ownerMissing _ _ number => some number
  | _ => none

/-! ### One line -/

theorem Recorder.after_of_early {r : Recorder} {line : Text} (h : r.early? line ≠ none) :
    r.after line = r := by
  obtain ⟨registry, cursor⟩ := r
  cases hk : cursor.kind? with
  | none => simp only [after, hk]
  | some k =>
    have hearly : k.opens line = false ∧ cursor = .start k := by
      by_contra hnot
      refine h ?_
      simp only [early?, hk]
      exact if_neg fun hand => hnot ⟨hand.1, hand.2.1⟩
    obtain ⟨ho, rfl⟩ := hearly
    simp only [after, hk, ho, Bool.false_eq_true, if_false, fill_start]

theorem Recorder.record_of_fault {r : Recorder} {file : Path} {number : Nat} {line : Text}
    (h : (r.record file number line).fault ≠ none) : (r.record file number line).recorder = r := by
  have hearly : r.early? line ≠ none := by
    intro hnone
    rw [record_fault, hnone] at h
    exact h rfl
  rw [record_recorder, after_of_early hearly]

theorem read_of_fault {s : Settings} {r : Recorder} {file : Path} {number : Nat} {line : Text}
    {f : Fault} (h : (r.read s file number line).fault = some f) :
    (r.read s file number line).recorder = r ∧ f.line? = some number := by
  unfold Recorder.read at h ⊢
  split at h
  · next hh =>
    rw [if_pos hh]
    cases hk : headerKind? line with
    | some k =>
      rw [hk] at h
      cases h
    | none =>
      rw [hk] at h
      obtain rfl := Option.some.inj h
      exact ⟨rfl, rfl⟩
  · next hh =>
    rw [if_neg hh]
    split at h
    · next hbody =>
      rw [if_pos hbody]
      refine ⟨Recorder.record_of_fault (by simp [h]), ?_⟩
      rw [Recorder.record_fault] at h
      obtain ⟨k, _, rfl⟩ := Option.map_eq_some_iff.1 h
      rfl
    · cases h

/-! ### All lines -/

/-- Lines fail in one of them, and leave what those before it give. -/
theorem exists_line_of_fault {s : Settings} {file : Path} {number : Nat} {r : Recorder}
    {lines : List Text} {f : Fault} (h : (scanLines s file number r lines).fault = some f) :
    ∃ i, i < lines.length ∧ f.line? = some (number + i) ∧
      (scanLines s file number r (lines.take i)).fault = none ∧
      (scanLines s file number r (lines.take i)).recorder =
        (scanLines s file number r lines).recorder := by
  induction lines generalizing number r with
  | nil => cases h
  | cons line lines ih =>
    rw [scanLines] at h ⊢
    cases hread : (r.read s file number line).fault with
    | some g =>
      rw [hread] at h
      obtain rfl := Option.some.inj h
      obtain ⟨hkept, hline⟩ := read_of_fault hread
      refine ⟨0, by simp, hline, rfl, ?_⟩
      exact hkept.symm
    | none =>
      rw [hread] at h
      obtain ⟨i, hi, hline, hfault, hrecorder⟩ := ih h
      have hnext : number + 1 + i = number + (i + 1) := by omega
      refine ⟨i + 1, by simpa using hi, hnext ▸ hline, ?_, ?_⟩
      · rw [List.take_succ_cons, scanLines, hread]
        exact hfault
      · rw [List.take_succ_cons, scanLines, hread]
        exact hrecorder

theorem sourceLines_firstLines (n : Nat) (content : Text) :
    sourceLines (content.firstLines n) = (sourceLines content).take n := by
  rw [sourceLines, Text.lines_firstLines, List.map_take, sourceLines]

/-- A comment line that fails leaves registry and cursor as they were. A source that fails in line
`k` leaves exactly the registry that its first `k - 1` lines give, which do not fail. -/
theorem fault_changes_nothing :
    (∀ (r : Recorder) (file : Path) (number : Nat) (line : Text),
        (r.record file number line).fault ≠ none →
          (r.record file number line).recorder = r) ∧
      ∀ (s : Settings) (file : Path) (content : Text) (registry : Registry) (f : Fault),
        (scan s file content registry).fault = some f →
          ∃ k, f.line? = some k ∧ 1 ≤ k ∧ k ≤ content.lines.length ∧
            content.firstLines (k - 1) <+: content ∧
            (scan s file (content.firstLines (k - 1)) registry).fault = none ∧
            (scan s file (content.firstLines (k - 1)) registry).recorder.registry =
              (scan s file content registry).recorder.registry := by
  refine ⟨fun r file number line h => Recorder.record_of_fault h, ?_⟩
  intro s file content registry f h
  rw [scan_fault] at h
  obtain ⟨i, hi, hline, hfault, hrecorder⟩ := exists_line_of_fault h
  have hlength : (sourceLines content).length = content.lines.length := by
    rw [sourceLines, List.length_map]
  refine ⟨1 + i, hline, by omega, by omega, content.firstLines_prefix _, ?_, ?_⟩
  · rw [scan_fault, Nat.add_sub_cancel_left, sourceLines_firstLines, hfault]
  · rw [scan_recorder, scan_recorder, Nat.add_sub_cancel_left, sourceLines_firstLines, hrecorder]

/-- A block about a class, and one about a field that does not name its owner. -/
def ownerlessSource : Text :=
  "// Lua API: Class\n// Name: Pool\n// Lua API: Field\n// Field: n: int\n// Class: Pool".toList

theorem fault_changes_nothing_ownerless :
    (Recorder.record ⟨{}, .field none⟩ sampleFile 7 "// Field: n: int".toList).fault ≠ none ∧
      (Recorder.record ⟨{}, .field none⟩ sampleFile 7 "// Field: n: int".toList).recorder =
        ⟨{}, .field none⟩ ∧
      (scan {} sampleFile ownerlessSource {}).fault = some (.ownerMissing .field sampleFile 4) ∧
      ∃ k, (Fault.ownerMissing .field sampleFile 4).line? = some k ∧ 1 ≤ k ∧
        k ≤ ownerlessSource.lines.length ∧ ownerlessSource.firstLines (k - 1) <+: ownerlessSource ∧
        (scan {} sampleFile (ownerlessSource.firstLines (k - 1)) {}).fault = none ∧
        (scan {} sampleFile (ownerlessSource.firstLines (k - 1)) {}).recorder.registry =
          (scan {} sampleFile ownerlessSource {}).recorder.registry := by
  have hrecord : (Recorder.record ⟨{}, .field none⟩ sampleFile 7
      "// Field: n: int".toList).fault ≠ none := by decide +kernel
  have hscan : (scan {} sampleFile ownerlessSource {}).fault =
      some (.ownerMissing .field sampleFile 4) := by decide +kernel
  obtain ⟨hline, hsource⟩ := fault_changes_nothing
  exact ⟨hrecord, hline _ _ _ _ hrecord, hscan, hsource _ _ _ _ _ hscan⟩

end LuaReference
