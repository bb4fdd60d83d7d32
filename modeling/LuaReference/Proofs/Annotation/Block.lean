import LuaReference.Proofs.Annotation.Part

/-!
# Blocks of a source

The trimmed lines of a source are cut into blocks: a header, and the comment lines directly behind
it that are no headers. Main statement: `scan_registry_eq_blocks`, a scan that does not fail adds
the blocks of the source one after the other, each by its kind, its own lines and the registry
before it.
-/

namespace LuaReference

/-- Whether a line goes on with the block before it. -/
def bodyLine (s : Settings) (line : Text) : Bool :=
  line.contains commentMark && !isHeader s line.lower

/-- The blocks of some trimmed lines, each a header with the lines that belong to it. -/
def blocksOf (s : Settings) (lines : List Text) : List Run :=
  runs (fun line => isHeader s line.lower) (bodyLine s) lines

/-- What a block adds to the registry: its parts in order, as its kind has it. -/
def addBlock (r : Registry) (block : Run) : Registry :=
  match headerKind? block.opening with
  | none => r
  | some k => (k.parts block.lines).foldl k.addPart r

/-! ### One line -/

theorem after_of_outside (r : Recorder) (line : Text) (h : r.cursor = .outside) :
    r.after line = r := by
  simp only [Recorder.after, h, Cursor.kind?]

theorem foldl_after_outside (r : Recorder) (lines : List Text) (h : r.cursor = .outside) :
    lines.foldl Recorder.after r = r := by
  induction lines with
  | nil => rfl
  | cons line lines ih => rw [List.foldl_cons, after_of_outside r line h, ih]

theorem read_recorder_of_not_header (r : Recorder) (s : Settings) (file : Path) (number : Nat)
    (line : Text) (h : isHeader s line.lower = false) :
    (r.read s file number line).recorder =
      if line.contains commentMark then r.after line else r.close := by
  by_cases ho : r.cursor = .outside
  · have hclose : r.close = r := by rw [Recorder.close, ← ho]
    simp [Recorder.read, h, ho, hclose, after_of_outside r line ho]
  · by_cases hm : line.contains commentMark = true
    · simp [Recorder.read, h, ho, hm, Recorder.record_recorder]
    · simp [Recorder.read, h, hm]

/-! ### All lines -/

theorem scanLines_cons (s : Settings) (file : Path) (number : Nat) (r : Recorder) (line : Text)
    (rest : List Text) (h : (scanLines s file number r (line :: rest)).fault = none) :
    (r.read s file number line).fault = none ∧
      (scanLines s file (number + 1) (r.read s file number line).recorder rest).fault = none ∧
      (scanLines s file number r (line :: rest)).recorder =
        (scanLines s file (number + 1) (r.read s file number line).recorder rest).recorder ∧
      (scanLines s file number r (line :: rest)).blocks =
        (if isHeader s line.lower then 1 else 0) +
          (scanLines s file (number + 1) (r.read s file number line).recorder rest).blocks := by
  rw [scanLines] at h ⊢
  cases hf : (r.read s file number line).fault with
  | some f => simp [hf] at h
  | none =>
    simp only [hf] at h ⊢
    exact ⟨trivial, h, trivial, trivial⟩

/-- Lines read without fault: lines of the open block first, then the blocks of the rest. -/
theorem scanLines_eq_blocks (s : Settings) (file : Path) (number : Nat) (r : Recorder)
    (lines : List Text) (h : (scanLines s file number r lines).fault = none) :
    (scanLines s file number r lines).blocks = (blocksOf s lines).length ∧
      (∀ b ∈ blocksOf s lines, (headerKind? b.opening).isSome) ∧
      (scanLines s file number r lines).recorder.registry =
        (blocksOf s lines).foldl addBlock
          ((lines.takeWhile (bodyLine s)).foldl Recorder.after r).registry := by
  induction lines generalizing number r with
  | nil => exact ⟨rfl, by simp [blocksOf, runs], rfl⟩
  | cons line rest ih =>
    obtain ⟨hread, hrest, hrecorder, hblocks⟩ := scanLines_cons s file number r line rest h
    obtain ⟨ihblocks, ihkinds, ihregistry⟩ := ih _ _ hrest
    rw [hrecorder, hblocks, ihblocks, ihregistry]
    by_cases hh : isHeader s line.lower = true
    · have hnobody : bodyLine s line = false := by simp [bodyLine, hh]
      have hblocksOf : blocksOf s (line :: rest) =
          ⟨line, rest.takeWhile (bodyLine s)⟩ :: blocksOf s rest := by
        simp only [blocksOf, runs, hh, if_true]
      cases hk : headerKind? line with
      | none => simp [Recorder.read, hh, hk] at hread
      | some k =>
        have hbegin : (r.read s file number line).recorder = ⟨r.registry, .start k⟩ := by
          simp [Recorder.read, hh, hk, Recorder.begin]
        refine ⟨?_, ?_, ?_⟩
        · rw [hblocksOf, List.length_cons, if_pos hh, Nat.add_comm]
        · intro b hb
          rw [hblocksOf] at hb
          rcases List.mem_cons.1 hb with rfl | hb
          · simp [hk]
          · exact ihkinds b hb
        · rw [hblocksOf, hbegin, foldl_after_start]
          simp only [List.takeWhile_cons, hnobody, Bool.false_eq_true, if_false, List.foldl_nil,
            List.foldl_cons, addBlock, hk]
    · have hblocksOf : blocksOf s (line :: rest) = blocksOf s rest := by
        simp only [blocksOf, runs, hh, Bool.false_eq_true, if_false]
      have hnotHeader : isHeader s line.lower = false := by simpa using hh
      rw [hblocksOf, if_neg hh, Nat.zero_add]
      refine ⟨rfl, ihkinds, ?_⟩
      rw [read_recorder_of_not_header r s file number line hnotHeader]
      by_cases hm : line.contains commentMark = true
      · have hbody : bodyLine s line = true := by simp [bodyLine, hm, hnotHeader]
        simp only [hm, if_true, List.takeWhile_cons, hbody, List.foldl_cons]
      · have hbody : bodyLine s line = false := by simp [bodyLine, hm]
        rw [if_neg hm, foldl_after_outside r.close _ rfl]
        simp only [List.takeWhile_cons, hbody, Bool.false_eq_true, if_false, List.foldl_nil,
          Recorder.close]

theorem scan_fault (s : Settings) (file : Path) (content : Text) (r : Registry) :
    (scan s file content r).fault =
      (scanLines s file 1 { registry := r } (sourceLines content)).fault := by
  unfold scan
  dsimp only
  split <;> rfl

theorem scan_blocks (s : Settings) (file : Path) (content : Text) (r : Registry) :
    (scan s file content r).blocks =
      (scanLines s file 1 { registry := r } (sourceLines content)).blocks := by
  unfold scan
  dsimp only
  split <;> rfl

theorem scan_recorder (s : Settings) (file : Path) (content : Text) (r : Registry) :
    (scan s file content r).recorder =
      (scanLines s file 1 { registry := r } (sourceLines content)).recorder := by
  unfold scan
  dsimp only
  split <;> rfl

theorem registry_scan {s : Settings} {file : Path} {content : Text} {r : Registry}
    (h : (scan s file content r).fault = none) :
    (scan s file content r).recorder.registry =
      (blocksOf s (sourceLines content)).foldl addBlock r := by
  rw [scan_fault] at h
  obtain ⟨-, -, hregistry⟩ := scanLines_eq_blocks s file 1 _ _ h
  rw [scan_recorder, hregistry, foldl_after_outside _ _ rfl]

/-- A scan that does not fail counts the blocks of the source and adds them to the registry in
order; every block has a kind. -/
theorem scan_registry_eq_blocks (s : Settings) (file : Path) (content : Text) (r : Registry)
    (h : (scan s file content r).fault = none) :
    (scan s file content r).blocks = (blocksOf s (sourceLines content)).length ∧
      (∀ b ∈ blocksOf s (sourceLines content), ∃ k, headerKind? b.opening = some k) ∧
      (scan s file content r).recorder.registry =
        (blocksOf s (sourceLines content)).foldl addBlock r := by
  refine ⟨?_, ?_, registry_scan h⟩
  · rw [scan_fault] at h
    rw [scan_blocks, (scanLines_eq_blocks s file 1 _ _ h).1]
  · intro b hb
    rw [scan_fault] at h
    exact Option.isSome_iff_exists.1 ((scanLines_eq_blocks s file 1 _ _ h).2.1 b hb)

def sampleFile : Path := Path.ofString "pool.cpp"

/-- Two blocks with code between them, the second with an owner and a member. -/
def sampleSource : Text :=
  "int a; // Lua API: Class\n// Name: Pool\nint b;\n// Lua API: Field\n// Class: Pool\n// Field: n: int".toList

theorem scan_sampleSource_eq_blocks :
    (scan {} sampleFile sampleSource {}).fault = none ∧
      (scan {} sampleFile sampleSource {}).blocks =
        (blocksOf {} (sourceLines sampleSource)).length ∧
      (∀ b ∈ blocksOf {} (sourceLines sampleSource), ∃ k, headerKind? b.opening = some k) ∧
      (scan {} sampleFile sampleSource {}).recorder.registry =
        (blocksOf {} (sourceLines sampleSource)).foldl addBlock {} := by
  have hfault : (scan {} sampleFile sampleSource {}).fault = none := by decide +kernel
  exact ⟨hfault, scan_registry_eq_blocks {} sampleFile sampleSource {} hfault⟩

end LuaReference
