import LuaReference.Proofs.Annotation.Comments
import LuaReference.Proofs.Annotation.Reading
import LuaReference.Proofs.Text.Lines

/-!
# Files that are joined

Nothing but the registry goes from one file to the next: `scan_joined`, two files read in turn give
what one file gives that holds both with an empty line between them.
-/

namespace LuaReference

theorem sourceLines_joined (a b : Text) :
    sourceLines (a.terminated ++ '\n' :: b) = sourceLines a ++ [] :: sourceLines b := by
  rw [sourceLines, Text.lines_terminated_append, Text.lines_newline, List.map_append,
    List.map_cons]
  rfl

/-- An empty line closes whatever is open, and does nothing else. -/
theorem read_empty (s : Settings) (file : Path) (number : Nat) (r : Recorder) :
    r.read s file number [] = { recorder := { registry := r.registry } } :=
  read_of_not_contains rfl r number

theorem scanLines_empty_cons (s : Settings) (file : Path) (number : Nat) (r : Recorder)
    (lines : List Text) :
    scanLines s file number r ([] :: lines) =
      scanLines s file (number + 1) { registry := r.registry } lines := by
  rw [scanLines, read_empty, isHeader_of_not_contains rfl]
  simp

/-- The lines of a source in another file and further down, read as the source is. -/
theorem scanLines_sourceLines (s : Settings) (file file' : Path) (down : Nat) (content : Text)
    (r : Registry) :
    (scanLines s file' (1 + down) { registry := r } (sourceLines content)).recorder =
        (scan s file content r).recorder ∧
      (scanLines s file' (1 + down) { registry := r } (sourceLines content)).blocks =
        (scan s file content r).blocks ∧
      (scanLines s file' (1 + down) { registry := r } (sourceLines content)).fault =
        (scan s file content r).fault.map (·.moved file' down) := by
  rw [scan_recorder, scan_blocks, scan_fault]
  exact scanLines_moved s file file' 1 down { registry := r } (sourceLines content)

/-- Reading a file that holds `a`, an empty line and `b` is reading `a` and then, unless that fails,
reading `b` into what `a` leaves: the registry, the number of blocks and the fault are the same,
but for the name of the file and, in `b`, for the lines of `a` and the empty line above it. -/
theorem scan_joined (s : Settings) (file fileA fileB : Path) (a b : Text) (r : Registry) :
    let first := scan s fileA a r
    let second := scan s fileB b first.recorder.registry
    let whole := scan s file (a.terminated ++ '\n' :: b) r
    match first.fault with
    | none =>
      whole.recorder.registry = second.recorder.registry ∧
        whole.blocks = first.blocks + second.blocks ∧
        whole.fault = second.fault.map (·.moved file (a.lines.length + 1))
    | some f =>
      whole.recorder.registry = first.recorder.registry ∧ whole.blocks = first.blocks ∧
        whole.fault = some (f.moved file 0) := by
  intro first second whole
  have hlength : 1 + (sourceLines a).length + 1 = 1 + (a.lines.length + 1) := by
    rw [sourceLines, List.length_map, Nat.add_assoc]
  -- the lines of the whole are those of `a`, the empty line and those of `b`
  have hwhole : scanLines s file 1 { registry := r } (sourceLines (a.terminated ++ '\n' :: b)) =
      (scanLines s file (1 + 0) { registry := r } (sourceLines a)).andThen fun before =>
        scanLines s file (1 + (a.lines.length + 1)) { registry := before.registry }
          (sourceLines b) := by
    rw [sourceLines_joined, scanLines_append]
    simp only [scanLines_empty_cons, hlength, Nat.add_zero]
  obtain ⟨hrecorder, hblocks, hfault⟩ := scanLines_sourceLines s fileA file 0 a r
  obtain ⟨hrecorder', hblocks', hfault'⟩ :=
    scanLines_sourceLines s fileB file (a.lines.length + 1) b first.recorder.registry
  cases hfirst : first.fault with
  | some f =>
    rw [hfirst, Option.map_some] at hfault
    rw [Scan.andThen_of_some hfault] at hwhole
    refine ⟨?_, ?_, ?_⟩
    · rw [scan_recorder, hwhole, hrecorder]
    · rw [scan_blocks, hwhole, hblocks]
    · rw [scan_fault, hwhole, hfault]
  | none =>
    rw [hfirst, Option.map_none] at hfault
    rw [Scan.andThen_of_none hfault, hrecorder] at hwhole
    refine ⟨?_, ?_, ?_⟩
    · rw [scan_recorder, hwhole]
      exact congrArg Recorder.registry hrecorder'
    · rw [scan_blocks, hwhole]
      exact congrArg₂ (· + ·) hblocks hblocks'
    · rw [scan_fault, hwhole]
      exact hfault'

end LuaReference
