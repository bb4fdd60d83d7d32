import LuaReference.Proofs.Annotation.Block

/-!
# Reading in parts

Lists of lines that are read in turn are read as one list: `scanLines_append`. The file and the
number of the first line show in faults only: `scanLines_moved`. What headers, body lines and lines
in between keep, a scan keeps, whether it fails or not: `scanLines_keeps`.
-/

namespace LuaReference

/-! ### In turn -/

/-- A scan and, unless it failed, another one from where it ended. -/
def Scan.andThen (first : Scan) (next : Recorder → Scan) : Scan :=
  match first.fault with
  | some _ => first
  | none =>
    let later := next first.recorder
    { later with events := first.events ++ later.events, blocks := first.blocks + later.blocks }

theorem Scan.andThen_of_some {first : Scan} {next : Recorder → Scan} {f : Fault}
    (h : first.fault = some f) : first.andThen next = first := by
  simp only [Scan.andThen, h]

theorem Scan.andThen_of_none {first : Scan} {next : Recorder → Scan} (h : first.fault = none) :
    first.andThen next =
      { next first.recorder with
        events := first.events ++ (next first.recorder).events
        blocks := first.blocks + (next first.recorder).blocks } := by
  simp only [Scan.andThen, h]

theorem scanLines_append (s : Settings) (file : Path) (number : Nat) (r : Recorder)
    (first second : List Text) :
    scanLines s file number r (first ++ second) =
      (scanLines s file number r first).andThen fun before =>
        scanLines s file (number + first.length) before second := by
  induction first generalizing number r with
  | nil =>
    rw [List.nil_append, List.length_nil, Nat.add_zero]
    simp only [scanLines, Scan.andThen, List.nil_append, Nat.zero_add]
  | cons line first ih =>
    have hlength : number + 1 + first.length = number + (line :: first).length := by
      rw [List.length_cons]
      omega
    rw [List.cons_append, scanLines, scanLines]
    cases hread : (r.read s file number line).fault with
    | some f => rfl
    | none =>
      dsimp only
      rw [ih, hlength]
      cases hfirst : (scanLines s file (number + 1) (r.read s file number line).recorder
          first).fault with
      | some f => simp only [Scan.andThen, hfirst]
      | none => simp only [Scan.andThen, hfirst, List.append_assoc, Nat.add_assoc]

theorem scanLines_take_succ (s : Settings) (file : Path) (number : Nat) (r : Recorder)
    {lines : List Text} {i : Nat} {line : Text} (h : lines[i]? = some line) :
    scanLines s file number r (lines.take (i + 1)) =
      (scanLines s file number r (lines.take i)).andThen fun before =>
        scanLines s file (number + i) before [line] := by
  have hi : (lines.take i).length = i := by
    rw [List.length_take, Nat.min_eq_left (Nat.le_of_lt (List.getElem?_eq_some_iff.1 h).1)]
  rw [List.take_add_one, h, Option.toList_some, scanLines_append, hi]

/-- Lines up to one that fails fail as they do alone. -/
theorem scanLines_fault_of_take {s : Settings} {file : Path} {number : Nat} {r : Recorder}
    {lines : List Text} {n : Nat} {f : Fault}
    (h : (scanLines s file number r (lines.take n)).fault = some f) :
    (scanLines s file number r lines).fault = some f := by
  have hwhole := scanLines_append s file number r (lines.take n) (lines.drop n)
  rw [List.take_append_drop, Scan.andThen_of_some h] at hwhole
  rw [hwhole, h]

/-! ### In another place -/

/-- The fault as it is in another file, a number of lines further down. -/
def Fault.moved (file : Path) (down : Nat) : Fault → Fault
  | unknownKind word _ number => .unknownKind word file (number + down)
  | ownerMissing kind _ number => .ownerMissing kind file (number + down)
  | f => f

theorem read_moved (s : Settings) (file file' : Path) (number down : Nat) (r : Recorder)
    (line : Text) :
    (r.read s file' (number + down) line).recorder = (r.read s file number line).recorder ∧
      (r.read s file' (number + down) line).fault =
        (r.read s file number line).fault.map (·.moved file' down) := by
  unfold Recorder.read
  split
  · cases headerKind? line with
    | some k => exact ⟨rfl, rfl⟩
    | none => exact ⟨rfl, rfl⟩
  · split
    · rw [Recorder.record_recorder, Recorder.record_recorder, Recorder.record_fault,
        Recorder.record_fault, Option.map_map]
      exact ⟨rfl, rfl⟩
    · exact ⟨rfl, rfl⟩

theorem scanLines_moved (s : Settings) (file file' : Path) (number down : Nat) (r : Recorder)
    (lines : List Text) :
    (scanLines s file' (number + down) r lines).recorder =
        (scanLines s file number r lines).recorder ∧
      (scanLines s file' (number + down) r lines).blocks =
        (scanLines s file number r lines).blocks ∧
      (scanLines s file' (number + down) r lines).fault =
        (scanLines s file number r lines).fault.map (·.moved file' down) := by
  induction lines generalizing number r with
  | nil => exact ⟨rfl, rfl, rfl⟩
  | cons line lines ih =>
    obtain ⟨hrecorder, hfault⟩ := read_moved s file file' number down r line
    obtain ⟨ihrecorder, ihblocks, ihfault⟩ := ih (number + 1) (r.read s file number line).recorder
    have hnext : number + down + 1 = number + 1 + down := by omega
    rw [scanLines, scanLines]
    cases hread : (r.read s file number line).fault with
    | some f =>
      rw [hread, Option.map_some] at hfault
      simp only [hfault, hrecorder, Option.map_some, and_self]
    | none =>
      rw [hread, Option.map_none] at hfault
      simp only [hfault, hrecorder, hnext, ihrecorder, ihblocks, ihfault, and_self]

/-! ### What is kept -/

section
variable {P : Recorder → Prop} (hbegin : ∀ r k, P r → P (r.begin k)) (hclose : ∀ r, P r → P r.close)
include hbegin hclose

theorem read_keeps {r : Recorder} {line : Text} (hline : P r → P (r.after line)) (hr : P r)
    (s : Settings) (file : Path) (number : Nat) : P (r.read s file number line).recorder := by
  by_cases hh : isHeader s line.lower = true
  · rw [Recorder.read, if_pos hh]
    cases headerKind? line with
    | some k => exact hbegin r k hr
    | none => exact hr
  · rw [read_recorder_of_not_header r s file number line (by simpa using hh)]
    split
    · exact hline hr
    · exact hclose r hr

theorem scanLines_keeps {lines : List Text} (hline : ∀ line ∈ lines, ∀ r, P r → P (r.after line))
    {r : Recorder} (hr : P r) (s : Settings) (file : Path) (number : Nat) :
    P (scanLines s file number r lines).recorder := by
  induction lines generalizing number r with
  | nil => exact hr
  | cons line lines ih =>
    obtain ⟨hfirst, hothers⟩ := List.forall_mem_cons.1 hline
    have hread := read_keeps hbegin hclose (hfirst r) hr s file number
    rw [scanLines]
    cases (r.read s file number line).fault with
    | some f => exact hread
    | none => exact ih hothers hread (number + 1)

end

end LuaReference
