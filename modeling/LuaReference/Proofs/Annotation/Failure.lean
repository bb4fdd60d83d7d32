import LuaReference.Proofs.Annotation.Acceptance
import Mathlib.Data.Nat.Find

/-!
# Where reading fails

A line fails by itself and the line before it: a header fails when it names no kind, a comment line
when it directly follows a header and does not name the owner that the header asks for. Main
statement: `scan_fault_iff_first`, the fault of a scan is that of the first such line, and without
such a line there is none.
-/

namespace LuaReference

/-- Reading fails at a position of some trimmed lines, the first of which is line 1 of the file. -/
inductive FailsAt (s : Settings) (file : Path) (lines : List Text) : Nat → Fault → Prop
  /-- A header whose word is none of the six kinds. -/
  | unknownKind {i : Nat} {line : Text} (hline : lines[i]? = some line)
      (hheader : isHeader s line.lower = true)
      (hkind : ∀ k : Kind, (line.behindFirst tagMark).trim.lower ≠ k.word) :
      FailsAt s file lines i (.unknownKind (headerWord line) file (i + 1))
  /-- A comment line that directly follows a header and does not carry the owner tag of its kind. -/
  | ownerMissing {i : Nat} {header line : Text} {k : Kind} (hbefore : lines[i]? = some header)
      (hheader : isHeader s header.lower = true)
      (hkind : (header.behindFirst tagMark).trim.lower = k.word) (howned : k ≠ .nameSpace)
      (hline : lines[i + 1]? = some line) (hbody : isHeader s line.lower = false)
      (hmark : line.contains commentMark = true) (htag : k.opens line = false) :
      FailsAt s file lines (i + 1) (.ownerMissing k file (i + 2))

/-! ### One line -/

/-- The kind of the header that stands before a line, if the line has to name its owner. -/
def asksOwner? (s : Settings) (before : Option Text) (line : Text) : Option Kind :=
  (before.filter fun header => isHeader s header.lower).bind fun header =>
    (headerKind? header).filter fun k => k ≠ .nameSpace ∧ k.opens line = false

def lineFault? (s : Settings) (file : Path) (before : Option Text) (number : Nat) (line : Text) :
    Option Fault :=
  if isHeader s line.lower then
    if (headerKind? line).isNone then some (.unknownKind (headerWord line) file number) else none
  else if line.contains commentMark then
    (asksOwner? s before line).map (.ownerMissing · file number)
  else none

/-- The recorder refuses the lines that the line read last makes it refuse. -/
def Recorder.Follows (s : Settings) (r : Recorder) (before : Option Text) : Prop :=
  ∀ line, r.early? line = asksOwner? s before line

theorem asksOwner?_of_not_header {s : Settings} {before : Text}
    (h : isHeader s before.lower = false) (line : Text) :
    asksOwner? s (some before) line = none := by
  simp [asksOwner?, h]

theorem follows_start {s : Settings} {header : Text} {k : Kind} (r : Registry)
    (hheader : isHeader s header.lower = true) (hkind : headerKind? header = some k) :
    Recorder.Follows s ⟨r, .start k⟩ (some header) := by
  intro line
  have hearly : asksOwner? s (some header) line =
      if k ≠ .nameSpace ∧ k.opens line = false then some k else none := by
    simp [asksOwner?, hheader, hkind, Option.filter]
  rw [hearly, Recorder.early?]
  dsimp only
  rw [Cursor.kind?_start]
  by_cases ho : k.opens line = false
  · simp [ho]
  · simp [ho]

theorem follows_outside (s : Settings) {r : Recorder} {before : Option Text}
    (hcursor : r.cursor = .outside) (hbefore : ∀ b ∈ before, isHeader s b.lower = false) :
    r.Follows s before := by
  intro line
  rw [Recorder.early?, hcursor]
  cases before with
  | none => rfl
  | some b => exact (asksOwner?_of_not_header (hbefore b rfl) line).symm

theorem Recorder.Follows.read_fault {s : Settings} {r : Recorder} {before : Option Text}
    (h : r.Follows s before) (file : Path) (number : Nat) (line : Text) :
    (r.read s file number line).fault = lineFault? s file before number line := by
  rw [Recorder.read, lineFault?]
  by_cases hh : isHeader s line.lower = true
  · rw [if_pos hh, if_pos hh]
    cases headerKind? line <;> rfl
  · rw [if_neg hh, if_neg hh]
    by_cases hm : line.contains commentMark = true
    · rw [if_pos hm, ← h line]
      by_cases ho : r.cursor = .outside
      · rw [if_neg (fun hand => hand.1 ho), Recorder.early?, ho]
        rfl
      · rw [if_pos ⟨ho, hm⟩, Recorder.record_fault]
    · rw [if_neg (fun hand => hm hand.2), if_neg hm]

/-- After a line that did not fail, what is refused next depends on that line alone. -/
theorem follows_read {s : Settings} {r : Recorder} {file : Path} {number : Nat} {line : Text}
    (hread : (r.read s file number line).fault = none) :
    (r.read s file number line).recorder.Follows s (some line) := by
  by_cases hh : isHeader s line.lower = true
  · cases hk : headerKind? line with
    | none => simp [Recorder.read, hh, hk] at hread
    | some k =>
      have hbegin : (r.read s file number line).recorder = ⟨r.registry, .start k⟩ := by
        simp [Recorder.read, hh, hk, Recorder.begin]
      rw [hbegin]
      exact follows_start r.registry hh hk
  · have hbody : isHeader s line.lower = false := by simpa using hh
    rw [read_recorder_of_not_header r s file number line hbody]
    by_cases hm : line.contains commentMark = true
    · rw [if_pos hm]
      have hearly := (read_fault_eq_none_iff r s file number hbody hm).1 hread
      intro next
      rw [Recorder.early?_after hearly, asksOwner?_of_not_header hbody]
    · rw [if_neg hm]
      refine follows_outside s rfl ?_
      intro b hb
      rw [← Option.some.inj hb]
      exact hbody

/-! ### All lines -/

/-- What is wrong with the line at a position, when the line before the first one is `before`. -/
def faultAt? (s : Settings) (file : Path) (number : Nat) (before : Option Text)
    (lines : List Text) (i : Nat) : Option Fault :=
  lines[i]?.bind fun line => lineFault? s file ((before :: lines.map some)[i]?.join) (i + number) line

theorem faultAt?_zero (s : Settings) (file : Path) (number : Nat) (before : Option Text)
    (line : Text) (rest : List Text) :
    faultAt? s file number before (line :: rest) 0 = lineFault? s file before number line := by
  rw [faultAt?, Nat.zero_add]
  rfl

theorem faultAt?_succ (s : Settings) (file : Path) (number : Nat) (before : Option Text)
    (line : Text) (rest : List Text) (i : Nat) :
    faultAt? s file number before (line :: rest) (i + 1) =
      faultAt? s file (number + 1) (some line) rest i := by
  rw [faultAt?, faultAt?, Nat.add_right_comm, Nat.add_assoc, List.map_cons,
    List.getElem?_cons_succ, List.getElem?_cons_succ]

/-- The first position at which there is a fault, and the fault. -/
def FirstFault (faults : Nat → Option Fault) (f : Fault) : Prop :=
  ∃ i, faults i = some f ∧ ∀ j < i, faults j = none

theorem firstFault_iff_of_zero {faults : Nat → Option Fault} {f g : Fault}
    (h : faults 0 = some g) : FirstFault faults f ↔ g = f := by
  constructor
  · rintro ⟨i, hi, hfirst⟩
    cases i with
    | zero => exact Option.some.inj (h.symm.trans hi)
    | succ i =>
      have hnone := hfirst 0 (Nat.succ_pos i)
      rw [h] at hnone
      cases hnone
  · rintro rfl
    exact ⟨0, h, fun j hj => absurd hj (Nat.not_lt_zero j)⟩

theorem firstFault_iff_of_not_zero {faults : Nat → Option Fault} {f : Fault}
    (h : faults 0 = none) : FirstFault faults f ↔ FirstFault (fun i => faults (i + 1)) f := by
  constructor
  · rintro ⟨i, hi, hfirst⟩
    cases i with
    | zero =>
      rw [h] at hi
      cases hi
    | succ i => exact ⟨i, hi, fun j hj => hfirst (j + 1) (Nat.succ_lt_succ hj)⟩
  · rintro ⟨i, hi, hfirst⟩
    refine ⟨i + 1, hi, ?_⟩
    intro j hj
    cases j with
    | zero => exact h
    | succ j => exact hfirst j (Nat.lt_of_succ_lt_succ hj)

theorem scanLines_fault_iff {s : Settings} {file : Path} {number : Nat} {r : Recorder}
    {before : Option Text} {lines : List Text} (h : r.Follows s before) (f : Fault) :
    (scanLines s file number r lines).fault = some f ↔
      FirstFault (faultAt? s file number before lines) f := by
  induction lines generalizing number r before with
  | nil =>
    constructor
    · intro hf
      cases hf
    · rintro ⟨i, hi, -⟩
      cases hi
  | cons line rest ih =>
    have hzero := faultAt?_zero s file number before line rest
    have hsucc : (fun i => faultAt? s file number before (line :: rest) (i + 1)) =
        faultAt? s file (number + 1) (some line) rest :=
      funext fun i => faultAt?_succ s file number before line rest i
    have hread := h.read_fault file number line
    rw [scanLines]
    cases hf : (r.read s file number line).fault with
    | some g =>
      rw [hf] at hread
      rw [firstFault_iff_of_zero (hzero.trans hread.symm)]
      exact ⟨Option.some.inj, congrArg some⟩
    | none =>
      rw [hf] at hread
      rw [firstFault_iff_of_not_zero (hzero.trans hread.symm), hsucc]
      exact ih (follows_read hf)

theorem headerKind?_eq_none_iff {line : Text} :
    headerKind? line = none ↔ ∀ k : Kind, (line.behindFirst tagMark).trim.lower ≠ k.word := by
  rw [headerKind?, Option.eq_none_iff_forall_ne_some]
  exact forall_congr' fun k => not_congr Kind.ofText?_eq_some_iff

theorem faultAt?_eq_some_iff {s : Settings} {file : Path} {lines : List Text} {i : Nat}
    {f : Fault} : faultAt? s file 1 none lines i = some f ↔ FailsAt s file lines i f := by
  rw [faultAt?, Option.bind_eq_some_iff]
  constructor
  · rintro ⟨line, hline, hfault⟩
    rw [lineFault?] at hfault
    by_cases hh : isHeader s line.lower = true
    · rw [if_pos hh] at hfault
      cases hk : headerKind? line with
      | some k => simp [hk] at hfault
      | none =>
        rw [hk] at hfault
        obtain rfl := Option.some.inj hfault
        exact .unknownKind hline hh (headerKind?_eq_none_iff.1 hk)
    · rw [if_neg hh] at hfault
      split at hfault
      · next hm =>
        obtain ⟨k, hasks, rfl⟩ := Option.map_eq_some_iff.1 hfault
        cases i with
        | zero => cases hasks
        | succ i =>
          rw [asksOwner?] at hasks
          obtain ⟨header, hbefore, hk⟩ := Option.bind_eq_some_iff.1 hasks
          obtain ⟨hbefore, hheader⟩ := Option.filter_eq_some_iff.1 hbefore
          obtain ⟨hkind, hasks⟩ := Option.filter_eq_some_iff.1 hk
          obtain ⟨howned, htag⟩ := of_decide_eq_true hasks
          have hheaderAt : lines[i]? = some header := by
            simpa [Option.join_eq_some_iff] using hbefore
          exact .ownerMissing hheaderAt hheader (Kind.ofText?_eq_some_iff.1 hkind) howned hline
            (by simpa using hh) hm htag
      · cases hfault
  · intro h
    cases h with
    | @unknownKind _ line hline hheader hkind =>
      refine ⟨line, hline, ?_⟩
      rw [lineFault?, if_pos hheader, headerKind?_eq_none_iff.2 hkind]
      rfl
    | @ownerMissing i header line k hbefore hheader hkind howned hline hbody hmark htag =>
      refine ⟨line, hline, ?_⟩
      have hword : headerKind? header = some k := Kind.ofText?_eq_some_iff.2 hkind
      have hasks : asksOwner? s ((none :: lines.map some)[i + 1]?.join) line = some k := by
        simp [asksOwner?, hbefore, hheader, hword, Option.filter, howned, htag]
      rw [lineFault?, if_neg (by simp [hbody]), if_pos hmark, hasks]
      rfl

theorem scan_fault_iff_firstFault {s : Settings} {file : Path} {content : Text} {r : Registry}
    {f : Fault} : (scan s file content r).fault = some f ↔
      FirstFault (faultAt? s file 1 none (sourceLines content)) f := by
  have hstart : Recorder.Follows s { registry := r } none :=
    follows_outside s rfl fun b hb => nomatch hb
  rw [scan_fault, scanLines_fault_iff hstart]

/-- The fault of a scan is that of the first line that fails, with its number, file and kind; a
scan without fault has no such line. -/
theorem scan_fault_iff_first (s : Settings) (file : Path) (content : Text) (r : Registry) :
    (∀ f, (scan s file content r).fault = some f ↔
        ∃ i, FailsAt s file (sourceLines content) i f ∧
          ∀ j < i, ∀ g, ¬ FailsAt s file (sourceLines content) j g) ∧
      ((scan s file content r).fault ≠ none ↔ ∃ i f, FailsAt s file (sourceLines content) i f) := by
  have hfirst : ∀ f, (scan s file content r).fault = some f ↔
      ∃ i, FailsAt s file (sourceLines content) i f ∧
        ∀ j < i, ∀ g, ¬ FailsAt s file (sourceLines content) j g := by
    intro f
    rw [scan_fault_iff_firstFault, FirstFault]
    refine exists_congr fun i => and_congr faultAt?_eq_some_iff (forall₂_congr fun j _ => ?_)
    rw [Option.eq_none_iff_forall_ne_some]
    exact forall_congr' fun g => not_congr faultAt?_eq_some_iff
  refine ⟨hfirst, ?_⟩
  rw [Option.ne_none_iff_exists']
  constructor
  · rintro ⟨f, hf⟩
    obtain ⟨i, hi, -⟩ := (hfirst f).1 hf
    exact ⟨i, f, hi⟩
  · intro hexists
    classical
    -- of all the lines that fail there is a first one
    obtain ⟨f, hf⟩ := Nat.find_spec hexists
    exact ⟨f, (hfirst f).2 ⟨Nat.find hexists, hf, fun j hj g hg =>
      Nat.find_min hexists hj ⟨g, hg⟩⟩⟩

end LuaReference
