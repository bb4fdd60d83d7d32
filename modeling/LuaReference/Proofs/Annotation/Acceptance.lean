import LuaReference.Proofs.Annotation.Block

/-!
# Sources without fault

A source is read to its end exactly when every block has a kind and names its owner in its first
line: `scan_fault_eq_none_iff`. A block that sets the namespace needs no owner.
-/

namespace LuaReference

/-- A block that has a kind and whose first line says what it is about. -/
def Run.Accepted (block : Run) : Prop :=
  ∃ k, headerKind? block.opening = some k ∧
    (k = .nameSpace ∨ ∀ line ∈ block.lines.head?, k.opens line = true)

theorem accepted_iff {opening : Text} {lines : List Text} {k : Kind}
    (hk : headerKind? opening = some k) :
    Run.Accepted ⟨opening, lines⟩ ↔
      ∀ line ∈ lines.head?, k = .nameSpace ∨ k.opens line = true := by
  constructor
  · rintro ⟨k', hk', hfirst⟩ line hline
    have heq : k = k' := Option.some.inj (hk.symm.trans hk')
    rw [heq]
    exact hfirst.imp_right fun h => h line hline
  · intro h
    refine ⟨k, hk, ?_⟩
    by_cases hn : k = .nameSpace
    · exact Or.inl hn
    · exact Or.inr fun line hline => (h line hline).resolve_left hn

namespace Recorder

theorem early?_start_eq_none_iff {r : Registry} {k : Kind} {line : Text} :
    early? ⟨r, .start k⟩ line = none ↔ k = .nameSpace ∨ k.opens line = true := by
  have hkind : (Cursor.start k).kind? = some k := Cursor.kind?_start k
  rw [early?]
  dsimp only
  rw [hkind]
  by_cases hk : k = .nameSpace
  · simp [hk]
  · cases ho : k.opens line <;> simp [hk, ho]

/-- Behind a line that does not come too early, no line does. -/
theorem early?_after {r : Recorder} {line : Text} (h : r.early? line = none) (next : Text) :
    (r.after line).early? next = none := by
  obtain ⟨registry, cursor⟩ := r
  cases hk : cursor.kind? with
  | none => simp only [after, early?, hk]
  | some k =>
    by_cases ho : k.opens line = true
    · have hafter : after ⟨registry, cursor⟩ line = k.openPart registry line := by
        simp only [after, hk, ho, if_true]
      rw [hafter]
      cases k <;> simp [early?, Kind.openPart, Cursor.kind?, Cursor.start]
    · have hafter : after ⟨registry, cursor⟩ line = ⟨cursor.fill registry line, cursor⟩ := by
        simp only [after, hk, ho, if_false, Bool.false_eq_true]
      rw [hafter]
      -- the cursor stays, and only the start of a block refuses a line
      have hstart : ¬ (cursor = .start k ∧ k ≠ .nameSpace) := by
        intro hs
        simp [early?, ho, hs.1, hs.2] at h
      simp only [early?, hk]
      refine if_neg ?_
      intro hs
      exact hstart hs.2

end Recorder

theorem read_fault_eq_none_iff (r : Recorder) (s : Settings) (file : Path) (number : Nat)
    {line : Text} (hh : isHeader s line.lower = false) (hm : line.contains commentMark = true) :
    (r.read s file number line).fault = none ↔ r.early? line = none := by
  by_cases ho : r.cursor = .outside
  · simp [Recorder.read, hh, ho, Recorder.early?, Cursor.kind?]
  · simp [Recorder.read, hh, ho, hm, Recorder.record_fault]

theorem scanLines_fault_cons (s : Settings) (file : Path) (number : Nat) (r : Recorder)
    (line : Text) (rest : List Text) :
    (scanLines s file number r (line :: rest)).fault = none ↔
      (r.read s file number line).fault = none ∧
        (scanLines s file (number + 1) (r.read s file number line).recorder rest).fault = none := by
  rw [scanLines]
  cases hf : (r.read s file number line).fault <;> simp

theorem scanLines_fault_eq_none_iff (s : Settings) (file : Path) (number : Nat) (r : Recorder)
    (lines : List Text) :
    (scanLines s file number r lines).fault = none ↔
      (∀ line ∈ (lines.takeWhile (bodyLine s)).head?, r.early? line = none) ∧
        ∀ b ∈ blocksOf s lines, b.Accepted := by
  induction lines generalizing number r with
  | nil => simp [scanLines, blocksOf, runs]
  | cons line rest ih =>
    rw [scanLines_fault_cons, ih]
    by_cases hh : isHeader s line.lower = true
    · have hnobody : bodyLine s line = false := by simp [bodyLine, hh]
      have hblocks : blocksOf s (line :: rest) =
          ⟨line, rest.takeWhile (bodyLine s)⟩ :: blocksOf s rest := by
        simp only [blocksOf, runs, hh, if_true]
      rw [hblocks]
      simp only [List.takeWhile_cons, hnobody, Bool.false_eq_true, if_false, List.head?_nil,
        List.forall_mem_cons]
      cases hk : headerKind? line with
      | none => simp [Recorder.read, hh, hk, Run.Accepted]
      | some k =>
        have hread : r.read s file number line = { recorder := ⟨r.registry, .start k⟩ } := by
          simp [Recorder.read, hh, hk, Recorder.begin]
        rw [hread, accepted_iff hk]
        simp [Recorder.early?_start_eq_none_iff]
    · have hnotHeader : isHeader s line.lower = false := by simpa using hh
      have hblocks : blocksOf s (line :: rest) = blocksOf s rest := by
        simp only [blocksOf, runs, hh, Bool.false_eq_true, if_false]
      rw [hblocks, read_recorder_of_not_header r s file number line hnotHeader]
      by_cases hm : line.contains commentMark = true
      · have hbody : bodyLine s line = true := by simp [bodyLine, hm, hnotHeader]
        rw [read_fault_eq_none_iff r s file number hnotHeader hm]
        simp only [hm, if_true, List.takeWhile_cons, hbody, List.head?_cons, Option.mem_def,
          Option.some.injEq, forall_eq']
        constructor
        · rintro ⟨hline, _, hrest⟩
          exact ⟨hline, hrest⟩
        · rintro ⟨hline, hrest⟩
          exact ⟨hline, fun next _ => Recorder.early?_after hline next, hrest⟩
      · have hbody : bodyLine s line = false := by simp [bodyLine, hm]
        have hread : (r.read s file number line).fault = none := by
          simp [Recorder.read, hnotHeader, hm]
        simp [hread, hm, hbody, Recorder.close, Recorder.early?, Cursor.kind?]

/-- A source is read without fault exactly when every block is accepted. -/
theorem scan_fault_eq_none_iff (s : Settings) (file : Path) (content : Text) (r : Registry) :
    (scan s file content r).fault = none ↔ ∀ b ∈ blocksOf s (sourceLines content), b.Accepted := by
  rw [scan_fault, scanLines_fault_eq_none_iff]
  simp [Recorder.early?, Cursor.kind?]

end LuaReference
