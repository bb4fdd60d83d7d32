import LuaReference.Proofs.Annotation.Acceptance
import LuaReference.Proofs.Printing.Row
import LuaReference.Proofs.Text.Lines

/-!
# Sources of printed blocks

A source that is printed from blocks is read without fault, and adds the blocks one after the
other: `scan_printed`.
-/

namespace LuaReference

def printed (blocks : List Printed) : Text := joinLines (blocks.flatMap Printed.lines)

/-! ### Lines -/

theorem runs_append_of_not_opens {opens keeps : Text → Bool} {lines rest : List Text}
    (h : ∀ l ∈ lines, opens l = false) :
    runs opens keeps (lines ++ rest) = runs opens keeps rest := by
  induction lines with
  | nil => rfl
  | cons l lines ih =>
    have hl : opens l = false := h l List.mem_cons_self
    rw [List.cons_append, runs, if_neg (by rw [hl]; decide)]
    exact ih fun l' hl' => h l' (List.mem_cons_of_mem l hl')

theorem runs_eq_singleton {opens keeps : Text → Bool} {first : Text} {lines : List Text}
    (hfirst : opens first = true) (hlines : ∀ l ∈ lines, opens l = false)
    (hkeeps : ∀ l ∈ lines, keeps l = true) :
    runs opens keeps (first :: lines) = [⟨first, lines⟩] := by
  have hnone : runs opens keeps lines = [] := by
    have happend : runs opens keeps (lines ++ []) = runs opens keeps [] :=
      runs_append_of_not_opens hlines
    rwa [List.append_nil] at happend
  rw [runs, if_pos hfirst, hnone, List.takeWhile_eq_self_iff.2 hkeeps]

namespace Printed

/-! ### One block -/

theorem opens_eq (k : Kind) (l : Text) : k.opens l = (openers k).any fun t => tagged t.word l := by
  cases k <;> simp [Kind.opens, openers, Tag.word]

theorem openers_subset {k : Kind} {t : Tag} (ht : t ∈ openers k) : t ∈ k.tags := by
  revert t
  cases k <;> decide

theorem opens_read {k : Kind} {row : Row} (h : row.Fits k) : k.opens row.read = opens k row := by
  rw [opens_eq, opens, Bool.eq_iff_iff, List.any_eq_true, List.any_eq_true]
  refine exists_congr fun t => and_congr_right fun ht => ?_
  rw [h.tagged_read (openers_subset ht)]

variable {b : Printed}

theorem Fits.oneLine (h : b.Fits) : ∀ l ∈ b.lines, '\n' ∉ l := by
  intro l hl
  rcases List.mem_cons.1 hl with rfl | hl
  · cases b.kind <;> decide
  · rcases List.mem_cons.1 hl with rfl | hl
    · exact h.first.oneLine
    · obtain ⟨row, hrow, rfl⟩ := List.mem_map.1 hl
      exact (h.rest row hrow).oneLine

theorem Fits.opens_first (h : b.Fits) : b.kind.opens b.opening.read = true := by
  rw [opens_read h.first]
  exact h.opening

theorem Fits.not_opens_rest (h : b.Fits) : ∀ l ∈ b.rows.map Row.read, b.kind.opens l = false := by
  intro l hl
  obtain ⟨row, hrow, rfl⟩ := List.mem_map.1 hl
  rw [opens_read (h.rest row hrow)]
  exact h.rows row hrow

theorem Fits.bodyLine_run (h : b.Fits) : ∀ l ∈ b.run.lines, bodyLine {} l = true := by
  intro l hl
  rcases List.mem_cons.1 hl with rfl | hl
  · exact h.first.bodyLine_read
  · obtain ⟨row, hrow, rfl⟩ := List.mem_map.1 hl
    exact (h.rest row hrow).bodyLine_read

theorem Fits.addBlock_run (h : b.Fits) (r : Registry) :
    addBlock r b.run = b.kind.addPart r ⟨b.opening.read, b.rows.map Row.read⟩ := by
  have hparts : b.kind.parts b.run.lines = [⟨b.opening.read, b.rows.map Row.read⟩] := by
    refine runs_eq_singleton h.opens_first h.not_opens_rest ?_
    intro l hl
    rw [h.not_opens_rest l hl]
    rfl
  have hkind : headerKind? b.run.opening = some b.kind := headerKind?_headerLine b.kind
  simp only [addBlock, hkind, hparts, List.foldl_cons, List.foldl_nil]

theorem Fits.accepted (h : b.Fits) : b.run.Accepted := by
  refine ⟨b.kind, headerKind?_headerLine b.kind, Or.inr ?_⟩
  intro line hline
  have heq : b.opening.read = line := by simpa [run] using hline
  rw [← heq]
  exact h.opens_first

/-! ### All blocks -/

theorem trim_lines (b : Printed) : b.lines.map Text.trim = b.run.opening :: b.run.lines := by
  simp only [lines, run, List.map_cons, List.map_map, trim_headerLine]
  rfl

theorem blocksOf_printed {blocks : List Printed} (h : ∀ b ∈ blocks, b.Fits) :
    blocksOf {} ((blocks.flatMap lines).map Text.trim) = blocks.map run := by
  induction blocks with
  | nil => rfl
  | cons b blocks ih =>
    have hb : b.Fits := h b List.mem_cons_self
    have hrest : ∀ b' ∈ blocks, b'.Fits := fun b' hb' => h b' (List.mem_cons_of_mem b hb')
    have hheader : isHeader {} b.run.opening.lower = true := isHeader_headerLine b.kind
    have hnot : ∀ l ∈ b.run.lines, isHeader {} l.lower = false := by
      intro l hl
      have hbody := hb.bodyLine_run l hl
      simp only [bodyLine, Bool.and_eq_true, Bool.not_eq_true'] at hbody
      exact hbody.2
    -- the next block starts with a header, which ends this one
    have hend : ((blocks.flatMap lines).map Text.trim).takeWhile (bodyLine {}) = [] := by
      cases blocks with
      | nil => rfl
      | cons b' blocks =>
        have hheader' : isHeader {} b'.run.opening.lower = true := isHeader_headerLine b'.kind
        have hnobody : bodyLine {} b'.run.opening = false := by
          rw [bodyLine, hheader', Bool.not_true, Bool.and_false]
        rw [List.flatMap_cons, List.map_append, trim_lines, List.cons_append, List.takeWhile_cons,
          hnobody]
        rfl
    rw [List.flatMap_cons, List.map_append, trim_lines, List.cons_append, blocksOf, runs,
      if_pos hheader, runs_append_of_not_opens hnot, List.takeWhile_append_of_pos hb.bodyLine_run,
      hend, List.append_nil, List.map_cons]
    exact congrArg _ (ih hrest)

end Printed

theorem sourceLines_printed {blocks : List Printed} (h : ∀ b ∈ blocks, b.Fits) :
    sourceLines (printed blocks) = (blocks.flatMap Printed.lines).map Text.trim := by
  rw [sourceLines, printed, lines_joinLines]
  intro l hl
  obtain ⟨b, hb, hl⟩ := List.mem_flatMap.1 hl
  exact (h b hb).oneLine l hl

/-- A source printed from blocks is read without fault and adds its blocks in order. -/
theorem scan_printed (file : Path) (r : Registry) {blocks : List Printed}
    (h : ∀ b ∈ blocks, b.Fits) :
    (scan {} file (printed blocks) r).fault = none ∧
      (scan {} file (printed blocks) r).blocks = blocks.length ∧
      (scan {} file (printed blocks) r).recorder.registry =
        (blocks.map Printed.run).foldl addBlock r := by
  have hblocks : blocksOf {} (sourceLines (printed blocks)) = blocks.map Printed.run := by
    rw [sourceLines_printed h]
    exact Printed.blocksOf_printed h
  have hfault : (scan {} file (printed blocks) r).fault = none := by
    rw [scan_fault_eq_none_iff, hblocks]
    intro run hrun
    obtain ⟨b, hb, rfl⟩ := List.mem_map.1 hrun
    exact (h b hb).accepted
  have hlines := hfault
  rw [scan_fault] at hlines
  obtain ⟨hcount, _, hregistry⟩ := scanLines_eq_blocks {} file 1 _ _ hlines
  rw [hblocks, List.length_map] at hcount
  rw [hblocks, foldl_after_outside _ _ rfl] at hregistry
  rw [scan_blocks, scan_recorder]
  exact ⟨hfault, hcount, hregistry⟩

end LuaReference
