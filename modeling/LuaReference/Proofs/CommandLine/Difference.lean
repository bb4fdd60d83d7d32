import LuaReference.CommandLine.Run
import LuaReference.Proofs.Text.Lines
import Mathlib.Data.List.TakeWhile

/-!
# Printed differences

Without colours a difference is printed as one line for each line of either text, behind the mark
that says on which sides the line stands. Both texts can be read back from it, each with its last
line terminated: `printed_difference`.
-/

namespace LuaReference

/-! ### Lines with and without their ends -/

namespace Text

/-- A line without its line feed. -/
def unended (l : Text) : Text := l.takeWhile (· ≠ '\n')

theorem noFeed_unended (l : Text) : '\n' ∉ l.unended := fun hmem => by
  simpa using List.mem_takeWhile_imp hmem

theorem unended_cons {c : Char} (h : c ≠ '\n') (l : Text) :
    unended (c :: l) = c :: unended l := by
  rw [unended, List.takeWhile_cons_of_pos (by simpa using h), unended]

theorem map_unended_wholeLines {t : Text} (h : '\r' ∉ t) :
    t.wholeLines.map unended = t.lines := by
  fun_induction wholeLines t with
  | case1 => rfl
  | case2 t ih => exact absurd List.mem_cons_self h
  | case3 c t _ hend ih =>
    rw [List.mem_cons, not_or] at h
    obtain rfl := hend.resolve_left (Ne.symm h.1)
    rw [List.map_cons, ih h.2, lines_newline]
    rfl
  | case4 c t _ hend hnil ih =>
    rw [List.mem_cons, not_or] at h
    rw [not_or] at hend
    rw [lines_cons_of_ne hend.2, ← ih h.2, hnil, List.map_singleton, unended_cons hend.2]
    rfl
  | case5 c t _ hend l ls hlines ih =>
    rw [List.mem_cons, not_or] at h
    rw [not_or] at hend
    rw [lines_cons_of_ne hend.2, ← ih h.2, hlines, List.map_cons, List.map_cons,
      unended_cons hend.2]

/-- Without carriage returns a line ends in a line feed or not at all. -/
theorem eq_unended_of_mem_wholeLines {t l : Text} (h : '\r' ∉ t) (hl : l ∈ t.wholeLines) :
    l = l.unended ∨ l = l.unended ++ ['\n'] := by
  fun_induction wholeLines t generalizing l with
  | case1 => exact absurd hl List.not_mem_nil
  | case2 t ih => exact absurd List.mem_cons_self h
  | case3 c t _ hend ih =>
    rw [List.mem_cons, not_or] at h
    obtain rfl := hend.resolve_left (Ne.symm h.1)
    rcases List.mem_cons.1 hl with rfl | hl
    · exact Or.inr rfl
    · exact ih h.2 hl
  | case4 c t _ hend hnil ih =>
    rw [not_or] at hend
    rw [List.mem_singleton] at hl
    rw [hl, unended_cons hend.2]
    exact Or.inl rfl
  | case5 c t _ hend first others hlines ih =>
    rw [List.mem_cons, not_or] at h
    rw [not_or] at hend
    rw [hlines] at ih
    rcases List.mem_cons.1 hl with rfl | hl
    · rw [unended_cons hend.2, List.cons_append, List.cons_inj_right, List.cons_inj_right]
      exact ih h.2 List.mem_cons_self
    · exact ih h.2 (List.mem_cons_of_mem first hl)

theorem subset_of_mem_wholeLines {t l : Text} (hl : l ∈ t.wholeLines) : l ⊆ t := by
  rw [← flatten_wholeLines t]
  exact fun c hc => List.mem_flatten_of_mem hl hc

end Text

/-! ### Printed lines -/

namespace DiffLine

/-- A line as it is printed, without its end. -/
def row (d : DiffLine) : Text := ' ' :: ' ' :: d.side.sign :: d.text.unended

theorem noFeed_row (d : DiffLine) : '\n' ∉ d.row := by
  have hsign : d.side.sign ≠ '\n' := by cases d.side <;> decide
  simp [row, hsign.symm, Text.noFeed_unended]

theorem shown_eq_row {t : Text} (ht : '\r' ∉ t) {d : DiffLine} (hd : d.text ∈ t.wholeLines) :
    d.shown false = d.row ++ ['\n'] := by
  have hreturn : '\r' ∉ d.text := fun hmem => ht (Text.subset_of_mem_wholeLines hd hmem)
  have hlast : d.text.getLast? ≠ some '\r' := fun hlast => hreturn (List.mem_of_getLast? hlast)
  have hend : (d.text ++ if d.text.getLast? = some '\n' ∨ d.text.getLast? = some '\r' then []
      else ['\n']) = d.text.unended ++ ['\n'] := by
    rcases Text.eq_unended_of_mem_wholeLines ht hd with hbare | hfeed
    · have hfeed : d.text.getLast? ≠ some '\n' := by
        intro hfeed
        have hmem := List.mem_of_getLast? hfeed
        rw [hbare] at hmem
        exact Text.noFeed_unended _ hmem
      rw [if_neg (not_or.2 ⟨hfeed, hlast⟩), ← hbare]
    · have hends : d.text.getLast? = some '\n' := by
        rw [hfeed]
        exact List.getLast?_concat
      rw [if_pos (Or.inl hends), List.append_nil, ← hfeed]
  have hpaint : ∀ (c : Colour) (t : Text), c.paint false t = t := fun _ _ => rfl
  rw [shown, row]
  cases d.side <;> simp [hpaint, hend]

end DiffLine

theorem mem_wholeLines_old {old new : Text} {d : DiffLine} (hd : d ∈ diffLines old new)
    (hside : d.side ≠ .new) : d.text ∈ old.wholeLines := by
  rw [← oldLines_diffLines old new, oldLines]
  exact List.mem_map_of_mem (List.mem_filter.2 ⟨hd, decide_eq_true hside⟩)

theorem mem_wholeLines_new {old new : Text} {d : DiffLine} (hd : d ∈ diffLines old new)
    (hside : d.side ≠ .old) : d.text ∈ new.wholeLines := by
  rw [← newLines_diffLines old new, newLines]
  exact List.mem_map_of_mem (List.mem_filter.2 ⟨hd, decide_eq_true hside⟩)

variable {old new : Text}

theorem shownDifference_eq_joinLines (hold : '\r' ∉ old) (hnew : '\r' ∉ new) :
    shownDifference false old new = joinLines ((diffLines old new).map DiffLine.row) := by
  rw [shownDifference, joinLines, List.flatMap_map]
  refine List.flatMap_congr fun d hd => ?_
  by_cases hside : d.side = .new
  · exact DiffLine.shown_eq_row hnew (mem_wholeLines_new hd (by simp [hside]))
  · exact DiffLine.shown_eq_row hold (mem_wholeLines_old hd hside)

theorem lines_shownDifference (hold : '\r' ∉ old) (hnew : '\r' ∉ new) :
    (shownDifference false old new).lines = (diffLines old new).map DiffLine.row := by
  rw [shownDifference_eq_joinLines hold hnew, lines_joinLines]
  intro l hl
  obtain ⟨d, -, rfl⟩ := List.mem_map.1 hl
  exact d.noFeed_row

/-! ### Reading a difference -/

/-- A printed line, and the texts in which a line with its mark stands. -/
inductive MarkedLine (old new : Text) : Text → Prop
  | dropped {l : Text} (hold : l ∈ old.lines) : MarkedLine old new (' ' :: ' ' :: '-' :: l)
  | added {l : Text} (hnew : l ∈ new.lines) : MarkedLine old new (' ' :: ' ' :: '+' :: l)
  | kept {l : Text} (hold : l ∈ old.lines) (hnew : l ∈ new.lines) :
      MarkedLine old new (' ' :: ' ' :: ' ' :: l)

/-- The lines of a printed difference that bear this mark or a blank, without their marks. -/
def Text.markedBy (mark : Char) (printed : Text) : Text :=
  joinLines ((printed.lines.filter fun l => l[2]? = some mark ∨ l[2]? = some ' ').map (·.drop 3))

theorem markedLine_row (hold : '\r' ∉ old) (hnew : '\r' ∉ new) {d : DiffLine}
    (hd : d ∈ diffLines old new) : MarkedLine old new d.row := by
  have hinOld : d.side ≠ .new → d.text.unended ∈ old.lines := fun hside => by
    rw [← Text.map_unended_wholeLines hold]
    exact List.mem_map_of_mem (mem_wholeLines_old hd hside)
  have hinNew : d.side ≠ .old → d.text.unended ∈ new.lines := fun hside => by
    rw [← Text.map_unended_wholeLines hnew]
    exact List.mem_map_of_mem (mem_wholeLines_new hd hside)
  rw [DiffLine.row]
  cases hside : d.side with
  | both => exact .kept (hinOld (by simp [hside])) (hinNew (by simp [hside]))
  | old => exact .dropped (hinOld (by simp [hside]))
  | new => exact .added (hinNew (by simp [hside]))

/-- The lines that are not of one side alone are the ones with the other side's mark or a blank. -/
theorem markedBy_eq {printed : Text} {ds : List DiffLine}
    (hlines : printed.lines = ds.map DiffLine.row) {mark : Char} {side : Side}
    (hmark : ∀ s : Side, s.sign = mark ∨ s.sign = ' ' ↔ s ≠ side) :
    printed.markedBy mark =
      joinLines (((ds.filter (·.side ≠ side)).map (·.text)).map Text.unended) := by
  have hsign : ∀ d : DiffLine, d.row[2]? = some d.side.sign := fun _ => rfl
  have hkept : (fun l : Text => decide (l[2]? = some mark ∨ l[2]? = some ' ')) ∘ DiffLine.row =
      fun d => decide (d.side ≠ side) := by
    funext d
    rw [Function.comp_apply, decide_eq_decide, hsign, Option.some.injEq, Option.some.injEq]
    exact hmark d.side
  rw [Text.markedBy, hlines, List.filter_map, hkept, List.map_map, List.map_map]
  rfl

/-- Every printed line is a marked line of one of the texts or of both, and the lines with the mark
of either side or a blank are exactly the lines of that side. -/
theorem printed_difference (hold : '\r' ∉ old) (hnew : '\r' ∉ new) :
    shownDifference false old new = joinLines (shownDifference false old new).lines ∧
      (∀ l ∈ (shownDifference false old new).lines, MarkedLine old new l) ∧
      (shownDifference false old new).markedBy '-' = old.terminated ∧
      (shownDifference false old new).markedBy '+' = new.terminated := by
  have hlines := lines_shownDifference hold hnew
  refine ⟨?_, ?_, ?_, ?_⟩
  · rw [hlines]
    exact shownDifference_eq_joinLines hold hnew
  · rw [hlines]
    intro l hl
    obtain ⟨d, hd, rfl⟩ := List.mem_map.1 hl
    exact markedLine_row hold hnew hd
  · have hmark : ∀ s : Side, s.sign = '-' ∨ s.sign = ' ' ↔ s ≠ .new := by
      rintro ⟨⟩ <;> decide
    have hside : ((diffLines old new).filter (·.side ≠ .new)).map (·.text) = old.wholeLines :=
      oldLines_diffLines old new
    rw [markedBy_eq hlines hmark, hside, Text.map_unended_wholeLines hold, joinLines_lines]
  · have hmark : ∀ s : Side, s.sign = '+' ∨ s.sign = ' ' ↔ s ≠ .old := by
      rintro ⟨⟩ <;> decide
    have hside : ((diffLines old new).filter (·.side ≠ .old)).map (·.text) = new.wholeLines :=
      newLines_diffLines old new
    rw [markedBy_eq hlines hmark, hside, Text.map_unended_wholeLines hnew, joinLines_lines]

/-- The last line is the same but for its line feed. -/
theorem printed_difference_unended :
    '\r' ∉ "a\nb".toList ∧ '\r' ∉ "b\n".toList ∧
      (shownDifference false "a\nb".toList "b\n".toList).markedBy '-' = "a\nb\n".toList ∧
      (shownDifference false "a\nb".toList "b\n".toList).markedBy '+' = "b\n".toList := by
  have hold : '\r' ∉ "a\nb".toList := by decide
  have hnew : '\r' ∉ "b\n".toList := by decide
  obtain ⟨-, -, hminus, hplus⟩ := printed_difference hold hnew
  exact ⟨hold, hnew, hminus, hplus⟩

end LuaReference
