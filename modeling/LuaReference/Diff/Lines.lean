import LuaReference.Diff.Compare
import LuaReference.Diff.Settled

/-!
# The lines of a difference

Texts are compared line by line, each line with the line end that it has. Between kept lines the
dropped ones come before the added ones. `oldLines_diffLines` and `newLines_diffLines`: the lines
of either side are exactly the lines of its text.
-/

namespace LuaReference

/-- The lines of a text, each with its line end: a line feed, a carriage return, or both. -/
def Text.wholeLines : Text → List Text
  | [] => []
  | '\r' :: '\n' :: t => ['\r', '\n'] :: wholeLines t
  | c :: t =>
    if c = '\r' ∨ c = '\n' then [c] :: wholeLines t
    else match wholeLines t with
      | [] => [[c]]
      | l :: ls => (c :: l) :: ls

theorem Text.flatten_wholeLines (t : Text) : t.wholeLines.flatten = t := by
  fun_induction Text.wholeLines t with
  | case1 => rfl
  | case2 t ih => simp [ih]
  | case3 c t _ h ih => simp [ih]
  | case4 c t _ h hn ih =>
    rw [hn] at ih
    simp [← ih]
  | case5 c t _ h l ls hl ih =>
    rw [hl] at ih
    simp [← ih]

inductive Side where
  | both
  | old
  | new
  deriving DecidableEq

structure DiffLine where
  side : Side
  text : Text
  deriving DecidableEq

namespace Script

/-- The lines of a script, behind lines that wait for the next kept one. -/
def linesAfter (dropped added : List Text) : Script → List DiffLine
  | [] => dropped.map (⟨.old, ·⟩) ++ added.map (⟨.new, ·⟩)
  | .keep ls :: s =>
    dropped.map (⟨.old, ·⟩) ++ added.map (⟨.new, ·⟩) ++ ls.map (⟨.both, ·⟩) ++ linesAfter [] [] s
  | .drop ls :: s => linesAfter (dropped ++ ls) added s
  | .add ls :: s => linesAfter dropped (added ++ ls) s

end Script

def oldLines (ds : List DiffLine) : List Text := (ds.filter (·.side ≠ .new)).map (·.text)

def newLines (ds : List DiffLine) : List Text := (ds.filter (·.side ≠ .old)).map (·.text)

@[simp]
theorem oldLines_append (a b : List DiffLine) : oldLines (a ++ b) = oldLines a ++ oldLines b := by
  simp [oldLines]

@[simp]
theorem newLines_append (a b : List DiffLine) : newLines (a ++ b) = newLines a ++ newLines b := by
  simp [newLines]

/-- Lines of one side only are the lines of that side, lines of both sides are those of each. -/
@[simp]
theorem oldLines_map (side : Side) (ls : List Text) :
    oldLines (ls.map (⟨side, ·⟩)) = if side = .new then [] else ls := by
  induction ls with
  | nil => simp [oldLines]
  | cons l ls ih => cases side <;> simp_all [oldLines]

@[simp]
theorem newLines_map (side : Side) (ls : List Text) :
    newLines (ls.map (⟨side, ·⟩)) = if side = .old then [] else ls := by
  induction ls with
  | nil => simp [newLines]
  | cons l ls ih => cases side <;> simp_all [newLines]

theorem oldLines_linesAfter (dropped added : List Text) (s : Script) :
    oldLines (s.linesAfter dropped added) = dropped ++ s.before := by
  fun_induction Script.linesAfter dropped added s <;>
    simp_all [Edit.before]

theorem newLines_linesAfter (dropped added : List Text) (s : Script) :
    newLines (s.linesAfter dropped added) = added ++ s.after := by
  fun_induction Script.linesAfter dropped added s <;>
    simp_all [Edit.after]

def diffLines (old new : Text) : List DiffLine :=
  (compareLines old.wholeLines new.wholeLines).settled.linesAfter [] []

theorem oldLines_diffLines (old new : Text) : oldLines (diffLines old new) = old.wholeLines := by
  rw [diffLines, oldLines_linesAfter, Script.before_settled, before_compareLines, List.nil_append]

theorem newLines_diffLines (old new : Text) : newLines (diffLines old new) = new.wholeLines := by
  rw [diffLines, newLines_linesAfter, Script.after_settled, after_compareLines, List.nil_append]

end LuaReference
