import LuaReference.Diff.Edit
import LuaReference.Diff.Meeting

/-!
# Comparing lists of lines

`compareLines` finds an edit script: equal lines at both ends are kept, and what lies between is
cut where two searches meet and compared piece by piece. Whatever the cut, the script tells the
two lists apart exactly: `before_compareLines` and `after_compareLines`.
-/

namespace LuaReference

/-- The lines that two lists share at their ends kept, and a script for what lies between. -/
def framed (between : List Text → List Text → Script) (old new : List Text) : Script :=
  let lead := sharedLead old new
  let tail := sharedTail (old.drop lead) (new.drop lead)
  Script.keeping (old.take lead) ++
    (between ((old.drop lead).take (old.length - lead - tail))
        ((new.drop lead).take (new.length - lead - tail)) ++
      Script.keeping ((old.drop lead).drop (old.length - lead - tail)))

/-- A script between lists that differ at both ends, cutting them at most so often. -/
def scriptBetween : (cuts : Nat) → (old new : List Text) → Script
  | _, [], [] => []
  | _, a :: as, [] => [.drop (a :: as)]
  | _, [], b :: bs => [.add (b :: bs)]
  | 0, a :: as, b :: bs => [.drop (a :: as), .add (b :: bs)]
  | cuts + 1, a :: as, b :: bs =>
    match (Search.between (a :: as) (b :: bs)).meeting with
    | none => [.drop (a :: as), .add (b :: bs)]
    | some (x, y) =>
      framed (scriptBetween cuts) ((a :: as).take x) ((b :: bs).take y) ++
        framed (scriptBetween cuts) ((a :: as).drop x) ((b :: bs).drop y)

/-- An edit script between two lists of lines. -/
def compareLines (old new : List Text) : Script :=
  framed (scriptBetween (old.length + new.length)) old new

/-! ### The two sides of the script -/

theorem before_framed {between : List Text → List Text → Script}
    (h : ∀ a b, (between a b).before = a) (old new : List Text) :
    (framed between old new).before = old := by
  simp only [framed, Script.before_append, Script.before_keeping, h, List.take_append_drop]

theorem after_framed {between : List Text → List Text → Script}
    (h : ∀ a b, (between a b).after = b) (old new : List Text) :
    (framed between old new).after = new := by
  have hl := take_sharedLead old new
  have ht := drop_sharedTail (old.drop (sharedLead old new)) (new.drop (sharedLead old new))
  simp only [List.length_drop] at ht
  simp only [framed, Script.after_append, Script.after_keeping, h, hl, ht, List.take_append_drop]

theorem before_scriptBetween (cuts : Nat) (a b : List Text) :
    (scriptBetween cuts a b).before = a := by
  induction cuts generalizing a b with
  | zero => cases a <;> cases b <;> simp [scriptBetween, Edit.before]
  | succ cuts ih =>
    cases a <;> cases b <;> simp only [scriptBetween]
    case cons.cons =>
      split
      · simp [Edit.before]
      · rw [Script.before_append, before_framed ih, before_framed ih, List.take_append_drop]
    all_goals simp [Edit.before]

theorem after_scriptBetween (cuts : Nat) (a b : List Text) :
    (scriptBetween cuts a b).after = b := by
  induction cuts generalizing a b with
  | zero => cases a <;> cases b <;> simp [scriptBetween, Edit.after]
  | succ cuts ih =>
    cases a <;> cases b <;> simp only [scriptBetween]
    case cons.cons =>
      split
      · simp [Edit.after]
      · rw [Script.after_append, after_framed ih, after_framed ih, List.take_append_drop]
    all_goals simp [Edit.after]

theorem before_compareLines (old new : List Text) : (compareLines old new).before = old :=
  before_framed (before_scriptBetween _) _ _

theorem after_compareLines (old new : List Text) : (compareLines old new).after = new :=
  after_framed (after_scriptBetween _) _ _

end LuaReference
