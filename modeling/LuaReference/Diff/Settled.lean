import LuaReference.Diff.Edit

/-!
# Settled scripts

An added run of lines can often stand in several places between the same kept lines. Settling
moves every dropped run and then every added run as far up as it goes and then as far down as it
goes; runs of one kind that meet on the way become one. The sides of the script stay the same:
`before_settled` and `after_settled`.
-/

namespace LuaReference

namespace Script

structure Spot where
  /-- The edits before the run, the nearest first. -/
  behind : Script
  here : List Text
  /-- The edits after the run, the nearest first. -/
  ahead : Script

namespace Spot

/-- The script in which the run stands here, as this kind of edit. -/
def close (edit : List Text → Edit) (s : Spot) : Script :=
  s.behind.reverse ++ edit s.here :: s.ahead

end Spot

/-! ### Dropped runs -/

def raiseDrop : (behind : Script) → (here : List Text) → (ahead : Script) → Spot
  | .add ls :: behind, here, ahead => raiseDrop behind here (.add ls :: ahead)
  | .drop ls :: behind, here, ahead => raiseDrop behind (ls ++ here) ahead
  | behind, here, ahead => ⟨behind, here, ahead⟩

def sinkDrop : (behind : Script) → (here : List Text) → (ahead : Script) → Spot
  | behind, here, .add ls :: ahead => sinkDrop (.add ls :: behind) here ahead
  | behind, here, .drop ls :: ahead => sinkDrop behind (here ++ ls) ahead
  | behind, here, ahead => ⟨behind, here, ahead⟩

/-! ### Added runs -/

def keepFirst (l : Text) : Script → Script
  | .keep ls :: s => .keep (l :: ls) :: s
  | s => .keep [l] :: s

/-- A line kept at the end of a script, of which the last edit comes first. -/
def keepLast (l : Text) : Script → Script
  | .keep ls :: s => .keep (ls ++ [l]) :: s
  | s => .keep [l] :: s

def weight : Script → Nat
  | [] => 0
  | e :: s => e.lines.length + 1 + weight s

theorem weight_keeping_append_lt {ls ks : List Text} (h : ls.length < ks.length) (s : Script) :
    weight (keeping ls ++ s) < weight (.keep ks :: s) := by
  cases ls with
  | nil => simp [keeping, weight]
  | cons l ls =>
    simp only [List.length_cons] at h
    simp only [weight, keeping, Edit.lines, List.length_cons, List.cons_append, List.nil_append]
    omega

/-- An added run moved up: past dropped runs, and past a kept line that is also its last line. -/
def raiseAdd (behind : Script) (here : List Text) (ahead : Script) : Spot :=
  match behind with
  | .keep [] :: _ => ⟨behind, here, ahead⟩
  | .keep (k :: ks) :: rest =>
    if here.getLast? = some ((k :: ks).getLast (by simp)) then
      let l := (k :: ks).getLast (by simp)
      raiseAdd (keeping (k :: ks).dropLast ++ rest) (l :: here.dropLast) (keepFirst l ahead)
    else ⟨behind, here, ahead⟩
  | .drop ls :: rest => raiseAdd rest here (.drop ls :: ahead)
  | .add ls :: rest => raiseAdd rest (ls ++ here) ahead
  | [] => ⟨behind, here, ahead⟩
termination_by weight behind
decreasing_by
  · exact weight_keeping_append_lt (by simp) rest
  · simp [weight]
  · simp [weight]

/-- An added run moved down: past dropped runs, and past a kept line that is also its first
line. -/
def sinkAdd (behind : Script) (here : List Text) (ahead : Script) : Spot :=
  match ahead with
  | .keep [] :: _ => ⟨behind, here, ahead⟩
  | .keep (k :: ks) :: rest =>
    if here.head? = some k then
      sinkAdd (keepLast k behind) (here.tail ++ [k]) (keeping ks ++ rest)
    else ⟨behind, here, ahead⟩
  | .drop ls :: rest => sinkAdd (.drop ls :: behind) here rest
  | .add ls :: rest => sinkAdd behind (here ++ ls) rest
  | [] => ⟨behind, here, ahead⟩
termination_by weight ahead
decreasing_by
  · exact weight_keeping_append_lt (by simp) rest
  · simp [weight]
  · simp [weight]

/-! ### Whole scripts -/

/-- Every dropped run from here on settled, at most so many. -/
def settleDrops : (runs : Nat) → (behind ahead : Script) → Script
  | _, behind, [] => behind.reverse
  | 0, behind, ahead => behind.reverse ++ ahead
  | runs + 1, behind, .drop ls :: ahead =>
    let up := raiseDrop behind ls ahead
    let down := sinkDrop up.behind up.here up.ahead
    settleDrops runs (.drop down.here :: down.behind) down.ahead
  | runs + 1, behind, e :: ahead => settleDrops (runs + 1) (e :: behind) ahead
termination_by runs _ ahead => (runs, ahead.length)

/-- Every added run from here on settled, at most so many. -/
def settleAdds : (runs : Nat) → (behind ahead : Script) → Script
  | _, behind, [] => behind.reverse
  | 0, behind, ahead => behind.reverse ++ ahead
  | runs + 1, behind, .add ls :: ahead =>
    let up := raiseAdd behind ls ahead
    let down := sinkAdd up.behind up.here up.ahead
    settleAdds runs (.add down.here :: down.behind) down.ahead
  | runs + 1, behind, e :: ahead => settleAdds (runs + 1) (e :: behind) ahead
termination_by runs _ ahead => (runs, ahead.length)

/-- The script with every dropped and then every added run settled. -/
def settled (s : Script) : Script :=
  let t := settleDrops s.length [] s
  settleAdds t.length [] t

/-! ### The two sides of a settled script -/

def Agree (s t : Script) : Prop := s.before = t.before ∧ s.after = t.after

theorem Agree.trans {s t u : Script} (h : Agree s t) (k : Agree t u) : Agree s u :=
  ⟨h.1.trans k.1, h.2.trans k.2⟩

theorem agree_raiseDrop (behind : Script) (here : List Text) (ahead : Script) :
    Agree ((raiseDrop behind here ahead).close .drop) (behind.reverse ++ .drop here :: ahead) := by
  fun_induction raiseDrop behind here ahead with
  | case1 behind here ahead ls ih => exact ih.trans (by simp [Agree, Edit.before, Edit.after])
  | case2 behind here ahead ls ih => exact ih.trans (by simp [Agree, Edit.before, Edit.after])
  | case3 => simp [Agree, Spot.close]

theorem agree_sinkDrop (behind : Script) (here : List Text) (ahead : Script) :
    Agree ((sinkDrop behind here ahead).close .drop) (behind.reverse ++ .drop here :: ahead) := by
  fun_induction sinkDrop behind here ahead with
  | case1 behind here ls ahead ih => exact ih.trans (by simp [Agree, Edit.before, Edit.after])
  | case2 behind here ls ahead ih => exact ih.trans (by simp [Agree, Edit.before, Edit.after])
  | case3 => simp [Agree, Spot.close]

theorem agree_keepFirst (l : Text) (s : Script) : Agree (keepFirst l s) (.keep [l] :: s) := by
  fun_cases keepFirst l s <;> simp [Agree, Edit.before, Edit.after]

theorem agree_keepLast (l : Text) (s : Script) :
    Agree (keepLast l s).reverse (s.reverse ++ [.keep [l]]) := by
  fun_cases keepLast l s <;> simp [Agree, Edit.before, Edit.after]

@[simp]
theorem reverse_keeping (ls : List Text) : (keeping ls).reverse = keeping ls := by
  cases ls <;> simp [keeping]

theorem agree_raiseAdd (behind : Script) (here : List Text) (ahead : Script) :
    Agree ((raiseAdd behind here ahead).close .add) (behind.reverse ++ .add here :: ahead) := by
  fun_induction raiseAdd behind here ahead with
  | case2 here ahead k ks rest h l ih =>
    refine ih.trans ?_
    have hk : (k :: ks).dropLast ++ [l] = k :: ks := List.dropLast_concat_getLast _
    have hh : here.dropLast ++ [l] = here := by
      obtain ⟨init, rfl⟩ := List.getLast?_eq_some_iff.1 h
      simp [l]
    have ha := agree_keepFirst l ahead
    constructor
    · simp only [List.reverse_append, List.reverse_cons, reverse_keeping, before_append,
        before_cons, before_nil, before_keeping, ha.1, Edit.before, List.append_assoc,
        List.nil_append, List.append_nil]
      rw [← List.append_assoc _ [l], hk]
    · simp only [List.reverse_append, List.reverse_cons, reverse_keeping, after_append,
        after_cons, after_nil, after_keeping, ha.2, Edit.after, List.append_assoc,
        List.append_nil]
      rw [← List.append_assoc (l :: _) [l], List.cons_append, hh, ← hk]
      simp [List.append_assoc]
  | case4 here ahead ls rest ih => exact ih.trans (by simp [Agree, Edit.before, Edit.after])
  | case5 here ahead ls rest ih => exact ih.trans (by simp [Agree, Edit.before, Edit.after])
  | case1 | case3 | case6 => simp [Agree, Spot.close]

theorem agree_sinkAdd (behind : Script) (here : List Text) (ahead : Script) :
    Agree ((sinkAdd behind here ahead).close .add) (behind.reverse ++ .add here :: ahead) := by
  fun_induction sinkAdd behind here ahead with
  | case2 behind here k ks rest h ih =>
    refine ih.trans ?_
    have hh : k :: here.tail = here := by
      obtain ⟨rest, rfl⟩ := List.head?_eq_some_iff.1 h
      rfl
    have hb := agree_keepLast k behind
    constructor
    · simp [hb.1, Edit.before]
    · simp only [after_append, after_cons, hb.2, after_nil, after_keeping, Edit.after,
        List.append_assoc, List.append_nil, List.cons_append, List.nil_append]
      rw [← List.cons_append, hh]
  | case4 behind here ls rest ih => exact ih.trans (by simp [Agree, Edit.before, Edit.after])
  | case5 behind here ls rest ih => exact ih.trans (by simp [Agree, Edit.before, Edit.after])
  | case1 | case3 | case6 => simp [Agree, Spot.close]

theorem agree_settleDrops (runs : Nat) (behind ahead : Script) :
    Agree (settleDrops runs behind ahead) (behind.reverse ++ ahead) := by
  fun_induction settleDrops runs behind ahead with
  | case1 => simp [Agree]
  | case2 => simp [Agree]
  | case3 runs behind ls ahead up down ih =>
    have hd := agree_sinkDrop up.behind up.here up.ahead
    have hu := agree_raiseDrop behind ls ahead
    refine ih.trans (.trans ?_ (hd.trans hu))
    simp [Agree, Spot.close, down]
  | case4 runs behind e ahead _ ih => exact ih.trans (by simp [Agree])

theorem agree_settleAdds (runs : Nat) (behind ahead : Script) :
    Agree (settleAdds runs behind ahead) (behind.reverse ++ ahead) := by
  fun_induction settleAdds runs behind ahead with
  | case1 => simp [Agree]
  | case2 => simp [Agree]
  | case3 runs behind ls ahead up down ih =>
    have hd := agree_sinkAdd up.behind up.here up.ahead
    have hu := agree_raiseAdd behind ls ahead
    refine ih.trans (.trans ?_ (hd.trans hu))
    simp [Agree, Spot.close, down]
  | case4 runs behind e ahead _ ih => exact ih.trans (by simp [Agree])

theorem agree_settled (s : Script) : Agree s.settled s :=
  (agree_settleAdds _ _ _).trans (agree_settleDrops _ _ _)

theorem before_settled (s : Script) : s.settled.before = s.before := (agree_settled s).1

theorem after_settled (s : Script) : s.settled.after = s.after := (agree_settled s).2

end Script

end LuaReference
