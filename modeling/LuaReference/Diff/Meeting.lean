import LuaReference.Text.Basic

/-!
# Where two searches meet

The fewest edits between two lists of lines are a shortest path on a grid: a step right drops a
line, a step down adds one, and a diagonal step keeps a line that both sides share at no cost.
Two searches run toward each other, one from each corner, and in each round they allow one more
edit. A diagonal `k` holds the points `(x, x - k)`; a search remembers how far right it came on
each diagonal. `meeting` is the start of the stretch on which the two searches meet.
-/

namespace LuaReference

def sharedLead : List Text → List Text → Nat
  | a :: as, b :: bs => if a = b then sharedLead as bs + 1 else 0
  | _, _ => 0

theorem take_sharedLead (a b : List Text) : a.take (sharedLead a b) = b.take (sharedLead a b) := by
  induction a generalizing b with
  | nil => simp [sharedLead]
  | cons x a ih =>
    cases b with
    | nil => simp [sharedLead]
    | cons y b =>
      by_cases h : x = y
      · simp [sharedLead, h, ih]
      · simp [sharedLead, h]

def sharedTail (a b : List Text) : Nat := sharedLead a.reverse b.reverse

theorem drop_sharedTail (a b : List Text) :
    a.drop (a.length - sharedTail a b) = b.drop (b.length - sharedTail a b) := by
  have h := take_sharedLead a.reverse b.reverse
  rw [List.take_reverse, List.take_reverse] at h
  exact List.reverse_inj.1 h

/-- How far right a search came on each diagonal. -/
structure Frontier where
  /-- The place of diagonal zero among the cells. -/
  offset : Nat
  /-- How far right the search came, diagonal by diagonal. -/
  cells : Array Nat

namespace Frontier

def start (rounds : Nat) : Frontier := ⟨rounds, Array.replicate (2 * rounds + 1) 0⟩

/-- How far right the search came on a diagonal. -/
def get (f : Frontier) (k : Int) : Nat := f.cells.getD (k + f.offset).toNat 0

/-- The frontier with another value for a diagonal. -/
def set (f : Frontier) (k : Int) (x : Nat) : Frontier :=
  { f with cells := f.cells.setIfInBounds (k + f.offset).toNat x }

/-- Where round `d` begins on diagonal `k`: one step down from the diagonal above or one step
right from the one below, whichever is farther. -/
def entering (f : Frontier) (d k : Int) : Nat :=
  if k = -d ∨ (k ≠ d ∧ f.get (k - 1) < f.get (k + 1)) then f.get (k + 1) else f.get (k - 1) + 1

end Frontier

/-- One search: the lines as it meets them, and how the searches relate. -/
structure Search where
  old : Array Text
  new : Array Text

namespace Search

def between (old new : List Text) : Search := ⟨old.toArray, new.toArray⟩

/-- The search from the other corner. -/
def flip (s : Search) : Search := ⟨s.old.reverse, s.new.reverse⟩

/-- The diagonal of the far corner. -/
def delta (s : Search) : Int := (s.old.size : Int) - s.new.size

/-- How many rounds always suffice. -/
def rounds (s : Search) : Nat := (s.old.size + s.new.size + 1) / 2 + 1

/-- How many diagonal steps are free from the point `(x, y)` on, at most so many. -/
def slide (s : Search) : (most x y : Nat) → Nat
  | 0, _, _ => 0
  | most + 1, x, y =>
    match s.old[x]?, s.new[y]? with
    | some a, some b => if a = b then s.slide most (x + 1) (y + 1) + 1 else 0
    | _, _ => 0

/-- The diagonals of a round, from the greatest on. -/
def diagonals (d : Nat) : List Int := (List.range (d + 1)).map fun i : Nat => (d : Int) - 2 * (i : Int)

/-- One round of a search. Where it comes up to the other search on a diagonal within `near` of
the far corner's, the round ends with the start and the end of its stretch there. -/
def round (s : Search) (other : Frontier) (d : Nat) (near : Int) :
    List Int → Frontier → Except ((Nat × Nat) × (Nat × Nat)) Frontier
  | [], f => .ok f
  | k :: ks, f =>
    let x := f.entering d k
    let y := (x - k).toNat
    let run := s.slide (s.old.size - x) x y
    if (k - s.delta).natAbs ≤ near ∧ s.old.size ≤ x + run + other.get (s.delta - k) then
      .error ((x, y), (x + run, y + run))
    else s.round other d near ks (f.set k (x + run))

/-- The rounds from `d` on, so many of them. The searches can meet in a forward step only when
the far corner's diagonal is odd, and in a backward step only when it is even. -/
def meetingFrom (s : Search) : (left d : Nat) → (forward backward : Frontier) → Option (Nat × Nat)
  | 0, _, _, _ => none
  | left + 1, d, forward, backward =>
    let odd := s.delta % 2 = 1
    match s.round backward d (if odd then (d : Int) - 1 else -1) (diagonals d) forward with
    | .error (start, _) => some start
    | .ok forward =>
      match s.flip.round forward d (if odd then -1 else d) (diagonals d) backward with
      | .error (_, (x, y)) => some (s.old.size - x, s.new.size - y)
      | .ok backward => s.meetingFrom left (d + 1) forward backward

/-- A point on a shortest path, where the lists may be cut. -/
def meeting (s : Search) : Option (Nat × Nat) :=
  s.meetingFrom s.rounds 0 (.start s.rounds) (.start s.rounds)

end Search

end LuaReference
