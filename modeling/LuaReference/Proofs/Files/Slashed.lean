import LuaReference.Proofs.Files.Below
import LuaReference.Proofs.Path.Length

/-!
# Paths with many slashes

Slashes that are doubled lead nowhere else, but they count for the length of a path. So a directory
in the working directory has paths of any length, up to the longest that is allowed.
-/

namespace LuaReference

open FileTree (longestPath)

/-- The directory `src` under a path with this many more slashes. -/
def slashed (k : Nat) : Path := ⟨['.'] ++ '/' :: (List.replicate k '/' ++ "src".toList)⟩

theorem splitAll_slashes (k : Nat) (q : Text) :
    Text.splitAll '/' (List.replicate k '/' ++ q) = List.replicate k [] ++ Text.splitAll '/' q := by
  induction k with
  | zero => rfl
  | succ k ih =>
    rw [List.replicate_succ, List.replicate_succ, List.cons_append, List.cons_append, ← ih]
    exact Text.splitAll_append_cons [] _

theorem utf8Size_slashes (k : Nat) : Text.utf8Size (List.replicate k '/') = k := by
  induction k with
  | zero => rfl
  | succ k ih =>
    have hcons : '/' :: List.replicate k '/' = ['/'] ++ List.replicate k '/' := rfl
    have hone : Text.utf8Size ['/'] = 1 := by decide
    rw [List.replicate_succ, hcons, Text.utf8Size_append, ih, hone, Nat.add_comm]

theorem utf8Size_slashed (k : Nat) : (slashed k).text.utf8Size = k + 5 := by
  have hcons : '/' :: (List.replicate k '/' ++ "src".toList) =
      ['/'] ++ (List.replicate k '/' ++ "src".toList) := rfl
  rw [slashed, hcons]
  simp only [Text.utf8Size_append, utf8Size_slashes]
  have hends : Text.utf8Size ['.'] = 1 ∧ Text.utf8Size ['/'] = 1 ∧
    Text.utf8Size "src".toList = 3 := by decide
  omega

theorem getLast?_slashed (k : Nat) : (slashed k).text.getLast? = some 'c' := by
  have hsrc : "src".toList = "sr".toList ++ ['c'] := by decide
  have htext : (slashed k).text =
      (['.'] ++ '/' :: (List.replicate k '/' ++ "sr".toList)) ++ ['c'] := by
    rw [slashed, hsrc]
    simp
  rw [htext, List.getLast?_concat]

theorem utf8Size_child_slashed (k : Nat) {n : Text} (hn : n.IsName) :
    ((slashed k).child n).text.utf8Size = k + 6 + n.utf8Size := by
  have hjoin : ((slashed k).child n).text = (slashed k).text ++ (['/'] ++ n) := by
    rw [Path.child, Path.join, if_neg (by rw [Path.isAbsolute_of_isName hn]; decide),
      getLast?_slashed, if_neg]
    · rfl
    · rintro (hempty | hslash)
      · exact absurd hempty (List.cons_ne_nil _ _)
      · exact absurd hslash (by decide)
  have hslash : Text.utf8Size ['/'] = 1 := by decide
  rw [hjoin, Text.utf8Size_append, Text.utf8Size_append, utf8Size_slashed, hslash]
  omega

theorem steps_slashed (k : Nat) : (slashed k).steps = [['.'], "src".toList] := by
  have hpieces : Text.splitAll '/' (slashed k).text =
      ['.'] :: (List.replicate k [] ++ ["src".toList]) := by
    rw [slashed, Text.splitAll_append_cons, splitAll_slashes]
    rfl
  rw [Path.steps, hpieces, if_neg (by rw [getLast?_slashed]; decide)]
  simp

theorem admissible_slashed {k : Nat} (hk : k + 5 ≤ longestPath) :
    FileTree.Admissible (slashed k) := by
  refine ⟨?_, List.cons_ne_nil _ _, ?_⟩
  · simp [slashed]
  · rw [utf8Size_slashed]
    exact hk

theorem locate_slashed {t : FileTree} {k : Nat} (hk : k + 5 ≤ longestPath) (hhere : t.here = [])
    {d : Directory} (hd : t.entry? ["src".toList] = some (.directory d)) :
    t.locate .target (slashed k) = .ok (.found ["src".toList] (.directory d)) := by
  refine FileTree.locate_of_leads (by decide) (admissible_slashed hk) ?_
  have horigin : FileTree.origin (slashed k) t.here = [] := hhere
  rw [horigin, steps_slashed]
  exact .stay (Or.inr rfl) (.enter (by decide) (by decide) (by decide) hd (.arrive hd))

end LuaReference
