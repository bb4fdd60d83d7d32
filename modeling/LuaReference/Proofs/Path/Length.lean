import LuaReference.Proofs.Path.Components
import LuaReference.Text.Utf8

/-!
# The length of a path

The size of a text in bytes, and that each step down makes a path longer.
-/

namespace LuaReference

namespace Text

theorem utf8Size_append (a b : Text) : utf8Size (a ++ b) = utf8Size a + utf8Size b := by
  simp [utf8Size]

theorem utf8Size_pos {t : Text} (h : t ≠ []) : 0 < utf8Size t := by
  obtain ⟨c, t, rfl⟩ := List.exists_cons_of_ne_nil h
  have hsize : utf8Size (c :: t) = utf8Size [c] + utf8Size t := utf8Size_append [c] t
  have hchar : utf8Size [c] = c.utf8Size := by simp [utf8Size]
  have hpos := c.utf8Size_pos
  omega

end Text

theorem Path.utf8Size_child_lt (p : Path) {n : Text} (hn : n.IsName) :
    p.text.utf8Size < (p.child n).text.utf8Size := by
  have hpos := Text.utf8Size_pos hn.1
  have hrelative := isAbsolute_of_isName hn
  rw [child, join, hrelative, if_neg (by decide)]
  dsimp only
  split
  · rw [Text.utf8Size_append]
    omega
  · have hslash : Text.utf8Size ('/' :: n) = Text.utf8Size ['/'] + Text.utf8Size n :=
      Text.utf8Size_append ['/'] n
    rw [Text.utf8Size_append, hslash]
    omega

end LuaReference
