import LuaReference.Text.LineEnds
import LuaReference.Proofs.Text.Lines
import LuaReference.Proofs.Text.Search
import LuaReference.Proofs.Text.Values

/-!
# Unbroken texts

A text is unbroken when no line ends in it. The line ends of a source are line feeds alone once they
are normalized, so its lines are unbroken, and so is whatever is cut from one of them.
-/

namespace LuaReference

namespace Text

/-- A text with neither line feeds nor carriage returns. -/
structure Unbroken (t : Text) : Prop where
  noFeed : '\n' ∉ t
  noReturn : '\r' ∉ t

instance (t : Text) : Decidable t.Unbroken :=
  decidable_of_iff ('\n' ∉ t ∧ '\r' ∉ t) ⟨fun h => ⟨h.1, h.2⟩, fun h => ⟨h.noFeed, h.noReturn⟩⟩

theorem Unbroken.mono {t u : Text} (h : u.Unbroken) (hsubset : t ⊆ u) : t.Unbroken :=
  ⟨fun hmem => h.noFeed (hsubset hmem), fun hmem => h.noReturn (hsubset hmem)⟩

theorem unbroken_nil : Unbroken [] := ⟨List.not_mem_nil, List.not_mem_nil⟩

@[simp]
theorem unbroken_append {t u : Text} : (t ++ u).Unbroken ↔ t.Unbroken ∧ u.Unbroken := by
  constructor
  · intro h
    exact ⟨h.mono (List.subset_append_left t u), h.mono (List.subset_append_right t u)⟩
  · rintro ⟨ht, hu⟩
    constructor
    · rw [List.mem_append]
      exact not_or.2 ⟨ht.noFeed, hu.noFeed⟩
    · rw [List.mem_append]
      exact not_or.2 ⟨ht.noReturn, hu.noReturn⟩

theorem Unbroken.append {t u : Text} (ht : t.Unbroken) (hu : u.Unbroken) : (t ++ u).Unbroken :=
  unbroken_append.2 ⟨ht, hu⟩

theorem Unbroken.ite {c : Prop} [Decidable c] {t u : Text} (ht : t.Unbroken) (hu : u.Unbroken) :
    Unbroken (if c then t else u) := by
  split
  · exact ht
  · exact hu

theorem Unbroken.join {sep : Text} (hsep : sep.Unbroken) {ps : List Text}
    (h : ∀ p ∈ ps, p.Unbroken) : (Text.join sep ps).Unbroken := by
  induction ps with
  | nil => exact unbroken_nil
  | cons p ps ih =>
    obtain ⟨hp, hps⟩ := List.forall_mem_cons.1 h
    cases ps with
    | nil => exact hp
    | cons q ps => exact (hp.append hsep).append (ih hps)

theorem Unbroken.replace {t r : Text} (ht : t.Unbroken) (hr : r.Unbroken) (p : Text) :
    (t.replace p r).Unbroken :=
  ⟨fun h => (mem_of_mem_replace h).elim ht.noFeed hr.noFeed,
    fun h => (mem_of_mem_replace h).elim ht.noReturn hr.noReturn⟩

/-! ### Normalized texts -/

theorem noReturn_normalizeLineEnds (t : Text) : '\r' ∉ t.normalizeLineEnds := by
  rw [normalizeLineEnds]
  split
  · exact not_mem_replace_singleton (by decide) _
  · assumption

theorem unbroken_of_mem_lines {t l : Text} (ht : '\r' ∉ t) (hl : l ∈ t.lines) : l.Unbroken :=
  ⟨(mem_of_mem_lines hl).1, fun hmem => ht ((mem_of_mem_lines hl).2 hmem)⟩

theorem unbroken_of_mem_splitAll {t l : Text} (ht : '\r' ∉ t) (hl : l ∈ t.splitAll '\n') :
    l.Unbroken :=
  ⟨not_mem_of_mem_splitAll hl, fun hmem => ht (subset_of_mem_splitAll hl hmem)⟩

end Text

end LuaReference
