import LuaReference.Proofs.Path.Place
import Mathlib.Data.List.Lex

/-!
# The order of paths

Paths sort by the keys of their components. Below one directory the names of an entry are read back
from the key of its path, so entries of different names never sort alike, and sorting them makes a
strictly increasing list, which is determined by what it holds.
-/

namespace LuaReference

theorem Component.key_injective {c c' : Component} (h : c.key = c'.key) : c = c' := by
  have hchars : Function.Injective (List.map Char.toNat) :=
    List.map_injective_iff.2 fun a b => Char.toNat_inj.1
  cases c <;> cases c' <;> simp_all [key, hchars.eq_iff]

namespace Path

theorem key_descend (p : Path) {names : List Text} (h : ∀ n ∈ names, n.IsName) :
    (p.descend names).key = p.key ++ names.map fun n => (Component.name n).key := by
  rw [key, key, components_descend p h, List.map_append, List.map_map]
  rfl

theorem descend_key_injective (p : Path) {names names' : List Text} (h : ∀ n ∈ names, n.IsName)
    (h' : ∀ n ∈ names', n.IsName) (hkey : (p.descend names).key = (p.descend names').key) :
    names = names' := by
  rw [key_descend p h, key_descend p h', List.append_cancel_left_eq] at hkey
  refine List.map_injective_iff.2 ?_ hkey
  intro n n' hn
  exact Component.name.inj (Component.key_injective hn)

/-! ### Sorted lists -/

theorem sortsBefore_iff {p q : Path} : p.sortsBefore q = true ↔ p.key ≤ q.key := by
  rw [sortsBefore, decide_eq_true_iff, not_lt]

theorem pairwise_mergeSort (paths : List Path) :
    (paths.mergeSort sortsBefore).Pairwise fun p q => p.key ≤ q.key := by
  have htrans : ∀ p q r : Path, p.sortsBefore q → q.sortsBefore r → p.sortsBefore r := by
    intro p q r hpq hqr
    exact sortsBefore_iff.2 ((sortsBefore_iff.1 hpq).trans (sortsBefore_iff.1 hqr))
  have htotal : ∀ p q : Path, (p.sortsBefore q || q.sortsBefore p) = true := by
    intro p q
    simpa [sortsBefore_iff] using le_total p.key q.key
  exact (List.pairwise_mergeSort htrans htotal paths).imp sortsBefore_iff.1

/-- Without repeats and without paths that sort alike, the sorted list is strictly increasing. -/
theorem pairwise_mergeSort_lt {paths : List Path} (hnodup : paths.Nodup)
    (hkey : ∀ p ∈ paths, ∀ q ∈ paths, p.key = q.key → p = q) :
    (paths.mergeSort sortsBefore).Pairwise fun p q => p.key < q.key := by
  have hperm := List.mergeSort_perm paths sortsBefore
  have hboth := (pairwise_mergeSort paths).and (hperm.nodup_iff.2 hnodup)
  refine hboth.imp_of_mem ?_
  rintro p q hp hq ⟨hle, hne⟩
  refine lt_of_le_of_ne hle fun heq => hne ?_
  exact hkey p (hperm.mem_iff.1 hp) q (hperm.mem_iff.1 hq) heq

/-- Strictly increasing lists that hold the same paths are equal. -/
theorem eq_of_increasing {paths paths' : List Path}
    (h : paths.Pairwise fun p q => p.key < q.key) (h' : paths'.Pairwise fun p q => p.key < q.key)
    (hmem : ∀ p, p ∈ paths ↔ p ∈ paths') : paths = paths' := by
  have hnodup : ∀ {l : List Path}, (l.Pairwise fun p q => p.key < q.key) → l.Nodup :=
    fun hl => hl.imp fun hlt heq => absurd (heq ▸ hlt) (lt_irrefl _)
  have hperm := (List.perm_ext_iff_of_nodup (hnodup h) (hnodup h')).2 hmem
  exact hperm.eq_of_pairwise (fun p q _ _ hpq hqp => absurd hqp hpq.asymm) h h'

end Path

end LuaReference
