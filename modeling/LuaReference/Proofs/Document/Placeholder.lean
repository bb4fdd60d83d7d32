import LuaReference.Document.Naming
import LuaReference.Proofs.Text.Cut

/-!
# The placeholder in documents

A name behind the placeholder and a period is replaced by the qualified name, and under any ordinary
namespace no placeholder is left in a document: `placeholder_replaced`.
-/

namespace LuaReference

namespace Naming

variable {n : Naming}

theorem substitute_of_some {ns : Text} (hne : n.placeholder ≠ []) (hns : n.nameSpace = some ns)
    (t : Text) : n.substitute t = t.replace n.placeholder ns := by
  rw [substitute, if_neg hne, hns]

theorem substitute_of_none (hne : n.placeholder ≠ []) (hns : n.nameSpace = none) (t : Text) :
    n.substitute t = t.replace (n.placeholder ++ ['.']) [] := by
  rw [substitute, if_neg hne, hns]

/-- A name behind the placeholder is replaced as it is qualified. -/
theorem substitute_marked {name : Text} (hne : n.placeholder ≠ []) (hperiod : '.' ∉ n.placeholder)
    (hname : ¬ n.placeholder <:+: name) :
    n.substitute (n.placeholder ++ '.' :: name) = n.qualify name := by
  cases hns : n.nameSpace with
  | none =>
    have hmark : n.placeholder ++ '.' :: name = n.placeholder ++ ['.'] ++ name := by simp
    have hlonger : ¬ n.placeholder ++ ['.'] <:+: name := fun h =>
      hname ((List.prefix_append _ _).isInfix.trans h)
    rw [substitute_of_none hne hns, qualify, hns, hmark,
      Text.replace_pattern (List.append_ne_nil_of_left_ne_nil hne _),
      Text.replace_of_not_contains _ hlonger, List.nil_append]
  | some ns =>
    -- no occurrence starts at the period, and none behind it
    have hrest : ¬ n.placeholder <:+: '.' :: name := by
      have hsplit := Text.infix_append_cons_iff (p := []) (s := name) hperiod
      rw [List.nil_append, List.infix_nil] at hsplit
      rw [hsplit]
      exact not_or.2 ⟨hne, hname⟩
    rw [substitute_of_some hne hns, qualify, hns, Text.replace_pattern hne,
      Text.replace_of_not_contains _ hrest]

/-- A replacement that leaves no placeholder changes nothing when it is made again. -/
theorem substitute_substitute {ns : Text} (hne : n.placeholder ≠ []) (hns : n.nameSpace = some ns)
    {t : Text} (h : ¬ n.placeholder <:+: n.substitute t) :
    n.substitute (n.substitute t) = n.substitute t := by
  rw [substitute_of_some hne hns (n.substitute t), Text.replace_of_not_contains _ h]

end Naming

/-- A name behind the placeholder and a period is replaced by the qualified name, whether there is a
namespace or not. A namespace without braces that does not consist of characters of the default
placeholder leaves none in any text, so a second replacement changes nothing. -/
theorem placeholder_replaced (s : Settings) :
    (s.placeholder ≠ [] → '.' ∉ s.placeholder → ∀ (nameSpace : Option Text) (name : Text),
        ¬ s.placeholder <:+: name →
          (Naming.under nameSpace s).substitute (s.placeholder ++ '.' :: name) =
            (Naming.under nameSpace s).qualify name) ∧
      (s.placeholder = ({} : Settings).placeholder → ∀ ns : Text, '\x7b' ∉ ns → '\x7d' ∉ ns →
        (∃ c ∈ ns, c ∉ s.placeholder) → ∀ t : Text,
          ¬ s.placeholder <:+: (Naming.under (some ns) s).substitute t ∧
            (Naming.under (some ns) s).substitute ((Naming.under (some ns) s).substitute t) =
              (Naming.under (some ns) s).substitute t) := by
  constructor
  · intro hne hperiod nameSpace name hname
    exact Naming.substitute_marked hne hperiod hname
  · intro hdefault ns hopen hclose hother t
    have hne : s.placeholder ≠ [] := by
      rw [hdefault]
      decide
    have hns : (Naming.under (some ns) s).nameSpace = some ns := by
      obtain ⟨c, hc, -⟩ := hother
      have hsome : ns ≠ [] := List.ne_nil_of_mem hc
      simp [Naming.under, hsome]
    have hends : s.placeholder.head? = some '\x7b' ∧ s.placeholder.getLast? = some '\x7d' := by
      rw [hdefault]
      decide
    have hleft : ¬ s.placeholder <:+: (Naming.under (some ns) s).substitute t := by
      rw [Naming.substitute_of_some hne hns]
      refine Text.not_infix_replace hne ?_ ?_ hother t
      · intro a ha
        rwa [← Option.some.inj (hends.1.symm.trans ha)]
      · intro b hb
        rwa [← Option.some.inj (hends.2.symm.trans hb)]
    exact ⟨hleft, Naming.substitute_substitute hne hns hleft⟩

/-- A namespace whose letters all stand in the placeholder, but for the lower case one. -/
theorem placeholder_replaced_lua :
    (({} : Settings).placeholder ≠ [] ∧ '.' ∉ ({} : Settings).placeholder ∧
      ¬ ({} : Settings).placeholder <:+: "LUA.x".toList ∧
        (Naming.under none {}).substitute (({} : Settings).placeholder ++ '.' :: "LUA.x".toList) =
          (Naming.under none {}).qualify "LUA.x".toList) ∧
      '\x7b' ∉ "LUA_a".toList ∧ '\x7d' ∉ "LUA_a".toList ∧
        (∃ c ∈ "LUA_a".toList, c ∉ ({} : Settings).placeholder) ∧
        ¬ ({} : Settings).placeholder <:+:
          (Naming.under (some "LUA_a".toList) {}).substitute ("\x7bLUA_API_\x7bLUA_API_NAMESPACE" ++
            "\x7dNAMESPACE\x7d").toList := by
  have hne : ({} : Settings).placeholder ≠ [] := by decide
  have hperiod : '.' ∉ ({} : Settings).placeholder := by decide
  have hname : ¬ ({} : Settings).placeholder <:+: "LUA.x".toList := by decide +kernel
  have hother : ∃ c ∈ "LUA_a".toList, c ∉ ({} : Settings).placeholder := ⟨'a', by decide, by decide⟩
  obtain ⟨hmarked, hleft⟩ := placeholder_replaced {}
  exact ⟨⟨hne, hperiod, hname, hmarked hne hperiod none _ hname⟩, by decide, by decide, hother,
    (hleft rfl _ (by decide) (by decide) hother _).1⟩

end LuaReference
