import LuaReference.Document.Stub
import LuaReference.Proofs.Text.Cut

/-!
# Mentions of a function in its own description

A description mentions its function by owner and name. In a namespace every mention is put behind
the namespace, whatever stands in front of it; a mention that was qualified already is qualified
again, and one that only ends a longer identifier cuts it in two. `qualifyMentions_eq_iff` says
for which descriptions that is the same as qualifying the mentions that stand alone.
-/

namespace LuaReference

/-- A character of an identifier. -/
def isNamePart (c : Char) : Bool := c.isAlphanum || c = '_'

namespace Text

/-- Whether the identifier that `t` starts with goes on from the end of `front`. -/
def continuesName (front t : Text) : Bool :=
  front.getLast?.any isNamePart && t.head?.any isNamePart

end Text

namespace Naming

/-- Whether a mention behind `front` is put there without a namespace: `front` ends neither in
the namespace or the placeholder with its period, nor within the identifier that the mention
starts with. -/
def standsAlone (n : Naming) (ns short front : Text) : Bool :=
  !(ns ++ ['.']).isSuffixOf front &&
    !(decide (n.placeholder ≠ []) && (n.placeholder ++ ['.']).isSuffixOf front) &&
    !front.continuesName short

/-- The description of a function with those of its own mentions qualified that stand alone. -/
def qualifyLone (n : Naming) (f : Function) (t : Text) : Text :=
  match n.nameSpace with
  | none => t
  | some ns =>
    if n.isGlobalOwner f.owner then t
    else Text.joinWhere (n.standsAlone ns (shortPath f)) (shortPath f) (n.callPath f) []
      (t.cut (shortPath f))

variable {n : Naming} {f : Function} {ns : Text}

theorem shortPath_ne_nil (f : Function) : shortPath f ≠ [] :=
  List.append_ne_nil_of_right_ne_nil f.owner.name (List.cons_ne_nil _ _)

theorem callPath_eq (hns : n.nameSpace = some ns) (howner : n.isGlobalOwner f.owner = false) :
    n.callPath f = ns ++ '.' :: shortPath f := by
  rw [callPath, howner, qualify, hns, shortPath]
  simp

theorem qualifyMentions_eq (hns : n.nameSpace = some ns)
    (howner : n.isGlobalOwner f.owner = false) (t : Text) :
    n.qualifyMentions f t = t.replace (shortPath f) (ns ++ '.' :: shortPath f) := by
  rw [qualifyMentions, hns, howner, callPath_eq hns howner]
  rfl

/-- In a namespace, all mentions of a function that is not global are put behind the namespace:
also behind one that is there already, so that no description with a mention is left as it is by
qualifying it once more. The mentions that stand alone are the only ones qualified exactly when
there are no others. -/
theorem qualifyMentions_eq_iff (hns : n.nameSpace = some ns)
    (howner : n.isGlobalOwner f.owner = false) (t : Text) :
    let short := shortPath f
    let pieces := t.cut short
    (Text.join short pieces = t ∧
      n.qualifyMentions f t = Text.join (ns ++ '.' :: short) pieces) ∧
    (∀ piece ∈ pieces.dropLast, ∀ space, space ++ ['.'] <:+ piece →
      space ++ '.' :: (ns ++ '.' :: short) <:+: n.qualifyMentions f t) ∧
    (n.qualifyMentions f t = n.qualifyLone f t ↔
      ∀ front ∈ Text.fronts short [] pieces, n.standsAlone ns short front = true) ∧
    (n.qualifyMentions f (n.qualifyMentions f t) = n.qualifyMentions f t ↔ ¬ short <:+: t) := by
  intro short pieces
  have hne : short ≠ [] := shortPath_ne_nil f
  have hless : short.length < (ns ++ '.' :: short).length := by
    rw [List.length_append, List.length_cons]
    omega
  have hinside : short <:+: ns ++ '.' :: short :=
    (List.suffix_append_of_suffix (List.suffix_cons '.' short)).isInfix
  have hjoin : n.qualifyMentions f t = Text.join (ns ++ '.' :: short) pieces := by
    rw [qualifyMentions_eq hns howner, Text.join_cut hne]
  refine ⟨⟨?_, hjoin⟩, ?_, ?_, ?_⟩
  · rw [Text.join_cut hne, Text.replace_self hne]
  · rintro piece hpiece space ⟨a, rfl⟩
    have hput := Text.append_infix_join hpiece (ns ++ '.' :: short)
    rw [← hjoin] at hput
    refine List.IsInfix.trans ⟨a, [], ?_⟩ hput
    simp
  · have hlone : n.qualifyLone f t =
        Text.joinWhere (n.standsAlone ns short) short (ns ++ '.' :: short) [] pieces := by
      rw [qualifyLone, hns, howner, callPath_eq hns howner]
      rfl
    rw [hjoin, hlone, eq_comm]
    exact Text.joinWhere_eq_join_iff (n.standsAlone ns short) hless [] pieces
  · rw [qualifyMentions_eq hns howner t, qualifyMentions_eq hns howner,
      Text.replace_eq_self_iff hne hless, Text.infix_replace_iff hne hinside]

/-! ### One function, mentioned in three ways -/

def romNaming : Naming := .under (some "rom".toList) {}

/-- A function whose description mentions it behind the namespace and behind the placeholder, and
ends an identifier with the text of a mention. -/
def logInfo : Function where
  name := "info".toList
  owner := .table "log".toList
  description :=
    "rom.log.info, \x7bLUA_API_NAMESPACE\x7d.log.info, catalog.info".toList

theorem qualifyMentions_eq_iff_logInfo :
    romNaming.nameSpace = some "rom".toList ∧ romNaming.isGlobalOwner logInfo.owner = false ∧
      romNaming.qualifyMentions logInfo "Like log.info.".toList =
        romNaming.qualifyLone logInfo "Like log.info.".toList ∧
      romNaming.qualifyMentions logInfo logInfo.description ≠
        romNaming.qualifyLone logInfo logInfo.description := by
  have hns : romNaming.nameSpace = some "rom".toList := by decide
  have howner : romNaming.isGlobalOwner logInfo.owner = false := by decide +kernel
  have hlone := qualifyMentions_eq_iff hns howner "Like log.info.".toList
  have hthree := qualifyMentions_eq_iff hns howner logInfo.description
  refine ⟨hns, howner, hlone.2.2.1.2 ?_, fun h => ?_⟩
  · decide +kernel
  · have hall := hthree.2.2.1.1 h
    revert hall
    decide +kernel

/-- The page and the stub say `rom.rom.log.info` where the description says `rom.log.info`. -/
theorem logInfo_qualified_again :
    let described := romNaming.qualifyMentions logInfo logInfo.description
    ¬ "rom.rom".toList <:+: logInfo.description ∧
      romNaming.substitute described =
        "rom.rom.log.info, rom.rom.log.info, catarom.log.info".toList ∧
      romNaming.substitute (romNaming.qualifyLone logInfo logInfo.description) =
        "rom.log.info, rom.log.info, catalog.info".toList ∧
      romNaming.substitute described <:+:
        Page.table romNaming { name := "log".toList, functions := [logInfo] } ∧
      romNaming.substitute described <:+:
        Stub.table romNaming { name := "log".toList, functions := [logInfo] } ∧
      romNaming.qualifyMentions logInfo described ≠ described := by
  decide +kernel

end Naming

end LuaReference
