import LuaReference.Registry
import Mathlib.Data.List.Basic

/-!
# Changes in place

How changes of a registry compose: two changes at one position are one change, and filling a
member that was just added is adding the filled member.
-/

namespace LuaReference

theorem modify_congr_at {α : Type} (l : List α) (i : Nat) (f g : α → α)
    (h : ∀ a, l[i]? = some a → f a = g a) : l.modify i f = l.modify i g := by
  induction l generalizing i with
  | nil => simp
  | cons b l ih =>
    cases i with
    | zero =>
      have hb : f b = g b := h b (by simp)
      simp [hb]
    | succ i =>
      have hl : l.modify i f = l.modify i g := ih i fun a ha => h a (by simpa using ha)
      simp [hl]

theorem modify_length_append {α : Type} (l : List α) (a : α) (f : α → α) :
    (l ++ [a]).modify l.length f = l ++ [f a] := by
  induction l with
  | nil => rfl
  | cons b l ih => simp [ih]

/-- Changes that compose at one place add up to one change there. -/
theorem foldl_change {ρ α : Type} (act : (α → α) → ρ → ρ) (extend : Text → α → α)
    (hid : ∀ r, act (fun a => a) r = r)
    (hcomp : ∀ f g r, act g (act f r) = act (fun a => g (f a)) r) (lines : List Text) (r : ρ) :
    lines.foldl (fun r line => act (extend line) r) r =
      act (fun a => lines.foldl (fun a line => extend line a) a) r := by
  induction lines generalizing r with
  | nil => exact (hid r).symm
  | cons line lines ih =>
    rw [List.foldl_cons, ih, hcomp]
    rfl

namespace Registry

variable (r : Registry) (i j : Nat) (h : Holder) (p : Place)

/-! ### Tables and classes -/

theorem modifyTable_self : r.modifyTable i (fun t => t) = r := by
  have hid : r.tables.modify i (fun t => t) = r.tables := List.modify_id i r.tables
  simp only [modifyTable, hid]

theorem modifyClass_self : r.modifyClass i (fun c => c) = r := by
  have hid : r.classes.modify i (fun c => c) = r.classes := List.modify_id i r.classes
  simp only [modifyClass, hid]

theorem modifyTable_modifyTable (f g : Table → Table) :
    (r.modifyTable i f).modifyTable i g = r.modifyTable i fun t => g (f t) := by
  simp only [modifyTable, List.modify_modify_eq, Function.comp_def]

theorem modifyClass_modifyClass (f g : Class → Class) :
    (r.modifyClass i f).modifyClass i g = r.modifyClass i fun c => g (f c) := by
  simp only [modifyClass, List.modify_modify_eq, Function.comp_def]

theorem modifyTable_congr (f g : Table → Table) (hfg : ∀ t, r.tables[i]? = some t → f t = g t) :
    r.modifyTable i f = r.modifyTable i g := by
  simp only [modifyTable, modify_congr_at r.tables i f g hfg]

theorem modifyClass_congr (f g : Class → Class)
    (hfg : ∀ c, r.classes[i]? = some c → f c = g c) :
    r.modifyClass i f = r.modifyClass i g := by
  simp only [modifyClass, modify_congr_at r.classes i f g hfg]

/-! ### Fields, constructors and functions -/

theorem modifyFields_self : r.modifyFields h (fun l => l) = r := by
  cases h with
  | tableAt i => exact r.modifyTable_self i
  | classAt i => exact r.modifyClass_self i

theorem modifyFunctions_self : r.modifyFunctions h (fun l => l) = r := by
  cases h with
  | tableAt i => exact r.modifyTable_self i
  | classAt i => exact r.modifyClass_self i

theorem modifyFields_modifyFields (f g : List Field → List Field) :
    (r.modifyFields h f).modifyFields h g = r.modifyFields h fun l => g (f l) := by
  cases h with
  | tableAt i => exact r.modifyTable_modifyTable i _ _
  | classAt i => exact r.modifyClass_modifyClass i _ _

theorem modifyFunctions_modifyFunctions (f g : List Function → List Function) :
    (r.modifyFunctions h f).modifyFunctions h g = r.modifyFunctions h fun l => g (f l) := by
  cases h with
  | tableAt i => exact r.modifyTable_modifyTable i _ _
  | classAt i => exact r.modifyClass_modifyClass i _ _

theorem modifyField_self : r.modifyField p (fun f => f) = r := by
  have hid : (fun l : List Field => l.modify p.index fun f => f) = fun l => l :=
    funext fun l => List.modify_id p.index l
  rw [modifyField, hid, modifyFields_self]

theorem modifyFunction_self : r.modifyFunction p (fun f => f) = r := by
  have hid : (fun l : List Function => l.modify p.index fun f => f) = fun l => l :=
    funext fun l => List.modify_id p.index l
  rw [modifyFunction, hid, modifyFunctions_self]

theorem modifyConstructor_self : r.modifyConstructor i j (fun c => c) = r := by
  have hid : (fun l : List Constructor => l.modify j fun c => c) = fun l => l :=
    funext fun l => List.modify_id j l
  rw [modifyConstructor, hid]
  exact r.modifyClass_self i

theorem modifyField_modifyField (f g : Field → Field) :
    (r.modifyField p f).modifyField p g = r.modifyField p fun a => g (f a) := by
  simp only [modifyField, modifyFields_modifyFields, List.modify_modify_eq, Function.comp_def]

theorem modifyFunction_modifyFunction (f g : Function → Function) :
    (r.modifyFunction p f).modifyFunction p g = r.modifyFunction p fun a => g (f a) := by
  simp only [modifyFunction, modifyFunctions_modifyFunctions, List.modify_modify_eq,
    Function.comp_def]

theorem modifyConstructor_modifyConstructor (f g : Constructor → Constructor) :
    (r.modifyConstructor i j f).modifyConstructor i j g =
      r.modifyConstructor i j fun a => g (f a) := by
  simp only [modifyConstructor, modifyConstructors, modifyClass_modifyClass,
    List.modify_modify_eq, Function.comp_def]

/-- A name given to a function touches neither tables nor classes. -/
theorem modifyFunction_recordName (name : Text) (q : Place) (f : Function → Function) :
    (r.recordName name q).modifyFunction p f = (r.modifyFunction p f).recordName name q := by
  obtain ⟨holder, k⟩ := p
  cases holder <;> rfl

/-! ### New members -/

/-- Changing a field that was just added is adding the changed field. -/
theorem modifyField_addField (f : Field → Field) :
    (r.addField h).1.modifyField (r.addField h).2 f = r.modifyFields h (· ++ [f {}]) := by
  rw [addField, modifyField, modifyFields_modifyFields]
  cases h with
  | tableAt i =>
    apply modifyTable_congr
    intro t ht
    simp only [fieldCount, ht, Option.map_some, Option.getD_some, modify_length_append]
  | classAt i =>
    apply modifyClass_congr
    intro c hc
    simp only [fieldCount, hc, Option.map_some, Option.getD_some, modify_length_append]

theorem modifyFunction_addFunction (f : Function → Function) :
    (r.addFunction h).1.modifyFunction (r.addFunction h).2 f =
      r.modifyFunctions h (· ++ [f { owner := r.ownerOf h }]) := by
  rw [addFunction, modifyFunction, modifyFunctions_modifyFunctions]
  cases h with
  | tableAt i =>
    apply modifyTable_congr
    intro t ht
    simp only [functionsOf, ht, Option.map_some, Option.getD_some, modify_length_append]
  | classAt i =>
    apply modifyClass_congr
    intro c hc
    simp only [functionsOf, hc, Option.map_some, Option.getD_some, modify_length_append]

theorem modifyConstructor_addConstructor (f : Constructor → Constructor) :
    (r.addConstructor i).1.modifyConstructor i (r.addConstructor i).2 f =
      r.modifyConstructors i (· ++ [f { makes := (r.ownerOf (.classAt i)).name }]) := by
  rw [addConstructor, modifyConstructor, modifyConstructors, modifyConstructors,
    modifyClass_modifyClass, modifyConstructors]
  apply modifyClass_congr
  intro c hc
  simp only [constructorCount, hc, Option.map_some, Option.getD_some, modify_length_append]

end Registry

end LuaReference
