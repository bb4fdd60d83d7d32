import Mathlib.Data.List.Infix
import LuaReference.Proofs.Output.Documents
import LuaReference.Proofs.Registry.WellFormed
import LuaReference.Proofs.Text.Search

/-!
# Parents in stubs

A stub declares its class under the qualified name, and lists the parents as the annotations wrote
them. So a documented parent is listed under the name that its own stub declares when there is no
namespace, and in a namespace only when another class happens to be declared under that name.
-/

namespace LuaReference

/-! ### Replacing the placeholder -/

def classMark : Text := "---@class (exact)".toList

/-- A placeholder that can stand inside the names of a declaration only: it has none of the
characters between them, and takes no part of the mark in front of them. -/
structure Naming.Separable (n : Naming) : Prop where
  separators : ∀ c ∈ [' ', '\n', ':', ',', '.'], c ∉ n.placeholder
  mark : n.placeholder = [] ∨ ¬ n.placeholder <:+: classMark

instance (n : Naming) : Decidable n.Separable :=
  -- over the five characters, not over all there are
  have : Decidable (∀ c ∈ [' ', '\n', ':', ',', '.'], c ∉ n.placeholder) := List.decidableBAll _ _
  decidable_of_iff (_ ∧ _) ⟨fun h => ⟨h.1, h.2⟩, fun h => ⟨h.separators, h.mark⟩⟩

namespace Naming

variable {n : Naming}

/-- The placeholder is replaced by one replacement, with a namespace and without. -/
theorem exists_replacement (hne : n.placeholder ≠ []) :
    ∃ p r, n.placeholder <+: p ∧ (∀ c ∈ p, c ∈ n.placeholder ∨ c = '.' ∧ n.nameSpace = none) ∧
      ∀ u, n.substitute u = u.replace p r := by
  cases hns : n.nameSpace with
  | some ns =>
    refine ⟨n.placeholder, ns, List.prefix_rfl, fun c hc => Or.inl hc, fun u => ?_⟩
    rw [substitute, if_neg hne, hns]
  | none =>
    refine ⟨n.placeholder ++ ['.'], [], List.prefix_append _ _, fun c hc => ?_, fun u => ?_⟩
    · rw [List.mem_append, List.mem_singleton] at hc
      exact hc.imp_right fun hdot => ⟨hdot, rfl⟩
    · rw [substitute, if_neg hne, hns]

@[simp]
theorem substitute_nil (n : Naming) : n.substitute [] = [] := by
  unfold substitute
  split
  · rfl
  · split <;> exact Text.replace_nil _ _

theorem substitute_append_cons {c : Char} (hc : c ∉ n.placeholder)
    (hdot : c ≠ '.' ∨ n.nameSpace ≠ none) (a b : Text) :
    n.substitute (a ++ c :: b) = n.substitute a ++ c :: n.substitute b := by
  by_cases hne : n.placeholder = []
  · simp [substitute, hne]
  · obtain ⟨p, r, hp, hchars, hreplace⟩ := exists_replacement hne
    have hpne : p ≠ [] := fun hnil => hne (List.prefix_nil.1 (hnil ▸ hp))
    have hcp : c ∉ p := by
      intro hmem
      rcases hchars c hmem with hin | ⟨rfl, hnone⟩
      · exact hc hin
      · exact hdot.elim (fun h => h rfl) (fun h => h hnone)
    rw [hreplace, hreplace, hreplace, Text.replace_append_cons hpne hcp]

namespace Separable

variable (hn : n.Separable)
include hn

theorem substitute_mark : n.substitute classMark = classMark := by
  by_cases hne : n.placeholder = []
  · rw [substitute, if_pos hne]
  · obtain ⟨p, r, hp, -, hreplace⟩ := exists_replacement hne
    rw [hreplace]
    refine Text.replace_of_not_contains r fun hinfix => ?_
    exact (hn.mark.resolve_left hne) (hp.isInfix.trans hinfix)

theorem substitute_space (a b : Text) :
    n.substitute (a ++ ' ' :: b) = n.substitute a ++ ' ' :: n.substitute b :=
  substitute_append_cons (hn.separators ' ' (by decide)) (Or.inl (by decide)) a b

theorem substitute_newline (a b : Text) :
    n.substitute (a ++ '\n' :: b) = n.substitute a ++ '\n' :: n.substitute b :=
  substitute_append_cons (hn.separators '\n' (by decide)) (Or.inl (by decide)) a b

theorem substitute_punctuated {c : Char} (hc : c ∈ [':', ',']) (a b : Text) :
    n.substitute (a ++ [c, ' '] ++ b) = n.substitute a ++ [c, ' '] ++ n.substitute b := by
  have hmark : c ∉ n.placeholder ∧ c ≠ '.' := by
    rcases List.mem_pair.1 hc with rfl | rfl
    · exact ⟨hn.separators ':' (by decide), by decide⟩
    · exact ⟨hn.separators ',' (by decide), by decide⟩
  have hspace := hn.substitute_space [] b
  rw [substitute_nil, List.nil_append, List.nil_append] at hspace
  rw [List.append_assoc, List.cons_append, List.cons_append, List.nil_append,
    substitute_append_cons hmark.1 (Or.inl hmark.2), hspace, List.append_assoc]
  rfl

theorem substitute_join (parents : List Text) :
    n.substitute (Text.join ", ".toList parents) =
      Text.join ", ".toList (parents.map n.substitute) := by
  induction parents with
  | nil => exact n.substitute_nil
  | cons p parents ih =>
    cases parents with
    | nil => rfl
    | cons q parents =>
      rw [Text.join, List.map_cons, List.map_cons, Text.join, ← List.map_cons, ← ih]
      exact hn.substitute_punctuated (by decide) p _

theorem substitute_declaration (name : Text) (parents : List Text) (rest : Text) :
    n.substitute (Stub.declaration name parents ++ rest) =
      Stub.declaration (n.substitute name) (parents.map n.substitute) ++ n.substitute rest := by
  have hlisted : n.substitute (name ++
        if parents = [] then [] else ": ".toList ++ Text.join ", ".toList parents) =
      n.substitute name ++ if parents.map n.substitute = [] then [] else
        ": ".toList ++ Text.join ", ".toList (parents.map n.substitute) := by
    by_cases hnil : parents = []
    · simp [hnil]
    · have hmap : parents.map n.substitute ≠ [] := mt List.map_eq_nil_iff.1 hnil
      have hcolon : ": ".toList = [':', ' '] := by decide
      have hmark : ':' ∈ [':', ','] := List.mem_cons_self
      rw [if_neg hnil, if_neg hmap, hcolon, ← List.append_assoc, ← List.append_assoc,
        hn.substitute_punctuated hmark, hn.substitute_join]
  have hline : ∀ (name : Text) (parents : List Text) (rest : Text),
      Stub.declaration name parents ++ rest = classMark ++ ' ' ::
        ((name ++ if parents = [] then [] else ": ".toList ++ Text.join ", ".toList parents) ++
          '\n' :: rest) := by
    intro name parents rest
    have hmark : "---@class (exact) ".toList = classMark ++ [' '] := by decide
    rw [Stub.declaration, Piece.line, hmark]
    simp only [List.append_assoc, List.cons_append, List.nil_append]
  rw [hline, hn.substitute_space, hn.substitute_mark, hn.substitute_newline, hlisted, ← hline]

end Separable

end Naming

/-! ### The declaration of a class -/

namespace Stub

open Piece

/-- The text has a line of its own that declares a class of this name with these parents. -/
def DeclaresClass (text name : Text) (parents : List Text) : Prop :=
  ∃ before after, text = before ++ '\n' :: (declaration name parents ++ after)

theorem exists_comment_eq (t : Text) : comment t = [] ∨ ∃ front, comment t = front ++ ['\n'] := by
  unfold comment
  split
  · exact Or.inl rfl
  · obtain ⟨init, last, hsplit⟩ :=
      (List.eq_nil_or_concat (t.splitAll '\n')).resolve_left (Text.splitAll_ne_nil _ _)
    right
    rw [hsplit, List.concat_eq_append, List.flatMap_append, List.flatMap_singleton, commentLine,
      line, ← List.append_assoc]
    exact ⟨_, rfl⟩

theorem exists_header_eq (name description : Text) :
    ∃ front, header name description = front ++ ['\n'] := by
  unfold header
  rcases exists_comment_eq description with hnil | ⟨front, hfront⟩
  · rw [hnil, List.append_nil]
    exact ⟨_, rfl⟩
  · rw [hfront, ← List.append_assoc]
    exact ⟨_, rfl⟩

theorem ofClass_declaresClass {n : Naming} (hn : n.Separable) (c : Class) :
    DeclaresClass (ofClass n c) (n.substitute (n.qualify c.name)) (c.parents.map n.substitute) := by
  obtain ⟨front, hfront⟩ := exists_header_eq c.name c.description
  unfold ofClass
  simp only [List.append_assoc]
  rw [hfront, List.append_assoc, List.singleton_append, hn.substitute_newline,
    hn.substitute_declaration]
  exact ⟨_, _, rfl⟩

end Stub

/-! ### Parents under declared names -/

/-- The name under which the stub of a class declares it. -/
def Naming.declared (n : Naming) (c : Class) : Text := n.substitute (n.qualify c.name)

variable {r : Registry} {s : Settings}

theorem exists_class_of_parent (hr : r.WellFormed) (hknown : r.unknownParents = []) {c : Class}
    (hc : c ∈ r.classes) {p : Text} (hp : p ∈ c.parents) : ∃ d ∈ r.classes, d.name = p := by
  have hnone := List.flatMap_eq_nil_iff.1 hknown c hc
  rw [List.map_eq_nil_iff, List.filter_eq_nil_iff] at hnone
  obtain ⟨d, hd⟩ : ∃ d, r.class? p = some d := by
    apply Option.ne_none_iff_exists'.1
    simpa using hnone p hp
  exact ⟨d, (hr.classIndex.find_iff p d).1 hd⟩

/-- A parent is listed under the name of its own stub exactly when there is no namespace. -/
theorem substitute_eq_declared_iff {n : Naming} (hn : n.Separable) (d : Class) :
    n.substitute d.name = n.declared d ↔ n.nameSpace = none := by
  unfold Naming.declared Naming.qualify
  cases hns : n.nameSpace with
  | none => simp
  | some ns =>
    refine iff_of_false ?_ (Option.some_ne_none ns)
    rw [Naming.substitute_append_cons (hn.separators '.' (by decide)) (Or.inr (by simp [hns]))]
    intro heq
    have hlength := congrArg List.length heq
    rw [List.length_append, List.length_cons] at hlength
    omega

/-- Every parent is listed under a name that the stub of some class declares. -/
def Registry.ParentsDeclared (r : Registry) (s : Settings) : Prop :=
  ∀ c ∈ r.classes, ∀ p ∈ c.parents, ∃ d ∈ r.classes,
    (Naming.of r s).substitute p = (Naming.of r s).declared d

instance (r : Registry) (s : Settings) : Decidable (r.ParentsDeclared s) :=
  inferInstanceAs (Decidable (∀ c ∈ r.classes, ∀ p ∈ c.parents, ∃ d ∈ r.classes, _ = _))

/-- When no parent is unknown, the stub of each class declares its name and lists its parents, and
these are all declared exactly when there is no namespace, or another class than the parent is
declared under each listed name. -/
theorem generated_parents_iff {files : List GeneratedFile} (hr : r.WellFormed)
    (hn : (Naming.of r s).Separable) (h : r.generate s = .ok files)
    (hknown : r.unknownParents = []) :
    (∀ c ∈ r.classes, ∃ f ∈ files, f = .ofClass (.of r s) .stub c ∧
        Stub.DeclaresClass f.content ((Naming.of r s).declared c)
          (c.parents.map (Naming.of r s).substitute)) ∧
      (r.ParentsDeclared s ↔ (Naming.of r s).nameSpace = none ∨
        ∀ c ∈ r.classes, ∀ p ∈ c.parents, ∃ d ∈ r.classes, d.name ≠ p ∧
          (Naming.of r s).substitute p = (Naming.of r s).declared d) := by
  obtain ⟨-, rfl⟩ := generate_eq_ok_iff.1 h
  refine ⟨?_, ?_, ?_⟩
  · intro c hc
    have hmem : GeneratedFile.ofClass (.of r s) .stub c ∈ r.documents s :=
      mem_documents_iff.2 (Or.inr ⟨c, hc, .stub, rfl⟩)
    exact ⟨_, hmem, rfl, Stub.ofClass_declaresClass hn c⟩
  · intro hdeclared
    by_cases hnone : (Naming.of r s).nameSpace = none
    · exact Or.inl hnone
    · right
      intro c hc p hp
      obtain ⟨d, hd, heq⟩ := hdeclared c hc p hp
      refine ⟨d, hd, ?_, heq⟩
      rintro rfl
      exact hnone ((substitute_eq_declared_iff hn d).1 heq)
  · rintro (hnone | hothers) c hc p hp
    · obtain ⟨d, hd, rfl⟩ := exists_class_of_parent hr hknown hc hp
      exact ⟨d, hd, (substitute_eq_declared_iff hn d).2 hnone⟩
    · obtain ⟨d, hd, -, heq⟩ := hothers c hc p hp
      exact ⟨d, hd, heq⟩

/-! ### One parent, with and without a namespace -/

/-- Two classes, of which the second inherits the first. -/
def kin (nameSpace : String) : Registry :=
  ((((({} : Registry).setNameSpace nameSpace.toList).classEntry "Base".toList).1.classEntry
    "Child".toList).1).modifyClass 1 (·.inherit "Base".toList)

theorem kin_wellFormed (nameSpace : String) : (kin nameSpace).WellFormed := by
  have hclasses := ((Registry.wellFormed_empty.setNameSpace nameSpace.toList).classEntry
    "Base".toList).classEntry "Child".toList
  exact hclasses.modifyClass 1 _ (fun c _ hc => hc.inherit _) fun c => c.fits_inherit _

theorem generated_parents_iff_kin :
    (kin "").generate {} = .ok ((kin "").documents {}) ∧ (kin "").unknownParents = [] ∧
      (kin "").ParentsDeclared {} := by
  have hgenerate : (kin "").generate {} = .ok ((kin "").documents {}) := by decide +kernel
  have hknown : (kin "").unknownParents = [] := by decide +kernel
  have hparents := generated_parents_iff (kin_wellFormed "") (by decide +kernel) hgenerate hknown
  exact ⟨hgenerate, hknown, hparents.2.2 (Or.inl rfl)⟩

/-- In a namespace the second class lists `Base`, and the first one is declared as `rom.Base`. -/
theorem kin_not_declared :
    (kin "rom").WellFormed ∧ (kin "rom").generate {} = .ok ((kin "rom").documents {}) ∧
      (kin "rom").unknownParents = [] ∧
      (((kin "rom").documents {}).filter (·.format = .stub)).map (·.content) =
        ["---@meta Base\n\n---@class (exact) rom.Base\n\n\n\n\n".toList,
          "---@meta Child\n\n---@class (exact) rom.Child: Base\n\n\n\n\n".toList] ∧
      ¬ (kin "rom").ParentsDeclared {} :=
  ⟨kin_wellFormed _, by decide +kernel, by decide +kernel, by decide +kernel, by decide +kernel⟩

end LuaReference
