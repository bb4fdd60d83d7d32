import LuaReference.Proofs.Document.Layout
import LuaReference.Proofs.Project.Sources

/-!
# What stubs declare

Every part of a stub is laid out in comments and definitions, since what it is made of has no line
ends, so a stub declares the constructors and functions of its entity and nothing else, whatever its
annotations say.
-/

namespace LuaReference

/-! ### Names in documents -/

/-- A naming under a namespace without line ends, if any. -/
def Naming.Unbroken (n : Naming) : Prop := ∀ ns, n.nameSpace = some ns → ns.Unbroken

theorem Registry.Unbroken.naming {r : Registry} (h : r.Unbroken) (s : Settings) :
    (Naming.of r s).Unbroken := by
  intro ns hns
  exact h.nameSpace ns (Option.filter_eq_some_iff.1 hns).1

namespace Naming

variable {n : Naming} (hn : n.Unbroken)
include hn

theorem unbroken_qualify {name : Text} (h : name.Unbroken) : (n.qualify name).Unbroken := by
  rw [qualify]
  cases hns : n.nameSpace with
  | none => exact h
  | some ns => exact (hn ns hns).append (.append (t := ['.']) (by decide) h)

theorem unbroken_qualifyTable {name : Text} (h : name.Unbroken) :
    (n.qualifyTable name).Unbroken :=
  .ite h (unbroken_qualify hn h)

theorem unbroken_callPath {f : Function} (h : f.Unbroken) : (n.callPath f).Unbroken := by
  have hseparator : Text.Unbroken [f.owner.separator] := by
    cases f.owner with
    | table name =>
      show Text.Unbroken ['.']
      decide
    | ofClass name =>
      show Text.Unbroken [':']
      decide
  exact .ite h.name ((unbroken_qualify hn h.owner).append (hseparator.append h.name))

theorem noReturn_qualifyMentions {f : Function} (h : f.Unbroken) {t : Text} (ht : '\r' ∉ t) :
    '\r' ∉ n.qualifyMentions f t := by
  rw [qualifyMentions]
  split
  · exact ht
  · intro hmem
    exact (Text.mem_of_mem_replace hmem).elim ht (unbroken_callPath hn h).noReturn

end Naming

theorem Function.Unbroken.declaredReturn {f : Function} (h : f.Unbroken) {type : Text}
    (htype : f.declaredReturn = some type) : type.Unbroken :=
  h.returnType type (Option.filter_eq_some_iff.1 htype).1

namespace Stub

open Piece

/-! ### Signatures -/

namespace Signature

def ofConstructor (n : Naming) (c : Constructor) : Signature :=
  ⟨n.qualify c.makes ++ ":new".toList, Page.parameterNames c.parameters⟩

def ofFunction (n : Naming) (f : Function) : Signature :=
  ⟨n.callPath f, Page.parameterNames f.parameters⟩

/-- The signature with the placeholder for the namespace replaced in its parts. -/
def substitute (n : Naming) (d : Signature) : Signature :=
  ⟨n.substitute d.call, n.substitute d.parameters⟩

end Signature

/-- One signature for each function of the table. -/
def tableSignatures (n : Naming) (t : Table) : List Signature :=
  (t.functions.map (Signature.ofFunction n)).map (Signature.substitute n)

/-- One signature for each constructor of the class, and one for each of its functions behind. -/
def classSignatures (n : Naming) (c : Class) : List Signature :=
  (c.constructors.map (Signature.ofConstructor n) ++ c.functions.map (Signature.ofFunction n)).map
    (Signature.substitute n)

/-! ### Comment lines -/

theorem laid_line {front rest : Text} (hmark : "--".toList <+: front) (hfront : front.Unbroken)
    (hrest : rest.Unbroken) : Laid (line (front ++ rest)) [] := by
  obtain ⟨l, rfl⟩ := hmark
  have hl : Text.Unbroken l := (Text.unbroken_append.1 hfront).2
  have hlaid := Laid.comment (hl.append hrest) .nil
  rwa [← List.append_assoc] at hlaid

theorem laid_blank : Laid blank [] := .blank .nil

theorem laid_commentLine {t : Text} (h : t.Unbroken) : Laid (commentLine t) [] := by
  rw [commentLine]
  split
  · have hempty : Laid (line ("--".toList ++ [])) [] :=
      laid_line (by decide) (by decide) Text.unbroken_nil
    exact hempty
  · exact laid_line (by decide) (by decide) h

theorem laid_comment {t : Text} (h : '\r' ∉ t) : Laid (comment t) [] := by
  rw [comment]
  split
  · exact .nil
  · exact .flatMap_nil fun l hl => laid_commentLine (Text.unbroken_of_mem_splitAll h hl)

theorem unbroken_oneLine {t : Text} (h : '\r' ∉ t) : (oneLine t).Unbroken := by
  refine Text.Unbroken.join (by decide) ?_
  intro p hp
  obtain ⟨l, hl, rfl⟩ := List.mem_map.1 (List.mem_of_mem_filter hp)
  exact (Text.unbroken_of_mem_splitAll h hl).trim

theorem laid_field {f : Field} (h : f.Unbroken) : Laid (field f) [] := by
  have htype : Text.Unbroken (if f.type = [] then [] else ' ' :: f.type) :=
    .ite (by decide) (.append (t := [' ']) (by decide) h.type)
  have hdescription := unbroken_oneLine h.description
  rw [field, List.append_assoc, List.append_assoc]
  refine laid_line (by decide) (by decide) (h.name.append (htype.append ?_))
  exact .ite (by decide) (.append (by decide) hdescription)

theorem laid_parameter {p : Parameter} (h : p.Unbroken) : Laid (parameter p) [] := by
  have hdescription : Text.Unbroken (if p.description = [] then [] else ' ' :: p.description) :=
    .ite (by decide) (.append (t := [' ']) (by decide) h.description)
  rw [parameter, List.append_assoc, List.append_assoc, List.append_assoc]
  exact laid_line (by decide) (by decide)
    (h.name.append (.append (by decide) (h.type.append hdescription)))

theorem laid_returns {f : Function} (h : f.Unbroken) : Laid (returns f) [] := by
  rw [returns]
  cases htype : f.declaredReturn with
  | none => exact .nil
  | some type =>
    dsimp only
    rw [List.append_assoc, List.append_assoc]
    exact laid_line (by decide) (by decide)
      ((h.declaredReturn htype).append (.append (by decide) h.returnDescription))

theorem laid_header {name description : Text} (hname : name.Unbroken)
    (hdescription : '\r' ∉ description) : Laid (header name description) [] :=
  ((laid_line (by decide) (by decide) hname).append laid_blank).append (laid_comment hdescription)

theorem laid_declaration {name : Text} (hname : name.Unbroken) {parents : List Text}
    (hparents : ∀ p ∈ parents, p.Unbroken) : Laid (declaration name parents) [] := by
  have hjoin : Text.Unbroken (Text.join ", ".toList parents) := .join (by decide) hparents
  rw [declaration, List.append_assoc]
  exact laid_line (by decide) (by decide)
    (hname.append (.ite (by decide) (.append (by decide) hjoin)))

/-! ### Definitions -/

theorem unbroken_parameterNames {ps : List Parameter} (h : ∀ p ∈ ps, p.Unbroken) :
    (Page.parameterNames ps).Unbroken := by
  refine Text.Unbroken.join (by decide) ?_
  intro name hname
  obtain ⟨p, hp, rfl⟩ := List.mem_map.1 hname
  exact (h p hp).name

theorem laid_definition {call : Text} (hcall : call.Unbroken) {ps : List Parameter}
    (hps : ∀ p ∈ ps, p.Unbroken) :
    Laid (definition call ps) [⟨call, Page.parameterNames ps⟩] := by
  have hlaid := Laid.definition (d := ⟨call, Page.parameterNames ps⟩)
    ⟨hcall, unbroken_parameterNames hps⟩ .nil
  have hline : definition call ps =
      Signature.line ⟨call, Page.parameterNames ps⟩ ++ ['\n'] := by
    unfold Signature.line
    simp [definition, line]
  rw [hline]
  exact hlaid

section
variable {n : Naming} (hn : n.Unbroken)
include hn

theorem laid_constructor {c : Constructor} (h : c.Unbroken) :
    Laid (constructor n c) [Signature.ofConstructor n c] := by
  have hmakes := Naming.unbroken_qualify hn h.makes
  have hparameters : Laid (c.parameters.flatMap parameter) [] :=
    .flatMap_nil fun p hp => laid_parameter (h.parameters p hp)
  have hreturn : Laid (line ("---@return ".toList ++ n.qualify c.makes)) [] :=
    laid_line (by decide) (by decide) hmakes
  have hdefinition := laid_definition (hmakes.append (u := ":new".toList) (by decide)) h.parameters
  exact (((laid_comment h.description).append hparameters).append hreturn).append hdefinition

theorem laid_function {f : Function} (h : f.Unbroken) :
    Laid (function n f) [Signature.ofFunction n f] := by
  have hcomment := laid_comment (Naming.noReturn_qualifyMentions hn h h.description)
  have hparameters : Laid (f.parameters.flatMap parameter) [] :=
    .flatMap_nil fun p hp => laid_parameter (h.parameters p hp)
  have hdefinition := laid_definition (Naming.unbroken_callPath hn h) h.parameters
  exact (((hcomment.append hparameters).append (laid_returns h)).append hdefinition).append
    laid_blank

theorem laid_functions {fs : List Function} (h : ∀ f ∈ fs, f.Unbroken) :
    Laid (functions n fs) (fs.map (Signature.ofFunction n)) := by
  rw [functions]
  split
  · next hnil =>
    rw [hnil]
    exact .nil
  · have hlaid := (Laid.flatMap_map fun f hf => laid_function hn (h f hf)).append laid_blank
    rwa [List.append_nil] at hlaid

/-! ### Stubs -/

/-- Replacing the placeholder is one replacement, with a namespace and without. -/
theorem exists_replace_of_substitute (hp : Foreign n.placeholder) :
    ∃ p r : Text, Foreign p ∧ r.Unbroken ∧ ∀ u, n.substitute u = u.replace p r := by
  cases hns : n.nameSpace with
  | some ns =>
    refine ⟨n.placeholder, ns, hp, hn ns hns, ?_⟩
    intro u
    rw [Naming.substitute, if_neg hp.ne_nil, hns]
  | none =>
    refine ⟨n.placeholder ++ ['.'], [], hp.concat, Text.unbroken_nil, ?_⟩
    intro u
    rw [Naming.substitute, if_neg hp.ne_nil, hns]

theorem laid_substitute (hp : Foreign n.placeholder) {t : Text} {ds : List Signature}
    (h : Laid t ds) : Laid (n.substitute t) (ds.map (Signature.substitute n)) := by
  obtain ⟨p, r, hforeign, hr, hsubstitute⟩ := exists_replace_of_substitute hn hp
  have hsignature : ∀ d ∈ ds, Signature.substitute n d = d.replace p r := by
    intro d _
    rw [Signature.substitute, hsubstitute, hsubstitute]
    rfl
  rw [hsubstitute, List.map_congr_left hsignature]
  exact h.replace hforeign hr

theorem table_declares (hp : Foreign n.placeholder) {t : Table} (h : t.Unbroken) :
    Declares (table n t) (tableSignatures n t) := by
  have hdeclaration : Laid (declaration (n.qualifyTable t.name) []) [] :=
    laid_declaration (Naming.unbroken_qualifyTable hn h.name) (by simp)
  have hfields : Laid (t.fields.flatMap field) [] :=
    .flatMap_nil fun f hf => laid_field (h.fields f hf)
  have hfront := ((laid_header h.name h.description).append hdeclaration).append hfields
  have hlaid := (hfront.append laid_blank).append (laid_functions hn h.functions)
  exact (laid_substitute hn hp hlaid).declares

theorem ofClass_declares (hp : Foreign n.placeholder) {c : Class} (h : c.Unbroken) :
    Declares (ofClass n c) (classSignatures n c) := by
  have hname := Naming.unbroken_qualify hn h.name
  have hspace : ∀ (p : Prop) [Decidable p], Laid (if p then blank else []) [] := by
    intro p _
    split
    · exact laid_blank
    · exact .nil
  have hfields : Laid (c.fields.flatMap field) [] :=
    .flatMap_nil fun f hf => laid_field (h.fields f hf)
  have hconstructors : Laid (c.constructors.flatMap (constructor n))
      (c.constructors.map (Signature.ofConstructor n)) :=
    .flatMap_map fun k hk => laid_constructor hn (h.constructors k hk)
  have hfront := (((laid_header h.name h.description).append
    (laid_declaration hname h.parents)).append (hspace (c.fields = []))).append hfields
  have hmiddle := ((hfront.append laid_blank).append (hspace (c.constructors = []))).append
    hconstructors
  have hlaid := (hmiddle.append laid_blank).append (laid_functions hn h.functions)
  rw [List.append_nil] at hlaid
  exact (laid_substitute hn hp hlaid).declares

end

/-- With the usual placeholder and no namespace in the settings, every stub of what was scanned has
blank lines, comment lines and definitions only: in order, the definitions of the constructors and
of the functions of its entity. -/
theorem scanned_stubs_declare {t : FileTree} {s : Settings} {roots : List Path} {so : Scanned}
    (hplaceholder : s.placeholder = ({} : Settings).placeholder) (hnone : s.nameSpace = none)
    (h : (t.scanSources s roots).result = .ok so) :
    (∀ tb ∈ so.registry.tables, Declares (table (Naming.of so.registry s) tb)
        (tableSignatures (Naming.of so.registry s) tb)) ∧
      ∀ c ∈ so.registry.classes, Declares (ofClass (Naming.of so.registry s) c)
        (classSignatures (Naming.of so.registry s) c) := by
  have hregistry := unbroken_scanSources hnone h
  have hnaming := hregistry.naming s
  have hforeign : Foreign (Naming.of so.registry s).placeholder := by
    show Foreign s.placeholder
    rw [hplaceholder]
    exact ⟨by decide, by decide, by decide, by decide⟩
  exact ⟨fun tb htb => table_declares hnaming hforeign (hregistry.tables tb htb),
    fun c hc => ofClass_declares hnaming hforeign (hregistry.classes c hc)⟩

/-- A class with code in its description and carriage returns at the ends of its lines. -/
def describedCode : FileTree where
  top := .directory <|
    .sub "src".toList (.file "a.c".toList
      ("// Lua API: Class\r\n// Name: A\r\n// os.exit()\r\n" ++
        "// Lua API: Constructor\r\n// Class: A\r\n// Param: n\r\n").toUTF8 .empty) .empty

def describedClass : Class where
  name := "A".toList
  constructors := [{ makes := "A".toList, parameters := [⟨"n".toList, [], []⟩] }]
  description := "os.exit()".toList

def scannedCode : Scanned where
  registry := { classes := [describedClass], classIndex := [("A".toList, 0)] }
  files := 1
  blocks := 2

theorem scanned_stubs_declare_described :
    (describedCode.scanSources {} [.ofString "src"]).result = .ok scannedCode ∧
      (∀ tb ∈ scannedCode.registry.tables, Declares (table (Naming.of scannedCode.registry {}) tb)
        (tableSignatures (Naming.of scannedCode.registry {}) tb)) ∧
      ∀ c ∈ scannedCode.registry.classes, Declares (ofClass (Naming.of scannedCode.registry {}) c)
        (classSignatures (Naming.of scannedCode.registry {}) c) := by
  have hscan : (describedCode.scanSources {} [.ofString "src"]).result = .ok scannedCode := by
    decide +kernel
  exact ⟨hscan, scanned_stubs_declare rfl rfl hscan⟩

end Stub

end LuaReference
