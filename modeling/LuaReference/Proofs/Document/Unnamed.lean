import LuaReference.Document.Validation
import LuaReference.Proofs.Annotation.Directed

/-!
# Warnings about missing names

Validation finds a function without a name by what it is called, and a name line can call it that
too. So the warnings are one for each function that no name line names, and one for each whose last
name line says that it is unset: `missing_names_exact`.
-/

namespace LuaReference

namespace Annotation

/-- The name lines that are directed to a function. -/
def nameLines (a : Annotation) : List Text := a.part.lines.filter (tagged "name")

/-- The name that the last name line gives. -/
def givenName (a : Annotation) : Option Text := a.nameLines.getLast?.map tagValue

theorem givenName_eq_none_iff (a : Annotation) : a.givenName = none ↔ a.nameLines = [] := by
  rw [givenName, Option.map_eq_none_iff, List.getLast?_eq_none_iff]

theorem name_functionOf (a : Annotation) (owner : Owner) :
    (functionOf owner a.part.lines).name = a.givenName.getD unnamed := rfl

end Annotation

/-- The event warns of a function without a name. -/
def Event.missesName (e : Event) : Bool :=
  e.message = "function block has no `Name:` line".toList

namespace Registry

/-- The tables and then the classes of a registry, in its order. -/
def owners (r : Registry) : List Owner :=
  r.tables.map (.table ·.name) ++ r.classes.map (.ofClass ·.name)

/-- The annotations of functions, owner by owner, each with its owner. -/
def functionParts (r : Registry) (as : List Annotation) : List (Owner × Annotation) :=
  r.owners.flatMap fun o => (directed as .function o).map (o, ·)

/-! ### Functions of a registry -/

/-- The functions of a registry are what the annotations of functions make, in this order. -/
theorem functions_annotated {as : List Annotation} {r : Registry}
    (hr : r = as.foldl Registry.annotated {}) :
    r.functions = (r.functionParts as).map fun p => functionOf p.1 p.2.part.lines := by
  have htables : ∀ t ∈ r.tables, t.functions =
      (directed as .function (.table t.name)).map fun a =>
        functionOf (.table t.name) a.part.lines := by
    intro t ht
    rw [hr] at ht
    have hannotated : t = Table.annotated { name := t.name } as :=
      wellFormed_empty.eq_annotated_of_mem_tables ht
    exact (congrArg Table.functions hannotated).trans (Table.functions_annotated _ as)
  have hclasses : ∀ c ∈ r.classes, c.functions =
      (directed as .function (.ofClass c.name)).map fun a =>
        functionOf (.ofClass c.name) a.part.lines := by
    intro c hc
    rw [hr] at hc
    have hannotated : c = Class.annotated { name := c.name } as :=
      wellFormed_empty.eq_annotated_of_mem_classes hc
    exact (congrArg Class.functions hannotated).trans (Class.functions_annotated _ as)
  rw [functions, functionParts, owners, List.flatMap_append, List.map_append, List.flatMap_map,
    List.flatMap_map, List.map_flatMap, List.map_flatMap, List.flatMap_congr htables,
    List.flatMap_congr hclasses]
  simp only [List.map_map]
  rfl

/-! ### Warnings -/

theorem filter_missesName_warnings (r : Registry) :
    r.warnings.filter Event.missesName = r.unnamedFunctions := by
  have hmessage : "inherits from an undocumented class".toList ≠
      "function block has no `Name:` line".toList := by decide +kernel
  have hparents : r.unknownParents.filter Event.missesName = [] := by
    rw [List.filter_eq_nil_iff]
    intro e he
    obtain ⟨c, -, he⟩ := List.mem_flatMap.1 he
    obtain ⟨p, -, rfl⟩ := List.mem_map.1 he
    exact fun h => hmessage (of_decide_eq_true h)
  have hunnamed : ∀ e ∈ r.unnamedFunctions, Event.missesName e = true := by
    intro e he
    obtain ⟨f, -, rfl⟩ := List.mem_map.1 he
    exact decide_eq_true rfl
  rw [warnings, List.filter_append, hparents, List.nil_append, List.filter_eq_self.2 hunnamed]

/-- A function is called as one without a name when no line names it, or when the last one that does
calls it so. -/
theorem unnamedFunctions_annotated {as : List Annotation} {r : Registry}
    (hr : r = as.foldl Registry.annotated {}) :
    r.unnamedFunctions = ((r.functionParts as).filter fun p =>
        p.2.nameLines = [] ∨ p.2.givenName = some unnamed).map (.unnamedFunction ·.1) := by
  rw [unnamedFunctions, functions_annotated hr, List.filter_map, List.map_map]
  refine congrArg (List.map _) (List.filter_congr fun p _ => ?_)
  rw [Function.comp_apply, decide_eq_decide, Annotation.name_functionOf,
    ← Annotation.givenName_eq_none_iff]
  cases p.2.givenName <;> simp

end Registry

/-- A weaker filter keeps no more than the other only when what makes it weaker never occurs. -/
theorem map_filter_or_eq_iff {α β : Type} {f : α → β} {p q : α → Prop} [DecidablePred p]
    [DecidablePred q] {l : List α} (hpq : ∀ a, q a → ¬ p a) :
    (l.filter fun a => p a ∨ q a).map f = (l.filter fun a => p a).map f ↔ ∀ a ∈ l, ¬ q a := by
  constructor
  · intro h a ha hq
    have hsub : List.Sublist (l.filter fun a => p a) (l.filter fun a => p a ∨ q a) :=
      List.monotone_filter_right l fun a hp => decide_eq_true (Or.inl (of_decide_eq_true hp))
    have hlength := congrArg List.length h
    rw [List.length_map, List.length_map] at hlength
    have hsame := hsub.eq_of_length hlength.symm
    have hmem : a ∈ l.filter fun a => p a ∨ q a :=
      List.mem_filter.2 ⟨ha, decide_eq_true (Or.inr hq)⟩
    rw [← hsame] at hmem
    exact hpq a hq (of_decide_eq_true (List.mem_filter.1 hmem).2)
  · intro h
    refine congrArg (List.map f) (List.filter_congr fun a ha => ?_)
    rw [decide_eq_decide]
    exact or_iff_left (h a ha)

/-- After any sources were read, whether some of them failed or not, validation warns once, in
order, of each function without a name line, and once of each whose last name line says `unset`. So
it warns exactly of the functions without a name line when no function's last name line says
that. -/
theorem missing_names_exact (sources : List Source) :
    let r := ({} : Registry).withSources sources
    let parts := r.functionParts (sources.flatMap Source.annotations)
    r.functions = parts.map (fun p => functionOf p.1 p.2.part.lines) ∧
      r.warnings.filter Event.missesName = (parts.filter fun p =>
        p.2.nameLines = [] ∨ p.2.givenName = some unnamed).map (.unnamedFunction ·.1) ∧
      (r.warnings.filter Event.missesName =
          (parts.filter fun p => p.2.nameLines = []).map (.unnamedFunction ·.1) ↔
        ∀ p ∈ parts, p.2.givenName ≠ some unnamed) := by
  intro r parts
  have hr : r = (sources.flatMap Source.annotations).foldl Registry.annotated {} :=
    withSources_eq {} sources
  have hwarnings := (r.filter_missesName_warnings).trans (Registry.unnamedFunctions_annotated hr)
  have hnamed : ∀ p : Owner × Annotation, p.2.givenName = some unnamed → ¬ p.2.nameLines = [] := by
    intro p hgiven hnone
    rw [p.2.givenName_eq_none_iff.2 hnone] at hgiven
    cases hgiven
  refine ⟨Registry.functions_annotated hr, hwarnings, ?_⟩
  rw [hwarnings]
  exact map_filter_or_eq_iff hnamed

/-- A function that a name line calls `unset`. -/
def calledUnset : Source where
  settings := {}
  file := sampleFile
  content := "// Lua API: Function\n// Table: t\n// Name: unset\n".toList

/-- Validation warns of the one function there is, which has a name line. -/
theorem calledUnset_warned :
    let r := ({} : Registry).withSources [calledUnset]
    let parts := r.functionParts ([calledUnset].flatMap Source.annotations)
    parts.map (fun p => (p.1, p.2.givenName)) = [(.table "t".toList, some "unset".toList)] ∧
      r.warnings.filter Event.missesName = [.unnamedFunction (.table "t".toList)] ∧
      (parts.filter fun p => p.2.nameLines = []) = [] := by
  intro r parts
  refine ⟨by decide +kernel, ?_, by decide +kernel⟩
  rw [r.filter_missesName_warnings]
  decide +kernel

end LuaReference
