import LuaReference.Proofs.Annotation.Directed
import LuaReference.Proofs.Text.Lower

/-!
# What return lines say

Each return line sets the type of the result anew, but it sets the description only when it has a
second value. So a function has the type of its last return line and the description of the last one
that has any: `returns_of_return_lines`.
-/

namespace LuaReference

/-- The type and the description of its result. -/
def Function.result (f : Function) : Option Text × Text := (f.returnType, f.returnDescription)

namespace Annotation

/-- The return lines that are directed to a function. -/
def returnLines (a : Annotation) : List Text := a.part.lines.filter (tagged "return")

/-- What the last return line says: its first value, and its second one or nothing. -/
def lastReturn (a : Annotation) : Option Text × Text :=
  match a.returnLines.getLast? with
  | none => (none, [])
  | some line => ((tagValues 2 line)[0]?, (tagValues 2 line)[1]?.getD [])

/-- The first value of the last return line, and the second value of the last one that has two. -/
def returned (a : Annotation) : Option Text × Text :=
  (a.returnLines.getLast?.bind fun line => (tagValues 2 line)[0]?,
    (a.returnLines.filterMap fun line => (tagValues 2 line)[1]?).getLast?.getD [])

end Annotation

/-! ### Tags -/

/-- A line starts with one tag only. -/
theorem tagged_comparable {a b : String} {line : Text} (ha : tagged a line = true)
    (hb : tagged b line = true) : a.toList <+: b.toList ∨ b.toList <+: a.toList := by
  rw [tagged, hasTag, Bool.and_eq_true] at ha hb
  exact List.prefix_or_prefix_of_prefix (List.isPrefixOf_iff_prefix.1 ha.2)
    (List.isPrefixOf_iff_prefix.1 hb.2)

theorem filter_return (lines : List Text) :
    ((lines.filter fun line => !tagged "name" line).filter fun line => !tagged "param" line).filter
        (tagged "return") = lines.filter (tagged "return") := by
  rw [List.filter_filter, List.filter_filter]
  refine List.filter_congr fun line _ => ?_
  cases hreturn : tagged "return" line with
  | false => rfl
  | true =>
    have hname : tagged "name" line = false := by
      by_contra h
      exact absurd (tagged_comparable hreturn (by simpa using h)) (by decide)
    have hparam : tagged "param" line = false := by
      by_contra h
      exact absurd (tagged_comparable hreturn (by simpa using h)) (by decide)
    rw [hname, hparam]
    rfl

/-- Behind a tag there is at least one value. -/
theorem exists_first_value {tag : String} {line : Text} (h : tagged tag line = true) :
    ∃ value, (tagValues 2 line)[0]? = some value := by
  rw [tagged, hasTag, Bool.and_eq_true] at h
  have hmark : tagMark ∈ line := (Text.mem_lower_iff (by decide)).1 (of_decide_eq_true h.1)
  cases hsplit : Text.splitFirst tagMark line with
  | none => exact absurd hmark (Text.splitFirst_eq_none_iff.1 hsplit)
  | some pieces =>
    obtain ⟨first, rest⟩ := pieces
    have hvalues : tagValues 2 line = (Text.splitAtMost tagMark 1 rest).map Text.trim := by
      rw [tagValues, Text.splitAtMost, hsplit]
      rfl
    rw [hvalues, Text.splitAtMost]
    cases Text.splitFirst tagMark rest with
    | none => exact ⟨_, rfl⟩
    | some pieces => exact ⟨_, rfl⟩

/-! ### Functions -/

theorem getLast?_filterMap_of_forall {α β : Type} {f : α → Option β} {l : List α}
    (h : ∀ x ∈ l, ∃ y, f x = some y) : (l.filterMap f).getLast? = l.getLast?.bind f := by
  obtain rfl | ⟨init, x, rfl⟩ := List.eq_nil_or_concat l
  · rfl
  · rw [List.concat_eq_append] at h ⊢
    obtain ⟨y, hy⟩ := h x (by simp)
    have hlast : [x].filterMap f = [y] := by rw [List.filterMap_cons, hy]; rfl
    rw [List.filterMap_append, hlast, List.getLast?_concat, List.getLast?_concat, Option.bind_some,
      hy]

theorem exists_first_of_mem_returnLines {a : Annotation} {line : Text}
    (h : line ∈ a.returnLines) : ∃ value, (tagValues 2 line)[0]? = some value :=
  exists_first_value (List.mem_filter.1 h).2

theorem result_functionOf (a : Annotation) (owner : Owner) :
    (functionOf owner a.part.lines).result = a.returned := by
  have hfirst := getLast?_filterMap_of_forall fun line (h : line ∈ a.returnLines) =>
    exists_first_of_mem_returnLines h
  rw [functionOf, Function.result, Annotation.returned, ← hfirst]
  simp only [filter_return, List.filterMap_map]
  rfl

theorem results_functionsOf (as : List Annotation) (owner : Owner) :
    (as.map fun a => functionOf owner a.part.lines).map Function.result =
      as.map Annotation.returned := by
  rw [List.map_map]
  exact List.map_congr_left fun a _ => result_functionOf a owner

namespace Annotation

theorem returned_type_eq_none_iff (a : Annotation) :
    a.returned.1 = none ↔ a.returnLines = [] := by
  rw [returned]
  constructor
  · intro h
    by_contra hne
    obtain ⟨init, line, hlines⟩ := (List.eq_nil_or_concat a.returnLines).resolve_left hne
    have hmem : line ∈ a.returnLines := by
      rw [hlines]
      simp
    obtain ⟨value, hvalue⟩ := exists_first_of_mem_returnLines hmem
    rw [hlines, List.concat_eq_append, List.getLast?_concat, Option.bind_some, hvalue] at h
    cases h
  · intro h
    rw [h]
    rfl

/-- The result is that of the last return line, unless only an earlier one describes it. -/
theorem returned_eq_lastReturn_iff (a : Annotation) :
    a.returned = a.lastReturn ↔ ∀ line, a.returnLines.getLast? = some line →
      (tagValues 2 line)[1]? = none → a.returned.2 = [] := by
  rw [returned, lastReturn]
  obtain hnil | ⟨init, line, hlines⟩ := List.eq_nil_or_concat a.returnLines
  · rw [hnil]
    exact iff_of_true rfl (fun _ h => nomatch h)
  · rw [hlines, List.concat_eq_append, List.getLast?_concat, Option.bind_some, Prod.mk.injEq,
      and_iff_right rfl]
    cases hsecond : (tagValues 2 line)[1]? with
    | none =>
      constructor
      · intro hnone _ _ _
        exact hnone
      · intro hnone
        exact hnone line rfl hsecond
    | some value =>
      have hlast : [line].filterMap (fun line => (tagValues 2 line)[1]?) = [value] := by
        rw [List.filterMap_cons, hsecond]
        rfl
      refine iff_of_true ?_ ?_
      · rw [List.filterMap_append, hlast, List.getLast?_concat, Option.getD_some]
      · intro last hlast hnone
        rw [← Option.some.inj hlast, hsecond] at hnone
        cases hnone

end Annotation

/-- A scan that does not fail adds to each table and class one function for each part directed to
it, with the type of the last return line of the part and the description of the last one that has
a second value. These two are what the last return line alone says, unless that has no second value
and an earlier one has one that is not empty. -/
theorem returns_of_return_lines {s : Settings} {file : Path} {content : Text} {r : Registry}
    (hr : r.WellFormed) (h : (scan s file content r).fault = none) :
    let r' := (scan s file content r).recorder.registry
    let as := annotationsOf s (sourceLines content)
    (∀ t ∈ r'.tables, ∃ added, t.functions = (r.tableNamed t.name).functions ++ added ∧
        added.map Function.result =
          (directed as .function (.table t.name)).map Annotation.returned) ∧
      (∀ c ∈ r'.classes, ∃ added, c.functions = (r.classNamed c.name).functions ++ added ∧
        added.map Function.result =
          (directed as .function (.ofClass c.name)).map Annotation.returned) ∧
      ∀ a : Annotation, (a.returned.1 = none ↔ a.returnLines = []) ∧
        (a.returned = a.lastReturn ↔ ∀ line, a.returnLines.getLast? = some line →
          (tagValues 2 line)[1]? = none → a.returned.2 = []) := by
  intro r' as
  have hadded : r' = as.foldl Registry.annotated r := registry_scan_eq_annotated h
  refine ⟨?_, ?_, fun a => ⟨a.returned_type_eq_none_iff, a.returned_eq_lastReturn_iff⟩⟩
  · intro t ht
    rw [hadded] at ht
    have hfunctions := (congrArg Table.functions (hr.eq_annotated_of_mem_tables ht)).trans
      (Table.functions_annotated _ as)
    rw [hr.name_tableNamed] at hfunctions
    exact ⟨_, hfunctions, results_functionsOf _ _⟩
  · intro c hc
    rw [hadded] at hc
    have hfunctions := (congrArg Class.functions (hr.eq_annotated_of_mem_classes hc)).trans
      (Class.functions_annotated _ as)
    rw [hr.name_classNamed] at hfunctions
    exact ⟨_, hfunctions, results_functionsOf _ _⟩

/-- A function with two return lines, of which only the first one has a description. -/
def twiceReturned : Text :=
  "// Lua API: Function\n// Table: t\n// Return: string: The path.\n// Return: number\n".toList

theorem twiceReturned_result :
    (scan {} sampleFile twiceReturned {}).fault = none ∧
      ∀ t ∈ (scan {} sampleFile twiceReturned {}).recorder.registry.tables,
        ∃ added, t.functions = (({} : Registry).tableNamed t.name).functions ++ added ∧
          added.map Function.result =
            (directed (annotationsOf {} (sourceLines twiceReturned)) .function
              (.table t.name)).map Annotation.returned := by
  have hfault : (scan {} sampleFile twiceReturned {}).fault = none := by decide +kernel
  exact ⟨hfault, (returns_of_return_lines Registry.wellFormed_empty hfault).1⟩

/-- The function keeps the description of the first return line with the type of the last one. -/
theorem twiceReturned_not_lastReturn :
    (scan {} sampleFile twiceReturned {}).fault = none ∧
      (directed (annotationsOf {} (sourceLines twiceReturned)) .function
        (.table "t".toList)).map Annotation.lastReturn = [(some "number".toList, [])] ∧
      (scan {} sampleFile twiceReturned {}).recorder.registry.tables.map
          (fun t => (t.name, t.functions.map Function.result)) =
        [("t".toList, [(some "number".toList, "The path.".toList)])] := by
  exact ⟨by decide +kernel, by decide +kernel, by decide +kernel⟩

end LuaReference
