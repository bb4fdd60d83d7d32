import LuaReference.Proofs.Annotation.Reading
import LuaReference.Proofs.Registry.Unbroken

/-!
# Lines and the registry

Whatever a comment line adds to the registry is cut from the line, so a source without carriage
returns keeps a registry unbroken: `unbroken_scan`.
-/

namespace LuaReference

variable {line : Text}

/-! ### What is cut from a line -/

theorem tagValue_subset (line : Text) : tagValue line ⊆ line :=
  List.Subset.trans (Text.trim_subset _) (Text.behindFirst_subset tagMark line)

theorem subset_of_mem_tagValues {n : Nat} {v : Text} (hv : v ∈ tagValues n line) : v ⊆ line := by
  obtain ⟨piece, hpiece, rfl⟩ := List.mem_map.1 hv
  exact List.Subset.trans (Text.trim_subset piece)
    (Text.subset_of_mem_splitAtMost (List.mem_of_mem_tail hpiece))

theorem sanitize_subset (line : Text) : sanitize line ⊆ line := by
  refine List.Subset.trans (Text.prefix_trimEnd _).subset ?_
  cases hrest : line.dropLeading? commentMark with
  | none => exact List.Subset.refl line
  | some rest =>
    rw [Text.dropLeading?_eq_some_iff.1 hrest]
    refine List.Subset.trans ?_ (List.subset_append_right commentMark rest)
    dsimp only
    split
    · split
      · exact List.Subset.refl _
      · exact List.subset_cons_self _ _
    · exact List.Subset.refl rest

section
variable (h : line.Unbroken)
include h

theorem unbroken_tagValue : (tagValue line).Unbroken := h.mono (tagValue_subset line)

theorem unbroken_of_tagValues {n i : Nat} {v : Text} (hv : (tagValues n line)[i]? = some v) :
    v.Unbroken :=
  h.mono (subset_of_mem_tagValues (List.mem_of_getElem? hv))

theorem unbroken_tagValues_getD {n i : Nat} {other : Text} (hother : other.Unbroken) :
    ((tagValues n line)[i]?.getD other).Unbroken := by
  cases hv : (tagValues n line)[i]? with
  | none => exact hother
  | some v => exact unbroken_of_tagValues h hv

theorem unbroken_parameterOf : (parameterOf line).Unbroken :=
  ⟨unbroken_tagValues_getD h Text.unbroken_nil, unbroken_tagValues_getD h Text.unbroken_nil,
    unbroken_tagValues_getD h Text.unbroken_nil⟩

theorem noReturn_pushLine_sanitize {description : Text} (hd : '\r' ∉ description) :
    '\r' ∉ pushLine description (sanitize line) :=
  noReturn_pushLine hd (h.mono (sanitize_subset line))

/-! ### One line -/

theorem Table.Unbroken.extend {t : Table} (ht : t.Unbroken) :
    (Recorder.extendTable line t).Unbroken :=
  { ht with description := noReturn_pushLine_sanitize h ht.description }

theorem Class.Unbroken.extend {c : Class} (hc : c.Unbroken) :
    (Recorder.extendClass line c).Unbroken := by
  rw [Recorder.extendClass]
  split
  · exact hc.inherit (unbroken_tagValue h)
  · exact { hc with description := noReturn_pushLine_sanitize h hc.description }

theorem Field.Unbroken.extend {f : Field} (hf : f.Unbroken) :
    (Recorder.extendField line f).Unbroken := by
  rw [Recorder.extendField]
  split
  · exact ⟨unbroken_tagValues_getD h Text.unbroken_nil,
      unbroken_tagValues_getD h Text.unbroken_nil, hf.description⟩
  · exact { hf with description := noReturn_pushLine_sanitize h hf.description }

theorem forall_unbroken_concat_parameterOf {ps : List Parameter} (hps : ∀ p ∈ ps, p.Unbroken) :
    ∀ p ∈ ps ++ [parameterOf line], p.Unbroken :=
  List.forall_mem_append.2 ⟨hps, List.forall_mem_singleton.2 (unbroken_parameterOf h)⟩

theorem Constructor.Unbroken.extend {k : Constructor} (hk : k.Unbroken) :
    (Recorder.extendConstructor line k).Unbroken := by
  rw [Recorder.extendConstructor]
  split
  · exact { hk with parameters := forall_unbroken_concat_parameterOf h hk.parameters }
  · exact { hk with description := noReturn_pushLine_sanitize h hk.description }

theorem Function.Unbroken.extend {f : Function} (hf : f.Unbroken) :
    (Recorder.extendFunction line f).Unbroken := by
  rw [Recorder.extendFunction]
  split
  · exact { hf with parameters := forall_unbroken_concat_parameterOf h hf.parameters }
  · split
    · refine { hf with
        returnType := ?_
        returnDescription := unbroken_tagValues_getD h hf.returnDescription }
      intro type htype
      rcases Option.or_eq_some_iff.1 htype with hfirst | ⟨_, hold⟩
      · exact unbroken_of_tagValues h hfirst
      · exact hf.returnType type hold
    · exact { hf with description := noReturn_pushLine_sanitize h hf.description }

theorem unbroken_fill {r : Registry} (hr : r.Unbroken) (c : Cursor) :
    (c.fill r line).Unbroken := by
  apply Cursor.fill_keeps hr
  case table =>
    intro i _
    exact hr.modifyTable i fun t ht => ht.extend h
  case ofClass =>
    intro i _
    exact hr.modifyClass i fun c hc => hc.extend h
  case field =>
    intro p _
    exact hr.modifyField p fun f hf => hf.extend h
  case constructor =>
    intro i j _
    exact hr.modifyConstructor i j fun k hk => hk.extend h
  case name =>
    intro p _
    have hnamed : (r.recordName (tagValue line) p).Unbroken :=
      ⟨hr.tables, hr.classes, hr.nameSpace⟩
    exact hnamed.modifyFunction p fun f hf => { hf with name := unbroken_tagValue h }
  case function =>
    intro p _
    exact hr.modifyFunction p fun f hf => hf.extend h

theorem unbroken_ownerEntry {r : Registry} (hr : r.Unbroken) :
    (r.ownerEntry line).1.Unbroken := by
  rw [Registry.ownerEntry]
  split
  · exact hr.tableEntry (unbroken_tagValue h)
  · exact hr.classEntry (unbroken_tagValue h)

theorem unbroken_openPart {r : Registry} (hr : r.Unbroken) (k : Kind) :
    (k.openPart r line).registry.Unbroken := by
  cases k with
  | table => exact hr.tableEntry (unbroken_tagValue h)
  | ofClass => exact hr.classEntry (unbroken_tagValue h)
  | field => exact (unbroken_ownerEntry h hr).addField _
  | constructor => exact (hr.classEntry (unbroken_tagValue h)).addConstructor _
  | function => exact (unbroken_ownerEntry h hr).addFunction _
  | nameSpace => exact hr.setNameSpace (unbroken_tagValue h)

theorem unbroken_after {r : Recorder} (hr : r.registry.Unbroken) :
    (r.after line).registry.Unbroken := by
  rcases r.after_cases line with ⟨k, hopen⟩ | hfill
  · rw [hopen]
    exact unbroken_openPart h hr k
  · rw [hfill]
    exact unbroken_fill h hr r.cursor

end

/-! ### A source -/

theorem unbroken_of_mem_sourceLines {content : Text} (h : '\r' ∉ content)
    (hline : line ∈ sourceLines content) : line.Unbroken := by
  obtain ⟨l, hl, rfl⟩ := List.mem_map.1 hline
  exact (Text.unbroken_of_mem_lines h hl).trim

/-- Whether it fails or not, scanning a text without carriage returns keeps a registry unbroken. -/
theorem unbroken_scan (s : Settings) (file : Path) {content : Text} (h : '\r' ∉ content)
    {r : Registry} (hr : r.Unbroken) : (scan s file content r).recorder.registry.Unbroken := by
  rw [scan_recorder]
  refine scanLines_keeps (P := fun now => now.registry.Unbroken) (fun now k hnow => hnow)
    (fun now hnow => hnow) ?_ hr s file 1
  intro line hline now hnow
  exact unbroken_after (unbroken_of_mem_sourceLines h hline) hnow

end LuaReference
