import LuaReference.Proofs.Annotation.Bounds

/-!
# Calls in any order

A registry is filled by calls in any order: builders are made, blocks begin and end, comment lines
are recorded, entities are named, the namespace is set. Main statement: `calls_coherent`, whatever
was called, names index their entities, members name their holder, and no position is out of range.
-/

namespace LuaReference

/-- A call that a registry is filled with. A line may be any text, and it may fail. -/
inductive Call where
  | builder
  | begin (k : Kind)
  | close
  | record (file : Path) (number : Nat) (line : Text)
  | tableEntry (name : Text)
  | classEntry (name : Text)
  | setNameSpace (name : Text)

def Recorder.call (r : Recorder) : Call → Recorder
  | .builder => { registry := r.registry }
  | .begin k => r.begin k
  | .close => r.close
  | .record file number line => (r.record file number line).recorder
  | .tableEntry name => { r with registry := (r.registry.tableEntry name).1 }
  | .classEntry name => { r with registry := (r.registry.classEntry name).1 }
  | .setNameSpace name => { r with registry := r.registry.setNameSpace name }

/-- What is true of a registry at any time. -/
structure Registry.Coherent (g : Registry) : Prop where
  tables_trimmed : ∀ t ∈ g.tables, t.name.trim = t.name
  tables_distinct : (g.tables.map Table.name).Nodup
  table?_iff : ∀ n t, g.table? n = some t ↔ t ∈ g.tables ∧ t.name = n
  classes_trimmed : ∀ c ∈ g.classes, c.name.trim = c.name
  classes_distinct : (g.classes.map Class.name).Nodup
  class?_iff : ∀ n c, g.class? n = some c ↔ c ∈ g.classes ∧ c.name = n
  owned_by_table : ∀ t ∈ g.tables, ∀ f ∈ t.functions, f.owner = .table t.name
  owned_by_class : ∀ c ∈ g.classes, ∀ f ∈ c.functions, f.owner = .ofClass c.name
  made_by_class : ∀ c ∈ g.classes, ∀ k ∈ c.constructors, k.makes = c.name
  parents_trimmed : ∀ c ∈ g.classes, ∀ p ∈ c.parents, p.trim = p
  parents_distinct : ∀ c ∈ g.classes, c.parents.Nodup
  nameSpace_trimmed : ∀ n, g.nameSpace = some n → n ≠ [] ∧ n.trim = n
  tableIndex_lt : ∀ n i, g.tableIndex.lookup n = some i → i < g.tables.length
  classIndex_lt : ∀ n i, g.classIndex.lookup n = some i → i < g.classes.length
  named_in_range : ∀ x ∈ g.named, ∃ f, g.functionAt? x.2 = some f

theorem Registry.WellFormed.coherent {g : Registry} (h : g.WellFormed) : g.Coherent where
  tables_trimmed := fun t ht => (h.tables t ht).trimmed
  tables_distinct := h.tableIndex.nodup
  table?_iff := h.tableIndex.find_iff
  classes_trimmed := fun c hc => (h.classes c hc).trimmed
  classes_distinct := h.classIndex.nodup
  class?_iff := h.classIndex.find_iff
  owned_by_table := fun t ht => (h.tables t ht).owned
  owned_by_class := fun c hc => (h.classes c hc).owned
  made_by_class := fun c hc => (h.classes c hc).made
  parents_trimmed := fun c hc => (h.classes c hc).parents_trimmed
  parents_distinct := fun c hc => (h.classes c hc).parents_nodup
  nameSpace_trimmed := h.nameSpace
  tableIndex_lt := by
    intro n i hi
    have hlt := h.tableIndex.lt hi
    rwa [List.length_map] at hlt
  classIndex_lt := by
    intro n i hi
    have hlt := h.classIndex.lt hi
    rwa [List.length_map] at hlt
  named_in_range := fun x hx => (h.named x hx).exists

theorem Recorder.Sound.call {r : Recorder} (h : r.Sound) (c : Call) : (r.call c).Sound := by
  cases c with
  | builder => exact ⟨h.registry, trivial⟩
  | begin k => exact ⟨h.registry, Cursor.inRange_start k r.registry⟩
  | close => exact ⟨h.registry, trivial⟩
  | record file number line =>
    rw [Recorder.call, Recorder.record_recorder]
    exact h.after line
  | tableEntry name =>
    exact ⟨h.registry.tableEntry name, h.cursor.grows (Registry.grows_tableEntry name)⟩
  | classEntry name =>
    exact ⟨h.registry.classEntry name, h.cursor.grows (Registry.grows_classEntry name)⟩
  | setNameSpace name =>
    exact ⟨h.registry.setNameSpace name, h.cursor.grows (Registry.grows_setNameSpace name)⟩

theorem Recorder.Sound.calls {r : Recorder} (h : r.Sound) (calls : List Call) :
    (calls.foldl Recorder.call r).Sound := by
  induction calls generalizing r with
  | nil => exact h
  | cons c calls ih => exact ih (h.call c)

/-- Whatever was called, the registry is coherent, the cursor points at what is there, and
recording any line with checked positions succeeds with the same outcome. -/
theorem calls_coherent (calls : List Call) :
    (calls.foldl Recorder.call {}).registry.Coherent ∧
      (calls.foldl Recorder.call {}).cursor.InRange (calls.foldl Recorder.call {}).registry ∧
      ∀ (file : Path) (number : Nat) (line : Text),
        (calls.foldl Recorder.call {}).after? line =
          some ((calls.foldl Recorder.call {}).record file number line).recorder := by
  have hstart : Recorder.Sound {} := ⟨Registry.wellFormed_empty, trivial⟩
  have hsound : (calls.foldl Recorder.call {}).Sound := hstart.calls calls
  refine ⟨hsound.registry.coherent, hsound.cursor, ?_⟩
  intro file number line
  rw [Recorder.record_recorder]
  exact hsound.after?_eq line

end LuaReference
