import LuaReference.Proofs.Annotation.Reading
import LuaReference.Proofs.Registry.Extension

/-!
# What a scan adds

While a source is scanned, lines go to members that the scan itself has added, so nothing that was
recorded before is changed: `scan_extends`.
-/

namespace LuaReference

open Registry (Extends)

/-- The member that the lines go to, if any, is none of the registry's. -/
def Cursor.Beyond (r : Registry) : Cursor → Prop
  | field (some p) => r.fieldCount p.holder ≤ p.index
  | constructor (some (i, j)) => r.constructorCount i ≤ j
  | function (some p) => (r.functionsOf p.holder).length ≤ p.index
  | _ => True

theorem Cursor.beyond_start (r : Registry) (k : Kind) : (Cursor.start k).Beyond r := by
  cases k <;> trivial

/-- A recorder that started from the registry `r` and goes on behind it. -/
structure Recorder.Continues (now : Recorder) (r : Registry) : Prop where
  registry : r.Extends now.registry
  cursor : now.cursor.Beyond r

theorem Class.extends_extend (line : Text) (c : Class) :
    c.Extends (Recorder.extendClass line c) := by
  rw [Recorder.extendClass]
  split
  · exact c.extends_inherit (tagValue line)
  · exact { Class.Extends.refl c with description := prefix_pushLine _ _ }

theorem extends_fill {r g : Registry} (h : r.Extends g) {c : Cursor} (hc : c.Beyond r)
    (line : Text) : r.Extends (c.fill g line) := by
  apply Cursor.fill_keeps h
  case table =>
    intro i _
    refine h.modifyTable i fun t t' _ hext => ?_
    exact { hext with description := hext.description.trans (prefix_pushLine _ _) }
  case ofClass =>
    intro i _
    exact h.modifyClass i fun c c' _ hext => hext.trans (c'.extends_extend line)
  case field =>
    rintro p rfl
    exact h.modifyField hc _
  case constructor =>
    rintro i j rfl
    exact h.modifyConstructor hc _
  case name =>
    rintro p rfl
    have hnamed : r.Extends (g.recordName (tagValue line) p) := ⟨h.tables, h.classes⟩
    exact hnamed.modifyFunction hc _
  case function =>
    rintro p rfl
    exact h.modifyFunction hc _

theorem extends_ownerEntry {r g : Registry} (h : r.Extends g) (line : Text) :
    r.Extends (g.ownerEntry line).1 := by
  rw [Registry.ownerEntry]
  split
  · exact h.tableEntry _
  · exact h.classEntry _

/-- An opening line selects an entity or adds a member at the end. -/
theorem continues_openPart {r g : Registry} (h : r.Extends g) (k : Kind) (line : Text) :
    (k.openPart g line).Continues r := by
  cases k with
  | table => exact ⟨h.tableEntry _, trivial⟩
  | ofClass => exact ⟨h.classEntry _, trivial⟩
  | field =>
    have howner := extends_ownerEntry h line
    exact ⟨howner.addField _, howner.fieldCount_le _⟩
  | constructor =>
    have hclass := h.classEntry (tagValue line)
    exact ⟨hclass.addConstructor _, hclass.constructorCount_le _⟩
  | function =>
    have howner := extends_ownerEntry h line
    exact ⟨howner.addFunction _, howner.functionCount_le _⟩
  | nameSpace => exact ⟨⟨h.tables, h.classes⟩, trivial⟩

theorem Recorder.Continues.after {r : Registry} {now : Recorder} (h : now.Continues r)
    (line : Text) : (now.after line).Continues r := by
  rcases now.after_cases line with ⟨k, hopen⟩ | hfill
  · rw [hopen]
    exact continues_openPart h.registry k line
  · rw [hfill]
    exact ⟨extends_fill h.registry h.cursor line, h.cursor⟩

theorem continues_scan (s : Settings) (file : Path) (content : Text) (r : Registry) :
    (scan s file content r).recorder.Continues r := by
  have hstart : Recorder.Continues { registry := r } r := ⟨.refl r, trivial⟩
  rw [scan_recorder]
  exact scanLines_keeps (P := (·.Continues r))
    (fun now k h => ⟨h.registry, Cursor.beyond_start r k⟩) (fun now h => ⟨h.registry, trivial⟩)
    (fun line (_ : line ∈ sourceLines content) now h => h.after line) hstart s file 1

/-- Whether it fails or not, a scan leaves every table and class in its place and under its name,
with every list of members and parents and every description as it was or continued. -/
theorem scan_extends (s : Settings) (file : Path) (content : Text) (r : Registry) :
    r.Extends (scan s file content r).recorder.registry :=
  (continues_scan s file content r).registry

end LuaReference
