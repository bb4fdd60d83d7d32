import LuaReference.Proofs.Annotation.Reading
import LuaReference.Proofs.Registry.WellFormed

/-!
# The invariant of a recorder

A recorder is sound when its registry is well-formed and its cursor points at something that the
registry has. Opening a part and filling it keep a recorder sound, so every line does, and every
scan, whether it fails or not.
-/

namespace LuaReference

open Registry (Grows)

def Cursor.InRange (r : Registry) : Cursor → Prop
  | table (some i) => i < r.tables.length
  | ofClass (some i) => i < r.classes.length
  | field (some p) => p.index < r.fieldCount p.holder
  | constructor (some (i, j)) => j < r.constructorCount i
  | function (some p) => r.HasFunction p
  | _ => True

structure Recorder.Sound (r : Recorder) : Prop where
  registry : r.registry.WellFormed
  cursor : r.cursor.InRange r.registry

theorem Cursor.inRange_start (k : Kind) (r : Registry) : (Cursor.start k).InRange r := by
  cases k <;> trivial

theorem Cursor.InRange.grows {c : Cursor} {r r' : Registry} (h : c.InRange r) (hg : r.Grows r') :
    c.InRange r' := by
  cases c with
  | outside => trivial
  | nameSpace => trivial
  | table current =>
    cases current with
    | none => trivial
    | some i => exact Nat.lt_of_lt_of_le h hg.tables
  | ofClass current =>
    cases current with
    | none => trivial
    | some i => exact Nat.lt_of_lt_of_le h hg.classes
  | field current =>
    cases current with
    | none => trivial
    | some p => exact Nat.lt_of_lt_of_le h (hg.fields p.holder)
  | constructor current =>
    cases current with
    | none => trivial
    | some ij => exact Nat.lt_of_lt_of_le h (hg.constructors ij.1)
  | function current =>
    cases current with
    | none => trivial
    | some p => exact Registry.HasFunction.grows h hg

/-! ### Filling -/

theorem Class.fits_extend (line : Text) (c : Class) : c.Fits (Recorder.extendClass line c) := by
  rw [Recorder.extendClass]
  split
  · exact c.fits_inherit (tagValue line)
  · exact ⟨rfl, Nat.le_refl _, Nat.le_refl _, Nat.le_refl _⟩

theorem Class.Sound.extend {c : Class} (h : c.Sound) (line : Text) :
    (Recorder.extendClass line c).Sound := by
  rw [Recorder.extendClass]
  split
  · exact h.inherit (tagValue line)
  · exact ⟨h.trimmed, h.owned, h.made, h.parents_nodup, h.parents_trimmed⟩

theorem Table.fits_extend (line : Text) (t : Table) : t.Fits (Recorder.extendTable line t) :=
  ⟨rfl, Nat.le_refl _, Nat.le_refl _⟩

theorem extendFunction_owner (line : Text) (f : Function) :
    (Recorder.extendFunction line f).owner = f.owner := by
  rw [Recorder.extendFunction]
  split
  · rfl
  · split <;> rfl

theorem extendConstructor_makes (line : Text) (k : Constructor) :
    (Recorder.extendConstructor line k).makes = k.makes := by
  rw [Recorder.extendConstructor]
  split <;> rfl

theorem grows_fill (c : Cursor) (r : Registry) (line : Text) : r.Grows (c.fill r line) := by
  apply Cursor.fill_keeps (Grows.refl r)
  case table =>
    intro i _
    exact Registry.grows_modifyTable i _ (Table.fits_extend line)
  case ofClass =>
    intro i _
    exact Registry.grows_modifyClass i _ (Class.fits_extend line)
  case field =>
    intro p _
    exact Registry.grows_modifyField p _
  case constructor =>
    intro i j _
    exact Registry.grows_modifyConstructor i j _
  case name =>
    intro p _
    exact (Registry.grows_recordName _ p).trans (Registry.grows_modifyFunction p _)
  case function =>
    intro p _
    exact Registry.grows_modifyFunction p _

theorem wellFormed_fill {c : Cursor} {r : Registry} (h : r.WellFormed) (hc : c.InRange r)
    (line : Text) : (c.fill r line).WellFormed := by
  apply Cursor.fill_keeps h
  case table =>
    intro i _
    exact h.modifyTable i _ (fun t _ ht => ⟨ht.trimmed, ht.owned⟩) (Table.fits_extend line)
  case ofClass =>
    intro i _
    exact h.modifyClass i _ (fun c _ hs => hs.extend line) (Class.fits_extend line)
  case field =>
    intro p _
    exact h.modifyField p _
  case constructor =>
    intro i j _
    exact h.modifyConstructor i j _ (extendConstructor_makes line)
  case name =>
    rintro p rfl
    exact (h.recordName _ p hc).modifyFunction p _ fun _ => rfl
  case function =>
    intro p _
    exact h.modifyFunction p _ (extendFunction_owner line)

/-! ### Opening -/

namespace Registry.WellFormed

variable {r : Registry}

theorem ownerEntry (h : r.WellFormed) (line : Text) :
    (r.ownerEntry line).1.WellFormed ∧ (r.ownerEntry line).1.HasHolder (r.ownerEntry line).2 := by
  rw [Registry.ownerEntry]
  split
  · exact ⟨h.tableEntry _, h.tableEntry_lt _⟩
  · exact ⟨h.classEntry _, h.classEntry_lt _⟩

end Registry.WellFormed

/-- Whatever an opening line selects is there afterwards. -/
theorem sound_openPart (k : Kind) {r : Registry} (h : r.WellFormed) (line : Text) :
    (k.openPart r line).Sound := by
  cases k with
  | table => exact ⟨h.tableEntry _, h.tableEntry_lt _⟩
  | ofClass => exact ⟨h.classEntry _, h.classEntry_lt _⟩
  | field =>
    obtain ⟨hw, hh⟩ := h.ownerEntry line
    exact ⟨hw.addField _, hh.addField⟩
  | constructor =>
    have hw := h.classEntry (tagValue line)
    have hi := h.classEntry_lt (tagValue line)
    exact ⟨hw.addConstructor _, Registry.HasHolder.addConstructor hi⟩
  | function =>
    obtain ⟨hw, hh⟩ := h.ownerEntry line
    exact ⟨hw.addFunction _, hh.addFunction⟩
  | nameSpace => exact ⟨h.setNameSpace _, trivial⟩

theorem Recorder.Sound.after {r : Recorder} (h : r.Sound) (line : Text) : (r.after line).Sound := by
  rcases r.after_cases line with ⟨k, hopen⟩ | hfill
  · rw [hopen]
    exact sound_openPart k h.registry line
  · rw [hfill]
    exact ⟨wellFormed_fill h.registry h.cursor line,
      h.cursor.grows (grows_fill r.cursor r.registry line)⟩

/-! ### Scans -/

theorem Recorder.Sound.read {r : Recorder} (h : r.Sound) (s : Settings) (file : Path)
    (number : Nat) (line : Text) : (r.read s file number line).recorder.Sound :=
  read_keeps (fun now k h => ⟨h.registry, Cursor.inRange_start k now.registry⟩)
    (fun _ h => ⟨h.registry, trivial⟩) (fun h => h.after line) h s file number

theorem wellFormed_scan {r : Registry} (hr : r.WellFormed) (s : Settings) (file : Path)
    (content : Text) : (scan s file content r).recorder.registry.WellFormed := by
  have hstart : Recorder.Sound { registry := r } := ⟨hr, trivial⟩
  have hkept := scanLines_keeps (P := Recorder.Sound)
    (fun now k h => ⟨h.registry, Cursor.inRange_start k now.registry⟩)
    (fun now h => ⟨h.registry, trivial⟩)
    (fun line (_ : line ∈ sourceLines content) now h => h.after line) hstart s file 1
  rw [scan_recorder]
  exact hkept.registry

end LuaReference
