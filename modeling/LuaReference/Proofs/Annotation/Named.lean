import LuaReference.Proofs.Annotation.Invariant
import LuaReference.Proofs.Registry.Named

/-!
# Name lines

The names that the lines of sources give to functions, in the order in which they are read. All
names of functions and the index of names follow from them, whether the scans fail or not. A name
that was given again and again leads to the function that was given it last, also when that function
has another name by now.
-/

namespace LuaReference

open Registry (NamedBy)

/-! ### One line -/

/-- The name that a comment line gives, and the function it gives it to: it is tagged as a name, and
the owner of the function has been named. -/
def Recorder.given? (r : Recorder) (line : Text) : Option (Text × Place) :=
  match r.cursor with
  | .function (some p) =>
    if Kind.function.opens line = false ∧ tagged "name" line then some (tagValue line, p) else none
  | _ => none

/-- The name that a line gives. Headers and lines without a comment mark give none. -/
def Recorder.naming? (r : Recorder) (s : Settings) (line : Text) : Option (Text × Place) :=
  if isHeader s line.lower = false ∧ line.contains commentMark then r.given? line else none

theorem namedBy_ownerEntry (r : Registry) (line : Text) : NamedBy [] r (r.ownerEntry line).1 := by
  rw [Registry.ownerEntry]
  split
  · exact Registry.namedBy_tableEntry _
  · exact Registry.namedBy_classEntry _

theorem namedBy_openPart (k : Kind) (r : Registry) (line : Text) :
    NamedBy [] r (k.openPart r line).registry := by
  cases k with
  | table => exact Registry.namedBy_tableEntry _
  | ofClass => exact Registry.namedBy_classEntry _
  | field => exact (namedBy_ownerEntry r line).trans (Registry.namedBy_addField _)
  | constructor => exact (Registry.namedBy_classEntry _).trans (Registry.namedBy_addConstructor _)
  | function => exact (namedBy_ownerEntry r line).trans (Registry.namedBy_addFunction _)
  | nameSpace => exact Registry.namedBy_setNameSpace _

theorem extendFunction_name (line : Text) (f : Function) :
    (Recorder.extendFunction line f).name = f.name := by
  rw [Recorder.extendFunction]
  split
  · rfl
  · split <;> rfl

theorem extendClass_functions (line : Text) (c : Class) :
    (Recorder.extendClass line c).functions = c.functions := by
  rw [Recorder.extendClass, Class.inherit]
  split
  · split <;> rfl
  · rfl

/-- Lines of a block about a function give names when they say so. -/
theorem namedBy_fill_function {r : Registry} {p : Place} (hp : r.HasFunction p) (line : Text) :
    NamedBy (if tagged "name" line then [(tagValue line, p)] else []) r
      ((Cursor.function (some p)).fill r line) := by
  rw [Cursor.fill]
  split
  · exact Registry.namedBy_name hp fun _ => rfl
  · exact Registry.namedBy_modifyFunction p (extendFunction_name line)

/-- Lines of other blocks give no names. -/
theorem namedBy_fill_other {c : Cursor} (hc : ∀ p, c ≠ .function (some p)) (r : Registry)
    (line : Text) : NamedBy [] r (c.fill r line) := by
  apply Cursor.fill_keeps (Registry.NamedBy.refl r)
  case table =>
    intro i _
    exact Registry.namedBy_modifyTable i fun _ _ => rfl
  case ofClass =>
    intro i _
    exact Registry.namedBy_modifyClass i fun c j => by rw [extendClass_functions]
  case field =>
    intro p _
    exact Registry.namedBy_modifyFields p.holder _
  case constructor =>
    intro i j _
    exact Registry.namedBy_modifyClass i fun _ _ => rfl
  case name =>
    intro p h
    exact absurd h (hc p)
  case function =>
    intro p h
    exact absurd h (hc p)

theorem namedBy_after {r : Recorder} (hr : r.Sound) (line : Text) :
    NamedBy (r.given? line).toList r.registry (r.after line).registry := by
  by_cases hc : ∃ p, r.cursor = .function (some p)
  · obtain ⟨p, hp⟩ := hc
    have hfunction : r.registry.HasFunction p := by
      have hrange := hr.cursor
      rwa [hp] at hrange
    simp only [Recorder.after, Recorder.given?, hp, Cursor.kind?]
    by_cases hopens : Kind.function.opens line = true
    · rw [if_pos hopens, if_neg (by simp [hopens])]
      exact namedBy_openPart .function r.registry line
    · have hfill := namedBy_fill_function hfunction line
      rw [if_neg hopens]
      by_cases hname : tagged "name" line = true
      · rw [if_pos ⟨by simpa using hopens, hname⟩]
        rwa [if_pos hname] at hfill
      · rw [if_neg fun h => hname h.2]
        rwa [if_neg hname] at hfill
  · rw [not_exists] at hc
    have hnone : r.given? line = none := by
      rw [Recorder.given?]
      split
      · exact absurd ‹_› (hc _)
      · rfl
    rw [hnone]
    rcases r.after_cases line with ⟨k, hopen⟩ | hfill
    · rw [hopen]
      exact namedBy_openPart k r.registry line
    · rw [hfill]
      exact namedBy_fill_other hc r.registry line

theorem namedBy_read {r : Recorder} (hr : r.Sound) (s : Settings) (file : Path) (number : Nat)
    (line : Text) : NamedBy (r.naming? s line).toList r.registry
      (r.read s file number line).recorder.registry := by
  by_cases hh : isHeader s line.lower = true
  · have hnone : r.naming? s line = none := if_neg fun h => by rw [hh] at h; cases h.1
    rw [hnone, Recorder.read, if_pos hh]
    cases headerKind? line with
    | some k => exact .refl r.registry
    | none => exact .refl r.registry
  · rw [read_recorder_of_not_header r s file number line (by simpa using hh), Recorder.naming?]
    by_cases hm : line.contains commentMark = true
    · rw [if_pos hm, if_pos ⟨by simpa using hh, hm⟩]
      exact namedBy_after hr line
    · rw [if_neg hm, if_neg fun h => hm h.2]
      exact .refl r.registry

/-! ### One source -/

/-- The names that lines give, one after another, until one line fails. -/
def namings (s : Settings) (file : Path) : Nat → Recorder → List Text → List (Text × Place)
  | _, _, [] => []
  | number, r, line :: rest =>
    (r.naming? s line).toList ++
      match (r.read s file number line).fault with
      | some _ => []
      | none => namings s file (number + 1) (r.read s file number line).recorder rest

theorem namedBy_scanLines {r : Recorder} (hr : r.Sound) (s : Settings) (file : Path)
    (number : Nat) (lines : List Text) : NamedBy (namings s file number r lines) r.registry
      (scanLines s file number r lines).recorder.registry := by
  induction lines generalizing number r with
  | nil => exact .refl r.registry
  | cons line lines ih =>
    have hread := namedBy_read hr s file number line
    rw [scanLines, namings]
    cases (r.read s file number line).fault with
    | some f => simpa using hread
    | none => exact hread.trans (ih (hr.read s file number line) (number + 1))

/-! ### All sources -/

structure Source where
  settings : Settings
  file : Path
  content : Text

/-- The registry after a source is scanned into it. If the scan fails, what was recorded up to the
failing line stays. -/
def Registry.withSource (r : Registry) (source : Source) : Registry :=
  (scan source.settings source.file source.content r).recorder.registry

def Registry.withSources : Registry → List Source → Registry
  | r, [] => r
  | r, source :: rest => (r.withSource source).withSources rest

/-- The names that the lines of sources give, source after source. -/
def Registry.namingsOf : Registry → List Source → List (Text × Place)
  | _, [] => []
  | r, source :: rest =>
    namings source.settings source.file 1 { registry := r } (sourceLines source.content) ++
      (r.withSource source).namingsOf rest

namespace Registry.WellFormed

variable {r : Registry}

theorem withSources (h : r.WellFormed) (sources : List Source) :
    (r.withSources sources).WellFormed := by
  induction sources generalizing r with
  | nil => exact h
  | cons source sources ih =>
    exact ih (wellFormed_scan h source.settings source.file source.content)

theorem namedBy_withSources (h : r.WellFormed) (sources : List Source) :
    NamedBy (r.namingsOf sources) r (r.withSources sources) := by
  induction sources generalizing r with
  | nil => exact .refl r
  | cons source sources ih =>
    have hfirst := namedBy_scanLines (r := { registry := r }) ⟨h, trivial⟩ source.settings
      source.file 1 (sourceLines source.content)
    rw [← scan_recorder source.settings source.file source.content r] at hfirst
    exact hfirst.trans (ih (wellFormed_scan h source.settings source.file source.content))

end Registry.WellFormed

/-! ### The index of names -/

/-- Functions are called what they were named last. The index has a function for each name that was
ever given, the one that it was given to last, whatever that is called now. So it finds functions by
a name exactly when the one that was given the name last was given no other name since. -/
theorem indexed_by_last_naming (sources : List Source) (name : Text) :
    let r := ({} : Registry).withSources sources
    let given := ({} : Registry).namingsOf sources
    (∀ p f, r.functionAt? p = some f → f.name = (lastName given p).getD unnamed) ∧
      ((r.function? name).isSome ↔ ∃ p, (name, p) ∈ given) ∧
      (∀ p, lastPlace given name = some p →
        ∃ f, r.function? name = some f ∧ r.functionAt? p = some f ∧
          lastName given p = some f.name) ∧
      (r.FindsByName given name ↔
        ∀ p, lastPlace given name = some p → lastName given p = some name) := by
  intro r given
  have hr : r.WellFormed := Registry.wellFormed_empty.withSources sources
  have hnamed : NamedBy given {} r := Registry.wellFormed_empty.namedBy_withSources sources
  exact ⟨fun _ _ hf => hnamed.name_eq hf, hnamed.isSome_function?_iff hr,
    fun _ hp => hnamed.exists_function? hr hp, hnamed.findsByName_iff hr⟩

/-- A function that is named and then named again. -/
def renamed : Source where
  settings := {}
  file := sampleFile
  content := "// Lua API: Function\n// Table: t\n// Name: a\n// Name: b\n".toList

/-- The first name still leads to the function, which has the second one. -/
theorem renamed_found_by_first_name :
    (({} : Registry).withSources [renamed]).function? "a".toList =
        some { name := "b".toList, owner := .table "t".toList } ∧
      ¬ (({} : Registry).withSources [renamed]).FindsByName (({} : Registry).namingsOf [renamed])
        "a".toList := by
  have hfound : (({} : Registry).withSources [renamed]).function? "a".toList =
      some { name := "b".toList, owner := .table "t".toList } := by decide +kernel
  refine ⟨hfound, ?_⟩
  rintro ⟨-, hcalled⟩
  exact absurd (hcalled _ hfound) (by decide)

end LuaReference
