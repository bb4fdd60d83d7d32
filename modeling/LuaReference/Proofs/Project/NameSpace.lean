import LuaReference.Proofs.Annotation.NameSpace
import LuaReference.Proofs.Document.Validated
import LuaReference.Proofs.Project.Scanning
import LuaReference.Proofs.Project.Sources

/-!
# The namespace of a build

An override decides which namespace a build has; without one the last name line of a block about
the namespace does, over all files in the order in which they are scanned; without such a line the
settings do. Every path and every document is made with that namespace: `build_nameSpace`.
-/

namespace LuaReference

/-- The text of a source file as it is scanned. -/
def FileTree.sourceText (t : FileTree) (p : Path) : Text :=
  match t.readBytes p with
  | .error _ => []
  | .ok bytes => LuaReference.sourceText bytes

/-- The values of the name lines in all blocks about the namespace, file by file. -/
def FileTree.spacesIn (t : FileTree) (s : Settings) (paths : List Path) : List Text :=
  paths.flatMap fun p => sourceSpaces s (t.sourceText p)

variable {t : FileTree} {s : Settings} {before so : Scanned} {paths : List Path}

/-! ### One write after another -/

theorem spaceAfter_bind (name : Option Text) (values : List Text) :
    spaceAfter (name.bind nameSpaceOf) values = (values.getLast?.or name).bind nameSpaceOf := by
  rw [spaceAfter]
  cases values.getLast? <;> rfl

theorem filter_bind_nameSpaceOf (name : Option Text) :
    (name.bind nameSpaceOf).filter (· ≠ []) = name.bind nameSpaceOf := by
  cases name with
  | none => rfl
  | some n =>
    rw [Option.bind_some, nameSpaceOf]
    split
    · rfl
    · next h => exact Option.filter_some_pos (by simpa using h)

theorem nameSpace_startRegistry (s : Settings) :
    (FileTree.startRegistry s).nameSpace = s.nameSpace.bind nameSpaceOf := by
  rw [FileTree.startRegistry]
  cases s.nameSpace <;> rfl

theorem nameSpace_override (r : Registry) (name : Option Text) :
    (r.override name).nameSpace = spaceAfter r.nameSpace name.toList := by
  cases name with
  | none => rfl
  | some n => exact Registry.nameSpace_setNameSpace n

theorem nameSpace_scanFile {p : Path} (h : (t.scanFile s before p).result = .ok so) :
    so.registry.nameSpace =
      spaceAfter before.registry.nameSpace (sourceSpaces s (t.sourceText p)) := by
  obtain ⟨bytes, hbytes, hfault, hregistry, -⟩ := scanFile_result.1 h
  have htext : t.sourceText p = sourceText bytes := by
    rw [FileTree.sourceText, hbytes]
  rw [hregistry, htext, nameSpace_scan hfault]

theorem nameSpace_scanFiles (h : (t.scanFiles s before paths).result = .ok so) :
    so.registry.nameSpace = spaceAfter before.registry.nameSpace (t.spacesIn s paths) := by
  induction paths generalizing before with
  | nil =>
    obtain rfl := (Report.done_result _ _).1 h
    rfl
  | cons p paths ih =>
    rw [FileTree.scanFiles, Report.bind_result] at h
    obtain ⟨next, hnext, hrest⟩ := h
    have hspaces : t.spacesIn s (p :: paths) =
        sourceSpaces s (t.sourceText p) ++ t.spacesIn s paths := List.flatMap_cons
    rw [ih hrest, nameSpace_scanFile hnext, hspaces, spaceAfter_append]

/-! ### The whole build -/

/-- The registry of a build has the namespace of the override, or else of the last name line that
sets one, or else of the settings; blanks around it go, and a blank one is none. The files of the
build are the documents of that registry under that namespace. -/
theorem build_nameSpace {p : Project} {override : Option Text} {b : Build}
    (h : (p.build t override).result = .ok b) :
    ∃ paths, (t.collect p.settings p.roots).result = .ok paths ∧
      b.scanned.registry.nameSpace =
        ((override.or (t.spacesIn p.settings paths).getLast?).or p.settings.nameSpace).bind
          nameSpaceOf ∧
      b.scanned.registry.Documented
        ⟨b.scanned.registry.nameSpace, p.settings.globalMarker, p.settings.placeholder⟩
        b.files := by
  obtain ⟨so, hscan, hscanned, hfiles⟩ := build_result.1 h
  obtain ⟨paths, hcollect, hscan⟩ := scanSources_result.1 hscan
  have hnameSpace : b.scanned.registry.nameSpace =
      ((override.or (t.spacesIn p.settings paths).getLast?).or p.settings.nameSpace).bind
        nameSpaceOf := by
    have hlast : override.toList.getLast? = override := by cases override <;> rfl
    rw [hscanned, nameSpace_override, nameSpace_scanFiles hscan, nameSpace_startRegistry,
      ← spaceAfter_append, spaceAfter_bind, List.getLast?_append, hlast]
  refine ⟨paths, hcollect, hnameSpace, ?_⟩
  have hnaming : Naming.of b.scanned.registry p.settings =
      ⟨b.scanned.registry.nameSpace, p.settings.globalMarker, p.settings.placeholder⟩ := by
    rw [Naming.of, Naming.under, hnameSpace, filter_bind_nameSpaceOf]
  rw [← hnaming]
  exact Registry.documented_iff.2 (generate_eq_ok_iff.1 hfiles).2

/-- Two files that name the namespace, under settings that name another one. -/
def spacedSource : FileTree where
  top := .directory <|
    .sub "src".toList (.file "a.cpp".toList
      "// Lua API: Namespace\n// Name: one\nint a;\n// Lua API: Table\n// Name: A\n".toUTF8
      .empty) <|
    .sub "lib".toList (.file "b.cpp".toList
      "// Lua API: Namespace\n// Name:\n// Name: two\n// Table: B\n".toUTF8 .empty) .empty

def spacedProject : Project :=
  ⟨.ofString "src", .ofString "lib", { nameSpace := some "zero".toList }, none⟩

def spacedRegistry : Registry :=
  (({} : Registry).tableEntry "A".toList).1.setNameSpace "two".toList

def spacedBuild : Build where
  scanned := ⟨spacedRegistry, 2, 3⟩
  files := spacedRegistry.documents spacedProject.settings

theorem build_nameSpace_spacedSource :
    (spacedProject.build spacedSource none).result = .ok spacedBuild ∧
      ∃ paths,
        (spacedSource.collect spacedProject.settings spacedProject.roots).result = .ok paths ∧
        spacedRegistry.nameSpace =
          (((none : Option Text).or
            (spacedSource.spacesIn spacedProject.settings paths).getLast?).or
              spacedProject.settings.nameSpace).bind nameSpaceOf ∧
        spacedRegistry.Documented ⟨spacedRegistry.nameSpace, spacedProject.settings.globalMarker,
          spacedProject.settings.placeholder⟩ spacedBuild.files := by
  have hbuild : (spacedProject.build spacedSource none).result = .ok spacedBuild :=
    build_result.2 ⟨spacedBuild.scanned, by decide +kernel, rfl, by decide +kernel⟩
  exact ⟨hbuild, build_nameSpace hbuild⟩

end LuaReference
