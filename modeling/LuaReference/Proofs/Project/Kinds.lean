import LuaReference.Proofs.Annotation.Refusal
import LuaReference.Proofs.Files.Through
import LuaReference.Proofs.Project.Collected
import LuaReference.Proofs.Project.Sources

/-!
# What kind of entries are collected

A path that is collected leads to a file or to a link. Files can be read, but a link is collected by
its name alone, wherever it leads. So reading the sources is refused exactly where the first link
stands that leads to no file, or where a path is too long.
-/

namespace LuaReference

open FileTree (Allowed)

variable {s : Settings} {rules : List IgnoreRule} {t : FileTree} {d : Directory} {root p : Path}
  {roots paths : List Path} {names : List Text}

/-! ### Collected paths -/

/-- A file or link below one of the roots that is to be collected, and its path. -/
def FileTree.Collected (t : FileTree) (s : Settings) (rules : List IgnoreRule)
    (roots : List Path) (e : Entry) (p : Path) : Prop :=
  ∃ root ∈ roots, ∃ d names, t.list root = .ok d ∧ d.Collects s (.under rules root) root names ∧
    (Entry.directory d).at? names = some e ∧ p = root.descend names

theorem FileTree.Collected.isDirectory {e : Entry} (h : t.Collected s rules roots e p) :
    e.isDirectory = false := by
  obtain ⟨root, -, d, names, -, hc, he, -⟩ := h
  obtain ⟨e', he', hkind⟩ := hc.entry
  rw [he, Option.some.injEq] at he'
  rwa [he']

theorem FileTree.WellNamed.mem_collect (ht : t.WellNamed) (hs : s.Excludes rules)
    (h : (t.collect s roots).result = .ok paths) :
    p ∈ paths ↔ ∃ e, t.Collected s rules roots e p := by
  have hshallow : ¬ t.TooDeep rules roots := by
    intro hdeep
    rw [ht.collect_tooDeep hs hdeep] at h
    cases h
  obtain ⟨below, hbelow, hroots⟩ := ht.collectsAll hs hshallow
  rw [h, Except.ok.injEq] at hbelow
  subst hbelow
  rw [List.mem_flatMap]
  constructor
  · rintro ⟨root, hroot, hp⟩
    obtain ⟨hmem, hdir⟩ := List.mem_filter.1 hroot
    obtain ⟨d, hd⟩ := FileTree.isDirectory_iff_list.1 hdir
    obtain ⟨names, rfl, hc⟩ := ((hroots root hmem d hd).2 p).1 hp
    obtain ⟨e, he, -⟩ := hc.entry
    exact ⟨e, root, hmem, d, names, hd, hc, he, rfl⟩
  · rintro ⟨e, root, hmem, d, names, hd, hc, -, rfl⟩
    refine ⟨root, List.mem_filter.2 ⟨hmem, FileTree.isDirectory_iff_list.2 ⟨d, hd⟩⟩, ?_⟩
    exact ((hroots root hmem d hd).2 _).2 ⟨names, rfl, hc⟩

/-- A path that is collected leads to the entry that it was collected for. A link is not followed
when it is asked for itself. -/
theorem FileTree.WellNamed.locate_collected (ht : t.WellNamed) {e : Entry}
    (h : t.Collected s rules roots e p) (hallowed : Allowed p) {aim : Aim} (haim : aim ≠ .file)
    (hlink : ∀ target, e = .link target → aim = .itself) :
    ∃ place, t.locate aim p = .ok (.found place e) := by
  have hkind := h.isDirectory
  obtain ⟨root, -, d, names, hd, hc, he, rfl⟩ := h
  obtain ⟨place, hroot⟩ := FileTree.list_eq_ok_iff.1 hd
  exact ⟨_, FileTree.locate_below haim hroot (ht.isName_of_collects hd hc) hallowed he hkind hlink⟩

theorem FileTree.WellNamed.entry_collected (ht : t.WellNamed) {bytes : ByteArray}
    (h : t.Collected s rules roots (.file bytes) p) (hallowed : Allowed p) :
    t.entry p = .ok (.file bytes) := by
  have haim : Aim.target ≠ .file := by decide
  obtain ⟨place, hl⟩ := ht.locate_collected h hallowed haim nofun
  rw [FileTree.entry, hl]

/-! ### Reading -/

/-- Scans fail in lines, and are never refused. -/
theorem scan_fault_ne_refused (s : Settings) (file : Path) (content : Text) (r : Registry)
    (why : Refusal) : (scan s file content r).fault ≠ some (.refused why) := by
  intro h
  rw [scan_fault] at h
  obtain ⟨i, -, hline, -⟩ := exists_line_of_fault h
  cases hline

/-- A file is refused exactly when its bytes cannot be read. -/
theorem scanFile_refused_iff {before : Scanned} {why : Refusal} :
    (t.scanFile s before p).result = .error (.refused why) ↔ t.readBytes p = .error why := by
  rw [FileTree.scanFile, Report.bind_result_error]
  cases hread : t.readBytes p with
  | error why' => simp [Report.ofFiles, Report.failed, Report.done]
  | ok bytes =>
    have hfault := scan_fault_ne_refused s p (sourceText bytes) before.registry why
    refine iff_of_false ?_ (by rintro ⟨⟩)
    rintro (herror | ⟨bytes', hbytes, herror⟩)
    · cases herror
    · obtain rfl := Except.ok.inj hbytes
      rw [Report.log_bind_result] at herror
      split at herror
      · next f hf =>
        cases herror
        exact hfault hf
      · cases herror

theorem scanFiles_refused_iff {start : Scanned} {why : Refusal} :
    (t.scanFiles s start paths).result = .error (.refused why) ↔
      ∃ before p after so, paths = before ++ p :: after ∧
        (t.scanFiles s start before).result = .ok so ∧ t.readBytes p = .error why := by
  induction paths generalizing start with
  | nil =>
    refine iff_of_false nofun ?_
    rintro ⟨before, p, after, -, hpaths, -⟩
    exact absurd hpaths.symm (by simp)
  | cons first paths ih =>
    rw [FileTree.scanFiles, Report.bind_result_error, scanFile_refused_iff]
    constructor
    · rintro (hread | ⟨next, hnext, hrest⟩)
      · exact ⟨[], first, paths, start, rfl, rfl, hread⟩
      · obtain ⟨before, p, after, so, rfl, hbefore, hread⟩ := ih.1 hrest
        refine ⟨first :: before, p, after, so, rfl, ?_, hread⟩
        rw [FileTree.scanFiles, Report.bind_result]
        exact ⟨next, hnext, hbefore⟩
    · rintro ⟨before, p, after, so, hpaths, hbefore, hread⟩
      cases before with
      | nil =>
        cases hpaths
        exact Or.inl hread
      | cons first' before =>
        cases hpaths
        rw [FileTree.scanFiles, Report.bind_result] at hbefore
        obtain ⟨next, hnext, hbefore⟩ := hbefore
        exact Or.inr ⟨next, hnext, ih.2 ⟨before, p, after, so, rfl, hbefore, hread⟩⟩

theorem scanSources_refused_iff {why : Refusal} (h : (t.collect s roots).result = .ok paths) :
    (t.scanSources s roots).result = .error (.refused why) ↔
      (t.scanFiles s { registry := FileTree.startRegistry s } paths).result =
        .error (.refused why) := by
  rw [FileTree.scanSources, Report.bind_result_error, h]
  constructor
  · rintro (herror | ⟨paths', hpaths, herror⟩)
    · cases herror
    · obtain rfl := Except.ok.inj hpaths
      rcases Report.bind_result_error.1 herror with herror | ⟨all, -, herror⟩
      · exact herror
      · rw [Report.log_bind_result] at herror
        cases herror
  · exact fun herror => Or.inr ⟨paths, rfl, Report.bind_result_error.2 (Or.inl herror)⟩

/-! ### Files and links -/

/-- What is collected is a file, which can be read, or a link, which may lead anywhere: all of it
leads to files exactly when all links do that are collected. Reading the sources is refused exactly
where the first path stands that cannot be read, for the reason why it cannot. -/
theorem collected_files_and_links (ht : t.WellNamed) (hs : s.Excludes rules)
    (h : (t.collect s roots).result = .ok paths) :
    (∀ p ∈ paths, Allowed p → ∃ place e, t.locate .itself p = .ok (.found place e) ∧
        e.isDirectory = false ∧ ∀ bytes, e = .file bytes → t.readBytes p = .ok bytes) ∧
      ((∀ p ∈ paths, Allowed p) → ((∀ p ∈ paths, t.isFile p = true) ↔
        ∀ target p, t.Collected s rules roots (.link target) p → t.isFile p = true)) ∧
      ∀ why, (t.scanSources s roots).result = .error (.refused why) ↔
        ∃ before p after so, paths = before ++ p :: after ∧
          (t.scanFiles s { registry := FileTree.startRegistry s } before).result = .ok so ∧
            t.readBytes p = .error why := by
  have hmem : ∀ p, p ∈ paths ↔ ∃ e, t.Collected s rules roots e p := fun p => ht.mem_collect hs h
  refine ⟨?_, ?_, fun why => (scanSources_refused_iff h).trans scanFiles_refused_iff⟩
  · intro p hp hallowed
    obtain ⟨e, he⟩ := (hmem p).1 hp
    have haim : Aim.itself ≠ .file := by decide
    obtain ⟨place, hl⟩ := ht.locate_collected he hallowed haim fun _ _ => rfl
    refine ⟨place, e, hl, he.isDirectory, ?_⟩
    rintro bytes rfl
    rw [FileTree.readBytes, ht.entry_collected he hallowed]
  · intro hallowed
    constructor
    · exact fun hfiles target p he => hfiles p ((hmem p).2 ⟨_, he⟩)
    · intro hlinks p hp
      obtain ⟨e, he⟩ := (hmem p).1 hp
      cases e with
      | directory d => cases he.isDirectory
      | link target => exact hlinks target p he
      | file bytes => rw [FileTree.isFile, ht.entry_collected he (hallowed p hp)]

/-! ### A link to nothing and a link to a directory -/

/-- A source root with nothing in it but a link, and a directory next to it. -/
def linkedSource (target : String) : FileTree where
  top := .directory <| .sub "docs".toList .empty <|
    .sub "src".toList (.link "a.cpp".toList (.ofString target) .empty) .empty

theorem collected_files_and_links_dangling :
    (linkedSource "nowhere").WellNamed ∧ ({} : Settings).Excludes [] ∧
      ((linkedSource "nowhere").collect {} [.ofString "src"]).result =
        .ok [.ofString "src/a.cpp"] ∧
      ((linkedSource "nowhere").scanSources {} [.ofString "src"]).result =
        .error (.refused .missing) := by
  have ht : (linkedSource "nowhere").WellNamed := ⟨by decide +kernel, by decide +kernel⟩
  have hs : ({} : Settings).Excludes [] := ⟨rfl, rfl⟩
  have hcollect : ((linkedSource "nowhere").collect {} [.ofString "src"]).result =
      .ok [.ofString "src/a.cpp"] := by decide +kernel
  have hread : (linkedSource "nowhere").readBytes (.ofString "src/a.cpp") = .error .missing := by
    decide +kernel
  obtain ⟨-, -, hscan⟩ := collected_files_and_links ht hs hcollect
  exact ⟨ht, hs, hcollect, (hscan .missing).2 ⟨[], _, [], _, rfl, rfl, hread⟩⟩

/-- Links that lead to nothing or to a directory are collected, and stop the reading. -/
theorem links_stop_reading :
    (∃ p, ((linkedSource "nowhere").collect {} [.ofString "src"]).result = .ok [p] ∧
        (linkedSource "nowhere").isFile p = false) ∧
      ((linkedSource "nowhere").scanSources {} [.ofString "src"]).result =
        .error (.refused .missing) ∧
      (∃ p, ((linkedSource "../docs").collect {} [.ofString "src"]).result = .ok [p] ∧
        (linkedSource "../docs").isFile p = false) ∧
      ((linkedSource "../docs").scanSources {} [.ofString "src"]).result =
        .error (.refused .isDirectory) := by
  refine ⟨⟨.ofString "src/a.cpp", ?_⟩, ?_, ⟨.ofString "src/a.cpp", ?_⟩, ?_⟩ <;> decide +kernel

end LuaReference
