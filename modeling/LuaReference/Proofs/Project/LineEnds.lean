import LuaReference.Proofs.Files.Contents
import LuaReference.Proofs.Files.Skeleton
import LuaReference.Proofs.Project.Sources
import LuaReference.Proofs.Text.LineEnds

/-!
# Line ends of source files

Which files are read depends on their names alone, and what is read of a file does not depend on
the line ends in it. So sources may have any line ends: `line_ends_normalized`.
-/

namespace LuaReference

/-- The files have the same lines: they are the same, or each of them has one line end throughout. -/
def SameLines (b b' : ByteArray) : Prop :=
  b' = b ∨ ∃ ls : List Text, (∀ l ∈ ls, l.Unbroken) ∧ ∃ sep ∈ Text.lineEnds, ∃ sep' ∈ Text.lineEnds,
    b = Text.utf8 (Text.join sep ls) ∧ b' = Text.utf8 (Text.join sep' ls)

theorem sourceText_of_sameLines {b b' : ByteArray} (h : SameLines b b') :
    sourceText b' = sourceText b := by
  obtain rfl | ⟨ls, hls, sep, hsep, sep', hsep', rfl, rfl⟩ := h
  · rfl
  · rw [sourceText, sourceText, Text.ofUtf8Lossy_utf8, Text.ofUtf8Lossy_utf8,
      Text.normalizeLineEnds_join hsep hls, Text.normalizeLineEnds_join hsep' hls]

/-- The source files of a directory are known by its names. -/
theorem Directory.sources_skeleton (s : Settings) (x : Exclusion) (p : Path) (d : Directory) :
    d.skeleton.sources s x p = d.sources s x p := by
  induction d generalizing p with
  | empty => rfl
  | file n b rest ih => rw [skeleton, sources, sources, ih]
  | link n target rest ih => rw [skeleton, sources, sources, ih]
  | sub n inner rest ihInner ih => rw [skeleton, sources, sources, ihInner, ih]

theorem Entry.kind_skeleton (e : Entry) : e.skeleton.kind = e.kind := by
  cases e <;> rfl

/-- Work goes on alike from what it cannot tell apart. -/
theorem Report.ofFiles_bind_congr {α β γ : Type} {x x' : Except Refusal α} {g : α → γ}
    (h : x'.map g = x.map g) {f : α → Report β} (hf : ∀ a a', g a' = g a → f a' = f a) :
    (ofFiles x' >>= f) = (ofFiles x >>= f) := by
  cases x with
  | error why =>
    cases x' with
    | error why' =>
      cases h
      rfl
    | ok a' => cases h
  | ok a =>
    cases x' with
    | error why' => cases h
    | ok a' => exact hf a a' (Except.ok.inj h)

namespace FileTree

/-- The trees differ at most in the line ends of files. -/
structure SameSources (t t' : FileTree) : Prop where
  here : t'.here = t.here
  top : t'.top.skeleton = t.top.skeleton
  files : ∀ place b b', t.entry? place = some (.file b) → t'.entry? place = some (.file b') →
    SameLines b b'

namespace SameSources

variable {t t' : FileTree} (h : t.SameSources t')
include h

theorem sameSkeleton (place : List Text) : SameSkeleton place t t' := by
  rw [SameSkeleton, entry?, entry?, ← Entry.at?_skeleton, h.top, Entry.at?_skeleton]

theorem sameKinds : t.SameKinds t' := by
  intro names
  have hskeleton := congrArg (Option.map Entry.kind) (h.sameSkeleton names)
  rw [Option.map_map, Option.map_map] at hskeleton
  have hkind : Entry.kind ∘ Entry.skeleton = Entry.kind := funext Entry.kind_skeleton
  rw [hkind] at hskeleton
  exact hskeleton.symm

/-- What stands at one place in both trees is of one kind. -/
theorem entry?_cases {place : List Text} {e e' : Entry} (he : t.entry? place = some e)
    (he' : t'.entry? place = some e') :
    (∃ b b', e = .file b ∧ e' = .file b' ∧ SameLines b b') ∨
      (∃ target, e = .link target ∧ e' = .link target) ∨
        ∃ d d', e = .directory d ∧ e' = .directory d' ∧ d'.skeleton = d.skeleton := by
  have hskeleton := h.sameSkeleton place
  rw [SameSkeleton, he, he', Option.map_some, Option.map_some, Option.some.injEq] at hskeleton
  cases e with
  | file b =>
    cases e' with
    | file b' => exact Or.inl ⟨b, b', rfl, rfl, h.files place b b' he he'⟩
    | link target => cases hskeleton
    | directory d => cases hskeleton
  | link target =>
    cases e' with
    | file b' => cases hskeleton
    | link target' =>
      cases hskeleton
      exact Or.inr (Or.inl ⟨target, rfl, rfl⟩)
    | directory d => cases hskeleton
  | directory d =>
    cases e' with
    | file b' => cases hskeleton
    | link target => cases hskeleton
    | directory d' => exact Or.inr (Or.inr ⟨d, d', rfl, rfl, Entry.directory.inj hskeleton⟩)

/-- A path is refused in both trees for one reason, or it leads to one place in both. -/
theorem entry_cases (p : Path) :
    (∃ why, t.entry p = .error why ∧ t'.entry p = .error why) ∨
      ∃ place e e', t.entry? place = some e ∧ t'.entry? place = some e' ∧
        t.entry p = .ok e ∧ t'.entry p = .ok e' := by
  have houtline := locate_outline h.sameKinds h.here.symm .target p
  rw [entry, entry]
  cases hl : t.locate .target p with
  | error why =>
    cases hl' : t'.locate .target p with
    | error why' =>
      rw [hl, hl'] at houtline
      cases houtline
      exact Or.inl ⟨why, rfl, rfl⟩
    | ok l' =>
      rw [hl, hl'] at houtline
      cases houtline
  | ok l =>
    cases hl' : t'.locate .target p with
    | error why' =>
      rw [hl, hl'] at houtline
      cases houtline
    | ok l' =>
      rw [hl, hl'] at houtline
      have hsame : l.outline = l'.outline := Except.ok.inj houtline
      cases l with
      | vacant names name =>
        cases l' with
        | vacant names' name' => exact Or.inl ⟨.missing, rfl, rfl⟩
        | found place' e' => cases hsame
      | found place e =>
        cases l' with
        | vacant names' name' => cases hsame
        | found place' e' =>
          obtain rfl : place = place' := (Located.found.inj hsame).1
          exact Or.inr ⟨place, e, e', locate_holds hl, locate_holds hl', rfl, rfl⟩

theorem list (p : Path) :
    (t'.list p).map Directory.skeleton = (t.list p).map Directory.skeleton := by
  rw [FileTree.list, FileTree.list]
  obtain ⟨why, hp, hp'⟩ | ⟨place, e, e', he, he', hp, hp'⟩ := h.entry_cases p
  · rw [hp, hp']
  · rw [hp, hp']
    obtain ⟨b, b', rfl, rfl, -⟩ | ⟨target, rfl, rfl⟩ | ⟨d, d', rfl, rfl, hd⟩ :=
      h.entry?_cases he he'
    · rfl
    · rfl
    · exact congrArg Except.ok hd

theorem readBytes (p : Path) :
    (t'.readBytes p).map sourceText = (t.readBytes p).map sourceText := by
  rw [FileTree.readBytes, FileTree.readBytes]
  obtain ⟨why, hp, hp'⟩ | ⟨place, e, e', he, he', hp, hp'⟩ := h.entry_cases p
  · rw [hp, hp']
  · rw [hp, hp']
    obtain ⟨b, b', rfl, rfl, hlines⟩ | ⟨target, rfl, rfl⟩ | ⟨d, d', rfl, rfl, -⟩ :=
      h.entry?_cases he he'
    · exact congrArg Except.ok (sourceText_of_sameLines hlines)
    · rfl
    · rfl

/-! ### Scanning -/

theorem isDirectory (p : Path) : t'.isDirectory p = t.isDirectory p := by
  rw [FileTree.isDirectory, FileTree.isDirectory]
  obtain ⟨why, hp, hp'⟩ | ⟨place, e, e', he, he', hp, hp'⟩ := h.entry_cases p
  · rw [hp, hp']
  · rw [hp, hp']
    obtain ⟨b, b', rfl, rfl, -⟩ | ⟨target, rfl, rfl⟩ | ⟨d, d', rfl, rfl, -⟩ :=
      h.entry?_cases he he'
    · rfl
    · rfl
    · rfl

theorem collectRoot (s : Settings) (root : Path) : t'.collectRoot s root = t.collectRoot s root := by
  rw [FileTree.collectRoot, FileTree.collectRoot, h.isDirectory]
  split
  · refine congrArg _ (funext fun x => Report.ofFiles_bind_congr (h.list root) ?_)
    intro d d' hskeleton
    have hsources : d'.sources s x root = d.sources s x root := by
      rw [← d'.sources_skeleton, hskeleton, d.sources_skeleton]
    rw [hsources]
  · rfl

theorem collect (s : Settings) (roots : List Path) : t'.collect s roots = t.collect s roots := by
  induction roots with
  | nil => rfl
  | cons root roots ih => rw [FileTree.collect, FileTree.collect, h.collectRoot, ih]

theorem scanFile (s : Settings) (before : Scanned) (p : Path) :
    t'.scanFile s before p = t.scanFile s before p := by
  rw [FileTree.scanFile, FileTree.scanFile]
  refine Report.ofFiles_bind_congr (h.readBytes p) ?_
  intro b b' htext
  rw [sourceText, sourceText] at htext
  rw [htext]

theorem scanFiles (s : Settings) (before : Scanned) (paths : List Path) :
    t'.scanFiles s before paths = t.scanFiles s before paths := by
  induction paths generalizing before with
  | nil => rfl
  | cons p paths ih =>
    rw [FileTree.scanFiles, FileTree.scanFiles, h.scanFile]
    exact congrArg _ (funext fun next => ih next)

theorem scanSources (s : Settings) (roots : List Path) :
    t'.scanSources s roots = t.scanSources s roots := by
  rw [FileTree.scanSources, FileTree.scanSources, h.collect]
  refine congrArg _ (funext fun paths => ?_)
  rw [h.scanFiles]

end SameSources

/-- A file may be written with one line end or with another. -/
theorem sameSources_setEntry {t : FileTree} {place : List Text} {old b b' : ByteArray}
    (hplace : t.entry? place = some (.file old)) (h : SameLines b b') :
    SameSources (t.setEntry place (some (.file b))) (t.setEntry place (some (.file b'))) where
  here := rfl
  top := by
    have hkept : ∀ bytes, (t.setEntry place (some (.file bytes))).top.skeleton = t.top.skeleton :=
      fun bytes => Entry.skeleton_setAt hplace rfl
    rw [hkept, hkept]
  files := by
    intro names c c' hc hc'
    by_cases hne : names = place
    · subst hne
      rw [entry?_setEntry_file hplace, Option.some.injEq] at hc hc'
      cases hc
      cases hc'
      exact h
    · have hnot := not_directory_of_ne hplace (fun d h => by cases h)
      have hkept : ∀ bytes, bytesAt (t.setEntry place (some (.file bytes))) names =
          t.bytesAt names := fun bytes =>
        bytesAt_congr (shape_entry?_setEntry (Entry.bare_file (some bytes)) hnot hne)
      have hbytes := (bytesAt_eq_some_iff.2 hc).symm.trans (hkept b)
      have hbytes' := (bytesAt_eq_some_iff.2 hc').symm.trans (hkept b')
      exact Or.inl (Option.some.inj (hbytes'.trans hbytes.symm))

end FileTree

/-- Normalizing is one pass that makes one line feed of each pair of carriage return and line feed
and of each other carriage return. It leaves no carriage return, so a second one changes nothing,
and lines that are joined with any one line end come to the same text. So sources that differ in
their line ends only are scanned alike, down to the notices. -/
theorem line_ends_normalized :
    (∀ t : Text, t.normalizeLineEnds = t.withFeeds) ∧
      (∀ t : Text, '\r' ∉ t.normalizeLineEnds) ∧
      (∀ t : Text, t.normalizeLineEnds.normalizeLineEnds = t.normalizeLineEnds) ∧
      (∀ ls : List Text, (∀ l ∈ ls, l.Unbroken) → ∀ sep ∈ Text.lineEnds,
        (Text.join sep ls).normalizeLineEnds = Text.join ['\n'] ls) ∧
      ∀ (s : Settings) (roots : List Path) (t t' : FileTree), t.SameSources t' →
        t'.scanSources s roots = t.scanSources s roots := by
  refine ⟨Text.normalizeLineEnds_eq_withFeeds, Text.noReturn_normalizeLineEnds, ?_, ?_, ?_⟩
  · intro t
    exact Text.normalizeLineEnds_of_noReturn (Text.noReturn_normalizeLineEnds t)
  · intro ls hls sep hsep
    exact Text.normalizeLineEnds_join hsep hls
  · intro s roots t t' h
    exact h.scanSources s roots

/-- The lines of a source with an empty line inside and a line end behind the last one. -/
def terminatedLines : List Text :=
  ["// Lua API: Table".toList, "// Name: t".toList, [], "int a;".toList, []]

def emptySource : FileTree where
  top := .directory <| .sub "src".toList (.file "a.cpp".toList .empty .empty) .empty

/-- The source root with these lines in its file. -/
def linesJoined (sep : Text) : FileTree :=
  emptySource.setEntry ["src".toList, "a.cpp".toList]
    (some (.file (Text.utf8 (Text.join sep terminatedLines))))

theorem line_ends_normalized_terminatedLines :
    (∀ l ∈ terminatedLines, l.Unbroken) ∧ ['\r'] ∈ Text.lineEnds ∧
      (Text.join ['\r'] terminatedLines).normalizeLineEnds = Text.join ['\n'] terminatedLines ∧
      (linesJoined ['\r', '\n']).SameSources (linesJoined ['\r']) ∧
      (linesJoined ['\r']).scanSources {} [.ofString "src"] =
        (linesJoined ['\r', '\n']).scanSources {} [.ofString "src"] := by
  have hlines : ∀ l ∈ terminatedLines, l.Unbroken := by decide
  have hsep : ['\r'] ∈ Text.lineEnds := by decide
  have hpair : ['\r', '\n'] ∈ Text.lineEnds := by decide
  have hfile : emptySource.entry? ["src".toList, "a.cpp".toList] = some (.file .empty) := rfl
  have hsame : (linesJoined ['\r', '\n']).SameSources (linesJoined ['\r']) :=
    FileTree.sameSources_setEntry hfile
      (Or.inr ⟨terminatedLines, hlines, _, hpair, _, hsep, rfl, rfl⟩)
  obtain ⟨-, -, -, hjoin, hscan⟩ := line_ends_normalized
  exact ⟨hlines, hsep, hjoin _ hlines _ hsep, hsame, hscan {} _ _ _ hsame⟩

end LuaReference
