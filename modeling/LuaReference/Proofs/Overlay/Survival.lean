import LuaReference.Proofs.Files.Contents
import LuaReference.Proofs.Overlay.Touches
import Mathlib.Control.Monad.Basic

/-!
# Survival of hand-written pages

The pages that a run copies may lie in the output tree. Then the run writes over them, and a page
that is copied onto itself is emptied before it is read. `fragments_survive_iff` says exactly when
every page outlives the run.
-/

namespace LuaReference

/-- A file below one of the directories whose pages a run copies. -/
def FileTree.IsFragment (t : FileTree) (primary out : Path) (s : Settings) (place : List Text)
    (bytes : ByteArray) : Prop :=
  ∃ o ∈ t.overlays primary out s, ∃ names d below,
    t.locate .target o.source = .ok (.found names (.directory d)) ∧
      place = names ++ below ∧ t.entry? place = some (.file bytes)

/-- The touches that come last at a place leave these bytes there, if there are any touches. -/
def LastLeaves (ws : List Touch) (place : List Text) (bytes : ByteArray) : Prop :=
  ∀ w, lastTouch? ws place = some w → w.bytes = some bytes

namespace FileTree

/-- A fragment is no root, so a directory holds it. -/
theorem IsFragment.exists_directory {t : FileTree} {primary out : Path} {s : Settings}
    {place : List Text} {bytes : ByteArray} (h : t.IsFragment primary out s place bytes) :
    ∃ names name d, place = names ++ [name] ∧ t.entry? names = some (.directory d) := by
  obtain ⟨o, -, names, d, below, hlocate, rfl, hfile⟩ := h
  have hnames : t.entry? names = some (.directory d) := locate_holds hlocate
  obtain rfl | ⟨above, name, rfl⟩ := List.eq_nil_or_concat below
  · rw [List.append_nil, hnames] at hfile
    cases hfile
  · rw [List.concat_eq_append, ← List.append_assoc] at hfile ⊢
    obtain ⟨d', hd'⟩ := Entry.exists_directory_of_at? hfile
    exact ⟨names ++ above, name, d', rfl, hd'⟩

theorem Tracks.entry?_iff {t t' : FileTree} {ws : List Touch} (h : t.Tracks ws t')
    {names : List Text} {name : Text} {d : Directory} {bytes : ByteArray}
    (hd : t.entry? names = some (.directory d))
    (hfile : t.entry? (names ++ [name]) = some (.file bytes)) :
    t'.entry? (names ++ [name]) = some (.file bytes) ↔ LastLeaves ws (names ++ [name]) bytes := by
  rw [← bytesAt_eq_some_iff, h.files names d name hd, bytesAt_eq_some_iff.2 hfile, LastLeaves]
  cases lastTouch? ws (names ++ [name]) with
  | none => simp
  | some w => simp

end FileTree

theorem fragment_survives_iff {primary out : Path} {s : Settings} {files : List GeneratedFile}
    {t t' : FileTree} (h : (publish primary out s files).Done t () t') {place : List Text}
    {bytes : ByteArray} (hfragment : t.IsFragment primary out s place bytes) :
    t'.entry? place = some (.file bytes) ↔
      LastLeaves (publishTouches primary out s files t) place bytes := by
  obtain ⟨names, name, d, rfl, hd⟩ := hfragment.exists_directory
  obtain ⟨_, _, _, _, _, _, _, hfile⟩ := hfragment
  exact FileTree.Tracks.entry?_iff (tracks_publish h) hd hfile

/-- Every fragment outlives the run exactly when each one is untouched, or was last left with its
own bytes. -/
theorem fragments_survive_iff {primary out : Path} {s : Settings} {files : List GeneratedFile}
    {t t' : FileTree} (h : (publish primary out s files).Done t () t') :
    (∀ place bytes, t.IsFragment primary out s place bytes →
        t'.entry? place = some (.file bytes)) ↔
      ∀ place bytes, t.IsFragment primary out s place bytes →
        LastLeaves (publishTouches primary out s files t) place bytes := by
  constructor
  · intro hsurvive place bytes hfragment
    exact (fragment_survives_iff h hfragment).1 (hsurvive place bytes hfragment)
  · intro hleft place bytes hfragment
    exact (fragment_survives_iff h hfragment).2 (hleft place bytes hfragment)

/-! ### One page, two output directories -/

/-- A tree with sources in `src` and one hand-written page in `docs/lua/tables`. -/
def handWritten : FileTree where
  top := .directory <| .sub "src".toList .empty <| .sub "docs".toList
    (.sub "lua".toList (.sub "tables".toList (.file "A.md".toList "hand".toUTF8 .empty) .empty)
      .empty) .empty

def handWrittenPage : List Text :=
  ["docs".toList, "lua".toList, "tables".toList, "A.md".toList]

/-- Without sources there is nothing to generate: the run copies the page only. -/
def publishPage (out : Path) : Job Unit := publish (.ofString "src") out {} []

theorem publishPage_elsewhere :
    (publishPage (.ofString "site")).Done handWritten ()
        ((publishPage (.ofString "site")).left handWritten) ∧
      ((∀ place bytes, handWritten.IsFragment (.ofString "src") (.ofString "site") {} place bytes →
          FileTree.entry? ((publishPage (.ofString "site")).left handWritten) place =
            some (.file bytes)) ↔
        ∀ place bytes, handWritten.IsFragment (.ofString "src") (.ofString "site") {} place bytes →
          LastLeaves (publishTouches (.ofString "src") (.ofString "site") {} [] handWritten) place
            bytes) := by
  have hdone : (publishPage (.ofString "site")).Done handWritten ()
      ((publishPage (.ofString "site")).left handWritten) := ⟨rfl, by decide +kernel⟩
  exact ⟨hdone, fragments_survive_iff hdone⟩

/-- With the output in `docs/lua`, the page is copied onto itself: the run ends well, and the page
is empty. -/
theorem publishPage_in_place :
    (publishPage (.ofString "docs/lua")).Done handWritten ()
        ((publishPage (.ofString "docs/lua")).left handWritten) ∧
      handWritten.IsFragment (.ofString "src") (.ofString "docs/lua") {} handWrittenPage
        "hand".toUTF8 ∧
      FileTree.entry? ((publishPage (.ofString "docs/lua")).left handWritten) handWrittenPage =
        some (.file .empty) ∧
      "hand".toUTF8 ≠ .empty := by
  refine ⟨⟨rfl, by decide +kernel⟩, ?_, by decide +kernel, by decide +kernel⟩
  exact ⟨⟨.ofString "src/../docs/lua/tables", .ofString "docs/lua/tables"⟩, by decide +kernel,
    ["docs".toList, "lua".toList, "tables".toList], .file "A.md".toList "hand".toUTF8 .empty,
    ["A.md".toList], by decide +kernel, rfl, by decide +kernel⟩

end LuaReference
