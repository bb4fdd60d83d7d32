import LuaReference.Proofs.Files.Frame

/-!
# Touched places

Work on a file tree touches places: it removes what is there, or leaves a file there.
`FileTree.Tracks` says that a list of touches accounts for all that became of the files of a tree,
with one lemma for each kind of change.
-/

namespace LuaReference

/-- A place in a file tree and the file that is left there, if any. -/
structure Touch where
  place : List Text
  bytes : Option ByteArray
  deriving DecidableEq

def lastTouch? (touches : List Touch) (place : List Text) : Option Touch :=
  touches.reverse.find? fun w => w.place = place

namespace FileTree

def bytesAt (t : FileTree) (place : List Text) : Option ByteArray :=
  match t.entry? place with
  | some (.file bytes) => some bytes
  | _ => none

theorem bytesAt_eq_some_iff {t : FileTree} {place : List Text} {bytes : ByteArray} :
    t.bytesAt place = some bytes ↔ t.entry? place = some (.file bytes) := by
  rw [bytesAt]
  cases t.entry? place with
  | none => simp
  | some e => cases e <;> simp

/-- Directories stay, and a file that can be is what its place was last left with. -/
structure Tracks (t : FileTree) (touches : List Touch) (t' : FileTree) : Prop where
  directories : ∀ names d, t.entry? names = some (.directory d) →
    ∃ d', t'.entry? names = some (.directory d')
  files : ∀ names d name, t.entry? names = some (.directory d) →
    t'.bytesAt (names ++ [name]) =
      match lastTouch? touches (names ++ [name]) with
      | none => t.bytesAt (names ++ [name])
      | some w => w.bytes

/-! ### Composition -/

theorem lastTouch?_append (ws ws' : List Touch) (place : List Text) :
    lastTouch? (ws ++ ws') place = (lastTouch? ws' place).or (lastTouch? ws place) := by
  rw [lastTouch?, List.reverse_append, List.find?_append]
  rfl

theorem Tracks.refl (t : FileTree) : t.Tracks [] t :=
  ⟨fun _ d h => ⟨d, h⟩, fun _ _ _ _ => rfl⟩

theorem Tracks.trans {t t' t'' : FileTree} {ws ws' : List Touch} (h : t.Tracks ws t')
    (h' : t'.Tracks ws' t'') : t.Tracks (ws ++ ws') t'' where
  directories := by
    intro names d hd
    obtain ⟨d', hd'⟩ := h.directories names d hd
    exact h'.directories names d' hd'
  files := by
    intro names d name hd
    obtain ⟨d', hd'⟩ := h.directories names d hd
    rw [h'.files names d' name hd', lastTouch?_append]
    cases lastTouch? ws' (names ++ [name]) with
    | none => exact h.files names d name hd
    | some w => rfl

/-- Nothing is touched at first. -/
theorem Tracks.after {t t' t'' : FileTree} {ws : List Touch} (h : t'.Tracks ws t'')
    (hmade : t.Tracks [] t') : t.Tracks ws t'' :=
  List.nil_append ws ▸ hmade.trans h

/-! ### One change -/

def setEntry (t : FileTree) (place : List Text) (v : Option Entry) : FileTree :=
  { t with top := t.top.setAt v place }

theorem shape_entry?_setEntry {t : FileTree} {place names : List Text} {v : Option Entry}
    (hv : Entry.Bare v) (hplace : ∀ d, t.entry? place ≠ some (.directory d))
    (hne : names ≠ place) :
    (FileTree.entry? (t.setEntry place v) names).map Entry.shape =
      (t.entry? names).map Entry.shape :=
  Entry.shape_at?_setAt_of_ne hv hplace hne

theorem bytesAt_congr {t t' : FileTree} {place : List Text}
    (h : (t'.entry? place).map Entry.shape = (t.entry? place).map Entry.shape) :
    t'.bytesAt place = t.bytesAt place := by
  rw [bytesAt, bytesAt]
  cases he : t.entry? place with
  | none =>
    rw [he] at h
    rw [Option.map_eq_none_iff.1 h]
  | some e =>
    rw [he] at h
    obtain ⟨e', he', hshape⟩ := Option.map_eq_some_iff.1 h
    rw [he']
    cases e <;> cases e' <;> simp_all [Entry.shape]

theorem directories_setEntry {t : FileTree} {place : List Text} {v : Option Entry}
    (hv : Entry.Bare v) (hplace : ∀ d, t.entry? place ≠ some (.directory d)) (names : List Text)
    (d : Directory) (hd : t.entry? names = some (.directory d)) :
    ∃ d', FileTree.entry? (t.setEntry place v) names = some (.directory d') := by
  have hne : names ≠ place := by
    rintro rfl
    exact hplace d hd
  have hshape := shape_entry?_setEntry hv hplace hne
  rw [hd] at hshape
  obtain ⟨e, he, hshape⟩ := Option.map_eq_some_iff.1 hshape
  cases e with
  | directory d' => exact ⟨d', he⟩
  | file b => cases hshape
  | link target => cases hshape

theorem not_directory_of_none {t : FileTree} {place : List Text} (h : t.entry? place = none)
    (d : Directory) : t.entry? place ≠ some (.directory d) := by
  rw [h]
  exact fun hd => nomatch hd

/-- A file that is written or removed is touched, and nothing else is. -/
theorem tracks_setEntry {t : FileTree} {place : List Text} {v : Option ByteArray}
    (hplace : ∀ d, t.entry? place ≠ some (.directory d)) :
    t.Tracks [⟨place, v⟩] (t.setEntry place (v.map .file)) := by
  have hv := Entry.bare_file v
  refine ⟨directories_setEntry hv hplace, ?_⟩
  intro names d name hd
  by_cases hne : names ++ [name] = place
  · subst hne
    have hself : FileTree.entry? (t.setEntry (names ++ [name]) (v.map .file)) (names ++ [name]) =
        v.map .file := by
      cases v with
      | none => exact Entry.at?_setAt_none_self names name t.top
      | some b => exact Entry.at?_setAt_self (.file b) names name t.top hd
    rw [bytesAt, hself]
    cases v <;> simp [lastTouch?]
  · have hnone : lastTouch? [⟨place, v⟩] (names ++ [name]) = none := by
      simp [lastTouch?, Ne.symm hne]
    rw [hnone]
    exact bytesAt_congr (shape_entry?_setEntry hv hplace hne)

/-- A new directory touches no file. -/
theorem tracks_newDirectory {t : FileTree} {place : List Text} (hplace : t.entry? place = none) :
    t.Tracks [] (t.setEntry place (some (.directory .empty))) := by
  have hv := Entry.bare_newDirectory
  have hnot := not_directory_of_none hplace
  refine ⟨directories_setEntry hv hnot, ?_⟩
  intro names d name hd
  by_cases hne : names ++ [name] = place
  · subst hne
    have hself : FileTree.entry? (t.setEntry (names ++ [name]) (some (.directory .empty)))
        (names ++ [name]) = some (.directory .empty) :=
      Entry.at?_setAt_self (.directory .empty) names name t.top hd
    rw [bytesAt, hself, bytesAt, hplace]
    rfl
  · exact bytesAt_congr (shape_entry?_setEntry hv hnot hne)

end FileTree

end LuaReference
