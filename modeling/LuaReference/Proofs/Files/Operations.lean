import LuaReference.Proofs.Files.Touch

/-!
# Touches of the operations

What a walk finds is there, and what it finds free is free. So each operation that succeeds
touches the place that its path leads to, and nothing else.
-/

namespace LuaReference

/-- What a path leads to is really there, or really free. -/
def Located.Holds (t : FileTree) : Located → Prop
  | found names e => t.entry? names = some e
  | vacant names name => t.entry? (names ++ [name]) = none

namespace FileTree

theorem entry?_append (t : FileTree) (xs ys : List Text) :
    t.entry? (xs ++ ys) = (t.entry? xs).bind (Entry.at? ys) :=
  Entry.at?_append xs ys t.top

/-! ### Walks -/

theorem stretch_holds {t : FileTree} {aim : Aim} {names steps : List Text} {l : Located}
    (h : t.stretch aim names steps = .ok (.ends l)) : l.Holds t := by
  induction steps generalizing names with
  | nil =>
    rw [stretch] at h
    cases he : t.entry? names with
    | none =>
      rw [he] at h
      cases h
    | some e =>
      rw [he] at h
      cases h
      exact he
  | cons s rest ih =>
    rw [stretch] at h
    split at h
    · exact ih h
    split at h
    · exact ih h
    split at h
    · cases h
    split at h
    · cases h
    split at h
    · next he =>
      split at h
      · cases h
        exact he
      · cases h
    · exact ih h
    · next he =>
      split at h
      · cases h
        exact he
      · cases h
    · next he =>
      split at h
      · cases h
        exact he
      · cases h

theorem walk_holds {t : FileTree} {aim : Aim} {links : Nat} {names steps : List Text}
    {l : Located} (h : t.walk aim links names steps = .ok l) : l.Holds t := by
  induction links generalizing names steps with
  | zero =>
    rw [walk] at h
    split at h
    · cases h
    · next hs =>
      cases h
      exact stretch_holds hs
    · cases h
  | succ links ih =>
    rw [walk] at h
    split at h
    · cases h
    · next hs =>
      cases h
      exact stretch_holds hs
    · exact ih h

theorem locate_holds {t : FileTree} {aim : Aim} {p : Path} {l : Located}
    (h : t.locate aim p = .ok l) : l.Holds t := by
  rw [locate] at h
  split at h
  · cases h
  split at h
  · cases h
  split at h
  · cases h
  exact walk_holds h

/-! ### Directories -/

theorem tracks_makeDirectory {t t' : FileTree} {p : Path} (h : t.makeDirectory p = .ok t') :
    t.Tracks [] t' := by
  rw [makeDirectory] at h
  split at h
  · cases h
  · cases h
  · next hl =>
    cases h
    exact tracks_newDirectory (locate_holds hl)

theorem tracks_makeChain (t : FileTree) (ps : List Path) : t.Tracks [] (t.makeChain ps).1 := by
  induction ps with
  | nil => exact Tracks.refl t
  | cons p above ih =>
    rw [makeChain]
    split
    · exact Tracks.refl t
    split
    · next hmade => exact tracks_makeDirectory hmade
    · cases hc : t.makeChain above with
      | mk ready result =>
        rw [hc] at ih
        cases result with
        | error why => exact ih
        | ok _ =>
          dsimp only
          split
          · next hmade => exact ih.trans (tracks_makeDirectory hmade)
          · exact ih
    · exact Tracks.refl t

theorem tracks_makeDirectories (t : FileTree) (p : Path) :
    t.Tracks [] (t.makeDirectories p).1 :=
  tracks_makeChain t p.ancestors

/-! ### Files -/

/-- The place that a path is written at, left with these bytes. -/
def writeTouches (t : FileTree) (p : Path) (bytes : ByteArray) : List Touch :=
  match t.locate .file p with
  | .error _ => []
  | .ok (.vacant names name) => [⟨names ++ [name], some bytes⟩]
  | .ok (.found names _) => [⟨names, some bytes⟩]

/-- The place that a path stands for, left without file. -/
def removeTouches (t : FileTree) (p : Path) : List Touch :=
  match t.locate .itself p with
  | .ok (.found names _) => [⟨names, none⟩]
  | _ => []

/-- The destination of a copy: emptied first, then left with what the source has by then. -/
def copyTouches (t : FileTree) (source destination : Path) : List Touch :=
  t.writeTouches destination .empty ++
    match t.writeFile destination .empty with
    | .error _ => []
    | .ok opened =>
      match opened.readBytes source with
      | .error _ => []
      | .ok bytes => opened.writeTouches destination bytes

theorem not_directory_of_ne {t : FileTree} {names : List Text} {e : Entry}
    (he : t.entry? names = some e) (h : ∀ d, e ≠ .directory d) (d : Directory) :
    t.entry? names ≠ some (.directory d) := by
  intro hd
  rw [he, Option.some.injEq] at hd
  exact h d hd

theorem tracks_writeFile {t t' : FileTree} {p : Path} {bytes : ByteArray}
    (h : t.writeFile p bytes = .ok t') : t.Tracks (t.writeTouches p bytes) t' := by
  rw [writeFile] at h
  rw [writeTouches]
  split at h
  · cases h
  · next names name hl =>
    cases h
    have hfree : t.entry? (names ++ [name]) = none := locate_holds hl
    have hnot : ∀ d, t.entry? (names ++ [name]) ≠ some (.directory d) := by
      intro d hd
      rw [hfree] at hd
      cases hd
    rw [hl]
    exact tracks_setEntry (v := some bytes) hnot
  · cases h
  · next names e hdir hl =>
    cases h
    rw [hl]
    exact tracks_setEntry (v := some bytes) (not_directory_of_ne (locate_holds hl) hdir)

theorem tracks_removeFile {t t' : FileTree} {p : Path} (h : t.removeFile p = .ok t') :
    t.Tracks (t.removeTouches p) t' := by
  rw [removeFile] at h
  rw [removeTouches]
  split at h
  · cases h
  · cases h
  · cases h
  · next names e hdir hl =>
    cases h
    rw [hl]
    exact tracks_setEntry (v := none) (not_directory_of_ne (locate_holds hl) hdir)

theorem tracks_copyFile {t t' : FileTree} {source destination : Path}
    (h : t.copyFile source destination = .ok t') :
    t.Tracks (t.copyTouches source destination) t' := by
  rw [copyFile] at h
  cases hsource : t.readBytes source with
  | error why =>
    rw [hsource] at h
    cases h
  | ok old =>
    cases hopened : t.writeFile destination .empty with
    | error why =>
      rw [hsource, hopened] at h
      cases h
    | ok opened =>
      cases hbytes : opened.readBytes source with
      | error why =>
        simp only [hsource, hopened, hbytes] at h
        cases h
      | ok bytes =>
        simp only [hsource, hopened, hbytes] at h
        have htouches : t.copyTouches source destination =
            t.writeTouches destination .empty ++ opened.writeTouches destination bytes := by
          simp only [copyTouches, hopened, hbytes]
        rw [htouches]
        exact (tracks_writeFile hopened).trans (tracks_writeFile h)

end FileTree

end LuaReference
