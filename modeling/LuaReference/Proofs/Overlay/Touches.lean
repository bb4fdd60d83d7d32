import LuaReference.Output
import LuaReference.Overlay
import LuaReference.Proofs.Files.Done

/-!
# What a run touches

The places that a run removes files from and writes files to, in order: those of the generated
files first, then those of the copied pages. `tracks_publish` says that the files of the tree
change at these places only, and to what was left there last.
-/

namespace LuaReference

/-- Planning the overlays, writing the generated files and copying the overlays, as a run does
them. -/
def publish (primary out : Path) (s : Settings) (files : List GeneratedFile) : Job Unit := do
  let os ← .reading fun t => .done (t.overlays primary out s)
  writeGenerated out files
  copyOverlays os

/-! ### Touches -/

def clearTouches (p : Path) (t : FileTree) : List Touch :=
  if t.isPresent p then t.removeTouches p else []

def GeneratedFile.touches (out : Path) (f : GeneratedFile) (t : FileTree) : List Touch :=
  clearTouches (f.pathIn out) ((makeParent (f.pathIn out)).left t) ++
    ((clearPath (f.pathIn out)).left ((makeParent (f.pathIn out)).left t)).writeTouches
      (f.pathIn out) f.content.utf8

def FileTree.withTargets (t : FileTree) (out : Path) : FileTree :=
  ((t.makeDirectories (out.join tablesDir)).1.makeDirectories (out.join classesDir)).1

def generatedTouches (out : Path) (files : List GeneratedFile) (t : FileTree) : List Touch :=
  Job.eachTouches (·.write out) (·.touches out) files (t.withTargets out)

def FileTree.namesIn (t : FileTree) (dir : Path) : List Text :=
  match t.list dir with
  | .error _ => []
  | .ok d => d.toList.map (·.1)

/-- One entry that is copied; what is in a directory touches what `inside` says. -/
def entryTouches (inside : (source destination : Path) → List Text → FileTree → List Touch)
    (source destination : Path) (name : Text) (t : FileTree) : List Touch :=
  if t.isDirectory (source.child name) then
    inside (source.child name) (destination.child name)
      ((t.makeDirectories (destination.child name)).1.namesIn (source.child name))
      (t.makeDirectories (destination.child name)).1
  else t.copyTouches (source.child name) (destination.child name)

def entriesTouches : (depth : Nat) → (source destination : Path) → List Text → FileTree →
    List Touch
  | 0, _, _, _, _ => []
  | depth + 1, source, destination, names, t =>
    Job.eachTouches (copyEntry (copyEntries depth) source destination)
      (entryTouches (entriesTouches depth) source destination) names t

def Overlay.touches (o : Overlay) (t : FileTree) : List Touch :=
  entriesTouches FileTree.longestPath o.source o.destination
    ((t.makeDirectories o.destination).1.namesIn o.source) (t.makeDirectories o.destination).1

def publishTouches (primary out : Path) (s : Settings) (files : List GeneratedFile)
    (t : FileTree) : List Touch :=
  generatedTouches out files t ++
    Job.eachTouches Overlay.copy Overlay.touches (t.overlays primary out s)
      ((writeGenerated out files).left t)

/-! ### Generated files -/

theorem tracks_made {p : Path} {t t' : FileTree}
    (h : (Job.changes (FileTree.makeDirectories p)).Done t () t') : t.Tracks [] t' := by
  rw [← Job.done_changes h]
  exact FileTree.tracks_makeDirectories t p

theorem tracks_makeParent {p : Path} {t t' : FileTree} (h : (makeParent p).Done t () t') :
    t.Tracks [] t' := by
  rw [makeParent] at h
  split at h
  · rw [← Job.done_pure h]
    exact FileTree.Tracks.refl t
  · exact tracks_made h

theorem tracks_clearPath {p : Path} {t t' : FileTree} (h : (clearPath p).Done t () t') :
    t.Tracks (clearTouches p t) t' := by
  rw [clearPath] at h
  obtain ⟨present, _, hread, h⟩ := Job.done_bind h
  obtain ⟨rfl, hresult⟩ := Job.done_reading hread
  have hpresent : t.isPresent p = present := Except.ok.inj hresult
  rw [clearTouches, hpresent]
  cases present with
  | true => exact FileTree.tracks_removeFile (Job.done_change h)
  | false =>
    rw [← Job.done_pure h]
    exact FileTree.Tracks.refl t

theorem tracks_write {out : Path} {f : GeneratedFile} {t t' : FileTree}
    (h : (f.write out).Done t () t') : t.Tracks (f.touches out t) t' := by
  rw [GeneratedFile.write] at h
  obtain ⟨_, made, hmade, h⟩ := Job.done_bind h
  obtain ⟨_, cleared, hcleared, h⟩ := Job.done_bind h
  obtain ⟨_, written, hwritten, hnote⟩ := Job.done_bind h
  rw [GeneratedFile.touches, hmade.1, hcleared.1, ← Job.done_note hnote]
  have hwritten := FileTree.tracks_writeFile (Job.done_change hwritten)
  exact ((tracks_clearPath hcleared).trans hwritten).after (tracks_makeParent hmade)

theorem tracks_writeGenerated {out : Path} {files : List GeneratedFile} {t t' : FileTree}
    (h : (writeGenerated out files).Done t () t') :
    t.Tracks (generatedTouches out files t) t' := by
  rw [writeGenerated] at h
  obtain ⟨_, first, hfirst, h⟩ := Job.done_bind h
  obtain ⟨_, second, hsecond, h⟩ := Job.done_bind h
  have hmade : t.withTargets out = second := by
    rw [FileTree.withTargets, Job.done_changes hfirst, Job.done_changes hsecond]
  rw [generatedTouches, hmade]
  refine FileTree.Tracks.after ?_ ((tracks_made hsecond).after (tracks_made hfirst))
  refine Job.tracks_each ?_ h
  intro f t t' hf
  exact tracks_write hf

/-! ### Copied pages -/

theorem done_names {dir : Path} {names : List Text} {t t' : FileTree}
    (h : (Job.names dir).Done t names t') : t = t' ∧ t.namesIn dir = names := by
  rw [Job.names] at h
  obtain ⟨htree, hresult⟩ := Job.done_reading h
  refine ⟨htree, ?_⟩
  rw [FileTree.namesIn]
  cases hl : t.list dir with
  | error why =>
    rw [hl] at hresult
    cases hresult
  | ok d =>
    rw [hl] at hresult
    exact Except.ok.inj hresult

theorem tracks_copyEntry {inside : Path → Path → List Text → Job Unit}
    {touches : Path → Path → List Text → FileTree → List Touch}
    (hinside : ∀ source destination names t t', (inside source destination names).Done t () t' →
      t.Tracks (touches source destination names t) t')
    {source destination : Path} {name : Text} {t t' : FileTree}
    (h : (copyEntry inside source destination name).Done t () t') :
    t.Tracks (entryTouches touches source destination name t) t' := by
  rw [copyEntry] at h
  obtain ⟨isDir, _, hread, h⟩ := Job.done_bind h
  obtain ⟨rfl, hresult⟩ := Job.done_reading hread
  have hdir : t.isDirectory (source.child name) = isDir := Except.ok.inj hresult
  rw [entryTouches, hdir]
  cases isDir with
  | true =>
    obtain ⟨_, made, hmade, h⟩ := Job.done_bind h
    obtain ⟨names, _, hnames, h⟩ := Job.done_bind h
    obtain ⟨rfl, hlist⟩ := done_names hnames
    rw [if_pos rfl, Job.done_changes hmade, hlist]
    exact (hinside _ _ _ _ _ h).after (tracks_made hmade)
  | false =>
    obtain ⟨_, copied, hcopied, h⟩ := Job.done_bind h
    rw [← Job.done_note h, if_neg (by decide)]
    exact FileTree.tracks_copyFile (Job.done_change hcopied)

theorem tracks_copyEntries {depth : Nat} {source destination : Path} {names : List Text}
    {t t' : FileTree} (h : (copyEntries depth source destination names).Done t () t') :
    t.Tracks (entriesTouches depth source destination names t) t' := by
  induction depth generalizing source destination names t t' with
  | zero =>
    cases names with
    | nil =>
      rw [copyEntries] at h
      rw [← Job.done_pure h]
      exact FileTree.Tracks.refl t
    | cons name names => cases h.2
  | succ depth ih =>
    rw [copyEntries] at h
    rw [entriesTouches]
    refine Job.tracks_each ?_ h
    intro name t t' hname
    exact tracks_copyEntry (fun _ _ _ _ _ => ih) hname

theorem tracks_copy {o : Overlay} {t t' : FileTree} (h : o.copy.Done t () t') :
    t.Tracks (o.touches t) t' := by
  rw [Overlay.copy] at h
  obtain ⟨_, made, hmade, h⟩ := Job.done_bind h
  obtain ⟨names, _, hnames, h⟩ := Job.done_bind h
  obtain ⟨rfl, hlist⟩ := done_names hnames
  rw [Overlay.touches, Job.done_changes hmade, hlist]
  exact (tracks_copyEntries h).after (tracks_made hmade)

/-- The files of the tree become what a run left at the places that it touches. -/
theorem tracks_publish {primary out : Path} {s : Settings} {files : List GeneratedFile}
    {t t' : FileTree} (h : (publish primary out s files).Done t () t') :
    t.Tracks (publishTouches primary out s files t) t' := by
  rw [publish] at h
  obtain ⟨os, _, hos, h⟩ := Job.done_bind h
  obtain ⟨rfl, hresult⟩ := Job.done_reading hos
  have hplan : t.overlays primary out s = os := Except.ok.inj hresult
  obtain ⟨_, written, hwritten, hcopied⟩ := Job.done_bind h
  rw [copyOverlays] at hcopied
  rw [publishTouches, hplan, hwritten.1]
  refine (tracks_writeGenerated hwritten).trans (Job.tracks_each ?_ hcopied)
  intro o t t' ho
  exact tracks_copy ho

end LuaReference
