import LuaReference.Proofs.Files.Edits
import LuaReference.Proofs.Files.Placing

/-!
# Skeletons

The skeleton of a tree is the tree without the bytes of its files: which names stand where and in
which order, and what kind of entry each one is. It stays where files are written over and nothing
new is made: `Edits.sameSkeleton` and `Plain.sameSkeleton_copyFile`.
-/

namespace LuaReference

namespace Directory

def skeleton : Directory → Directory
  | empty => empty
  | file name _ rest => file name .empty rest.skeleton
  | link name target rest => link name target rest.skeleton
  | sub name inner rest => sub name inner.skeleton rest.skeleton

/-- No name stands twice in the directory, nor in a directory below it. -/
def Distinct : Directory → Prop
  | empty => True
  | file name _ rest => name ∉ rest.names ∧ rest.Distinct
  | link name _ rest => name ∉ rest.names ∧ rest.Distinct
  | sub name inner rest => name ∉ rest.names ∧ inner.Distinct ∧ rest.Distinct

instance decidableDistinct : (d : Directory) → Decidable d.Distinct
  | empty => isTrue trivial
  | file name _ rest =>
    have := decidableDistinct rest
    inferInstanceAs (Decidable (name ∉ rest.names ∧ rest.Distinct))
  | link name _ rest =>
    have := decidableDistinct rest
    inferInstanceAs (Decidable (name ∉ rest.names ∧ rest.Distinct))
  | sub name inner rest =>
    have := decidableDistinct inner
    have := decidableDistinct rest
    inferInstanceAs (Decidable (name ∉ rest.names ∧ inner.Distinct ∧ rest.Distinct))

end Directory

namespace Entry

def skeleton : Entry → Entry
  | file _ => file .empty
  | link target => link target
  | directory d => directory d.skeleton

def Distinct : Entry → Prop
  | directory d => d.Distinct
  | _ => True

instance : (e : Entry) → Decidable e.Distinct
  | file _ => isTrue trivial
  | link _ => isTrue trivial
  | directory d => inferInstanceAs (Decidable d.Distinct)

end Entry

/-! ### One entry after the other -/

namespace Directory

@[elab_as_elim]
theorem induction_cons {motive : Directory → Prop} (empty : motive empty)
    (cons : ∀ n e rest, motive rest → motive (cons n e rest)) (d : Directory) : motive d := by
  induction d with
  | empty => exact empty
  | file n b rest ih => exact cons n (.file b) rest ih
  | link n target rest ih => exact cons n (.link target) rest ih
  | sub n inner rest _ ih => exact cons n (.directory inner) rest ih

@[simp]
theorem names_cons (n : Text) (e : Entry) (rest : Directory) :
    (cons n e rest).names = n :: rest.names := by
  cases e <;> rfl

theorem set_cons (n x : Text) (e : Entry) (rest : Directory) (v : Option Entry) :
    (cons n e rest).set x v =
      if n = x then (match v with
        | none => rest.set x none
        | some new => cons x new rest)
      else cons n e (rest.set x v) := by
  cases e <;> rfl

theorem skeleton_cons (n : Text) (e : Entry) (rest : Directory) :
    (cons n e rest).skeleton = cons n e.skeleton rest.skeleton := by
  cases e <;> rfl

theorem distinct_cons {n : Text} {e : Entry} {rest : Directory} :
    (cons n e rest).Distinct ↔ n ∉ rest.names ∧ e.Distinct ∧ rest.Distinct := by
  cases e with
  | file b => exact ⟨fun h => ⟨h.1, trivial, h.2⟩, fun h => ⟨h.1, h.2.2⟩⟩
  | link target => exact ⟨fun h => ⟨h.1, trivial, h.2⟩, fun h => ⟨h.1, h.2.2⟩⟩
  | directory inner => exact Iff.rfl

/-! ### Names -/

theorem names_skeleton (d : Directory) : d.skeleton.names = d.names := by
  induction d using induction_cons with
  | empty => rfl
  | cons n e rest ih => rw [skeleton_cons, names_cons, names_cons, ih]

theorem Distinct.nodup {d : Directory} (h : d.Distinct) : d.names.Nodup := by
  induction d using induction_cons with
  | empty => exact List.nodup_nil
  | cons n e rest ih =>
    obtain ⟨hn, -, hrest⟩ := distinct_cons.1 h
    rw [names_cons]
    exact List.nodup_cons.2 ⟨hn, ih hrest⟩

theorem Distinct.of_find? {d : Directory} (h : d.Distinct) {n : Text} {e : Entry}
    (hn : d.find? n = some e) : e.Distinct := by
  induction d using induction_cons with
  | empty => cases hn
  | cons m first rest ih =>
    obtain ⟨-, hfirst, hrest⟩ := distinct_cons.1 h
    rw [find?_cons] at hn
    split at hn
    · cases hn
      exact hfirst
    · exact ih hrest hn

end Directory

theorem Entry.Distinct.of_at? {root e : Entry} (h : root.Distinct) {names : List Text}
    (he : root.at? names = some e) : e.Distinct := by
  induction names generalizing root with
  | nil =>
    cases he
    exact h
  | cons n names ih =>
    cases root with
    | file b => cases he
    | link target => cases he
    | directory d =>
      rw [at?] at he
      obtain ⟨below, hbelow, he⟩ := Option.bind_eq_some_iff.1 he
      have hd : d.Distinct := h
      exact ih (hd.of_find? hbelow) he

/-! ### Reading and writing -/

namespace Directory

theorem find?_skeleton (d : Directory) (x : Text) :
    d.skeleton.find? x = (d.find? x).map Entry.skeleton := by
  induction d using induction_cons with
  | empty => rfl
  | cons n e rest ih =>
    rw [skeleton_cons, find?_cons, find?_cons, ih]
    split <;> rfl

theorem skeleton_set {d : Directory} {x : Text} {e e' : Entry} (h : d.find? x = some e)
    (he : e'.skeleton = e.skeleton) : (d.set x (some e')).skeleton = d.skeleton := by
  induction d using induction_cons with
  | empty => cases h
  | cons n first rest ih =>
    rw [find?_cons] at h
    rw [set_cons, skeleton_cons]
    split at h
    · next hn =>
      cases h
      rw [if_pos hn, skeleton_cons, he, hn]
    · next hn => rw [if_neg hn, skeleton_cons, ih h]

end Directory

namespace Entry

theorem at?_skeleton (xs : List Text) (e : Entry) :
    e.skeleton.at? xs = (e.at? xs).map skeleton := by
  induction xs generalizing e with
  | nil => rfl
  | cons x xs ih =>
    cases e with
    | file b => rfl
    | link target => rfl
    | directory d =>
      rw [skeleton, at?, at?, Directory.find?_skeleton]
      cases d.find? x with
      | none => rfl
      | some below => exact ih below

theorem skeleton_setAt {root e e' : Entry} {xs : List Text} (h : root.at? xs = some e)
    (he : e'.skeleton = e.skeleton) : (setAt (some e') xs root).skeleton = root.skeleton := by
  induction xs generalizing root with
  | nil =>
    cases h
    exact he
  | cons x xs ih =>
    cases root with
    | file b => cases h
    | link target => cases h
    | directory d =>
      rw [at?] at h
      obtain ⟨below, hbelow, h⟩ := Option.bind_eq_some_iff.1 h
      cases xs with
      | nil =>
        cases h
        rw [setAt, skeleton, skeleton, Directory.skeleton_set hbelow he]
      | cons y ys =>
        rw [setAt, hbelow]
        dsimp only
        rw [skeleton, skeleton, Directory.skeleton_set hbelow (ih h)]

end Entry

namespace FileTree

variable {t t' u : FileTree} {place : List Text} {p : Path}

/-- At a place, and below it, the trees have the same skeleton. -/
def SameSkeleton (place : List Text) (t t' : FileTree) : Prop :=
  (t'.entry? place).map Entry.skeleton = (t.entry? place).map Entry.skeleton

namespace SameSkeleton

theorem refl (t : FileTree) : SameSkeleton place t t := rfl

theorem symm (h : SameSkeleton place t t') : SameSkeleton place t' t := Eq.symm h

theorem trans (h : SameSkeleton place t u) (h' : SameSkeleton place u t') :
    SameSkeleton place t t' :=
  Eq.trans h' h

theorem append (h : SameSkeleton place t t') (below : List Text) :
    SameSkeleton (place ++ below) t t' := by
  have hbelow : ∀ w : FileTree, (w.entry? (place ++ below)).map Entry.skeleton =
      ((w.entry? place).map Entry.skeleton).bind (Entry.at? below) := by
    intro w
    unfold entry?
    rw [Entry.at?_append]
    cases w.top.at? place with
    | none => rfl
    | some e => exact (Entry.at?_skeleton below e).symm
  rw [SameSkeleton, hbelow, hbelow, h]

theorem exists_entry (h : SameSkeleton place t t') (he : t.entry? place ≠ none) :
    t'.entry? place ≠ none := by
  intro hnone
  rw [SameSkeleton, hnone, Option.map_none, eq_comm, Option.map_eq_none_iff] at h
  exact he h

theorem exists_directory (h : SameSkeleton place t t') {d : Directory}
    (hd : t.entry? place = some (.directory d)) :
    ∃ d', t'.entry? place = some (.directory d') ∧ d'.names = d.names := by
  rw [SameSkeleton, hd] at h
  obtain ⟨e, he, hskeleton⟩ := Option.map_eq_some_iff.1 h
  cases e with
  | file b => cases hskeleton
  | link target => cases hskeleton
  | directory d' =>
    have hsame : d'.skeleton = d.skeleton := Entry.directory.inj hskeleton
    refine ⟨d', he, ?_⟩
    rw [← d'.names_skeleton, hsame, d.names_skeleton]

/-- A file is put where one is. -/
theorem of_file {x : List Text} {old : ByteArray} (h : t.entry? x = some (.file old))
    (bytes : ByteArray) : SameSkeleton place t (t.setEntry x (some (.file bytes))) := by
  have htop : (t.top.setAt (some (.file bytes)) x).skeleton = t.top.skeleton :=
    Entry.skeleton_setAt h rfl
  change ((t.top.setAt (some (.file bytes)) x).at? place).map Entry.skeleton = _
  rw [← Entry.at?_skeleton, htop, Entry.at?_skeleton]
  rfl

/-- Something new is made elsewhere. -/
theorem of_free {x : List Text} (hplace : t.entry? place ≠ none) (hfree : t.entry? x = none)
    (hoff : ¬ place <+: x) (v : Option Entry) : SameSkeleton place t (t.setEntry x v) := by
  have hapart : Apart x place := by
    refine ⟨?_, hoff⟩
    rintro ⟨below, rfl⟩
    rw [entry?_append, hfree] at hplace
    exact hplace rfl
  have hsame : FileTree.entry? (t.setEntry x v) place = t.entry? place :=
    Entry.at?_setAt_of_apart v hapart t.top
  rw [SameSkeleton, hsame]

end SameSkeleton

/-- Directories keep the skeleton at a place when none of them is new there. -/
theorem Edits.sameSkeleton {dirs : List Text → Prop} (h : Edits (fun _ => False) dirs t t')
    (hplace : t.entry? place ≠ none)
    (hthere : ∀ x, dirs x → place <+: x → t.entry? x ≠ none) : SameSkeleton place t t' := by
  induction h with
  | refl => exact .refl t
  | touch _ _ hfile _ _ _ => exact hfile.elim
  | @make u above n _ _ hdir _ _ hfree ih =>
    refine ih.trans (.of_free (ih.exists_entry hplace) hfree ?_ _)
    intro hbelow
    obtain ⟨below, hx⟩ := hbelow
    have hold := hthere _ hdir ⟨below, hx⟩
    rw [← hx] at hold hfree
    exact (ih.append below).exists_entry hold hfree

theorem Plain.settled (ht : t.Plain) : t.Settled := ht.here

theorem Plain.writeFile_eq {bytes : ByteArray} (ht : t.Plain)
    (h : t.writeFile p bytes = .ok t') :
    t.Open (p.place t.here) ∧ t' = t.setEntry (p.place t.here) (some (.file bytes)) := by
  obtain ⟨place, hslot, hopen, rfl⟩ := (writeFile_eq_ok_iff ht.settled).1 h
  have hleads := (hslot.puts ht.settled hopen bytes).leads
  rw [ht.locate_writeFile h] at hleads
  obtain rfl : p.place t.here = place := (Located.found.inj (Except.ok.inj hleads)).1
  exact ⟨hopen, rfl⟩

theorem Plain.sameSkeleton_writeFile {bytes : ByteArray} (ht : t.Plain)
    (hplace : t.entry? place ≠ none)
    (hthere : place <+: p.place t.here → t.entry? (p.place t.here) ≠ none)
    (h : t.writeFile p bytes = .ok t') : SameSkeleton place t t' := by
  obtain ⟨hopen, rfl⟩ := ht.writeFile_eq h
  cases he : t.entry? (p.place t.here) with
  | none => exact .of_free hplace he (fun hbelow => hthere hbelow he) _
  | some e =>
    obtain ⟨old, rfl⟩ := hopen e he
    exact .of_file he bytes

/-- A copied file keeps the skeleton at a place when it is not new there. -/
theorem Plain.sameSkeleton_copyFile {source destination : Path} (ht : t.Plain)
    (hplace : t.entry? place ≠ none)
    (hthere : place <+: destination.place t.here → t.entry? (destination.place t.here) ≠ none)
    (h : t.copyFile source destination = .ok t') : SameSkeleton place t t' := by
  obtain ⟨opened, bytes, hopened, hcopied⟩ := exists_writeFile_of_copyFile h
  have hedits := ht.edits_writeFile hopened
  have hfirst := ht.sameSkeleton_writeFile hplace hthere hopened
  refine hfirst.trans ((hedits.plain ht).sameSkeleton_writeFile (hfirst.exists_entry hplace) ?_
    hcopied)
  intro _ hnone
  have hwritten := ht.bytesAt_writeFile hopened
  rw [bytesAt, ← hedits.here, hnone] at hwritten
  cases hwritten

end FileTree

end LuaReference
