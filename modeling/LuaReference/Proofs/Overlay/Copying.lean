import LuaReference.Overlay
import LuaReference.Proofs.Output.Confined

/-!
# Copying a directory

What copying the entries of one directory into another one does to a plain tree, when the two
places are apart: the files below the destination get the bytes of the files below the source, and
every other file keeps its own.
-/

namespace LuaReference

open FileTree (Edits Allowed)

/-- The destination gets these bytes at a place, from a file at or below an entry of the source. -/
def Brings (source destination heads : List Text) (t : FileTree) (place : List Text)
    (bytes : ByteArray) : Prop :=
  ∃ n ∈ heads, ∃ below, place = destination ++ n :: below ∧
    t.bytesAt (source ++ n :: below) = some bytes

/-- The entries of a directory with these names were copied into another directory. -/
structure Copied (here : List Text) (source destination : Path) (heads : List Text)
    (t t' : FileTree) : Prop where
  edits : Edits (destination.place here <+: ·)
    (fun x => destination.Passes here x ∨ destination.place here <+: x) t t'
  brings : ∀ place bytes,
    Brings (source.place here) (destination.place here) heads t place bytes →
      t'.bytesAt place = some bytes
  keeps : ∀ place,
    (∀ bytes, ¬ Brings (source.place here) (destination.place here) heads t place bytes) →
      t'.bytesAt place = t.bytesAt place
  allowed : ∀ n ∈ heads, ∀ below e, t.entry? (source.place here ++ n :: below) = some e →
    Allowed (source.descend (n :: below))

variable {here : List Text} {source destination : Path} {t u t' : FileTree}

/-! ### Composition -/

theorem Copied.refl : Copied here source destination [] t t where
  edits := .refl
  brings := fun _ _ ⟨_, hn, _⟩ => absurd hn List.not_mem_nil
  keeps := fun _ _ => rfl
  allowed := fun _ hn => absurd hn List.not_mem_nil

theorem Copied.append {heads more : List Text}
    (hapart : Apart (source.place here) (destination.place here))
    (h : Copied here source destination heads t u)
    (h' : Copied here source destination more u t') :
    Copied here source destination (heads ++ more) t t' := by
  -- the source is apart from what is written
  have houtside : ∀ below, ¬ destination.place here <+: source.place here ++ below :=
    fun below => hapart.symm.not_prefix_append below
  have hsource : ∀ below,
      u.bytesAt (source.place here ++ below) = t.bytesAt (source.place here ++ below) :=
    fun below => h.edits.bytesAt_eq (houtside below)
  refine ⟨h.edits.trans h'.edits, ?_, ?_, ?_⟩
  · rintro place bytes ⟨n, hn, below, rfl, hbytes⟩
    by_cases hmore : n ∈ more
    · refine h'.brings _ bytes ⟨n, hmore, below, rfl, ?_⟩
      rw [hsource]
      exact hbytes
    · have hheads : n ∈ heads := (List.mem_append.1 hn).resolve_right hmore
      have hfirst := h.brings _ bytes ⟨n, hheads, below, rfl, hbytes⟩
      rw [h'.keeps, hfirst]
      rintro bytes' ⟨m, hm, below', hplace, -⟩
      obtain ⟨rfl, -⟩ := List.cons.inj (List.append_cancel_left hplace)
      exact hmore hm
  · intro place hnone
    have hfirst : ∀ bytes, ¬ Brings (source.place here) (destination.place here) heads t place
        bytes := by
      rintro bytes ⟨n, hn, below, hplace, hbytes⟩
      exact hnone bytes ⟨n, List.mem_append_left _ hn, below, hplace, hbytes⟩
    have hlast : ∀ bytes, ¬ Brings (source.place here) (destination.place here) more u place
        bytes := by
      rintro bytes ⟨n, hn, below, hplace, hbytes⟩
      rw [hsource] at hbytes
      exact hnone bytes ⟨n, List.mem_append_right _ hn, below, hplace, hbytes⟩
    rw [h'.keeps place hlast, h.keeps place hfirst]
  · intro n hn below e he
    rcases List.mem_append.1 hn with hn | hn
    · exact h.allowed n hn below e he
    · obtain ⟨e', he'⟩ := h.edits.exists_entry (houtside (n :: below)) he
      exact h'.allowed n hn below e' he'

/-! ### One entry -/

theorem passes_child {p : Path} {n : Text} (hn : n.IsName) {place : List Text}
    (h : (p.child n).Passes here place) : p.Passes here place ∨ p.place here <+: place := by
  have hcomponents : (p.child n).components = p.components ++ [n].map .name :=
    p.components_child hn
  exact h.append_names hcomponents

theorem apart_child {n : Text} (hn : n.IsName)
    (h : Apart (source.place here) (destination.place here)) :
    Apart ((source.child n).place here) ((destination.child n).place here) := by
  rw [source.place_child hn, destination.place_child hn]
  exact (h.append_left [n]).append_right [n]

namespace FileTree

theorem entry?_below_file {place : List Text} {bytes : ByteArray}
    (hfile : t.entry? place = some (.file bytes)) (n : Text) (below : List Text) :
    t.entry? (place ++ n :: below) = none := by
  rw [entry?_append, hfile]
  rfl

theorem exists_entry_of_mem_names {place : List Text} {d : Directory} {n : Text}
    (hd : t.entry? place = some (.directory d)) (hn : n ∈ d.names) :
    ∃ e, t.entry? (place ++ [n]) = some e := by
  obtain ⟨e, he⟩ := Directory.mem_names_iff.1 hn
  rw [entry?_append, hd, Option.bind_some, Entry.at?, he]
  exact ⟨e, rfl⟩

theorem mem_names_of_entry? {place : List Text} {n : Text} {below : List Text} {d : Directory}
    {e : Entry} (hd : t.entry? place = some (.directory d))
    (he : t.entry? (place ++ n :: below) = some e) : n ∈ d.names := by
  rw [entry?_append, hd, Option.bind_some, Entry.at?] at he
  obtain ⟨first, hfirst, -⟩ := Option.bind_eq_some_iff.1 he
  exact Directory.mem_names_iff.2 ⟨first, hfirst⟩

theorem exists_name_of_bytesAt {place below : List Text} {d : Directory} {bytes : ByteArray}
    (hd : t.entry? place = some (.directory d)) (h : t.bytesAt (place ++ below) = some bytes) :
    ∃ n rest, below = n :: rest ∧ n ∈ d.names := by
  have hentry := bytesAt_eq_some_iff.1 h
  cases below with
  | nil =>
    rw [List.append_nil, hd] at hentry
    cases hentry
  | cons n rest => exact ⟨n, rest, rfl, mem_names_of_entry? hd hentry⟩

end FileTree

theorem copied_file (ht : t.Plain) (hhere : t.here = here) {n : Text} (hn : n.IsName)
    (hapart : Apart (source.place here) (destination.place here))
    (h : t.copyFile (source.child n) (destination.child n) = .ok t') :
    Copied here source destination [n] t t' := by
  subst hhere
  have hfrom := source.place_child hn t.here
  have hto := destination.place_child hn t.here
  obtain ⟨hedits, bytes, hread, hbytes⟩ := ht.edits_copyFile h
  have hlocate := ht.readBytes_eq_ok_iff.1 hread
  have hfile : t.entry? (source.place t.here ++ [n]) = some (.file bytes) := by
    rw [← hfrom]
    exact FileTree.locate_holds hlocate
  rw [hfrom, hto] at hbytes
  have hne : source.place t.here ++ [n] ≠ destination.place t.here ++ [n] := by
    intro heq
    exact hapart.1 (List.append_cancel_right heq ▸ List.prefix_rfl)
  have hleaf : ∀ m ∈ [n], ∀ below e,
      t.entry? (source.place t.here ++ m :: below) = some e → m = n ∧ below = [] := by
    intro m hm below e he
    obtain rfl := List.mem_singleton.1 hm
    cases below with
    | nil => exact ⟨rfl, rfl⟩
    | cons k below =>
      have hnone := FileTree.entry?_below_file hfile k below
      rw [List.append_assoc, List.singleton_append, he] at hnone
      cases hnone
  refine ⟨?_, ?_, ?_, ?_⟩
  · refine hedits.mono ?_ fun _ => False.elim
    rintro x rfl
    rw [hto]
    exact List.prefix_append _ _
  · rintro place bytes' ⟨m, hm, below, rfl, hbytes'⟩
    have hentry := FileTree.bytesAt_eq_some_iff.1 hbytes'
    obtain ⟨rfl, rfl⟩ := hleaf m hm below _ hentry
    rw [hfile] at hentry
    obtain rfl := Entry.file.inj (Option.some.inj hentry)
    exact hbytes hne
  · intro place hnone
    refine hedits.bytesAt_eq ?_
    rintro rfl
    rw [hto] at hnone
    exact hnone bytes ⟨n, List.mem_singleton_self n, [], rfl,
      FileTree.bytesAt_eq_some_iff.2 hfile⟩
  · intro m hm below e he
    obtain ⟨rfl, rfl⟩ := hleaf m hm below e he
    exact ht.allowed hlocate

theorem copied_directory (ht : t.Plain) (hhere : t.here = here) {n : Text} (hn : n.IsName)
    (hdir : t.isDirectory (source.child n) = true) {made : FileTree}
    (hmade : (t.makeDirectories (destination.child n)).1 = made) {d : Directory}
    (hlist : made.list (source.child n) = .ok d)
    (hinside : Copied here (source.child n) (destination.child n) d.names made t') :
    Copied here source destination [n] t t' := by
  subst hhere
  have hfrom := source.place_child hn t.here
  have hto := destination.place_child hn t.here
  have hedits := ht.edits_makeDirectories (destination.child n)
  rw [hmade] at hedits
  obtain ⟨old, hold⟩ := ht.isDirectory_iff.1 hdir
  have hnewEntry : made.entry? (source.place t.here ++ [n]) = some (.directory d) := by
    have hlocate := (hedits.plain ht).list_eq_ok_iff.1 hlist
    rw [← hfrom, ← hedits.here]
    exact FileTree.locate_holds hlocate
  have hassoc : ∀ (x : List Text) below, x ++ n :: below = (x ++ [n]) ++ below := by simp
  have hbelow : ∀ below bytes, t.bytesAt (source.place t.here ++ n :: below) = some bytes →
      ∃ m rest, below = m :: rest ∧ m ∈ d.names ∧
        made.bytesAt (source.place t.here ++ [n] ++ m :: rest) = some bytes := by
    intro below bytes hbytes
    rw [hassoc, ← hedits.bytesAt_eq id] at hbytes
    obtain ⟨m, rest, rfl, hm⟩ := FileTree.exists_name_of_bytesAt hnewEntry hbytes
    exact ⟨m, rest, rfl, hm, hbytes⟩
  refine ⟨?_, ?_, ?_, ?_⟩
  · have hdown : destination.place t.here <+: (destination.child n).place t.here :=
      hto ▸ List.prefix_append _ _
    refine (hedits.mono (fun _ => False.elim) fun x hx => passes_child hn hx).trans
      (hinside.edits.mono (fun x hx => hdown.trans hx) ?_)
    rintro x (hx | hx)
    · exact passes_child hn hx
    · exact Or.inr (hdown.trans hx)
  · rintro place bytes ⟨m, hm, below, rfl, hbytes⟩
    obtain rfl := List.mem_singleton.1 hm
    obtain ⟨k, rest, rfl, hk, hmadeBytes⟩ := hbelow below bytes hbytes
    refine hinside.brings _ bytes ⟨k, hk, rest, ?_, ?_⟩
    · rw [hto, hassoc]
    · rw [hfrom]
      exact hmadeBytes
  · intro place hnone
    rw [← hedits.bytesAt_eq id]
    refine hinside.keeps place ?_
    rintro bytes ⟨k, hk, rest, hplace, hbytes⟩
    rw [hto, ← hassoc] at hplace
    rw [hfrom, ← hassoc, hedits.bytesAt_eq id] at hbytes
    exact hnone bytes ⟨n, List.mem_singleton_self n, k :: rest, hplace, hbytes⟩
  · intro m hm below e he
    obtain rfl := List.mem_singleton.1 hm
    cases below with
    | nil => exact ht.allowed hold
    | cons k rest =>
      obtain ⟨e', he'⟩ := hedits.exists_entry id he
      rw [hassoc] at he'
      have hk := FileTree.mem_names_of_entry? hnewEntry he'
      rw [← hfrom] at he'
      exact hinside.allowed k hk rest e' he'

/-! ### All entries -/

theorem done_list {dir : Path} {names : List Text} :
    (Job.names dir).Done t names t' ↔ t = t' ∧ ∃ d, t.list dir = .ok d ∧ names = d.names := by
  refine and_congr_right fun _ => ?_
  have hresult : (Job.names dir t).2.result = .ok names ↔
      (t.list dir).map Directory.names = .ok names := Report.ofFiles_result _ _
  rw [hresult]
  cases t.list dir with
  | error why => simp [Except.map]
  | ok d => simp [Except.map, eq_comm]

section Entries

variable {inside : (source destination : Path) → List Text → Job Unit}

/-- All that copying an entry can do: make a directory and copy what is inside, or copy a file. -/
theorem copyEntry_done {n : Text} :
    (copyEntry inside source destination n).Done t () t' ↔
      (t.isDirectory (source.child n) = true ∧ ∃ made d,
        t.makeDirectories (destination.child n) = (made, .ok ()) ∧
        made.list (source.child n) = .ok d ∧
        (inside (source.child n) (destination.child n) d.names).Done made () t') ∨
      t.isDirectory (source.child n) = false ∧
        t.copyFile (source.child n) (destination.child n) = .ok t' := by
  rw [copyEntry]
  constructor
  · intro h
    obtain ⟨isDir, _, hread, h⟩ := Job.done_bind h
    obtain ⟨rfl, hresult⟩ := Job.done_reading hread
    have hdir : t.isDirectory (source.child n) = isDir := Except.ok.inj hresult
    cases isDir with
    | true =>
      obtain ⟨_, made, hmade, h⟩ := Job.done_bind h
      obtain ⟨names, _, hnames, h⟩ := Job.done_bind h
      obtain ⟨rfl, d, hlist, rfl⟩ := done_list.1 hnames
      exact Or.inl ⟨hdir, made, d, Job.done_changes_iff.1 hmade, hlist, h⟩
    | false =>
      obtain ⟨_, copied, hcopy, hnote⟩ := Job.done_bind h
      obtain rfl := Job.done_note hnote
      exact Or.inr ⟨hdir, Job.done_change hcopy⟩
  · have hasked : ∀ isDir, t.isDirectory (source.child n) = isDir →
        (Job.reading fun t => .done (t.isDirectory (source.child n))).Done t isDir t :=
      fun isDir hdir => Job.reading_done (congrArg Except.ok hdir)
    rintro (⟨hdir, made, d, hmade, hlist, h⟩ | ⟨hdir, hcopy⟩)
    · have hnames := done_list.2 ⟨rfl, d, hlist, rfl⟩
      exact (hasked true hdir).bind ((Job.done_changes_iff.2 hmade).bind (hnames.bind h))
    · exact (hasked false hdir).bind ((Job.change_done hcopy).bind (Job.note_done _ t'))

variable (hinside : ∀ {source destination : Path} {names : List Text} {t t' : FileTree}, t.Plain →
    t.here = here → (∀ n ∈ names, n.IsName) →
    Apart (source.place here) (destination.place here) →
    (inside source destination names).Done t () t' → Copied here source destination names t t')

include hinside

theorem copied_of_copyEntry (ht : t.Plain) (hhere : t.here = here) {n : Text} (hn : n.IsName)
    (hapart : Apart (source.place here) (destination.place here))
    (h : (copyEntry inside source destination n).Done t () t') :
    Copied here source destination [n] t t' := by
  rcases copyEntry_done.1 h with ⟨hdir, made, d, hmade, hlist, h⟩ | ⟨-, hcopy⟩
  · have hedits := ht.edits_makeDirectories (destination.child n)
    rw [hmade] at hedits
    have hready := hedits.plain ht
    have hcopied := hinside hready (hedits.here.trans hhere)
      (fun m hm => hready.isName_of_list hlist hm) (apart_child hn hapart) h
    exact copied_directory ht hhere hn hdir (congrArg Prod.fst hmade) hlist hcopied
  · exact copied_file ht hhere hn hapart hcopy

theorem copied_of_each {names : List Text} (ht : t.Plain) (hhere : t.here = here)
    (hnames : ∀ n ∈ names, n.IsName) (hapart : Apart (source.place here) (destination.place here))
    (h : (Job.each (copyEntry inside source destination) names).Done t () t') :
    Copied here source destination names t t' := by
  induction names generalizing t with
  | nil =>
    rw [Job.each] at h
    rw [← Job.done_pure h]
    exact .refl
  | cons n names ih =>
    obtain ⟨hn, hothers⟩ := List.forall_mem_cons.1 hnames
    rw [Job.each] at h
    obtain ⟨_, u, hfirst, hrest⟩ := Job.done_bind h
    have hcopied := copied_of_copyEntry hinside ht hhere hn hapart hfirst
    have hu := hcopied.edits.plain ht
    have huHere := hcopied.edits.here.trans hhere
    exact hcopied.append hapart (ih hu huHere hothers hrest)

end Entries

theorem copied_of_copyEntries {depth : Nat} {names : List Text} (ht : t.Plain)
    (hhere : t.here = here) (hnames : ∀ n ∈ names, n.IsName)
    (hapart : Apart (source.place here) (destination.place here))
    (h : (copyEntries depth source destination names).Done t () t') :
    Copied here source destination names t t' := by
  -- on the depth, for what is inside an entry
  induction depth generalizing source destination names t t' with
  | zero =>
    cases names with
    | nil =>
      rw [copyEntries] at h
      rw [← Job.done_pure h]
      exact .refl
    | cons n names => cases h.2
  | succ depth ih =>
    rw [copyEntries] at h
    exact copied_of_each ih ht hhere hnames hapart h

/-! ### Whole directories -/

/-- An overlay brings these bytes to a place, from a file below its source. -/
def Overlay.Brings (here : List Text) (o : Overlay) (t : FileTree) (place : List Text)
    (bytes : ByteArray) : Prop :=
  ∃ below, place = o.destination.place here ++ below ∧
    t.bytesAt (o.source.place here ++ below) = some bytes

/-- The sources of the overlays were copied into their destinations. -/
structure Overlaid (here : List Text) (os : List Overlay) (t t' : FileTree) : Prop where
  edits : Edits (fun x => ∃ o ∈ os, o.destination.place here <+: x)
    (fun x => ∃ o ∈ os, o.destination.Passes here x ∨ o.destination.place here <+: x) t t'
  brings : ∀ o ∈ os, ∀ place bytes, o.Brings here t place bytes → t'.bytesAt place = some bytes
  keeps : ∀ place, (∀ o ∈ os, ∀ bytes, ¬ o.Brings here t place bytes) →
    t'.bytesAt place = t.bytesAt place
  allowed : ∀ o ∈ os, ∀ below e, t.entry? (o.source.place here ++ below) = some e →
    Allowed (o.source.descend below)

theorem copy_done {o : Overlay} :
    o.copy.Done t () t' ↔ ∃ made d, t.makeDirectories o.destination = (made, .ok ()) ∧
      made.list o.source = .ok d ∧
      (copyEntries FileTree.longestPath o.source o.destination d.names).Done made () t' := by
  rw [Overlay.copy]
  constructor
  · intro h
    obtain ⟨_, made, hmade, h⟩ := Job.done_bind h
    obtain ⟨names, _, hnames, h⟩ := Job.done_bind h
    obtain ⟨rfl, d, hlist, rfl⟩ := done_list.1 hnames
    exact ⟨made, d, Job.done_changes_iff.1 hmade, hlist, h⟩
  · rintro ⟨made, d, hmade, hlist, h⟩
    have hnames := done_list.2 ⟨rfl, d, hlist, rfl⟩
    exact (Job.done_changes_iff.2 hmade).bind (hnames.bind h)

theorem overlaid_of_copy {o : Overlay} (ht : t.Plain) (hhere : t.here = here)
    (hapart : Apart (o.source.place here) (o.destination.place here))
    (h : o.copy.Done t () t') : Overlaid here [o] t t' := by
  obtain ⟨made, d, hmade, hlist, h⟩ := copy_done.1 h
  have hedits := ht.edits_makeDirectories o.destination
  rw [hmade, hhere] at hedits
  have hready := hedits.plain ht
  have hmadeHere := hedits.here.trans hhere
  have hlocate := hready.list_eq_ok_iff.1 hlist
  rw [hmadeHere] at hlocate
  have hsource : made.entry? (o.source.place here) = some (.directory d) :=
    FileTree.locate_holds hlocate
  have hcopied := copied_of_copyEntries hready hmadeHere
    (fun n hn => hready.isName_of_list hlist hn) hapart h
  refine ⟨?_, ?_, ?_, ?_⟩
  · have hself : o ∈ [o] := List.mem_singleton_self o
    exact (hedits.mono (fun _ => False.elim) fun x hx => ⟨o, hself, Or.inl hx⟩).trans
      (hcopied.edits.mono (fun x hx => ⟨o, hself, hx⟩) fun x hx => ⟨o, hself, hx⟩)
  · rintro o' ho' place bytes ⟨below, rfl, hbytes⟩
    obtain rfl := List.mem_singleton.1 ho'
    rw [← hedits.bytesAt_eq id] at hbytes
    obtain ⟨n, rest, rfl, hn⟩ := FileTree.exists_name_of_bytesAt hsource hbytes
    exact hcopied.brings _ bytes ⟨n, hn, rest, rfl, hbytes⟩
  · intro place hnone
    rw [← hedits.bytesAt_eq id]
    refine hcopied.keeps place ?_
    rintro bytes ⟨n, hn, rest, hplace, hbytes⟩
    rw [hedits.bytesAt_eq id] at hbytes
    exact hnone o (List.mem_singleton_self o) bytes ⟨n :: rest, hplace, hbytes⟩
  · intro o' ho' below e he
    obtain rfl := List.mem_singleton.1 ho'
    obtain ⟨e', he'⟩ := hedits.exists_entry id he
    cases below with
    | nil => exact hready.allowed hlocate
    | cons n rest =>
      exact hcopied.allowed n (FileTree.mem_names_of_entry? hsource he') rest e' he'

theorem Overlaid.append {os more : List Overlay}
    (hsources : ∀ o ∈ os ++ more, ∀ o' ∈ os, Apart (o.source.place here) (o'.destination.place here))
    (hdestinations : ∀ o ∈ os, ∀ o' ∈ more,
      Apart (o.destination.place here) (o'.destination.place here))
    (h : Overlaid here os t u) (h' : Overlaid here more u t') : Overlaid here (os ++ more) t t' := by
  have houtside : ∀ o ∈ os ++ more, ∀ below,
      ¬ ∃ o' ∈ os, o'.destination.place here <+: o.source.place here ++ below := by
    rintro o ho below ⟨o', ho', hprefix⟩
    exact (hsources o ho o' ho').symm.not_prefix_append below hprefix
  have hsource : ∀ o ∈ os ++ more, ∀ below,
      u.bytesAt (o.source.place here ++ below) = t.bytesAt (o.source.place here ++ below) :=
    fun o ho below => h.edits.bytesAt_eq (houtside o ho below)
  refine ⟨?_, ?_, ?_, ?_⟩
  · have hleft : ∀ {P : Overlay → Prop}, (∃ o ∈ os, P o) → ∃ o ∈ os ++ more, P o :=
      fun ⟨o, ho, hP⟩ => ⟨o, List.mem_append_left _ ho, hP⟩
    have hright : ∀ {P : Overlay → Prop}, (∃ o ∈ more, P o) → ∃ o ∈ os ++ more, P o :=
      fun ⟨o, ho, hP⟩ => ⟨o, List.mem_append_right _ ho, hP⟩
    exact (h.edits.mono (fun _ => hleft) fun _ => hleft).trans
      (h'.edits.mono (fun _ => hright) fun _ => hright)
  · rintro o ho place bytes ⟨below, rfl, hbytes⟩
    rcases List.mem_append.1 ho with hfirst | hlast
    · rw [h'.keeps]
      · exact h.brings o hfirst _ bytes ⟨below, rfl, hbytes⟩
      · rintro o' ho' bytes' ⟨below', hplace, -⟩
        have hmeet : o'.destination.place here <+: o.destination.place here ++ below :=
          hplace ▸ List.prefix_append _ _
        exact (hdestinations o hfirst o' ho').symm.not_prefix_append below hmeet
    · refine h'.brings o hlast _ bytes ⟨below, rfl, ?_⟩
      rw [hsource o ho]
      exact hbytes
  · intro place hnone
    rw [h'.keeps, h.keeps]
    · exact fun o ho => hnone o (List.mem_append_left _ ho)
    · rintro o ho bytes ⟨below, hplace, hbytes⟩
      have hmem := List.mem_append_right os ho
      rw [hsource o hmem] at hbytes
      exact hnone o hmem bytes ⟨below, hplace, hbytes⟩
  · intro o ho below e he
    rcases List.mem_append.1 ho with hfirst | hlast
    · exact h.allowed o hfirst below e he
    · obtain ⟨e', he'⟩ := h.edits.exists_entry (houtside o ho below) he
      exact h'.allowed o hlast below e' he'

theorem Overlaid.refl : Overlaid here [] t t where
  edits := .refl
  brings := fun _ ho => absurd ho List.not_mem_nil
  keeps := fun _ _ => rfl
  allowed := fun _ ho => absurd ho List.not_mem_nil

/-- Copying overlays whose sources and destinations are apart brings the files of all sources and
keeps all other files. -/
theorem overlaid_of_copyOverlays {os : List Overlay} (ht : t.Plain) (hhere : t.here = here)
    (hsources : ∀ o ∈ os, ∀ o' ∈ os, Apart (o.source.place here) (o'.destination.place here))
    (hdestinations : os.Pairwise fun o o' =>
      Apart (o.destination.place here) (o'.destination.place here))
    (h : (copyOverlays os).Done t () t') : Overlaid here os t t' := by
  rw [copyOverlays] at h
  induction os generalizing t with
  | nil =>
    rw [Job.each] at h
    rw [← Job.done_pure h]
    exact .refl
  | cons o os ih =>
    rw [Job.each] at h
    obtain ⟨_, u, hfirst, hrest⟩ := Job.done_bind h
    obtain ⟨hapart, hdestinations⟩ := List.pairwise_cons.1 hdestinations
    have hself := hsources o List.mem_cons_self o List.mem_cons_self
    have hfirst := overlaid_of_copy ht hhere hself hfirst
    have hu := hfirst.edits.plain ht
    have huHere := hfirst.edits.here.trans hhere
    have hrest := ih hu huHere
      (fun o ho o' ho' => hsources o (List.mem_cons_of_mem _ ho) o' (List.mem_cons_of_mem _ ho'))
      hdestinations hrest
    have hjoined : Overlaid here ([o] ++ os) t t' := by
      refine Overlaid.append ?_ ?_ hfirst hrest
      · intro o' ho' o'' ho''
        exact hsources o' ho' o'' (List.mem_singleton.1 ho'' ▸ List.mem_cons_self)
      · intro o' ho' o'' ho''
        exact List.mem_singleton.1 ho' ▸ hapart o'' ho''
    exact hjoined

end LuaReference
