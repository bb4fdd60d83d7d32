import LuaReference.Proofs.Files.Skeleton

/-!
# Named and rearranged trees

In a file tree every entry has a name that can stand in a path, and the entries of a directory come
in some order. In a reordered tree directories may list them in another order, at any depth. Then
the same entries are at the same paths (`Reordered.rearranged`), and a path leads to the same place.
-/

namespace LuaReference

/-! ### Names -/

namespace Directory

/-- Every entry of the directory, and below it, has a name that can stand in a path. -/
def Named : Directory → Prop
  | empty => True
  | file name _ rest => name.IsName ∧ rest.Named
  | link name _ rest => name.IsName ∧ rest.Named
  | sub name inner rest => name.IsName ∧ inner.Named ∧ rest.Named

instance decidableNamed : (d : Directory) → Decidable d.Named
  | empty => isTrue trivial
  | file name _ rest =>
    have := decidableNamed rest
    inferInstanceAs (Decidable (name.IsName ∧ rest.Named))
  | link name _ rest =>
    have := decidableNamed rest
    inferInstanceAs (Decidable (name.IsName ∧ rest.Named))
  | sub name inner rest =>
    have := decidableNamed inner
    have := decidableNamed rest
    inferInstanceAs (Decidable (name.IsName ∧ inner.Named ∧ rest.Named))

end Directory

namespace Entry

def Named : Entry → Prop
  | directory d => d.Named
  | _ => True

instance : (e : Entry) → Decidable e.Named
  | file _ => isTrue trivial
  | link _ => isTrue trivial
  | directory d => inferInstanceAs (Decidable d.Named)

end Entry

namespace Directory

theorem named_cons {n : Text} {e : Entry} {rest : Directory} :
    (cons n e rest).Named ↔ n.IsName ∧ e.Named ∧ rest.Named := by
  cases e with
  | file b => exact ⟨fun h => ⟨h.1, trivial, h.2⟩, fun h => ⟨h.1, h.2.2⟩⟩
  | link target => exact ⟨fun h => ⟨h.1, trivial, h.2⟩, fun h => ⟨h.1, h.2.2⟩⟩
  | directory inner => exact Iff.rfl

theorem Named.of_find? {d : Directory} (h : d.Named) {n : Text} {e : Entry}
    (hn : d.find? n = some e) : n.IsName ∧ e.Named := by
  induction d using induction_cons with
  | empty => cases hn
  | cons m first rest ih =>
    obtain ⟨hm, hfirst, hrest⟩ := named_cons.1 h
    rw [find?_cons] at hn
    split at hn
    · next hmn =>
      cases hn
      exact ⟨hmn ▸ hm, hfirst⟩
    · exact ih hrest hn

end Directory

theorem Entry.Named.of_at? {root e : Entry} (h : root.Named) {names : List Text}
    (he : root.at? names = some e) : (∀ n ∈ names, n.IsName) ∧ e.Named := by
  induction names generalizing root with
  | nil =>
    cases he
    exact ⟨fun n hn => absurd hn List.not_mem_nil, h⟩
  | cons n names ih =>
    cases root with
    | file b => cases he
    | link target => cases he
    | directory d =>
      rw [at?] at he
      obtain ⟨below, hbelow, he⟩ := Option.bind_eq_some_iff.1 he
      have hd : d.Named := h
      obtain ⟨hn, hnamed⟩ := hd.of_find? hbelow
      obtain ⟨hnames, he⟩ := ih hnamed he
      exact ⟨List.forall_mem_cons.2 ⟨hn, hnames⟩, he⟩

/-! ### Another order -/

/-- The second directory lists its entries in another order, and so do directories in it. -/
inductive Directory.Reordered : Directory → Directory → Prop
  | refl (d : Directory) : Reordered d d
  | swap (n : Text) (e : Entry) (m : Text) (e' : Entry) (rest : Directory) :
      Reordered (cons n e (cons m e' rest)) (cons m e' (cons n e rest))
  | keep (n : Text) (e : Entry) {rest rest' : Directory} (hrest : Reordered rest rest') :
      Reordered (cons n e rest) (cons n e rest')
  | inside (n : Text) {inner inner' : Directory} (rest : Directory)
      (hinner : Reordered inner inner') : Reordered (sub n inner rest) (sub n inner' rest)
  | trans {d d' d'' : Directory} (h : Reordered d d') (h' : Reordered d' d'') : Reordered d d''

/-- At each path of names both have the same file or link, or both have a directory. -/
def Entry.SameAt (e e' : Entry) : Prop :=
  ∀ names, (e'.at? names).map shape = (e.at? names).map shape

namespace Directory

variable {d d' rest rest' inner inner' : Directory} {n m : Text} {e e' : Entry}

theorem sameAt_cons (h : (Entry.directory rest).SameAt (.directory rest')) (n : Text)
    (he : e.SameAt e') :
    (Entry.directory (cons n e rest)).SameAt (.directory (cons n e' rest')) := by
  rintro (_ | ⟨k, below⟩)
  · rfl
  · by_cases hnk : n = k
    · subst hnk
      rw [Entry.at?, Entry.at?, find?_cons, find?_cons, if_pos rfl, if_pos rfl]
      exact he below
    · rw [Entry.at?, Entry.at?, find?_cons, find?_cons, if_neg hnk, if_neg hnk]
      exact h (k :: below)

theorem sameAt_swap (hne : n ≠ m) : (Entry.directory (cons n e (cons m e' rest))).SameAt
    (.directory (cons m e' (cons n e rest))) := by
  rintro (_ | ⟨k, below⟩)
  · rfl
  · have hfind : (cons m e' (cons n e rest)).find? k = (cons n e (cons m e' rest)).find? k := by
      simp only [find?_cons]
      by_cases hmk : m = k
      · rw [if_pos hmk, if_neg fun hnk => hne (hnk.trans hmk.symm), if_pos hmk]
      · rw [if_neg hmk, if_neg hmk]
    rw [Entry.at?, Entry.at?, hfind]

/-- Another order of distinct names keeps them distinct, and all entries where they are. -/
theorem Reordered.distinct_and_sameAt (h : d.Reordered d') (hd : d.Distinct) :
    d'.Distinct ∧ d'.names.Perm d.names ∧ (Entry.directory d).SameAt (.directory d') := by
  induction h with
  | refl d => exact ⟨hd, .refl _, fun _ => rfl⟩
  | swap n e m e' rest =>
    obtain ⟨hn, he, hrest⟩ := distinct_cons.1 hd
    obtain ⟨hm, he', hrest⟩ := distinct_cons.1 hrest
    rw [names_cons, List.mem_cons, not_or] at hn
    refine ⟨distinct_cons.2 ⟨?_, he', distinct_cons.2 ⟨hn.2, he, hrest⟩⟩, ?_, sameAt_swap hn.1⟩
    · rw [names_cons, List.mem_cons, not_or]
      exact ⟨Ne.symm hn.1, hm⟩
    · simp only [names_cons]
      exact .swap n m _
  | keep n e hrest ih =>
    obtain ⟨hn, he, hdistinct⟩ := distinct_cons.1 hd
    obtain ⟨hdistinct', hperm, hsame⟩ := ih hdistinct
    refine ⟨distinct_cons.2 ⟨fun hmem => hn (hperm.mem_iff.1 hmem), he, hdistinct'⟩, ?_,
      sameAt_cons hsame n fun _ => rfl⟩
    rw [names_cons, names_cons]
    exact hperm.cons n
  | inside n rest hinner ih =>
    obtain ⟨hn, hdistinct, hrest⟩ := hd
    obtain ⟨hdistinct', -, hsame⟩ := ih hdistinct
    exact ⟨⟨hn, hdistinct', hrest⟩, .refl _, sameAt_cons (fun _ => rfl) n hsame⟩
  | trans _ _ ih ih' =>
    obtain ⟨hdistinct, hperm, hsame⟩ := ih hd
    obtain ⟨hdistinct', hperm', hsame'⟩ := ih' hdistinct
    exact ⟨hdistinct', hperm'.trans hperm, fun names => (hsame' names).trans (hsame names)⟩

end Directory

def Located.shape : Located → Located
  | found names e => found names e.shape
  | vacant names name => vacant names name

namespace FileTree

/-- The second tree lists the entries of its directories in another order. -/
structure Reordered (t t' : FileTree) : Prop where
  here : t'.here = t.here
  top : ∃ d d', t.top = .directory d ∧ t'.top = .directory d' ∧ d.Reordered d'

/-- The same entries are at the same paths. -/
structure Rearranged (t t' : FileTree) : Prop where
  here : t'.here = t.here
  same : t.top.SameAt t'.top

theorem Reordered.rearranged {t t' : FileTree} (h : t.Reordered t') (ht : t.top.Distinct) :
    t'.top.Distinct ∧ t.Rearranged t' := by
  obtain ⟨d, d', hd, hd', hreordered⟩ := h.top
  rw [hd] at ht
  obtain ⟨hdistinct, -, hsame⟩ := hreordered.distinct_and_sameAt ht
  refine ⟨?_, h.here, ?_⟩
  · rw [hd']
    exact hdistinct
  · rw [hd, hd']
    exact hsame

namespace Rearranged

variable {t t' : FileTree} {aim : Aim} {p : Path}

theorem symm (h : Rearranged t t') : Rearranged t' t :=
  ⟨h.here.symm, fun names => (h.same names).symm⟩

theorem entry? (h : Rearranged t t') (names : List Text) :
    (t'.entry? names).map Entry.shape = (t.entry? names).map Entry.shape :=
  h.same names

/-- Stretches of walks in both trees are refused alike, end at entries of one shape, or turn off at
one link. -/
theorem stretch_cases (h : Rearranged t t') (aim : Aim) (names steps : List Text) :
    (∃ why, t.stretch aim names steps = .error why ∧ t'.stretch aim names steps = .error why) ∨
      (∃ l l', t.stretch aim names steps = .ok (.ends l) ∧
        t'.stretch aim names steps = .ok (.ends l') ∧ l'.shape = l.shape) ∨
      ∃ names' target rest, t.stretch aim names steps = .ok (.turns names' target rest) ∧
        t'.stretch aim names steps = .ok (.turns names' target rest) := by
  induction steps generalizing names with
  | nil =>
    have hsame := h.entry? names
    simp only [FileTree.stretch]
    cases he : t.entry? names with
    | none =>
      rw [he, Option.map_none, Option.map_eq_none_iff] at hsame
      rw [hsame]
      exact Or.inl ⟨_, rfl, rfl⟩
    | some e =>
      rw [he] at hsame
      obtain ⟨e', he', hshape⟩ := Option.map_eq_some_iff.1 hsame
      rw [he']
      refine Or.inr (Or.inl ⟨_, _, rfl, rfl, ?_⟩)
      rw [Located.shape, Located.shape, hshape]
  | cons s rest ih =>
    simp only [FileTree.stretch]
    by_cases hstay : s = [] ∨ s = ['.']
    · rw [if_pos hstay, if_pos hstay]
      exact ih names
    rw [if_neg hstay, if_neg hstay]
    by_cases hup : s = ['.', '.']
    · rw [if_pos hup, if_pos hup]
      exact ih names.dropLast
    rw [if_neg hup, if_neg hup]
    by_cases hslash : aim = .file ∧ rest ≠ [] ∧ rest.all List.isEmpty
    · rw [if_pos hslash, if_pos hslash]
      exact Or.inl ⟨_, rfl, rfl⟩
    rw [if_neg hslash, if_neg hslash]
    by_cases hlong : longestName < s.utf8Size
    · rw [if_pos hlong, if_pos hlong]
      exact Or.inl ⟨_, rfl, rfl⟩
    rw [if_neg hlong, if_neg hlong]
    have hsame := h.entry? (names ++ [s])
    cases he : t.entry? (names ++ [s]) with
    | none =>
      rw [he, Option.map_none, Option.map_eq_none_iff] at hsame
      rw [hsame]
      dsimp only
      split
      · exact Or.inr (Or.inl ⟨_, _, rfl, rfl, rfl⟩)
      · exact Or.inl ⟨_, rfl, rfl⟩
    | some e =>
      rw [he] at hsame
      obtain ⟨e', he', hshape⟩ := Option.map_eq_some_iff.1 hsame
      rw [he']
      -- only directories may differ, and the walk goes on in both
      cases e <;> cases e' <;> cases hshape
      · dsimp only
        split
        · exact Or.inr (Or.inl ⟨_, _, rfl, rfl, rfl⟩)
        · exact Or.inl ⟨_, rfl, rfl⟩
      · dsimp only
        split
        · exact Or.inr (Or.inl ⟨_, _, rfl, rfl, rfl⟩)
        · exact Or.inr (Or.inr ⟨_, _, _, rfl, rfl⟩)
      · exact ih (names ++ [s])

theorem walk (h : Rearranged t t') (aim : Aim) (links : Nat) (names steps : List Text) :
    (t'.walk aim links names steps).map Located.shape =
      (t.walk aim links names steps).map Located.shape := by
  induction links generalizing names steps with
  | zero =>
    rw [FileTree.walk, FileTree.walk]
    obtain ⟨why, ht, ht'⟩ | ⟨l, l', ht, ht', hshape⟩ | ⟨names', target, rest, ht, ht'⟩ :=
      h.stretch_cases aim names steps
    · rw [ht, ht']
    · rw [ht, ht']
      exact congrArg Except.ok hshape
    · rw [ht, ht']
  | succ links ih =>
    rw [FileTree.walk, FileTree.walk]
    obtain ⟨why, ht, ht'⟩ | ⟨l, l', ht, ht', hshape⟩ | ⟨names', target, rest, ht, ht'⟩ :=
      h.stretch_cases aim names steps
    · rw [ht, ht']
    · rw [ht, ht']
      exact congrArg Except.ok hshape
    · rw [ht, ht']
      exact ih _ _

theorem locate (h : Rearranged t t') (aim : Aim) (p : Path) :
    (t'.locate aim p).map Located.shape = (t.locate aim p).map Located.shape := by
  rw [FileTree.locate, FileTree.locate, h.here]
  split_ifs
  · rfl
  · rfl
  · rfl
  · exact h.walk aim mostLinks _ _

end Rearranged

/-- Where a path leads to a directory. -/
theorem list_eq_ok_iff {t : FileTree} {p : Path} {d : Directory} : t.list p = .ok d ↔
    ∃ place, t.locate .target p = .ok (.found place (.directory d)) := by
  rw [list, entry]
  constructor
  · intro h
    split at h
    · cases h
    · next hentry =>
      cases h
      split at hentry
      · cases hentry
      · cases hentry
      · next place e hl =>
        cases hentry
        exact ⟨place, hl⟩
    · cases h
  · rintro ⟨place, hl⟩
    rw [hl]

theorem isDirectory_iff_list {t : FileTree} {p : Path} :
    t.isDirectory p = true ↔ ∃ d, t.list p = .ok d := by
  rw [isDirectory, list]
  cases t.entry p with
  | error why => simp
  | ok e => cases e <;> simp

namespace Rearranged

variable {t t' : FileTree} {p : Path}

/-- A path that leads to a directory leads to one with the same entries. -/
theorem list (h : Rearranged t t') {d : Directory} (hd : t.list p = .ok d) :
    ∃ d', t'.list p = .ok d' ∧ (Entry.directory d).SameAt (.directory d') := by
  obtain ⟨place, hl⟩ := list_eq_ok_iff.1 hd
  have hsame := h.locate .target p
  rw [hl] at hsame
  cases hl' : t'.locate .target p with
  | error why =>
    rw [hl'] at hsame
    cases hsame
  | ok l =>
    rw [hl'] at hsame
    have hshape : l.shape = .found place (.directory .empty) := Except.ok.inj hsame
    cases l with
    | vacant names name => cases hshape
    | found place' e =>
      obtain ⟨rfl, he⟩ := Located.found.inj hshape
      cases e with
      | file b => cases he
      | link target => cases he
      | directory d' =>
        refine ⟨d', list_eq_ok_iff.2 ⟨_, hl'⟩, ?_⟩
        intro names
        have hthere := h.entry? (place' ++ names)
        have hd : t.entry? place' = some (.directory d) := locate_holds hl
        have hd' : t'.entry? place' = some (.directory d') := locate_holds hl'
        rw [entry?_append, entry?_append, hd, hd'] at hthere
        exact hthere

end Rearranged

end FileTree

end LuaReference
