import LuaReference.Proofs.Overlay.Copying
import LuaReference.Proofs.Path.Length

/-!
# Listing a directory

The files below a directory of a plain tree can always be listed: each step down makes the path
longer, and no directory has a path longer than the longest one. What is listed lies below the
directory and is no directory itself.
-/

namespace LuaReference

namespace FileTree

variable {t : FileTree}

theorem Plain.exists_list (ht : t.Plain) {p : Path} (hp : t.isDirectory p = true) :
    ∃ d, t.list p = .ok d ∧ t.entry? (p.place t.here) = some (.directory d) ∧ Admissible p ∧
      ∀ n ∈ d.names, n.IsName := by
  obtain ⟨d, hd⟩ := ht.isDirectory_iff.1 hp
  have hentry : t.entry? (p.place t.here) = some (.directory d) := locate_holds hd
  have hplain : d.Plain := ht.top.of_at? hentry
  have hallowed := ht.allowed hd
  exact ⟨d, ht.list_eq_ok_iff.2 hd, hentry, hallowed.1, fun n hn => hplain.isName hn⟩

/-! ### A listing exists -/

theorem Plain.exists_filesBelow (ht : t.Plain) {depth : Nat} {dir : Path} {names : List Text}
    (hnames : ∀ n ∈ names, n.IsName) (hdir : dir.text.utf8Size ≤ longestPath)
    (hdepth : longestPath < depth + dir.text.utf8Size) :
    ∃ files, t.filesBelow depth dir names = .ok files := by
  -- a step down makes the path longer, so the depth that is left suffices for the longer path
  induction depth generalizing dir names with
  | zero => omega
  | succ depth ih =>
    induction names with
    | nil => exact ⟨[], by rw [filesBelow]⟩
    | cons n names ihNames =>
      obtain ⟨hn, hrest⟩ := List.forall_mem_cons.1 hnames
      obtain ⟨others, hothers⟩ := ihNames hrest
      have hlonger := dir.utf8Size_child_lt hn
      rw [filesBelow, hothers]
      by_cases hsub : t.isDirectory (dir.child n) = true
      · obtain ⟨d, hlist, -, ⟨-, -, hsize⟩, hd⟩ := ht.exists_list hsub
        obtain ⟨inside, hinside⟩ := ih hd hsize (by omega)
        refine ⟨inside ++ others, ?_⟩
        rw [if_pos hsub, hlist]
        change (t.filesBelow depth (dir.child n) d.names >>= _) = _
        rw [hinside]
        rfl
      · exact ⟨dir.child n :: others, if_neg hsub⟩

theorem Plain.exists_filesUnder (ht : t.Plain) {dir : Path} (hdir : t.isDirectory dir = true) :
    ∃ files, t.filesUnder dir = .ok files := by
  obtain ⟨d, hlist, -, ⟨-, hne, hsize⟩, hd⟩ := ht.exists_list hdir
  have hpos := Text.utf8Size_pos hne
  rw [filesUnder, hlist]
  exact ht.exists_filesBelow hd hsize (by omega)

/-! ### What is listed -/

theorem filesBelow_cons_eq_ok {depth : Nat} {dir : Path} {n : Text} {names : List Text}
    {files : List Path} (h : t.filesBelow (depth + 1) dir (n :: names) = .ok files) :
    ∃ first others, t.filesBelow (depth + 1) dir names = .ok others ∧ files = first ++ others ∧
      (t.isDirectory (dir.child n) = false ∧ first = [dir.child n] ∨
        t.isDirectory (dir.child n) = true ∧ ∃ d, t.list (dir.child n) = .ok d ∧
          t.filesBelow depth (dir.child n) d.names = .ok first) := by
  rw [filesBelow] at h
  split at h
  · next hdir =>
    split at h
    · cases h
    · next d hlist =>
      change (t.filesBelow depth (dir.child n) d.names >>= fun inside =>
        t.filesBelow (depth + 1) dir names >>= fun others => pure (inside ++ others)) = _ at h
      cases hinside : t.filesBelow depth (dir.child n) d.names with
      | error why =>
        rw [hinside] at h
        cases h
      | ok inside =>
        cases hothers : t.filesBelow (depth + 1) dir names with
        | error why =>
          rw [hinside, hothers] at h
          cases h
        | ok others =>
          rw [hinside, hothers] at h
          exact ⟨inside, others, rfl, (Except.ok.inj h).symm, Or.inr ⟨hdir, d, hlist, hinside⟩⟩
  · next hdir =>
    cases hothers : t.filesBelow (depth + 1) dir names with
    | error why =>
      rw [hothers] at h
      cases h
    | ok others =>
      rw [hothers] at h
      refine ⟨[dir.child n], others, rfl, (Except.ok.inj h).symm, Or.inl ⟨?_, rfl⟩⟩
      simpa using hdir

/-- What is listed is an entry below the directory, and no directory. -/
theorem Plain.of_mem_filesBelow (ht : t.Plain) {depth : Nat} {dir p : Path} {names : List Text}
    (hnames : ∀ n ∈ names, n.IsName ∧ ∃ e, t.entry? (dir.place t.here ++ [n]) = some e)
    {files : List Path} (h : t.filesBelow depth dir names = .ok files) (hp : p ∈ files) :
    ∃ below e, p = dir.descend below ∧ (∀ n ∈ below, n.IsName) ∧
      t.entry? (dir.place t.here ++ below) = some e ∧ t.isDirectory p = false := by
  induction depth generalizing dir names files with
  | zero =>
    cases names with
    | nil =>
      rw [filesBelow] at h
      cases h
      exact absurd hp List.not_mem_nil
    | cons n names =>
      rw [filesBelow] at h
      cases h
  | succ depth ih =>
    induction names generalizing files with
    | nil =>
      rw [filesBelow] at h
      cases h
      exact absurd hp List.not_mem_nil
    | cons n names ihNames =>
      obtain ⟨⟨hn, e, he⟩, hrest⟩ := List.forall_mem_cons.1 hnames
      obtain ⟨first, others, hothers, rfl, hfirst⟩ := filesBelow_cons_eq_ok h
      rcases List.mem_append.1 hp with hp | hp
      · obtain ⟨hleaf, rfl⟩ | ⟨hsub, d, hlist, hinside⟩ := hfirst
        · obtain rfl := List.mem_singleton.1 hp
          exact ⟨[n], e, rfl, fun m hm => List.mem_singleton.1 hm ▸ hn, he, hleaf⟩
        · obtain ⟨d', hlist', hentry, -, hd⟩ := ht.exists_list hsub
          obtain rfl : d = d' := Except.ok.inj (hlist.symm.trans hlist')
          have hplace := dir.place_child hn t.here
          have hlisted : ∀ m ∈ d.names, m.IsName ∧
              ∃ e, t.entry? ((dir.child n).place t.here ++ [m]) = some e := by
            intro m hm
            exact ⟨hd m hm, exists_entry_of_mem_names hentry hm⟩
          obtain ⟨below, e', rfl, hbelow, he', hleaf⟩ := ih hlisted hinside hp
          rw [hplace, List.append_assoc] at he'
          exact ⟨n :: below, e', rfl, List.forall_mem_cons.2 ⟨hn, hbelow⟩, he', hleaf⟩
      · exact ihNames hrest hothers hp

theorem mem_filesBelow_of_leaf {depth : Nat} {dir : Path} {names : List Text} {n : Text}
    (hn : n ∈ names) (hleaf : t.isDirectory (dir.child n) = false) {files : List Path}
    (h : t.filesBelow depth dir names = .ok files) : dir.child n ∈ files := by
  cases depth with
  | zero =>
    cases names with
    | nil => exact absurd hn List.not_mem_nil
    | cons m names =>
      rw [filesBelow] at h
      cases h
  | succ depth =>
    induction names generalizing files with
    | nil => exact absurd hn List.not_mem_nil
    | cons m names ih =>
      obtain ⟨first, others, hothers, rfl, hfirst⟩ := filesBelow_cons_eq_ok h
      rcases List.mem_cons.1 hn with rfl | hn
      · obtain ⟨-, rfl⟩ | ⟨hsub, -⟩ := hfirst
        · exact List.mem_append_left _ List.mem_cons_self
        · rw [hleaf] at hsub
          cases hsub
      · exact List.mem_append_right _ (ih hn hothers)

end FileTree

end LuaReference
