import LuaReference.Proofs.Project.Loading

/-!
# Building a project again

Edits in the directories for documents do not change what is built: no source file lies there, and
an empty directory that is new in a source root holds no source file.
-/

namespace LuaReference

open FileTree (Edits longestPath)

/-! ### The files of a directory -/

namespace Directory

variable {s : Settings} {x : Exclusion} {p : Path} {n : Text} {d inner : Directory}

/-- A new empty directory holds no source file, if its path is not too long. -/
theorem sources_set_new (hn : d.find? n = none)
    (hsize : (p.child n).text.utf8Size ≤ longestPath) :
    (d.set n (some (.directory .empty))).sources s x p = d.sources s x p := by
  induction d with
  | empty =>
    have hset : set n (some (.directory .empty)) .empty = .sub n .empty .empty := rfl
    rw [hset, sources, sources]
    split
    · rfl
    · rw [if_neg (Nat.not_lt.2 hsize)]
      rfl
  | file m b rest ih =>
    rw [find?] at hn
    split at hn
    · cases hn
    · next hm => rw [set, if_neg hm, sources, sources, ih hn]
  | link m target rest ih =>
    rw [find?] at hn
    split at hn
    · cases hn
    · next hm => rw [set, if_neg hm, sources, sources, ih hn]
  | sub m below rest _ ih =>
    rw [find?] at hn
    split at hn
    · cases hn
    · next hm => rw [set, if_neg hm, sources, sources, ih hn]

theorem sources_set_sub {inner' : Directory} (hn : d.find? n = some (.directory inner))
    (hsame : inner'.sources s x (p.child n) = inner.sources s x (p.child n)) :
    (d.set n (some (.directory inner'))).sources s x p = d.sources s x p := by
  induction d with
  | empty => cases hn
  | file m b rest ih =>
    rw [find?] at hn
    split at hn
    · cases hn
    · next hm => rw [set, if_neg hm, sources, sources, ih hn]
  | link m target rest ih =>
    rw [find?] at hn
    split at hn
    · cases hn
    · next hm => rw [set, if_neg hm, sources, sources, ih hn]
  | sub m below rest _ ih =>
    rw [find?] at hn
    split at hn
    · next hm =>
      cases hn
      subst hm
      rw [set, if_pos rfl]
      change (sub m inner' rest).sources s x p = _
      rw [sources, sources, hsame]
    · next hm => rw [set, if_neg hm, sources, sources, ih hn]

theorem exists_sources_setAt {above : List Text} {d' : Directory}
    (habove : (Entry.directory d).at? above = some (.directory d'))
    (hfree : (Entry.directory d).at? (above ++ [n]) = none)
    (hsize : (p.descend (above ++ [n])).text.utf8Size ≤ longestPath) :
    ∃ d'', Entry.setAt (some (.directory .empty)) (above ++ [n]) (.directory d) = .directory d'' ∧
      ∀ s x, d''.sources s x p = d.sources s x p := by
  induction above generalizing d p with
  | nil =>
    have hn : d.find? n = none := by
      rw [List.nil_append, Entry.at?, Option.bind_eq_none_iff] at hfree
      by_contra hsome
      obtain ⟨e, he⟩ := Option.ne_none_iff_exists'.1 hsome
      exact absurd (hfree e he) (Option.some_ne_none e)
    exact ⟨_, rfl, fun s x => sources_set_new hn hsize⟩
  | cons m above ih =>
    rw [Entry.at?] at habove
    obtain ⟨e, hm, habove⟩ := Option.bind_eq_some_iff.1 habove
    rw [List.cons_append, Entry.at?, hm, Option.bind_some] at hfree
    cases e with
    | file b => cases above <;> cases habove
    | link target => cases above <;> cases habove
    | directory inner =>
      obtain ⟨inner', hset, hsame⟩ := ih habove hfree hsize
      obtain ⟨k, rest, hrest⟩ := List.exists_cons_of_ne_nil (l := above ++ [n]) (by simp)
      refine ⟨d.set m (some (.directory inner')), ?_, fun s x => sources_set_sub hm (hsame s x)⟩
      rw [List.cons_append, hrest, Entry.setAt, hm, ← hrest]
      dsimp only
      rw [hset]

theorem mem_filesAt {found : List Path} {q : Path} (h : q ∈ sources.filesAt s x p n found) :
    q = p.child n ∨ q ∈ found := by
  rw [sources.filesAt] at h
  split at h
  · exact List.mem_cons.1 h
  · exact Or.inr h

theorem Plain.exists_names_of_mem_sources (hd : d.Plain) {found : List Path}
    (h : d.sources s x p = .ok found) {q : Path} (hq : q ∈ found) :
    ∃ below, q = p.descend below ∧ ∀ n ∈ below, n.IsName := by
  induction d generalizing p found with
  | empty =>
    cases h
    exact absurd hq List.not_mem_nil
  | file m b rest ih =>
    rw [sources] at h
    cases hrest : rest.sources s x p with
    | error why =>
      rw [hrest] at h
      cases h
    | ok others =>
      rw [hrest] at h
      obtain rfl := Except.ok.inj h
      rcases mem_filesAt hq with rfl | hq
      · exact ⟨[m], rfl, fun n hn => List.mem_singleton.1 hn ▸ hd.1⟩
      · exact ih hd.2 hrest hq
  | link m target rest => exact hd.elim
  | sub m below rest ihBelow ih =>
    obtain ⟨hm, hbelow, hrest⟩ := hd
    rw [sources] at h
    split at h
    · exact ih hrest h hq
    split at h
    · cases h
    cases hinside : below.sources s x (p.child m) with
    | error why =>
      rw [hinside] at h
      cases h
    | ok inside =>
      cases hothers : rest.sources s x p with
      | error why =>
        rw [hinside, hothers] at h
        cases h
      | ok others =>
        rw [hinside, hothers] at h
        obtain rfl : inside ++ others = found := Except.ok.inj h
        rcases List.mem_append.1 hq with hq | hq
        · obtain ⟨names, rfl, hnames⟩ := ihBelow hbelow hinside hq
          exact ⟨m :: names, rfl, List.forall_mem_cons.2 ⟨hm, hnames⟩⟩
        · exact ih hrest hothers hq

end Directory

variable {t t' : FileTree} {files dirs : List Text → Prop}

/-! ### The files of a source root -/

/-- A directory that is made below a source root adds no source file. -/
theorem exists_sources_of_make {u : FileTree} {place between : List Text} {n : Text}
    {d d' : Directory} {root : Path} (hd : u.entry? place = some (.directory d))
    (habove : u.entry? (place ++ between) = some (.directory d'))
    (hfree : u.entry? (place ++ (between ++ [n])) = none)
    (hsize : (root.descend (between ++ [n])).text.utf8Size ≤ longestPath) :
    ∃ d'', FileTree.entry? (u.setEntry (place ++ (between ++ [n])) (some (.directory .empty))) place =
        some (.directory d'') ∧
      ∀ s x, d''.sources s x root = d.sources s x root := by
  rw [FileTree.entry?_append, hd, Option.bind_some] at habove hfree
  obtain ⟨d'', hset, hsame⟩ := Directory.exists_sources_setAt habove hfree hsize
  have hne : between ++ [n] ≠ [] := by simp
  have hbelow := Entry.at?_setAt_append hd hne (some (.directory .empty))
  refine ⟨d'', ?_, hsame⟩
  exact hbelow.trans (congrArg some hset)

/-- No file is written in the source root, and the directories that are made there have paths that
are not too long. -/
structure RootKept (files dirs : List Text → Prop) (t : FileTree) (root : Path) : Prop where
  isDirectory : t.isDirectory root = true
  apart : ∀ place, files place → Apart place (root.place t.here)
  short : ∀ below, below ≠ [] → dirs (root.place t.here ++ below) →
    t.entry? (root.place t.here ++ below) = none →
      (root.descend below).text.utf8Size ≤ longestPath

namespace RootKept

variable {root : Path}

theorem not_files (h : RootKept files dirs t root) (below : List Text) :
    ¬ files (root.place t.here ++ below) := by
  intro hfiles
  exact (h.apart _ hfiles).2 (List.prefix_append _ _)

theorem short_of_free (h : RootKept files dirs t root) {u : FileTree}
    (hedits : Edits files dirs t u) {below : List Text} (hne : below ≠ [])
    (hplace : dirs (root.place t.here ++ below))
    (hfree : u.entry? (root.place t.here ++ below) = none) :
    (root.descend below).text.utf8Size ≤ longestPath := by
  refine h.short below hne hplace ?_
  by_contra hsome
  obtain ⟨e, he⟩ := Option.ne_none_iff_exists'.1 hsome
  obtain ⟨e', he'⟩ := hedits.exists_entry (h.not_files below) he
  rw [hfree] at he'
  cases he'

theorem exists_sources (h : RootKept files dirs t root) (hedits : Edits files dirs t t')
    {d : Directory} (hd : t.entry? (root.place t.here) = some (.directory d)) :
    ∃ d', t'.entry? (root.place t.here) = some (.directory d') ∧
      ∀ s x, d'.sources s x root = d.sources s x root := by
  induction hedits with
  | refl => exact ⟨d, hd, fun _ _ => rfl⟩
  | @touch u above n hu bytes hplace hn hnot ih =>
    obtain ⟨d', hd', hsame⟩ := ih
    refine ⟨d', ?_, hsame⟩
    rw [← hd']
    exact Entry.at?_setAt_of_apart _ (h.apart _ hplace) u.top
  | @make u above n _ hu hplace hn habove hfree ih =>
    obtain ⟨d', hd', hsame⟩ := ih
    -- made below the root, it is one of the short paths; made elsewhere, it is apart from the root
    by_cases hin : root.place t.here <+: above ++ [n]
    · obtain ⟨below, hbelow⟩ := hin
      obtain rfl | ⟨between, m, rfl⟩ := List.eq_nil_or_concat below
      · rw [← hbelow, List.append_nil, hd'] at hfree
        cases hfree
      · rw [List.concat_eq_append] at hbelow
        have hsplit : root.place t.here ++ between = above ∧ [m] = [n] :=
          List.append_inj' (by rw [List.append_assoc, hbelow]) rfl
        obtain ⟨rfl, hm⟩ := hsplit
        obtain rfl := List.singleton_inj.1 hm
        rw [List.append_assoc] at hplace hfree ⊢
        have hsize := h.short_of_free hu (by simp) hplace hfree
        obtain ⟨d'', hd'', hnew⟩ := exists_sources_of_make hd' habove hfree hsize
        exact ⟨d'', hd'', fun s x => (hnew s x).trans (hsame s x)⟩
    · have hapart : Apart (above ++ [n]) (root.place t.here) := by
        refine ⟨?_, hin⟩
        rintro ⟨below, hbelow⟩
        rw [← hbelow] at hd'
        obtain ⟨d'', hd''⟩ := FileTree.exists_directory_of_prefix hd'
        rw [hfree] at hd''
        cases hd''
      refine ⟨d', ?_, hsame⟩
      rw [← hd']
      exact Entry.at?_setAt_of_apart _ hapart u.top

end RootKept

/-! ### Reading the sources -/

variable {s : Settings} {roots paths : List Path}

theorem collectRoot_result {root : Path} (h : t.isDirectory root = true) :
    (t.collectRoot s root).result = .ok paths ↔
      ∃ x, (FileTree.exclusionFor s root).result = .ok x ∧ ∃ d, t.list root = .ok d ∧
        ∃ found, d.sources s x root = .ok found ∧ found.mergeSort Path.sortsBefore = paths := by
  rw [FileTree.collectRoot, if_pos h]
  simp

theorem collectRoot_of_edits {root : Path} (ht : t.Plain) (hroot : RootKept files dirs t root)
    (hedits : Edits files dirs t t') (h : (t.collectRoot s root).result = .ok paths) :
    (t'.collectRoot s root).result = .ok paths ∧ ∀ p ∈ paths, ¬ files (p.place t.here) := by
  obtain ⟨x, hx, d, hlist, found, hfound, rfl⟩ := (collectRoot_result hroot.isDirectory).1 h
  have hd := ht.list_eq_ok_iff.1 hlist
  have hentry : t.entry? (root.place t.here) = some (.directory d) := FileTree.locate_holds hd
  obtain ⟨d', hd', hsame⟩ := hroot.exists_sources hedits hentry
  have hlist' : t'.list root = .ok d' := by
    refine (hedits.plain ht).list_eq_ok_iff.2 ?_
    rw [hedits.here]
    exact ht.locate_mono hedits.keepsDirectories hedits.here (by decide) hd hd' rfl
  have hroot' := hedits.isDirectory ht hroot.isDirectory
  refine ⟨(collectRoot_result hroot').2 ⟨x, hx, d', hlist', found, ?_, rfl⟩, ?_⟩
  · rw [hsame, hfound]
  · intro p hp
    have hplain : d.Plain := ht.top.of_at? hentry
    obtain ⟨below, rfl, hbelow⟩ :=
      hplain.exists_names_of_mem_sources hfound (List.mem_mergeSort.1 hp)
    rw [root.place_descend hbelow]
    exact hroot.not_files below

theorem collect_of_edits (ht : t.Plain) (hroots : ∀ root ∈ roots, RootKept files dirs t root)
    (hedits : Edits files dirs t t') (h : (t.collect s roots).result = .ok paths) :
    (t'.collect s roots).result = .ok paths ∧ ∀ p ∈ paths, ¬ files (p.place t.here) := by
  induction roots generalizing paths with
  | nil =>
    rw [FileTree.collect, Report.done_result] at h
    rw [FileTree.collect, Report.done_result]
    refine ⟨h, ?_⟩
    intro p hp
    exact absurd (h ▸ hp) List.not_mem_nil
  | cons root roots ih =>
    obtain ⟨hroot, hothers⟩ := List.forall_mem_cons.1 hroots
    rw [FileTree.collect] at h ⊢
    simp only [Report.bind_result, Report.pure_result] at h ⊢
    obtain ⟨first, hfirst, others, hrest, rfl⟩ := h
    obtain ⟨hfirst', hkept⟩ := collectRoot_of_edits ht hroot hedits hfirst
    obtain ⟨hrest', hkeptRest⟩ := ih hothers hrest
    refine ⟨⟨first, hfirst', others, hrest', rfl⟩, ?_⟩
    intro p hp
    exact (List.mem_append.1 hp).elim (hkept p) (hkeptRest p)

theorem scanFiles_of_edits (ht : t.Plain) (hedits : Edits files dirs t t')
    (hpaths : ∀ p ∈ paths, ¬ files (p.place t.here)) {before so : Scanned}
    (h : (t.scanFiles s before paths).result = .ok so) :
    (t'.scanFiles s before paths).result = .ok so := by
  induction paths generalizing before with
  | nil => exact h
  | cons p paths ih =>
    obtain ⟨hp, hothers⟩ := List.forall_mem_cons.1 hpaths
    rw [FileTree.scanFiles, Report.bind_result] at h ⊢
    obtain ⟨next, hnext, hrest⟩ := h
    refine ⟨next, ?_, ih hothers hrest⟩
    rw [FileTree.scanFile, Report.bind_result] at hnext ⊢
    obtain ⟨bytes, hread, hscan⟩ := hnext
    rw [Report.ofFiles_result] at hread
    exact ⟨bytes, (Report.ofFiles_result _ _).2 (readBytes_of_edits ht hedits hp hread), hscan⟩

theorem scanSources_of_edits (ht : t.Plain) (hroots : ∀ root ∈ roots, RootKept files dirs t root)
    (hedits : Edits files dirs t t') {so : Scanned}
    (h : (t.scanSources s roots).result = .ok so) : (t'.scanSources s roots).result = .ok so := by
  rw [FileTree.scanSources] at h ⊢
  simp only [Report.bind_result] at h ⊢
  obtain ⟨paths, hcollect, all, hscan, hlog⟩ := h
  obtain ⟨hcollect', hkept⟩ := collect_of_edits ht hroots hedits hcollect
  exact ⟨paths, hcollect', all, scanFiles_of_edits ht hedits hkept hscan, hlog⟩

/-! ### Building -/

theorem build_result {t : FileTree} {p : Project} {nameSpace : Option Text} {b : Build} :
    (p.build t nameSpace).result = .ok b ↔
      ∃ so, (t.scanSources p.settings p.roots).result = .ok so ∧
        b.scanned = { so with registry := so.registry.override nameSpace } ∧
        b.scanned.registry.generate p.settings = .ok b.files := by
  rw [Project.build, Report.bind_result]
  refine exists_congr fun so => and_congr_right fun _ => ?_
  obtain ⟨scanned, files⟩ := b
  dsimp only
  rw [Report.log_bind_result]
  cases hgenerate : (so.registry.override nameSpace).generate p.settings with
  | error f =>
    refine iff_of_false (Report.failed_result f _) ?_
    rintro ⟨rfl, hfiles⟩
    rw [hgenerate] at hfiles
    cases hfiles
  | ok made =>
    rw [Report.done_result, Build.mk.injEq]
    constructor
    · rintro ⟨rfl, rfl⟩
      exact ⟨rfl, hgenerate⟩
    · rintro ⟨rfl, hfiles⟩
      exact ⟨rfl, Except.ok.inj (hgenerate.symm.trans hfiles)⟩

/-- A project whose source roots are kept is built again with the same documents. -/
theorem build_of_edits {p : Project} {nameSpace : Option Text} {b : Build} (ht : t.Plain)
    (hroots : ∀ root ∈ p.roots, RootKept files dirs t root) (hedits : Edits files dirs t t')
    (h : (p.build t nameSpace).result = .ok b) : (p.build t' nameSpace).result = .ok b := by
  obtain ⟨so, hscan, hscanned, hfiles⟩ := build_result.1 h
  have hscan' := scanSources_of_edits ht hroots hedits hscan
  exact build_result.2 ⟨so, hscan', hscanned, hfiles⟩

end LuaReference
