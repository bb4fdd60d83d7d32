import LuaReference.Proofs.Files.Arranged
import LuaReference.Proofs.Path.Order
import LuaReference.Sources
import Mathlib.Data.List.Nodup

/-!
# What a walk collects

The files that are collected below a directory, said without the walk: entries that are no
directories and that are read, when neither they nor a directory on the way to them is ignored. The
walk fails exactly when it enters a directory whose path is too long, and otherwise it lists these
files once each.
-/

namespace LuaReference

open FileTree (longestPath)

variable {s : Settings} {x : Exclusion} {p : Path}

/-- No directory on the way along the names is ignored. -/
def Exclusion.Passes (x : Exclusion) (p : Path) (names : List Text) : Prop :=
  ∀ above, above ≠ [] → above <+: names → x.ignores (p.descend above) true = false

theorem Exclusion.passes_nil (x : Exclusion) (p : Path) : x.Passes p [] :=
  fun _ hne hprefix => absurd (List.prefix_nil.1 hprefix) hne

theorem Exclusion.passes_cons {n : Text} {names : List Text} :
    x.Passes p (n :: names) ↔ x.ignores (p.child n) true = false ∧ x.Passes (p.child n) names := by
  constructor
  · intro h
    refine ⟨h [n] (by simp) (by simp), ?_⟩
    intro above _ hprefix
    exact h (n :: above) (by simp) (List.cons_prefix_cons.2 ⟨rfl, hprefix⟩)
  · rintro ⟨hfirst, hrest⟩ above hne hprefix
    obtain ⟨m, above, rfl⟩ := List.exists_cons_of_ne_nil hne
    obtain ⟨rfl, hbelow⟩ := List.cons_prefix_cons.1 hprefix
    by_cases habove : above = []
    · rw [habove]
      exact hfirst
    · exact hrest above habove hbelow

namespace Directory

/-- A file or link that is collected: it is read, and neither it nor a directory on the way to it is
ignored. -/
structure Collects (s : Settings) (x : Exclusion) (p : Path) (d : Directory) (names : List Text) :
    Prop where
  entry : ∃ e, (Entry.directory d).at? names = some e ∧ e.isDirectory = false
  reads : s.readsFile (p.descend names) = true
  kept : x.ignores (p.descend names) false = false
  way : x.Passes p names.dropLast

/-- A directory that is entered: neither it nor a directory on the way to it is ignored. -/
structure Enters (x : Exclusion) (p : Path) (d : Directory) (names : List Text) : Prop where
  below : names ≠ []
  entry : ∃ e, (Entry.directory d).at? names = some e ∧ e.isDirectory = true
  way : x.Passes p names

/-- A directory is entered whose path is too long. -/
def TooDeep (x : Exclusion) (p : Path) (d : Directory) : Prop :=
  ∃ names, d.Enters x p names ∧ longestPath < (p.descend names).text.utf8Size

/-! ### One entry -/

theorem Collects.ne_nil {d : Directory} {names : List Text} (h : d.Collects s x p names) :
    names ≠ [] := by
  rintro rfl
  obtain ⟨e, he, hkind⟩ := h.entry
  cases he
  cases hkind

variable {d rest inner : Directory} {m : Text} {e : Entry} {names : List Text}

theorem at?_cons_self (m : Text) (e : Entry) (rest : Directory) (below : List Text) :
    (Entry.directory (cons m e rest)).at? (m :: below) = e.at? below := by
  rw [Entry.at?, find?_cons, if_pos rfl, Option.bind_some]

theorem at?_cons_of_ne {n : Text} (h : m ≠ n) (e : Entry) (rest : Directory) (below : List Text) :
    (Entry.directory (cons m e rest)).at? (n :: below) =
      (Entry.directory rest).at? (n :: below) := by
  rw [Entry.at?, Entry.at?, find?_cons, if_neg h]

/-- An entry comes from the first one of a directory or from the rest, as names are distinct. -/
theorem at?_cons_iff (hm : m ∉ rest.names) (hne : names ≠ []) {found : Entry} :
    (Entry.directory (cons m e rest)).at? names = some found ↔
      (∃ below, names = m :: below ∧ e.at? below = some found) ∨
        (Entry.directory rest).at? names = some found := by
  obtain ⟨n, below, rfl⟩ := List.exists_cons_of_ne_nil hne
  by_cases hmn : m = n
  · subst hmn
    have hrest : (Entry.directory rest).at? (m :: below) = none := by
      have hnone : rest.find? m = none := by
        by_contra hsome
        exact hm (mem_names_iff.2 (Option.ne_none_iff_exists'.1 hsome))
      rw [Entry.at?, hnone, Option.bind_none]
    rw [at?_cons_self, hrest]
    constructor
    · exact fun h => Or.inl ⟨below, rfl, h⟩
    · rintro (⟨below', heq, h⟩ | h)
      · cases heq
        exact h
      · cases h
  · rw [at?_cons_of_ne hmn]
    constructor
    · exact Or.inr
    · rintro (⟨below', heq, -⟩ | h)
      · exact absurd (List.cons.inj heq).1.symm hmn
      · exact h

theorem Collects.of_rest (h : rest.Collects s x p names) (hm : m ∉ rest.names) :
    (cons m e rest).Collects s x p names := by
  obtain ⟨found, hfound, hkind⟩ := h.entry
  exact ⟨⟨found, (at?_cons_iff hm h.ne_nil).2 (Or.inr hfound), hkind⟩, h.reads, h.kept, h.way⟩

theorem Enters.of_rest (h : rest.Enters x p names) (hm : m ∉ rest.names) :
    (cons m e rest).Enters x p names := by
  obtain ⟨found, hfound, hkind⟩ := h.entry
  exact ⟨h.below, ⟨found, (at?_cons_iff hm h.below).2 (Or.inr hfound), hkind⟩, h.way⟩

theorem collects_leaf (hm : m ∉ rest.names) (he : e.isDirectory = false) :
    (cons m e rest).Collects s x p names ↔
      (names = [m] ∧ s.readsFile (p.child m) = true ∧ x.ignores (p.child m) false = false) ∨
        rest.Collects s x p names := by
  constructor
  · intro h
    obtain ⟨found, hfound, hkind⟩ := h.entry
    rcases (at?_cons_iff hm h.ne_nil).1 hfound with ⟨below, rfl, hbelow⟩ | hrest
    · obtain rfl := Entry.eq_nil_of_at? he hbelow
      exact Or.inl ⟨rfl, h.reads, h.kept⟩
    · exact Or.inr ⟨⟨found, hrest, hkind⟩, h.reads, h.kept, h.way⟩
  · rintro (⟨rfl, hreads, hkept⟩ | h)
    · exact ⟨⟨e, at?_cons_self m e rest [], he⟩, hreads, hkept, x.passes_nil p⟩
    · exact h.of_rest hm

theorem collects_sub (hm : m ∉ rest.names) :
    (sub m inner rest).Collects s x p names ↔
      (x.ignores (p.child m) true = false ∧
        ∃ below, names = m :: below ∧ inner.Collects s x (p.child m) below) ∨
        rest.Collects s x p names := by
  change (cons m (.directory inner) rest).Collects s x p names ↔ _
  constructor
  · intro h
    obtain ⟨found, hfound, hkind⟩ := h.entry
    rcases (at?_cons_iff hm h.ne_nil).1 hfound with ⟨below, rfl, hbelow⟩ | hrest
    · have hne : below ≠ [] := by
        rintro rfl
        cases hbelow
        cases hkind
      have hway := h.way
      rw [List.dropLast_cons_of_ne_nil hne, Exclusion.passes_cons] at hway
      exact Or.inl ⟨hway.1, below, rfl, ⟨found, hbelow, hkind⟩, h.reads, h.kept, hway.2⟩
    · exact Or.inr ⟨⟨found, hrest, hkind⟩, h.reads, h.kept, h.way⟩
  · rintro (⟨hopen, below, rfl, h⟩ | h)
    · obtain ⟨found, hfound, hkind⟩ := h.entry
      refine ⟨⟨found, ?_, hkind⟩, h.reads, h.kept, ?_⟩
      · rw [at?_cons_self]
        exact hfound
      · rw [List.dropLast_cons_of_ne_nil h.ne_nil]
        exact Exclusion.passes_cons.2 ⟨hopen, h.way⟩
    · exact h.of_rest hm

theorem enters_leaf (hm : m ∉ rest.names) (he : e.isDirectory = false) :
    (cons m e rest).Enters x p names ↔ rest.Enters x p names := by
  refine ⟨fun h => ?_, fun h => h.of_rest hm⟩
  obtain ⟨found, hfound, hkind⟩ := h.entry
  rcases (at?_cons_iff hm h.below).1 hfound with ⟨below, rfl, hbelow⟩ | hrest
  · obtain rfl := Entry.eq_nil_of_at? he hbelow
    cases hbelow
    rw [he] at hkind
    cases hkind
  · exact ⟨h.below, ⟨found, hrest, hkind⟩, h.way⟩

theorem enters_sub (hm : m ∉ rest.names) :
    (sub m inner rest).Enters x p names ↔
      (x.ignores (p.child m) true = false ∧
        ∃ below, names = m :: below ∧ (below = [] ∨ inner.Enters x (p.child m) below)) ∨
        rest.Enters x p names := by
  change (cons m (.directory inner) rest).Enters x p names ↔ _
  constructor
  · intro h
    obtain ⟨found, hfound, hkind⟩ := h.entry
    rcases (at?_cons_iff hm h.below).1 hfound with ⟨below, rfl, hbelow⟩ | hrest
    · obtain ⟨hopen, hway⟩ := Exclusion.passes_cons.1 h.way
      refine Or.inl ⟨hopen, below, rfl, ?_⟩
      by_cases hne : below = []
      · exact Or.inl hne
      · exact Or.inr ⟨hne, ⟨found, hbelow, hkind⟩, hway⟩
    · exact Or.inr ⟨h.below, ⟨found, hrest, hkind⟩, h.way⟩
  · rintro (⟨hopen, below, rfl, hbelow⟩ | h)
    · refine ⟨List.cons_ne_nil _ _, ?_, Exclusion.passes_cons.2 ⟨hopen, ?_⟩⟩
      · rw [at?_cons_self]
        rcases hbelow with rfl | h
        · exact ⟨_, rfl, rfl⟩
        · exact h.entry
      · rcases hbelow with rfl | h
        · exact x.passes_nil _
        · exact h.way
    · exact h.of_rest hm

theorem tooDeep_leaf (hm : m ∉ rest.names) (he : e.isDirectory = false) :
    (cons m e rest).TooDeep x p ↔ rest.TooDeep x p :=
  exists_congr fun _ => and_congr_left' (enters_leaf hm he)

theorem tooDeep_sub (hm : m ∉ rest.names) :
    (sub m inner rest).TooDeep x p ↔
      (x.ignores (p.child m) true = false ∧
        (longestPath < (p.child m).text.utf8Size ∨ inner.TooDeep x (p.child m))) ∨
        rest.TooDeep x p := by
  constructor
  · rintro ⟨names, henters, hlong⟩
    rcases (enters_sub hm).1 henters with ⟨hopen, below, rfl, rfl | hbelow⟩ | hrest
    · exact Or.inl ⟨hopen, Or.inl hlong⟩
    · exact Or.inl ⟨hopen, Or.inr ⟨below, hbelow, hlong⟩⟩
    · exact Or.inr ⟨names, hrest, hlong⟩
  · rintro (⟨hopen, hlong | ⟨below, hbelow, hlong⟩⟩ | ⟨names, hrest, hlong⟩)
    · exact ⟨[m], (enters_sub hm).2 (Or.inl ⟨hopen, [], rfl, Or.inl rfl⟩), hlong⟩
    · exact ⟨m :: below, (enters_sub hm).2 (Or.inl ⟨hopen, below, rfl, Or.inr hbelow⟩), hlong⟩
    · exact ⟨names, (enters_sub hm).2 (Or.inr hrest), hlong⟩

/-! ### The whole directory -/

/-- Some ways down from `p` that no two of are the same, to all that is collected. -/
structure WaysTo (s : Settings) (x : Exclusion) (p : Path) (d : Directory)
    (ways : List (List Text)) : Prop where
  nodup : ways.Nodup
  mem_iff : ∀ names, names ∈ ways ↔ d.Collects s x p names

/-- A walk is refused when it comes too deep, and otherwise lists what is collected. -/
def Walks (s : Settings) (x : Exclusion) (p : Path) (d : Directory) : Prop :=
  (d.TooDeep x p ∧ d.sources s x p = .error .tooLong) ∨
    (¬ d.TooDeep x p ∧ ∃ ways, d.WaysTo s x p ways ∧ d.sources s x p = .ok (ways.map p.descend))

theorem WaysTo.head_mem {ways : List (List Text)} (h : rest.WaysTo s x p ways) {n : Text}
    {below : List Text} (hmem : n :: below ∈ ways) : n ∈ rest.names := by
  obtain ⟨found, hfound, -⟩ := ((h.mem_iff _).1 hmem).entry
  rw [Entry.at?] at hfound
  obtain ⟨e, he, -⟩ := Option.bind_eq_some_iff.1 hfound
  exact mem_names_iff.2 ⟨e, he⟩

theorem WaysTo.leaf {ways : List (List Text)} (h : rest.WaysTo s x p ways) (hm : m ∉ rest.names)
    (he : e.isDirectory = false) :
    ∃ ways', (cons m e rest).WaysTo s x p ways' ∧
      sources.filesAt s x p m (ways.map p.descend) = ways'.map p.descend := by
  rw [sources.filesAt]
  by_cases hread : x.ignores (p.child m) false = false ∧ s.readsFile (p.child m) = true
  · have hcond : (!x.ignores (p.child m) false && s.readsFile (p.child m)) = true := by
      simp [hread.1, hread.2]
    rw [if_pos hcond]
    refine ⟨[m] :: ways, ⟨?_, ?_⟩, rfl⟩
    · exact List.nodup_cons.2 ⟨fun hmem => hm (h.head_mem hmem), h.nodup⟩
    · intro names
      rw [List.mem_cons, collects_leaf hm he, h.mem_iff, and_iff_left ⟨hread.2, hread.1⟩]
  · have hcond : ¬ (!x.ignores (p.child m) false && s.readsFile (p.child m)) = true := by
      simpa using fun hkept hreads => hread ⟨hkept, hreads⟩
    rw [if_neg hcond]
    refine ⟨ways, ⟨h.nodup, ?_⟩, rfl⟩
    intro names
    rw [collects_leaf hm he, h.mem_iff]
    exact ⟨Or.inr, fun hor => hor.resolve_left fun hleaf => hread ⟨hleaf.2.2, hleaf.2.1⟩⟩

theorem WaysTo.sub {below behind : List (List Text)} (h : inner.WaysTo s x (p.child m) below)
    (hrest : rest.WaysTo s x p behind) (hm : m ∉ rest.names)
    (hopen : x.ignores (p.child m) true = false) :
    (sub m inner rest).WaysTo s x p (below.map (m :: ·) ++ behind) where
  nodup := by
    have hinner : (below.map (m :: ·)).Nodup :=
      List.Nodup.map (fun _ _ heq => (List.cons.inj heq).2) h.nodup
    refine List.nodup_append.2 ⟨hinner, hrest.nodup, ?_⟩
    rintro names hnames names' hnames' rfl
    obtain ⟨way, -, rfl⟩ := List.mem_map.1 hnames
    exact hm (hrest.head_mem hnames')
  mem_iff := by
    intro names
    rw [List.mem_append, List.mem_map, collects_sub hm, hrest.mem_iff]
    refine or_congr_left ?_
    constructor
    · rintro ⟨way, hway, rfl⟩
      exact ⟨hopen, way, rfl, (h.mem_iff way).1 hway⟩
    · rintro ⟨-, way, rfl, hway⟩
      exact ⟨way, (h.mem_iff way).2 hway, rfl⟩

theorem Walks.leaf (h : rest.Walks s x p) (hm : m ∉ rest.names) (he : e.isDirectory = false)
    (hsources : (cons m e rest).sources s x p =
      (rest.sources s x p).map (sources.filesAt s x p m)) : (cons m e rest).Walks s x p := by
  rw [Walks, tooDeep_leaf hm he, hsources]
  rcases h with ⟨hdeep, hrest⟩ | ⟨hdeep, ways, hways, hrest⟩
  · exact Or.inl ⟨hdeep, by rw [hrest]; rfl⟩
  · obtain ⟨ways', hways', heq⟩ := hways.leaf hm he
    exact Or.inr ⟨hdeep, ways', hways', by rw [hrest, ← heq]; rfl⟩

theorem Walks.sub (h : inner.Walks s x (p.child m)) (hrest : rest.Walks s x p)
    (hm : m ∉ rest.names) : (sub m inner rest).Walks s x p := by
  rw [Walks, tooDeep_sub hm, sources]
  by_cases hopen : x.ignores (p.child m) true = false
  · rw [if_neg (by simp [hopen])]
    by_cases hlong : longestPath < (p.child m).text.utf8Size
    · rw [if_pos hlong]
      exact Or.inl ⟨Or.inl ⟨hopen, Or.inl hlong⟩, rfl⟩
    rw [if_neg hlong]
    rcases h with ⟨hdeep, hinner⟩ | ⟨hdeep, below, hbelow, hinner⟩
    · exact Or.inl ⟨Or.inl ⟨hopen, Or.inr hdeep⟩, by rw [hinner]; rfl⟩
    rcases hrest with ⟨hdeep', hsources⟩ | ⟨hdeep', behind, hbehind, hsources⟩
    · exact Or.inl ⟨Or.inr hdeep', by rw [hinner, hsources]; rfl⟩
    · refine Or.inr ⟨?_, _, hbelow.sub hbehind hm hopen, ?_⟩
      · rintro (⟨-, hdeep'' | hdeep''⟩ | hdeep'')
        · exact hlong hdeep''
        · exact hdeep hdeep''
        · exact hdeep' hdeep''
      · rw [hinner, hsources, List.map_append, List.map_map]
        rfl
  · rw [if_pos (by simpa using hopen)]
    rcases hrest with ⟨hdeep, hsources⟩ | ⟨hdeep, behind, hbehind, hsources⟩
    · exact Or.inl ⟨Or.inr hdeep, hsources⟩
    · refine Or.inr ⟨fun hor => hor.elim (fun hclosed => hopen hclosed.1) hdeep, behind,
        ⟨hbehind.nodup, ?_⟩, hsources⟩
      intro names
      rw [hbehind.mem_iff, collects_sub hm]
      exact ⟨Or.inr, fun hor => hor.resolve_left fun hclosed => hopen hclosed.1⟩

theorem not_collects_empty : ¬ empty.Collects s x p names := by
  intro h
  obtain ⟨found, hfound, -⟩ := h.entry
  obtain ⟨n, below, rfl⟩ := List.exists_cons_of_ne_nil h.ne_nil
  cases hfound

theorem not_tooDeep_empty : ¬ empty.TooDeep x p := by
  rintro ⟨names, henters, -⟩
  obtain ⟨found, hfound, -⟩ := henters.entry
  obtain ⟨n, below, rfl⟩ := List.exists_cons_of_ne_nil henters.below
  cases hfound

theorem Distinct.walks (hd : d.Distinct) (s : Settings) (x : Exclusion) (p : Path) :
    d.Walks s x p := by
  induction d generalizing p with
  | empty =>
    refine Or.inr ⟨not_tooDeep_empty, [], ⟨List.nodup_nil, fun names => ?_⟩, rfl⟩
    exact iff_of_false List.not_mem_nil not_collects_empty
  | file m bytes rest ih => exact (ih hd.2 p).leaf (e := .file bytes) hd.1 rfl rfl
  | link m target rest ih => exact (ih hd.2 p).leaf (e := .link target) hd.1 rfl rfl
  | sub m inner rest ihInner ih => exact (ihInner hd.2.1 (p.child m)).sub (ih hd.2.2 p) hd.1

end Directory

end LuaReference
