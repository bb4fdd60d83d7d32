import LuaReference.Proofs.Files.Slashed
import LuaReference.Proofs.Project.Scanning
import LuaReference.Proofs.Project.Walk

/-!
# What is collected, and in which order

The source files are listed root by root, those below one root in the order of their paths, however
the directories list their entries. This fails only when a directory is entered whose path is too
long.
-/

namespace LuaReference

open FileTree (longestPath)

variable {s : Settings} {rules : List IgnoreRule} {t t' : FileTree} {d d' : Directory}
  {root : Path} {names : List Text}

/-! ### Patterns -/

/-- The rules that the patterns of the settings say, none of which nests too deeply. -/
structure Settings.Excludes (s : Settings) (rules : List IgnoreRule) : Prop where
  read : Exclusion.rulesOf s.exclude = .ok rules
  shallow : rules.any IgnoreRule.isTooDeep = false

/-- The rules as they hold below a root. -/
def Exclusion.under (rules : List IgnoreRule) (root : Path) : Exclusion :=
  ⟨withoutHere root.text, rules⟩

/-- Whether patterns are valid does not depend on the root. -/
theorem exclusionFor_result {x : Exclusion} : (FileTree.exclusionFor s root).result = .ok x ↔
    ∃ rules, s.Excludes rules ∧ x = .under rules root := by
  rw [FileTree.exclusionFor, Exclusion.of]
  cases hrules : Exclusion.rulesOf s.exclude with
  | error f =>
    refine iff_of_false (Report.failed_result f x) ?_
    rintro ⟨rules, hexcludes, -⟩
    rw [hexcludes.read] at hrules
    cases hrules
  | ok rules =>
    dsimp only [Except.map]
    constructor
    · intro h
      split at h
      · cases h
      · next hshallow => exact ⟨rules, ⟨hrules, by simpa using hshallow⟩, (Except.ok.inj h).symm⟩
    · rintro ⟨rules', hexcludes, rfl⟩
      obtain rfl := Except.ok.inj (hrules.symm.trans hexcludes.read)
      rw [if_neg (by simpa using hexcludes.shallow)]
      rfl

/-! ### One directory -/

/-- The sorted list of what is collected below a directory. -/
theorem Directory.Distinct.sorted_sources (hd : d.Distinct) (s : Settings) (x : Exclusion)
    (p : Path) (hnames : ∀ names, d.Collects s x p names → ∀ n ∈ names, n.IsName) :
    (d.TooDeep x p ∧ d.sources s x p = .error .tooLong) ∨
      (¬ d.TooDeep x p ∧ ∃ found, d.sources s x p = .ok found ∧
        ((found.mergeSort Path.sortsBefore).Pairwise fun q q' => q.key < q'.key) ∧
        ∀ q, q ∈ found.mergeSort Path.sortsBefore ↔
          ∃ names, q = p.descend names ∧ d.Collects s x p names) := by
  refine (hd.walks s x p).imp_right fun ⟨hdeep, ways, hways, hsources⟩ => ?_
  have hinjective : ∀ way ∈ ways, ∀ way' ∈ ways,
      (p.descend way).key = (p.descend way').key → way = way' := by
    intro way hway way' hway' hkey
    exact p.descend_key_injective (hnames way ((hways.mem_iff way).1 hway))
      (hnames way' ((hways.mem_iff way').1 hway')) hkey
  refine ⟨hdeep, _, hsources, Path.pairwise_mergeSort_lt ?_ ?_, ?_⟩
  · exact List.Nodup.map_on (fun way hway way' hway' heq =>
      hinjective way hway way' hway' (congrArg Path.key heq)) hways.nodup
  · intro q hq q' hq' hkey
    obtain ⟨way, hway, rfl⟩ := List.mem_map.1 hq
    obtain ⟨way', hway', rfl⟩ := List.mem_map.1 hq'
    rw [hinjective way hway way' hway' hkey]
  · intro q
    rw [List.mem_mergeSort, List.mem_map]
    constructor
    · rintro ⟨way, hway, rfl⟩
      exact ⟨way, rfl, (hways.mem_iff way).1 hway⟩
    · rintro ⟨way, rfl, hway⟩
      exact ⟨way, (hways.mem_iff way).2 hway, rfl⟩

theorem Entry.SameAt.exists_isDirectory {e e' : Entry} (h : e.SameAt e') (names : List Text)
    (kind : Bool) : (∃ found, e'.at? names = some found ∧ found.isDirectory = kind) ↔
      ∃ found, e.at? names = some found ∧ found.isDirectory = kind := by
  have hshape : ∀ found : Entry, found.shape.isDirectory = found.isDirectory := by
    intro found
    cases found <;> rfl
  have hsame := h names
  constructor
  · rintro ⟨found, hfound, hkind⟩
    rw [hfound, Option.map_some, eq_comm] at hsame
    obtain ⟨other, hother, heq⟩ := Option.map_eq_some_iff.1 hsame
    exact ⟨other, hother, by rw [← hshape, heq, hshape, hkind]⟩
  · rintro ⟨found, hfound, hkind⟩
    rw [hfound, Option.map_some] at hsame
    obtain ⟨other, hother, heq⟩ := Option.map_eq_some_iff.1 hsame
    exact ⟨other, hother, by rw [← hshape, heq, hshape, hkind]⟩

section
variable (h : (Entry.directory d).SameAt (.directory d')) {x : Exclusion} {p : Path}
include h

theorem collects_of_sameAt : d'.Collects s x p names ↔ d.Collects s x p names :=
  ⟨fun hc => ⟨(h.exists_isDirectory names false).1 hc.entry, hc.reads, hc.kept, hc.way⟩,
    fun hc => ⟨(h.exists_isDirectory names false).2 hc.entry, hc.reads, hc.kept, hc.way⟩⟩

theorem tooDeep_of_sameAt : d'.TooDeep x p ↔ d.TooDeep x p := by
  refine exists_congr fun names => and_congr_left' ?_
  exact ⟨fun he => ⟨he.below, (h.exists_isDirectory names true).1 he.entry, he.way⟩,
    fun he => ⟨he.below, (h.exists_isDirectory names true).2 he.entry, he.way⟩⟩

end

/-! ### A tree -/

/-- All names can stand in paths, and none stands twice in a directory. -/
structure FileTree.WellNamed (t : FileTree) : Prop where
  named : t.top.Named
  distinct : t.top.Distinct

theorem FileTree.exists_entry_of_list (hd : t.list root = .ok d) :
    ∃ place, t.top.at? place = some (.directory d) := by
  obtain ⟨place, hl⟩ := FileTree.list_eq_ok_iff.1 hd
  exact ⟨place, FileTree.locate_holds hl⟩

theorem Entry.Distinct.of_list (h : t.top.Distinct) (hd : t.list root = .ok d) : d.Distinct := by
  obtain ⟨place, hentry⟩ := FileTree.exists_entry_of_list hd
  exact h.of_at? hentry

namespace FileTree.WellNamed

theorem isName_of_collects (h : t.WellNamed) (hd : t.list root = .ok d) {x : Exclusion} {p : Path}
    (hc : d.Collects s x p names) : ∀ n ∈ names, n.IsName := by
  obtain ⟨place, hentry⟩ := FileTree.exists_entry_of_list hd
  obtain ⟨-, hnamed⟩ := h.named.of_at? hentry
  obtain ⟨e, he, -⟩ := hc.entry
  exact (hnamed.of_at? he).1

/-- What is collected below a root, or the refusal of a directory whose path is too long. -/
theorem collectRoot_cases (h : t.WellNamed) (hs : s.Excludes rules) (hd : t.list root = .ok d) :
    (d.TooDeep (.under rules root) root ∧
        (t.collectRoot s root).result = .error (.refused .tooLong)) ∨
      (¬ d.TooDeep (.under rules root) root ∧ ∃ paths, (t.collectRoot s root).result = .ok paths ∧
        (paths.Pairwise fun p q => p.key < q.key) ∧
        ∀ p, p ∈ paths ↔ ∃ names, p = root.descend names ∧
          d.Collects s (.under rules root) root names) := by
  have hroot : t.isDirectory root = true := FileTree.isDirectory_iff_list.2 ⟨d, hd⟩
  have hx : (FileTree.exclusionFor s root).result = .ok (.under rules root) :=
    exclusionFor_result.2 ⟨rules, hs, rfl⟩
  have hcases := (h.distinct.of_list hd).sorted_sources s (.under rules root) root
    fun names => h.isName_of_collects hd
  refine hcases.imp ?_ ?_
  · rintro ⟨hdeep, hsources⟩
    refine ⟨hdeep, ?_⟩
    rw [FileTree.collectRoot, if_pos hroot]
    refine Report.bind_result_error.2 (Or.inr ⟨_, hx, ?_⟩)
    refine Report.bind_result_error.2 (Or.inr ⟨d, (Report.ofFiles_result _ _).2 hd, ?_⟩)
    refine Report.bind_result_error.2 (Or.inl ?_)
    rw [hsources]
    rfl
  · rintro ⟨hdeep, found, hsources, hsorted, hmem⟩
    have hresult := (collectRoot_result hroot).2 ⟨_, hx, d, hd, found, hsources, rfl⟩
    exact ⟨hdeep, _, hresult, hsorted, hmem⟩

/-- Directories with the same entries are listed alike, once the lists are sorted. -/
theorem sorted_sources_of_sameAt (h : t.WellNamed) (hd : t.list root = .ok d) (hd' : d'.Distinct)
    (hsame : (Entry.directory d).SameAt (.directory d')) (s : Settings) (x : Exclusion) :
    (d'.sources s x root).map (·.mergeSort Path.sortsBefore) =
      (d.sources s x root).map (·.mergeSort Path.sortsBefore) := by
  have hdistinct := h.distinct.of_list hd
  have hcollects' : ∀ names, d'.Collects s x root names → ∀ n ∈ names, n.IsName :=
    fun names hc => h.isName_of_collects hd ((collects_of_sameAt hsame).1 hc)
  rcases hdistinct.sorted_sources s x root fun names => h.isName_of_collects hd with
    ⟨hdeep, hsources⟩ | ⟨hdeep, found, hsources, hsorted, hmem⟩
  · rcases hd'.sorted_sources s x root hcollects' with ⟨-, hsources'⟩ | ⟨hdeep', -⟩
    · rw [hsources, hsources']
    · exact absurd ((tooDeep_of_sameAt hsame).2 hdeep) hdeep'
  · rcases hd'.sorted_sources s x root hcollects' with
      ⟨hdeep', -⟩ | ⟨-, found', hsources', hsorted', hmem'⟩
    · exact absurd ((tooDeep_of_sameAt hsame).1 hdeep') hdeep
    · rw [hsources, hsources']
      refine congrArg Except.ok (Path.eq_of_increasing hsorted' hsorted fun p => ?_)
      rw [hmem, hmem']
      exact exists_congr fun names => and_congr_right' (collects_of_sameAt hsame)

/-- The order in which directories list their entries does not matter. -/
theorem collectRoot_of_rearranged (h : t.WellNamed) (h' : t'.top.Distinct)
    (hsame : t.Rearranged t') (s : Settings) (root : Path) :
    t'.collectRoot s root = t.collectRoot s root := by
  have hmap : ∀ y : Except Refusal (List Path), (do
      let found ← Report.ofFiles y
      return found.mergeSort Path.sortsBefore) =
        Report.ofFiles (y.map (·.mergeSort Path.sortsBefore)) := by
    intro y
    cases y <;> rfl
  rw [FileTree.collectRoot, FileTree.collectRoot]
  by_cases hroot : t.isDirectory root = true
  · obtain ⟨d, hd⟩ := FileTree.isDirectory_iff_list.1 hroot
    obtain ⟨d', hd', hentries⟩ := hsame.list hd
    have hroot' : t'.isDirectory root = true := FileTree.isDirectory_iff_list.2 ⟨d', hd'⟩
    rw [if_pos hroot, if_pos hroot', hd, hd']
    refine congrArg _ (funext fun x => ?_)
    have hsorted := h.sorted_sources_of_sameAt hd (h'.of_list hd') hentries s x
    change (do
      let found ← Report.ofFiles (d'.sources s x root)
      return found.mergeSort Path.sortsBefore) = (do
      let found ← Report.ofFiles (d.sources s x root)
      return found.mergeSort Path.sortsBefore)
    rw [hmap, hmap, hsorted]
  · have hroot' : ¬ t'.isDirectory root = true := by
      intro hdir
      obtain ⟨d', hd'⟩ := FileTree.isDirectory_iff_list.1 hdir
      obtain ⟨d, hd, -⟩ := hsame.symm.list hd'
      exact hroot (FileTree.isDirectory_iff_list.2 ⟨d, hd⟩)
    rw [if_neg hroot, if_neg hroot']

theorem collect_of_rearranged (h : t.WellNamed) (h' : t'.top.Distinct) (hsame : t.Rearranged t')
    (s : Settings) (roots : List Path) : t'.collect s roots = t.collect s roots := by
  induction roots with
  | nil => rfl
  | cons root roots ih =>
    rw [FileTree.collect, FileTree.collect, h.collectRoot_of_rearranged h' hsame, ih]

end FileTree.WellNamed

/-! ### All roots -/

/-- The roots that are directories give, one after another, strictly increasing lists of all that is
collected below them. -/
def FileTree.CollectsAll (t : FileTree) (s : Settings) (rules : List IgnoreRule)
    (roots : List Path) : Prop :=
  ∃ below : Path → List Path,
    (t.collect s roots).result = .ok ((roots.filter t.isDirectory).flatMap below) ∧
      ∀ root ∈ roots, ∀ d, t.list root = .ok d →
        ((below root).Pairwise fun p q => p.key < q.key) ∧
          ∀ p, p ∈ below root ↔ ∃ names, p = root.descend names ∧
            d.Collects s (.under rules root) root names

/-- A directory that is entered below one of the roots has too long a path. -/
def FileTree.TooDeep (t : FileTree) (rules : List IgnoreRule) (roots : List Path) : Prop :=
  ∃ root ∈ roots, ∃ d, t.list root = .ok d ∧ d.TooDeep (.under rules root) root

theorem collectRoot_skipped (h : ¬ t.isDirectory root = true) :
    (t.collectRoot s root).result = .ok [] := by
  rw [FileTree.collectRoot, if_neg h]
  rfl

namespace FileTree.WellNamed

variable {roots : List Path}

theorem collect_tooDeep (h : t.WellNamed) (hs : s.Excludes rules) (hdeep : t.TooDeep rules roots) :
    (t.collect s roots).result = .error (.refused .tooLong) := by
  obtain ⟨root, hroot, d, hd, hdeep⟩ := hdeep
  induction roots with
  | nil => cases hroot
  | cons first roots ih =>
    rw [FileTree.collect, Report.bind_result_error]
    -- a root before that one is refused for the same reason, or gives its files
    by_cases hfirst : (t.collectRoot s first).result = .error (.refused .tooLong)
    · exact Or.inl hfirst
    have hok : ∃ paths, (t.collectRoot s first).result = .ok paths := by
      by_cases hdir : t.isDirectory first = true
      · obtain ⟨d', hd'⟩ := FileTree.isDirectory_iff_list.1 hdir
        obtain ⟨-, herror⟩ | ⟨-, paths, hpaths, -⟩ := h.collectRoot_cases hs hd'
        · exact absurd herror hfirst
        · exact ⟨paths, hpaths⟩
      · exact ⟨[], collectRoot_skipped hdir⟩
    obtain ⟨paths, hpaths⟩ := hok
    refine Or.inr ⟨paths, hpaths, Report.bind_result_error.2 (Or.inl ?_)⟩
    rcases List.mem_cons.1 hroot with rfl | hroot
    · obtain ⟨-, herror⟩ | ⟨hshallow, -⟩ := h.collectRoot_cases hs hd
      · exact absurd herror hfirst
      · exact absurd hdeep hshallow
    · exact ih hroot

theorem collectsAll (h : t.WellNamed) (hs : s.Excludes rules) (hshallow : ¬ t.TooDeep rules roots) :
    t.CollectsAll s rules roots := by
  have hroots : ∀ root ∈ roots, ∀ d, t.list root = .ok d →
      ∃ paths, (t.collectRoot s root).result = .ok paths ∧
        (paths.Pairwise fun p q => p.key < q.key) ∧
        ∀ p, p ∈ paths ↔ ∃ names, p = root.descend names ∧
          d.Collects s (.under rules root) root names := by
    intro root hroot d hd
    obtain ⟨hdeep, -⟩ | ⟨-, hpaths⟩ := h.collectRoot_cases hs hd
    · exact absurd ⟨root, hroot, d, hd, hdeep⟩ hshallow
    · exact hpaths
  refine ⟨fun root => (t.collectRoot s root).result.toOption.getD [], ?_, ?_⟩
  · clear hshallow
    induction roots with
    | nil => rfl
    | cons root roots ih =>
      obtain ⟨hroot, hothers⟩ := List.forall_mem_cons.1 hroots
      rw [FileTree.collect]
      simp only [Report.bind_result, Report.pure_result]
      by_cases hdir : t.isDirectory root = true
      · obtain ⟨d, hd⟩ := FileTree.isDirectory_iff_list.1 hdir
        obtain ⟨paths, hpaths, -⟩ := hroot d hd
        refine ⟨paths, hpaths, _, ih hothers, ?_⟩
        rw [List.filter_cons_of_pos hdir, List.flatMap_cons, hpaths]
        rfl
      · refine ⟨[], collectRoot_skipped hdir, _, ih hothers, ?_⟩
        rw [List.filter_cons_of_neg hdir, List.nil_append]
  · intro root hroot d hd
    obtain ⟨paths, hpaths, hsorted, hmem⟩ := hroots root hroot d hd
    dsimp only
    rw [hpaths]
    exact ⟨hsorted, hmem⟩

end FileTree.WellNamed

/-- With valid patterns, the files of the roots are listed in the order of the roots and, below one
root, of their paths, unless a directory is entered whose path is too long; then nothing is listed.
The order in which directories list their entries changes nothing. -/
theorem collect_sorted_below_roots (ht : t.WellNamed) (hs : s.Excludes rules) (roots : List Path) :
    (¬ t.TooDeep rules roots → t.CollectsAll s rules roots) ∧
      (t.TooDeep rules roots → (t.collect s roots).result = .error (.refused .tooLong)) ∧
      ∀ t', t.Reordered t' → t'.collect s roots = t.collect s roots := by
  refine ⟨ht.collectsAll hs, ht.collect_tooDeep hs, ?_⟩
  intro t' hreordered
  obtain ⟨hdistinct, hsame⟩ := hreordered.rearranged ht.distinct
  exact ht.collect_of_rearranged hdistinct hsame s roots

/-! ### Two trees -/

/-- A source root with a link, and with a directory that the patterns leave out. -/
def mixedSource : Directory :=
  .file "b.cpp".toList .empty <| .link "l.h".toList (.ofString "nowhere") <|
    .sub "skip".toList (.file "c.cpp".toList .empty .empty) <| .file "a.cpp".toList .empty .empty

/-- The same directory, with its first two entries in the other order. -/
def mixedSource' : Directory :=
  .link "l.h".toList (.ofString "nowhere") <| .file "b.cpp".toList .empty <|
    .sub "skip".toList (.file "c.cpp".toList .empty .empty) <| .file "a.cpp".toList .empty .empty

def rooted (d : Directory) : FileTree where
  top := .directory (.sub "src".toList d .empty)

def skipping : Settings where
  exclude := ["skip/".toList]

/-- The rules of `skipping`. -/
def skippingRules : List IgnoreRule :=
  match Exclusion.rulesOf skipping.exclude with
  | .ok rules => rules
  | .error _ => []

def mixedRoots : List Path := [.ofString "none", .ofString "src"]

theorem collect_sorted_below_roots_mixed :
    (rooted mixedSource).WellNamed ∧ skipping.Excludes skippingRules ∧
      (rooted mixedSource).CollectsAll skipping skippingRules mixedRoots ∧
      (rooted mixedSource).Reordered (rooted mixedSource') ∧
      (rooted mixedSource').collect skipping mixedRoots =
        (rooted mixedSource).collect skipping mixedRoots := by
  have ht : (rooted mixedSource).WellNamed := ⟨by decide +kernel, by decide +kernel⟩
  have hs : skipping.Excludes skippingRules := ⟨rfl, by decide +kernel⟩
  have hreordered : (rooted mixedSource).Reordered (rooted mixedSource') :=
    ⟨rfl, _, _, rfl, rfl, .inside _ _ (.swap _ (.file _) _ (.link _) _)⟩
  have hok : ((rooted mixedSource).collect skipping mixedRoots).result.isOk = true := by
    decide +kernel
  obtain ⟨hall, hdeep, horder⟩ := collect_sorted_below_roots ht hs mixedRoots
  refine ⟨ht, hs, hall fun h => ?_, hreordered, horder _ hreordered⟩
  rw [hdeep h] at hok
  cases hok

/-- A source root with a directory in it. -/
def nestedSource : Directory := .sub "sub".toList (.file "a.cpp".toList .empty .empty) .empty

/-- Under a root whose path leaves no room for the directory, nothing is listed. -/
theorem nested_not_collected :
    (rooted nestedSource).WellNamed ∧ ({} : Settings).Excludes [] ∧
      ¬ (rooted nestedSource).CollectsAll {} [] [slashed 4088] := by
  have ht : (rooted nestedSource).WellNamed := ⟨by decide +kernel, by decide +kernel⟩
  have hs : ({} : Settings).Excludes [] := ⟨rfl, rfl⟩
  have hlist : (rooted nestedSource).list (slashed 4088) = .ok nestedSource :=
    FileTree.list_eq_ok_iff.2 ⟨_, locate_slashed (by decide) rfl rfl⟩
  have henters : nestedSource.Enters (.under [] (slashed 4088)) (slashed 4088) ["sub".toList] :=
    ⟨List.cons_ne_nil _ _, ⟨_, rfl, rfl⟩, fun _ _ _ => rfl⟩
  have hlong : longestPath < ((slashed 4088).descend ["sub".toList]).text.utf8Size := by
    have hsub : Text.utf8Size "sub".toList = 3 := by decide
    have hsize := utf8Size_child_slashed 4088 (n := "sub".toList) (by decide)
    rw [Path.descend, List.foldl_cons, List.foldl_nil, hsize, hsub]
    decide
  have hdeep : (rooted nestedSource).TooDeep [] [slashed 4088] :=
    ⟨_, List.mem_cons_self, _, hlist, _, henters, hlong⟩
  refine ⟨ht, hs, ?_⟩
  rintro ⟨below, hresult, -⟩
  rw [ht.collect_tooDeep hs hdeep] at hresult
  cases hresult

end LuaReference
