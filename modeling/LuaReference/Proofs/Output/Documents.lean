import Mathlib.Data.Set.List
import LuaReference.Output
import LuaReference.Proofs.Path.Place

/-!
# Paths of generated documents

The file of a document is named after its entity, whose name is free text. Whether the path stays
below the directory for its kind is a matter of the slashes in that name.
-/

namespace LuaReference

/-! ### Paths that stay in a directory -/

/-- A relative path that begins with a directory and never steps up. -/
structure Path.StaysIn (p dir : Path) : Prop where
  relative : p.isAbsolute = false
  begins : dir.components <+: p.components
  forward : Component.up ∉ p.components

theorem components_tablesDir : tablesDir.components = [.name "tables".toList] := by decide

theorem components_classesDir : classesDir.components = [.name "classes".toList] := by decide

namespace Path

variable {p dir : Path} {d : Text}

theorem text_ne_nil_of_components (h : dir.components = [.name d]) : dir.text ≠ [] := by
  obtain ⟨text⟩ := dir
  rintro rfl
  cases h

theorem StaysIn.exists_names (h : p.StaysIn dir) (hdir : dir.components = [.name d]) :
    ∃ names : List Text, p.lead = [] ∧ p.inner = .name d :: names.map .name := by
  obtain ⟨rest, hrest⟩ := h.begins
  rw [hdir, List.singleton_append] at hrest
  have hlead : p.lead = [] := by
    rcases lead_eq_nil_or p with hlead | hlead | hlead
    · exact hlead
    all_goals
      rw [components_eq, hlead] at hrest
      cases hrest
  have hinner : p.inner = .name d :: rest := by
    rw [hrest, components_eq, hlead]
    rfl
  have hnames : ∀ c ∈ rest, ∃ n, Component.name n = c := by
    intro c hc
    have hmem : c ∈ p.inner := hinner ▸ List.mem_cons_of_mem _ hc
    cases c with
    | root => exact absurd hmem p.root_not_mem_inner
    | here => exact absurd hmem p.here_not_mem_inner
    | up => exact absurd (hrest ▸ List.mem_cons_of_mem _ hc) h.forward
    | name n => exact ⟨n, rfl⟩
  have hrange : rest ∈ Set.range (List.map Component.name) := by
    rw [Set.range_list_map]
    exact hnames
  obtain ⟨names, hmap⟩ := hrange
  exact ⟨names, hlead, hmap ▸ hinner⟩

theorem StaysIn.components_join (h : p.StaysIn dir) (hdir : dir.components = [.name d])
    (out : Path) : ∃ names : List Text,
      (out.join p).components = (out.join dir).components ++ names.map .name := by
  obtain ⟨names, hlead, hinner⟩ := h.exists_names hdir
  refine ⟨names, ?_⟩
  by_cases hout : out.text = []
  · rw [join_of_text_nil hout, join_of_text_nil hout, hdir, components_eq, hlead, hinner]
    rfl
  · have hname : dir.components = [d].map .name := hdir
    rw [Path.components_join hout h.relative,
      Path.components_join hout (isAbsolute_of_names hname), hinner, inner_of_names hname,
      List.append_assoc]
    rfl

theorem StaysIn.place_join (h : p.StaysIn dir) (hdir : dir.components = [.name d])
    (out : Path) (here : List Text) :
    (out.join dir).place here <+: (out.join p).place here := by
  obtain ⟨names, hnames⟩ := h.components_join hdir out
  rw [place, place, hnames, List.foldl_append, foldl_enter_names]
  exact List.prefix_append _ _

theorem StaysIn.passes_join (h : p.StaysIn dir) (hdir : dir.components = [.name d])
    {out : Path} {here place : List Text} (hpasses : (out.join p).Passes here place) :
    (out.join dir).Passes here place ∨ (out.join dir).place here <+: place := by
  obtain ⟨names, hnames⟩ := h.components_join hdir out
  exact hpasses.append_names hnames

end Path

/-! ### Names of documents -/

/-- A name that leads nowhere else: no slash at its start, and no step up in front of a slash. -/
def Text.LeadsDown (q : Text) : Prop :=
  q.head? ≠ some '/' ∧ ['.', '.'] ∉ (Text.splitAll '/' q).dropLast

instance (q : Text) : Decidable q.LeadsDown := inferInstanceAs (Decidable (_ ∧ _))

namespace Path

theorem isAbsolute_named (q ending : Text) :
    isAbsolute ⟨q ++ '.' :: ending⟩ = true ↔ q.head? = some '/' := by
  cases q with
  | nil => simp [isAbsolute]
  | cons c q => simp [isAbsolute]

/-- Only the last piece of a name gets the ending, so it is no step up. -/
theorem up_mem_inner_named (q : Text) {ending : Text} (hending : '/' ∉ ending)
    (hlong : 2 ≤ ending.length) :
    Component.up ∈ inner ⟨q ++ '.' :: ending⟩ ↔ ['.', '.'] ∈ (Text.splitAll '/' q).dropLast := by
  have hdot : '/' ∉ '.' :: ending := by simpa using hending
  obtain ⟨init, last, hlast, hsplit⟩ := Text.splitAll_append_of_not_mem (t := q) hdot
  have hne : last ++ '.' :: ending ≠ ['.', '.'] := by
    intro heq
    have hlength := congrArg List.length heq
    simp only [List.length_append, List.length_cons, List.length_nil] at hlength
    omega
  rw [inner, List.mem_filterMap, hsplit, hlast, List.dropLast_concat]
  constructor
  · rintro ⟨piece, hpiece, hup⟩
    rw [Component.ofPiece_eq_up_iff] at hup
    subst hup
    rcases List.mem_append.1 hpiece with hinit | hend
    · exact hinit
    · exact absurd (List.mem_singleton.1 hend).symm hne
  · intro hinit
    exact ⟨_, List.mem_append_left _ hinit, Component.ofPiece_eq_up_iff.2 rfl⟩

/-- The file of a document stays in its directory exactly when its name leads down. -/
theorem staysIn_child_iff {dir : Path} {d : Text} (hdir : dir.components = [.name d])
    (q : Text) (format : Format) :
    (dir.child (q ++ '.' :: format.extension)).StaysIn dir ↔ q.LeadsDown := by
  have hending : '/' ∉ format.extension ∧ 2 ≤ format.extension.length := by
    cases format <;> decide
  have hup := up_mem_inner_named q hending.1 hending.2
  constructor
  · intro h
    have hrelative : isAbsolute ⟨q ++ '.' :: format.extension⟩ = false := by
      by_contra habsolute
      rw [Bool.not_eq_false] at habsolute
      have hjoin := h.relative
      rw [child, join, if_pos habsolute, habsolute] at hjoin
      cases hjoin
    refine ⟨?_, ?_⟩
    · intro hslash
      rw [(isAbsolute_named q _).2 hslash] at hrelative
      cases hrelative
    · intro hmem
      refine h.forward ?_
      rw [child, components_eq, inner_join dir hrelative]
      exact List.mem_append_right _ (List.mem_append_right _ (hup.2 hmem))
  · rintro ⟨hslash, hmem⟩
    have hrelative : isAbsolute ⟨q ++ '.' :: format.extension⟩ = false := by
      rw [← Bool.not_eq_true, isAbsolute_named]
      exact hslash
    have hcomponents : (dir.child (q ++ '.' :: format.extension)).components =
        .name d :: inner ⟨q ++ '.' :: format.extension⟩ := by
      rw [child, components_join (text_ne_nil_of_components hdir) hrelative, hdir]
      rfl
    refine ⟨?_, ?_, ?_⟩
    · rw [← Bool.not_eq_true, isAbsolute_iff, hcomponents, List.mem_cons]
      rintro (hroot | hroot)
      · cases hroot
      · exact root_not_mem_inner _ hroot
    · rw [hdir, hcomponents]
      exact List.prefix_append [Component.name d] _
    · rw [hcomponents, List.mem_cons]
      rintro (hname | hin)
      · cases hname
      · exact hmem (hup.1 hin)

end Path

/-! ### Documents of a registry -/

theorem generate_eq_ok_iff {r : Registry} {s : Settings} {files : List GeneratedFile} :
    r.generate s = .ok files ↔ r.repeatedFields = [] ∧ files = r.documents s := by
  rw [Registry.generate, Registry.validate]
  split
  · next h => simp [h, Except.map, eq_comm]
  · next h => simp [h, Except.map]

theorem generate_eq_error_iff {r : Registry} {s : Settings} {f : Fault} :
    r.generate s = .error f ↔ r.validate = .error f := by
  unfold Registry.generate
  cases r.validate <;> simp [Except.map]

theorem mem_documents_iff {r : Registry} {s : Settings} {f : GeneratedFile} :
    f ∈ r.documents s ↔
      (∃ t ∈ r.tables, ∃ format, f = .ofTable (.of r s) format t) ∨
        ∃ c ∈ r.classes, ∃ format, f = .ofClass (.of r s) format c := by
  simp only [Registry.documents, List.mem_append, List.mem_map]
  constructor
  · rintro (((⟨t, ht, rfl⟩ | ⟨t, ht, rfl⟩) | ⟨c, hc, rfl⟩) | ⟨c, hc, rfl⟩)
    · exact Or.inl ⟨t, ht, .page, rfl⟩
    · exact Or.inl ⟨t, ht, .stub, rfl⟩
    · exact Or.inr ⟨c, hc, .page, rfl⟩
    · exact Or.inr ⟨c, hc, .stub, rfl⟩
  · rintro (⟨t, ht, format, rfl⟩ | ⟨c, hc, format, rfl⟩)
    · cases format with
      | page => exact Or.inl (Or.inl (Or.inl ⟨t, ht, rfl⟩))
      | stub => exact Or.inl (Or.inl (Or.inr ⟨t, ht, rfl⟩))
    · cases format with
      | page => exact Or.inl (Or.inr ⟨c, hc, rfl⟩)
      | stub => exact Or.inr ⟨c, hc, rfl⟩

/-! ### Names without slashes -/

/-- No name that a document is called after has a slash. -/
structure Registry.Flat (r : Registry) : Prop where
  tables : ∀ t ∈ r.tables, '/' ∉ t.name
  classes : ∀ c ∈ r.classes, '/' ∉ c.name
  nameSpace : ∀ n ∈ r.nameSpace, '/' ∉ n

theorem isName_named {q : Text} (hq : '/' ∉ q) (format : Format) :
    Text.IsName (q ++ '.' :: format.extension) := by
  have hending : '/' ∉ format.extension ∧ 2 ≤ format.extension.length := by
    cases format <;> decide
  have hne : ∀ short : Text, short.length ≤ 2 → q ++ '.' :: format.extension ≠ short := by
    rintro short hshort rfl
    rw [List.length_append, List.length_cons] at hshort
    omega
  exact ⟨hne _ (by decide), hne _ (by decide), hne _ (by decide), by simp [hq, hending.1]⟩

namespace Registry.Flat

variable {r : Registry} {s : Settings}

theorem not_mem_qualify (h : r.Flat) {name : Text} (hname : '/' ∉ name) :
    '/' ∉ (Naming.of r s).qualify name := by
  rw [Naming.qualify]
  split
  · next n hn =>
    obtain ⟨hmem, -⟩ := Option.filter_eq_some_iff.1 hn
    have hspace := h.nameSpace n hmem
    simp [hname, hspace]
  · exact hname

theorem not_mem_qualifyTable (h : r.Flat) {name : Text} (hname : '/' ∉ name) :
    '/' ∉ (Naming.of r s).qualifyTable name := by
  rw [Naming.qualifyTable]
  split
  · exact hname
  · exact h.not_mem_qualify hname

/-- Every document lies directly in the directory for its kind. -/
theorem exists_path (h : r.Flat) {f : GeneratedFile} (hf : f ∈ r.documents s) :
    ∃ d n : Text, (d = "tables".toList ∨ d = "classes".toList) ∧ n.IsName ∧
      f.path = Path.child ⟨d⟩ n ∧ f.path.components = [d, n].map .name := by
  rcases mem_documents_iff.1 hf with ⟨t, ht, format, rfl⟩ | ⟨c, hc, format, rfl⟩
  · have hname := isName_named (h.not_mem_qualifyTable (s := s) (h.tables t ht)) format
    refine ⟨_, _, Or.inl rfl, hname, rfl, ?_⟩
    exact (Path.components_child _ hname).trans (congrArg (· ++ _) components_tablesDir)
  · have hname := isName_named (h.not_mem_qualify (s := s) (h.classes c hc)) format
    refine ⟨_, _, Or.inr rfl, hname, rfl, ?_⟩
    exact (Path.components_child _ hname).trans (congrArg (· ++ _) components_classesDir)

end Registry.Flat

end LuaReference
