import LuaReference.Proofs.Files.Plain

/-!
# Paths below a directory

A path that is joined to the path of a directory leads on from that directory. In a plain tree
this says what the path of an entry leads to, and what reading questions answer there.
-/

namespace LuaReference

namespace Path

theorem isAbsolute_join {p q : Path} (hp : p.text ≠ []) (hq : q.isAbsolute = false) :
    (p.join q).isAbsolute = p.isAbsolute := by
  obtain ⟨a, htext, -, hhead⟩ := exists_join_text hp hq
  rw [isAbsolute, isAbsolute, htext, hhead]

theorem origin_join (p : Path) {q : Path} (hq : q.isAbsolute = false) (here : List Text) :
    FileTree.origin (p.join q) here = FileTree.origin p here := by
  by_cases hp : p.text = []
  · have habsolute : p.isAbsolute = false := by rw [isAbsolute, hp]; rfl
    rw [join_of_text_nil hp, FileTree.origin, FileTree.origin, hq, habsolute]
  · rw [FileTree.origin, FileTree.origin, isAbsolute_join hp hq]

theorem filter_steps (p : Path) :
    p.steps.filter (· ≠ []) = (Text.splitAll '/' p.text).filter (· ≠ []) := by
  rw [steps, List.filter_append, List.filter_filter]
  have htrailing : (if p.text.getLast? = some '/' then [[]] else []).filter
      (fun s : Text => decide (s ≠ [])) = [] := by
    split <;> rfl
  rw [htrailing, List.append_nil]
  simp

theorem steps_join (p : Path) {q : Path} (hq : q.isAbsolute = false) (hne : q.text ≠ []) :
    (p.join q).steps = p.steps.filter (· ≠ []) ++ q.steps := by
  rw [filter_steps]
  by_cases hp : p.text = []
  · rw [join_of_text_nil hp, hp]
    rfl
  · obtain ⟨a, htext, hsplit, -⟩ := exists_join_text hp hq
    have hlast : (a ++ '/' :: q.text).getLast? = q.text.getLast? := by
      obtain ⟨b, c, hb⟩ := (List.eq_nil_or_concat q.text).resolve_left hne
      rw [hb, List.concat_eq_append, ← List.cons_append, ← List.append_assoc,
        List.getLast?_concat, List.getLast?_concat]
    have hpieces : (Text.splitAll '/' p.text).filter (· ≠ []) =
        (Text.splitAll '/' a).filter (· ≠ []) := by
      rcases hsplit with h | h
      · rw [h]
      · rw [h, List.filter_append, List.filter_cons_of_neg (by simp)]
        exact List.append_nil _
    rw [steps, htext, Text.splitAll_append_cons, List.filter_append, hlast, hpieces, steps,
      List.append_assoc]

theorem steps_of_isName {n : Text} (h : n.IsName) : steps ⟨n⟩ = [n] := by
  have hlast : n.getLast? ≠ some '/' := by
    intro hlast
    exact h.2.2.2 (List.mem_of_getLast? hlast)
  rw [steps, Text.splitAll_of_not_mem h.2.2.2, if_neg hlast,
    List.filter_cons_of_pos (by simpa using h.1)]
  rfl

theorem steps_child (p : Path) {n : Text} (h : n.IsName) :
    (p.child n).steps = p.steps.filter (· ≠ []) ++ [n] := by
  rw [child, steps_join p (isAbsolute_of_isName h) h.1, steps_of_isName h]

theorem filter_steps_child (p : Path) {n : Text} (h : n.IsName) :
    (p.child n).steps.filter (· ≠ []) = p.steps.filter (· ≠ []) ++ [n] := by
  have hne : ([n] : List Text).filter (· ≠ []) = [n] := by
    rw [List.filter_cons_of_pos (by simpa using h.1)]
    rfl
  rw [steps_child p h, List.filter_append, List.filter_filter, hne]
  simp

theorem steps_descend (p : Path) {names : List Text} (hne : names ≠ [])
    (h : ∀ n ∈ names, n.IsName) : (p.descend names).steps = p.steps.filter (· ≠ []) ++ names := by
  induction names generalizing p with
  | nil => exact absurd rfl hne
  | cons n names ih =>
    obtain ⟨hn, hrest⟩ := List.forall_mem_cons.1 h
    rw [descend_cons]
    cases names with
    | nil => exact steps_child p hn
    | cons m names =>
      rw [ih (p.child n) (List.cons_ne_nil m names) hrest, filter_steps_child p hn,
        List.append_assoc]
      rfl

theorem origin_descend (p : Path) {names : List Text} (h : ∀ n ∈ names, n.IsName)
    (here : List Text) : FileTree.origin (p.descend names) here = FileTree.origin p here := by
  induction names generalizing p with
  | nil => rfl
  | cons n names ih =>
    obtain ⟨hn, hrest⟩ := List.forall_mem_cons.1 h
    rw [descend_cons, ih (p.child n) hrest, child, origin_join p (isAbsolute_of_isName hn)]

/-! ### The way to a parent -/

theorem filter_splitAll_join {pieces : List Text} (hslash : ∀ piece ∈ pieces, '/' ∉ piece) :
    (Text.splitAll '/' (Text.join ['/'] pieces)).filter (· ≠ []) = pieces.filter (· ≠ []) := by
  by_cases hne : pieces = []
  · rw [hne]
    rfl
  · rw [Text.splitAll_join hne hslash]

/-- A path that is made up of the first pieces of another takes its first steps. -/
theorem filter_steps_ofParts {p : Path} {pieces : List Text} (h : pieces <+: p.body) :
    (ofParts p.lead pieces).steps.filter (· ≠ []) <+: p.steps.filter (· ≠ []) := by
  have hslash : ∀ piece ∈ pieces, '/' ∉ piece := fun piece hpiece =>
    not_mem_of_mem_body (h.subset hpiece)
  have hkept : pieces.filter (· ≠ []) <+: p.body.filter (· ≠ []) := h.filter _
  rw [filter_steps, filter_steps]
  rcases splitAll_cases p with ⟨hlead, hsplit⟩ | ⟨hlead, hsplit⟩ | ⟨hlead, hsplit⟩
  · have hparts : (ofParts p.lead pieces).text = Text.join ['/'] pieces := by rw [hlead]; rfl
    rw [hsplit, hparts, filter_splitAll_join hslash]
    exact hkept
  · have hparts : Text.splitAll '/' (ofParts p.lead pieces).text =
        [] :: Text.splitAll '/' (Text.join ['/'] pieces) := by
      rw [hlead]
      rfl
    rw [hsplit, hparts, List.filter_cons_of_neg (by simp), List.filter_cons_of_neg (by simp),
      filter_splitAll_join hslash]
    exact hkept
  · rw [hsplit, List.filter_cons_of_pos (by simp)]
    cases pieces with
    | nil =>
      rw [hlead]
      exact List.cons_prefix_cons.2 ⟨rfl, List.nil_prefix⟩
    | cons first rest =>
      have hparts : Text.splitAll '/' (ofParts p.lead (first :: rest)).text =
          ['.'] :: Text.splitAll '/' (Text.join ['/'] (first :: rest)) := by
        rw [hlead, ofParts, if_neg (List.cons_ne_nil first rest)]
        simp [Text.splitAll]
      rw [hparts, List.filter_cons_of_pos (by simp), filter_splitAll_join hslash]
      exact List.cons_prefix_cons.2 ⟨rfl, hkept⟩

theorem isAbsolute_parent? {p q : Path} (h : p.parent? = some q) :
    q.isAbsolute = p.isAbsolute := by
  rw [Bool.eq_iff_iff]
  rw [parent?] at h
  split at h
  · split at h
    · next hlead =>
      obtain rfl := Option.some.inj h
      rw [isAbsolute_iff_lead (p := p), hlead]
      decide
    · cases h
  · obtain rfl := Option.some.inj h
    have hprefix := (prefix_trimPieces _).trans
      ((List.dropLast_prefix _).trans (prefix_trimPieces p.body))
    rw [isAbsolute_iff, components_ofParts_lead hprefix, isAbsolute_iff_lead (p := p),
      List.mem_append]
    constructor
    · rintro (hroot | hroot)
      · rcases lead_eq_nil_or p with hlead | hlead | hlead
        · rw [hlead] at hroot
          cases hroot
        · exact hlead
        · rw [hlead] at hroot
          cases List.mem_singleton.1 hroot
      · obtain ⟨piece, -, hpiece⟩ := List.mem_filterMap.1 hroot
        exact absurd hpiece (Component.ofPiece_ne_root piece).1
    · intro hlead
      rw [hlead]
      exact Or.inl List.mem_cons_self

theorem origin_parent? {p q : Path} (h : p.parent? = some q) (here : List Text) :
    FileTree.origin q here = FileTree.origin p here := by
  rw [FileTree.origin, FileTree.origin, isAbsolute_parent? h]

theorem steps_parent? {p q : Path} (h : p.parent? = some q) :
    q.steps.filter (· ≠ []) <+: p.steps.filter (· ≠ []) := by
  rw [parent?] at h
  split at h
  · split at h
    · obtain rfl := Option.some.inj h
      exact List.nil_prefix
    · cases h
  · obtain rfl := Option.some.inj h
    exact filter_steps_ofParts
      ((prefix_trimPieces _).trans ((List.dropLast_prefix _).trans (prefix_trimPieces _)))

end Path

namespace FileTree

variable {t : FileTree} {p : Path}

/-! ### Reading questions -/

theorem Plain.found_place (h : t.Plain) {aim : Aim} {place : List Text} {e : Entry}
    (hl : t.locate aim p = .ok (.found place e)) : place = p.place t.here :=
  h.locate_place hl

theorem Plain.entry_eq_ok_iff (h : t.Plain) {e : Entry} :
    t.entry p = .ok e ↔ t.locate .target p = .ok (.found (p.place t.here) e) := by
  rw [entry]
  constructor
  · intro he
    split at he
    · cases he
    · cases he
    · next hl =>
      cases he
      rw [hl, h.found_place hl]
  · intro hl
    rw [hl]

theorem Plain.isDirectory_iff (h : t.Plain) :
    t.isDirectory p = true ↔
      ∃ d, t.locate .target p = .ok (.found (p.place t.here) (.directory d)) := by
  rw [isDirectory]
  constructor
  · intro hdir
    split at hdir
    · next d hd => exact ⟨d, h.entry_eq_ok_iff.1 hd⟩
    · cases hdir
  · rintro ⟨d, hd⟩
    rw [h.entry_eq_ok_iff.2 hd]

/-- A path to a directory leads to one as long as the directories are kept. -/
theorem Plain.isDirectory_mono {t' : FileTree} (h : t.Plain) (h' : t'.Plain)
    (hkeeps : t.KeepsDirectories t') (hhere : t'.here = t.here) (hp : t.isDirectory p = true) :
    t'.isDirectory p = true := by
  obtain ⟨d, hd⟩ := h.isDirectory_iff.1 hp
  obtain ⟨d', hd'⟩ := hkeeps _ d (locate_holds hd)
  refine h'.isDirectory_iff.2 ⟨d', ?_⟩
  rw [hhere]
  exact h.locate_mono hkeeps hhere (by decide) hd hd' rfl

theorem Plain.isFile_iff (h : t.Plain) :
    t.isFile p = true ↔
      ∃ bytes, t.locate .target p = .ok (.found (p.place t.here) (.file bytes)) := by
  rw [isFile]
  constructor
  · intro hfile
    split at hfile
    · next bytes hb => exact ⟨bytes, h.entry_eq_ok_iff.1 hb⟩
    · cases hfile
  · rintro ⟨bytes, hb⟩
    rw [h.entry_eq_ok_iff.2 hb]

theorem Plain.readBytes_eq_ok_iff (h : t.Plain) {bytes : ByteArray} :
    t.readBytes p = .ok bytes ↔
      t.locate .target p = .ok (.found (p.place t.here) (.file bytes)) := by
  rw [readBytes]
  constructor
  · intro hread
    split at hread
    · cases hread
    · next hb =>
      cases hread
      exact h.entry_eq_ok_iff.1 hb
    · cases hread
  · intro hl
    rw [h.entry_eq_ok_iff.2 hl]

theorem Plain.list_eq_ok_iff (h : t.Plain) {d : Directory} :
    t.list p = .ok d ↔
      t.locate .target p = .ok (.found (p.place t.here) (.directory d)) := by
  rw [list]
  constructor
  · intro hlist
    split at hlist
    · cases hlist
    · next hd =>
      cases hlist
      exact h.entry_eq_ok_iff.1 hd
    · cases hlist
  · intro hl
    rw [h.entry_eq_ok_iff.2 hl]

theorem Plain.isName_of_list (h : t.Plain) {d : Directory} (hlist : t.list p = .ok d) {n : Text}
    (hn : n ∈ d.names) : n.IsName := by
  have hplain : d.Plain := h.top.of_at? (locate_holds (h.list_eq_ok_iff.1 hlist))
  exact hplain.isName hn

/-! ### Below a directory -/

/-- What a path may be called: admissible, with no name in it that is too long. -/
def Allowed (p : Path) : Prop := Admissible p ∧ ∀ s ∈ p.steps, s.utf8Size ≤ longestName

theorem Plain.allowed (h : t.Plain) {aim : Aim} {place : List Text} {e : Entry}
    (hl : t.locate aim p = .ok (.found place e)) : Allowed p := by
  obtain ⟨hp, hleads⟩ := h.leads_of_locate hl
  exact ⟨hp, hleads.size_le⟩

/-- The path of an entry below a directory leads to the entry when the path is allowed. -/
theorem Plain.locate_descend (h : t.Plain) (hp : t.isDirectory p = true) {below : List Text}
    (hbelow : ∀ n ∈ below, n.IsName) (hallowed : Allowed (p.descend below)) {e : Entry}
    (he : t.entry? (p.place t.here ++ below) = some e) :
    t.locate .target (p.descend below) = .ok (.found (p.place t.here ++ below) e) := by
  obtain ⟨d, hd⟩ := h.isDirectory_iff.1 hp
  by_cases hne : below = []
  · subst hne
    have hfound : t.entry? (p.place t.here) = some (.directory d) := locate_holds hd
    rw [List.append_nil] at he ⊢
    rw [he, Option.some.injEq] at hfound
    exact hfound ▸ hd
  · have hsteps := p.steps_descend hne hbelow
    have hsizes : ∀ n ∈ below, n.IsName ∧ n.utf8Size ≤ longestName := by
      intro n hn
      refine ⟨hbelow n hn, hallowed.2 n ?_⟩
      rw [hsteps]
      exact List.mem_append_right _ hn
    refine locate_of_leads (by decide) hallowed.1 ?_
    rw [p.origin_descend hbelow, hsteps]
    exact (h.leads_of_locate hd).2.filter.append (h.leads_names hsizes he)

end FileTree

end LuaReference
