import LuaReference.Path
import LuaReference.Proofs.Text.Pieces

/-!
# Components of composed paths

What the components of a path are when the path is joined from others, is the parent of one, or is
what remains below one. The laws speak of components only, so no spelling matters to what follows.
-/

namespace LuaReference

namespace Component

theorem ofPiece_nil : ofPiece [] = none := rfl

theorem ofPiece_eq_up_iff {piece : Text} : ofPiece piece = some up ↔ piece = ['.', '.'] := by
  rw [ofPiece]
  split
  · next h =>
    refine iff_of_false (fun hnone => nomatch hnone) ?_
    rintro rfl
    exact absurd h (by decide)
  · split
    · next h => exact iff_of_true rfl h
    · next h =>
      refine iff_of_false ?_ h
      rw [Option.some.injEq]
      exact fun hname => nomatch hname

/-- A piece stands for itself or for a step up, never for a place to start from. -/
theorem ofPiece_ne_root (piece : Text) :
    ofPiece piece ≠ some root ∧ ofPiece piece ≠ some here := by
  rw [ofPiece]
  split
  · simp
  · split <;> simp

end Component

/-- A name that an entry of a directory can have. -/
def Text.IsName (n : Text) : Prop := n ≠ [] ∧ n ≠ ['.'] ∧ n ≠ ['.', '.'] ∧ '/' ∉ n

instance (n : Text) : Decidable n.IsName := inferInstanceAs (Decidable (_ ∧ _ ∧ _ ∧ _))

theorem Text.IsName.ofPiece {n : Text} (h : n.IsName) : Component.ofPiece n = some (.name n) := by
  obtain ⟨hne, hdot, hup, -⟩ := h
  simp [Component.ofPiece, hne, hdot, hup]

namespace Path

open Component (ofPiece)

/-- The components of a path behind its start. -/
def inner (p : Path) : List Component := (Text.splitAll '/' p.text).filterMap ofPiece

theorem not_mem_of_mem_body {p : Path} {piece : Text} (h : piece ∈ p.body) : '/' ∉ piece := by
  rw [body] at h
  split at h
  · exact Text.not_mem_of_mem_splitAll h
  · exact Text.not_mem_of_mem_splitAll (List.mem_of_mem_tail h)

theorem lead_eq_nil_or (p : Path) : p.lead = [] ∨ p.lead = [.root] ∨ p.lead = [.here] := by
  rw [lead]
  split
  · exact Or.inr (Or.inl rfl)
  · split
    · exact Or.inr (Or.inr rfl)
    · exact Or.inl rfl

theorem lead_of_isAbsolute {p : Path} (h : p.isAbsolute = true) : p.lead = [.root] := if_pos h

theorem isAbsolute_iff_lead {p : Path} : p.isAbsolute = true ↔ p.lead = [.root] := by
  refine ⟨lead_of_isAbsolute, ?_⟩
  intro hlead
  rw [lead] at hlead
  split at hlead
  · assumption
  · split at hlead <;> cases hlead

/-- The pieces of a path are its body, behind an empty piece or a dot when it starts with one. -/
theorem splitAll_cases (p : Path) :
    p.lead = [] ∧ Text.splitAll '/' p.text = p.body ∨
      p.lead = [.root] ∧ Text.splitAll '/' p.text = [] :: p.body ∨
      p.lead = [.here] ∧ Text.splitAll '/' p.text = ['.'] :: p.body := by
  obtain ⟨first, rest, hsplit, htext⟩ := Text.exists_splitAll '/' p.text
  have hbody : p.lead ≠ [] → p.body = rest := by
    intro hlead
    rw [body, if_neg hlead, hsplit]
    rfl
  rcases lead_eq_nil_or p with hlead | hlead | hlead
  · exact Or.inl ⟨hlead, (if_pos hlead).symm⟩
  · have habsolute := isAbsolute_iff_lead.2 hlead
    have hfirst : first = [] := by
      have hnot : '/' ∉ first :=
        Text.not_mem_of_mem_splitAll (t := p.text) (hsplit ▸ List.mem_cons_self)
      cases first with
      | nil => rfl
      | cons c first =>
        rw [isAbsolute, htext] at habsolute
        have hc : c = '/' := by simpa using habsolute
        exact absurd (hc ▸ List.mem_cons_self) hnot
    rw [hsplit, hbody (by simp [hlead]), hfirst]
    exact Or.inr (Or.inl ⟨hlead, rfl⟩)
  · have hfirst : first = ['.'] := by
      rw [lead, hsplit] at hlead
      split at hlead
      · cases hlead
      · split at hlead
        · next hdot => exact Option.some.inj hdot
        · cases hlead
    rw [hsplit, hbody (by simp [hlead]), hfirst]
    exact Or.inr (Or.inr ⟨hlead, rfl⟩)

theorem filterMap_body (p : Path) : p.body.filterMap ofPiece = p.inner := by
  rcases splitAll_cases p with ⟨-, hsplit⟩ | ⟨-, hsplit⟩ | ⟨-, hsplit⟩
  · rw [inner, hsplit]
  · rw [inner, hsplit]
    rfl
  · rw [inner, hsplit]
    rfl

theorem components_eq (p : Path) : p.components = p.lead ++ p.inner := by
  rw [components, filterMap_body]

theorem root_not_mem_inner (p : Path) : Component.root ∉ p.inner := by
  intro h
  obtain ⟨piece, -, hpiece⟩ := List.mem_filterMap.1 h
  exact (Component.ofPiece_ne_root piece).1 hpiece

theorem here_not_mem_inner (p : Path) : Component.here ∉ p.inner := by
  intro h
  obtain ⟨piece, -, hpiece⟩ := List.mem_filterMap.1 h
  exact (Component.ofPiece_ne_root piece).2 hpiece

theorem isAbsolute_iff {p : Path} : p.isAbsolute = true ↔ Component.root ∈ p.components := by
  rw [components_eq, List.mem_append, or_iff_left p.root_not_mem_inner, isAbsolute_iff_lead]
  rcases lead_eq_nil_or p with hlead | hlead | hlead <;> simp [hlead]

/-! ### Joining -/

/-- A joined path is the first path, a slash and the second, when there is a first path. -/
theorem exists_join_text {p q : Path} (hp : p.text ≠ []) (hq : q.isAbsolute = false) :
    ∃ a, (p.join q).text = a ++ '/' :: q.text ∧
      (Text.splitAll '/' p.text = Text.splitAll '/' a ∨
        Text.splitAll '/' p.text = Text.splitAll '/' a ++ [[]]) ∧
      (a ++ '/' :: q.text).head? = p.text.head? := by
  rw [join, if_neg (by simp [hq])]
  by_cases hlast : p.text.getLast? = some '/'
  · rw [if_pos (Or.inr hlast)]
    obtain ⟨a, ha⟩ := List.getLast?_eq_some_iff.1 hlast
    refine ⟨a, ?_, Or.inr ?_, ?_⟩
    · rw [ha, List.append_assoc]
      rfl
    · rw [ha, Text.splitAll_append_cons]
      rfl
    · rw [ha]
      cases a <;> rfl
  · rw [if_neg (by simp [hp, hlast])]
    refine ⟨p.text, rfl, Or.inl rfl, ?_⟩
    obtain ⟨c, t, ht⟩ := List.exists_cons_of_ne_nil hp
    rw [ht]
    rfl

theorem inner_join (p : Path) {q : Path} (hq : q.isAbsolute = false) :
    (p.join q).inner = p.inner ++ q.inner := by
  by_cases hp : p.text = []
  · have hjoin : p.join q = ⟨p.text ++ q.text⟩ := by
      rw [join, if_neg (by simp [hq]), if_pos (Or.inl hp)]
    rw [hjoin, inner, inner, hp]
    rfl
  · obtain ⟨a, htext, hsplit | hsplit, -⟩ := exists_join_text hp hq
    · rw [inner, htext, Text.splitAll_append_cons, List.filterMap_append, ← hsplit]
      rfl
    · have hinner : p.inner = (Text.splitAll '/' a).filterMap ofPiece := by
        rw [inner, hsplit, List.filterMap_append, List.filterMap_cons, Component.ofPiece_nil]
        exact List.append_nil _
      rw [inner, htext, Text.splitAll_append_cons, List.filterMap_append, hinner]
      rfl

theorem lead_join {p q : Path} (hp : p.text ≠ []) (hq : q.isAbsolute = false) :
    (p.join q).lead = p.lead := by
  obtain ⟨a, htext, hsplit, hhead⟩ := exists_join_text hp hq
  have hfirst : (Text.splitAll '/' (p.join q).text).head? = (Text.splitAll '/' p.text).head? := by
    rw [htext, Text.splitAll_append_cons]
    rcases hsplit with h | h
    · rw [h, List.head?_append_of_ne_nil _ (Text.splitAll_ne_nil '/' a)]
    · rw [h, List.head?_append_of_ne_nil _ (Text.splitAll_ne_nil '/' a),
        List.head?_append_of_ne_nil _ (Text.splitAll_ne_nil '/' a)]
  rw [lead, lead, hfirst, isAbsolute, isAbsolute, htext, hhead]

theorem components_join {p q : Path} (hp : p.text ≠ []) (hq : q.isAbsolute = false) :
    (p.join q).components = p.components ++ q.inner := by
  rw [components_eq, components_eq, lead_join hp hq, inner_join p hq, List.append_assoc]

theorem join_of_text_nil {p q : Path} (hp : p.text = []) : p.join q = q := by
  rw [join]
  split
  · rfl
  · rw [if_pos (Or.inl hp), hp]
    rfl

theorem isAbsolute_of_isName {n : Text} (h : n.IsName) : isAbsolute ⟨n⟩ = false := by
  obtain ⟨hne, -, -, hslash⟩ := h
  obtain ⟨c, t, rfl⟩ := List.exists_cons_of_ne_nil hne
  have hc : c ≠ '/' := fun hc => hslash (hc ▸ List.mem_cons_self)
  simp [isAbsolute, hc]

theorem inner_of_isName {n : Text} (h : n.IsName) : inner ⟨n⟩ = [.name n] := by
  rw [inner, Text.splitAll_of_not_mem h.2.2.2, List.filterMap_cons, h.ofPiece]
  rfl

theorem lead_of_isName {n : Text} (h : n.IsName) : lead ⟨n⟩ = [] := by
  have hrelative := isAbsolute_of_isName h
  have hsplit := Text.splitAll_of_not_mem h.2.2.2
  rw [lead, hrelative, hsplit]
  simp [h.2.1]

theorem components_child (p : Path) {n : Text} (h : n.IsName) :
    (p.child n).components = p.components ++ [.name n] := by
  by_cases hp : p.text = []
  · have hempty : p.components = [] := by
      obtain ⟨text⟩ := p
      obtain rfl : text = [] := hp
      rfl
    rw [child, join_of_text_nil hp, components_eq, lead_of_isName h, inner_of_isName h, hempty]
  · rw [child, components_join hp (isAbsolute_of_isName h), inner_of_isName h]

theorem text_child_ne_nil (p : Path) {n : Text} (h : n ≠ []) : (p.child n).text ≠ [] := by
  rw [child, join]
  split
  · exact h
  · split <;> simp [h]

/-! ### Parts of a path -/

/-- Pieces that make up a path which starts nowhere in particular. -/
def Startless (pieces : List Text) : Prop :=
  pieces.head? ≠ some ['.'] ∧ (pieces.head? = some [] → pieces = [[]])

theorem Startless.lead {pieces : List Text} (h : Startless pieces)
    (hslash : ∀ piece ∈ pieces, '/' ∉ piece) : lead ⟨Text.join ['/'] pieces⟩ = [] := by
  cases pieces with
  | nil => rfl
  | cons first rest =>
    obtain ⟨hdot, hempty⟩ := h
    have habsolute : isAbsolute ⟨Text.join ['/'] (first :: rest)⟩ = false := by
      cases first with
      | nil =>
        rw [hempty rfl]
        rfl
      | cons c first =>
        have hc : c ≠ '/' := by
          intro hc
          exact hslash (c :: first) List.mem_cons_self (hc ▸ List.mem_cons_self)
        cases rest <;> simp [isAbsolute, Text.join, hc]
    rw [Path.lead, if_neg (by simp [habsolute]), if_neg]
    rw [Text.splitAll_join (List.cons_ne_nil first rest) hslash]
    exact hdot

theorem Startless.mono {pieces more : List Text} (h : Startless more) (hp : pieces <+: more) :
    Startless pieces := by
  cases pieces with
  | nil => simp [Startless]
  | cons first rest =>
    obtain ⟨tail, rfl⟩ := hp
    refine ⟨h.1, ?_⟩
    intro hfirst
    have hwhole := h.2 hfirst
    rw [List.cons_append] at hwhole
    obtain ⟨hfirst, hrest⟩ := List.cons.inj hwhole
    rw [hfirst, (List.append_eq_nil_iff.1 hrest).1]

theorem startless_body {p : Path} (h : p.lead = []) : Startless p.body := by
  have hbody : p.body = Text.splitAll '/' p.text := if_pos h
  rw [hbody]
  have habsolute : p.isAbsolute = false := by
    by_contra hne
    rw [lead_of_isAbsolute (by simpa using hne)] at h
    cases h
  refine ⟨?_, ?_⟩
  · intro hdot
    rw [lead, if_neg (by simp [habsolute]), if_pos hdot] at h
    cases h
  · intro hempty
    obtain ⟨first, rest, hsplit, htext⟩ := Text.exists_splitAll '/' p.text
    rw [hsplit, List.head?_cons, Option.some.injEq] at hempty
    rw [hsplit, hempty]
    -- a relative path starts with an empty piece only when it is empty
    cases rest with
    | nil => rfl
    | cons second rest =>
      rw [isAbsolute, htext, hempty] at habsolute
      simp at habsolute

theorem filterMap_splitAll_join {pieces : List Text} (hslash : ∀ piece ∈ pieces, '/' ∉ piece) :
    (Text.splitAll '/' (Text.join ['/'] pieces)).filterMap ofPiece = pieces.filterMap ofPiece := by
  by_cases hne : pieces = []
  · rw [hne]
    rfl
  · rw [Text.splitAll_join hne hslash]

theorem components_ofParts_nil {pieces : List Text} (h : Startless pieces)
    (hslash : ∀ piece ∈ pieces, '/' ∉ piece) :
    (ofParts [] pieces).components = pieces.filterMap ofPiece := by
  have hparts : ofParts [] pieces = ⟨Text.join ['/'] pieces⟩ := rfl
  rw [hparts, components_eq, h.lead hslash, inner, filterMap_splitAll_join hslash]
  rfl

/-- Pieces put behind the start of a path are its components again. -/
theorem components_ofParts_lead {p : Path} {pieces : List Text} (h : pieces <+: p.body) :
    (ofParts p.lead pieces).components = p.lead ++ pieces.filterMap ofPiece := by
  have hslash : ∀ piece ∈ pieces, '/' ∉ piece := fun piece hpiece =>
    not_mem_of_mem_body (h.subset hpiece)
  rcases lead_eq_nil_or p with hlead | hlead | hlead
  · rw [hlead]
    exact components_ofParts_nil ((startless_body hlead).mono h) hslash
  · have hsplit : Text.splitAll '/' ('/' :: Text.join ['/'] pieces) =
        [] :: Text.splitAll '/' (Text.join ['/'] pieces) := rfl
    rw [hlead, ofParts, components_eq, inner, lead_of_isAbsolute rfl, hsplit, List.filterMap_cons,
      Component.ofPiece_nil, filterMap_splitAll_join hslash]
  · cases pieces with
    | nil =>
      rw [hlead]
      rfl
    | cons first rest =>
      have hsplit : Text.splitAll '/' ('.' :: '/' :: Text.join ['/'] (first :: rest)) =
          ['.'] :: Text.splitAll '/' (Text.join ['/'] (first :: rest)) := by
        simp [Text.splitAll]
      have hstart : lead ⟨'.' :: '/' :: Text.join ['/'] (first :: rest)⟩ = [.here] := by
        rw [lead, hsplit]
        rfl
      have hdot : ofPiece ['.'] = none := rfl
      rw [hlead, ofParts, if_neg (List.cons_ne_nil first rest), components_eq, hstart, inner,
        hsplit, List.filterMap_cons, hdot, filterMap_splitAll_join hslash]

theorem prefix_trimPieces (pieces : List Text) : trimPieces pieces <+: pieces := by
  rw [trimPieces, ← List.reverse_suffix, List.reverse_reverse]
  exact List.dropWhile_suffix _

theorem filterMap_trimPieces (pieces : List Text) :
    (trimPieces pieces).filterMap ofPiece = pieces.filterMap ofPiece := by
  induction pieces using List.reverseRecOn with
  | nil => rfl
  | append_singleton pieces piece ih =>
    rw [trimPieces, List.reverse_append, List.reverse_singleton, List.singleton_append,
      List.dropWhile_cons]
    cases hpiece : ofPiece piece with
    | none =>
      rw [if_pos Option.isNone_none, List.filterMap_append, List.filterMap_cons, hpiece]
      exact ih.trans (List.append_nil _).symm
    | some c => rw [if_neg (by simp), List.reverse_cons, List.reverse_reverse]

/-- Where pieces were dropped at the end, the last one left stands for a component. -/
theorem exists_component_of_trimPieces {pieces : List Text} (h : trimPieces pieces ≠ []) :
    ∃ c, (trimPieces pieces).filterMap ofPiece =
      (trimPieces pieces).dropLast.filterMap ofPiece ++ [c] := by
  obtain ⟨kept, last, hlast⟩ := (List.eq_nil_or_concat _).resolve_left h
  have hsome : (ofPiece last).isNone = false := by
    have hdrop : (pieces.reverse.dropWhile fun p => (ofPiece p).isNone) = last :: kept.reverse := by
      rw [← List.reverse_reverse (List.dropWhile _ _)]
      exact (congrArg List.reverse hlast).trans (by simp)
    have hhead := List.head?_dropWhile_not (fun p => (ofPiece p).isNone) pieces.reverse
    rw [hdrop] at hhead
    simpa using hhead
  obtain ⟨c, hc⟩ := Option.isSome_iff_exists.1 (by simpa using hsome)
  refine ⟨c, ?_⟩
  rw [hlast, List.concat_eq_append, List.dropLast_concat, List.filterMap_append,
    List.filterMap_cons, hc]
  rfl

/-- A path is its parent and one more component. -/
theorem components_parent? {p q : Path} (h : p.parent? = some q) :
    ∃ c, p.components = q.components ++ [c] := by
  rw [parent?] at h
  split at h
  · next htrim =>
    split at h
    · next hlead =>
      obtain rfl := Option.some.inj h
      have hinner : p.inner = [] := by
        rw [← filterMap_body, ← filterMap_trimPieces, htrim]
        rfl
      refine ⟨.here, ?_⟩
      rw [components_eq, hlead, hinner]
      rfl
    · cases h
  · next htrim =>
    obtain rfl := Option.some.inj h
    have hne : trimPieces p.body ≠ [] := htrim
    obtain ⟨c, hc⟩ := exists_component_of_trimPieces hne
    have hprefix : trimPieces (trimPieces p.body).dropLast <+: p.body :=
      (prefix_trimPieces _).trans ((List.dropLast_prefix _).trans (prefix_trimPieces _))
    refine ⟨c, ?_⟩
    rw [components_ofParts_lead hprefix, filterMap_trimPieces, List.append_assoc, ← hc,
      filterMap_trimPieces, filterMap_body, components_eq]

/-! ### What remains below a path -/

theorem filterMap_dropPieces (n : Nat) (pieces : List Text) :
    (dropPieces n pieces).filterMap ofPiece = (pieces.filterMap ofPiece).drop n := by
  induction pieces generalizing n with
  | nil => simp [dropPieces]
  | cons piece pieces ih =>
    cases hpiece : ofPiece piece with
    | none =>
      rw [List.filterMap_cons, hpiece]
      cases n <;> simp [dropPieces, hpiece, ih]
    | some c => cases n <;> simp [dropPieces, hpiece, ih]

theorem suffix_dropPieces (n : Nat) (pieces : List Text) : dropPieces n pieces <:+ pieces := by
  induction pieces generalizing n with
  | nil => simp [dropPieces]
  | cons piece pieces ih =>
    have hskip : ∀ n, dropPieces n pieces <:+ piece :: pieces := fun n =>
      (ih n).trans (List.suffix_cons piece pieces)
    cases hpiece : ofPiece piece with
    | none => cases n <;> simpa [dropPieces, hpiece] using hskip _
    | some c =>
      cases n with
      | zero => simp [dropPieces, hpiece]
      | succ n => simpa [dropPieces, hpiece] using hskip n

theorem startless_dropPieces (n : Nat) (pieces : List Text) : Startless (dropPieces n pieces) := by
  have hhead : ∀ first, (dropPieces n pieces).head? = some first → ofPiece first ≠ none := by
    induction pieces generalizing n with
    | nil => simp [dropPieces]
    | cons piece pieces ih =>
      cases hpiece : ofPiece piece with
      | none => cases n <;> simpa [dropPieces, hpiece] using ih _
      | some c =>
        cases n with
        | zero => simp [dropPieces, hpiece]
        | succ n => simpa [dropPieces, hpiece] using ih n
  refine ⟨fun h => hhead _ h rfl, fun h => absurd rfl (hhead _ h)⟩

/-- What remains of a path below another one has the components behind those of the other. -/
theorem components_strip? {root p q : Path} (h : strip? root p = some q) :
    p.components = root.components ++ q.components := by
  rw [strip?] at h
  split at h
  · next hstarts =>
    obtain ⟨rest, hrest⟩ := List.isPrefixOf_iff_prefix.1 hstarts
    have hdrop : p.components.drop root.components.length = rest := by
      rw [← hrest, List.drop_left]
    dsimp only at h
    split at h
    · next hlength =>
      obtain rfl := Option.some.inj h
      rw [List.length_eq_zero_iff.1 hlength, components_ofParts_lead (prefix_trimPieces p.body),
        filterMap_trimPieces, filterMap_body, ← components_eq]
      rfl
    · next hlength =>
      obtain rfl := Option.some.inj h
      have hkept := prefix_trimPieces
        (dropPieces (root.components.length - p.lead.length) p.body)
      have hslash : ∀ piece ∈ trimPieces
          (dropPieces (root.components.length - p.lead.length) p.body), '/' ∉ piece :=
        fun piece hpiece =>
          not_mem_of_mem_body ((suffix_dropPieces _ _).subset (hkept.subset hpiece))
      rw [components_ofParts_nil ((startless_dropPieces _ _).mono hkept) hslash,
        filterMap_trimPieces, filterMap_dropPieces, filterMap_body, ← hrest, ← hdrop,
        components_eq p]
      -- the start of the path is one component at most
      rcases lead_eq_nil_or p with hlead | hlead | hlead
      · rw [hlead]
        rfl
      all_goals
        obtain ⟨n, hn⟩ := Nat.exists_eq_succ_of_ne_zero hlength
        rw [hlead, hn]
        rfl
  · cases h

theorem exists_strip? {root p : Path} (h : root.components <+: p.components) :
    ∃ q, strip? root p = some q := by
  have hstarts : p.startsWith root = true := List.isPrefixOf_iff_prefix.2 h
  rw [strip?, if_pos hstarts]
  dsimp only
  split
  · exact ⟨_, rfl⟩
  · exact ⟨_, rfl⟩

end Path

end LuaReference
