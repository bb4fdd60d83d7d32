import LuaReference.Proofs.Files.Arranged
import LuaReference.Proofs.Files.Below

/-!
# Through links to a directory

A walk may come to a directory through links. Whatever follows, it goes on from there, with fewer
links left to follow. So the path of an entry below the directory leads to the entry: to a file, or
to a link, which is then followed or not.
-/

namespace LuaReference

/-- Two ways to spell the same steps: they differ in empty ones only. -/
inductive Respelled : List Text → List Text → Prop
  | nil : Respelled [] []
  | cons (s : Text) {steps steps' : List Text} (h : Respelled steps steps') :
      Respelled (s :: steps) (s :: steps')
  | left {steps steps' : List Text} (h : Respelled steps steps') : Respelled ([] :: steps) steps'
  | right {steps steps' : List Text} (h : Respelled steps steps') : Respelled steps ([] :: steps')

namespace Respelled

theorem append_left (before : List Text) {steps steps' : List Text} (h : Respelled steps steps') :
    Respelled (before ++ steps) (before ++ steps') := by
  induction before with
  | nil => exact h
  | cons s before ih => exact .cons s ih

theorem filter (steps : List Text) : Respelled steps (steps.filter (· ≠ [])) := by
  induction steps with
  | nil => exact .nil
  | cons s steps ih =>
    by_cases hs : s = []
    · subst hs
      exact .left ih
    · rw [List.filter_cons_of_pos (by simpa using hs)]
      exact .cons s ih

end Respelled

namespace FileTree

variable {t : FileTree} {aim : Aim} {links : Nat} {names steps steps' more place : List Text}
  {d : Directory} {root : Path}

/-! ### Going on -/

/-- Steps that lead to a directory or to a link do so in any spelling and with more behind them. -/
theorem stretch_on (haim : aim ≠ .file) (hmore : more ≠ []) (h : Respelled steps steps') :
    (∀ place d, t.stretch .target names steps = .ok (.ends (.found place (.directory d))) →
        t.stretch aim names (steps' ++ more) = t.stretch aim place more) ∧
      ∀ turn target rest, t.stretch .target names steps = .ok (.turns turn target rest) →
        ∃ rest', Respelled rest rest' ∧
          t.stretch aim names (steps' ++ more) = .ok (.turns turn target (rest' ++ more)) := by
  induction h generalizing names with
  | nil =>
    rw [stretch]
    cases he : t.entry? names with
    | none => exact ⟨by rintro _ _ ⟨⟩, by rintro _ _ _ ⟨⟩⟩
    | some e =>
      refine ⟨?_, by rintro _ _ _ ⟨⟩⟩
      intro place d h
      cases h
      rfl
  | left _ ih =>
    rw [stretch, if_pos (Or.inl rfl)]
    exact ih
  | right _ ih =>
    rw [List.cons_append, stretch, if_pos (Or.inl rfl)]
    exact ih
  | @cons s steps steps' hrest ih =>
    have hslash : ∀ (aim : Aim) (rest : List Text), aim ≠ .file →
        ¬(aim = .file ∧ rest ≠ [] ∧ rest.all List.isEmpty = true) :=
      fun _ _ hne h => hne h.1
    rw [List.cons_append, stretch, stretch, if_neg (hslash .target _ (by decide)),
      if_neg (hslash aim _ haim)]
    by_cases hstay : s = [] ∨ s = ['.']
    · rw [if_pos hstay, if_pos hstay]
      exact ih
    rw [if_neg hstay, if_neg hstay]
    by_cases hup : s = ['.', '.']
    · rw [if_pos hup, if_pos hup]
      exact ih
    rw [if_neg hup, if_neg hup]
    by_cases hlong : longestName < s.utf8Size
    · rw [if_pos hlong]
      exact ⟨by rintro _ _ ⟨⟩, by rintro _ _ _ ⟨⟩⟩
    rw [if_neg hlong, if_neg hlong]
    cases he : t.entry? (names ++ [s]) with
    | none =>
      dsimp only
      split
      · exact ⟨by rintro _ _ ⟨⟩, by rintro _ _ _ ⟨⟩⟩
      · exact ⟨by rintro _ _ ⟨⟩, by rintro _ _ _ ⟨⟩⟩
    | some e =>
      cases e with
      | file bytes =>
        dsimp only
        split
        · exact ⟨by rintro _ _ ⟨⟩, by rintro _ _ _ ⟨⟩⟩
        · exact ⟨by rintro _ _ ⟨⟩, by rintro _ _ _ ⟨⟩⟩
      | directory d => exact ih
      | link target =>
        dsimp only
        have hbehind : steps' ++ more ≠ [] := fun h => hmore (List.append_eq_nil_iff.1 h).2
        have haims : Aim.target ≠ .itself := by decide
        rw [if_neg fun h => haims h.2, if_neg fun h => hbehind h.1]
        refine ⟨by rintro _ _ ⟨⟩, ?_⟩
        intro turn target' rest h
        cases h
        exact ⟨steps', hrest, rfl⟩

/-- A walk along steps to a directory and more steps goes on in the directory. -/
theorem walk_on (haim : aim ≠ .file) (hmore : more ≠ []) (hspelled : Respelled steps steps')
    (h : t.walk .target links names steps = .ok (.found place (.directory d))) :
    ∃ left ≤ links, t.walk aim links names (steps' ++ more) = t.walk aim left place more := by
  induction links generalizing names steps steps' with
  | zero =>
    rw [walk] at h
    split at h
    · cases h
    · next hs =>
      cases h
      exact ⟨0, le_rfl, walk_of_stretch ((stretch_on haim hmore hspelled).1 _ _ hs)⟩
    · cases h
  | succ links ih =>
    rw [walk] at h
    split at h
    · cases h
    · next hs =>
      cases h
      exact ⟨links + 1, le_rfl, walk_of_stretch ((stretch_on haim hmore hspelled).1 _ _ hs)⟩
    · next hs =>
      obtain ⟨rest', hrest, hturns⟩ := (stretch_on haim hmore hspelled).2 _ _ _ hs
      obtain ⟨left, hleft, hwalk⟩ := ih (hrest.append_left _) h
      refine ⟨left, Nat.le_succ_of_le hleft, ?_⟩
      rw [walk, hturns, ← hwalk, List.append_assoc]

/-- The path of an entry below a directory leads where the names lead from the directory. -/
theorem locate_descend (haim : aim ≠ .file)
    (hroot : t.locate .target root = .ok (.found place (.directory d))) (hne : names ≠ [])
    (hnames : ∀ n ∈ names, n.IsName) (hadmissible : Admissible (root.descend names)) :
    ∃ links ≤ mostLinks, t.locate aim (root.descend names) = t.walk aim links place names := by
  rw [locate_of_admissible (admissible_of_locate hroot)] at hroot
  rw [locate_of_admissible hadmissible, root.origin_descend hnames, root.steps_descend hne hnames]
  exact walk_on haim hne (.filter _) hroot

/-! ### To an entry -/

/-- Names lead to a file or link below a directory. A link is not followed when it is asked for. -/
theorem stretch_names (haim : aim ≠ .file) (hd : t.entry? place = some (.directory d))
    (hnames : ∀ n ∈ names, n.IsName ∧ n.utf8Size ≤ longestName) {e : Entry}
    (he : (Entry.directory d).at? names = some e) (hkind : e.isDirectory = false)
    (hlink : ∀ target, e = .link target → aim = .itself) :
    t.stretch aim place names = .ok (.ends (.found (place ++ names) e)) := by
  induction names generalizing place d with
  | nil =>
    cases he
    cases hkind
  | cons n names ih =>
    obtain ⟨⟨hn, hsize⟩, hrest⟩ := List.forall_mem_cons.1 hnames
    rw [Entry.at?] at he
    obtain ⟨e', hfind, he⟩ := Option.bind_eq_some_iff.1 he
    have hthere : t.entry? (place ++ [n]) = some e' := by
      rw [entry?_append, hd, Option.bind_some, Entry.at?, hfind]
      rfl
    rw [stretch, if_neg (not_or.2 ⟨hn.1, hn.2.1⟩), if_neg hn.2.2.1, if_neg fun h => haim h.1,
      if_neg (Nat.not_lt.2 hsize), hthere]
    cases e' with
    | file bytes =>
      obtain rfl := Entry.eq_nil_of_at? rfl he
      cases he
      rfl
    | link target =>
      obtain rfl := Entry.eq_nil_of_at? rfl he
      cases he
      exact if_pos ⟨rfl, hlink target rfl⟩
    | directory inner =>
      dsimp only
      rw [ih hthere hrest he, List.append_assoc]
      rfl

/-- The path of a file or link below a directory leads to it. -/
theorem locate_below (haim : aim ≠ .file)
    (hroot : t.locate .target root = .ok (.found place (.directory d)))
    (hnames : ∀ n ∈ names, n.IsName) (hallowed : Allowed (root.descend names)) {e : Entry}
    (he : (Entry.directory d).at? names = some e) (hkind : e.isDirectory = false)
    (hlink : ∀ target, e = .link target → aim = .itself) :
    t.locate aim (root.descend names) = .ok (.found (place ++ names) e) := by
  have hne : names ≠ [] := by
    rintro rfl
    cases he
    cases hkind
  have hsizes : ∀ n ∈ names, n.IsName ∧ n.utf8Size ≤ longestName := by
    intro n hn
    refine ⟨hnames n hn, hallowed.2 n ?_⟩
    rw [root.steps_descend hne hnames]
    exact List.mem_append_right _ hn
  obtain ⟨links, -, hwalk⟩ := locate_descend haim hroot hne hnames hallowed.1
  have hd : t.entry? place = some (.directory d) := locate_holds hroot
  have hstretch := stretch_names haim hd hsizes he hkind hlink
  rw [hwalk]
  cases links with
  | zero => rw [walk, hstretch]
  | succ links => rw [walk, hstretch]

end FileTree

end LuaReference
