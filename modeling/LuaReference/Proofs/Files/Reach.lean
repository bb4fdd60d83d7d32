import LuaReference.Proofs.Files.Plain

/-!
# Places that paths reach

A path reaches a place when a walk along it comes there with its last step, through directories
and links. What is at the place itself does not matter, so the path still reaches it when a file
there is written or removed: `Slot.mono`. Files are written exactly at places that are reached,
`writeFile_eq_ok_iff`, and every file that a path leads to is at one, `slot_of_locate_file`.
-/

namespace LuaReference

/-- Where a walk ends, as far as files go: every file is at a place that was reached, every name
that is free for a file too, and only a walk to the entry itself ends at a link. -/
def Located.Comes (aim : Aim) (reached : List Text → Prop) : Located → Prop
  | found _ (.directory _) => True
  | found names (.file _) => reached names
  | found _ (.link _) => aim = .itself
  | vacant names name => aim = .file → reached (names ++ [name])

theorem Located.Comes.mono {aim : Aim} {reached reached' : List Text → Prop} {l : Located}
    (h : l.Comes aim reached) (hmono : ∀ place, reached place → reached' place) :
    l.Comes aim reached' := by
  cases l with
  | vacant names name => exact fun haim => hmono _ (h haim)
  | found names e =>
    cases e with
    | directory d => trivial
    | file bytes => exact hmono _ h
    | link target => exact h

namespace FileTree

/-- A walk from a place along steps that comes to `place` with its last step and follows at most
`links` links. -/
inductive Reaches (t : FileTree) (place : List Text) :
    (links : Nat) → (names steps : List Text) → Prop
  | last {links : Nat} {names : List Text} {step : Text} (hstay : ¬(step = [] ∨ step = ['.']))
      (hup : step ≠ ['.', '.']) (hsize : step.utf8Size ≤ longestName)
      (hplace : names ++ [step] = place) : Reaches t place links names [step]
  | stay {links : Nat} {names rest : List Text} {step : Text} (hstep : step = [] ∨ step = ['.'])
      (hrest : Reaches t place links names rest) : Reaches t place links names (step :: rest)
  | up {links : Nat} {names rest : List Text}
      (hrest : Reaches t place links names.dropLast rest) :
      Reaches t place links names (['.', '.'] :: rest)
  | enter {links : Nat} {names rest : List Text} {step : Text} {d : Directory}
      (hstay : ¬(step = [] ∨ step = ['.'])) (hup : step ≠ ['.', '.'])
      (hsize : step.utf8Size ≤ longestName)
      (hd : t.entry? (names ++ [step]) = some (.directory d))
      (hrest : Reaches t place links (names ++ [step]) rest) :
      Reaches t place links names (step :: rest)
  | turn {links : Nat} {names rest : List Text} {step : Text} {target : Path}
      (hstay : ¬(step = [] ∨ step = ['.'])) (hup : step ≠ ['.', '.'])
      (hsize : step.utf8Size ≤ longestName)
      (hlink : t.entry? (names ++ [step]) = some (.link target))
      (hrest : Reaches t place links (FileTree.origin target names) (target.steps ++ rest)) :
      Reaches t place (links + 1) names (step :: rest)

variable {t t' : FileTree} {place names steps : List Text} {links : Nat} {aim : Aim} {p : Path}

/-- Nothing but a file is at the place, if anything. -/
def Open (t : FileTree) (place : List Text) : Prop :=
  ∀ e, t.entry? place = some e → ∃ bytes, e = .file bytes

/-! ### What a walk depends on -/

/-- Directories and links are where they were. -/
structure KeepsWays (t t' : FileTree) : Prop where
  here : t'.here = t.here
  directories : ∀ names d, t.entry? names = some (.directory d) →
    ∃ d', t'.entry? names = some (.directory d')
  links : ∀ names target, t.entry? names = some (.link target) →
    t'.entry? names = some (.link target)

theorem Reaches.mono (hways : t.KeepsWays t') (h : t.Reaches place links names steps) :
    t'.Reaches place links names steps := by
  induction h with
  | last hstay hup hsize hplace => exact .last hstay hup hsize hplace
  | stay hstep _ ih => exact .stay hstep ih
  | up _ ih => exact .up ih
  | enter hstay hup hsize hd _ ih =>
    obtain ⟨d', hd'⟩ := hways.directories _ _ hd
    exact .enter hstay hup hsize hd' ih
  | turn hstay hup hsize hlink _ ih =>
    exact .turn hstay hup hsize (hways.links _ _ hlink) ih

theorem getLast?_of_all_isEmpty {rest : List Text} (hne : rest ≠ [])
    (h : rest.all List.isEmpty = true) : rest.getLast? = some [] := by
  rw [List.getLast?_eq_some_getLast hne]
  have hlast := List.all_eq_true.1 h _ (List.getLast_mem hne)
  rw [List.isEmpty_iff.1 hlast]

/-- No slash follows the last step. -/
theorem Reaches.getLast?_ne (h : t.Reaches place links names steps) :
    steps.getLast? ≠ some [] ∧ steps ≠ [] := by
  induction h with
  | last hstay _ _ _ =>
    refine ⟨fun h => hstay (Or.inl (Option.some.inj h)), List.cons_ne_nil _ _⟩
  | stay _ _ ih | up _ ih | enter _ _ _ _ _ ih =>
    rw [List.getLast?_cons_of_ne_nil ih.2]
    exact ⟨ih.1, List.cons_ne_nil _ _⟩
  | @turn _ _ rest _ _ hstay _ _ _ _ ih =>
    refine ⟨?_, List.cons_ne_nil _ _⟩
    by_cases hrest : rest = []
    · rw [hrest]
      exact fun h => hstay (Or.inl (Option.some.inj h))
    · rw [List.getLast?_cons_of_ne_nil hrest]
      rw [List.getLast?_append_of_ne_nil _ hrest] at ih
      exact ih.1

/-- So a walk to a file that is to be written is not refused for a slash. -/
theorem not_slashed (aim : Aim) {rest : List Text} (h : rest.getLast? ≠ some []) :
    ¬(aim = .file ∧ rest ≠ [] ∧ rest.all List.isEmpty = true) :=
  fun hslash => h (getLast?_of_all_isEmpty hslash.2.1 hslash.2.2)

/-! ### From reaching to walking -/

/-- What a walk finds at a place that it comes to. -/
def arrival (t : FileTree) (names : List Text) (name : Text) : Located :=
  match t.entry? (names ++ [name]) with
  | none => .vacant names name
  | some e => .found (names ++ [name]) e

theorem walk_of_stretch {names' steps' : List Text}
    (h : t.stretch aim names steps = t.stretch aim names' steps') :
    t.walk aim links names steps = t.walk aim links names' steps' := by
  cases links with
  | zero => rw [walk, walk, h]
  | succ links => rw [walk, walk, h]

/-- A walk that comes to a place without directory or link ends there. -/
theorem Reaches.walk (haim : aim ≠ .itself) (h : t.Reaches place links names steps)
    (hplace : t.Open place) :
    ∃ above name, place = above ++ [name] ∧
      t.walk aim links names steps = .ok (t.arrival above name) := by
  induction h with
  | @last links names step hstay hup hsize hlast =>
    subst hlast
    have hends : t.stretch aim names [step] = .ok (.ends (t.arrival names step)) := by
      rw [stretch, if_neg hstay, if_neg hup, if_neg (not_slashed aim (by simp)),
        if_neg (Nat.not_lt.2 hsize), arrival]
      cases he : t.entry? (names ++ [step]) with
      | none => rfl
      | some e =>
        obtain ⟨bytes, rfl⟩ := hplace e he
        rfl
    refine ⟨names, step, rfl, ?_⟩
    cases links with
    | zero => rw [FileTree.walk, hends]
    | succ links => rw [FileTree.walk, hends]
  | stay hstep _ ih =>
    obtain ⟨above, name, rfl, hwalk⟩ := ih
    refine ⟨above, name, rfl, ?_⟩
    rw [← hwalk]
    exact walk_of_stretch (by rw [stretch, if_pos hstep])
  | up _ ih =>
    obtain ⟨above, name, rfl, hwalk⟩ := ih
    refine ⟨above, name, rfl, ?_⟩
    rw [← hwalk]
    exact walk_of_stretch (by rw [stretch, if_neg (by decide), if_pos rfl])
  | enter hstay hup hsize hd hrest ih =>
    obtain ⟨above, name, rfl, hwalk⟩ := ih
    refine ⟨above, name, rfl, ?_⟩
    rw [← hwalk]
    refine walk_of_stretch ?_
    rw [stretch, if_neg hstay, if_neg hup, if_neg (not_slashed aim hrest.getLast?_ne.1),
      if_neg (Nat.not_lt.2 hsize), hd]
  | @turn links names rest step target hstay hup hsize hlink hrest ih =>
    obtain ⟨above, name, rfl, hwalk⟩ := ih
    refine ⟨above, name, rfl, ?_⟩
    have hslash : rest.getLast? ≠ some [] := by
      intro hlast
      have hne : rest ≠ [] := by
        rintro rfl
        cases hlast
      refine hrest.getLast?_ne.1 ?_
      rw [List.getLast?_append_of_ne_nil _ hne, hlast]
    have hturns : t.stretch aim names (step :: rest) = .ok (.turns names target rest) := by
      rw [stretch, if_neg hstay, if_neg hup, if_neg (not_slashed aim hslash),
        if_neg (Nat.not_lt.2 hsize), hlink]
      exact if_neg fun h => haim h.2
    rw [FileTree.walk, hturns]
    exact hwalk

/-! ### From walking to reaching -/

theorem comes_of_stretch {d : Directory} (hd : t.entry? names = some (.directory d)) {l : Located}
    (h : t.stretch aim names steps = .ok (.ends l)) :
    l.Comes aim fun place => ∀ links, t.Reaches place links names steps := by
  induction steps generalizing names d with
  | nil =>
    rw [stretch, hd] at h
    cases h
    trivial
  | cons step rest ih =>
    rw [stretch] at h
    split at h
    · next hstay => exact (ih hd h).mono fun _ hrest links => .stay hstay (hrest links)
    split at h
    · next hup =>
      obtain ⟨d', hd'⟩ := exists_directory_dropLast hd
      exact (ih hd' h).mono fun _ hrest links => hup ▸ .up (hrest links)
    next hstay hup =>
    split at h
    · cases h
    next hslash =>
    split at h
    · cases h
    next hlong =>
    have hsize := Nat.not_lt.1 hlong
    split at h
    · split at h
      · next hempty =>
        cases h
        intro haim links
        obtain rfl : rest = [] := by
          by_contra hne
          exact hslash ⟨haim, hne, hempty⟩
        exact .last hstay hup hsize rfl
      · cases h
    · next hd' =>
      exact (ih hd' h).mono fun _ hrest links => .enter hstay hup hsize hd' (hrest links)
    · split at h
      · next hrest =>
        cases h
        subst hrest
        exact fun links => .last hstay hup hsize rfl
      · cases h
    · split at h
      · next hitself =>
        cases h
        exact hitself.2
      · cases h

theorem turns_of_stretch {d : Directory} (hd : t.entry? names = some (.directory d))
    {turn rest : List Text} {target : Path}
    (h : t.stretch aim names steps = .ok (.turns turn target rest)) :
    (∃ d', t.entry? turn = some (.directory d')) ∧ ∀ place links,
      t.Reaches place links (FileTree.origin target turn) (target.steps ++ rest) →
        t.Reaches place (links + 1) names steps := by
  induction steps generalizing names d with
  | nil =>
    rw [stretch, hd] at h
    cases h
  | cons step later ih =>
    rw [stretch] at h
    split at h
    · next hstay =>
      obtain ⟨hturn, hrest⟩ := ih hd h
      exact ⟨hturn, fun place links hreaches => .stay hstay (hrest place links hreaches)⟩
    split at h
    · next hup =>
      obtain ⟨d', hd'⟩ := exists_directory_dropLast hd
      obtain ⟨hturn, hrest⟩ := ih hd' h
      exact ⟨hturn, fun place links hreaches => hup ▸ .up (hrest place links hreaches)⟩
    next hstay hup =>
    split at h
    · cases h
    split at h
    · cases h
    next hlong =>
    have hsize := Nat.not_lt.1 hlong
    split at h
    · split at h <;> cases h
    · next hd' =>
      obtain ⟨hturn, hrest⟩ := ih hd' h
      exact ⟨hturn, fun place links hreaches =>
        .enter hstay hup hsize hd' (hrest place links hreaches)⟩
    · split at h <;> cases h
    · next hlink =>
      split at h
      · cases h
      · cases h
        exact ⟨⟨d, hd⟩, fun _ _ hreaches => .turn hstay hup hsize hlink hreaches⟩

theorem exists_directory_origin {d : Directory} (hd : t.entry? names = some (.directory d))
    (p : Path) : ∃ d', t.entry? (FileTree.origin p names) = some (.directory d') := by
  rw [FileTree.origin]
  split
  · exact exists_directory_of_prefix (List.nil_append names ▸ hd)
  · exact ⟨d, hd⟩

theorem comes_of_walk {d : Directory} (hd : t.entry? names = some (.directory d)) {l : Located}
    (h : t.walk aim links names steps = .ok l) :
    l.Comes aim fun place => t.Reaches place links names steps := by
  induction links generalizing names d steps with
  | zero =>
    rw [walk] at h
    split at h
    · cases h
    · next hs =>
      cases h
      exact (comes_of_stretch hd hs).mono fun _ hreaches => hreaches 0
    · cases h
  | succ links ih =>
    rw [walk] at h
    split at h
    · cases h
    · next hs =>
      cases h
      exact (comes_of_stretch hd hs).mono fun _ hreaches => hreaches (links + 1)
    · next hs =>
      obtain ⟨⟨d', hturn⟩, hrest⟩ := turns_of_stretch hd hs
      obtain ⟨d'', hd''⟩ := exists_directory_origin hturn _
      exact (ih hd'' h).mono fun place hreaches => hrest place links hreaches

theorem Reaches.exists_directory {d : Directory} (h : t.Reaches place links names steps)
    (hd : t.entry? names = some (.directory d)) :
    ∃ above name d', place = above ++ [name] ∧ t.entry? above = some (.directory d') := by
  induction h generalizing d with
  | last _ _ _ hplace => exact ⟨_, _, d, hplace.symm, hd⟩
  | stay _ _ ih => exact ih hd
  | up _ ih =>
    obtain ⟨d', hd'⟩ := exists_directory_dropLast hd
    exact ih hd'
  | enter _ _ _ hd' _ ih => exact ih hd'
  | turn _ _ _ _ _ ih =>
    obtain ⟨d', hd'⟩ := exists_directory_origin hd _
    exact ih hd'

/-! ### Paths -/

/-- The working directory is there. -/
def Settled (t : FileTree) : Prop := ∃ d, t.entry? t.here = some (.directory d)

/-- The path leads to a place for a file. -/
structure Slot (t : FileTree) (p : Path) (place : List Text) : Prop where
  admissible : Admissible p
  reaches : t.Reaches place mostLinks (FileTree.origin p t.here) p.steps

theorem Settled.mono (ht : t.Settled) (h : t.KeepsWays t') : t'.Settled := by
  obtain ⟨d, hd⟩ := ht
  rw [Settled, h.here]
  exact h.directories t.here d hd

theorem Slot.mono (h : t.Slot p place) (hways : t.KeepsWays t') : t'.Slot p place := by
  refine ⟨h.admissible, ?_⟩
  rw [hways.here]
  exact h.reaches.mono hways

theorem Settled.origin (ht : t.Settled) (p : Path) :
    ∃ d, t.entry? (FileTree.origin p t.here) = some (.directory d) := by
  obtain ⟨d, hd⟩ := ht
  exact exists_directory_origin hd p

theorem Slot.exists_directory (ht : t.Settled) (h : t.Slot p place) :
    ∃ above name d, place = above ++ [name] ∧ t.entry? above = some (.directory d) := by
  obtain ⟨d, hd⟩ := ht.origin p
  exact h.reaches.exists_directory hd

theorem locate_of_admissible (h : Admissible p) (t : FileTree) (aim : Aim) :
    t.locate aim p = t.walk aim mostLinks (FileTree.origin p t.here) p.steps := by
  obtain ⟨hnul, hempty, hsize⟩ := h
  rw [locate, if_neg hnul, if_neg hempty, if_neg (Nat.not_lt.2 hsize)]

theorem admissible_of_locate {l : Located} (h : t.locate aim p = .ok l) : Admissible p := by
  rw [locate] at h
  split at h
  · cases h
  split at h
  · cases h
  split at h
  · cases h
  next hnul hempty hlong =>
  exact ⟨hnul, hempty, Nat.not_lt.1 hlong⟩

theorem comes_of_locate (ht : t.Settled) {l : Located} (h : t.locate aim p = .ok l) :
    l.Comes aim fun place => t.Slot p place := by
  have hadmissible := admissible_of_locate h
  rw [locate_of_admissible hadmissible] at h
  obtain ⟨d, hd⟩ := ht.origin p
  exact (comes_of_walk hd h).mono fun _ hreaches => ⟨hadmissible, hreaches⟩

theorem slot_of_locate_file (ht : t.Settled) {bytes : ByteArray}
    (h : t.locate aim p = .ok (.found place (.file bytes))) : t.Slot p place :=
  comes_of_locate ht h

/-- A path to a place for a file leads to the file that is there. -/
theorem Slot.locate_file (h : t.Slot p place) (haim : aim ≠ .itself) {bytes : ByteArray}
    (hfile : t.entry? place = some (.file bytes)) :
    t.locate aim p = .ok (.found place (.file bytes)) := by
  obtain ⟨above, name, rfl, hwalk⟩ := h.reaches.walk haim fun e he =>
    ⟨bytes, Option.some.inj (he.symm.trans hfile)⟩
  rw [locate_of_admissible h.admissible, hwalk, arrival, hfile]

/-- A path to a place for a file leads to the name that is free there. -/
theorem Slot.locate_free (h : t.Slot p place) (haim : aim ≠ .itself)
    (hnone : t.entry? place = none) :
    ∃ above name, place = above ++ [name] ∧ t.locate aim p = .ok (.vacant above name) := by
  obtain ⟨above, name, rfl, hwalk⟩ := h.reaches.walk haim fun e he =>
    nomatch hnone.symm.trans he
  refine ⟨above, name, rfl, ?_⟩
  rw [locate_of_admissible h.admissible, hwalk, arrival, hnone]

/-! ### Writing -/

theorem Slot.writeFile (h : t.Slot p place) (hopen : t.Open place) (bytes : ByteArray) :
    t.writeFile p bytes = .ok (t.setEntry place (some (.file bytes))) := by
  have haim : Aim.file ≠ .itself := by decide
  cases he : t.entry? place with
  | none =>
    obtain ⟨above, name, rfl, hl⟩ := h.locate_free haim he
    rw [FileTree.writeFile, hl]
    rfl
  | some e =>
    obtain ⟨old, rfl⟩ := hopen e he
    exact writeFile_of_locate (h.locate_file haim he) bytes

/-- Files are written where a path leads to a place for a file and no directory or link is there. -/
theorem writeFile_eq_ok_iff (ht : t.Settled) {bytes : ByteArray} :
    t.writeFile p bytes = .ok t' ↔ ∃ place, t.Slot p place ∧ t.Open place ∧
      t' = t.setEntry place (some (.file bytes)) := by
  constructor
  · intro h
    rw [FileTree.writeFile] at h
    split at h
    · cases h
    · next names name hl =>
      cases h
      have hnone : t.entry? (names ++ [name]) = none := locate_holds hl
      refine ⟨names ++ [name], comes_of_locate ht hl rfl, ?_, rfl⟩
      intro e he
      rw [hnone] at he
      cases he
    · cases h
    · next names e hdir hl =>
      cases h
      have hfound : t.entry? names = some e := locate_holds hl
      have hcomes := comes_of_locate ht hl
      cases e with
      | directory d => exact absurd rfl (hdir d)
      | link target => cases hcomes
      | file old =>
        exact ⟨names, hcomes, fun e he => ⟨old, Option.some.inj (he.symm.trans hfound)⟩, rfl⟩
  · rintro ⟨place, hslot, hopen, rfl⟩
    exact hslot.writeFile hopen bytes

end FileTree

end LuaReference
