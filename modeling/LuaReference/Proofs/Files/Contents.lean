import LuaReference.Proofs.Files.Operations

/-!
# Walks and the contents of files

Where a path leads to depends on the names, the kinds of the entries and the targets of the links
only. So a file that gets other bytes is still found under every path that led to it:
`locate_setEntry_file`.
-/

namespace LuaReference

/-- An entry without its contents; the target of a link stays. -/
def Entry.kind : Entry → Entry
  | file _ => file .empty
  | link target => link target
  | directory _ => directory .empty

def Located.outline : Located → Located
  | found names e => found names e.kind
  | vacant names name => vacant names name

def Stretch.outline : Stretch → Stretch
  | ends l => ends l.outline
  | turns names target rest => turns names target rest

namespace FileTree

/-- The trees have entries of the same kinds at the same places. -/
def SameKinds (t t' : FileTree) : Prop :=
  ∀ names, (t.entry? names).map Entry.kind = (t'.entry? names).map Entry.kind

theorem SameKinds.entry?_cases {t t' : FileTree} (h : t.SameKinds t') (names : List Text) :
    (t.entry? names = none ∧ t'.entry? names = none) ∨
      ∃ e e', t.entry? names = some e ∧ t'.entry? names = some e' ∧ e.kind = e'.kind := by
  have hnames := h names
  cases he : t.entry? names with
  | none =>
    rw [he] at hnames
    exact Or.inl ⟨rfl, Option.map_eq_none_iff.1 hnames.symm⟩
  | some e =>
    rw [he] at hnames
    obtain ⟨e', he', hkind⟩ := Option.map_eq_some_iff.1 hnames.symm
    exact Or.inr ⟨e, e', rfl, he', hkind.symm⟩

theorem stretch_outline {t t' : FileTree} (h : t.SameKinds t') (aim : Aim)
    (names steps : List Text) :
    (t.stretch aim names steps).map Stretch.outline =
      (t'.stretch aim names steps).map Stretch.outline := by
  induction steps generalizing names with
  | nil =>
    rw [stretch, stretch]
    obtain ⟨he, he'⟩ | ⟨e, e', he, he', hkind⟩ := h.entry?_cases names
    · rw [he, he']
    · rw [he, he']
      exact congrArg (fun e => Except.ok (Stretch.ends (Located.found names e))) hkind
  | cons s rest ih =>
    rw [stretch, stretch]
    split
    · exact ih names
    split
    · exact ih names.dropLast
    split
    · rfl
    split
    · rfl
    obtain ⟨he, he'⟩ | ⟨e, e', he, he', hkind⟩ := h.entry?_cases (names ++ [s])
    · rw [he, he']
    · rw [he, he']
      cases e <;> cases e' <;> cases hkind
      · dsimp only
        split <;> rfl
      · rfl
      · exact ih (names ++ [s])

theorem stretch_cases {t t' : FileTree} (h : t.SameKinds t') (aim : Aim)
    (names steps : List Text) :
    (∃ why, t.stretch aim names steps = .error why ∧ t'.stretch aim names steps = .error why) ∨
      (∃ l l', t.stretch aim names steps = .ok (.ends l) ∧
        t'.stretch aim names steps = .ok (.ends l') ∧ l.outline = l'.outline) ∨
      ∃ turn target rest, t.stretch aim names steps = .ok (.turns turn target rest) ∧
        t'.stretch aim names steps = .ok (.turns turn target rest) := by
  have houtline := stretch_outline h aim names steps
  cases hs : t.stretch aim names steps with
  | error why =>
    cases hs' : t'.stretch aim names steps with
    | error why' =>
      rw [hs, hs'] at houtline
      cases houtline
      exact Or.inl ⟨why, rfl, rfl⟩
    | ok s' =>
      rw [hs, hs'] at houtline
      cases houtline
  | ok s =>
    cases hs' : t'.stretch aim names steps with
    | error why' =>
      rw [hs, hs'] at houtline
      cases houtline
    | ok s' =>
      rw [hs, hs'] at houtline
      have hsame : s.outline = s'.outline := Except.ok.inj houtline
      cases s with
      | ends l =>
        cases s' with
        | ends l' => exact Or.inr (Or.inl ⟨l, l', rfl, rfl, Stretch.ends.inj hsame⟩)
        | turns turn target rest => cases hsame
      | turns turn target rest =>
        cases s' with
        | ends l' => cases hsame
        | turns turn' target' rest' =>
          cases hsame
          exact Or.inr (Or.inr ⟨turn, target, rest, rfl, rfl⟩)

theorem walk_outline {t t' : FileTree} (h : t.SameKinds t') (aim : Aim) (links : Nat)
    (names steps : List Text) :
    (t.walk aim links names steps).map Located.outline =
      (t'.walk aim links names steps).map Located.outline := by
  induction links generalizing names steps with
  | zero =>
    rw [walk, walk]
    obtain ⟨why, hs, hs'⟩ | ⟨l, l', hs, hs', hl⟩ | ⟨turn, target, rest, hs, hs'⟩ :=
      stretch_cases h aim names steps
    · rw [hs, hs']
    · rw [hs, hs']
      exact congrArg Except.ok hl
    · rw [hs, hs']
  | succ links ih =>
    rw [walk, walk]
    obtain ⟨why, hs, hs'⟩ | ⟨l, l', hs, hs', hl⟩ | ⟨turn, target, rest, hs, hs'⟩ :=
      stretch_cases h aim names steps
    · rw [hs, hs']
    · rw [hs, hs']
      exact congrArg Except.ok hl
    · rw [hs, hs']
      exact ih _ _

theorem locate_outline {t t' : FileTree} (h : t.SameKinds t') (hhere : t.here = t'.here)
    (aim : Aim) (p : Path) :
    (t.locate aim p).map Located.outline = (t'.locate aim p).map Located.outline := by
  rw [locate, locate, hhere]
  split
  · rfl
  split
  · rfl
  split
  · rfl
  exact walk_outline h aim mostLinks _ _

/-! ### Rewritten files -/

theorem entry?_setEntry_file {t : FileTree} {place : List Text} {bytes : ByteArray}
    (hplace : t.entry? place = some (.file bytes)) (bytes' : ByteArray) :
    FileTree.entry? (t.setEntry place (some (.file bytes'))) place = some (.file bytes') := by
  obtain rfl | ⟨names, name, rfl⟩ := List.eq_nil_or_concat place
  · rfl
  · rw [List.concat_eq_append] at hplace ⊢
    obtain ⟨d, hd⟩ := Entry.exists_directory_of_at? hplace
    exact Entry.at?_setAt_self (.file bytes') names name t.top hd

theorem sameKinds_setEntry_file {t : FileTree} {place : List Text} {bytes : ByteArray}
    (hplace : t.entry? place = some (.file bytes)) (bytes' : ByteArray) :
    t.SameKinds (t.setEntry place (some (.file bytes'))) := by
  intro names
  by_cases hne : names = place
  · subst hne
    rw [hplace, entry?_setEntry_file hplace]
    rfl
  · have hbare : Entry.Bare (some (.file bytes')) := Entry.bare_file (some bytes')
    have hnot := not_directory_of_ne hplace (fun d h => by cases h)
    have hshape := shape_entry?_setEntry hbare hnot hne
    have hkind : Entry.kind = Entry.kind ∘ Entry.shape := by
      funext e
      cases e <;> rfl
    rw [hkind, ← Option.map_map, ← Option.map_map, hshape]

/-- A file that gets other bytes is found under the paths that led to it. -/
theorem locate_setEntry_file {t : FileTree} {place : List Text} {bytes : ByteArray}
    (bytes' : ByteArray) {aim : Aim} {p : Path}
    (hp : t.locate aim p = .ok (.found place (.file bytes))) :
    (t.setEntry place (some (.file bytes'))).locate aim p = .ok (.found place (.file bytes')) := by
  have hplace : t.entry? place = some (.file bytes) := locate_holds hp
  have hkinds := sameKinds_setEntry_file hplace bytes'
  have houtline := locate_outline hkinds rfl aim p
  rw [hp] at houtline
  cases hl : (t.setEntry place (some (.file bytes'))).locate aim p with
  | error why =>
    rw [hl] at houtline
    cases houtline
  | ok l =>
    rw [hl] at houtline
    have hsame := Except.ok.inj houtline
    cases l with
    | vacant names name => cases hsame
    | found names e =>
      obtain ⟨rfl, -⟩ := Located.found.inj hsame
      have hfound : FileTree.entry? (t.setEntry place (some (.file bytes'))) place = some e :=
        locate_holds hl
      rw [entry?_setEntry_file hplace] at hfound
      rw [Option.some.inj hfound]

theorem readBytes_of_locate {t : FileTree} {p : Path} {place : List Text} {bytes : ByteArray}
    (h : t.locate .target p = .ok (.found place (.file bytes))) : t.readBytes p = .ok bytes := by
  rw [readBytes, entry, h]

theorem writeFile_of_locate {t : FileTree} {p : Path} {place : List Text} {bytes : ByteArray}
    (h : t.locate .file p = .ok (.found place (.file bytes))) (bytes' : ByteArray) :
    t.writeFile p bytes' = .ok (t.setEntry place (some (.file bytes'))) := by
  rw [writeFile, h]
  rfl

end FileTree

end LuaReference
