import LuaReference.Proofs.Files.Contents
import LuaReference.Proofs.Path.Place

/-!
# Plain trees

A plain tree has no links, only names that entries can have, and a working directory. In a plain
tree every walk comes to the place of its path (`Plain.locate_place`), and it comes there again
after changes that keep the directories (`Plain.locate_mono`).
-/

namespace LuaReference

namespace Directory

def Plain : Directory → Prop
  | empty => True
  | file name _ rest => name.IsName ∧ rest.Plain
  | link _ _ _ => False
  | sub name inner rest => name.IsName ∧ inner.Plain ∧ rest.Plain

instance decidablePlain : (d : Directory) → Decidable d.Plain
  | empty => isTrue trivial
  | file name _ rest =>
    have := decidablePlain rest
    inferInstanceAs (Decidable (name.IsName ∧ rest.Plain))
  | link _ _ _ => isFalse id
  | sub name inner rest =>
    have := decidablePlain inner
    have := decidablePlain rest
    inferInstanceAs (Decidable (name.IsName ∧ inner.Plain ∧ rest.Plain))

def names (d : Directory) : List Text := d.toList.map (·.1)

theorem mem_names_iff {d : Directory} {n : Text} : n ∈ d.names ↔ ∃ e, d.find? n = some e := by
  induction d with
  | empty => simp [names, toList, find?]
  | file m b rest ih =>
    by_cases h : m = n <;> simp_all [names, toList, find?, eq_comm]
  | link m target rest ih =>
    by_cases h : m = n <;> simp_all [names, toList, find?, eq_comm]
  | sub m inner rest _ ih =>
    by_cases h : m = n <;> simp_all [names, toList, find?, eq_comm]

end Directory

namespace Entry

def Plain : Entry → Prop
  | file _ => True
  | link _ => False
  | directory d => d.Plain

instance : (e : Entry) → Decidable e.Plain
  | file _ => isTrue trivial
  | link _ => isFalse id
  | directory d => inferInstanceAs (Decidable d.Plain)

end Entry

theorem Directory.Plain.of_find? {d : Directory} (h : d.Plain) {n : Text} {e : Entry}
    (hn : d.find? n = some e) : n.IsName ∧ e.Plain := by
  induction d with
  | empty => cases hn
  | file m b rest ih =>
    rw [find?] at hn
    split at hn
    · next hm =>
      cases hn
      exact ⟨hm ▸ h.1, trivial⟩
    · exact ih h.2 hn
  | link m target rest => exact h.elim
  | sub m inner rest _ ih =>
    rw [find?] at hn
    split at hn
    · next hm =>
      cases hn
      exact ⟨hm ▸ h.1, h.2.1⟩
    · exact ih h.2.2 hn

theorem Directory.Plain.isName {d : Directory} (h : d.Plain) {n : Text} (hn : n ∈ d.names) :
    n.IsName := by
  obtain ⟨e, he⟩ := mem_names_iff.1 hn
  exact (h.of_find? he).1

theorem Directory.plain_cons {x : Text} {e : Entry} {rest : Directory} (hx : x.IsName)
    (he : e.Plain) (hrest : rest.Plain) : (cons x e rest).Plain := by
  cases e with
  | file b => exact ⟨hx, hrest⟩
  | link target => exact he.elim
  | directory d => exact ⟨hx, he, hrest⟩

theorem Directory.Plain.set {d : Directory} (h : d.Plain) {x : Text} (hx : x.IsName)
    {v : Option Entry} (hv : ∀ e, v = some e → e.Plain) : (d.set x v).Plain := by
  induction d with
  | empty =>
    cases v with
    | none => exact h
    | some e => exact plain_cons hx (hv e rfl) trivial
  | file m b rest ih =>
    simp only [Directory.set]
    split
    · cases v with
      | none => exact ih h.2
      | some e => exact plain_cons hx (hv e rfl) h.2
    · exact ⟨h.1, ih h.2⟩
  | link m target rest => exact h.elim
  | sub m inner rest _ ih =>
    simp only [Directory.set]
    split
    · cases v with
      | none => exact ih h.2.2
      | some e => exact plain_cons hx (hv e rfl) h.2.2
    · exact ⟨h.1, h.2.1, ih h.2.2⟩

theorem Entry.Plain.of_at? {root e : Entry} (h : root.Plain) {names : List Text}
    (he : root.at? names = some e) : e.Plain := by
  induction names generalizing root with
  | nil =>
    cases he
    exact h
  | cons n names ih =>
    cases root with
    | file b => cases he
    | link target => cases he
    | directory d =>
      rw [at?] at he
      obtain ⟨below, hbelow, he⟩ := Option.bind_eq_some_iff.1 he
      have hd : d.Plain := h
      exact ih (hd.of_find? hbelow).2 he

theorem Entry.Plain.setAt {root : Entry} (h : root.Plain) {v : Option Entry}
    (hv : ∀ e, v = some e → e.Plain) (names : List Text) {n : Text} (hn : n.IsName) :
    (root.setAt v (names ++ [n])).Plain := by
  induction names generalizing root with
  | nil =>
    cases root with
    | file b => exact h
    | link target => exact h.elim
    | directory d =>
      have hd : d.Plain := h
      exact hd.set hn hv
  | cons m names ih =>
    obtain ⟨k, rest, hrest⟩ := List.exists_cons_of_ne_nil (l := names ++ [n]) (by simp)
    rw [List.cons_append, hrest]
    cases root with
    | file b => exact h
    | link target => exact h.elim
    | directory d =>
      have hd : d.Plain := h
      rw [Entry.setAt]
      cases hm : d.find? m with
      | none => exact h
      | some e =>
        obtain ⟨hname, he⟩ := hd.of_find? hm
        refine hd.set (v := some _) hname ?_
        intro e' he'
        cases he'
        rw [← hrest]
        exact ih he

namespace FileTree

structure Plain (t : FileTree) : Prop where
  top : t.top.Plain
  here : ∃ d, t.entry? t.here = some (.directory d)

theorem plain_of_decide {t : FileTree}
    (h : t.top.Plain ∧ ((t.entry? t.here).map Entry.isDirectory) = some true) : t.Plain := by
  obtain ⟨e, he, hdir⟩ := Option.map_eq_some_iff.1 h.2
  cases e with
  | file b => cases hdir
  | link target => cases hdir
  | directory d => exact ⟨h.1, d, he⟩

variable {t t' : FileTree}

theorem Plain.not_link (h : t.Plain) (names : List Text) (target : Path) :
    t.entry? names ≠ some (.link target) := by
  intro hlink
  exact (h.top.of_at? hlink : Entry.Plain (.link target))

theorem Plain.isName (h : t.Plain) {names : List Text} {n : Text} {e : Entry}
    (he : t.entry? (names ++ [n]) = some e) : n.IsName := by
  obtain ⟨d, hd⟩ : ∃ d, t.entry? names = some (.directory d) := Entry.exists_directory_of_at? he
  have hplain : d.Plain := h.top.of_at? hd
  rw [entry?_append, hd, Option.bind_some, Entry.at?] at he
  obtain ⟨e', he', -⟩ := Option.bind_eq_some_iff.1 he
  exact (hplain.of_find? he').1

theorem exists_directory_of_prefix {names below : List Text} {d : Directory}
    (hd : t.entry? (names ++ below) = some (.directory d)) :
    ∃ d', t.entry? names = some (.directory d') := by
  induction below using List.reverseRecOn generalizing d with
  | nil => exact ⟨d, List.append_nil names ▸ hd⟩
  | append_singleton below n ih =>
    rw [← List.append_assoc] at hd
    obtain ⟨d', hd'⟩ := Entry.exists_directory_of_at? hd
    exact ih hd'

theorem exists_directory_dropLast {names : List Text} {d : Directory}
    (hd : t.entry? names = some (.directory d)) :
    ∃ d', t.entry? names.dropLast = some (.directory d') := by
  obtain rfl | ⟨above, n, rfl⟩ := List.eq_nil_or_concat names
  · exact ⟨d, hd⟩
  · rw [List.concat_eq_append, List.dropLast_concat]
    rw [List.concat_eq_append] at hd
    exact exists_directory_of_prefix hd

theorem Plain.origin (h : t.Plain) (p : Path) :
    ∃ d, t.entry? (FileTree.origin p t.here) = some (.directory d) := by
  obtain ⟨d, hd⟩ := h.here
  rw [FileTree.origin]
  split
  · exact exists_directory_of_prefix (List.nil_append t.here ▸ hd)
  · exact ⟨d, hd⟩

/-! ### Walks -/

/-- A walk without links: from a place along steps to what they lead to. -/
inductive Leads (t : FileTree) : (names steps : List Text) → Located → Prop
  | arrive {names : List Text} {e : Entry} (he : t.entry? names = some e) :
      Leads t names [] (.found names e)
  | stay {names rest : List Text} {step : Text} {l : Located} (hstep : step = [] ∨ step = ['.'])
      (hrest : Leads t names rest l) : Leads t names (step :: rest) l
  | up {names rest : List Text} {l : Located} (hrest : Leads t names.dropLast rest l) :
      Leads t names (['.', '.'] :: rest) l
  | enter {names rest : List Text} {step : Text} {l : Located} {d : Directory}
      (hstay : ¬(step = [] ∨ step = ['.'])) (hup : step ≠ ['.', '.'])
      (hsize : step.utf8Size ≤ longestName)
      (hd : t.entry? (names ++ [step]) = some (.directory d))
      (hrest : Leads t (names ++ [step]) rest l) : Leads t names (step :: rest) l
  | file {names : List Text} {step : Text} {bytes : ByteArray}
      (hstay : ¬(step = [] ∨ step = ['.'])) (hup : step ≠ ['.', '.'])
      (hsize : step.utf8Size ≤ longestName)
      (hfile : t.entry? (names ++ [step]) = some (.file bytes)) :
      Leads t names [step] (.found (names ++ [step]) (.file bytes))
  | free {names rest : List Text} {step : Text} (hstay : ¬(step = [] ∨ step = ['.']))
      (hup : step ≠ ['.', '.']) (hsize : step.utf8Size ≤ longestName)
      (hnone : t.entry? (names ++ [step]) = none) (hrest : rest.all List.isEmpty = true) :
      Leads t names (step :: rest) (.vacant names step)

theorem Plain.leads_of_stretch (h : t.Plain) {aim : Aim} {names steps : List Text} {s : Stretch}
    (hs : t.stretch aim names steps = .ok s) : ∃ l, s = .ends l ∧ t.Leads names steps l := by
  induction steps generalizing names with
  | nil =>
    rw [stretch] at hs
    split at hs
    · cases hs
    · next he =>
      cases hs
      exact ⟨_, rfl, .arrive he⟩
  | cons step rest ih =>
    rw [stretch] at hs
    split at hs
    · next hstay =>
      obtain ⟨l, hl, hrest⟩ := ih hs
      exact ⟨l, hl, .stay hstay hrest⟩
    split at hs
    · next hup =>
      obtain ⟨l, hl, hrest⟩ := ih hs
      exact ⟨l, hl, hup ▸ .up hrest⟩
    next hstay hup =>
    split at hs
    · cases hs
    split at hs
    · cases hs
    next hlong =>
    have hsize := Nat.not_lt.1 hlong
    split at hs
    · next hnone =>
      split at hs
      · next hempty =>
        cases hs
        exact ⟨_, rfl, .free hstay hup hsize hnone hempty⟩
      · cases hs
    · next hd =>
      obtain ⟨l, hl, hrest⟩ := ih hs
      exact ⟨l, hl, .enter hstay hup hsize hd hrest⟩
    · next hfile =>
      split at hs
      · next hrest =>
        cases hs
        exact ⟨_, rfl, hrest ▸ .file hstay hup hsize hfile⟩
      · cases hs
    · next hlink => exact absurd hlink (h.not_link _ _)

theorem Leads.stretch {aim : Aim} (haim : aim ≠ .file) {names steps : List Text} {l : Located}
    (h : t.Leads names steps l) : t.stretch aim names steps = .ok (.ends l) := by
  have hnotFile : ∀ rest : List Text, ¬(aim = .file ∧ rest ≠ [] ∧ rest.all List.isEmpty) :=
    fun rest hand => haim hand.1
  induction h with
  | arrive he => rw [FileTree.stretch, he]
  | stay hstep _ ih => rw [FileTree.stretch, if_pos hstep, ih]
  | up _ ih => rw [FileTree.stretch, if_neg (by decide), if_pos rfl, ih]
  | enter hstay hup hsize hd _ ih =>
    rw [FileTree.stretch, if_neg hstay, if_neg hup, if_neg (hnotFile _),
      if_neg (Nat.not_lt.2 hsize), hd]
    exact ih
  | file hstay hup hsize hfile =>
    rw [FileTree.stretch, if_neg hstay, if_neg hup, if_neg (hnotFile _),
      if_neg (Nat.not_lt.2 hsize), hfile]
    rfl
  | free hstay hup hsize hnone hrest =>
    rw [FileTree.stretch, if_neg hstay, if_neg hup, if_neg (hnotFile _),
      if_neg (Nat.not_lt.2 hsize), hnone]
    exact if_pos hrest

/-- The conditions on the text of a path that no tree can lift. -/
def Admissible (p : Path) : Prop :=
  '\x00' ∉ p.text ∧ p.text ≠ [] ∧ p.text.utf8Size ≤ longestPath

theorem Plain.leads_of_locate (h : t.Plain) {aim : Aim} {p : Path} {l : Located}
    (hl : t.locate aim p = .ok l) :
    Admissible p ∧ t.Leads (FileTree.origin p t.here) p.steps l := by
  rw [locate] at hl
  split at hl
  · cases hl
  split at hl
  · cases hl
  split at hl
  · cases hl
  next hnul hempty hlong =>
  refine ⟨⟨hnul, hempty, Nat.not_lt.1 hlong⟩, ?_⟩
  rw [mostLinks, walk] at hl
  split at hl
  · cases hl
  · next hs =>
    cases hl
    obtain ⟨l, hends, hleads⟩ := h.leads_of_stretch hs
    cases hends
    exact hleads
  · next hs =>
    obtain ⟨l, hends, -⟩ := h.leads_of_stretch hs
    cases hends

theorem locate_of_leads {aim : Aim} (haim : aim ≠ .file) {p : Path} {l : Located}
    (hp : Admissible p) (hl : t.Leads (FileTree.origin p t.here) p.steps l) :
    t.locate aim p = .ok l := by
  obtain ⟨hnul, hempty, hsize⟩ := hp
  rw [locate, if_neg hnul, if_neg hempty, if_neg (Nat.not_lt.2 hsize), mostLinks, walk,
    hl.stretch haim]

theorem Plain.locate_of_file (h : t.Plain) {aim : Aim} (haim : aim ≠ .file) {p : Path}
    {l : Located} (hl : t.locate .file p = .ok l) : t.locate aim p = .ok l := by
  obtain ⟨hp, hleads⟩ := h.leads_of_locate hl
  exact locate_of_leads haim hp hleads

end FileTree

/-- The place that a walk came to. -/
def Located.place : Located → List Text
  | found names _ => names
  | vacant names name => names ++ [name]

namespace FileTree

variable {t t' : FileTree} {names steps : List Text}

theorem Leads.place {l : Located} (h : t.Leads names steps l) :
    l.place = steps.foldl enterStep names := by
  induction h with
  | arrive _ => rfl
  | stay hstep _ ih => rw [List.foldl_cons, enterStep, if_pos hstep, ih]
  | up _ ih => exact ih
  | enter hstay hup _ _ _ ih => rw [List.foldl_cons, enterStep, if_neg hstay, if_neg hup, ih]
  | file hstay hup _ _ =>
    rw [List.foldl_cons, enterStep, if_neg hstay, if_neg hup]
    rfl
  | free hstay hup _ _ hrest =>
    rw [List.foldl_cons, enterStep, if_neg hstay, if_neg hup, foldl_enterStep_empty hrest]
    rfl

/-- In a plain tree a walk comes to the place of its path. -/
theorem Plain.locate_place (h : t.Plain) {aim : Aim} {p : Path} {l : Located}
    (hl : t.locate aim p = .ok l) : l.place = p.place t.here := by
  rw [(h.leads_of_locate hl).2.place, Path.foldl_enterStep_steps]

theorem Leads.exists_directory {above : List Text} {n : Text} {d : Directory}
    (h : t.Leads names steps (.vacant above n)) (hd : t.entry? names = some (.directory d)) :
    ∃ d', t.entry? above = some (.directory d') := by
  generalize hl : Located.vacant above n = l at h
  induction h generalizing d with
  | arrive _ => cases hl
  | stay _ _ ih => exact ih hd hl
  | up _ ih =>
    obtain ⟨d', hd'⟩ := exists_directory_dropLast hd
    exact ih hd' hl
  | enter _ _ _ hbelow _ ih => exact ih hbelow hl
  | file _ _ _ _ => cases hl
  | free _ _ _ _ _ =>
    cases hl
    exact ⟨d, hd⟩

theorem Plain.locate_vacant (h : t.Plain) {aim : Aim} {p : Path} {above : List Text} {n : Text}
    (hl : t.locate aim p = .ok (.vacant above n)) :
    ∃ d, t.entry? above = some (.directory d) := by
  obtain ⟨d, hd⟩ := h.origin p
  exact (h.leads_of_locate hl).2.exists_directory hd

theorem Leads.isName {above : List Text} {n : Text} (h : t.Leads names steps (.vacant above n))
    (hsteps : ∀ s ∈ steps, '/' ∉ s) : n.IsName := by
  generalize hl : Located.vacant above n = l at h
  induction h with
  | arrive _ => cases hl
  | stay _ _ ih => exact ih (fun s hs => hsteps s (List.mem_cons_of_mem _ hs)) hl
  | up _ ih => exact ih (fun s hs => hsteps s (List.mem_cons_of_mem _ hs)) hl
  | enter _ _ _ _ _ ih => exact ih (fun s hs => hsteps s (List.mem_cons_of_mem _ hs)) hl
  | file _ _ _ _ => cases hl
  | free hstay hup _ _ _ =>
    cases hl
    obtain ⟨hempty, hdot⟩ := not_or.1 hstay
    exact ⟨hempty, hdot, hup, hsteps n List.mem_cons_self⟩

theorem not_mem_of_mem_steps {p : Path} {s : Text} (hs : s ∈ p.steps) : '/' ∉ s := by
  rw [Path.steps] at hs
  rcases List.mem_append.1 hs with hs | hs
  · exact Text.not_mem_of_mem_splitAll (List.mem_of_mem_filter hs)
  · split at hs
    · rw [List.mem_singleton.1 hs]
      exact List.not_mem_nil
    · cases hs

theorem Plain.locate_vacant_isName (h : t.Plain) {aim : Aim} {p : Path} {above : List Text}
    {n : Text} (hl : t.locate aim p = .ok (.vacant above n)) : n.IsName :=
  (h.leads_of_locate hl).2.isName fun _ => not_mem_of_mem_steps

/-! ### The same walk in another tree -/

/-- Every directory of the one tree is one of the other. -/
def KeepsDirectories (t t' : FileTree) : Prop :=
  ∀ names d, t.entry? names = some (.directory d) → ∃ d', t'.entry? names = some (.directory d')

theorem KeepsDirectories.trans {t'' : FileTree} (h : t.KeepsDirectories t')
    (h' : t'.KeepsDirectories t'') : t.KeepsDirectories t'' := by
  intro names d hd
  obtain ⟨d', hd'⟩ := h names d hd
  exact h' names d' hd'

theorem Leads.mono (hkeeps : t.KeepsDirectories t') {place : List Text} {e e' : Entry}
    (h : t.Leads names steps (.found place e)) (he : t'.entry? place = some e')
    (hkind : e.kind = e'.kind) : t'.Leads names steps (.found place e') := by
  generalize hl : Located.found place e = l at h
  induction h with
  | arrive _ =>
    cases hl
    exact .arrive he
  | stay hstep _ ih => exact .stay hstep (ih hl)
  | up _ ih => exact .up (ih hl)
  | enter hstay hup hsize hd _ ih =>
    obtain ⟨d', hd'⟩ := hkeeps _ _ hd
    exact .enter hstay hup hsize hd' (ih hl)
  | file hstay hup hsize _ =>
    cases hl
    cases e' <;> cases hkind
    exact .file hstay hup hsize he
  | free _ _ _ _ _ => cases hl

/-- A path that leads to an entry leads to the entry of the same kind in another tree that has the
same directories. -/
theorem Plain.locate_mono (h : t.Plain) (hkeeps : t.KeepsDirectories t') (hhere : t'.here = t.here)
    {aim : Aim} (haim : aim ≠ .file) {p : Path} {place : List Text} {e e' : Entry}
    (hl : t.locate aim p = .ok (.found place e)) (he : t'.entry? place = some e')
    (hkind : e.kind = e'.kind) : t'.locate aim p = .ok (.found place e') := by
  obtain ⟨hp, hleads⟩ := h.leads_of_locate hl
  exact locate_of_leads haim hp (hhere ▸ hleads.mono hkeeps he hkind)

/-! ### Walks from a directory on -/

theorem Leads.size_le {place : List Text} {e : Entry} (h : t.Leads names steps (.found place e)) :
    ∀ s ∈ steps, s.utf8Size ≤ longestName := by
  generalize hl : Located.found place e = l at h
  induction h with
  | arrive _ => exact fun s hs => nomatch hs
  | stay hstep _ ih =>
    refine List.forall_mem_cons.2 ⟨?_, ih hl⟩
    rcases hstep with rfl | rfl <;> decide
  | up _ ih => exact List.forall_mem_cons.2 ⟨by decide, ih hl⟩
  | enter _ _ hsize _ _ ih => exact List.forall_mem_cons.2 ⟨hsize, ih hl⟩
  | file _ _ hsize _ => exact List.forall_mem_cons.2 ⟨hsize, fun s hs => nomatch hs⟩
  | free _ _ _ _ _ => cases hl

theorem Leads.append {place more : List Text} {d : Directory} {l : Located}
    (h : t.Leads names steps (.found place (.directory d))) (hmore : t.Leads place more l) :
    t.Leads names (steps ++ more) l := by
  generalize hm : Located.found place (.directory d) = m at h
  induction h with
  | arrive _ =>
    cases hm
    exact hmore
  | stay hstep _ ih => exact .stay hstep (ih hm)
  | up _ ih => exact .up (ih hm)
  | enter hstay hup hsize hd _ ih => exact .enter hstay hup hsize hd (ih hm)
  | file _ _ _ _ => cases hm
  | free _ _ _ _ _ => cases hm

/-- On the way to a directory there are directories. -/
theorem Leads.of_append {more place : List Text} {d : Directory}
    (hstart : ∃ d, t.entry? names = some (.directory d))
    (h : t.Leads names (steps ++ more) (.found place (.directory d))) :
    ∃ mid d', t.Leads names steps (.found mid (.directory d')) := by
  induction steps generalizing names with
  | nil =>
    obtain ⟨d', hd'⟩ := hstart
    exact ⟨names, d', .arrive hd'⟩
  | cons s rest ih =>
    rw [List.cons_append] at h
    generalize hall : s :: (rest ++ more) = all at h
    cases h with
    | arrive _ => cases hall
    | stay hstep hrest =>
      cases hall
      obtain ⟨mid, d', hmid⟩ := ih hstart hrest
      exact ⟨mid, d', .stay hstep hmid⟩
    | up hrest =>
      cases hall
      obtain ⟨e, he⟩ := hstart
      obtain ⟨mid, d', hmid⟩ := ih (exists_directory_dropLast he) hrest
      exact ⟨mid, d', .up hmid⟩
    | enter hstay hup hsize hd hrest =>
      cases hall
      obtain ⟨mid, d', hmid⟩ := ih ⟨_, hd⟩ hrest
      exact ⟨mid, d', .enter hstay hup hsize hd hmid⟩

theorem Leads.filter {place : List Text} {d : Directory}
    (h : t.Leads names steps (.found place (.directory d))) :
    t.Leads names (steps.filter (· ≠ [])) (.found place (.directory d)) := by
  generalize hl : Located.found place (.directory d) = l at h
  induction h with
  | arrive he => exact .arrive he
  | @stay _ _ step _ hstep _ ih =>
    by_cases hempty : step = []
    · rw [List.filter_cons_of_neg (by simpa using hempty)]
      exact ih hl
    · rw [List.filter_cons_of_pos (by simpa using hempty)]
      exact .stay hstep (ih hl)
  | up _ ih =>
    rw [List.filter_cons_of_pos (by decide)]
    exact .up (ih hl)
  | enter hstay hup hsize hd _ ih =>
    have hne := (not_or.1 hstay).1
    rw [List.filter_cons_of_pos (by simpa using hne)]
    exact .enter hstay hup hsize hd (ih hl)
  | file _ _ _ _ => cases hl
  | free _ _ _ _ _ => cases hl

/-- Names lead down to the entry that they name. -/
theorem Plain.leads_names (h : t.Plain) {below : List Text} {e : Entry}
    (hbelow : ∀ n ∈ below, n.IsName ∧ n.utf8Size ≤ longestName)
    (he : t.entry? (names ++ below) = some e) :
    t.Leads names below (.found (names ++ below) e) := by
  induction below generalizing names with
  | nil =>
    rw [List.append_nil] at he ⊢
    exact .arrive he
  | cons n below ih =>
    obtain ⟨⟨hne, hdot, hup, -⟩, hsize⟩ := hbelow n List.mem_cons_self
    have hstay : ¬(n = [] ∨ n = ['.']) := not_or.2 ⟨hne, hdot⟩
    have hassoc : names ++ n :: below = names ++ [n] ++ below := by simp
    rw [hassoc] at he ⊢
    cases below with
    | nil =>
      rw [List.append_nil] at he ⊢
      cases e with
      | file b => exact .file hstay hup hsize he
      | link target => exact absurd he (h.not_link _ _)
      | directory d => exact .enter hstay hup hsize he (.arrive he)
    | cons m below =>
      have hd : ∃ d, t.entry? (names ++ [n]) = some (.directory d) := by
        rw [entry?_append] at he
        obtain ⟨above, habove, he⟩ := Option.bind_eq_some_iff.1 he
        cases above with
        | file b => cases he
        | link target => cases he
        | directory d => exact ⟨d, habove⟩
      obtain ⟨d, hd⟩ := hd
      exact .enter hstay hup hsize hd (ih (fun k hk => hbelow k (List.mem_cons_of_mem n hk)) he)

end FileTree

end LuaReference
