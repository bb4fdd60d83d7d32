import LuaReference.Proofs.Files.Standing
import LuaReference.Proofs.Output.Confined
import LuaReference.Proofs.Overlay.Planned
import LuaReference.Proofs.Overlay.Survival
import Mathlib.Data.List.Infix

/-!
# How copies end

When nothing new is made in a source, a copy takes its planned steps and no others, and when all
of them have been taken, the files that were listed are there and no other file has changed. When a
destination lies below its own source, the copy finds the directories that it makes, and makes more
of them, until a path is too long: it never comes to its end. `overlays_copiedAsPlanned` says both.
-/

namespace LuaReference

/-! ### What the steps leave -/

/-- The files that the steps fill are there, and no other file has changed. -/
structure Fills (here : List Text) (steps : List CopyStep) (t t' : FileTree) : Prop where
  there : ∀ s ∈ steps, ∀ p, s.filled? = some p → ∃ bytes, t'.bytesAt (p.place here) = some bytes
  others : ∀ x, (∀ s ∈ steps, ∀ p, s.filled? = some p → p.place here ≠ x) →
    t'.bytesAt x = t.bytesAt x

/-- What one step leaves, and what it says. -/
theorem fills_of_run {t t' : FileTree} {s : CopyStep} (ht : t.Plain) (h : s.run.Done t () t') :
    Fills t.here [s] t t' ∧ t'.Plain ∧ t'.here = t.here ∧
      (s.run t).2.notices = s.filled?.toList.map fun p => .event (.copiedFragment p) := by
  cases s with
  | enter source destination =>
    obtain ⟨hmade, names, hlisted⟩ := CopyStep.enter_done h
    have hedits := ht.edits_makeDirectories destination
    rw [Job.done_changes hmade] at hedits
    refine ⟨⟨?_, fun x _ => hedits.bytesAt_eq id⟩, hedits.plain ht, hedits.here, ?_⟩
    · intro s hs p hp
      rw [List.mem_singleton.1 hs] at hp
      cases hp
    · have hsilent : (Job.names source t').2.notices = [] := Report.ofFiles_notices _
      rw [CopyStep.run, Job.notices_bind hmade, Job.notices_bind hlisted, hsilent]
      exact congrArg (· ++ []) (Report.ofFiles_notices _)
  | fill source destination =>
    have hcopied := CopyStep.fill_done h
    have hedits := (ht.edits_copyFile (Job.done_change hcopied)).1
    refine ⟨⟨?_, ?_⟩, hedits.plain ht, hedits.here, ?_⟩
    · intro s hs p hp
      rw [List.mem_singleton.1 hs] at hp
      cases hp
      obtain ⟨bytes, hbytes⟩ := ht.exists_readBytes_of_copyFile (Job.done_change hcopied)
      have hread := (hedits.plain ht).bytesAt_of_readBytes hbytes
      rw [hedits.here] at hread
      exact ⟨bytes, hread⟩
    · intro x hx
      exact hedits.bytesAt_eq fun hself => hx _ List.mem_cons_self _ rfl hself.symm
    · rw [CopyStep.run, Job.notices_bind hcopied, Job.notices_change]
      rfl

theorem Fills.cons {here : List Text} {s : CopyStep} {ss : List CopyStep} {t u t' : FileTree}
    (h : Fills here [s] t u) (h' : Fills here ss u t') : Fills here (s :: ss) t t' := by
  refine ⟨fun s' hs' p hp => ?_, fun x hx => ?_⟩
  · by_cases hagain : ∃ s'' ∈ ss, ∃ p', s''.filled? = some p' ∧ p'.place here = p.place here
    · obtain ⟨s'', hs'', p', hp', hsame⟩ := hagain
      rw [← hsame]
      exact h'.there s'' hs'' p' hp'
    · have hfirst : s' ∈ [s] := by
        rcases List.mem_cons.1 hs' with rfl | hrest
        · exact List.mem_singleton_self s'
        · exact absurd ⟨s', hrest, p, hp, rfl⟩ hagain
      rw [h'.others _ fun s'' hs'' p' hp' hsame => hagain ⟨s'', hs'', p', hp', hsame⟩]
      exact h.there s' hfirst p hp
  · rw [h'.others x fun s' hs' => hx s' (List.mem_cons_of_mem s hs')]
    refine h.others x fun s' hs' => hx s' ?_
    exact List.mem_singleton.1 hs' ▸ List.mem_cons_self

/-- Steps that were all taken have filled their files, and said so once for each file. -/
theorem fills_of_each {t t' : FileTree} {ss : List CopyStep} (ht : t.Plain)
    (h : (Job.each CopyStep.run ss).Done t () t') :
    Fills t.here ss t t' ∧ (Job.each CopyStep.run ss t).2.notices =
      (ss.filterMap CopyStep.filled?).map fun p => .event (.copiedFragment p) := by
  induction ss generalizing t with
  | nil =>
    obtain rfl := Job.done_pure h
    exact ⟨⟨fun _ hs => absurd hs List.not_mem_nil, fun _ _ => rfl⟩, rfl⟩
  | cons s ss ih =>
    rw [Job.each] at h ⊢
    obtain ⟨_, u, hfirst, hrest⟩ := Job.done_bind h
    obtain ⟨hfills, hu, hhere, hsaid⟩ := fills_of_run ht hfirst
    obtain ⟨hothers, hsaidOthers⟩ := ih hu hrest
    rw [hhere] at hothers
    refine ⟨hfills.cons hothers, ?_⟩
    rw [Job.notices_bind hfirst, hsaid, hsaidOthers, ← List.map_append]
    cases s <;> rfl

/-! ### Where nothing is new -/

/-- Nothing new is made in a source when the way to each destination makes nothing there, and the
destination is the source that is copied, or apart from all sources. -/
theorem nothingNew_of_places {t : FileTree} {os : List Overlay} (ht : t.Plain)
    (hsources : ∀ o ∈ os, t.isDirectory o.source = true)
    (hway : ∀ o ∈ os, ∀ o' ∈ os, ∀ x, o'.destination.Passes t.here x →
      o.source.place t.here <+: x → t.entry? x ≠ none)
    (hplaces : ∀ o' ∈ os, o'.destination.place t.here = o'.source.place t.here ∨
      ∀ o ∈ os, Apart (o.source.place t.here) (o'.destination.place t.here)) :
    t.NothingNew os := by
  intro s hs o ho x hx hmakes
  obtain ⟨o', ho', below, hbelow⟩ := ht.of_mem_copySteps hsources hs
  have hpasses : s.destination.Passes t.here x := by
    cases s with
    | enter source destination => exact hmakes
    | fill source destination =>
      obtain rfl : x = destination.place t.here := hmakes
      exact destination.passes_place t.here
  rw [hbelow.destination_eq] at hpasses
  have hcomponents := o'.destination.components_descend hbelow.isName
  rcases hpasses.exists_names hcomponents with hway' | ⟨more, hmore, rfl⟩
  · exact hway o ho o' ho' x hway' hx
  · rcases hplaces o' ho' with hsame | hapart
    · -- what is copied onto itself is there
      obtain ⟨e, he⟩ := hbelow.entry
      obtain ⟨rest, rfl⟩ := hmore
      intro hnone
      rw [← hsame, ← List.append_assoc] at he
      rw [FileTree.entry?_append, hnone] at he
      cases he
    · exact absurd hx ((hapart o ho).not_prefix_append more)

/-! ### A destination below its source -/

/-- Anything may change, as far as a plain tree can. -/
def Job.Tame {α : Type} (here : List Text) (j : Job α) : Prop :=
  Job.Confined here (fun _ => True) (fun _ => True) j

section Nested

variable {here : List Text} {t u t' : FileTree} {source destination : Path} {names : List Text}
  {n m : Text} {below : List Text} {depth : Nat}

theorem tame_copyEntry {inside : (source destination : Path) → List Text → Job Unit}
    (hinside : ∀ source destination names, (inside source destination names).Tame here) :
    (copyEntry inside source destination n).Tame here := by
  refine Job.confined_bind (Job.confined_reading _) fun isDir => ?_
  cases isDir with
  | true =>
    refine Job.confined_bind ?_ fun _ =>
      Job.confined_bind (Job.confined_reading _) fun _ => hinside _ _ _
    exact (Job.confined_makeDirectories here _).mono (fun _ => False.elim) fun _ _ => trivial
  | false =>
    refine Job.confined_bind ?_ fun _ => Job.confined_note _
    refine Job.confined_change fun t t' ht _ hcopied => ?_
    exact (ht.edits_copyFile hcopied).1.mono (fun _ _ => trivial) fun _ => False.elim

theorem tame_copyEntries : (copyEntries depth source destination names).Tame here := by
  induction depth generalizing source destination names with
  | zero =>
    cases names with
    | nil => exact Job.confined_pure ()
    | cons n names => exact Job.confined_reading _
  | succ depth ih =>
    rw [copyEntries]
    exact Job.confined_each fun n _ => tame_copyEntry fun _ _ _ => ih

theorem tame_copy (o : Overlay) : o.copy.Tame here := by
  refine Job.confined_bind ?_ fun _ =>
    Job.confined_bind (Job.confined_reading _) fun _ => tame_copyEntries
  exact (Job.confined_makeDirectories here _).mono (fun _ => False.elim) fun _ _ => trivial

/-- Work on a list comes to each of its members, on a tree that has the directories still. -/
theorem Job.exists_of_each {α : Type} {f : α → Job Unit} {as : List α} {a : α} (ha : a ∈ as)
    (hf : ∀ a, (f a).Tame t.here) (ht : t.Plain) (h : (each f as).Done t () t') :
    ∃ u u', u.Plain ∧ u.here = t.here ∧ t.KeepsDirectories u ∧ (f a).Done u () u' := by
  induction as generalizing t with
  | nil => exact absurd ha List.not_mem_nil
  | cons b as ih =>
    rw [each] at h
    obtain ⟨_, u, hfirst, hrest⟩ := done_bind h
    rcases List.mem_cons.1 ha with rfl | ha
    · exact ⟨t, u, ht, rfl, fun _ d hd => ⟨d, hd⟩, hfirst⟩
    · have hedits := hf b t ht rfl
      rw [hfirst.1] at hedits
      have hf' : ∀ a, (f a).Tame u.here := by
        rw [hedits.here]
        exact hf
      obtain ⟨v, v', hv, hhere, hkeeps, hdone⟩ := ih ha hf' (hedits.plain ht) hrest
      exact ⟨v, v', hv, hhere.trans hedits.here, hedits.keepsDirectories.trans hkeeps, hdone⟩

/-- The destination is there, so far below the source. -/
structure LiesInside (t : FileTree) (source destination : Path) (below : List Text) : Prop where
  place : destination.place t.here = source.place t.here ++ below
  there : ∃ d, t.entry? (destination.place t.here) = some (.directory d)

/-- A destination that was made below its source is on the way of what the source lists then. -/
theorem liesInside_of_made (ht : t.Plain)
    (hplace : destination.place t.here = source.place t.here ++ n :: below)
    (hmade : t.makeDirectories destination = (u, .ok ())) {d : Directory}
    (hlist : u.list source = .ok d) :
    u.Plain ∧ LiesInside u source destination (n :: below) ∧ n ∈ d.names := by
  have hedits := ht.edits_makeDirectories destination
  rw [hmade] at hedits
  have hu := hedits.plain ht
  have hthere := hu.exists_directory_of_ready (ht.ready_of_makeDirectories hmade)
  rw [← hedits.here] at hplace
  refine ⟨hu, ⟨hplace, hthere⟩, ?_⟩
  obtain ⟨e, he⟩ := hthere
  rw [hplace] at he
  exact FileTree.mem_names_of_entry? (FileTree.locate_holds (hu.list_eq_ok_iff.1 hlist)) he

/-- The directory on the way to the destination is copied into it, and so there is a destination
below that directory. -/
theorem not_done_of_liesInside (ht : t.Plain) (h : LiesInside t source destination (n :: below))
    (hn : n ∈ names) : ¬ (copyEntries depth source destination names).Done t () t' := by
  induction depth generalizing source destination names n below t t' with
  | zero =>
    cases names with
    | nil => exact absurd hn List.not_mem_nil
    | cons m names => exact fun h => nomatch h.2
  | succ depth ih =>
    rw [copyEntries]
    intro hdone
    obtain ⟨u, u', hu, hhere, hkeeps, hentry⟩ :=
      Job.exists_of_each hn (fun _ => tame_copyEntry fun _ _ _ => tame_copyEntries) ht hdone
    have hplace := h.place
    obtain ⟨d, hd⟩ := h.there
    obtain ⟨d, hd⟩ := hkeeps _ d hd
    rw [hplace, ← hhere, List.append_cons] at hd
    obtain ⟨above, habove⟩ := FileTree.exists_directory_of_prefix hd
    have hname : n.IsName := hu.isName habove
    rcases copyEntry_done.1 hentry with ⟨-, made, inner, hmade, hlist, hinside⟩ | ⟨-, hcopied⟩
    · -- the names between the two places take one turn
      obtain ⟨k, rest, hrest⟩ := List.exists_cons_of_ne_nil (l := below ++ [n]) (by simp)
      have hdeeper : (destination.child n).place u.here =
          (source.child n).place u.here ++ k :: rest := by
        rw [hhere, destination.place_child hname, source.place_child hname, hplace, ← hrest]
        simp
      obtain ⟨hready, hnext, hk⟩ := liesInside_of_made hu hdeeper hmade hlist
      exact ih hready hnext hk hinside
    · obtain ⟨-, bytes, hread, -⟩ := hu.edits_copyFile hcopied
      have hfile := FileTree.bytesAt_eq_some_iff.1 (hu.bytesAt_of_readBytes hread)
      rw [source.place_child hname, habove] at hfile
      cases hfile

/-- A directory is never copied to an end into a place below it. -/
theorem not_done_copy {o : Overlay} (ht : t.Plain)
    (hplace : o.destination.place t.here = o.source.place t.here ++ n :: below) :
    ¬ o.copy.Done t () t' := by
  intro h
  obtain ⟨made, d, hmade, hlist, hcopied⟩ := copy_done.1 h
  obtain ⟨hready, hinside, hn⟩ := liesInside_of_made ht hplace hmade hlist
  exact not_done_of_liesInside hready hinside hn hcopied

theorem not_done_copyOverlays {os : List Overlay} {o : Overlay} (ht : t.Plain) (ho : o ∈ os)
    (hplace : o.destination.place t.here = o.source.place t.here ++ n :: below) :
    ¬ (copyOverlays os).Done t () t' := by
  intro h
  obtain ⟨u, u', hu, hhere, -, hdone⟩ := Job.exists_of_each ho (fun o => tame_copy o) ht h
  rw [← hhere] at hplace
  exact not_done_copy hu hplace hdone

end Nested

/-! ### Planned overlays -/

/-- Copying the overlays goes as it can be foreseen. -/
structure CopiesAsPlanned (t : FileTree) (out : Path) (os : List Overlay) : Prop where
  /-- The copy is its planned steps, however it ends. -/
  steps : copyOverlays os t = Job.each CopyStep.run (t.copySteps os) t
  /-- The steps list directories of the sources that are there before the first step. -/
  lists : ∀ s ∈ t.copySteps os, ∀ p, s.entered? = some p → InSource t os p
  /-- No directory is listed twice. -/
  once : (t.enteredPlaces (t.copySteps os)).Nodup
  /-- There are no more listings than directories in the sources. -/
  calls : (t.enteredPlaces (t.copySteps os)).length ≤ (t.sourceDirectories os).length
  /-- The steps fill the files whose paths are foreseen for the output directory. -/
  fills : ∃ qs, t.overlayPaths out os = .ok qs ∧
    qs.map (fun q => (out.join q).place t.here) = t.filledPlaces (t.copySteps os)
  /-- After the last step these files are there and logged, and no other file has changed. -/
  ends : ∀ t', (copyOverlays os).Done t () t' → Fills t.here (t.copySteps os) t t' ∧
    (copyOverlays os t).2.notices =
      ((t.copySteps os).filterMap CopyStep.filled?).map fun p => .event (.copiedFragment p)

/-- The overlays are copied as planned when nothing new is made in their sources. They are never
copied to the end when a destination lies below its source. -/
theorem overlays_copiedAsPlanned {t : FileTree} (ht : t.Plain) (hdistinct : t.top.Distinct)
    (primary out : Path) (s : Settings) :
    (t.NothingNew (t.overlays primary out s) →
        CopiesAsPlanned t out (t.overlays primary out s)) ∧
      ∀ o ∈ t.overlays primary out s, ∀ n below,
        o.destination.place t.here = o.source.place t.here ++ n :: below →
          ∀ t', ¬ (copyOverlays (t.overlays primary out s)).Done t () t' := by
  refine ⟨fun hnew => ?_, fun o ho n below hplace t' => not_done_copyOverlays ht ho hplace⟩
  have hsources : ∀ o ∈ t.overlays primary out s, t.isDirectory o.source = true :=
    fun o ho => (mem_overlays_iff.1 ho).1
  have hsteps := copyOverlays_eq_each ht hsources hnew
  have honce := ht.nodup_copySteps hsources hdistinct (pairwise_sources t primary out s t.here)
  obtain ⟨qs, hqs⟩ := ht.exists_overlayPaths hsources out
  refine ⟨hsteps, fun _ hs _ hp => inSource_of_entered hsources ht hs hp, honce,
    ht.length_enteredPlaces_le hsources honce,
    ⟨qs, hqs, ht.overlayPaths_places (fun _ ho => exists_enters ho) hqs⟩, fun t' hdone => ?_⟩
  rw [Job.Done, Job.left, hsteps] at hdone
  rw [hsteps]
  exact fills_of_each ht hdone

/-- A tree with sources in `src` and an empty directory for hand-written pages about tables. -/
def noPages : FileTree where
  top := .directory <| .sub "src".toList .empty <| .sub "docs".toList
    (.sub "lua".toList (.sub "tables".toList .empty .empty) .empty) .empty

/-- The page of `handWritten` is copied to `site` as planned. Nothing is copied to an end from
`docs/lua/tables` into the same directory. -/
theorem handWritten_copiedAsPlanned :
    (handWritten.Plain ∧ handWritten.top.Distinct ∧
      handWritten.NothingNew (handWritten.overlays (.ofString "src") (.ofString "site") {}) ∧
      CopiesAsPlanned handWritten (.ofString "site")
        (handWritten.overlays (.ofString "src") (.ofString "site") {})) ∧
    noPages.Plain ∧ noPages.top.Distinct ∧
      ∀ t', ¬ (copyOverlays
        (noPages.overlays (.ofString "src") (.ofString "docs/lua/tables") {})).Done
          noPages () t' := by
  have hplain : handWritten.Plain := FileTree.plain_of_decide (by decide +kernel)
  have hdistinct : handWritten.top.Distinct := by decide +kernel
  have hnew : handWritten.NothingNew
      (handWritten.overlays (.ofString "src") (.ofString "site") {}) := by
    refine nothingNew_of_places hplain (by decide +kernel) ?_ (by decide +kernel)
    have hway : ∀ o ∈ handWritten.overlays (.ofString "src") (.ofString "site") {},
        ∀ o' ∈ handWritten.overlays (.ofString "src") (.ofString "site") {},
        ∀ cs ∈ o'.destination.components.inits,
          ¬ o.source.place handWritten.here <+: cs.foldl Component.enter handWritten.here := by
      decide +kernel
    rintro o ho o' ho' x ⟨cs, hcs, rfl⟩ hx
    exact absurd hx (hway o ho o' ho' cs ((List.mem_inits _ _).2 hcs))
  have hplain' : noPages.Plain := FileTree.plain_of_decide (by decide +kernel)
  have hdistinct' : noPages.top.Distinct := by decide +kernel
  refine ⟨⟨hplain, hdistinct, hnew, (overlays_copiedAsPlanned hplain hdistinct _ _ _).1 hnew⟩,
    hplain', hdistinct', ?_⟩
  exact (overlays_copiedAsPlanned hplain' hdistinct' _ _ _).2
    ⟨.ofString "src/../docs/lua/tables", .ofString "docs/lua/tables/tables"⟩ (by decide +kernel)
    "tables".toList [] (by decide +kernel)

/-- The planned steps list one directory and make one, and then they are at their end. The copy is
not: it finds the directory that it has made. -/
theorem noPages_not_copiedAsPlanned :
    (Job.each CopyStep.run (noPages.copySteps
        (noPages.overlays (.ofString "src") (.ofString "docs/lua/tables") {})) noPages).2.result =
      .ok () ∧
    ¬ CopiesAsPlanned noPages (.ofString "docs/lua/tables")
      (noPages.overlays (.ofString "src") (.ofString "docs/lua/tables") {}) := by
  have hended : (Job.each CopyStep.run (noPages.copySteps
      (noPages.overlays (.ofString "src") (.ofString "docs/lua/tables") {})) noPages).2.result =
      .ok () := by
    decide +kernel
  refine ⟨hended, fun h => ?_⟩
  rw [← h.steps] at hended
  have ho : (⟨.ofString "src/../docs/lua/tables", .ofString "docs/lua/tables/tables"⟩ : Overlay) ∈
      noPages.overlays (.ofString "src") (.ofString "docs/lua/tables") {} := by
    decide +kernel
  have hplace : (Path.ofString "docs/lua/tables/tables").place noPages.here =
      (Path.ofString "src/../docs/lua/tables").place noPages.here ++ ["tables".toList] := by
    decide +kernel
  exact not_done_copyOverlays (FileTree.plain_of_decide (by decide +kernel)) ho hplace
    ⟨rfl, hended⟩

end LuaReference
