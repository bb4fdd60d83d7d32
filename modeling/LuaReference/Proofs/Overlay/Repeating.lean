import LuaReference.Proofs.Files.Standing
import LuaReference.Proofs.Overlay.Listing

/-!
# Copying the overlays again

Copying a directory that lies apart from its destination comes to its end again, as long as what it
left is still there and nothing was added to the source.
-/

namespace LuaReference

open FileTree (Persists SameBelow)

variable {here : List Text} {source destination : Path} {heads names names' : List Text}
  {t t' u v : FileTree}

/-! ### What a copy leaves as it was -/

theorem Copied.persists (h : Copied here source destination heads t t') : t.Persists t' := by
  refine .of_edits h.edits fun place bytes hbytes => ?_
  by_cases hbrought : ∃ bytes', Brings (source.place here) (destination.place here) heads t place
      bytes'
  · obtain ⟨bytes', hbrings⟩ := hbrought
    exact ⟨bytes', h.brings place bytes' hbrings⟩
  · rw [not_exists] at hbrought
    exact ⟨bytes, (h.keeps place hbrought).trans hbytes⟩

/-- Nothing is made on the way to a destination that is there, so the source stays as it is. -/
theorem Copied.sameBelow (h : Copied here source destination heads t t') (ht : t.Plain)
    (hhere : t.here = here) (hapart : Apart (source.place here) (destination.place here))
    (hdestination : t.isDirectory destination = true) :
    SameBelow (source.place here) t t' := by
  subst hhere
  refine h.edits.sameBelow ht (fun x hx => hapart.symm.not_prefix hx) ?_
  rintro x (hpasses | hdown)
  · exact Or.inl ⟨destination, hdestination, hpasses⟩
  · exact Or.inr (hapart.symm.not_prefix hdown)

theorem Overlaid.persists {os : List Overlay} (h : Overlaid here os t t') : t.Persists t' := by
  refine .of_edits h.edits fun place bytes hbytes => ?_
  by_cases hbrought : ∃ o ∈ os, ∃ bytes', o.Brings here t place bytes'
  · obtain ⟨o, ho, bytes', hbrings⟩ := hbrought
    exact ⟨bytes', h.brings o ho place bytes' hbrings⟩
  · refine ⟨bytes, (h.keeps place ?_).trans hbytes⟩
    intro o ho bytes' hbrings
    exact hbrought ⟨o, ho, bytes', hbrings⟩

theorem Overlaid.sameBelow {os : List Overlay} (h : Overlaid here os t t') (ht : t.Plain)
    (hhere : t.here = here) {place : List Text}
    (hapart : ∀ o ∈ os, Apart place (o.destination.place here))
    (hdestinations : ∀ o ∈ os, t.isDirectory o.destination = true) : SameBelow place t t' := by
  subst hhere
  refine h.edits.sameBelow ht ?_ ?_
  · rintro x ⟨o, ho, hdown⟩
    exact (hapart o ho).symm.not_prefix hdown
  · rintro x ⟨o, ho, hpasses | hdown⟩
    · exact Or.inl ⟨o.destination, hdestinations o ho, hpasses⟩
    · exact Or.inr ((hapart o ho).symm.not_prefix hdown)

/-! ### One entry -/

/-- Copying with these names comes to its end again, with some of the names, wherever persists what
it left and the source is the same. -/
def CopiesAgain (here : List Text)
    (copy : (source destination : Path) → List Text → Job Unit) : Prop :=
  ∀ {source destination : Path} {names names' : List Text} {t t' v : FileTree}, t.Plain →
    t.here = here → v.Plain → (∀ n ∈ names, n.IsName) →
    Apart (source.place here) (destination.place here) → t.isDirectory destination = true →
    (copy source destination names).Done t () t' → t'.Persists v →
    SameBelow (source.place here) t v → names' ⊆ names →
    ∃ v', (copy source destination names').Done v () v'

theorem names_subset (ht : t.Plain) (hv : v.Plain) (hhere : t.here = here)
    (hhere' : v.here = here) {d d' : Directory} (hd : t.list source = .ok d)
    (hd' : v.list source = .ok d') (hsame : SameBelow (source.place here) t v) :
    d'.names ⊆ d.names := by
  intro m hm
  have hlocate := ht.list_eq_ok_iff.1 hd
  have hlocate' := hv.list_eq_ok_iff.1 hd'
  rw [hhere] at hlocate
  rw [hhere'] at hlocate'
  obtain ⟨e, he⟩ := FileTree.exists_entry_of_mem_names (FileTree.locate_holds hlocate') hm
  obtain ⟨e', he'⟩ := hsame.exists_entry he
  exact FileTree.mem_names_of_entry? (FileTree.locate_holds hlocate) he'

theorem sameBelow_of_makeDirectories (ht : t.Plain) (hhere : t.here = here) {n : Text}
    (hn : n.IsName) (hapart : Apart (source.place here) (destination.place here))
    (hdestination : t.isDirectory destination = true) :
    SameBelow (source.place here) t (t.makeDirectories (destination.child n)).1 := by
  subst hhere
  have hedits := ht.edits_makeDirectories (destination.child n)
  refine hedits.sameBelow ht (fun _ => False.elim) fun x hx => ?_
  rcases passes_child hn hx with hpasses | hdown
  · exact Or.inl ⟨destination, hdestination, hpasses⟩
  · exact Or.inr (hapart.symm.not_prefix hdown)

section Entry

variable {inside : (source destination : Path) → List Text → Job Unit}
  (hcopied : ∀ {source destination : Path} {names : List Text} {t t' : FileTree}, t.Plain →
    t.here = here → (∀ n ∈ names, n.IsName) →
    Apart (source.place here) (destination.place here) →
    (inside source destination names).Done t () t' → Copied here source destination names t t')

include hcopied

/-- Each entry was copied at some moment, from the same source. -/
theorem exists_moment (ht : t.Plain) (hhere : t.here = here) (hnames : ∀ n ∈ names, n.IsName)
    (hapart : Apart (source.place here) (destination.place here))
    (hdestination : t.isDirectory destination = true)
    (h : (Job.each (copyEntry inside source destination) names).Done t () t') {n : Text}
    (hn : n ∈ names) :
    ∃ u u', u.Plain ∧ t.Persists u ∧ SameBelow (source.place here) t u ∧
      (copyEntry inside source destination n).Done u () u' ∧ u'.Persists t' := by
  -- what is copied before the entry leaves the source as it is, and nothing is lost afterwards
  induction names generalizing t with
  | nil => exact absurd hn List.not_mem_nil
  | cons m names ih =>
    obtain ⟨hm, hothers⟩ := List.forall_mem_cons.1 hnames
    rw [Job.each] at h
    obtain ⟨_, w, hfirst, hrest⟩ := Job.done_bind h
    have hcopiedFirst := copied_of_copyEntry hcopied ht hhere hm hapart hfirst
    have hw := hcopiedFirst.edits.plain ht
    have hwHere := hcopiedFirst.edits.here.trans hhere
    rcases List.mem_cons.1 hn with rfl | hn
    · have hcopiedRest := copied_of_each hcopied hw hwHere hothers hapart hrest
      exact ⟨t, w, ht, .refl t, .refl t, hfirst, hcopiedRest.persists⟩
    · have hpersists := hcopiedFirst.persists
      have hsame := hcopiedFirst.sameBelow ht hhere hapart hdestination
      have hdestination' := hpersists.isDirectory ht hw hdestination
      obtain ⟨u, u', hu, hwu, hsameRest, hcopy, hlast⟩ :=
        ih hw hwHere hothers hdestination' hrest hn
      exact ⟨u, u', hu, hpersists.trans hwu, hsame.trans hsameRest, hcopy, hlast⟩

variable (hagain : CopiesAgain here inside)

include hagain

theorem exists_copyEntry (ht : t.Plain) (hhere : t.here = here) (hv : v.Plain) {n : Text}
    (hn : n.IsName) (hapart : Apart (source.place here) (destination.place here))
    (hdestination : t.isDirectory destination = true)
    (h : (copyEntry inside source destination n).Done t () t') (hpersists : t'.Persists v)
    (hsame : SameBelow (source.place here) t v) :
    ∃ v', (copyEntry inside source destination n).Done v () v' := by
  have hwhole := copied_of_copyEntry hcopied ht hhere hn hapart h
  have htv := hwhole.persists.trans hpersists
  rcases copyEntry_done.1 h with ⟨hdir, made, d, hmade, hlist, h⟩ | ⟨-, hcopy⟩
  · have hedits := ht.edits_makeDirectories (destination.child n)
    have hsource := sameBelow_of_makeDirectories ht hhere hn hapart hdestination
    rw [hmade] at hedits hsource
    have hplain := hedits.plain ht
    have hmadeHere := hedits.here.trans hhere
    have hnames : ∀ m ∈ d.names, m.IsName := fun m hm => hplain.isName_of_list hlist hm
    have hbelow := apart_child hn hapart
    have hinside := hcopied hplain hmadeHere hnames hbelow h
    -- the directory that was made is still there, so it is not made again
    have hready := ht.ready_of_makeDirectories hmade
    have hsub := hready.resolve_left (destination.text_child_ne_nil hn.1)
    have hsub' := (hinside.persists.trans hpersists).isDirectory hplain hv hsub
    have hstands := hv.makeDirectories_of_ready (Or.inr hsub')
    -- the directory below the source is the one that was listed
    have hdir' := htv.isDirectory ht hv hdir
    obtain ⟨d', hlist', -⟩ := hv.exists_list hdir'
    have hsame' : SameBelow ((source.child n).place here) made v := by
      rw [source.place_child hn]
      exact (hsource.symm.trans hsame).append [n]
    have hfewer := names_subset hplain hv hmadeHere (htv.here.trans hhere) hlist hlist' hsame'
    obtain ⟨v', hv'⟩ := hagain hplain hmadeHere hv hnames hbelow hsub h hpersists hsame' hfewer
    exact ⟨v', copyEntry_done.2 (Or.inl ⟨hdir', v, d', hstands, hlist', hv'⟩)⟩
  · obtain ⟨-, bytes, hsource, -⟩ := ht.edits_copyFile hcopy
    obtain ⟨last, hlast⟩ := ht.exists_readBytes_of_copyFile hcopy
    obtain ⟨bytes', hsource'⟩ := htv.readBytes ht hv hsource
    obtain ⟨last', hlast'⟩ := hpersists.readBytes (hwhole.edits.plain ht) hv hlast
    obtain ⟨v', hv'⟩ := hv.exists_copyFile hsource' hlast'
    have hfile := FileTree.isDirectory_of_readBytes hsource'
    exact ⟨v', copyEntry_done.2 (Or.inr ⟨hfile, hv'⟩)⟩

theorem copiesAgain_each :
    CopiesAgain here fun source destination => Job.each (copyEntry inside source destination) := by
  intro source destination names names' t t' v ht hhere hv hnames hapart hdestination h hpersists
    hsame hsub
  have hwhole := copied_of_each hcopied ht hhere hnames hapart h
  -- on the entries of the later copy: each one leaves a tree like the one that it began with
  induction names' generalizing v with
  | nil => exact ⟨v, Job.pure_done () v⟩
  | cons n names' ih =>
    obtain ⟨hn, hothers⟩ := List.cons_subset.1 hsub
    obtain ⟨u, u', hu, htu, hsameMoment, hcopy, hlast⟩ :=
      exists_moment hcopied ht hhere hnames hapart hdestination h hn
    have huHere := htu.here.trans hhere
    obtain ⟨w, hw⟩ := exists_copyEntry hcopied hagain hu huHere hv (hnames n hn) hapart
      (htu.isDirectory ht hu hdestination) hcopy (hlast.trans hpersists)
      (hsameMoment.symm.trans hsame)
    have htv := hwhole.persists.trans hpersists
    have hvHere := htv.here.trans hhere
    have hfirst := copied_of_copyEntry hcopied hv hvHere (hnames n hn) hapart hw
    have hsameFirst := hfirst.sameBelow hv hvHere hapart (htv.isDirectory ht hv hdestination)
    obtain ⟨v', hv'⟩ := ih (hfirst.edits.plain hv) (hpersists.trans hfirst.persists)
      (hsame.trans hsameFirst) hothers
    exact ⟨v', hw.bind hv'⟩

end Entry

theorem copiesAgain_copyEntries (here : List Text) (depth : Nat) :
    CopiesAgain here (copyEntries depth) := by
  induction depth with
  | zero =>
    intro source destination names names' t t' v ht hhere hv hnames hapart hdestination h hpersists
      hsame hsub
    cases names with
    | nil =>
      obtain rfl := List.subset_nil.1 hsub
      exact ⟨v, Job.pure_done () v⟩
    | cons n names => cases h.2
  | succ depth ih => exact copiesAgain_each copied_of_copyEntries ih

/-! ### All overlays -/

theorem exists_copy {o : Overlay} (ht : t.Plain) (hhere : t.here = here) (hv : v.Plain)
    (hapart : Apart (o.source.place here) (o.destination.place here))
    (hdestination : t.isDirectory o.destination = true) (h : o.copy.Done t () t')
    (hpersists : t'.Persists v) (hsame : SameBelow (o.source.place here) t v) :
    ∃ v', o.copy.Done v () v' := by
  have htv := (overlaid_of_copy ht hhere hapart h).persists.trans hpersists
  have hdestination' := htv.isDirectory ht hv hdestination
  obtain ⟨made, d, hmade, hlist, h⟩ := copy_done.1 h
  -- the destination is there in both trees, so it is not made
  rw [ht.makeDirectories_of_ready (Or.inr hdestination)] at hmade
  obtain ⟨rfl, -⟩ := Prod.mk.inj hmade
  have hstands := hv.makeDirectories_of_ready (Or.inr hdestination')
  have hsource := htv.isDirectory ht hv (ht.isDirectory_iff.2 ⟨d, ht.list_eq_ok_iff.1 hlist⟩)
  obtain ⟨d', hlist', -⟩ := hv.exists_list hsource
  have hfewer := names_subset ht hv hhere (htv.here.trans hhere) hlist hlist' hsame
  obtain ⟨v', hv'⟩ := copiesAgain_copyEntries here FileTree.longestPath ht hhere hv
    (fun n hn => ht.isName_of_list hlist hn) hapart hdestination h hpersists hsame hfewer
  exact ⟨v', copy_done.2 ⟨v, d', hstands, hlist', hv'⟩⟩

/-- Overlays that were copied are copied again wherever persists what they left, when their sources
are the same and their destinations were there at the first time. -/
theorem exists_copyOverlays {os : List Overlay} (ht : t.Plain) (hhere : t.here = here)
    (hv : v.Plain)
    (hapart : ∀ o ∈ os, ∀ o' ∈ os, Apart (o.source.place here) (o'.destination.place here))
    (hpairwise : os.Pairwise fun o o' =>
      Apart (o.destination.place here) (o'.destination.place here))
    (hdestinations : ∀ o ∈ os, t.isDirectory o.destination = true)
    (h : (copyOverlays os).Done t () t') (hpersists : t'.Persists v)
    (hsame : ∀ o ∈ os, SameBelow (o.source.place here) t v) :
    ∃ v', (copyOverlays os).Done v () v' := by
  rw [copyOverlays] at h ⊢
  -- on the overlays, along both runs at once
  induction os generalizing t v with
  | nil => exact ⟨v, Job.pure_done () v⟩
  | cons o os ih =>
    rw [Job.each] at h
    obtain ⟨_, u, hfirst, hrest⟩ := Job.done_bind h
    obtain ⟨-, hpairwise⟩ := List.pairwise_cons.1 hpairwise
    have hself : o ∈ o :: os := List.mem_cons_self
    have hothers : ∀ o' ∈ os, o' ∈ o :: os := fun o' ho' => List.mem_cons_of_mem o ho'
    have hapartRest : ∀ o' ∈ os, ∀ o'' ∈ os,
        Apart (o'.source.place here) (o''.destination.place here) :=
      fun o' ho' o'' ho'' => hapart o' (hothers o' ho') o'' (hothers o'' ho'')
    have hapartFirst : ∀ o' ∈ o :: os, ∀ o'' ∈ [o],
        Apart (o'.source.place here) (o''.destination.place here) :=
      fun o' ho' o'' ho'' => hapart o' ho' o'' (List.mem_singleton.1 ho'' ▸ hself)
    have hdestination : ∀ o' ∈ [o], t.isDirectory o'.destination = true :=
      fun o' ho' => hdestinations o' (List.mem_singleton.1 ho' ▸ hself)
    have hcopied := overlaid_of_copy ht hhere (hapart o hself o hself) hfirst
    have hu := hcopied.edits.plain ht
    have huHere := hcopied.edits.here.trans hhere
    have hlater := overlaid_of_copyOverlays hu huHere hapartRest hpairwise hrest
    obtain ⟨w, hw⟩ := exists_copy ht hhere hv (hapart o hself o hself) (hdestinations o hself)
      hfirst (hlater.persists.trans hpersists) (hsame o hself)
    have htv := hcopied.persists.trans (hlater.persists.trans hpersists)
    have hvHere := htv.here.trans hhere
    have hcopied' := overlaid_of_copy hv hvHere (hapart o hself o hself) hw
    have hdestination' : ∀ o' ∈ [o], v.isDirectory o'.destination = true :=
      fun o' ho' => htv.isDirectory ht hv (hdestination o' ho')
    have hdestinationsRest : ∀ o' ∈ os, u.isDirectory o'.destination = true := fun o' ho' =>
      hcopied.persists.isDirectory ht hu (hdestinations o' (hothers o' ho'))
    have hsameRest : ∀ o' ∈ os, SameBelow (o'.source.place here) u w := by
      intro o' ho'
      have hapartNow := hapartFirst o' (hothers o' ho')
      have hthen := hcopied.sameBelow ht hhere hapartNow hdestination
      have hnow := hcopied'.sameBelow hv hvHere hapartNow hdestination'
      exact hthen.symm.trans ((hsame o' (hothers o' ho')).trans hnow)
    obtain ⟨v', hv'⟩ := ih hu huHere (hcopied'.edits.plain hv) hapartRest hpairwise
      hdestinationsRest hrest (hpersists.trans hcopied'.persists) hsameRest
    exact ⟨v', hw.bind hv'⟩

end LuaReference
