import LuaReference.Proofs.Files.Done

/-!
# Contracts of jobs

What holds of the tree that a job leaves, when it comes to its end and when it fails half way. A
job that is put together meets a contract when its parts meet contracts that fit together.
-/

namespace LuaReference

namespace Job

variable {α β : Type} {pre : FileTree → Prop} {stops : FileTree → Prop}

/-- From every tree with `pre`, the job ends in a tree with `post`, or fails and leaves a tree with
`stops`. -/
structure Meets (pre : FileTree → Prop) (j : Job α) (post : α → FileTree → Prop)
    (stops : FileTree → Prop) : Prop where
  ends : ∀ t a t', pre t → j.Done t a t' → post a t'
  fails : ∀ t e, pre t → (j t).2.result = .error e → stops (j.left t)

theorem Meets.weaken {pre' : FileTree → Prop} {j : Job α} {post post' : α → FileTree → Prop}
    (h : j.Meets pre post stops) (hpre : ∀ t, pre' t → pre t)
    (hpost : ∀ a t, post a t → post' a t) : j.Meets pre' post' stops :=
  ⟨fun t a t' ht hdone => hpost a t' (h.ends t a t' (hpre t ht) hdone),
    fun t e ht herror => h.fails t e (hpre t ht) herror⟩

theorem meets_bind {j : Job α} {f : α → Job β} {mid : α → FileTree → Prop}
    {post : β → FileTree → Prop} (hj : j.Meets pre mid stops)
    (hf : ∀ a, (f a).Meets (mid a) post stops) : (j >>= f).Meets pre post stops where
  ends := by
    intro t b t'' ht hdone
    obtain ⟨a, t', hfirst, hrest⟩ := done_bind hdone
    exact (hf a).ends t' b t'' (hj.ends t a t' ht hfirst) hrest
  fails := by
    intro t e ht herror
    rcases hrun : j t with ⟨made, notices, e' | a⟩
    · have hfails := hj.fails t e' ht (by rw [hrun])
      rw [left, hrun] at hfails
      rw [left, andThen_of_error hrun]
      exact hfails
    · have hmade := hj.ends t a made ht ⟨by rw [left, hrun], by rw [hrun]⟩
      rw [andThen_of_ok hrun] at herror
      rw [left, andThen_of_ok hrun]
      exact (hf a).fails made e hmade herror

theorem meets_reading {f : FileTree → Report α} {post : α → FileTree → Prop}
    (hends : ∀ t a, pre t → (f t).result = .ok a → post a t) (hfails : ∀ t, pre t → stops t) :
    (reading f).Meets pre post stops where
  ends := by
    intro t a t' ht hdone
    obtain ⟨rfl, hresult⟩ := done_reading hdone
    exact hends t a ht hresult
  fails := fun t _ ht _ => hfails t ht

theorem meets_pure (a : α) (pre stops : FileTree → Prop) :
    (pure a : Job α).Meets pre (fun _ => pre) stops where
  ends := by
    intro t b t' ht hdone
    exact done_pure hdone ▸ ht
  fails := fun _ _ _ herror => nomatch herror

theorem meets_note (n : Notice) (pre stops : FileTree → Prop) :
    (note n).Meets pre (fun _ => pre) stops where
  ends := by
    intro t b t' ht hdone
    exact done_note hdone ▸ ht
  fails := fun _ _ _ herror => nomatch herror

theorem meets_change {f : FileTree → Except Refusal FileTree} {post : Unit → FileTree → Prop}
    (hends : ∀ t t', pre t → f t = .ok t' → post () t')
    (hfails : ∀ t why, pre t → f t = .error why → stops t) : (change f).Meets pre post stops where
  ends := fun t _ t' ht hdone => hends t t' ht (done_change hdone)
  fails := by
    intro t e ht herror
    rw [change] at herror
    rw [left, change]
    cases hf : f t with
    | ok made =>
      rw [hf] at herror
      cases herror
    | error why => exact hfails t why ht hf

theorem meets_changes {f : FileTree → FileTree × Except Refusal Unit}
    {post : FileTree → Prop} (hends : ∀ t, pre t → post (f t).1)
    (hfails : ∀ t, pre t → stops (f t).1) : (changes f).Meets pre (fun _ => post) stops where
  ends := fun t _ _ ht hdone => done_changes hdone ▸ hends t ht
  fails := fun t _ ht _ => hfails t ht

/-- Work on a list keeps to an invariant about the members that were dealt with. -/
theorem meets_each {f : α → Job Unit} {as : List α} (inv : List α → FileTree → Prop)
    (h : ∀ before a, before ++ [a] <+: as →
      (f a).Meets (inv before) (fun _ => inv (before ++ [a])) stops) :
    (each f as).Meets (inv []) (fun _ => inv as) stops := by
  induction as generalizing inv with
  | nil => exact meets_pure () (inv []) stops
  | cons a as ih =>
    have hfirst := h [] a (List.prefix_append [a] as)
    have hrest := ih (fun before => inv (a :: before)) fun before b hprefix =>
      h (a :: before) b (List.cons_prefix_cons.2 ⟨rfl, hprefix⟩)
    exact meets_bind hfirst fun _ => hrest

/-- Work on each member of a list is the work on its steps, where an invariant of the steps makes
it so. -/
theorem each_eq_flatMap {f : α → Job Unit} {g : β → Job Unit} {steps : α → List β}
    {inv : FileTree → Prop} {as : List α}
    (hf : ∀ a ∈ as, ∀ t, inv t → f a t = each g (steps a) t)
    (hg : ∀ a ∈ as, (each g (steps a)).Meets inv (fun _ => inv) fun _ => True) {t : FileTree}
    (ht : inv t) : each f as t = each g (as.flatMap steps) t := by
  induction as generalizing t with
  | nil => rfl
  | cons a as ih =>
    obtain ⟨hfirst, hothers⟩ := List.forall_mem_cons.1 hf
    obtain ⟨hmeets, hkeep⟩ := List.forall_mem_cons.1 hg
    rw [List.flatMap_cons, each_append, each]
    refine bind_congr (hfirst t ht) fun _ t' hdone => ih hothers hkeep ?_
    rw [Done, left, hfirst t ht] at hdone
    exact hmeets.ends t () t' ht hdone

end Job

end LuaReference
