import LuaReference.Report
import LuaReference.Proofs.Files.Operations

/-!
# Finished reports and jobs

A report ends well when its parts do. `Job.Done` says that a job came to its end: with which
result, and with which tree. What a composed job did is taken apart into what its parts did.
-/

namespace LuaReference

namespace Report

variable {α β : Type}

@[simp]
theorem bind_result (r : Report α) (f : α → Report β) (b : β) :
    (r >>= f).result = .ok b ↔ ∃ a, r.result = .ok a ∧ (f a).result = .ok b := by
  change (andThen r f).result = .ok b ↔ _
  rw [andThen]
  cases r.result with
  | error e => simp
  | ok a => simp

theorem bind_result_error {r : Report α} {f : α → Report β} {e : Fault} :
    (r >>= f).result = .error e ↔
      r.result = .error e ∨ ∃ a, r.result = .ok a ∧ (f a).result = .error e := by
  change (andThen r f).result = .error e ↔ _
  rw [andThen]
  cases r.result with
  | error e' => simp
  | ok a => simp

@[simp]
theorem done_result (a b : α) : (done a).result = .ok b ↔ a = b := by simp [done]

@[simp]
theorem pure_result (a b : α) : (pure a : Report α).result = .ok b ↔ a = b := done_result a b

@[simp]
theorem failed_result (f : Fault) (a : α) : ¬ (failed f : Report α).result = .ok a := by
  simp [failed]

@[simp]
theorem log_bind_result (es : List Event) (f : Unit → Report α) :
    (log es >>= f).result = (f ()).result := rfl

@[simp]
theorem note_bind_result (n : Notice) (f : Unit → Report α) :
    (note n >>= f).result = (f ()).result := rfl

@[simp]
theorem ofFiles_result (x : Except Refusal α) (a : α) :
    (ofFiles x).result = .ok a ↔ x = .ok a := by
  cases x <;> simp [ofFiles]

@[simp]
theorem ofFiles_notices (x : Except Refusal α) : (ofFiles x).notices = [] := by
  cases x <;> rfl

end Report

namespace Job

variable {α β : Type}

def left (j : Job α) (t : FileTree) : FileTree := (j t).1

/-- The job turns the tree `t` into `t'` and ends with `a`. -/
def Done (j : Job α) (t : FileTree) (a : α) (t' : FileTree) : Prop :=
  j.left t = t' ∧ (j t).2.result = .ok a

theorem andThen_of_error {j : Job α} {f : α → Job β} {t t' : FileTree} {notices : List Notice}
    {e : Fault} (h : j t = (t', ⟨notices, .error e⟩)) :
    (j >>= f) t = (t', ⟨notices, .error e⟩) := by
  change andThen j f t = _
  unfold andThen
  simp only [h]

theorem andThen_of_ok {j : Job α} {f : α → Job β} {t t' : FileTree} {notices : List Notice}
    {a : α} (h : j t = (t', ⟨notices, .ok a⟩)) :
    (j >>= f) t = ((f a t').1, ⟨notices ++ (f a t').2.notices, (f a t').2.result⟩) := by
  change andThen j f t = _
  unfold andThen
  simp only [h]

theorem done_bind {j : Job α} {f : α → Job β} {t t'' : FileTree} {b : β}
    (h : (j >>= f).Done t b t'') : ∃ a t', j.Done t a t' ∧ (f a).Done t' b t'' := by
  obtain ⟨htree, hresult⟩ := h
  rcases hj : j t with ⟨made, notices, e | a⟩
  · rw [andThen_of_error hj] at hresult
    cases hresult
  · rw [left, andThen_of_ok hj] at htree
    rw [andThen_of_ok hj] at hresult
    exact ⟨a, made, ⟨by rw [left, hj], by rw [hj]⟩, htree, hresult⟩

theorem Done.bind {j : Job α} {f : α → Job β} {t t' t'' : FileTree} {a : α} {b : β}
    (h : j.Done t a t') (hf : (f a).Done t' b t'') : (j >>= f).Done t b t'' := by
  obtain ⟨rfl, hresult⟩ := h
  rcases hj : j t with ⟨made, notices, result⟩
  rw [left, hj] at hf
  rw [hj] at hresult
  obtain rfl : result = .ok a := hresult
  have hrun := andThen_of_ok (f := f) hj
  exact ⟨by rw [left, hrun]; exact hf.1, by rw [hrun]; exact hf.2⟩

theorem done_pure {a b : α} {t t' : FileTree} (h : (pure a : Job α).Done t b t') : t = t' :=
  h.1

theorem done_reading {f : FileTree → Report α} {a : α} {t t' : FileTree}
    (h : (reading f).Done t a t') : t = t' ∧ (f t).result = .ok a :=
  h

theorem done_note {n : Notice} {u : Unit} {t t' : FileTree} (h : (note n).Done t u t') : t = t' :=
  h.1

theorem done_change {f : FileTree → Except Refusal FileTree} {u : Unit} {t t' : FileTree}
    (h : (change f).Done t u t') : f t = .ok t' := by
  obtain ⟨htree, hresult⟩ := h
  rw [left, change] at htree
  rw [change] at hresult
  cases hf : f t with
  | error why =>
    rw [hf] at hresult
    cases hresult
  | ok made =>
    rw [hf] at htree
    exact congrArg _ htree

theorem done_changes {f : FileTree → FileTree × Except Refusal Unit} {u : Unit} {t t' : FileTree}
    (h : (changes f).Done t u t') : (f t).1 = t' :=
  h.1

theorem done_changes_iff {f : FileTree → FileTree × Except Refusal Unit} {t t' : FileTree} :
    (changes f).Done t () t' ↔ f t = (t', .ok ()) := by
  rw [Done, left, changes, Report.ofFiles_result, Prod.ext_iff]

theorem change_done {f : FileTree → Except Refusal FileTree} {t t' : FileTree}
    (h : f t = .ok t') : (change f).Done t () t' := by
  unfold Done left change
  rw [h]
  exact ⟨rfl, rfl⟩

theorem note_done (n : Notice) (t : FileTree) : (note n).Done t () t := ⟨rfl, rfl⟩

theorem pure_done (a : α) (t : FileTree) : (pure a : Job α).Done t a t := ⟨rfl, rfl⟩

theorem reading_done {f : FileTree → Report α} {a : α} {t : FileTree} (h : (f t).result = .ok a) :
    (reading f).Done t a t :=
  ⟨rfl, h⟩

theorem done_each_note {f : α → Notice} {as : List α} {t t' : FileTree}
    (h : (each (fun a => note (f a)) as).Done t () t') : t = t' := by
  induction as generalizing t with
  | nil =>
    rw [each] at h
    exact done_pure h
  | cons a as ih =>
    rw [each] at h
    obtain ⟨_, noted, hnote, hrest⟩ := done_bind h
    exact (done_note hnote).trans (ih hrest)

theorem each_note_done (f : α → Notice) (as : List α) (t : FileTree) :
    (each (fun a => note (f a)) as).Done t () t := by
  induction as with
  | nil => exact pure_done () t
  | cons a as ih => exact (note_done (f a) t).bind ih

/-! ### What jobs say -/

theorem notices_bind {j : Job α} {f : α → Job β} {t u : FileTree} {a : α}
    (h : j.Done t a u) : ((j >>= f) t).2.notices = (j t).2.notices ++ (f a u).2.notices := by
  obtain ⟨rfl, hresult⟩ := h
  rcases hj : j t with ⟨made, notices, result⟩
  rw [hj] at hresult
  obtain rfl : result = .ok a := hresult
  have hleft : j.left t = made := by rw [left, hj]
  rw [andThen_of_ok hj, hleft]

theorem notices_change (f : FileTree → Except Refusal FileTree) (t : FileTree) :
    (change f t).2.notices = [] := by
  rw [change]
  cases f t <;> rfl

/-! ### Jobs that do the same -/

theorem bind_congr {j j' : Job α} {f f' : α → Job β} {t : FileTree} (hj : j t = j' t)
    (hf : ∀ a t', j.Done t a t' → f a t' = f' a t') : (j >>= f) t = (j' >>= f') t := by
  rcases h : j t with ⟨made, notices, e | a⟩
  · rw [andThen_of_error h, andThen_of_error (hj ▸ h)]
  · have hdone : j.Done t a made := ⟨by rw [left, h], by rw [h]⟩
    rw [andThen_of_ok h, andThen_of_ok (hj ▸ h), hf a made hdone]

theorem bind_assoc {γ : Type} (j : Job α) (f : α → Job β) (g : β → Job γ) :
    (j >>= f >>= g) = (j >>= fun a => f a >>= g) := by
  funext t
  rcases h : j t with ⟨made, notices, e | a⟩
  · rw [andThen_of_error (andThen_of_error h), andThen_of_error h]
  · rw [andThen_of_ok h]
    rcases hf : f a made with ⟨last, notices', e | b⟩
    · have hfirst : (j >>= f) t = (last, ⟨notices ++ notices', .error e⟩) := by
        rw [andThen_of_ok h, hf]
      rw [andThen_of_error hfirst, andThen_of_error hf]
    · have hfirst : (j >>= f) t = (last, ⟨notices ++ notices', .ok b⟩) := by
        rw [andThen_of_ok h, hf]
      rw [andThen_of_ok hfirst, andThen_of_ok hf, List.append_assoc]

theorem bind_pure_unit (j : Job Unit) : (j >>= fun _ => pure ()) = j := by
  funext t
  rcases h : j t with ⟨made, notices, e | a⟩
  · exact andThen_of_error h
  · rw [andThen_of_ok h]
    exact congrArg (fun ns => (made, (⟨ns, .ok ()⟩ : Report Unit))) (List.append_nil notices)

theorem each_append (f : α → Job Unit) (as bs : List α) :
    each f (as ++ bs) = (each f as >>= fun _ => each f bs) := by
  induction as with
  | nil => rfl
  | cons a as ih =>
    rw [List.cons_append, each, each, ih, bind_assoc]

/-! ### Touches of a list of jobs -/

/-- The touches of work on each member of a list, each on the tree that the one before left. -/
def eachTouches (f : α → Job Unit) (touches : α → FileTree → List Touch) :
    List α → FileTree → List Touch
  | [], _ => []
  | a :: as, t => touches a t ++ eachTouches f touches as ((f a).left t)

theorem tracks_each {f : α → Job Unit} {touches : α → FileTree → List Touch}
    (hf : ∀ a t t', (f a).Done t () t' → t.Tracks (touches a t) t') {as : List α}
    {t t' : FileTree} (h : (each f as).Done t () t') :
    t.Tracks (eachTouches f touches as t) t' := by
  induction as generalizing t with
  | nil =>
    rw [← done_pure h]
    exact FileTree.Tracks.refl t
  | cons a as ih =>
    rw [each] at h
    obtain ⟨_, made, hfirst, hrest⟩ := done_bind h
    rw [eachTouches, hfirst.1]
    exact (hf a t made hfirst).trans (ih hrest)

end Job

end LuaReference
