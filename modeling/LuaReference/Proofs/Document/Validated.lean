import LuaReference.Proofs.Output.Documents

/-!
# What validation finds

A registry is refused exactly when fields of one owner share a name, and the refusal lists every
field that has an earlier one of its name, owner by owner. Any other registry is rendered whole:
`validation_exact`.
-/

namespace LuaReference

/-! ### Fields of one owner -/

/-- The fields that have an earlier field of the same name, in order. -/
def repeating (fields : List Field) : List Field :=
  (fields.zipIdx.filter fun p => (fields.take p.2).any fun g => g.name = p.1.name).map (·.1)

theorem any_name_iff {fields : List Field} {n : Text} :
    (fields.any fun g => g.name = n) = true ↔ n ∈ fields.map (·.name) := by
  simp

theorem repeatsAfter_cons_of_mem {seen : List Text} {f : Field} (h : f.name ∈ seen)
    (fields : List Field) : repeatsAfter seen (f :: fields) = f :: repeatsAfter seen fields :=
  if_pos h

theorem repeatsAfter_cons_of_not_mem {seen : List Text} {f : Field} (h : f.name ∉ seen)
    (fields : List Field) :
    repeatsAfter seen (f :: fields) = repeatsAfter (f.name :: seen) fields := if_neg h

theorem repeatsAfter_congr {seen seen' : List Text} (h : ∀ n, n ∈ seen ↔ n ∈ seen')
    (fields : List Field) : repeatsAfter seen fields = repeatsAfter seen' fields := by
  induction fields generalizing seen seen' with
  | nil => rfl
  | cons f fields ih =>
    by_cases hseen : f.name ∈ seen
    · rw [repeatsAfter_cons_of_mem hseen, repeatsAfter_cons_of_mem ((h _).1 hseen), ih h]
    · have hcons : ∀ n, n ∈ f.name :: seen ↔ n ∈ f.name :: seen' := by
        intro n
        rw [List.mem_cons, List.mem_cons, h]
      rw [repeatsAfter_cons_of_not_mem hseen,
        repeatsAfter_cons_of_not_mem (fun hseen' => hseen ((h _).2 hseen')), ih hcons]

/-- The fields behind others that repeat a name of those or of an earlier one of their own. -/
theorem repeatsAfter_eq (front fields : List Field) :
    repeatsAfter (front.map (·.name)) fields =
      ((fields.zipIdx front.length).filter fun p =>
        ((front ++ fields).take p.2).any fun g => g.name = p.1.name).map (·.1) := by
  -- the names that were seen are those in front, up to order and repeats
  induction fields generalizing front with
  | nil => rfl
  | cons f fields ih =>
    have hfront : (front ++ f :: fields).take front.length = front := List.take_left
    have hnext := ih (front ++ [f])
    rw [List.append_assoc, List.singleton_append, List.length_append, List.length_singleton]
      at hnext
    have hnames : ∀ n, n ∈ (front ++ [f]).map (·.name) ↔ n ∈ front.map (·.name) ∨ n = f.name := by
      intro n
      rw [List.map_append, List.mem_append, List.map_singleton, List.mem_singleton]
    rw [List.zipIdx_cons, List.filter_cons, hfront]
    by_cases hseen : f.name ∈ front.map (·.name)
    · have hsame : ∀ n, n ∈ front.map (·.name) ↔ n ∈ (front ++ [f]).map (·.name) := by
        intro n
        rw [hnames]
        exact ⟨Or.inl, fun h => h.elim id fun h => h ▸ hseen⟩
      rw [repeatsAfter_cons_of_mem hseen, if_pos (any_name_iff.2 hseen), List.map_cons,
        repeatsAfter_congr hsame, hnext]
    · have hsame : ∀ n, n ∈ f.name :: front.map (·.name) ↔ n ∈ (front ++ [f]).map (·.name) := by
        intro n
        rw [hnames, List.mem_cons, or_comm]
      rw [repeatsAfter_cons_of_not_mem hseen, if_neg (fun hany => hseen (any_name_iff.1 hany)),
        repeatsAfter_congr hsame, hnext]

theorem repeatsAfter_nil_eq (fields : List Field) : repeatsAfter [] fields = repeating fields :=
  repeatsAfter_eq [] fields

theorem repeatsAfter_eq_nil_iff (seen : List Text) (fields : List Field) :
    repeatsAfter seen fields = [] ↔
      (fields.map (·.name)).Nodup ∧ ∀ f ∈ fields, f.name ∉ seen := by
  induction fields generalizing seen with
  | nil => exact iff_of_true rfl ⟨List.nodup_nil, fun f hf => absurd hf List.not_mem_nil⟩
  | cons f fields ih =>
    rw [List.map_cons, List.nodup_cons, List.forall_mem_cons]
    by_cases hseen : f.name ∈ seen
    · rw [repeatsAfter_cons_of_mem hseen]
      exact iff_of_false (List.cons_ne_nil _ _) fun h => h.2.1 hseen
    · rw [repeatsAfter_cons_of_not_mem hseen, ih]
      constructor
      · rintro ⟨hnodup, hnew⟩
        refine ⟨⟨?_, hnodup⟩, hseen, fun g hg hmem => hnew g hg (List.mem_cons_of_mem _ hmem)⟩
        intro hmem
        obtain ⟨g, hg, hname⟩ := List.mem_map.1 hmem
        exact hnew g hg (hname ▸ List.mem_cons_self)
      · rintro ⟨⟨hfirst, hnodup⟩, -, hnew⟩
        refine ⟨hnodup, fun g hg hmem => ?_⟩
        rcases List.mem_cons.1 hmem with hname | hmem
        · exact hfirst (List.mem_map.2 ⟨g, hg, hname⟩)
        · exact hnew g hg hmem

/-! ### Fields of a registry -/

namespace Registry

/-- Whether two fields of one table or of one class have the same name. -/
def SharesName (r : Registry) : Prop :=
  (∃ t ∈ r.tables, ¬ (t.fields.map (·.name)).Nodup) ∨
    ∃ c ∈ r.classes, ¬ (c.fields.map (·.name)).Nodup

/-- Every field that has an earlier field of its name in the same owner, labelled with the owner:
tables before classes, in first-seen order. -/
def repeating (r : Registry) : List RepeatedField :=
  r.tables.flatMap (fun t =>
      (LuaReference.repeating t.fields).map (⟨(Owner.table t.name).label, ·⟩)) ++
    r.classes.flatMap fun c =>
      (LuaReference.repeating c.fields).map (⟨(Owner.ofClass c.name).label, ·⟩)

theorem repeatedFields_eq (r : Registry) : r.repeatedFields = r.repeating := by
  simp only [Registry.repeatedFields, LuaReference.repeatedFields, repeatsAfter_nil_eq, repeating]

theorem repeatedFields_eq_nil_iff (r : Registry) : r.repeatedFields = [] ↔ ¬ r.SharesName := by
  have howner : ∀ (owner : Text) (fields : List Field),
      LuaReference.repeatedFields owner fields = [] ↔ (fields.map (·.name)).Nodup := by
    intro owner fields
    simp [LuaReference.repeatedFields, repeatsAfter_eq_nil_iff]
  simp only [Registry.repeatedFields, List.append_eq_nil_iff, List.flatMap_eq_nil_iff, howner,
    SharesName, not_or, not_exists, not_and, not_not]

theorem validate_eq_ok_iff (r : Registry) : r.validate = .ok () ↔ ¬ r.SharesName := by
  rw [validate, ← repeatedFields_eq_nil_iff]
  split
  · next h => simp [h]
  · next h => simp [h]

theorem validate_eq_error_iff (r : Registry) (f : Fault) :
    r.validate = .error f ↔ r.SharesName ∧ f = .repeatedFields r.repeating := by
  have hshares : r.SharesName ↔ r.repeatedFields ≠ [] := by
    rw [Ne, repeatedFields_eq_nil_iff, not_not]
  rw [validate, hshares, ← repeatedFields_eq]
  split
  · next h => simp [h]
  · next h => simp [h, eq_comm]

end Registry

/-! ### Files of a registry -/

/-- The files of a registry, one page and one stub for every table and every class: the pages of
the tables, their stubs, the pages of the classes, their stubs. -/
structure Registry.Documented (r : Registry) (n : Naming) (files : List GeneratedFile) : Prop where
  count : files.length = 2 * r.tables.length + 2 * r.classes.length
  tablePage : ∀ (i : Nat) (t : Table), r.tables[i]? = some t →
    files[i]? = some (GeneratedFile.ofTable n .page t)
  tableStub : ∀ (i : Nat) (t : Table), r.tables[i]? = some t →
    files[r.tables.length + i]? = some (GeneratedFile.ofTable n .stub t)
  classPage : ∀ (i : Nat) (c : Class), r.classes[i]? = some c →
    files[2 * r.tables.length + i]? = some (GeneratedFile.ofClass n .page c)
  classStub : ∀ (i : Nat) (c : Class), r.classes[i]? = some c →
    files[2 * r.tables.length + (r.classes.length + i)]? = some (GeneratedFile.ofClass n .stub c)

theorem getElem?_map_append {α β : Type} {xs : List α} {i : Nat} {x : α} (h : xs[i]? = some x)
    (f : α → β) (rest : List β) : (xs.map f ++ rest)[i]? = some (f x) := by
  have hi : i < (xs.map f).length := by
    rw [List.length_map]
    exact (List.getElem?_eq_some_iff.1 h).1
  rw [List.getElem?_append_left hi, List.getElem?_map, h, Option.map_some]

theorem getElem?_map_append_add {α β : Type} (xs : List α) (f : α → β) (rest : List β) (i : Nat) :
    (xs.map f ++ rest)[xs.length + i]? = rest[i]? := by
  rw [List.getElem?_append_right (by rw [List.length_map]; exact Nat.le_add_right _ _),
    List.length_map, Nat.add_sub_cancel_left]

namespace Registry

variable {r : Registry} {n : Naming} {s : Settings} {files files' : List GeneratedFile}

theorem documented_documents (r : Registry) (s : Settings) :
    r.Documented (.of r s) (r.documents s) := by
  constructor
  all_goals simp only [documents, List.append_assoc]
  · simp only [List.length_append, List.length_map]
    omega
  · intro i t ht
    exact getElem?_map_append ht _ _
  · intro i t ht
    rw [getElem?_map_append_add, getElem?_map_append ht]
  · intro i c hc
    rw [Nat.two_mul, Nat.add_assoc, getElem?_map_append_add, getElem?_map_append_add,
      getElem?_map_append hc]
  · intro i c hc
    rw [Nat.two_mul, Nat.add_assoc, getElem?_map_append_add, getElem?_map_append_add,
      getElem?_map_append_add, List.getElem?_map, hc, Option.map_some]

/-- Which file stands where leaves no choice. -/
theorem Documented.eq (h : r.Documented n files) (h' : r.Documented n files') :
    files = files' := by
  have hcount := h.count
  have hcount' := h'.count
  refine List.ext_getElem? fun i => ?_
  -- a position lies in one of the four groups or behind all of them
  by_cases hpage : i < r.tables.length
  · have ht := List.getElem?_eq_getElem hpage
    rw [h.tablePage i _ ht, h'.tablePage i _ ht]
  obtain ⟨j, rfl⟩ := Nat.exists_eq_add_of_le (Nat.le_of_not_lt hpage)
  by_cases hstub : j < r.tables.length
  · have ht := List.getElem?_eq_getElem hstub
    rw [h.tableStub j _ ht, h'.tableStub j _ ht]
  obtain ⟨k, rfl⟩ := Nat.exists_eq_add_of_le (Nat.le_of_not_lt hstub)
  rw [← Nat.add_assoc, ← Nat.two_mul]
  by_cases hclass : k < r.classes.length
  · have hc := List.getElem?_eq_getElem hclass
    rw [h.classPage k _ hc, h'.classPage k _ hc]
  obtain ⟨m, rfl⟩ := Nat.exists_eq_add_of_le (Nat.le_of_not_lt hclass)
  by_cases hlast : m < r.classes.length
  · have hc := List.getElem?_eq_getElem hlast
    rw [h.classStub m _ hc, h'.classStub m _ hc]
  · rw [List.getElem?_eq_none (by omega), List.getElem?_eq_none (by omega)]

theorem documented_iff : r.Documented (.of r s) files ↔ files = r.documents s :=
  ⟨fun h => h.eq (documented_documents r s), fun h => h ▸ documented_documents r s⟩

/-- Validation fails exactly when fields of one owner share a name, with the list of all fields
that have an earlier one of their name. Generation fails exactly then and with the same fault, and
returns the page and the stub of every table and every class otherwise. -/
theorem validation_exact (r : Registry) (s : Settings) :
    (∀ f, r.validate = .error f ↔ r.SharesName ∧ f = .repeatedFields r.repeating) ∧
      (r.validate = .ok () ↔ ¬ r.SharesName) ∧
      (∀ f, r.generate s = .error f ↔ r.validate = .error f) ∧
      ∀ files, r.generate s = .ok files ↔ ¬ r.SharesName ∧ r.Documented (.of r s) files := by
  refine ⟨r.validate_eq_error_iff, r.validate_eq_ok_iff, fun f => generate_eq_error_iff, ?_⟩
  intro files
  rw [generate_eq_ok_iff, repeatedFields_eq_nil_iff, documented_iff]

end Registry

end LuaReference
