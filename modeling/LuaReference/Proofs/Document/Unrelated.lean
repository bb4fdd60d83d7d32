import LuaReference.Proofs.Annotation.Invariant
import LuaReference.Proofs.Output.Documents
import LuaReference.Proofs.Registry.Spared

/-!
# Unrelated sources

A source names tables and classes in the owner lines of its blocks. A scan spares every entity that
its source does not name, so the documents of such an entity are what they were before the scan,
unless the source sets the namespace: `unrelated_documents_kept`.
-/

namespace LuaReference

/-! ### What a source names -/

/-- The tables and classes that the opening lines of a block name. -/
def Run.owners (block : Run) : List Owner :=
  match headerKind? block.opening with
  | none => []
  | some k => (block.lines.filter k.opens).filterMap k.owner?

def sourceOwners (s : Settings) (content : Text) : List Owner :=
  (blocksOf s (sourceLines content)).flatMap Run.owners

/-- No block about the namespace names one. -/
def KeepsNameSpace (s : Settings) (content : Text) : Prop :=
  ∀ b ∈ blocksOf s (sourceLines content), headerKind? b.opening = some .nameSpace →
    ∀ line ∈ b.lines, tagged "name" line = false

instance (s : Settings) (content : Text) : Decidable (KeepsNameSpace s content) :=
  inferInstanceAs (Decidable (∀ b ∈ blocksOf s (sourceLines content), _))

theorem mem_owners {block part : Run} {k : Kind} (hk : headerKind? block.opening = some k)
    (hpart : part ∈ k.parts block.lines) {o : Owner} (ho : k.owner? part.opening = some o) :
    o ∈ block.owners := by
  obtain ⟨hmem, hopens⟩ := opening_of_mem_runs hpart
  rw [Run.owners, hk]
  exact List.mem_filterMap.2 ⟨part.opening, List.mem_filter.2 ⟨hmem, hopens⟩, ho⟩

/-! ### One part -/

section
variable {named : Owner → Prop} {r r' : Registry}

theorem spares_namedTable (h : r.Spares named r') {line : Text}
    (hnamed : named (.table (tagValue line))) :
    r.Spares named (r'.tableEntry (tagValue line)).1 ∧
      r.NamedAt named (.tableAt (r'.tableEntry (tagValue line)).2) := by
  have htrim : (tagValue line).trim = tagValue line := Text.trim_trim _
  refine ⟨h.tableEntry _, h.namedAt_tableEntry ?_⟩
  rwa [htrim]

theorem spares_namedClass (h : r.Spares named r') {line : Text}
    (hnamed : named (.ofClass (tagValue line))) :
    r.Spares named (r'.classEntry (tagValue line)).1 ∧
      r.NamedAt named (.classAt (r'.classEntry (tagValue line)).2) := by
  have htrim : (tagValue line).trim = tagValue line := Text.trim_trim _
  refine ⟨h.classEntry _, h.namedAt_classEntry ?_⟩
  rwa [htrim]

theorem spares_ownerEntry (h : r.Spares named r') {line : Text}
    (hnamed : named (if tagged "table" line then .table (tagValue line)
      else .ofClass (tagValue line))) :
    r.Spares named (r'.ownerEntry line).1 ∧ r.NamedAt named (r'.ownerEntry line).2 := by
  rw [Registry.ownerEntry]
  split at hnamed
  · next htable =>
    rw [if_pos htable]
    exact spares_namedTable h hnamed
  · next htable =>
    rw [if_neg htable]
    exact spares_namedClass h hnamed

theorem spares_foldl_recordName (h : r.Spares named r') (lines : List Text) (p : Place) :
    r.Spares named (lines.foldl (fun r line => r.recordName (tagValue line) p) r') := by
  induction lines generalizing r' with
  | nil => exact h
  | cons line lines ih => exact ih (h.recordName _ p)

/-- A part spares everything but the owner that its opening line names. -/
theorem spares_addPart (h : r.Spares named r') {k : Kind} (hk : k ≠ .nameSpace) {part : Run}
    (hnamed : ∀ o, k.owner? part.opening = some o → named o) :
    r.Spares named (k.addPart r' part) := by
  cases k with
  | table =>
    obtain ⟨hentry, hplace⟩ := spares_namedTable h (hnamed _ rfl)
    exact hentry.modifyTable hplace _
  | ofClass =>
    obtain ⟨hentry, hplace⟩ := spares_namedClass h (hnamed _ rfl)
    exact hentry.modifyClass hplace _
  | field =>
    obtain ⟨howner, hplace⟩ := spares_ownerEntry h (hnamed _ rfl)
    rw [Kind.addPart]
    exact howner.modifyFields hplace _
  | constructor =>
    obtain ⟨hentry, hplace⟩ := spares_namedClass h (hnamed _ rfl)
    exact hentry.modifyClass hplace _
  | function =>
    obtain ⟨howner, hplace⟩ := spares_ownerEntry h (hnamed _ rfl)
    exact spares_foldl_recordName (howner.modifyFunctions hplace _) _ _
  | nameSpace => exact absurd rfl hk

theorem spares_foldl_addPart (h : r.Spares named r') {k : Kind} (hk : k ≠ .nameSpace)
    {parts : List Run}
    (hnamed : ∀ part ∈ parts, ∀ o, k.owner? part.opening = some o → named o) :
    r.Spares named (parts.foldl k.addPart r') := by
  induction parts generalizing r' with
  | nil => exact h
  | cons part parts ih =>
    obtain ⟨hfirst, hrest⟩ := List.forall_mem_cons.1 hnamed
    exact ih (spares_addPart h hk hfirst) hrest

/-! ### One block, and a source -/

theorem spares_addBlock (h : r.Spares named r') {block : Run}
    (hnamed : ∀ o ∈ block.owners, named o)
    (hspace : headerKind? block.opening = some .nameSpace →
      ∀ line ∈ block.lines, tagged "name" line = false) : r.Spares named (addBlock r' block) := by
  rw [addBlock]
  cases hk : headerKind? block.opening with
  | none => exact h
  | some k =>
    by_cases hkind : k = .nameSpace
    · -- without a name line the block has no part
      subst hkind
      have hparts : Kind.parts .nameSpace block.lines = [] := by
        refine List.eq_nil_iff_forall_not_mem.2 fun part hpart => ?_
        obtain ⟨hmem, hopens⟩ := opening_of_mem_runs hpart
        have hname : tagged "name" part.opening = true := hopens
        rw [hspace hk _ hmem] at hname
        cases hname
      dsimp only
      rw [hparts]
      exact h
    · refine spares_foldl_addPart h hkind fun part hpart o ho => ?_
      exact hnamed o (mem_owners hk hpart ho)

theorem spares_foldl_addBlock (h : r.Spares named r') {blocks : List Run}
    (hnamed : ∀ b ∈ blocks, ∀ o ∈ b.owners, named o)
    (hspace : ∀ b ∈ blocks, headerKind? b.opening = some .nameSpace →
      ∀ line ∈ b.lines, tagged "name" line = false) :
    r.Spares named (blocks.foldl addBlock r') := by
  induction blocks generalizing r' with
  | nil => exact h
  | cons b blocks ih =>
    obtain ⟨hfirst, hothers⟩ := List.forall_mem_cons.1 hnamed
    obtain ⟨hspaceFirst, hspaceOthers⟩ := List.forall_mem_cons.1 hspace
    exact ih (spares_addBlock h hfirst hspaceFirst) hothers hspaceOthers

end

variable {r r' : Registry} {s s' : Settings} {file : Path} {content : Text}
  {files files' : List GeneratedFile}

theorem spares_scan (hr : r.WellFormed) (hscan : (scan s file content r).fault = none)
    (hspace : KeepsNameSpace s content) :
    r.Spares (· ∈ sourceOwners s content) (scan s file content r).recorder.registry := by
  rw [registry_scan hscan]
  refine spares_foldl_addBlock (hr.spares_self _) ?_ hspace
  intro b hb o ho
  exact List.mem_flatMap.2 ⟨b, hb, ho⟩

/-! ### Documents -/

/-- An entity that a source does not name is found as it was after the source is scanned, and its
page and its stub have the same path and the same content, unless the source sets the namespace. -/
theorem unrelated_documents_kept (hr : r.WellFormed)
    (hscan : (scan s file content r).fault = none)
    (hafter : (scan s file content r).recorder.registry = r') (hspace : KeepsNameSpace s content)
    (hfiles : r.generate s' = .ok files) (hfiles' : r'.generate s' = .ok files') :
    (∀ t ∈ r.tables, .table t.name ∉ sourceOwners s content →
        r'.table? t.name = some t ∧ ∀ format,
          .ofTable (.of r s') format t ∈ files ∧ .ofTable (.of r' s') format t ∈ files' ∧
            GeneratedFile.ofTable (.of r' s') format t = .ofTable (.of r s') format t) ∧
      ∀ c ∈ r.classes, .ofClass c.name ∉ sourceOwners s content →
        r'.class? c.name = some c ∧ ∀ format,
          .ofClass (.of r s') format c ∈ files ∧ .ofClass (.of r' s') format c ∈ files' ∧
            GeneratedFile.ofClass (.of r' s') format c = .ofClass (.of r s') format c := by
  have hspared := spares_scan hr hscan hspace
  have hr' := wellFormed_scan hr s file content
  rw [hafter] at hspared hr'
  have hnaming : Naming.of r' s' = Naming.of r s' := by
    rw [Naming.of, Naming.of, hspared.nameSpace]
  obtain ⟨-, rfl⟩ := generate_eq_ok_iff.1 hfiles
  obtain ⟨-, rfl⟩ := generate_eq_ok_iff.1 hfiles'
  constructor
  · intro t ht hunnamed
    have hfound := hspared.table?_eq hr' ht hunnamed
    have ht' : t ∈ r'.tables := ((hr'.tableIndex.find_iff _ _).1 hfound).1
    refine ⟨hfound, fun format => ⟨?_, ?_, by rw [hnaming]⟩⟩
    · exact mem_documents_iff.2 (Or.inl ⟨t, ht, format, rfl⟩)
    · exact mem_documents_iff.2 (Or.inl ⟨t, ht', format, rfl⟩)
  · intro c hc hunnamed
    have hfound := hspared.class?_eq hr' hc hunnamed
    have hc' : c ∈ r'.classes := ((hr'.classIndex.find_iff _ _).1 hfound).1
    refine ⟨hfound, fun format => ⟨?_, ?_, by rw [hnaming]⟩⟩
    · exact mem_documents_iff.2 (Or.inr ⟨c, hc, format, rfl⟩)
    · exact mem_documents_iff.2 (Or.inr ⟨c, hc', format, rfl⟩)

/-! ### A table and a class of one name -/

/-- A table and a class of the same name, in a namespace. -/
def pools : Registry :=
  (((({} : Registry).setNameSpace "rom".toList).tableEntry "Pool".toList).1.classEntry
    "Pool".toList).1

theorem pools_wellFormed : pools.WellFormed :=
  ((Registry.wellFormed_empty.setNameSpace _).tableEntry _).classEntry _

/-- A function of the table, in a line whose tag is recognised by how it starts, and a block about
the namespace that names none. -/
def tableOnly : Text := "// Lua API: Function\n// Tables: Pool\n// Lua API: Namespace\n// x".toList

/-- The scan adds a function to the table, and the class and its documents stay as they were. -/
theorem unrelated_documents_kept_pools :
    (scan {} sampleFile tableOnly pools).recorder.registry = (pools.addFunction (.tableAt 0)).1 ∧
      (pools.addFunction (.tableAt 0)).1.class? "Pool".toList = some (.new "Pool".toList) ∧
      ∀ format,
        .ofClass (.of (pools.addFunction (.tableAt 0)).1 {}) format (.new "Pool".toList) ∈
            (pools.addFunction (.tableAt 0)).1.documents {} ∧
          GeneratedFile.ofClass (.of (pools.addFunction (.tableAt 0)).1 {}) format
            (.new "Pool".toList) = .ofClass (.of pools {}) format (.new "Pool".toList) := by
  obtain ⟨hscan, hafter⟩ : (scan {} sampleFile tableOnly pools).fault = none ∧
      (scan {} sampleFile tableOnly pools).recorder.registry =
        (pools.addFunction (.tableAt 0)).1 := by decide +kernel
  have hspace : KeepsNameSpace {} tableOnly := by decide +kernel
  have hfiles : pools.generate {} = .ok (pools.documents {}) := by decide +kernel
  have hfiles' : (pools.addFunction (.tableAt 0)).1.generate {} =
      .ok ((pools.addFunction (.tableAt 0)).1.documents {}) := by decide +kernel
  have hkept := unrelated_documents_kept pools_wellFormed hscan hafter hspace hfiles hfiles'
  have hmem : Class.new "Pool".toList ∈ pools.classes := by decide +kernel
  have hunnamed : Owner.ofClass (Class.new "Pool".toList).name ∉ sourceOwners {} tableOnly := by
    decide +kernel
  obtain ⟨hfound, hdocuments⟩ := hkept.2 _ hmem hunnamed
  exact ⟨hafter, hfound, fun format => (hdocuments format).2⟩

end LuaReference
