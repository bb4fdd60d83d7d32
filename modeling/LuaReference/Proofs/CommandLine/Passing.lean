import LuaReference.Proofs.CommandLine.Arguments
import LuaReference.Proofs.CommandLine.Batches
import LuaReference.Proofs.Overlay.Shadows
import LuaReference.Proofs.Project.Scanning

/-!
# What a passing check means

A check leaves out the documents that overlays replace. So when it passes, writing brings the files
of the overlays to the output directory and changes no other file.
-/

namespace LuaReference

open FileTree (Edits)

variable {a : Arguments} {t t' : FileTree} {words : List Text} {terminal : Bool}

namespace Arguments

def overlays (a : Arguments) (t : FileTree) (p : Project) : List Overlay :=
  t.overlays p.primary a.output p.settings

/-- The directories of hand-written pages are apart from those for documents. -/
def PagesApart (a : Arguments) (t : FileTree) (p : Project) : Prop :=
  ∀ o ∈ a.overlays t p, ∀ o' ∈ a.overlays t p,
    Apart (o.source.place t.here) (o'.destination.place t.here)

instance (a : Arguments) (t : FileTree) (p : Project) : Decidable (a.PagesApart t p) :=
  inferInstanceAs (Decidable (∀ o ∈ a.overlays t p, ∀ o' ∈ a.overlays t p, Apart _ _))

/-- A hand-written page that a run with these arguments copies to a place has these bytes. -/
def Brings (a : Arguments) (t : FileTree) (p : Project) (place : List Text)
    (bytes : ByteArray) : Prop :=
  ∃ o ∈ a.overlays t p, o.Brings t.here t place bytes

end Arguments

theorem FileTree.Plain.exists_file (ht : t.Plain) {p : Path} (hp : t.isDirectory p = true)
    {below : List Text} (hbelow : ∀ n ∈ below, n.IsName)
    (hallowed : FileTree.Allowed (p.descend below)) {e : Entry}
    (he : t.entry? (p.place t.here ++ below) = some e)
    (hleaf : t.isDirectory (p.descend below) = false) :
    ∃ bytes, t.bytesAt (p.place t.here ++ below) = some bytes := by
  cases e with
  | file bytes => exact ⟨bytes, FileTree.bytesAt_eq_some_iff.2 he⟩
  | link target => exact absurd he (ht.not_link _ _)
  | directory d =>
    have hlocate := ht.locate_descend hp hbelow hallowed he
    have hentry : t.entry (p.descend below) = .ok (.directory d) := by
      rw [FileTree.entry, hlocate]
    rw [FileTree.isDirectory, hentry] at hleaf
    cases hleaf

theorem FileTree.Plain.exists_entry (ht : t.Plain) (hkeeps : t.KeepsDirectories t')
    {place : List Text} (hbytes : t'.bytesAt place = t.bytesAt place) {e : Entry}
    (he : t.entry? place = some e) : ∃ e', t'.entry? place = some e' := by
  cases e with
  | file bytes =>
    rw [FileTree.bytesAt_eq_some_iff.2 he] at hbytes
    exact ⟨_, FileTree.bytesAt_eq_some_iff.1 hbytes⟩
  | link target => exact absurd he (ht.not_link _ _)
  | directory d =>
    obtain ⟨d', hd'⟩ := hkeeps place d he
    exact ⟨_, hd'⟩

/-! ### Documents that overlays replace -/

/-- The place of the document belongs to an entry below the source that is no directory. -/
def Overlay.Shadows (o : Overlay) (out : Path) (t : FileTree) (f : GeneratedFile) : Prop :=
  ∃ below e, (f.pathIn out).place t.here = o.destination.place t.here ++ below ∧
    (∀ n ∈ below, n.IsName) ∧ t.entry? (o.source.place t.here ++ below) = some e ∧
    t.isDirectory (o.source.descend below) = false

section Rewriting

variable {out : Path} {files : List GeneratedFile} {os : List Overlay} {bs : List Arguments.Batch}
  {u : FileTree}

theorem shadowed_or_fresh (ht : t.Plain) (hos : ∀ o ∈ os, ∃ d, o.Enters out d)
    {shadowed : List Path} (hshadowed : t.overlayPaths out os = .ok shadowed)
    (hstale : t.stale out shadowed files = .ok []) :
    ∀ f ∈ files, (∃ o ∈ os, o.Shadows out t f) ∨
      t.bytesAt ((f.pathIn out).place t.here) = some f.content.utf8 := by
  intro f hf
  rcases stale_eq_nil_iff.1 hstale f hf with hshadow | hfresh
  · exact Or.inl (ht.of_shadowed hos hshadowed hshadow)
  · exact Or.inr (hfresh.bytesAt ht)

variable (ht : t.Plain)
  (hdocuments : ∀ f ∈ files, (∃ o ∈ os, o.Shadows out t f) ∨
    t.bytesAt ((f.pathIn out).place t.here) = some f.content.utf8)
  (hapart : ∀ o ∈ os, ∀ o' ∈ os, Apart (o.source.place t.here) (o'.destination.place t.here))
  (hbatches : (Job.each (Arguments.Batch.write out files) bs).Done t () u)

include ht hdocuments hapart hbatches

theorem bytesAt_source_of_batches {o : Overlay} (ho : o ∈ os) (below : List Text) :
    u.bytesAt (o.source.place t.here ++ below) = t.bytesAt (o.source.place t.here ++ below) := by
  refine bytesAt_of_batches (fun x => ∃ o' ∈ os, o'.destination.place t.here <+: x) ht ?_
    hbatches ?_
  · intro f hf
    rcases hdocuments f hf with ⟨o', ho', below', e, hplace, -⟩ | hbytes
    · exact Or.inl ⟨o', ho', hplace ▸ List.prefix_append _ _⟩
    · exact Or.inr hbytes
  · rintro ⟨o', ho', hprefix⟩
    exact (hapart o ho o' ho').symm.not_prefix_append below hprefix

theorem brings_of_batches {o : Overlay} (ho : o ∈ os) (place : List Text) (bytes : ByteArray) :
    o.Brings t.here u place bytes ↔ o.Brings t.here t place bytes := by
  have hsource := bytesAt_source_of_batches ht hdocuments hapart hbatches ho
  simp only [Overlay.Brings, hsource]

/-- When the overlays are copied over fresh documents, only what they bring can change. -/
theorem bytesAt_of_overlaid (hsources : ∀ o ∈ os, t.isDirectory o.source = true)
    (hoverlaid : Overlaid t.here os u t') {place : List Text}
    (hnone : ∀ o ∈ os, ∀ bytes, ¬ o.Brings t.here t place bytes) :
    t'.bytesAt place = t.bytesAt place := by
  have hbrings := fun o ho => brings_of_batches ht hdocuments hapart hbatches (o := o) ho
  have hkept : t'.bytesAt place = u.bytesAt place := by
    refine hoverlaid.keeps place ?_
    intro o ho bytes hplace
    exact hnone o ho bytes ((hbrings o ho place bytes).1 hplace)
  rw [hkept]
  refine bytesAt_of_batches (fun x => ∃ o ∈ os, ∃ bytes, o.Brings t.here t x bytes) ht ?_
    hbatches ?_
  · intro f hf
    rcases hdocuments f hf with ⟨o, ho, below, e, hplace, hbelow, he, hleaf⟩ | hbytes
    · have hkeeps := (edits_of_batches ht hbatches).keepsDirectories
      have hsource := bytesAt_source_of_batches ht hdocuments hapart hbatches ho below
      obtain ⟨e', he'⟩ := ht.exists_entry hkeeps hsource he
      have hallowed := hoverlaid.allowed o ho below e' he'
      obtain ⟨bytes, hbytes⟩ := ht.exists_file (hsources o ho) hbelow hallowed he hleaf
      exact Or.inl ⟨o, ho, bytes, below, hplace, hbytes⟩
    · exact Or.inr hbytes
  · rintro ⟨o, ho, bytes, hbytes⟩
    exact hnone o ho bytes hbytes

end Rewriting

/-! ### A run after the check -/

theorem run_of_passing_check {on : Bool} {p : Project} (ht : t.Plain)
    (hload : Project.load t a.primary a.secondary a.settings = .ok p)
    (hapart : a.PagesApart t p) (hcheck : a.check = false) (hdryRun : a.dryRun = false)
    {t₁ : FileTree} (hpasses : ({ a with check := true }.run on).Done t .done t₁)
    (hrun : (a.run on).Done t .done t') :
    (∀ place bytes, a.Brings t p place bytes → t'.bytesAt place = some bytes) ∧
      ∀ place, (∀ bytes, ¬ a.Brings t p place bytes) → t'.bytesAt place = t.bytesAt place := by
  obtain ⟨rfl, plan, hplan, shadowed, hshadowed, hstale⟩ := (Arguments.run_compare rfl).1 hpasses
  obtain ⟨plan', hplan', hwrite⟩ := Arguments.run_write hcheck hdryRun hrun
  have hsamePlan : (a.plan t).result = .ok plan := hplan
  obtain rfl : plan' = plan := Except.ok.inj (hplan'.symm.trans hsamePlan)
  obtain ⟨u, hbatches, hcopied⟩ := Arguments.write_done hwrite
  have hoverlays : plan'.overlays = a.overlays t p := by
    obtain ⟨p', hload', b, -, rfl⟩ := Arguments.plan_result.1 hplan'
    obtain rfl : p = p' := Except.ok.inj (hload.symm.trans hload')
    rfl
  rw [hoverlays] at hshadowed hcopied
  have hos : ∀ o ∈ a.overlays t p, ∃ d, o.Enters a.output d := fun o => exists_enters
  have hsources : ∀ o ∈ a.overlays t p, t.isDirectory o.source = true :=
    fun o ho => (mem_overlays_iff.1 ho).1
  have hdocuments := shadowed_or_fresh ht hos hshadowed hstale
  have hedits := edits_of_batches ht hbatches
  have hoverlaid := overlaid_of_copyOverlays (hedits.plain ht) hedits.here hapart
    (pairwise_overlays t p.primary a.output p.settings t.here) hcopied
  refine ⟨?_, ?_⟩
  · rintro place bytes ⟨o, ho, hplace⟩
    have hbrings := brings_of_batches ht hdocuments hapart hbatches ho place bytes
    exact hoverlaid.brings o ho place bytes (hbrings.2 hplace)
  · intro place hnone
    refine bytesAt_of_overlaid ht hdocuments hapart hbatches hsources hoverlaid ?_
    intro o ho bytes hplace
    exact hnone bytes ⟨o, ho, hplace⟩

theorem checked_of_status (hwords : Arguments.ofWords words = .ok a)
    (hcheck : (respond (words ++ [checkWord]) terminal t).verdict.status = 0) :
    a.check = false ∧ a.dryRun = false ∧
      Arguments.ofWords (words ++ [checkWord]) = .ok { a with check := true } := by
  have hread := ofWords_append_check hwords
  split at hread
  · rw [respond, hread] at hcheck
    cases hcheck
  split at hread
  · rw [respond, hread] at hcheck
    cases hcheck
  · next hswitches =>
    have hnone : a.check = false ∧ a.dryRun = false := by simpa using hswitches
    exact ⟨hnone.1, hnone.2, hread⟩

/-- When the program passes a check with some arguments, then without the check, and ends well, it
brings the pages of the overlays to their places and leaves every other file as it was. -/
theorem respond_after_passing_check {p : Project} (ht : t.Plain)
    (hwords : Arguments.ofWords words = .ok a)
    (hload : Project.load t a.primary a.secondary a.settings = .ok p)
    (hapart : a.PagesApart t p)
    (hcheck : (respond (words ++ [checkWord]) terminal t).verdict.status = 0)
    (hrun : (respond words terminal t).verdict.status = 0) :
    ∀ place,
      (∀ bytes, a.Brings t p place bytes →
          (respond words terminal t).files.bytesAt place = some bytes) ∧
        ((∀ bytes, ¬ a.Brings t p place bytes) →
          (respond words terminal t).files.bytesAt place = t.bytesAt place) := by
  obtain ⟨hnoCheck, hnoDryRun, hchecked⟩ := checked_of_status hwords hcheck
  have hpasses := (respond_status_zero hchecked).1 hcheck
  have hdone := (respond_status_zero hwords).1 hrun
  obtain ⟨hbrought, hkept⟩ := run_of_passing_check ht hload hapart hnoCheck hnoDryRun hpasses hdone
  exact fun place => ⟨hbrought place, hkept place⟩

/-! ### A page that changed -/

def sampleWords : List Text := ["src".toList, "lib".toList, "site".toList]

/-- A tree without annotations, whose one hand-written page has changed since it was copied. -/
def changedPage : FileTree where
  top := .directory <| .sub "src".toList .empty <| .sub "lib".toList .empty <|
    .sub "docs".toList (.sub "lua".toList
      (.sub "tables".toList (.file "A.md".toList "new".toUTF8 .empty) .empty) .empty) <|
    .sub "site".toList (.sub "tables".toList (.file "A.md".toList "old".toUTF8 .empty) .empty)
      .empty

def sampleArguments : Arguments where
  primary := .ofString "src"
  secondary := .ofString "lib"
  output := .ofString "site"

def sampleProject : Project where
  primary := .ofString "src"
  secondary := .ofString "lib"
  settings := {}
  settingsFile := none

theorem plain_changedPage : changedPage.Plain := FileTree.plain_of_decide (by decide +kernel)

theorem changedPage_passes :
    (respond (sampleWords ++ [checkWord]) false changedPage).verdict.status = 0 := by
  have hwords : Arguments.ofWords (sampleWords ++ [checkWord]) =
      .ok { sampleArguments with check := true } := by decide +kernel
  have hbuild : (sampleProject.build changedPage none).result = .ok ⟨{}, []⟩ :=
    build_result.2 ⟨{}, by decide +kernel, rfl, by decide +kernel⟩
  have hplan : (sampleArguments.plan changedPage).result =
      .ok ⟨⟨{}, []⟩, sampleArguments.overlays changedPage sampleProject⟩ :=
    Arguments.plan_result.2 ⟨sampleProject, by decide +kernel, ⟨{}, []⟩, hbuild, rfl⟩
  have hsources : ∀ o ∈ sampleArguments.overlays changedPage sampleProject,
      changedPage.isDirectory o.source = true := fun o ho => (mem_overlays_iff.1 ho).1
  obtain ⟨shadowed, hshadowed⟩ :=
    plain_changedPage.exists_overlayPaths hsources sampleArguments.output
  have hrun : (({ sampleArguments with check := true } : Arguments).run false).Done changedPage
      .done changedPage :=
    (Arguments.run_compare rfl).2 ⟨rfl, _, hplan, shadowed, hshadowed, rfl⟩
  have hdone : (respond (sampleWords ++ [checkWord]) false changedPage).verdict.status = 0 ∧
      (respond (sampleWords ++ [checkWord]) false changedPage).files = changedPage :=
    respond_of_done hwords hrun
  exact hdone.1

/-- The check passes although the run brings the changed page, with the sources, the pages and the
output in directories apart from each other. -/
theorem changedPage_replaced :
    changedPage.Plain ∧
      ([sampleArguments.primary, sampleArguments.secondary, sampleArguments.output,
          sampleArguments.primary.join sampleProject.settings.fragmentsDir].map
        (·.place changedPage.here)).Pairwise Apart ∧
      (respond (sampleWords ++ [checkWord]) false changedPage).verdict.status = 0 ∧
      (respond sampleWords false changedPage).verdict.status = 0 ∧
      changedPage.bytesAt ["site".toList, "tables".toList, "A.md".toList] =
        some "old".toUTF8 ∧
      (respond sampleWords false changedPage).files.bytesAt
        ["site".toList, "tables".toList, "A.md".toList] = some "new".toUTF8 := by
  refine ⟨plain_changedPage, by decide +kernel, changedPage_passes, ?_⟩
  decide +kernel

theorem respond_after_passing_check_changedPage :
    sampleArguments.Brings changedPage sampleProject
        ["site".toList, "tables".toList, "A.md".toList] "new".toUTF8 ∧
      (respond sampleWords false changedPage).files.bytesAt
        ["site".toList, "tables".toList, "A.md".toList] = some "new".toUTF8 ∧
      (∀ bytes, ¬ sampleArguments.Brings changedPage sampleProject
        ["docs".toList, "lua".toList, "tables".toList, "A.md".toList] bytes) ∧
      (respond sampleWords false changedPage).files.bytesAt
          ["docs".toList, "lua".toList, "tables".toList, "A.md".toList] =
        changedPage.bytesAt ["docs".toList, "lua".toList, "tables".toList, "A.md".toList] := by
  have hwords : Arguments.ofWords sampleWords = .ok sampleArguments := by decide +kernel
  have hload : Project.load changedPage sampleArguments.primary sampleArguments.secondary
      sampleArguments.settings = .ok sampleProject := by decide +kernel
  have hapart : sampleArguments.PagesApart changedPage sampleProject := by decide +kernel
  have hafter := respond_after_passing_check plain_changedPage hwords hload hapart
    changedPage_passes (by decide +kernel)
  have hpage : sampleArguments.Brings changedPage sampleProject
      ["site".toList, "tables".toList, "A.md".toList] "new".toUTF8 :=
    ⟨⟨.ofString "src/../docs/lua/tables", .ofString "site/tables"⟩, by decide +kernel,
      ["A.md".toList], by decide +kernel, by decide +kernel⟩
  have hsource : ∀ bytes, ¬ sampleArguments.Brings changedPage sampleProject
      ["docs".toList, "lua".toList, "tables".toList, "A.md".toList] bytes := by
    have hplaces : ∀ o ∈ sampleArguments.overlays changedPage sampleProject,
        ¬ o.destination.place changedPage.here <+:
          ["docs".toList, "lua".toList, "tables".toList, "A.md".toList] := by decide +kernel
    rintro bytes ⟨o, ho, below, hplace, -⟩
    exact hplaces o ho (hplace ▸ List.prefix_append _ _)
  exact ⟨hpage, (hafter _).1 _ hpage, hsource, (hafter _).2 hsource⟩

end LuaReference
