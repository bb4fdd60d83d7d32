import LuaReference.Proofs.CommandLine.Clean
import LuaReference.Proofs.CommandLine.Last
import LuaReference.Proofs.Output.Repeating
import LuaReference.Proofs.Overlay.Repeating

/-!
# The outcome of a run

When a run that writes ends well, each file of an overlay is mirrored in the output directory, each
other place that a document goes to has the last such document, and every other file is as it was.
So a run that plans the same again finds everything in place, ends well and changes no file.
-/

namespace LuaReference

open FileTree (Edits SameBelow)
open Arguments (Batch batches)

variable {a : Arguments} {t t' : FileTree} {out : Path} {here : List Text} {os : List Overlay}
  {files : List GeneratedFile} {bs : List Batch}

/-- The files of the overlays are mirrored, the last of the documents that share a place is there,
and every other file is as it was. -/
structure Outcome (out : Path) (os : List Overlay) (files : List GeneratedFile)
    (t t' : FileTree) : Prop where
  pages : ∀ o ∈ os, ∀ place bytes, o.Brings t.here t place bytes → t'.bytesAt place = some bytes
  documents : ∀ place f, (∀ o ∈ os, ∀ bytes, ¬ o.Brings t.here t place bytes) →
    lastAt? out t.here files place = some f → t'.bytesAt place = some f.content.utf8
  others : ∀ place, (∀ o ∈ os, ∀ bytes, ¬ o.Brings t.here t place bytes) →
    (∀ f ∈ files, (f.pathIn out).place t.here ≠ place) → t'.bytesAt place = t.bytesAt place

/-! ### Batches -/

theorem repeats_batch (out : Path) (files : List GeneratedFile) (b : Batch) :
    (b.write out files).Repeats :=
  Job.repeats_bind (repeats_writeGenerated out (b.select files)) (Job.repeats_note _)

theorem repeats_batches (out : Path) (files : List GeneratedFile) (bs : List Batch) :
    (Job.each (Batch.write out files) bs).Repeats :=
  Job.repeats_each (repeats_batch out files)

theorem isDirectory_of_batches {b : Batch} (ht : t.Plain)
    (h : (Job.each (Batch.write out files) (b :: bs)).Done t () t') :
    t'.isDirectory (out.join tablesDir) = true ∧ t'.isDirectory (out.join classesDir) = true := by
  rw [Job.each] at h
  obtain ⟨_, u, hfirst, hrest⟩ := Job.done_bind h
  obtain ⟨hu, -⟩ := (repeats_batch out files b).persists ht hfirst
  obtain ⟨ht', hpersists⟩ := (repeats_batches out files bs).persists hu hrest
  obtain ⟨htables, hclasses⟩ := isDirectory_of_writeGenerated ht (writeGenerated_of_batch hfirst)
  exact ⟨hpersists.isDirectory hu ht' htables, hpersists.isDirectory hu ht' hclasses⟩

namespace Arranged

/-! ### One run -/

theorem brings_iff (h : Arranged out here os files) {dirs : List Text → Prop}
    (hedits : Edits (InDocuments out here) dirs t t') {o : Overlay} (ho : o ∈ os)
    (place : List Text) (bytes : ByteArray) :
    o.Brings here t' place bytes ↔ o.Brings here t place bytes := by
  have hsource : ∀ below, t'.bytesAt (o.source.place here ++ below) =
      t.bytesAt (o.source.place here ++ below) :=
    fun below => hedits.bytesAt_eq ((h.pages o ho).not_inDocuments below)
  simp only [Overlay.Brings, hsource]

theorem outcome (h : Arranged a.output here os files)
    (horder : batches.flatMap (·.select files) = files) (ht : t.Plain) (hhere : t.here = here)
    (hwritten : (a.write files os).Done t () t') : Outcome a.output os files t t' := by
  obtain ⟨u, hbatches, hcopied⟩ := Arguments.write_done hwritten
  have hedits := h.edits_of_batches ht hhere hbatches
  have hoverlaid := h.overlaid (hedits.plain ht) (hedits.here.trans hhere) hcopied
  have hbrings := fun o (ho : o ∈ os) => h.brings_iff hedits ho
  subst hhere
  have hbytes : ∀ place, (∀ o ∈ os, ∀ bytes, ¬ o.Brings t.here t place bytes) →
      t'.bytesAt place = t.bytesAfter a.output files place := by
    intro place hnone
    have hkept := hoverlaid.keeps place fun o ho bytes hu =>
      hnone o ho bytes ((hbrings o ho place bytes).1 hu)
    rw [hkept, bytesAt_of_each_batch ht hbatches, horder]
  refine ⟨?_, ?_, ?_⟩
  · intro o ho place bytes hplace
    exact hoverlaid.brings o ho place bytes ((hbrings o ho place bytes).2 hplace)
  · intro place f hnone hlast
    rw [hbytes place hnone, FileTree.bytesAfter, hlast]
    rfl
  · intro place hnone hapart
    rw [hbytes place hnone, FileTree.bytesAfter, lastAt?_eq_none_iff.2 hapart]
    rfl

/-! ### Another run -/

/-- Where the two directories are, writing documents adds nothing to the sources of overlays. -/
theorem sameBelow_of_batches (h : Arranged out here os files) (ht : t.Plain)
    (hhere : t.here = here) (htables : t.isDirectory (out.join tablesDir) = true)
    (hclasses : t.isDirectory (out.join classesDir) = true)
    (hbatches : (Job.each (Batch.write out files) bs).Done t () t') {o : Overlay} (ho : o ∈ os) :
    SameBelow (o.source.place here) t t' := by
  have hedits := h.edits_of_batches ht hhere hbatches
  have houtside : ∀ x, InDocuments out here x → ¬ o.source.place here <+: x := by
    rintro _ hin ⟨below, rfl⟩
    exact (h.pages o ho).not_inDocuments below hin
  subst hhere
  refine hedits.sameBelow ht houtside ?_
  rintro x ((htablesWay | hclassesWay) | hin)
  · exact Or.inl ⟨out.join tablesDir, htables, htablesWay⟩
  · exact Or.inl ⟨out.join classesDir, hclasses, hclassesWay⟩
  · exact Or.inr (houtside x hin)

theorem exists_write (h : Arranged a.output here os files) (ht : t.Plain) (hhere : t.here = here)
    (hwritten : (a.write files os).Done t () t') : ∃ v, (a.write files os).Done t' () v := by
  obtain ⟨u, hbatches, hcopied⟩ := Arguments.write_done hwritten
  have hrepeats := repeats_batches a.output files batches
  obtain ⟨hu, htu⟩ := hrepeats.persists ht hbatches
  have huHere := htu.here.trans hhere
  have hoverlaid := h.overlaid hu huHere hcopied
  have ht' := hoverlaid.edits.plain hu
  have hpersists := hoverlaid.persists
  -- the documents are written over
  obtain ⟨w, hbatches'⟩ := hrepeats.again ht hbatches ht' hpersists
  obtain ⟨hw, htw⟩ := hrepeats.persists ht' hbatches'
  -- the sources of the overlays are the same
  obtain ⟨htables, hclasses⟩ := isDirectory_of_batches ht hbatches
  have hdestinations : ∀ o ∈ os, u.isDirectory o.destination = true := by
    intro o ho
    rcases h.destinations o ho with hdestination | hdestination
    · exact hdestination ▸ htables
    · exact hdestination ▸ hclasses
  have hsame : ∀ o ∈ os, SameBelow (o.source.place here) u w := by
    intro o ho
    have hcopy := hoverlaid.sameBelow hu huHere (fun o' ho' => h.apart ho ho') hdestinations
    have hwrite := h.sameBelow_of_batches ht' (hpersists.here.trans huHere)
      (hpersists.isDirectory hu ht' htables) (hpersists.isDirectory hu ht' hclasses) hbatches' ho
    exact hcopy.trans hwrite
  obtain ⟨v, hcopied'⟩ := exists_copyOverlays hu huHere hw (fun _ ho _ ho' => h.apart ho ho')
    h.pairwise hdestinations hcopied htw hsame
  exact ⟨v, Arguments.done_write hbatches' hcopied'⟩

theorem bytesAt_of_again (h : Arranged a.output here os files)
    (horder : batches.flatMap (·.select files) = files) (ht : t.Plain) (hhere : t.here = here)
    (hwritten : (a.write files os).Done t () t') {v : FileTree}
    (hagain : (a.write files os).Done t' () v) (place : List Text) :
    v.bytesAt place = t'.bytesAt place := by
  obtain ⟨u, hbatches, hcopied⟩ := Arguments.write_done hwritten
  have hfirst := h.edits_of_batches ht hhere hbatches
  have hlast := h.edits_of_overlaid (h.overlaid (hfirst.plain ht) (hfirst.here.trans hhere) hcopied)
  have hedits := hfirst.trans hlast
  have hnow := h.outcome horder ht hhere hwritten
  have hthen := h.outcome horder (hedits.plain ht) (hedits.here.trans hhere) hagain
  have hbrings := fun o (ho : o ∈ os) => h.brings_iff hedits ho
  subst hhere
  by_cases hbrought : ∃ o ∈ os, ∃ bytes, o.Brings t.here t place bytes
  · obtain ⟨o, ho, bytes, hplace⟩ := hbrought
    have hplace' := (hbrings o ho place bytes).2 hplace
    rw [hnow.pages o ho place bytes hplace]
    exact hthen.pages o ho place bytes (hedits.here ▸ hplace')
  · have hnone : ∀ o ∈ os, ∀ bytes, ¬ o.Brings t.here t place bytes :=
      fun o ho bytes hplace => hbrought ⟨o, ho, bytes, hplace⟩
    have hnone' : ∀ o ∈ os, ∀ bytes, ¬ o.Brings t'.here t' place bytes := by
      intro o ho bytes hplace
      rw [hedits.here, hbrings o ho] at hplace
      exact hnone o ho bytes hplace
    cases hf : lastAt? a.output t.here files place with
    | some f =>
      rw [hnow.documents place f hnone hf]
      exact hthen.documents place f hnone' (hedits.here ▸ hf)
    | none =>
      rw [← hedits.here, lastAt?_eq_none_iff] at hf
      exact hthen.others place hnone' hf

end Arranged

/-! ### Responses -/

/-- When the program writes and ends well, pages, documents and all other files are as they should
be. When the tree that it leaves makes for the same documents and overlays, it ends well again and
changes no file. -/
theorem respond_outcome {words : List Text} {p : Project} {b : Build} (terminal terminal' : Bool)
    (ht : t.Plain) (hwords : Arguments.ofWords words = .ok a) (hcheck : a.check = false)
    (hdryRun : a.dryRun = false)
    (hload : Project.load t a.primary a.secondary a.settings = .ok p)
    (hbuild : (p.build t a.nameSpace).result = .ok b)
    (hpages : ∀ o ∈ a.overlays t p, ApartFromDocuments a.output t.here (o.source.place t.here))
    (hforward : ∀ f ∈ b.files, f.path.Forward)
    (hrun : (respond words terminal t).verdict.status = 0) :
    Outcome a.output (a.overlays t p) b.files t (respond words terminal t).files ∧
      ∀ p' b',
        Project.load (respond words terminal t).files a.primary a.secondary a.settings = .ok p' →
        (p'.build (respond words terminal t).files a.nameSpace).result = .ok b' →
        b'.files = b.files → a.overlays (respond words terminal t).files p' = a.overlays t p →
        (respond words terminal' (respond words terminal t).files).verdict.status = 0 ∧
          ∀ place, (respond words terminal' (respond words terminal t).files).files.bytesAt place =
            (respond words terminal t).files.bytesAt place := by
  have hdone := (respond_status_zero hwords).1 hrun
  generalize (respond words terminal t).files = t' at hdone ⊢
  obtain ⟨plan, hplan, hwritten⟩ := Arguments.run_write hcheck hdryRun hdone
  have hplanned : (a.plan t).result = .ok ⟨b, a.overlays t p⟩ :=
    Arguments.plan_result.2 ⟨p, hload, b, hbuild, rfl⟩
  obtain rfl : plan = ⟨b, a.overlays t p⟩ := Except.ok.inj (hplan.symm.trans hplanned)
  obtain ⟨_, -, -, hgenerate⟩ := build_result.1 hbuild
  obtain ⟨-, hfiles⟩ := generate_eq_ok_iff.1 hgenerate
  have hstays : ∀ f ∈ b.files, f.Stays := by
    rw [hfiles] at hforward ⊢
    exact stays_of_forward hforward
  have horder : batches.flatMap (·.select b.files) = b.files := by
    rw [hfiles] at hforward ⊢
    exact flatMap_select_batches hforward
  have harranged : Arranged a.output t.here (a.overlays t p) b.files := .of_overlays hstays hpages
  refine ⟨harranged.outcome horder ht rfl hwritten, ?_⟩
  intro p' b' hload' hbuild' hsame hoverlays
  obtain ⟨v, hagain⟩ := harranged.exists_write ht rfl hwritten
  have hplan' : (a.plan t').result = .ok ⟨b', a.overlays t' p'⟩ :=
    Arguments.plan_result.2 ⟨p', hload', b', hbuild', rfl⟩
  have hrun' : (a.run (terminal' && !a.noColor)).Done t' .done v := by
    refine Arguments.done_run hcheck hdryRun hplan' ?_
    rw [hsame, hoverlays]
    exact hagain
  obtain ⟨hstatus, hleft⟩ := respond_of_done hwords hrun'
  refine ⟨hstatus, fun place => ?_⟩
  rw [hleft]
  exact harranged.bytesAt_of_again horder ht rfl hwritten hagain place

/-! ### A page written by hand -/

/-- The page in the output is the one written by hand, the stub is generated, the source is as it
was, and the same again changes nothing. -/
theorem respond_outcome_pagedSource :
    (respond sampleWords false pagedSource).files.bytesAt
        ["site".toList, "tables".toList, "A.md".toList] = some "hand".toUTF8 ∧
      (respond sampleWords false pagedSource).files.bytesAt
        ["site".toList, "tables".toList, "A.lua".toList] =
          some "---@meta A\n\n---@class (exact) A\n\n".toUTF8 ∧
      (respond sampleWords false pagedSource).files.bytesAt ["src".toList, "a.cpp".toList] =
        pagedSource.bytesAt ["src".toList, "a.cpp".toList] ∧
      (respond sampleWords false (respond sampleWords false pagedSource).files).verdict.status = 0 ∧
      ∀ place, (respond sampleWords false
          (respond sampleWords false pagedSource).files).files.bytesAt place =
        (respond sampleWords false pagedSource).files.bytesAt place := by
  have hplain : pagedSource.Plain := FileTree.plain_of_decide (by decide +kernel)
  have hwords : Arguments.ofWords sampleWords = .ok sampleArguments := by decide +kernel
  have hload : Project.load pagedSource sampleArguments.primary sampleArguments.secondary none =
      .ok sampleProject := by decide +kernel
  have hpages : ∀ o ∈ sampleArguments.overlays pagedSource sampleProject,
      ApartFromDocuments sampleArguments.output pagedSource.here
        (o.source.place pagedSource.here) := by decide +kernel
  obtain ⟨houtcome, hagain⟩ := respond_outcome false false hplain hwords rfl rfl hload
    pagedSource_builds hpages (by decide +kernel) (by decide +kernel)
  have hload' : Project.load (respond sampleWords false pagedSource).files sampleArguments.primary
      sampleArguments.secondary none = .ok sampleProject := by decide +kernel
  have hbuild' : (sampleProject.build (respond sampleWords false pagedSource).files none).result =
      .ok pagedBuild :=
    build_result.2 ⟨pagedBuild.scanned, by decide +kernel, rfl, by decide +kernel⟩
  have hsame : sampleArguments.overlays (respond sampleWords false pagedSource).files
      sampleProject = sampleArguments.overlays pagedSource sampleProject := by decide +kernel
  let o : Overlay := ⟨.ofString "src/../docs/lua/tables", .ofString "site/tables"⟩
  have hoverlays : sampleArguments.overlays pagedSource sampleProject = [o] := by decide +kernel
  rw [hoverlays] at houtcome
  have hpage : o.Brings pagedSource.here pagedSource
      ["site".toList, "tables".toList, "A.md".toList] "hand".toUTF8 :=
    ⟨["A.md".toList], by decide +kernel, by decide +kernel⟩
  have hnoStub : ∀ bytes, ¬ o.Brings pagedSource.here pagedSource
      ["site".toList, "tables".toList, "A.lua".toList] bytes := by
    rintro bytes ⟨below, hplace, hbytes⟩
    have hbelow : ["site".toList, "tables".toList] ++ ["A.lua".toList] =
        ["site".toList, "tables".toList] ++ below := hplace
    obtain rfl := List.append_cancel_left hbelow
    have hnone : pagedSource.bytesAt (o.source.place pagedSource.here ++ ["A.lua".toList]) =
        none := by decide +kernel
    rw [hnone] at hbytes
    cases hbytes
  have hnoSource : ∀ bytes, ¬ o.Brings pagedSource.here pagedSource
      ["src".toList, "a.cpp".toList] bytes := by
    rintro bytes ⟨below, hplace, -⟩
    have hdown : o.destination.place pagedSource.here <+: ["src".toList, "a.cpp".toList] :=
      hplace ▸ List.prefix_append _ _
    exact absurd hdown (by decide +kernel)
  have hlast : (lastAt? sampleArguments.output pagedSource.here pagedBuild.files
      ["site".toList, "tables".toList, "A.lua".toList]).map (·.content.utf8) =
        some "---@meta A\n\n---@class (exact) A\n\n".toUTF8 := by decide +kernel
  obtain ⟨f, hf, hcontent⟩ := Option.map_eq_some_iff.1 hlast
  refine ⟨houtcome.pages o (List.mem_singleton_self o) _ _ hpage, ?_, ?_,
    hagain sampleProject pagedBuild hload' hbuild' rfl hsame⟩
  · rw [houtcome.documents _ f (fun o' ho' => List.mem_singleton.1 ho' ▸ hnoStub) hf]
    exact congrArg some hcontent
  · exact houtcome.others _ (fun o' ho' => List.mem_singleton.1 ho' ▸ hnoSource)
      (by decide +kernel)

end LuaReference
