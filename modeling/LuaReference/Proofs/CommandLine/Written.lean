import Mathlib.Data.List.Nodup
import LuaReference.Proofs.CommandLine.Batches
import LuaReference.Proofs.Overlay.Shadows

/-!
# What a run leaves

Documents whose names have no slashes have places of their own in the two directories for
documents. A run leaves each of them fresh, unless a hand-written page replaced it, and then a
comparison leaves it out.
-/

namespace LuaReference

open FileTree (Edits)
open Arguments (Batch batches)

variable {a : Arguments} {t t' : FileTree} {out : Path}

/-! ### Where a run writes -/

variable {o : Overlay} {os : List Overlay} {files : List GeneratedFile} {here : List Text}
  {primary : Path} {s : Settings}

/-- The documents and the destinations of the overlays lie in the two directories for documents,
and the sources of the overlays apart from these. -/
structure Arranged (out : Path) (here : List Text) (os : List Overlay)
    (files : List GeneratedFile) : Prop where
  stays : ∀ f ∈ files, f.Stays
  destinations : ∀ o ∈ os, o.destination = out.join tablesDir ∨ o.destination = out.join classesDir
  pairwise : os.Pairwise fun o o' => Apart (o.destination.place here) (o'.destination.place here)
  pages : ∀ o ∈ os, ApartFromDocuments out here (o.source.place here)

namespace Arranged

theorem of_overlays (hstays : ∀ f ∈ files, f.Stays)
    (hpages : ∀ o ∈ t.overlays primary out s, ApartFromDocuments out here (o.source.place here)) :
    Arranged out here (t.overlays primary out s) files where
  stays := hstays
  destinations := by
    intro o ho
    obtain ⟨-, rfl | rfl⟩ := mem_overlays_iff.1 ho
    · exact Or.inr rfl
    · exact Or.inl rfl
  pairwise := pairwise_overlays t primary out s here
  pages := hpages

theorem apart (h : Arranged out here os files) {o o' : Overlay} (ho : o ∈ os) (ho' : o' ∈ os) :
    Apart (o.source.place here) (o'.destination.place here) := by
  rcases h.destinations o' ho' with hdestination | hdestination
  · exact hdestination ▸ (h.pages o ho).1
  · exact hdestination ▸ (h.pages o ho).2

theorem inDocuments (h : Arranged out here os files) (ho : o ∈ os) {place : List Text}
    (hdown : o.destination.place here <+: place) : InDocuments out here place := by
  rcases h.destinations o ho with hdestination | hdestination
  · exact Or.inl (hdestination ▸ hdown)
  · exact Or.inr (hdestination ▸ hdown)

theorem onTheWay (h : Arranged out here os files) (ho : o ∈ os) {place : List Text}
    (hpasses : o.destination.Passes here place) : OnTheWay out here place := by
  rcases h.destinations o ho with hdestination | hdestination
  · exact Or.inl (hdestination ▸ hpasses)
  · exact Or.inr (hdestination ▸ hpasses)

theorem edits_of_batches (h : Arranged out here os files) (ht : t.Plain) (hhere : t.here = here)
    {bs : List Batch} (hbatches : (Job.each (Batch.write out files) bs).Done t () t') :
    Edits (InDocuments out here) (fun x => OnTheWay out here x ∨ InDocuments out here x) t t' := by
  subst hhere
  refine (LuaReference.edits_of_batches ht hbatches).mono ?_ ?_
  · rintro x ⟨f, hf, rfl⟩
    exact (h.stays f hf).place out
  · rintro x (hway | ⟨f, hf, hpasses⟩)
    · exact Or.inl hway
    · exact (h.stays f hf).passes hpasses

theorem overlaid (h : Arranged out here os files) (ht : t.Plain) (hhere : t.here = here)
    (hcopied : (copyOverlays os).Done t () t') : Overlaid here os t t' :=
  overlaid_of_copyOverlays ht hhere (fun _ ho _ ho' => h.apart ho ho') h.pairwise hcopied

theorem edits_of_overlaid (h : Arranged out here os files) (hoverlaid : Overlaid here os t t') :
    Edits (InDocuments out here) (fun x => OnTheWay out here x ∨ InDocuments out here x) t t' := by
  refine hoverlaid.edits.mono ?_ ?_
  · rintro x ⟨o, ho, hdown⟩
    exact h.inDocuments ho hdown
  · rintro x ⟨o, ho, hpasses | hdown⟩
    · exact Or.inl (h.onTheWay ho hpasses)
    · exact Or.inr (h.inDocuments ho hdown)

end Arranged

/-! ### Documents after a run -/

variable {f : GeneratedFile}

theorem Registry.Flat.place {r : Registry} (h : r.Flat) (hf : f ∈ r.documents s) (out : Path)
    (here : List Text) :
    ∃ d n, f.path = Path.child ⟨d⟩ n ∧ f.path.components = [d, n].map .name ∧
      (f.pathIn out).place here = out.place here ++ [d, n] := by
  obtain ⟨d, n, -, -, hpath, hcomponents⟩ := h.exists_path hf
  exact ⟨d, n, hpath, hcomponents, out.place_join_names hcomponents here⟩

theorem Registry.Flat.eq_of_place {r : Registry} (h : r.Flat)
    (hdistinct : ((r.documents s).map (·.path)).Nodup) {g : GeneratedFile}
    (hf : f ∈ r.documents s) (hg : g ∈ r.documents s) {here : List Text}
    (hplace : (g.pathIn out).place here = (f.pathIn out).place here) : g = f := by
  obtain ⟨d, n, hpath, -, hfplace⟩ := h.place hf out here
  obtain ⟨d', n', hpath', -, hgplace⟩ := h.place hg out here
  rw [hfplace, hgplace, List.append_cancel_left_eq] at hplace
  have hsame : g.path = f.path := by
    obtain ⟨rfl, hn⟩ := List.cons.inj hplace
    obtain rfl := List.singleton_inj.1 hn
    rw [hpath, hpath']
  exact List.inj_on_of_nodup_map hdistinct hg hf hsame

theorem Registry.Flat.arranged {r : Registry} (h : r.Flat)
    (hpages : ∀ o ∈ t.overlays primary out s, ApartFromDocuments out here (o.source.place here)) :
    Arranged out here (t.overlays primary out s) (r.documents s) :=
  .of_overlays (fun _ hf => h.stays hf) hpages

/-- A hand-written page stands for the document. -/
def Overlay.Replaces (o : Overlay) (out : Path) (t : FileTree) (f : GeneratedFile) : Prop :=
  ∃ d n bytes, o.Enters out d ∧ f.path.components = [d, n].map .name ∧
    t.bytesAt (o.source.place t.here ++ [n]) = some bytes

theorem FileTree.Plain.not_isDirectory_child (ht : t.Plain) {dir : Path} {n : Text}
    {bytes : ByteArray} (h : t.bytesAt (dir.place t.here ++ [n]) = some bytes) :
    t.isDirectory (dir.child n) = false := by
  have hfile := FileTree.bytesAt_eq_some_iff.1 h
  have hn := ht.isName hfile
  rw [← Bool.not_eq_true, ht.isDirectory_iff, dir.place_child hn]
  rintro ⟨d, hd⟩
  have hdirectory : t.entry? (dir.place t.here ++ [n]) = some (.directory d) :=
    FileTree.locate_holds hd
  rw [hfile] at hdirectory
  cases hdirectory

theorem agrees_of_replaces (ht : t.Plain) (h : o.Replaces out t f) {os : List Overlay}
    (ho : o ∈ os) (hsource : t.isDirectory o.source = true) {shadowed : List Path}
    (hshadowed : t.overlayPaths out os = .ok shadowed) :
    shadowed.any f.path.agrees = true := by
  obtain ⟨d, n, bytes, henters, hpath, hbytes⟩ := h
  obtain ⟨first, hfirst⟩ := ht.exists_overlayPathsOf hsource out
  have hentry := FileTree.bytesAt_eq_some_iff.1 hbytes
  have hleaf := ht.not_isDirectory_child hbytes
  obtain ⟨q, hq, hcomponents⟩ := ht.mem_overlayPathsOf henters hfirst hentry hleaf
  have hmem : q ∈ shadowed := (FileTree.mem_overlayPaths_iff hshadowed).2 ⟨o, ho, first, hfirst, hq⟩
  refine List.any_eq_true.2 ⟨q, hmem, ?_⟩
  rw [Path.agrees, hpath, hcomponents]
  exact beq_self_eq_true _

section Written

variable {r : Registry} (ht : t.Plain) (hflat : r.Flat)
  (hpages : ∀ o ∈ t.overlays primary a.output s,
    ApartFromDocuments a.output t.here (o.source.place t.here))
  (h : (a.write (r.documents s) (t.overlays primary a.output s)).Done t () t')

include ht hflat hpages h

theorem exists_overlaid_of_write :
    ∃ u, Edits (InDocuments a.output t.here)
        (fun x => OnTheWay a.output t.here x ∨ InDocuments a.output t.here x) t u ∧
      (Job.each (Batch.write a.output (r.documents s)) batches).Done t () u ∧
      Overlaid t.here (t.overlays primary a.output s) u t' := by
  have harranged := hflat.arranged hpages
  obtain ⟨u, hbatches, hcopied⟩ := Arguments.write_done h
  have hedits := harranged.edits_of_batches ht rfl hbatches
  exact ⟨u, hedits, hbatches, harranged.overlaid (hedits.plain ht) hedits.here hcopied⟩

theorem edits_of_run :
    Edits (InDocuments a.output t.here)
      (fun x => OnTheWay a.output t.here x ∨ InDocuments a.output t.here x) t t' := by
  have harranged := hflat.arranged hpages
  obtain ⟨u, hedits, -, hoverlaid⟩ := exists_overlaid_of_write ht hflat hpages h
  exact hedits.trans (harranged.edits_of_overlaid hoverlaid)

/-- A run leaves every document fresh or replaced by a hand-written page. -/
theorem fresh_or_replaced (hdistinct : ((r.documents s).map (·.path)).Nodup)
    (hf : f ∈ r.documents s) :
    f.Fresh a.output t' ∨
      ∃ o ∈ t.overlays primary a.output s, o.Replaces a.output t' f := by
  have harranged := hflat.arranged hpages
  obtain ⟨u, hedits, hbatches, hoverlaid⟩ := exists_overlaid_of_write ht hflat hpages h
  have hu := hedits.plain ht
  have hfresh : f.Fresh a.output u := by
    refine fresh_of_batches ht ?_ (Or.inr (exists_batch hf (hflat.stays hf))) hbatches
    intro g hg hplace
    exact hflat.eq_of_place hdistinct hf hg hplace
  -- a document has one name behind its directory, so only an entry of a source reaches its place
  by_cases hbrought : ∃ o ∈ t.overlays primary a.output s, ∃ bytes,
      o.Brings t.here u ((f.pathIn a.output).place t.here) bytes
  · obtain ⟨o, ho, bytes, below, hplace, hbytes⟩ := hbrought
    obtain ⟨d, n, -, hcomponents, hdocument⟩ := hflat.place hf a.output t.here
    obtain ⟨d', henters⟩ := exists_enters ho
    rw [hdocument, henters.destination, a.output.place_child henters.isName, List.append_assoc,
      List.append_cancel_left_eq] at hplace
    obtain ⟨rfl, hbelow⟩ := List.cons.inj hplace
    obtain rfl : [n] = below := hbelow
    have hsource : ¬ ∃ o' ∈ t.overlays primary a.output s,
        o'.destination.place t.here <+: o.source.place t.here ++ [n] := by
      rintro ⟨o', ho', hprefix⟩
      exact (hpages o ho).not_inDocuments [n] (harranged.inDocuments ho' hprefix)
    refine Or.inr ⟨o, ho, d, n, bytes, henters, hcomponents, ?_⟩
    rw [hoverlaid.edits.here, hedits.here, hoverlaid.edits.bytesAt_eq hsource]
    exact hbytes
  · left
    have hkept : t'.bytesAt ((f.pathIn a.output).place t.here) =
        u.bytesAt ((f.pathIn a.output).place t.here) := by
      refine hoverlaid.keeps _ ?_
      intro o ho bytes hbrings
      exact hbrought ⟨o, ho, bytes, hbrings⟩
    refine hfresh.of_edits hu hoverlaid.edits ?_
    rw [hedits.here, hkept, ← hedits.here]
    exact hfresh.bytesAt hu

theorem stale_after_run (hdistinct : ((r.documents s).map (·.path)).Nodup) :
    ∃ shadowed, t'.overlayPaths a.output (t'.overlays primary a.output s) = .ok shadowed ∧
      t'.stale a.output shadowed (r.documents s) = .ok [] := by
  have hedits := edits_of_run ht hflat hpages h
  have hplain := hedits.plain ht
  have hsources : ∀ o ∈ t'.overlays primary a.output s, t'.isDirectory o.source = true :=
    fun o ho => (mem_overlays_iff.1 ho).1
  obtain ⟨shadowed, hshadowed⟩ := hplain.exists_overlayPaths hsources a.output
  refine ⟨shadowed, hshadowed, stale_eq_nil_iff.2 fun f hf => ?_⟩
  rcases fresh_or_replaced ht hflat hpages h hdistinct hf with hfresh | ⟨o, ho, hreplaces⟩
  · exact Or.inr hfresh
  · obtain ⟨hsource, hplanned⟩ := mem_overlays_iff.1 ho
    have hsource' := hedits.isDirectory ht hsource
    have ho' : o ∈ t'.overlays primary a.output s := mem_overlays_iff.2 ⟨hsource', hplanned⟩
    exact Or.inl (agrees_of_replaces hplain hreplaces ho' hsource' hshadowed)

end Written

end LuaReference
