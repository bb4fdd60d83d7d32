import LuaReference.Proofs.Files.Edits
import LuaReference.Proofs.Output.Documents

/-!
# Where writing takes place

A job is confined to places when it edits a plain tree only there, however it ends. Writing
generated files is confined to their places and to the ways that lead to them.
-/

namespace LuaReference

namespace Job

variable {α β : Type} {here : List Text} {files dirs files' dirs' : List Text → Prop}

/-- However the job ends, it has written and removed files at some places only, and made
directories at some places only. -/
def Confined (here : List Text) (files dirs : List Text → Prop) (j : Job α) : Prop :=
  ∀ t : FileTree, t.Plain → t.here = here → FileTree.Edits files dirs t (j.left t)

theorem Confined.mono {j : Job α} (h : Confined here files dirs j)
    (hfiles : ∀ x, files x → files' x) (hdirs : ∀ x, dirs x → dirs' x) :
    Confined here files' dirs' j := by
  intro t ht hhere
  have hedits := h t ht hhere
  exact hedits.mono hfiles hdirs

theorem confined_reading (f : FileTree → Report α) : Confined here files dirs (reading f) :=
  fun _ _ _ => .refl

theorem confined_pure (a : α) : Confined here files dirs (pure a : Job α) := confined_reading _

theorem confined_note (n : Notice) : Confined here files dirs (note n) := confined_reading _

theorem confined_bind {j : Job α} {f : α → Job β} (hj : Confined here files dirs j)
    (hf : ∀ a, Confined here files dirs (f a)) : Confined here files dirs (j >>= f) := by
  intro t ht hhere
  have hfirst := hj t ht hhere
  rcases hrun : j t with ⟨made, notices, e | a⟩
  · have hleft : (j >>= f).left t = j.left t := by
      rw [left, left, andThen_of_error hrun, hrun]
    rw [hleft]
    exact hfirst
  · have hmade : j.left t = made := by rw [left, hrun]
    have hleft : (j >>= f).left t = (f a).left made := by
      rw [left, andThen_of_ok hrun]
      rfl
    rw [hmade] at hfirst
    have hplain := hfirst.plain ht
    have hlast := hf a made hplain (hfirst.here.trans hhere)
    rw [hleft]
    exact hfirst.trans hlast

theorem confined_each {f : α → Job Unit} {as : List α}
    (hf : ∀ a ∈ as, Confined here files dirs (f a)) : Confined here files dirs (each f as) := by
  induction as with
  | nil => exact confined_pure ()
  | cons a as ih =>
    have hrest := ih fun b hb => hf b (List.mem_cons_of_mem a hb)
    exact confined_bind (hf a List.mem_cons_self) fun _ => hrest

theorem confined_change {f : FileTree → Except Refusal FileTree}
    (hf : ∀ t t', t.Plain → t.here = here → f t = .ok t' → FileTree.Edits files dirs t t') :
    Confined here files dirs (change f) := by
  intro t ht hhere
  rw [left, change]
  cases hmade : f t with
  | error why => exact .refl
  | ok made => exact hf t made ht hhere hmade

theorem confined_makeDirectories (here : List Text) (p : Path) :
    Confined here (fun _ => False) (p.Passes here) (changes (FileTree.makeDirectories p)) := by
  intro t ht hhere
  have hedits := ht.edits_makeDirectories p
  rw [hhere] at hedits
  exact hedits

end Job

open Job

variable (here : List Text)

/-! ### One generated file -/

theorem confined_makeParent (p : Path) : Confined here (fun _ => False) (p.Passes here)
    (makeParent p) := by
  rw [makeParent]
  cases hparent : p.parent? with
  | none => exact confined_pure ()
  | some dir =>
    obtain ⟨c, hc⟩ := Path.components_parent? hparent
    have hprefix : dir.components <+: p.components := hc ▸ List.prefix_append _ _
    have hmade := confined_makeDirectories here dir
    exact hmade.mono (fun _ => id) fun _ hpasses => hpasses.mono hprefix

theorem confined_clearPath (p : Path) : Confined here (· = p.place here) (fun _ => False)
    (clearPath p) := by
  refine confined_bind (confined_reading _) fun present => ?_
  cases present with
  | false => exact confined_pure ()
  | true =>
    refine confined_change fun t t' ht hhere hremoved => ?_
    rw [← hhere]
    exact ht.edits_removeFile hremoved

theorem confined_writeFile (p : Path) (bytes : ByteArray) :
    Confined here (· = p.place here) (fun _ => False) (.change (FileTree.writeFile p bytes)) := by
  refine confined_change fun t t' ht hhere hwritten => ?_
  rw [← hhere]
  exact ht.edits_writeFile hwritten

/-- Writing a generated file changes the entry at its place only, and makes directories on the way
only. -/
theorem confined_write (out : Path) (f : GeneratedFile) :
    Confined here (· = (f.pathIn out).place here) ((f.pathIn out).Passes here) (f.write out) := by
  have hparent := confined_makeParent here (f.pathIn out)
  have hclear := confined_clearPath here (f.pathIn out)
  have hwrite := confined_writeFile here (f.pathIn out) f.content.utf8
  refine confined_bind (hparent.mono (fun _ => False.elim) fun _ => id) fun _ => ?_
  refine confined_bind (hclear.mono (fun _ => id) fun _ => False.elim) fun _ => ?_
  refine confined_bind (hwrite.mono (fun _ => id) fun _ => False.elim) fun _ => ?_
  exact confined_note _

/-! ### All generated files -/

/-- On the way to one of the two directories for documents. -/
def OnTheWay (out : Path) (here place : List Text) : Prop :=
  (out.join tablesDir).Passes here place ∨ (out.join classesDir).Passes here place

/-- In one of the two directories for documents. -/
def InDocuments (out : Path) (here place : List Text) : Prop :=
  (out.join tablesDir).place here <+: place ∨ (out.join classesDir).place here <+: place

instance (out : Path) (here place : List Text) : Decidable (InDocuments out here place) :=
  inferInstanceAs (Decidable (_ ∨ _))

/-- Apart from both directories for documents. -/
def ApartFromDocuments (out : Path) (here place : List Text) : Prop :=
  Apart place ((out.join tablesDir).place here) ∧ Apart place ((out.join classesDir).place here)

instance (out : Path) (here place : List Text) : Decidable (ApartFromDocuments out here place) :=
  inferInstanceAs (Decidable (_ ∧ _))

theorem ApartFromDocuments.not_inDocuments {out : Path} {here place : List Text}
    (h : ApartFromDocuments out here place) (below : List Text) :
    ¬ InDocuments out here (place ++ below) := by
  rintro (hdown | hdown)
  · exact h.1.symm.not_prefix_append below hdown
  · exact h.2.symm.not_prefix_append below hdown

theorem confined_writeGenerated (out : Path) (files : List GeneratedFile) :
    Confined here (fun x => ∃ f ∈ files, x = (f.pathIn out).place here)
      (fun x => OnTheWay out here x ∨ ∃ f ∈ files, (f.pathIn out).Passes here x)
      (writeGenerated out files) := by
  have htables := confined_makeDirectories here (out.join tablesDir)
  have hclasses := confined_makeDirectories here (out.join classesDir)
  refine confined_bind (htables.mono (fun _ => False.elim) fun x hx => Or.inl (Or.inl hx))
    fun _ => ?_
  refine confined_bind (hclasses.mono (fun _ => False.elim) fun x hx => Or.inl (Or.inr hx))
    fun _ => ?_
  refine confined_each fun f hf => ?_
  have hwrite := confined_write here out f
  exact hwrite.mono (fun x hx => ⟨f, hf, hx⟩) fun x hx => Or.inr ⟨f, hf, hx⟩

/-- A document stays in the directory for its kind. -/
def GeneratedFile.Stays (f : GeneratedFile) : Prop :=
  f.path.StaysIn tablesDir ∨ f.path.StaysIn classesDir

variable {here}

theorem GeneratedFile.Stays.place {f : GeneratedFile} (h : f.Stays) (out : Path) :
    InDocuments out here ((f.pathIn out).place here) := by
  rcases h with h | h
  · exact Or.inl (h.place_join components_tablesDir out here)
  · exact Or.inr (h.place_join components_classesDir out here)

theorem GeneratedFile.Stays.passes {f : GeneratedFile} (h : f.Stays) {out : Path}
    {place : List Text} (hpasses : (f.pathIn out).Passes here place) :
    OnTheWay out here place ∨ InDocuments out here place := by
  rcases h with h | h
  · rcases h.passes_join components_tablesDir hpasses with hway | hin
    · exact Or.inl (Or.inl hway)
    · exact Or.inr (Or.inl hin)
  · rcases h.passes_join components_classesDir hpasses with hway | hin
    · exact Or.inl (Or.inr hway)
    · exact Or.inr (Or.inr hin)

/-- Documents that stay in their directories are written there. -/
theorem confined_writeGenerated_of_stays (out : Path) {files : List GeneratedFile}
    (h : ∀ f ∈ files, f.Stays) :
    Confined here (InDocuments out here)
      (fun x => OnTheWay out here x ∨ InDocuments out here x) (writeGenerated out files) := by
  refine (confined_writeGenerated here out files).mono ?_ ?_
  · rintro x ⟨f, hf, rfl⟩
    exact (h f hf).place out
  · rintro x (hway | ⟨f, hf, hpasses⟩)
    · exact Or.inl hway
    · exact (h f hf).passes hpasses

theorem Registry.Flat.stays {r : Registry} {s : Settings} (h : r.Flat) {f : GeneratedFile}
    (hf : f ∈ r.documents s) : f.Stays := by
  obtain ⟨d, n, hd, -, -, hcomponents⟩ := h.exists_path hf
  have hrelative := Path.isAbsolute_of_names hcomponents
  have hforward : Component.up ∉ f.path.components := by
    rw [hcomponents]
    simp
  have hbegins : [Component.name d] <+: f.path.components := by
    rw [hcomponents]
    exact List.prefix_append [Component.name d] _
  rcases hd with rfl | rfl
  · exact Or.inl ⟨hrelative, components_tablesDir ▸ hbegins, hforward⟩
  · exact Or.inr ⟨hrelative, components_classesDir ▸ hbegins, hforward⟩

end LuaReference
