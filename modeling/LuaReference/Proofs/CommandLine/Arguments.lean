import LuaReference.CommandLine.Arguments

/-!
# One more argument

What the check switch does behind a command line that can be read: behind `--` it is one value too
many, next to itself or to the dry run it is a conflict, and otherwise it is the only difference.
-/

namespace LuaReference

namespace ArgumentReader

variable {r r' : ArgumentReader}

/-- A position that is still free has no value, neither stored nor waiting. -/
structure Sound (r : ArgumentReader) : Prop where
  free : r.free <:+ Slot.positional
  unread : ∀ s ∈ r.free, r.values.lookup s = none ∧ ∀ v, r.waiting ≠ some (s, v)

theorem Sound.initial : Sound {} where
  free := List.suffix_rfl
  unread := fun _ _ => ⟨rfl, fun _ h => nomatch h⟩

theorem Sound.named_slot (h : r.Sound) {s : Slot} (hs : s ∉ Slot.positional) (v : Option Text) :
    Sound { r with waiting := some (s, v) } where
  free := h.free
  unread := by
    intro s' hs'
    refine ⟨(h.unread s' hs').1, ?_⟩
    intro v' heq
    obtain ⟨rfl, -⟩ := Prod.mk.inj (Option.some.inj heq)
    exact hs (h.free.subset hs')

/-! ### One argument -/

theorem Sound.settle (h : r.Sound) (hs : r.settle = .ok r') :
    r'.Sound ∧ r'.waiting = none ∧ r'.positionalOnly = r.positionalOnly ∧ r'.free = r.free := by
  rw [ArgumentReader.settle] at hs
  split at hs
  · next hnone =>
    cases hs
    exact ⟨h, hnone, rfl, rfl⟩
  · cases hs
  · next slot value hwaiting =>
    split at hs
    · cases hs
    split at hs
    · cases hs
    cases hs
    refine ⟨⟨h.free, ?_⟩, rfl, rfl, rfl⟩
    intro s hsFree
    obtain ⟨hvalue, hwait⟩ := h.unread s hsFree
    have hne : s ≠ slot := by
      rintro rfl
      exact hwait _ hwaiting
    refine ⟨?_, fun v hv => nomatch hv⟩
    rw [List.lookup_cons, beq_false_of_ne hne]
    exact hvalue

theorem Sound.named (h : r.Sound) {n : ArgumentName} (hn : ∀ s ∈ Slot.positional, n ≠ .slot s)
    (hr : r.named n = .ok r') : r'.Sound ∧ r'.positionalOnly = r.positionalOnly := by
  rw [ArgumentReader.named] at hr
  split at hr
  · cases hr
  · next settled hsettled =>
    obtain ⟨hsound, -, hflag, -⟩ := h.settle hsettled
    split at hr
    · next s =>
      cases hr
      exact ⟨hsound.named_slot (fun hs => hn s hs rfl) none, hflag⟩
    · cases hr
    · split at hr
      · cases hr
      · cases hr
        exact ⟨⟨hsound.free, hsound.unread⟩, hflag⟩

theorem ofLong?_ne_positional {name : Text} {n : ArgumentName}
    (h : ArgumentName.ofLong? name = some n) : ∀ s ∈ Slot.positional, n ≠ .slot s := by
  rw [ArgumentName.ofLong?] at h
  split at h <;> cases h <;> decide

theorem ofShort?_ne_positional {c : Char} {n : ArgumentName}
    (h : ArgumentName.ofShort? c = some n) : ∀ s ∈ Slot.positional, n ≠ .slot s := by
  unfold ArgumentName.ofShort? at h
  split at h <;> cases h <;> decide

theorem Sound.long (h : r.Sound) {name : Text} {value : Option Text}
    (hr : r.long name value = .ok r') : r'.Sound ∧ r'.positionalOnly = r.positionalOnly := by
  unfold ArgumentReader.long at hr
  split at hr
  · cases hr
  · next hname => exact h.named (ofLong?_ne_positional hname) hr
  · next s v hname =>
    have hs := ofLong?_ne_positional hname
    cases hnamed : r.named (.slot s) with
    | error u =>
      rw [hnamed] at hr
      cases hr
    | ok made =>
      rw [hnamed] at hr
      obtain ⟨hsound, hflag⟩ := h.named hs hnamed
      have hwaiting := hsound.named_slot (fun hmem => hs s hmem rfl) (some v)
      obtain ⟨hsettled, -, hsame, -⟩ := hwaiting.settle hr
      exact ⟨hsettled, hsame.trans hflag⟩
  · cases hr

theorem Sound.short (h : r.Sound) {cs : Text} (hr : r.short cs = .ok r') :
    r'.Sound ∧ r'.positionalOnly = r.positionalOnly := by
  induction cs generalizing r with
  | nil =>
    cases hr
    exact ⟨h, rfl⟩
  | cons c cs ih =>
    rw [ArgumentReader.short] at hr
    split at hr
    · cases hr
    · next n hname =>
      cases hnamed : r.named n with
      | error u =>
        rw [hnamed] at hr
        cases hr
      | ok made =>
        rw [hnamed] at hr
        obtain ⟨hsound, hflag⟩ := h.named (ofShort?_ne_positional hname) hnamed
        obtain ⟨hlast, hsame⟩ := ih hsound hr
        exact ⟨hlast, hsame.trans hflag⟩

theorem Sound.positional (h : r.Sound) {v : Text} (hr : r.positional v = .ok r') :
    r'.Sound ∧ r'.positionalOnly = r.positionalOnly := by
  rw [ArgumentReader.positional] at hr
  split at hr
  · cases hr
  · next slot free hfree =>
    cases hsettled : r.settle with
    | error u =>
      rw [hsettled] at hr
      cases hr
    | ok settled =>
      rw [hsettled] at hr
      cases hr
      obtain ⟨hsound, -, hflag, hsame⟩ := h.settle hsettled
      have hsuffix : slot :: free <:+ Slot.positional := hfree ▸ h.free
      have hnodup : (slot :: free).Nodup := hsuffix.sublist.nodup (by decide)
      refine ⟨⟨(List.suffix_cons slot free).trans hsuffix, ?_⟩, hflag⟩
      intro s hs
      have hmem : s ∈ settled.free := hsame ▸ hfree ▸ List.mem_cons_of_mem slot hs
      refine ⟨(hsound.unread s hmem).1, ?_⟩
      intro v' heq
      obtain ⟨rfl, -⟩ := Prod.mk.inj (Option.some.inj heq)
      exact (List.nodup_cons.1 hnodup).1 hs

theorem Sound.value (h : r.Sound) {v : Text} (hr : r.value v = .ok r') :
    r'.Sound ∧ r'.positionalOnly = r.positionalOnly := by
  rw [ArgumentReader.value] at hr
  split at hr
  · next slot hwaiting =>
    cases hr
    refine ⟨⟨h.free, ?_⟩, rfl⟩
    intro s hs
    refine ⟨(h.unread s hs).1, ?_⟩
    intro v' heq
    obtain ⟨rfl, -⟩ := Prod.mk.inj (Option.some.inj heq)
    exact (h.unread slot hs).2 none hwaiting
  · exact h.positional hr

def dashes : Text := "--".toList

/-- Once the two dashes were read, everything is a value. -/
theorem Sound.read (h : r.Sound) {w : Text} (hr : r.read w = .ok r') :
    r'.Sound ∧ r'.positionalOnly = (r.positionalOnly || decide (w = dashes)) := by
  unfold ArgumentReader.read at hr
  split at hr
  · next honly =>
    obtain ⟨hsound, hflag⟩ := h.positional hr
    rw [hflag, honly]
    exact ⟨hsound, rfl⟩
  · next honly =>
    rw [Bool.not_eq_true] at honly
    rw [honly, Bool.false_or]
    split at hr
    · cases hr
      exact ⟨⟨h.free, h.unread⟩, rfl⟩
    · next name hname =>
      have hword : decide ('-' :: '-' :: name = dashes) = false := by
        rw [decide_eq_false_iff_not]
        intro heq
        obtain rfl : name = [] := by simpa [dashes] using heq
        exact hname rfl
      rw [hword, ← honly]
      split at hr
      · exact h.long hr
      · exact h.long hr
    · next c cs hdashes _ =>
      have hword : decide ('-' :: c :: cs = dashes) = false := by
        rw [decide_eq_false_iff_not]
        intro heq
        obtain ⟨rfl, rfl⟩ : c = '-' ∧ cs = [] := by simpa [dashes] using heq
        exact hdashes rfl rfl
      rw [hword, ← honly]
      exact h.short hr
    · next hdashes _ _ =>
      have hword : decide (w = dashes) = false := decide_eq_false hdashes
      rw [hword, ← honly]
      exact h.value hr

/-! ### All arguments -/

theorem Sound.foldlM (h : r.Sound) {ws : List Text} (hr : ws.foldlM ArgumentReader.read r = .ok r') :
    r'.Sound ∧ r'.positionalOnly = (r.positionalOnly || decide (dashes ∈ ws)) := by
  induction ws generalizing r with
  | nil =>
    cases hr
    simp [h]
  | cons w ws ih =>
    rw [List.foldlM_cons] at hr
    cases hread : r.read w with
    | error u =>
      rw [hread] at hr
      cases hr
    | ok made =>
      rw [hread] at hr
      obtain ⟨hsound, hflag⟩ := h.read hread
      obtain ⟨hlast, hsame⟩ := ih hsound hr
      have hword : decide (dashes ∈ w :: ws) = (decide (w = dashes) || decide (dashes ∈ ws)) := by
        simp [List.mem_cons, eq_comm]
      rw [hword, ← Bool.or_assoc, ← hflag]
      exact ⟨hlast, hsame⟩

/-- When all positions were given, none is free. -/
theorem Sound.free_eq_nil (h : r.Sound)
    (hall : ∀ s ∈ Slot.positional, r.values.lookup s ≠ none) : r.free = [] := by
  cases hfree : r.free with
  | nil => rfl
  | cons s free =>
    have hmem : s ∈ r.free := hfree ▸ List.mem_cons_self
    exact absurd (h.unread s hmem).1 (hall s (h.free.subset hmem))

end ArgumentReader

open ArgumentReader (dashes)

theorem ofWords_eq_ok {ws : List Text} {a : Arguments} (h : Arguments.ofWords ws = .ok a) :
    ∃ r settled, ws.foldlM ArgumentReader.read {} = .ok r ∧ r.settle = .ok settled ∧
      settled.finish = .ok a := by
  rw [Arguments.ofWords] at h
  cases hread : ws.foldlM ArgumentReader.read {} with
  | error u =>
    rw [hread] at h
    cases h
  | ok r =>
    rw [hread] at h
    change (r.settle >>= ArgumentReader.finish) = _ at h
    cases hsettled : r.settle with
    | error u =>
      rw [hsettled] at h
      cases h
    | ok settled =>
      rw [hsettled] at h
      exact ⟨r, settled, rfl, hsettled, h⟩

def checkWord : Text := "--check".toList

theorem read_checkWord (r : ArgumentReader) :
    r.read checkWord =
      if r.positionalOnly then r.positional checkWord else r.named (.switch .check) := by
  have hname : ArgumentName.ofLong? "check".toList = some (.switch .check) := by decide
  have hlong : r.long "check".toList none = r.named (.switch .check) := by
    unfold ArgumentReader.long
    rw [hname]
  have hread : r.read checkWord =
      if r.positionalOnly then r.positional checkWord else r.long "check".toList none := rfl
  rw [hread, hlong]

/-- The arguments of a reader, by the values for its three positions. -/
def ArgumentReader.arguments (r : ArgumentReader) (p s o : Text) : Arguments where
  primary := ⟨p⟩
  secondary := ⟨s⟩
  output := ⟨o⟩
  settings := (r.values.lookup .settings).map Path.mk
  nameSpace := r.values.lookup .nameSpace
  check := decide (.check ∈ r.switches)
  diff := decide (.diff ∈ r.switches)
  dryRun := decide (.dryRun ∈ r.switches)
  verbose := decide (.verbose ∈ r.switches)
  noColor := decide (.noColor ∈ r.switches)

theorem finish_eq_ok {r : ArgumentReader} {a : Arguments} (h : r.finish = .ok a) :
    ∃ p s o, r.values.lookup .primary = some p ∧ r.values.lookup .secondary = some s ∧
      r.values.lookup .output = some o ∧ a = r.arguments p s o ∧
      (a.check && a.dryRun) = false ∧ (a.diff && !a.check && !a.dryRun) = false := by
  unfold ArgumentReader.finish at h
  dsimp only at h
  split at h
  · cases h
  next hconflict =>
  split at h
  · next p s o hp hs ho =>
    split at h
    · cases h
    · next hdiff =>
      cases h
      rw [Bool.not_eq_true] at hconflict hdiff
      exact ⟨p, s, o, hp, hs, ho, rfl, hconflict, hdiff⟩
  · cases h

/-- With the check switch set, a reader finishes unless it has read the dry run. -/
theorem finish_checked {r : ArgumentReader} {p s o : Text} (hwaiting : r.waiting = none)
    (hp : r.values.lookup .primary = some p) (hs : r.values.lookup .secondary = some s)
    (ho : r.values.lookup .output = some o) :
    (({ r with switches := .check :: r.switches } : ArgumentReader).settle >>=
        ArgumentReader.finish) =
      if decide (Switch.dryRun ∈ r.switches) then .error .argumentsConflict
      else .ok { r.arguments p s o with check := true } := by
  have hsettle : ({ r with switches := .check :: r.switches } : ArgumentReader).settle =
      .ok { r with switches := .check :: r.switches } := by
    unfold ArgumentReader.settle
    rw [hwaiting]
  rw [hsettle]
  change ArgumentReader.finish _ = _
  unfold ArgumentReader.finish
  dsimp only
  rw [hp, hs, ho]
  by_cases hdryRun : Switch.dryRun ∈ r.switches
  · simp [hdryRun]
  · simp [hdryRun, ArgumentReader.arguments]

/-- Behind a command line that can be read, the check switch is one value too many, a conflict, or
the only difference. -/
theorem ofWords_append_check {ws : List Text} {a : Arguments} (h : Arguments.ofWords ws = .ok a) :
    Arguments.ofWords (ws ++ [checkWord]) =
      if dashes ∈ ws then .error .argumentUnknown
      else if a.check || a.dryRun then .error .argumentsConflict
      else .ok { a with check := true } := by
  obtain ⟨r, settled, hread, hsettle, hfinish⟩ := ofWords_eq_ok h
  obtain ⟨hsound, hflag⟩ := ArgumentReader.Sound.initial.foldlM hread
  obtain ⟨hsettled, hwaiting, -, hfree⟩ := hsound.settle hsettle
  obtain ⟨p, s, o, hp, hs, ho, ha, -, hdiff⟩ := finish_eq_ok hfinish
  have hlast : Arguments.ofWords (ws ++ [checkWord]) =
      (r.read checkWord >>= fun r => r.settle >>= ArgumentReader.finish) := by
    rw [Arguments.ofWords, List.foldlM_append, hread]
    change ((r.read checkWord >>= pure) >>= fun r => r.settle >>= ArgumentReader.finish) = _
    rw [bind_pure]
  rw [hlast, read_checkWord, hflag]
  by_cases hdashes : dashes ∈ ws
  · have hnone : r.free = [] := by
      rw [← hfree]
      refine hsettled.free_eq_nil ?_
      intro slot hslot
      have hcases : slot = .primary ∨ slot = .secondary ∨ slot = .output := by
        simpa [Slot.positional] using hslot
      rcases hcases with rfl | rfl | rfl
      · simp [hp]
      · simp [hs]
      · simp [ho]
    rw [if_pos hdashes, if_pos (by simpa using hdashes), ArgumentReader.positional, hnone]
    rfl
  · rw [if_neg hdashes, if_neg (by simpa using hdashes), ArgumentReader.named, hsettle]
    dsimp only
    have hcheck : a.check = decide (Switch.check ∈ settled.switches) := ha ▸ rfl
    have hdryRun : a.dryRun = decide (Switch.dryRun ∈ settled.switches) := ha ▸ rfl
    by_cases hagain : Switch.check ∈ settled.switches
    · rw [if_pos hagain, hcheck, decide_eq_true hagain]
      rfl
    · rw [if_neg hagain]
      have hchecked := finish_checked hwaiting hp hs ho
      rw [← ha, ← hdryRun] at hchecked
      rw [hcheck, decide_eq_false hagain, Bool.false_or]
      exact hchecked

/-- When it can be read with the check switch behind it, a command line asks for no check and no
dry run. -/
theorem eq_of_ofWords_append_check {ws : List Text} {a checked : Arguments}
    (h : Arguments.ofWords ws = .ok a)
    (hchecked : Arguments.ofWords (ws ++ [checkWord]) = .ok checked) :
    a.check = false ∧ a.dryRun = false ∧ checked = { a with check := true } := by
  rw [ofWords_append_check h] at hchecked
  split at hchecked
  · cases hchecked
  split at hchecked
  · cases hchecked
  · next hswitches =>
    have hnone : a.check = false ∧ a.dryRun = false := by simpa using hswitches
    exact ⟨hnone.1, hnone.2, (Except.ok.inj hchecked).symm⟩

end LuaReference
