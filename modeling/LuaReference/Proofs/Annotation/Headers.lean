import LuaReference.Proofs.Annotation.Comments
import LuaReference.Proofs.Annotation.Failure
import LuaReference.Proofs.Annotation.Refusal
import LuaReference.Proofs.Text.Values

/-!
# Headers under any identifier

A header is found by the identifier anywhere in its lower case, while the kind is what stands
behind its first separator. So `// identifier: kind` opens a block of that kind under every
identifier without separator, in any letter case of the kind and whatever sigmas the identifier
ends in; behind an identifier with a separator the kind is not found: `identifierLine_opens`.
-/

namespace LuaReference

/-- The header that names a kind behind an identifier. -/
def identifierLine (identifier word : Text) : Text :=
  "// ".toList ++ (identifier ++ tagMark :: ' ' :: word)

/-- Whether a word is that of a kind, in any letter case. -/
def Kind.Spelled (k : Kind) (word : Text) : Prop := word.map Char.toLower = k.word

instance (k : Kind) (word : Text) : Decidable (k.Spelled word) :=
  inferInstanceAs (Decidable (_ = _))

/-! ### Words of kinds -/

namespace Kind.Spelled

variable {k : Kind} {word : Text}

theorem toLower_mem (h : k.Spelled word) {c : Char} (hc : c ∈ word) : c.toLower ∈ k.word :=
  h ▸ List.mem_map_of_mem hc

theorem ascii (h : k.Spelled word) : ∀ c ∈ word, c.toNat < 0x80 := by
  have hword : k.word.all (fun c => decide (c.toNat < 0x80)) = true := by cases k <;> decide
  intro c hc
  exact Text.toNat_lt_of_toLower (of_decide_eq_true (List.all_eq_true.1 hword _ (h.toLower_mem hc)))

theorem lower (h : k.Spelled word) : word.lower = k.word := by
  rw [Text.lower_ascii h.ascii, h]

theorem not_isBlank (h : k.Spelled word) : ∀ c ∈ word, isBlank c = false := by
  have hall : ∀ n < 0x80, isBlank (Char.ofNat n) = true → (Char.ofNat n).toLower ∉ k.word := by
    cases k <;> decide +kernel
  intro c hc
  have hchar := hall c.toNat (h.ascii c hc)
  rw [Char.ofNat_toNat] at hchar
  rw [← Bool.not_eq_true]
  exact fun hblank => hchar hblank (h.toLower_mem hc)

theorem ne_nil (h : k.Spelled word) : word ≠ [] := by
  rintro rfl
  cases k <;> cases h

end Kind.Spelled

/-! ### The line -/

variable {k : Kind} {identifier word : Text}

theorem trim_identifierLine (h : k.Spelled word) :
    (identifierLine identifier word).trim = identifierLine identifier word := by
  rw [Text.trim_eq_self_iff, Text.trimStart_eq_self_iff, Text.trimEnd_eq_self_iff]
  constructor
  · intro c hc
    obtain rfl := Option.some.inj hc
    rfl
  · intro c hc
    refine h.not_isBlank c (List.mem_of_getLast? ?_)
    rw [← hc, identifierLine, ← List.append_assoc, List.append_cons, List.append_cons,
      List.getLast?_append_of_ne_nil _ h.ne_nil]

theorem isHeader_identifierLine (s : Settings) (word : Text) :
    isHeader s (identifierLine s.identifier word).lower = true := by
  -- the blank in front and the separator behind leave the sigmas of the identifier as they are
  have hbehind : Text.meetsCased (tagMark :: ' ' :: word) = false := by
    rw [Text.meetsCased_cons, if_pos (by decide), Text.meetsCased_cons, if_neg (by decide)]
    decide
  have hidentifier : s.identifier.lower <:+: (identifierLine s.identifier word).lower :=
    Text.lower_infix_lower (by decide) hbehind s.identifier
  have htagMark : tagMark ∈ (identifierLine s.identifier word).lower := by
    rw [Text.mem_lower_iff (by decide), identifierLine]
    simp
  have hcommentMark : commentMark <:+: identifierLine s.identifier word :=
    (List.prefix_append commentMark _).isInfix
  rw [isHeader, Text.contains_iff.2 hidentifier, decide_eq_true htagMark,
    contains_lower_commentMark, Text.contains_iff.2 hcommentMark]
  rfl

/-- A text with a separator is no word of a kind. -/
theorem ofText?_of_tagMark_mem {value : Text} (h : tagMark ∈ value) : Kind.ofText? value = none := by
  rw [Option.eq_none_iff_forall_ne_some]
  intro k hk
  have hlower : tagMark ∈ value.trim.lower :=
    (Text.mem_lower_iff (by decide)).2 (Text.mem_trim (by decide) h)
  rw [Kind.ofText?_eq_some_iff.1 hk] at hlower
  exact absurd hlower (by cases k <;> decide)

theorem headerKind?_identifierLine (h : k.Spelled word) (identifier : Text) :
    headerKind? (identifierLine identifier word) =
      if tagMark ∈ identifier then none else some k := by
  have hlead : tagMark ∉ "// ".toList := by decide
  cases hsplit : Text.splitFirst tagMark identifier with
  | none =>
    have hmark := Text.splitFirst_eq_none_iff.1 hsplit
    have hline := Text.splitFirst_append_cons (List.not_mem_append hlead hmark) (' ' :: word)
    rw [List.append_assoc] at hline
    rw [if_neg hmark, headerKind?, Kind.ofText?_eq_some_iff, Text.behindFirst, identifierLine,
      hline, Text.trim_cons_of_isBlank (by decide), Text.trim_of_forall h.not_isBlank, h.lower]
  | some parts =>
    obtain ⟨front, rest⟩ := parts
    obtain ⟨rfl, hfront⟩ := Text.splitFirst_eq_some_iff.1 hsplit
    have hmark : tagMark ∈ front ++ tagMark :: rest := by simp
    have hline := Text.splitFirst_append_cons (List.not_mem_append hlead hfront)
      (rest ++ tagMark :: ' ' :: word)
    have hassoc : identifierLine (front ++ tagMark :: rest) word =
        "// ".toList ++ front ++ tagMark :: (rest ++ tagMark :: ' ' :: word) := by
      simp [identifierLine]
    rw [if_pos hmark, headerKind?, hassoc, Text.behindFirst, hline]
    exact ofText?_of_tagMark_mem (by simp)

theorem read_identifierLine (h : k.Spelled word) (s : Settings) (file : Path) (r : Recorder)
    (number : Nat) :
    r.read s file number (identifierLine s.identifier word) =
      if tagMark ∈ s.identifier then
        { recorder := r,
          fault := some (.unknownKind (headerWord (identifierLine s.identifier word)) file number) }
      else { recorder := r.begin k } := by
  rw [Recorder.read, if_pos (isHeader_identifierLine s word), headerKind?_identifierLine h]
  by_cases hmark : tagMark ∈ s.identifier
  · rw [if_pos hmark, if_pos hmark]
  · rw [if_neg hmark, if_neg hmark]

/-! ### A source with the line -/

/-- A line opens a block of a kind: reading up to it does not fail, finds one block more than the
lines before it have, and leaves the recorder at the start of a block of that kind. -/
structure OpensAt (s : Settings) (file : Path) (content : Text) (r : Registry) (i : Nat)
    (k : Kind) : Prop where
  fault : (scan s file (content.firstLines (i + 1)) r).fault = none
  recorder : (scan s file (content.firstLines (i + 1)) r).recorder =
    (scan s file (content.firstLines i) r).recorder.begin k
  blocks : (scan s file (content.firstLines (i + 1)) r).blocks =
    (scan s file (content.firstLines i) r).blocks + 1

variable {s : Settings} {file : Path} {content : Text} {r : Registry} {i : Nat}

/-- What the first lines of a source up to the header give, when those before it do not fail. -/
theorem scan_firstLines_identifierLine (hword : k.Spelled word)
    (hline : (sourceLines content)[i]? = some (identifierLine s.identifier word).trim)
    (hreached : (scan s file (content.firstLines i) r).fault = none) :
    if tagMark ∈ s.identifier then
      (scan s file (content.firstLines (i + 1)) r).fault =
        some (.unknownKind (headerWord (identifierLine s.identifier word)) file (i + 1))
    else OpensAt s file content r i k := by
  rw [trim_identifierLine hword] at hline
  have hstep := scanLines_take_succ s file 1 { registry := r } hline
  rw [scan_fault, sourceLines_firstLines] at hreached
  rw [Scan.andThen_of_none hreached, scanLines, read_identifierLine hword,
    if_pos (isHeader_identifierLine s word)] at hstep
  split
  · next hmark =>
    rw [if_pos hmark] at hstep
    rw [scan_fault, sourceLines_firstLines, hstep, Nat.add_comm]
  · next hmark =>
    rw [if_neg hmark] at hstep
    refine ⟨?_, ?_, ?_⟩
    · rw [scan_fault, sourceLines_firstLines, hstep]
      rfl
    · rw [scan_recorder, scan_recorder, sourceLines_firstLines, sourceLines_firstLines, hstep]
      rfl
    · rw [scan_blocks, scan_blocks, sourceLines_firstLines, sourceLines_firstLines, hstep]
      rfl

/-- A header behind an identifier without separator never fails, and opens a block of its kind if
the lines before it do not fail. Behind an identifier with a separator the kind is cut off at that
separator, and the source fails there. -/
theorem identifierLine_opens (hword : k.Spelled word)
    (hline : (sourceLines content)[i]? = some (identifierLine s.identifier word).trim) :
    (tagMark ∉ s.identifier →
        ∀ w, (scan s file content r).fault ≠ some (.unknownKind w file (i + 1))) ∧
      ((scan s file (content.firstLines i) r).fault = none →
        (OpensAt s file content r i k ↔ tagMark ∉ s.identifier) ∧
        (tagMark ∈ s.identifier → (scan s file content r).fault =
          some (.unknownKind (headerWord (identifierLine s.identifier word)) file (i + 1)))) := by
  constructor
  · intro hmark w hfault
    -- the first line that fails would be this one, for want of a kind that it has
    obtain ⟨j, hj, -⟩ := scan_fault_iff_firstFault.1 hfault
    cases faultAt?_eq_some_iff.1 hj with
    | @unknownKind _ line hfails _ hkind =>
      rw [hline, trim_identifierLine hword, Option.some.injEq] at hfails
      subst hfails
      have hnone := headerKind?_eq_none_iff.2 hkind
      rw [headerKind?_identifierLine hword, if_neg hmark] at hnone
      cases hnone
  · intro hreached
    have hfirst := scan_firstLines_identifierLine hword hline hreached
    constructor
    · constructor
      · intro hopens hmark
        rw [if_pos hmark, hopens.fault] at hfirst
        cases hfirst
      · intro hmark
        rwa [if_neg hmark] at hfirst
    · intro hmark
      rw [if_pos hmark, scan_fault, sourceLines_firstLines] at hfirst
      rw [scan_fault]
      exact scanLines_fault_of_take hfirst

/-- Settings with an identifier that ends in a sigma. -/
def logosSettings : Settings := { identifier := "ΛΌΓΟΣ".toList }

def logosSource : Text := "int a;\n\t// ΛΌΓΟΣ: cLASS\n// Name: A\n".toList

theorem identifierLine_opens_logosSource :
    Kind.Spelled .ofClass "cLASS".toList ∧
      (sourceLines logosSource)[1]? =
        some (identifierLine logosSettings.identifier "cLASS".toList).trim ∧
      (scan logosSettings sampleFile (logosSource.firstLines 1) {}).fault = none ∧
      tagMark ∉ logosSettings.identifier ∧
      (∀ w, (scan logosSettings sampleFile logosSource {}).fault ≠
        some (.unknownKind w sampleFile 2)) ∧
      OpensAt logosSettings sampleFile logosSource {} 1 .ofClass := by
  have hword : Kind.Spelled .ofClass "cLASS".toList := by decide
  have hline : (sourceLines logosSource)[1]? =
      some (identifierLine logosSettings.identifier "cLASS".toList).trim := by decide +kernel
  have hreached : (scan logosSettings sampleFile (logosSource.firstLines 1) {}).fault = none := by
    decide +kernel
  have hmark : tagMark ∉ logosSettings.identifier := by decide
  exact ⟨hword, hline, hreached, hmark, (identifierLine_opens hword hline).1 hmark,
    ((identifierLine_opens hword hline).2 hreached).1.2 hmark⟩

/-- Settings with a separator in the identifier. -/
def colonSettings : Settings := { identifier := "lua:api".toList }

def colonSource : Text := "// lua:api: Table\n// Name: t\n".toList

/-- The kind behind an identifier with a separator is not found. -/
theorem colonSource_refused :
    colonSettings.identifier ≠ [] ∧ colonSettings.identifier.trim = colonSettings.identifier ∧
      '\n' ∉ colonSettings.identifier ∧ Kind.Spelled .table "Table".toList ∧
      colonSource.lines[0]? = some (identifierLine colonSettings.identifier "Table".toList) ∧
      (scan colonSettings sampleFile colonSource {}).fault =
        some (.unknownKind "api: Table".toList sampleFile 1) ∧
      ¬ OpensAt colonSettings sampleFile colonSource {} 0 .table := by
  have hfault : (scan colonSettings sampleFile colonSource {}).fault =
      some (.unknownKind "api: Table".toList sampleFile 1) := by decide +kernel
  refine ⟨by decide, by decide +kernel, by decide, by decide, by decide +kernel, hfault, ?_⟩
  exact fun hopens => absurd hopens.fault (by decide +kernel)

end LuaReference
