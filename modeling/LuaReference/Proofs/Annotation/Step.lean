import LuaReference.Annotation.Scan

/-!
# What one line does

A line of an open block either opens a part of it (it names an entity, or the owner of a new
member), or goes to what the last opening line selected. `Kind.openPart` and `Cursor.fill` are
the two effects, free of file, line number and events. `record_recorder` and `record_fault` say that
recording a line does nothing else, and when it fails.
-/

namespace LuaReference

/-! ### Opening lines -/

/-- Whether a line opens a part of a block of this kind. -/
def Kind.opens : Kind → Text → Bool
  | table, line | ofClass, line | nameSpace, line => tagged "name" line
  | field, line | function, line => tagged "table" line || tagged "class" line
  | constructor, line => tagged "class" line

/-- The table or class that an owner line names, and the registry that has it. -/
def Registry.ownerEntry (r : Registry) (line : Text) : Registry × Holder :=
  if tagged "table" line then
    ((r.tableEntry (tagValue line)).1, .tableAt (r.tableEntry (tagValue line)).2)
  else ((r.classEntry (tagValue line)).1, .classAt (r.classEntry (tagValue line)).2)

/-- What an opening line does: the entity or new member that it selects is where the following
lines go. -/
def Kind.openPart (k : Kind) (r : Registry) (line : Text) : Recorder :=
  match k with
  | table => ⟨(r.tableEntry (tagValue line)).1, .table (some (r.tableEntry (tagValue line)).2)⟩
  | ofClass =>
    ⟨(r.classEntry (tagValue line)).1, .ofClass (some (r.classEntry (tagValue line)).2)⟩
  | field =>
    let owner := r.ownerEntry line
    ⟨(owner.1.addField owner.2).1, .field (some (owner.1.addField owner.2).2)⟩
  | constructor =>
    let c := r.classEntry (tagValue line)
    ⟨(c.1.addConstructor c.2).1, .constructor (some (c.2, (c.1.addConstructor c.2).2))⟩
  | function =>
    let owner := r.ownerEntry line
    ⟨(owner.1.addFunction owner.2).1, .function (some (owner.1.addFunction owner.2).2)⟩
  | nameSpace => ⟨r.setNameSpace (tagValue line), .nameSpace⟩

/-! ### Other lines -/

/-- What a line that opens nothing does to the entity or member that is selected. -/
def Cursor.fill (c : Cursor) (r : Registry) (line : Text) : Registry :=
  match c with
  | table (some i) => r.modifyTable i (Recorder.extendTable line)
  | ofClass (some i) => r.modifyClass i (Recorder.extendClass line)
  | field (some p) => r.modifyField p (Recorder.extendField line)
  | constructor (some (i, j)) => r.modifyConstructor i j (Recorder.extendConstructor line)
  | function (some p) =>
    if tagged "name" line then
      (r.recordName (tagValue line) p).modifyFunction p (Recorder.nameFunction line)
    else r.modifyFunction p (Recorder.extendFunction line)
  | _ => r

/-- A filling line leaves the registry alone or changes the entity or member that is selected. -/
theorem Cursor.fill_keeps {P : Registry → Prop} {c : Cursor} {r : Registry} {line : Text}
    (h : P r)
    (table : ∀ i, c = .table (some i) → P (r.modifyTable i (Recorder.extendTable line)))
    (ofClass : ∀ i, c = .ofClass (some i) → P (r.modifyClass i (Recorder.extendClass line)))
    (field : ∀ p, c = .field (some p) → P (r.modifyField p (Recorder.extendField line)))
    (constructor : ∀ i j, c = .constructor (some (i, j)) →
      P (r.modifyConstructor i j (Recorder.extendConstructor line)))
    (name : ∀ p, c = .function (some p) → P ((r.recordName (tagValue line) p).modifyFunction p
      (Recorder.nameFunction line)))
    (function : ∀ p, c = .function (some p) →
      P (r.modifyFunction p (Recorder.extendFunction line))) : P (c.fill r line) := by
  unfold Cursor.fill
  split
  · exact table _ rfl
  · exact ofClass _ rfl
  · exact field _ rfl
  · exact constructor _ _ rfl
  · split
    · exact name _ rfl
    · exact function _ rfl
  · exact h

/-- The kind of block that a line comes too early in: it opens nothing, and nothing is
selected. -/
def Recorder.early? (r : Recorder) (line : Text) : Option Kind :=
  match r.cursor.kind? with
  | none => none
  | some k =>
    if k.opens line = false ∧ r.cursor = .start k ∧ k ≠ .nameSpace then some k else none

def Recorder.after (r : Recorder) (line : Text) : Recorder :=
  match r.cursor.kind? with
  | none => r
  | some k =>
    if k.opens line then k.openPart r.registry line
    else { r with registry := r.cursor.fill r.registry line }

namespace Recorder

/-! ### A comment line -/

/-- Outside any block nothing is selected, so nothing is filled there. -/
theorem after_cases (r : Recorder) (line : Text) :
    (∃ k, r.after line = Kind.openPart k r.registry line) ∨
      r.after line = { r with registry := r.cursor.fill r.registry line } := by
  unfold after
  cases hk : r.cursor.kind? with
  | some k =>
    by_cases ho : k.opens line = true
    · exact Or.inl ⟨k, if_pos ho⟩
    · exact Or.inr (if_neg ho)
  | none =>
    obtain ⟨registry, cursor⟩ := r
    cases cursor <;> first | exact Or.inr rfl | cases hk

theorem holderOf?_eq (r : Registry) (line : Text) :
    holderOf? r line =
      if tagged "table" line || tagged "class" line then some (r.ownerEntry line) else none := by
  by_cases ht : tagged "table" line = true
  · simp [holderOf?, Registry.ownerEntry, ht]
  · by_cases hc : tagged "class" line = true <;> simp [holderOf?, Registry.ownerEntry, ht, hc]

/-- What a line does to the recorder, and when it fails: the two halves of one case split. -/
def Agrees (file : Path) (number : Nat) (line : Text) (r : Recorder) (done : Recorded) : Prop :=
  done.recorder = r.after line ∧ done.fault = (r.early? line).map (.ownerMissing · file number)

section
variable (registry : Registry) (file : Path) (number : Nat) (line : Text)

theorem recordTable_agrees (current : Option Nat) :
    Agrees file number line ⟨registry, .table current⟩
      (recordTable ⟨registry, .table current⟩ current file number line) := by
  by_cases h : tagged "name" line = true
  · simp [Agrees, recordTable, after, early?, Cursor.kind?, Kind.opens, Kind.openPart, h]
  · cases current <;>
      simp [Agrees, recordTable, refuse, after, early?, Cursor.kind?, Cursor.start, Cursor.fill,
        Kind.opens, h]

theorem recordClass_agrees (current : Option Nat) :
    Agrees file number line ⟨registry, .ofClass current⟩
      (recordClass ⟨registry, .ofClass current⟩ current file number line) := by
  by_cases h : tagged "name" line = true
  · simp [Agrees, recordClass, after, early?, Cursor.kind?, Kind.opens, Kind.openPart, h]
  · cases current <;>
      simp [Agrees, recordClass, refuse, after, early?, Cursor.kind?, Cursor.start, Cursor.fill,
        Kind.opens, h]

theorem recordField_agrees (current : Option Place) :
    Agrees file number line ⟨registry, .field current⟩
      (recordField ⟨registry, .field current⟩ current file number line) := by
  cases h : tagged "table" line || tagged "class" line with
  | true =>
    simp [Agrees, recordField, holderOf?_eq, after, early?, Cursor.kind?, Kind.opens,
      Kind.openPart, h]
  | false =>
    cases current <;>
      simp [Agrees, recordField, holderOf?_eq, refuse, after, early?, Cursor.kind?, Cursor.start,
        Cursor.fill, Kind.opens, h]

theorem recordConstructor_agrees (current : Option (Nat × Nat)) :
    Agrees file number line ⟨registry, .constructor current⟩
      (recordConstructor ⟨registry, .constructor current⟩ current file number line) := by
  by_cases h : tagged "class" line = true
  · simp [Agrees, recordConstructor, after, early?, Cursor.kind?, Kind.opens, Kind.openPart, h]
  · cases current <;>
      simp [Agrees, recordConstructor, refuse, after, early?, Cursor.kind?, Cursor.start,
        Cursor.fill, Kind.opens, h]

theorem recordFunction_agrees (current : Option Place) :
    Agrees file number line ⟨registry, .function current⟩
      (recordFunction ⟨registry, .function current⟩ current file number line) := by
  cases h : tagged "table" line || tagged "class" line with
  | true =>
    simp [Agrees, recordFunction, holderOf?_eq, after, early?, Cursor.kind?, Kind.opens,
      Kind.openPart, h]
  | false =>
    cases current with
    | none =>
      simp [Agrees, recordFunction, holderOf?_eq, refuse, after, early?, Cursor.kind?,
        Cursor.start, Cursor.fill, Kind.opens, h]
    | some p =>
      by_cases hn : tagged "name" line = true <;>
        simp [Agrees, recordFunction, holderOf?_eq, after, early?, Cursor.kind?, Cursor.start,
          Cursor.fill, Kind.opens, h, hn]

theorem recordNameSpace_agrees :
    Agrees file number line ⟨registry, .nameSpace⟩
      (recordNameSpace ⟨registry, .nameSpace⟩ line) := by
  by_cases h : tagged "name" line = true <;>
    simp [Agrees, recordNameSpace, after, early?, Cursor.kind?, Cursor.fill, Kind.opens,
      Kind.openPart, h]

end

theorem record_agrees (r : Recorder) (file : Path) (number : Nat) (line : Text) :
    Agrees file number line r (r.record file number line) := by
  obtain ⟨registry, cursor⟩ := r
  cases cursor with
  | outside => exact ⟨rfl, rfl⟩
  | table current => exact recordTable_agrees registry file number line current
  | ofClass current => exact recordClass_agrees registry file number line current
  | field current => exact recordField_agrees registry file number line current
  | constructor current => exact recordConstructor_agrees registry file number line current
  | function current => exact recordFunction_agrees registry file number line current
  | nameSpace => exact recordNameSpace_agrees registry file number line

/-- A comment line opens a part of its block, or fills what is selected. -/
theorem record_recorder (r : Recorder) (file : Path) (number : Nat) (line : Text) :
    (r.record file number line).recorder = r.after line :=
  (record_agrees r file number line).1

/-- A comment line fails exactly when it comes before the owner of its block. -/
theorem record_fault (r : Recorder) (file : Path) (number : Nat) (line : Text) :
    (r.record file number line).fault = (r.early? line).map (.ownerMissing · file number) :=
  (record_agrees r file number line).2

end Recorder

end LuaReference
