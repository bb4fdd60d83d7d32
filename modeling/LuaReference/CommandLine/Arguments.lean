import LuaReference.Path

/-!
# Arguments of the command line

Arguments are read from left to right. A value waits until the next argument shows that nothing
belongs to it any more, and only then it is checked; so an unknown argument is reported before a
value in front of it that is not allowed. Requirements between arguments are checked at the end,
conflicts first.
-/

namespace LuaReference

inductive Switch where
  | check
  | diff
  | dryRun
  | verbose
  | noColor
  deriving DecidableEq

/-- Arguments that take a value; the first three are told apart by their position. -/
inductive Slot where
  | primary
  | secondary
  | output
  | settings
  | nameSpace
  deriving DecidableEq

inductive Usage where
  | argumentMissing
  | argumentUnknown
  /-- Two arguments exclude each other, or one is given twice. -/
  | argumentsConflict
  | valueInvalid
  | valueUnneeded
  | helpAsked
  | versionAsked
  deriving DecidableEq

namespace Slot

def positional : List Slot := [primary, secondary, output]

def isPath : Slot → Bool
  | nameSpace => false
  | _ => true

end Slot

inductive ArgumentName where
  | switch (s : Switch)
  | slot (s : Slot)
  | asks (u : Usage)
  deriving DecidableEq

namespace ArgumentName

def ofLong? (name : Text) : Option ArgumentName :=
  match String.ofList name with
  | "check" => some (.switch .check)
  | "diff" => some (.switch .diff)
  | "dry-run" => some (.switch .dryRun)
  | "verbose" => some (.switch .verbose)
  | "no-color" => some (.switch .noColor)
  | "config" => some (.slot .settings)
  | "namespace" => some (.slot .nameSpace)
  | "help" => some (.asks .helpAsked)
  | "version" => some (.asks .versionAsked)
  | _ => none

def ofShort? : Char → Option ArgumentName
  | 'v' => some (.switch .verbose)
  | 'h' => some (.asks .helpAsked)
  | 'V' => some (.asks .versionAsked)
  | _ => none

end ArgumentName

structure ArgumentReader where
  switches : List Switch := []
  values : List (Slot × Text) := []
  /-- The slot that waits, with its value unless that is still to come. -/
  waiting : Option (Slot × Option Text) := none
  free : List Slot := Slot.positional
  positionalOnly : Bool := false
  deriving DecidableEq

namespace ArgumentReader

/-- The value that waits checked and stored. -/
def settle (r : ArgumentReader) : Except Usage ArgumentReader :=
  match r.waiting with
  | none => .ok r
  | some (_, none) => .error .valueInvalid
  | some (slot, some value) =>
    if (r.values.lookup slot).isSome then .error .argumentsConflict
    else if slot.isPath ∧ value = [] then .error .valueInvalid
    else .ok { r with values := (slot, value) :: r.values, waiting := none }

/-- A named argument without a value of its own. -/
def named (r : ArgumentReader) (n : ArgumentName) : Except Usage ArgumentReader :=
  match r.settle with
  | .error u => .error u
  | .ok r =>
    match n with
    | .slot s => .ok { r with waiting := some (s, none) }
    | .asks u => .error u
    | .switch s =>
      if s ∈ r.switches then .error .argumentsConflict
      else .ok { r with switches := s :: r.switches }

/-- An argument behind two dashes, with what follows its equals sign. -/
def long (r : ArgumentReader) (name : Text) (value : Option Text) :
    Except Usage ArgumentReader :=
  match ArgumentName.ofLong? name, value with
  | none, _ => .error .argumentUnknown
  | some n, none => r.named n
  | some (.slot s), some v => do
    let r ← r.named (.slot s)
    { r with waiting := some (s, some v) }.settle
  | some _, some _ => .error .valueUnneeded

def short (r : ArgumentReader) : Text → Except Usage ArgumentReader
  | [] => .ok r
  | c :: cs =>
    match ArgumentName.ofShort? c with
    | none => .error .argumentUnknown
    | some n => do
      let r ← r.named n
      r.short cs

def positional (r : ArgumentReader) (value : Text) : Except Usage ArgumentReader :=
  match r.free with
  | [] => .error .argumentUnknown
  | slot :: free => r.settle.map fun r => { r with waiting := some (slot, some value), free := free }

/-- An argument that is no name: the value that is waited for, or a positional one. -/
def value (r : ArgumentReader) (t : Text) : Except Usage ArgumentReader :=
  match r.waiting with
  | some (slot, none) => .ok { r with waiting := some (slot, some t) }
  | _ => r.positional t

def read (r : ArgumentReader) (t : Text) : Except Usage ArgumentReader :=
  if r.positionalOnly then r.positional t
  else match t with
    | ['-', '-'] => .ok { r with positionalOnly := true }
    | '-' :: '-' :: name =>
      match Text.splitFirst '=' name with
      | none => r.long name none
      | some (name, v) => r.long name (some v)
    | '-' :: c :: cs => r.short (c :: cs)
    | t => r.value t

end ArgumentReader

structure Arguments where
  primary : Path
  secondary : Path
  output : Path
  settings : Option Path := none
  nameSpace : Option Text := none
  check : Bool := false
  diff : Bool := false
  dryRun : Bool := false
  verbose : Bool := false
  noColor : Bool := false
  deriving DecidableEq

/-- The arguments that were read, unless some exclude each other or a required one is missing. A
difference needs a comparison, or a dry run, which excludes the comparison. -/
def ArgumentReader.finish (r : ArgumentReader) : Except Usage Arguments :=
  let has (s : Switch) : Bool := decide (s ∈ r.switches)
  if has .check && has .dryRun then .error .argumentsConflict
  else match r.values.lookup .primary, r.values.lookup .secondary, r.values.lookup .output with
    | some p, some s, some o =>
      if has .diff && !has .check && !has .dryRun then .error .argumentMissing
      else .ok {
        primary := ⟨p⟩
        secondary := ⟨s⟩
        output := ⟨o⟩
        settings := (r.values.lookup .settings).map Path.mk
        nameSpace := r.values.lookup .nameSpace
        check := has .check
        diff := has .diff
        dryRun := has .dryRun
        verbose := has .verbose
        noColor := has .noColor }
    | _, _, _ => .error .argumentMissing

def Arguments.ofWords (ws : List Text) : Except Usage Arguments := do
  let r ← ws.foldlM ArgumentReader.read {}
  let r ← r.settle
  r.finish

end LuaReference
