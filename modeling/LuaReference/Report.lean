import LuaReference.Event
import LuaReference.Fault
import LuaReference.Files.Tree

/-!
# Reports and jobs

Work ends with a result or a fault, and leaves notices behind: events, details, and text for the
user.
A `Report` is work that reads at most; a `Job` is work that may also change a file tree. Notices
and changes made before a fault stay.
-/

namespace LuaReference

inductive Notice where
  | event (e : Event)
  /-- A line about how the work is done, for the log of a run that is followed closely. -/
  | detail (t : Text)
  | output (t : Text)
  | complaint (t : Text)
  deriving DecidableEq

def Notice.event? : Notice → Option Event
  | event e => some e
  | _ => none

structure Report (α : Type) where
  notices : List Notice := []
  result : Except Fault α

namespace Report

def events {α : Type} (r : Report α) : List Event := r.notices.filterMap Notice.event?

def done {α : Type} (a : α) : Report α := ⟨[], .ok a⟩

def failed {α : Type} (f : Fault) : Report α := ⟨[], .error f⟩

def note (n : Notice) : Report Unit := ⟨[n], .ok ()⟩

def log (es : List Event) : Report Unit := ⟨es.map .event, .ok ()⟩

def ofFiles {α : Type} : Except Refusal α → Report α
  | .ok a => done a
  | .error why => failed (.refused why)

/-- Work and, unless it fails, more work on its result. -/
def andThen {α β : Type} (r : Report α) (f : α → Report β) : Report β :=
  match r.result with
  | .error e => ⟨r.notices, .error e⟩
  | .ok a => ⟨r.notices ++ (f a).notices, (f a).result⟩

instance : Monad Report where
  pure := done
  bind := andThen

end Report

def Job (α : Type) : Type := FileTree → FileTree × Report α

namespace Job

def reading {α : Type} (f : FileTree → Report α) : Job α := fun t => (t, f t)

/-- A change of the tree that is made as a whole or refused. -/
def change (f : FileTree → Except Refusal FileTree) : Job Unit := fun t =>
  match f t with
  | .ok made => (made, .done ())
  | .error why => (t, .failed (.refused why))

/-- A change of the tree that may be refused half way. -/
def changes (f : FileTree → FileTree × Except Refusal Unit) : Job Unit := fun t =>
  ((f t).1, .ofFiles (f t).2)

def note (n : Notice) : Job Unit := reading fun _ => .note n

/-- Work and, unless it fails, more work on its result and on the tree that it left. -/
def andThen {α β : Type} (j : Job α) (f : α → Job β) : Job β := fun t =>
  match j t with
  | (made, ⟨notices, .error e⟩) => (made, ⟨notices, .error e⟩)
  | (made, ⟨notices, .ok a⟩) =>
    let (last, report) := f a made
    (last, ⟨notices ++ report.notices, report.result⟩)

instance : Monad Job where
  pure a := reading fun _ => .done a
  bind := andThen

def each {α : Type} (f : α → Job Unit) : List α → Job Unit
  | [] => pure ()
  | a :: as => do
    f a
    each f as

end Job

end LuaReference
