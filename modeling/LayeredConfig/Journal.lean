import LayeredConfig.Document.Basic
import LayeredConfig.OrderedMap

/-!
# Journal

What a run reports about itself: records with a level, a message and fields. Every record carries
the trace that was bound when it was written. A run that fails keeps the records made so far.
-/

namespace LayeredConfig

inductive Level where
  | debug
  | info
  | error
  deriving DecidableEq, Repr

namespace Level

def name : Level → String
  | .debug => "DEBUG"
  | .info => "INFO"
  | .error => "ERROR"

/-- Higher levels are more severe. -/
def severity : Level → Nat
  | .debug => 10
  | .info => 20
  | .error => 40

end Level

inductive Threshold where
  | debug
  | info
  | warning
  | error
  | critical
  deriving DecidableEq, Repr

namespace Threshold

def severity : Threshold → Nat
  | .debug => 10
  | .info => 20
  | .warning => 30
  | .error => 40
  | .critical => 50

def ofName? : String → Option Threshold
  | "DEBUG" => some .debug
  | "INFO" => some .info
  | "WARNING" => some .warning
  | "ERROR" => some .error
  | "CRITICAL" => some .critical
  | _ => none

def admits (t : Threshold) (l : Level) : Bool := t.severity ≤ l.severity

end Threshold

abbrev Fields := OrderedMap String Document

namespace Fields

/-- The details of an event: its stage and path, and what else it says, which wins over both. -/
def event (stage : String) (path : Option String) (more : Fields) : Fields :=
  (OrderedMap.ofList [("stage", Document.str stage), ("path", Document.optional path)]).merge more

end Fields

structure Event where
  level : Level
  message : String
  fields : Fields

/-- An event with the trace that was bound when it was reported. -/
structure Record where
  trace : Option String
  event : Event

/-- A record's fields as listeners see them, the trace among them. -/
def Record.context (r : Record) : Fields :=
  (OrderedMap.singleton "trace_id" (Document.optional r.trace)).merge r.event.fields

structure Journal where
  trace : Option String := none
  records : List Record := []

namespace Journal

def record (j : Journal) (e : Event) : Journal :=
  { j with records := j.records ++ [⟨j.trace, e⟩] }

def heard (j : Journal) (t : Threshold) : List Record :=
  j.records.filter fun r => t.admits r.event.level

end Journal

/-- A computation that may fail and writes a journal, which survives the failure. -/
abbrev Run := ExceptT Failure (StateM Journal)

namespace Run

def bindTrace (trace : Option String) : Run Unit :=
  modify fun j => { j with trace }

def report (level : Level) (message stage : String) (path : Option String)
    (more : List (String × Document)) : Run Unit :=
  modify (·.record ⟨level, message, Fields.event stage path (OrderedMap.ofList more)⟩)

def ofExcept {α : Type} (x : Except Failure α) : Run α :=
  ExceptT.mk (pure x)

/-- The computation with the outcome as a value and the journal after it. -/
def start {α : Type} (x : Run α) (j : Journal) : Except Failure α × Journal :=
  (ExceptT.run x).run j

end Run

end LayeredConfig
