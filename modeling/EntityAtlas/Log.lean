/-!
# Log

What a run reports beside its result: entries with a severity and the name of the part that speaks, in order. A logged
value is a value together with the entries written while it was found. Work may be stopped where a source is nested too
deep for the machine; no part of the work catches that.
-/

namespace EntityAtlas

/-- How serious a log entry is, in ascending order. -/
inductive Severity where
  | debug
  | info
  | warning
  | error
  deriving DecidableEq, Repr

namespace Severity

/-- The word that a log line begins with. -/
def label : Severity → String
  | .debug => "DEBUG"
  | .info => "INFO"
  | .warning => "WARNING"
  | .error => "ERROR"

/-- The place in the ascending order. -/
def rank : Severity → Nat
  | .debug => 0
  | .info => 1
  | .warning => 2
  | .error => 3

end Severity

structure LogEntry where
  severity : Severity
  speaker : String
  message : String
  deriving DecidableEq, Repr

def LogEntry.line (e : LogEntry) : String :=
  e.severity.label ++ " " ++ e.speaker ++ ": " ++ e.message

/-- What stops all work: the declarations of a source lie too deep inside one another. -/
structure Overflow where
  source : String
  deriving DecidableEq, Repr

/-- The wording of what stopped the work. -/
def Overflow.message (_ : Overflow) : String := "maximum recursion depth exceeded in comparison"

/-- A value, the log entries written while it was found, and what stopped the work, if anything did. Stopped work gives
nothing and writes nothing more; its value is what it would have come to. -/
structure Logged (α : Type) where
  value : α
  log : List LogEntry
  stop : Option Overflow
  deriving Repr

namespace Logged

instance : Monad Logged where
  pure a := ⟨a, [], none⟩
  bind x f :=
    ⟨(f x.value).value, if x.stop.isSome then x.log else x.log ++ (f x.value).log, x.stop.or (f x.value).stop⟩

@[simp] theorem value_pure {α : Type} (a : α) : (pure a : Logged α).value = a := rfl

@[simp] theorem value_bind {α β : Type} (x : Logged α) (f : α → Logged β) :
    (x >>= f).value = (f x.value).value := rfl

@[simp] theorem stop_pure {α : Type} (a : α) : (pure a : Logged α).stop = none := rfl

@[simp] theorem stop_bind {α β : Type} (x : Logged α) (f : α → Logged β) :
    (x >>= f).stop = x.stop.or (f x.value).stop := rfl

def write (severity : Severity) (speaker message : String) : Logged Unit :=
  ⟨(), [⟨severity, speaker, message⟩], none⟩

@[simp] theorem stop_write (severity : Severity) (speaker message : String) :
    (write severity speaker message).stop = none := rfl

/-- Stop the work. -/
def stopWith (overflow : Overflow) : Logged Unit :=
  ⟨(), [], some overflow⟩

/-- The value that was found, unless the work was stopped. -/
def outcome {α : Type} (x : Logged α) : Logged (Except Overflow α) :=
  { x with value := match x.stop with
    | some overflow => .error overflow
    | none => .ok x.value }

theorem value_outcome_of_stop {α : Type} {x : Logged α} {overflow : Overflow} (stopped : x.stop = some overflow) :
    x.outcome.value = .error overflow := by
  simp [outcome, stopped]

theorem value_outcome_of_through {α : Type} {x : Logged α} (through : x.stop = none) :
    x.outcome.value = .ok x.value := by
  simp [outcome, through]

end Logged

end EntityAtlas
