namespace SolutionLists

/-! What a run tells its user while it goes on. -/

inductive LogLevel where
  | debug
  | info
  | warning
deriving DecidableEq, Repr

structure LogEntry where
  level : LogLevel
  message : String
deriving DecidableEq, Repr

abbrev Log := List LogEntry

namespace LogEntry

def debug (message : String) : LogEntry := ⟨.debug, message⟩

def info (message : String) : LogEntry := ⟨.info, message⟩

def warning (message : String) : LogEntry := ⟨.warning, message⟩

/-- The line of an entry: its level in five columns, then the message. -/
def line (entry : LogEntry) : String :=
  let label := match entry.level with
    | .debug => "DEBUG"
    | .info => " INFO"
    | .warning => " WARN"
  label ++ " " ++ entry.message

end LogEntry

def Log.warnings (log : Log) : List String :=
  (log.filter (·.level = .warning)).map (·.message)

structure Logged (ε α : Type) where
  log : Log := []
  result : Except ε α

namespace Logged

variable {ε α β : Type}

def after (step : Logged ε α) (log : Log) : Logged ε α :=
  { step with log := log ++ step.log }

def andThen (step : Logged ε α) (next : α → Logged ε β) : Logged ε β :=
  match step.result with
  | .error error => { log := step.log, result := .error error }
  | .ok value => (next value).after step.log

def map (step : Logged ε α) (change : α → β) : Logged ε β :=
  { log := step.log, result := step.result.map change }

end Logged

end SolutionLists
