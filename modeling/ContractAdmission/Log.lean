/-!
# Log records

What a part of the program leaves is a value together with the records that led
to it, the earliest first.
-/

namespace ContractAdmission

/-- How much attention a record asks for. -/
inductive Level where
  | debug
  | info
  | error
  deriving DecidableEq, Repr

/-- The word for a level. -/
def Level.label : Level → String
  | .debug => "DEBUG"
  | .info => "INFO"
  | .error => "ERROR"

/-- The part of the program that wrote a record. -/
inductive Source where
  | compiler
  | validator
  | main (name : String)
  deriving DecidableEq, Repr

/-- The name under which a part of the program logs. -/
def Source.label : Source → String
  | .compiler => "cwcheck.compiler"
  | .validator => "cwcheck.validator"
  | .main name => name

/-- One entry of a log. -/
structure Record where
  level : Level
  source : Source
  message : String
  deriving DecidableEq, Repr

/-- The line that shows a record, without its line end. -/
def Record.line (record : Record) : String :=
  record.level.label ++ ":" ++ record.source.label ++ ":" ++ record.message

/-- A value and the records that led to it, in order. -/
structure Logged (α : Type) where
  records : List Record
  value : α
  deriving DecidableEq, Repr

namespace Logged

/-- A value without records. -/
def pure {α : Type} (value : α) : Logged α := ⟨[], value⟩

/-- Change the value and keep the records. -/
def mapValue {α β : Type} (f : α → β) (logged : Logged α) : Logged β :=
  ⟨logged.records, f logged.value⟩

end Logged
end ContractAdmission
