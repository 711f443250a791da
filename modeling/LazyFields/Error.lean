/-
  LazyFields.Error
  ────────────────────────────────
  **WHAT CAN GO WRONG, AND HOW IT IS SAID.**

  One type for every failure of the library, from a stray character in a
  source text to a field whose dependencies have not arrived.  A constructor
  is a cause with its facts; `Error.message` is the only place where a cause
  becomes a sentence.

  `notReady` is not a failure but a signal: the caller may ask again later.
  It is the one error with severity `signal` (`severity_eq_signal_iff`), and
  a cache never stores it.
-/

namespace LazyFields

/-- A cause of failure. -/
inductive Error where
  /-- The text at `line`, `column` of `file` cannot be scanned or parsed. -/
  | syntaxError (file : String) (line column : Nat) (message : String)
  /-- An imported file cannot be read or parsed. -/
  | importError (path reason : String)
  /-- An imported file does not say where its bindings live. -/
  | missingPackageOption (path option : String)
  /-- A rule of the schema is broken by a resource, perhaps in one field. -/
  | semantic (resource : String) (field : Option String) (message : String)
  /-- Computed fields depend on each other in a loop. -/
  | dependencyCycle (members : List String)
  /-- No resource kind of that name is registered. -/
  | unknownResource (name : String)
  /-- The resource declares no such field. -/
  | unknownField (resource field : String)
  /-- A constructor argument names no field. -/
  | unknownArgument (resource name : String)
  /-- A constructor argument has a value of another type than its field. -/
  | wrongArgumentType (resource name expected got : String)
  /-- A static field was not given at construction. -/
  | missingField (resource field : String)
  /-- A static field is read that holds nothing. -/
  | missingStaticValue (resource field : String)
  /-- Some dependency is not settled yet. -/
  | notReady
  /-- A value is not of the type it is read or stored as. -/
  | cast (resource field expected got : String)
  /-- A computed field has no logic. -/
  | notImplemented (resource field : String)
  /-- No instance answers a look-up. -/
  | resourceNotFound (name id : String)
  /-- A file cannot be read. -/
  | io (path message : String)
  /-- A schema text is not the JSON form of a schema. -/
  | json (message : String)
  /-- Any failure of a resource's own logic. -/
  | failure (message : String)
  deriving DecidableEq, Repr, Inhabited

/-- What a failure means to the caller. -/
inductive Severity where
  /-- The input is wrong, or an invariant is broken: stop. -/
  | fatal
  /-- The caller gets the error and may go on. -/
  | recoverable
  /-- Not a failure: ask again later. -/
  | signal
  deriving DecidableEq, Repr

namespace Error

/-- The sentence that says what happened. -/
def message : Error → String
  | syntaxError file line column message =>
      file ++ ":" ++ toString line ++ ":" ++ toString column ++ ": syntax error: " ++ message
  | importError path reason => "failed to import " ++ path ++ ": " ++ reason
  | missingPackageOption path option => "missing " ++ option ++ " option for " ++ path
  | semantic resource none message => "resource '" ++ resource ++ "': " ++ message
  | semantic resource (some field) message =>
      "resource '" ++ resource ++ "' field '" ++ field ++ "': " ++ message
  | dependencyCycle members =>
      "dependency cycle detected involving: " ++ ", ".intercalate members
  | unknownResource name => "cannot find resource '" ++ name ++ "'"
  | unknownField resource field =>
      "cannot find field '" ++ field ++ "' in \"" ++ resource ++ "\" resource"
  | unknownArgument resource name =>
      "failed to initialize \"" ++ resource ++ "\": unknown argument " ++ name
  | wrongArgumentType resource name expected got =>
      "failed to initialize \"" ++ resource ++ "\": wrong type for " ++ name
        ++ " (expected " ++ expected ++ ", got " ++ got ++ ")"
  | missingField resource field =>
      "initialized \"" ++ resource ++ "\" resource without a \"" ++ field
        ++ "\". This field is required."
  | missingStaticValue resource field =>
      "\"" ++ resource ++ "\" failed: no value provided for static field \"" ++ field ++ "\""
  | notReady => "NotReady"
  | cast resource field expected got =>
      "\"" ++ resource ++ "\" failed to cast field \"" ++ field
        ++ "\" to the right type (" ++ expected ++ "): got " ++ got
  | notImplemented resource field =>
      "no implementation bound for field \"" ++ field ++ "\" in \"" ++ resource ++ "\" resource"
  | resourceNotFound name id => "resource not found: " ++ name ++ " (id: " ++ id ++ ")"
  | io path message => "I/O error on " ++ path ++ ": " ++ message
  | json message => "JSON error: " ++ message
  | failure message => "Runtime error: " ++ message

/-- The name of the cause. -/
def kind : Error → String
  | syntaxError .. => "SyntaxError"
  | importError .. => "ImportError"
  | missingPackageOption .. => "MissingPackageOption"
  | semantic .. => "SemanticError"
  | dependencyCycle .. => "DependencyCycle"
  | unknownResource .. => "UnknownResource"
  | unknownField .. => "UnknownField"
  | unknownArgument .. => "UnknownArgument"
  | wrongArgumentType .. => "WrongArgumentType"
  | missingField .. => "MissingField"
  | missingStaticValue .. => "MissingStaticValue"
  | notReady => "NotReady"
  | cast .. => "Cast"
  | notImplemented .. => "NotImplemented"
  | resourceNotFound .. => "ResourceNotFound"
  | io .. => "Io"
  | json .. => "Json"
  | failure .. => "RuntimeError"

/-- What the failure means to the caller: wrong inputs and broken invariants
are fatal, a field that is not ready is a signal, all else is the caller's. -/
def severity : Error → Severity
  | notReady => .signal
  | syntaxError .. | importError .. | missingPackageOption .. | semantic ..
  | dependencyCycle .. | cast .. => .fatal
  | _ => .recoverable

theorem severity_eq_signal_iff {e : Error} : e.severity = .signal ↔ e = notReady := by
  cases e <;> simp [severity]

end Error

namespace Severity

/-- The word for the severity. -/
def name : Severity → String
  | fatal => "Fatal"
  | recoverable => "Recoverable"
  | signal => "Signal"

end Severity

end LazyFields
