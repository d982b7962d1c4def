import GlslEs.Location

/-!
# Diagnostics

What is reported about a shader: how bad it is, of what kind, in words, and where.  Reports
are ordered by place; at one place they keep the order in which they were found.
-/

namespace GlslEs

/-- How bad a report is. -/
inductive Severity where
  | error
  | warning
deriving DecidableEq, Repr, Inhabited

namespace Severity

def label : Severity → String
  | .error => "ERROR"
  | .warning => "WARNING"

def name : Severity → String
  | .error => "error"
  | .warning => "warning"

end Severity

/-- The kinds of report. -/
inductive Code where
  | syntaxError
  | undeclaredIdentifier
  | redefinition
  | unsupportedVersion
  | unsupportedInVersion
  | unsupportedInStage
  | typeMismatch
  | noMatchingOverload
  | invalidConstructor
  | invalidSwizzle
  | indexOutOfRange
  | notAnLValue
  | constantExpressionRequired
  | invalidQualifier
  | nonConstantIndexNotSupported
  | nonInductiveForLoopNotSupported
  | whileLoopNotSupported
  | doWhileLoopNotSupported
  | limitExceeded
  | extensionRequired
  | extensionNotSupported
  | extensionUsed
  | recursionNotAllowed
  | missingMain
  | noPrecisionSpecified
  | unsupportedPrecision
deriving DecidableEq, Repr, Inhabited

namespace Code

def name : Code → String
  | .syntaxError => "SyntaxError"
  | .undeclaredIdentifier => "UndeclaredIdentifier"
  | .redefinition => "Redefinition"
  | .unsupportedVersion => "UnsupportedVersion"
  | .unsupportedInVersion => "UnsupportedInVersion"
  | .unsupportedInStage => "UnsupportedInStage"
  | .typeMismatch => "TypeMismatch"
  | .noMatchingOverload => "NoMatchingOverload"
  | .invalidConstructor => "InvalidConstructor"
  | .invalidSwizzle => "InvalidSwizzle"
  | .indexOutOfRange => "IndexOutOfRange"
  | .notAnLValue => "NotAnLValue"
  | .constantExpressionRequired => "ConstantExpressionRequired"
  | .invalidQualifier => "InvalidQualifier"
  | .nonConstantIndexNotSupported => "NonConstantIndexNotSupported"
  | .nonInductiveForLoopNotSupported => "NonInductiveForLoopNotSupported"
  | .whileLoopNotSupported => "WhileLoopNotSupported"
  | .doWhileLoopNotSupported => "DoWhileLoopNotSupported"
  | .limitExceeded => "LimitExceeded"
  | .extensionRequired => "ExtensionRequired"
  | .extensionNotSupported => "ExtensionNotSupported"
  | .extensionUsed => "ExtensionUsed"
  | .recursionNotAllowed => "RecursionNotAllowed"
  | .missingMain => "MissingMain"
  | .noPrecisionSpecified => "NoPrecisionSpecified"
  | .unsupportedPrecision => "UnsupportedPrecision"

end Code

/-- A report. -/
structure Diagnostic where
  severity : Severity
  code : Code
  message : String
  loc : Location
deriving DecidableEq, Repr, Inhabited

namespace Diagnostic

def isError (d : Diagnostic) : Bool := d.severity == .error

def toText (d : Diagnostic) : String :=
  d.severity.label ++ ": " ++ d.loc.toText ++ ": [" ++ d.code.name ++ "] " ++ d.message

def sort (ds : List Diagnostic) : List Diagnostic :=
  ds.mergeSort fun a b => a.loc.le b.loc

/-- All reports, one a line. -/
def log (ds : List Diagnostic) : String :=
  String.join (ds.map fun d => d.toText ++ "\n")

end Diagnostic

end GlslEs
