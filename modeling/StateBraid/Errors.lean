import Mathlib.Tactic

/-!
# Exceptions

The exception classes the modelled code raises or lets through, each with the text
it carries. `except Exception` catches every one of them.
-/
namespace StateBraid

/-- A raised exception and its text. `osError` is a failure of the transport
itself, `httpError` an error status answered by the server. -/
inductive PyError
  | typeError (message : String)
  | valueError (message : String)
  | keyError (message : String)
  | runtimeError (message : String)
  | unsupportedBackendCapability (message : String)
  | osError (message : String)
  | httpError (message : String)
  deriving DecidableEq

end StateBraid
