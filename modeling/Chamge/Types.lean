import Chamge.Lib.CString

/-! The enumerations and the error record that every layer of the library shares. -/

namespace Chamge
open CString

inductive ChamgeReturn
  | fail
  | ok
  | async
  deriving DecidableEq, Repr

/-- The enumerator's value; some of the code tests or returns it as a `gboolean`. -/
def ChamgeReturn.toInt : ChamgeReturn → Int
  | fail => -1
  | ok => 0
  | async => 1

inductive ChamgeNodeState
  | null
  | enrolled
  | activated
  deriving DecidableEq, Repr

inductive ChamgeBackendError
  | invalidParameter
  | operationFailure
  | inaccessible
  | missingParameter
  deriving DecidableEq, Repr

inductive ErrorDomain
  | backend (code : ChamgeBackendError)
  | jsonParser
  deriving DecidableEq, Repr

structure GError where
  domain : ErrorDomain
  message : Bytes
  deriving DecidableEq, Repr

/-- `g_set_error (error, CHAMGE_BACKEND_ERROR, code, ...)`. -/
def backendError (code : ChamgeBackendError) (message : Bytes) : GError :=
  ⟨.backend code, message⟩

/-- `*error` after these `g_set_error` calls: an error that is set is never replaced. -/
def errorSlot (calls : List GError) : Option GError := calls.head?

end Chamge
