import Mathlib.Data.Finmap
import Lecrev.Domain.Types

/-!
# Requests to the microVM driver

The values that a node agent and the driver of its microVMs exchange (`internal/firecracker`).
Environments are maps from names to values; the nil map of Go has no entries.
-/

namespace Lecrev

/-- An environment (`map[string]string`). -/
abbrev Env := Finmap fun _ : String => String

/-- The environment with the entries of a list. -/
def Env.ofList (entries : List (String × String)) : Env :=
  (entries.map fun entry => (⟨entry.1, entry.2⟩ : (_ : String) × String)).toFinmap

/-- `firecracker.StreamKind`. -/
inductive StreamKind
  | none | http
  deriving DecidableEq, Repr

/-- `firecracker.HTTPStreamEventType`; every other text is `unknown`. -/
inductive HTTPStreamEventType
  | start | chunk | end | unknown
  deriving DecidableEq, Repr

/-- `firecracker.HTTPStreamEvent`: a piece of a streamed response. -/
structure HTTPStreamEvent where
  type : HTTPStreamEventType
  statusCode : ℤ := 0
  headers : List (String × String) := []
  chunk : Bytes := []
  deriving DecidableEq, Repr

/-- `firecracker.ExecuteRequest`. -/
structure ExecuteRequest where
  attemptID : String
  jobID : String
  functionID : String
  entrypoint : String
  artifactBundle : Bytes
  payload : Bytes
  env : Env
  timeout : ℤ
  memoryMB : ℤ
  networkPolicy : NetworkPolicy
  region : String
  hostID : String
  enableStreaming : Bool := false
  streamKind : StreamKind := .none
  /-- Whether there is a function `HTTPStream` that takes the events. -/
  httpStream : Bool := false
  deriving DecidableEq

/-- `firecracker.ExecuteResult`. -/
structure ExecuteResult where
  exitCode : ℤ
  logs : String
  output : Bytes
  platformTrace : String
  deriving DecidableEq, Repr

/-- `firecracker.WarmInventory`: the warm microVMs of a driver. -/
structure WarmInventory where
  blankWarm : ℤ
  functionWarm : List (String × ℤ)
  deriving DecidableEq, Repr

end Lecrev
