import Mathlib.Data.Nat.Notation

/-!
# The messages between harness, relay and worker

The messages of the sandbox protocol with the fields that the relay and the worker read. A `uint64`
or `uint32` is a natural number; bytes are lists.
-/

set_option autoImplicit false

namespace ServerlessHarness.Protocol

/-- SRCLINE: sandbox.proto:74-78 -/
inductive OutputStream where
  | unspecified
  | stdout
  | stderr
deriving DecidableEq, Repr

/-- SRCLINE: sandbox.proto:37-45 -/
structure Hello where
  sandboxId : String
  labels : List (String × String)
  capabilities : List String
  capacityMax : ℕ
deriving DecidableEq, Repr

/-- SRCLINE: sandbox.proto:49-69 -/
structure Exec where
  reqId : ℕ
  command : String
  stdin : List UInt8
  timeoutS : ℕ
  streaming : Bool
  workspaceKey : String
deriving DecidableEq, Repr

/-- SRCLINE: sandbox.proto:80 -/
structure Chunk where
  reqId : ℕ
  data : List UInt8
  stream : OutputStream
deriving DecidableEq, Repr

/-- SRCLINE: sandbox.proto:82-96 -/
structure End where
  reqId : ℕ
  exitCode : Int
  truncated : Bool
deriving DecidableEq, Repr

/-- SRCLINE: sandbox.proto:97 -/
structure ExecError where
  reqId : ℕ
  message : String
deriving DecidableEq, Repr

end ServerlessHarness.Protocol
