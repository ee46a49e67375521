/-
The vocabulary of the connector protocol (`shared/connectorprotocol/protocol.go`): the
codes and reasons that a session's two ends give, typed errors, limits, and the syntax
of identifiers and content hashes.

A time is the number of nanoseconds since the zero time, so the zero time is 0.
Differences are compared with bounds far below the saturation of Go's Duration, so the
exact difference decides the same way. A generation is a 64-bit unsigned number.
-/
import Paperboat.Core.Text

namespace Paperboat.Connector

open Text

/-! ## Codes and errors -/

inductive Code where
  | invalidInput
  | capabilityMissing
  | identityMismatch
  | sessionConflict
  | sessionClosed
  | heartbeatTimeout
  | snapshotRequired
  | generationGap
  | staleGeneration
  | contentHashMismatch
  | snapshotRejected
  | deltaRejected
  | notReady
  | canceled
  | staleSession
  | drainRejected
  | drainTimeout
deriving DecidableEq, Repr

inductive DisconnectReason where
  | capabilityMissing
  | malformed
  | authentication
  | heartbeatTimeout
  | sessionReplaced
  | staleGeneration
  | snapshotRejected
  | generationGap
  | canceled
  | serverShutdown
  | protocolClosed
deriving DecidableEq, Repr

/-- the typed error without its cause; the bare errors have no reason -/
structure ProtocolError where
  code : Code
  reason : Option DisconnectReason := none
  retryable : Bool := false
deriving DecidableEq, Repr

/-- CodeError -/
def codeError (code : Code) (reason : DisconnectReason) (retryable : Bool) : ProtocolError :=
    ⟨code, some reason, retryable⟩

def errInvalidInput : ProtocolError := ⟨.invalidInput, none, false⟩

/-! ## Numbers and times -/

abbrev Time := Int

def second : Int := 1000000000
def minute : Int := 60 * second

def maxClockSkew : Int := 2 * minute
def maxLease : Int := 24 * 60 * minute

def maxIdentifierBytes : ℕ := 128

/-! ## Syntax -/

/-- the characters of an identifier after the first -/
def identifierChar (c : Char) : Bool := c.isAlphanum || c == '.' || c == '_' || c == ':' || c == '-'

def validIdentifier (s : String) : Bool :=
  match s.toList with
  | [] => false
  | c :: cs => c.isAlphanum && cs.all identifierChar && decide (cs.length < maxIdentifierBytes)

def lowerHex (c : Char) : Bool := c.isDigit || ('a' ≤ c && c ≤ 'f')

/-- `sha256:` and 64 lower-case hexadecimal digits -/
def validContentHash (s : String) : Bool :=
  "sha256:".toList.isPrefixOf s.toList && (s.toList.drop 7).length == 64 && (s.toList.drop 7).all lowerHex

end Paperboat.Connector
