/-
The messages of a connector session (`shared/connectorprotocol/authority.go`): snapshots
and deltas of the configuration, acknowledgements, readiness reports, heartbeats and
drains, each with its Validate.

A generation of the configuration is a 64-bit unsigned number. A kind, a status or a
code is a value of its enumeration, so the checks that it is one of them hold by type;
no code is `none`. Parameter (`PayloadChecks`): the check of a payload, that it is
canonical JSON within a limit, has the content hash and is a configuration of the tunnel
and generation; nothing is assumed of it here.
-/
import Paperboat.Connector.Protocol

namespace Paperboat.Connector

def maxSnapshotBytes : ℕ := 4 * 1024 * 1024
def maxDeltaBytes : ℕ := 1024 * 1024
def maxActiveStreams : ℕ := 2 ^ 20

def capabilityDrain : String := "connector.drain.v1"

inductive SessionState where
  | new
  | awaitingSnapshot
  | awaitingReady
  | ready
  | draining
  | closed
deriving DecidableEq, Repr

/-- whom a message is about: the account of the session, its SessionRef -/
structure Binding where
  accountID : String := ""
  tunnelID : String
  connectorID : String := ""
  sessionID : String := ""
  processGeneration : ℕ := 0
deriving DecidableEq, Repr

def Binding.valid (b : Binding) : Bool :=
  validIdentifier b.accountID && validIdentifier b.tunnelID && validIdentifier b.connectorID &&
    validIdentifier b.sessionID && b.processGeneration != 0

/-! ## Configurations -/

structure PayloadChecks where
  ok : (limit : ℕ) → (tunnelID : String) → (generation : UInt64) → (contentHash payload : String) → Bool

/-- a complete configuration; it is bound to a session before it is sent -/
structure Snapshot extends Binding where
  generation : UInt64
  contentHash : String
  payload : String
deriving DecidableEq, Repr

/-- the configuration after the previous one -/
structure Delta extends Binding where
  previousGeneration : UInt64
  generation : UInt64
  previousContentHash : String
  contentHash : String
  payload : String
deriving DecidableEq, Repr

/-- the identities a message that is not bound yet may leave out -/
def Binding.validUnbound (b : Binding) : Bool :=
  validIdentifier b.tunnelID && (b.accountID == "" || validIdentifier b.accountID) &&
    (b.sessionID == "" || validIdentifier b.sessionID)

/-- the identities a bound message has -/
def Binding.validBound (b : Binding) : Bool :=
  validIdentifier b.accountID && validIdentifier b.connectorID && validIdentifier b.sessionID &&
    b.processGeneration != 0

/-- a payload of at least one and at most `limit` bytes -/
def validSize (limit : ℕ) (payload : String) : Bool := payload != "" && decide (payload.utf8ByteSize ≤ limit)

section

variable (k : PayloadChecks)

/-- Snapshot.Validate -/
def Snapshot.valid (s : Snapshot) : Bool :=
  s.toBinding.validUnbound && s.generation != 0 && validContentHash s.contentHash &&
    validSize maxSnapshotBytes s.payload && k.ok maxSnapshotBytes s.tunnelID s.generation s.contentHash s.payload

/-- Delta.Validate -/
def Delta.valid (d : Delta) : Bool :=
  d.toBinding.validUnbound && validContentHash d.previousContentHash && validContentHash d.contentHash &&
    validSize maxDeltaBytes d.payload && d.previousGeneration != 0 && d.generation == d.previousGeneration + 1 &&
    k.ok maxDeltaBytes d.tunnelID d.generation d.contentHash d.payload

end

/-- BindSnapshot -/
def Snapshot.bind (s : Snapshot) (b : Binding) : Snapshot := { s with toBinding := { b with tunnelID := s.tunnelID } }

/-- the configuration a delta leads to, of a session -/
def Delta.target (d : Delta) (b : Binding) : Snapshot :=
  { b with tunnelID := d.tunnelID, generation := d.generation, contentHash := d.contentHash, payload := d.payload }

/-- a field that is left out or that of the session -/
def Binding.agrees (b session : Binding) : Bool :=
  (b.accountID == "" || b.accountID == session.accountID) &&
    (b.connectorID == "" || b.connectorID == session.connectorID) &&
    (b.sessionID == "" || b.sessionID == session.sessionID) &&
    (b.processGeneration == 0 || b.processGeneration == session.processGeneration)

/-! ## Answers and reports -/

/-- what is acknowledged; a renewal, which neither end acknowledges here, would be refused as any other kind is -/
inductive AckKind where
  | snapshot
  | delta
  | ready
deriving DecidableEq, Repr

inductive AckStatus where
  | applied
  | duplicate
  | rejected
  | snapshotRequired
deriving DecidableEq, Repr

structure Ack extends Binding where
  kind : AckKind
  status : AckStatus
  generation : UInt64
  contentHash : String
  code : Option Code := none
deriving DecidableEq, Repr

def Ack.valid (a : Ack) : Bool :=
  a.toBinding.valid && a.generation != 0 && validContentHash a.contentHash &&
    (a.code.isSome == decide (a.status = .rejected))

structure Readiness extends Binding where
  generation : UInt64
  contentHash : String
  edgeReady : Bool
  routeReady : Bool
  originReady : Bool
deriving DecidableEq, Repr

def Readiness.valid (r : Readiness) : Bool := r.toBinding.valid && r.generation != 0 && validContentHash r.contentHash

def Readiness.allReady (r : Readiness) : Bool := r.edgeReady && r.routeReady && r.originReady

structure Heartbeat extends Binding where
  lastAppliedGeneration : UInt64
  lastAppliedHash : String
  sentAt : Time
deriving DecidableEq, Repr

def Heartbeat.valid (h : Heartbeat) : Bool :=
  h.toBinding.valid && h.lastAppliedGeneration != 0 && validContentHash h.lastAppliedHash && h.sentAt != 0

structure HeartbeatAck extends Binding where
  leaseExpiresAt : Time
  serverTime : Time
deriving DecidableEq, Repr

def HeartbeatAck.valid (h : HeartbeatAck) (now : Time) : Bool :=
  h.toBinding.valid && h.leaseExpiresAt != 0 && decide (now < h.leaseExpiresAt) && h.serverTime != 0

/-! ## Drains -/

inductive DrainStatus where
  | accepted
  | progress
  | completed
  | forced
  | rejected
deriving DecidableEq, Repr

structure Drain extends Binding where
  drainID : String
  generation : UInt64
  contentHash : String
  deadline : Time
  stopNewStreams : Bool
  forceAfterDeadline : Bool
deriving DecidableEq, Repr

/-- the part of Drain.Validate that does not look at the clock -/
def Drain.wellFormed (d : Drain) : Bool :=
  d.toBinding.valid && validIdentifier d.drainID && d.generation != 0 && validContentHash d.contentHash &&
    d.deadline != 0 && d.stopNewStreams

/-- the deadline lies ahead, by at most the longest lease; the zero time asks for nothing -/
def Drain.timely (d : Drain) (now : Time) : Bool :=
  now == 0 || decide (now < d.deadline) && decide (d.deadline - now ≤ maxLease)

def Drain.valid (d : Drain) (now : Time) : Bool := d.wellFormed && d.timely now

structure DrainAck extends Binding where
  drainID : String
  generation : UInt64
  contentHash : String
  status : DrainStatus
  activeStreams : ℕ := 0
  forcedClose : Bool := false
  code : Option Code := none
deriving DecidableEq, Repr

def DrainAck.valid (a : DrainAck) : Bool :=
  a.toBinding.valid && validIdentifier a.drainID && a.generation != 0 && validContentHash a.contentHash &&
    decide (a.activeStreams ≤ maxActiveStreams) &&
    match a.status with
    | .accepted | .progress => !a.forcedClose && a.code.isNone
    | .completed => a.activeStreams == 0 && !a.forcedClose && a.code.isNone
    | .forced => a.forcedClose && a.code == some .drainTimeout && a.activeStreams == 0
    | .rejected => !a.forcedClose && a.code == some .drainRejected

/-! ## A connector, for runs on fixed inputs -/

def contentOne : String := "sha256:0000000000000000000000000000000000000000000000000000000000000000"

/-- every payload is accepted -/
def anyPayload : PayloadChecks := ⟨fun _ _ _ _ _ => true⟩

def connectorOne : Binding := ⟨"a", "t", "k", "s", 1⟩

def snapshotOf (generation : UInt64) : Snapshot := ⟨{ tunnelID := "t" }, generation, contentOne, "c"⟩

end Paperboat.Connector
