/-
The server's side of a connector session (`shared/connectorprotocol/session.go`,
ServerSession): a configuration is offered as a snapshot or a delta, becomes the
candidate when the peer acknowledges it, and active when the peer reports it ready.

One operation is one call under the lock. What a call reads from outside is part of the
operation: the clock, and whether the registry still names this session (`registered`).
A session is one as Accept leaves it (`accepted`).

Premises:
- the authentication of the peer and the renewal of its credentials are left out, and so
  are contexts that are done before BeginDrain and HandleDrainAck look at anything else.
-/
import Paperboat.Core.Machine
import Paperboat.Connector.Messages

namespace Paperboat.Connector

open Machine

/-- ServerSession; an empty `active` or `candidate` is that there is none -/
structure ServerSession where
  identity : Binding
  capabilities : List String
  leaseDuration : Int
  heartbeatIntervalMS : ℕ
  leaseExpiresAt : Time
  pendingSnapshot : Option Snapshot
  pendingDelta : Option Delta := none
  active : Option Snapshot := none
  candidate : Option Snapshot := none
  readyGeneration : UInt64 := 0
  needsSnapshot : Bool := false
  state : SessionState := .awaitingSnapshot
  lastHeartbeat : Time
  lastHeartbeatSentAt : Time := 0
  drain : Option Drain := none
  drainStatus : Option DrainStatus := none
  drainCode : Option Code := none
  drainCompleted : Bool := false
  disconnectReason : Option DisconnectReason := none
deriving DecidableEq, Repr

/-- the session as Accept leaves it, with the first snapshot offered -/
def ServerSession.accepted (identity : Binding) (capabilities : List String) (leaseDuration : Int)
    (heartbeatIntervalMS : ℕ) (leaseExpiresAt now : Time) (snapshot : Snapshot) : ServerSession :=
  { identity, capabilities, leaseDuration, heartbeatIntervalMS, leaseExpiresAt, lastHeartbeat := now
    pendingSnapshot := some (snapshot.bind identity) }

def heartbeatWindow (heartbeatIntervalMS : ℕ) : Int := 2 * heartbeatIntervalMS * 1000000

/-- a heartbeat time is set and lies more than two intervals back -/
def overdue (heartbeatIntervalMS : ℕ) (last now : Time) : Bool :=
  last != 0 && decide (now - last > heartbeatWindow heartbeatIntervalMS)

namespace ServerSession

variable (s : ServerSession)

/-- the active configuration is the one reported ready -/
def serving : Bool := s.active.any fun a => s.readyGeneration == a.generation

def restoreStateLocked : ServerSession :=
  { s with state := if s.serving && !s.needsSnapshot then .ready else .awaitingSnapshot }

def closeLocked (reason : DisconnectReason) : ServerSession :=
  if s.state = .closed then s else { s with state := .closed, disconnectReason := some reason }

/-- ensureActiveLocked: the session goes on, or is closed now or before -/
def ensureActiveLocked (now : Time) (registered : Bool) : Except (ServerSession × ProtocolError) Unit :=
  if s.state = .closed then .error (s, ⟨.sessionClosed, s.disconnectReason, false⟩)
  else if !registered then .error (s.closeLocked .sessionReplaced, codeError .staleSession .sessionReplaced false)
  else if overdue s.heartbeatIntervalMS s.lastHeartbeat now then
    .error (s.closeLocked .heartbeatTimeout, codeError .heartbeatTimeout .heartbeatTimeout true)
  else .ok ()

/-- the state while a candidate waits for readiness: a session that serves goes on doing so -/
def awaitReady : ServerSession := if s.serving then s else { s with state := .awaitingReady }

def errIdentity : ProtocolError := codeError .identityMismatch .authentication false
def errStale : ProtocolError := codeError .staleGeneration .staleGeneration false
def errSnapshotRequired : ProtocolError := codeError .snapshotRequired .generationGap true

/-- the part of HandleAck for a pending snapshot -/
def ackSnapshot (p : Snapshot) (a : Ack) : ServerSession × Except ProtocolError Unit :=
  if a.kind ≠ .snapshot ∨ a.generation ≠ p.generation ∨ a.contentHash ≠ p.contentHash then
    (s, .error (codeError .snapshotRejected .snapshotRejected false))
  else if a.status = .snapshotRequired ∨ a.status = .rejected then
    (restoreStateLocked { s with pendingSnapshot := none, needsSnapshot := true },
      .error (if a.status = .snapshotRequired then errSnapshotRequired
        else codeError .snapshotRejected .snapshotRejected false))
  else (awaitReady { s with candidate := some p, pendingSnapshot := none, needsSnapshot := false }, .ok ())

/-- the part of HandleAck for a pending delta -/
def ackDelta (d : Delta) (a : Ack) : ServerSession × Except ProtocolError Unit :=
  if a.kind ≠ .delta ∨ a.generation ≠ d.generation ∨ a.contentHash ≠ d.contentHash then
    (s, .error (codeError .deltaRejected .generationGap false))
  else if a.status = .snapshotRequired then
    (restoreStateLocked { s with pendingDelta := none, needsSnapshot := true }, .error errSnapshotRequired)
  else if a.status = .rejected then
    (restoreStateLocked { s with pendingDelta := none, needsSnapshot := true },
      .error (codeError .deltaRejected .snapshotRejected false))
  else if s.active.any fun act => d.previousGeneration != act.generation ||
    d.previousContentHash != act.contentHash then
    ({ s with pendingDelta := none }, .error (codeError .generationGap .generationGap true))
  else (awaitReady { s with candidate := some (d.target s.identity), pendingDelta := none }, .ok ())

/-- the part of HandleAck when nothing is offered: a repeated acknowledgement of what there is -/
def ackRepeated (a : Ack) : Except ProtocolError Unit :=
  if a.status = .duplicate then
    match s.candidate <|> s.active with
    | none => .error errStale
    | some current =>
      if a.generation ≠ current.generation ∨ a.contentHash ≠ current.contentHash then .error errStale else .ok ()
  else .error (codeError .invalidInput .malformed false)

def handleAck (now : Time) (registered : Bool) (a : Ack) : ServerSession × Except ProtocolError Unit :=
  if !a.valid then (s, .error errInvalidInput)
  else
    match s.ensureActiveLocked now registered with
    | .error (s', e) => (s', .error e)
    | .ok _ =>
      if a.toBinding ≠ s.identity then (s, .error errIdentity)
      else
        match s.pendingSnapshot, s.pendingDelta with
        | some p, _ => s.ackSnapshot p a
        | none, some d => s.ackDelta d a
        | none, none => (s, s.ackRepeated a)

/-- the acknowledgement of a readiness report -/
def readyAck (r : Readiness) : Ack :=
  { s.identity with kind := .ready, status := .applied, generation := r.generation, contentHash := r.contentHash }

def handleReadiness (now : Time) (registered : Bool) (r : Readiness) : ServerSession × Except ProtocolError Ack :=
  if !r.valid then (s, .error errInvalidInput)
  else
    match s.ensureActiveLocked now registered with
    | .error (s', e) => (s', .error e)
    | .ok _ =>
      if r.toBinding ≠ s.identity then (s, .error errIdentity)
      else
        match s.candidate <|> s.active with
        | none => (s, .error errStale)
        | some current =>
          if r.generation ≠ current.generation ∨ r.contentHash ≠ current.contentHash then (s, .error errStale)
          else if !r.allReady then (s, .error (codeError .notReady .snapshotRejected true))
          else
            ({ s with active := some current, candidate := none, needsSnapshot := false,
                      readyGeneration := r.generation, state := .ready }, .ok (s.readyAck r))

/-- an offer of what there is already, with the same content -/
def sameContent (offered current : String) : Except ProtocolError Unit :=
  if offered ≠ current then .error (codeError .contentHashMismatch .snapshotRejected false) else .ok ()

/-- the snapshot of this generation that the session knows: the candidate, the active one or the pending one -/
def known (generation : UInt64) : Option Snapshot :=
  s.candidate.filter (·.generation == generation) <|> s.active.filter (·.generation == generation) <|>
    s.pendingSnapshot.filter (·.generation == generation)

def offerSnapshot (k : PayloadChecks) (now : Time) (registered : Bool) (o : Snapshot) :
    ServerSession × Except ProtocolError Unit :=
  if !o.valid k then (s, .error (codeError .snapshotRejected .snapshotRejected false))
  else
    match s.ensureActiveLocked now registered with
    | .error (s', e) => (s', .error e)
    | .ok _ =>
      if o.tunnelID ≠ s.identity.tunnelID ∨ !o.toBinding.agrees s.identity then (s, .error errIdentity)
      else if s.active.any fun a => decide (o.generation < a.generation) then (s, .error errStale)
      else
        match s.known o.generation with
        | some current => (s, sameContent o.contentHash current.contentHash)
        | none =>
          ({ s with pendingDelta := none, pendingSnapshot := some (o.bind s.identity),
                    state := if s.active.isNone then .awaitingSnapshot else s.state }, .ok ())

/-- the delta starts at the active configuration -/
def follows (d : Delta) : Bool :=
  s.active.any fun a => d.previousGeneration == a.generation && d.previousContentHash == a.contentHash

def offerDelta (k : PayloadChecks) (now : Time) (registered : Bool) (d : Delta) :
    ServerSession × Except ProtocolError Unit :=
  if !d.valid k then (s, .error (codeError .deltaRejected .generationGap false))
  else
    match s.ensureActiveLocked now registered with
    | .error (s', e) => (s', .error e)
    | .ok _ =>
      if !s.serving || s.needsSnapshot then (s, .error (codeError .notReady .snapshotRejected true))
      else if s.pendingSnapshot.isSome || s.pendingDelta.isSome || s.candidate.isSome then
        (s, .error (codeError .generationGap .generationGap true))
      else if d.tunnelID ≠ s.identity.tunnelID ∨ !d.toBinding.agrees s.identity ∨ !s.follows d then
        (s, .error (codeError .generationGap .generationGap true))
      else ({ s with pendingDelta := some { d with toBinding := { s.identity with tunnelID := d.tunnelID } } }, .ok ())

/-- the configuration a heartbeat has to name -/
def expected : Option Snapshot := s.active <|> s.candidate <|> s.pendingSnapshot

def handleHeartbeat (now : Time) (registered : Bool) (h : Heartbeat) :
    ServerSession × Except ProtocolError HeartbeatAck :=
  if !h.valid then (s, .error errInvalidInput)
  else
    match s.ensureActiveLocked now registered with
    | .error (s', e) => (s', .error e)
    | .ok _ =>
      if h.toBinding ≠ s.identity then (s, .error errIdentity)
      else if h.sentAt > now + maxClockSkew then (s, .error (codeError .invalidInput .malformed false))
      else if h.sentAt < now - maxClockSkew then (s, .error (codeError .heartbeatTimeout .heartbeatTimeout true))
      else if s.lastHeartbeatSentAt ≠ 0 ∧ h.sentAt ≤ s.lastHeartbeatSentAt then
        (s, .error (codeError .staleSession .staleGeneration false))
      else
        match s.expected with
        | none => (s, .error errSnapshotRequired)
        | some e =>
          if h.lastAppliedGeneration ≠ e.generation ∨ h.lastAppliedHash ≠ e.contentHash then
            (if s.active.isSome then
                { s with needsSnapshot := true, readyGeneration := 0, state := .awaitingSnapshot }
              else s,
              .error errSnapshotRequired)
          else
            ({ s with lastHeartbeatSentAt := h.sentAt, lastHeartbeat := now, leaseExpiresAt := now + s.leaseDuration },
              .ok { s.identity with leaseExpiresAt := now + s.leaseDuration, serverTime := now })

/-- the request BeginDrain makes for a configuration -/
def drainRequest (a : Snapshot) (drainID : String) (deadline : Time) (force : Bool) : Drain :=
  { s.identity with
    drainID := drainID, generation := a.generation, contentHash := a.contentHash, deadline := deadline
    stopNewStreams := true, forceAfterDeadline := force }

/-- BeginDrain; `later` is the clock when the request is validated -/
def beginDrain (now later : Time) (registered : Bool) (drainID : String) (deadline : Time) (force : Bool) :
    ServerSession × Except ProtocolError Drain :=
  match s.ensureActiveLocked now registered with
  | .error (s', e) => (s', .error e)
  | .ok _ =>
    if !s.capabilities.contains capabilityDrain then (s, .error (codeError .capabilityMissing .capabilityMissing false))
    else
      match s.drain with
      | some d =>
        if d.drainID = drainID then (s, .ok d) else (s, .error (codeError .sessionConflict .staleGeneration true))
      | none =>
        match s.active with
        | none => (s, .error (codeError .notReady .snapshotRejected true))
        | some a =>
          if s.needsSnapshot || s.readyGeneration != a.generation || s.state != .ready then
            (s, .error (codeError .notReady .snapshotRejected true))
          else
            let request := s.drainRequest a drainID deadline force
            if !request.valid later then (s, .error errInvalidInput)
            else
              ({ s with drain := some request, drainStatus := some .accepted, drainCode := none,
                        drainCompleted := false, state := .draining }, .ok request)

/-- the part of HandleDrainAck after the checks -/
def drainAnswered (a : DrainAck) : ServerSession × Except ProtocolError Unit :=
  let s' := { s with drainStatus := some a.status, drainCode := a.code }
  match a.status with
  | .accepted | .progress => (s', .ok ())
  | .completed | .forced => ({ s' with drainCompleted := true }, .ok ())
  | .rejected =>
    (restoreStateLocked { s' with drainCompleted := true }, .error (codeError .drainRejected .snapshotRejected false))

def handleDrainAck (now : Time) (registered : Bool) (a : DrainAck) : ServerSession × Except ProtocolError Unit :=
  if !a.valid then (s, .error errInvalidInput)
  else
    match s.ensureActiveLocked now registered with
    | .error (s', e) => (s', .error e)
    | .ok _ =>
      if a.toBinding ≠ s.identity then (s, .error errIdentity)
      else
        match s.drain with
        | none => (s, .error (codeError .staleSession .staleGeneration false))
        | some d =>
          if a.drainID ≠ d.drainID then (s, .error (codeError .staleSession .staleGeneration false))
          else if a.generation ≠ d.generation ∨ a.contentHash ≠ d.contentHash then
            (s, .error (codeError .contentHashMismatch .snapshotRejected false))
          else if s.drainCompleted then
            (s, if some a.status = s.drainStatus ∧ a.code = s.drainCode then .ok () else .error errStale)
          else s.drainAnswered a

end ServerSession

/-! ## Runs -/

inductive ServerOp where
  | offerSnapshot (now : Time) (registered : Bool) (snapshot : Snapshot)
  | offerDelta (now : Time) (registered : Bool) (delta : Delta)
  | handleAck (now : Time) (registered : Bool) (ack : Ack)
  | handleReadiness (now : Time) (registered : Bool) (readiness : Readiness)
  | handleHeartbeat (now : Time) (registered : Bool) (heartbeat : Heartbeat)
  | beginDrain (now later : Time) (registered : Bool) (drainID : String) (deadline : Time) (force : Bool)
  | handleDrainAck (now : Time) (registered : Bool) (ack : DrainAck)
  | checkLease (now : Time) (registered : Bool)
  | close (reason : DisconnectReason)
deriving DecidableEq, Repr

def ServerSession.step (k : PayloadChecks) (s : ServerSession) : ServerOp → ServerSession
  | .offerSnapshot now registered snapshot => (s.offerSnapshot k now registered snapshot).1
  | .offerDelta now registered delta => (s.offerDelta k now registered delta).1
  | .handleAck now registered ack => (s.handleAck now registered ack).1
  | .handleReadiness now registered readiness => (s.handleReadiness now registered readiness).1
  | .handleHeartbeat now registered heartbeat => (s.handleHeartbeat now registered heartbeat).1
  | .beginDrain now later registered drainID deadline force =>
    (s.beginDrain now later registered drainID deadline force).1
  | .handleDrainAck now registered ack => (s.handleDrainAck now registered ack).1
  | .checkLease now registered =>
    match s.ensureActiveLocked now registered with
    | .error (s', _) => s'
    | .ok _ => s
  | .close reason => s.closeLocked reason

end Paperboat.Connector
