/-
The connector's side of a session (`shared/connectorprotocol/client_session.go`,
ClientSession): a configuration is prepared by the applier and staged, and becomes
active when it is ready and the applier has activated it.

The session's lock is released while the applier or the runtime's drainer works, so a
call of ApplySnapshot, ApplyDelta, MarkReadyContext or HandleDrain is a step that begins
it and steps that go on with what the applier or the drainer has answered; other calls
may come in between. One of the first three holds the apply lock from its begin to its
end (`applying`), which Close needs as well. What a step reads from outside is part of
the operation: the clock, whether the context is done, and the answers of the applier
and the drainer.

A session is one as AcceptWelcome leaves it (`welcomed`). A `Client` keeps, besides the
session and the calls that are under way, the configurations the applier has returned,
those it has activated and those that were aborted.

Premises:
- causes of errors and the renewal of credentials are left out.
-/
import Paperboat.Connector.Server

namespace Paperboat.Connector

open Machine

/-- a PreparedConfig: which of those the applier has returned, and the configuration it was prepared for -/
structure PreparedConfig where
  id : ℕ
  generation : UInt64
  contentHash : String
deriving DecidableEq, Repr

structure ClientSession where
  identity : Binding
  capabilities : List String
  heartbeatIntervalMS : ℕ
  leaseExpiresAt : Time
  state : SessionState := .awaitingSnapshot
  active : Option Snapshot := none
  candidate : Option Snapshot := none
  prepared : Option PreparedConfig := none
  needsSnapshot : Bool := false
  readyGeneration : UInt64 := 0
  lastHeartbeatAck : Time
  drain : Option Drain := none
  drainStatus : Option DrainStatus := none
  drainCode : Option Code := none
  drainCompleted : Bool := false
  activeStreams : ℕ := 0
  disconnectReason : Option DisconnectReason := none
deriving DecidableEq, Repr

/-- the session as AcceptWelcome leaves it -/
def ClientSession.welcomed (identity : Binding) (capabilities : List String) (heartbeatIntervalMS : ℕ)
    (leaseExpiresAt now : Time) : ClientSession :=
  { identity, capabilities, heartbeatIntervalMS, leaseExpiresAt, lastHeartbeatAck := now }

/-- what a call returns; `waiting` is that it is not over, `blocked` that it cannot begin or go on now -/
inductive ClientAnswer where
  | blocked
  | waiting
  | done (error : Option ProtocolError)
  | ack (ack : Option Ack) (error : Option ProtocolError)
  | readiness (readiness : Option Readiness) (error : Option ProtocolError)
  | heartbeat (heartbeat : Option Heartbeat) (error : Option ProtocolError)
  | drainAck (ack : Option DrainAck) (error : Option ProtocolError)
deriving DecidableEq, Repr

def errClientIdentity : ProtocolError := codeError .identityMismatch .authentication false
def errClientStale : ProtocolError := codeError .staleGeneration .staleGeneration false
def errClientGap : ProtocolError := codeError .generationGap .generationGap true
def errClientRequired : ProtocolError := codeError .snapshotRequired .generationGap true
def errClientCanceled : ProtocolError := codeError .canceled .canceled true
def errClientNotReady : ProtocolError := codeError .notReady .snapshotRejected true
def errSnapshotRejected : ProtocolError := codeError .snapshotRejected .snapshotRejected false

namespace ClientSession

variable (c : ClientSession)

def timedOut (now : Time) : Bool := overdue c.heartbeatIntervalMS c.lastHeartbeatAck now

def ensureActiveLocked (now : Time) : Except (ClientSession × ProtocolError) Unit :=
  if c.state = .closed then .error (c, ⟨.sessionClosed, c.disconnectReason, false⟩)
  else if c.state = .new then .error (c, codeError .sessionConflict .protocolClosed false)
  else if c.timedOut now then
    .error ({ c with state := .closed, disconnectReason := some .heartbeatTimeout },
      codeError .heartbeatTimeout .heartbeatTimeout true)
  else .ok ()

/-- the active configuration is the one that is ready -/
def serving : Bool := c.active.any fun a => c.readyGeneration == a.generation

def restoreStateLocked : ClientSession :=
  { c with state := if c.serving && !c.needsSnapshot then .ready
                    else if c.candidate.isSome then .awaitingReady else .awaitingSnapshot }

def makeAckLocked (kind : AckKind) (status : AckStatus) (generation : UInt64) (contentHash : String) : Ack :=
  { c.identity with kind := kind, status := status, generation := generation, contentHash := contentHash }

/-! ### Snapshots and deltas -/

/-- ApplySnapshot up to the call of the applier; no answer is that the applier is called -/
def beginSnapshot (k : PayloadChecks) (now : Time) (canceled : Bool) (o : Snapshot) :
    ClientSession × Option ClientAnswer :=
  if !o.valid k then (c, some (.ack none errSnapshotRejected))
  else
    match c.ensureActiveLocked now with
    | .error (c', e) => (c', some (.ack none e))
    | .ok _ =>
      if o.tunnelID ≠ c.identity.tunnelID ∨ !o.toBinding.validBound ∨ o.toBinding ≠ c.identity then
        (c, some (.ack none errClientIdentity))
      else
        let current := c.candidate <|> c.active
        if current.any fun cur => decide (o.generation < cur.generation) then (c, some (.ack none errClientStale))
        else if current.any fun cur => o.generation == cur.generation && o.contentHash == cur.contentHash then
          (c, some (.ack (c.makeAckLocked .snapshot .duplicate o.generation o.contentHash) none))
        else if current.any fun cur => o.generation == cur.generation then
          (c, some (.ack none (codeError .contentHashMismatch .snapshotRejected false)))
        else if canceled then (c, some (.ack none errClientCanceled))
        else (c, none)

/-- ApplyDelta up to the call of the applier -/
def beginDelta (k : PayloadChecks) (now : Time) (canceled : Bool) (d : Delta) : ClientSession × Option ClientAnswer :=
  if !d.valid k then (c, some (.ack none (codeError .deltaRejected .generationGap false)))
  else
    match c.ensureActiveLocked now with
    | .error (c', e) => (c', some (.ack none e))
    | .ok _ =>
      let required := c.makeAckLocked .delta .snapshotRequired d.generation d.contentHash
      if !d.toBinding.validBound ∨ d.toBinding ≠ c.identity then (c, some (.ack none errClientIdentity))
      else
        match c.active with
        | none => (c, some (.ack required errClientRequired))
        | some a =>
          if c.needsSnapshot || c.candidate.isSome then (c, some (.ack required errClientRequired))
          else if d.previousGeneration = a.generation ∧ d.previousContentHash = a.contentHash then
            if d.generation ≠ a.generation + 1 then
              ({ c with needsSnapshot := true }, some (.ack required errClientGap))
            else if canceled then (c, some (.ack none errClientCanceled))
            else (c, none)
          else if d.generation ≤ a.generation then (c, some (.ack none errClientStale))
          else ({ c with needsSnapshot := true }, some (.ack required errClientGap))

/-- the end of ApplySnapshot and ApplyDelta: the prepared configuration is staged, or has to be aborted -/
def stage (now : Time) (kind : AckKind) (candidate : Snapshot) (needsSnapshot : Bool) (p : PreparedConfig) :
    ClientSession × Bool × ClientAnswer :=
  match c.ensureActiveLocked now with
  | .error (c', e) => (c', false, .ack none e)
  | .ok _ =>
    if c.candidate.isSome && c.prepared.isSome then (c, false, .ack none errClientGap)
    else
      ({ c with candidate := some candidate, prepared := some p, needsSnapshot := needsSnapshot, readyGeneration := 0,
                state := .awaitingReady },
        true, .ack (c.makeAckLocked kind .applied candidate.generation candidate.contentHash) none)

/-! ### Readiness -/

/-- MarkReadyContext up to the call of Activate, for the candidate and its prepared configuration -/
def beginReady (now : Time) (canceled edgeReady routeReady originReady : Bool) :
    ClientSession × Except ClientAnswer (Snapshot × PreparedConfig × Readiness) :=
  match c.ensureActiveLocked now with
  | .error (c', e) => (c', .error (.readiness none e))
  | .ok _ =>
    match c.candidate with
    | none => (c, .error (.readiness none errClientRequired))
    | some candidate =>
      let readiness : Readiness :=
        { c.identity with
          generation := candidate.generation, contentHash := candidate.contentHash
          edgeReady := edgeReady, routeReady := routeReady, originReady := originReady }
      if !readiness.allReady then (c, .error (.readiness readiness errClientNotReady))
      else if canceled then (c, .error (.readiness readiness errClientCanceled))
      else
        match c.prepared with
        | none => (c, .error (.readiness readiness errSnapshotRejected))
        | some p => (c, .ok (candidate, p, readiness))

/-- the candidate is still the one the call is about -/
def isCandidate (candidate : Snapshot) : Bool :=
  c.candidate.any fun c' => c'.generation == candidate.generation && c'.contentHash == candidate.contentHash

/-- Activate has failed, and the configuration is aborted -/
def activationFailed (candidate : Snapshot) : ClientSession :=
  if c.isCandidate candidate then
    restoreStateLocked { c with candidate := none, prepared := none, needsSnapshot := true }
  else c

/-- Activate has succeeded -/
def activationDone (now : Time) (candidate : Snapshot) (readiness : Readiness) : ClientSession × ClientAnswer :=
  match c.ensureActiveLocked now with
  | .error (c', e) => (c', .readiness readiness e)
  | .ok _ =>
    if !c.isCandidate candidate then (c, .readiness readiness (codeError .sessionConflict .staleGeneration true))
    else
      ({ c with active := c.candidate, candidate := none, prepared := none, needsSnapshot := false,
                readyGeneration := candidate.generation, state := .ready }, .readiness readiness none)

/-! ### Heartbeats and leases -/

def heartbeat (now : Time) : ClientSession × ClientAnswer :=
  match c.ensureActiveLocked now with
  | .error (c', e) => (c', .heartbeat none e)
  | .ok _ =>
    match c.active <|> c.candidate with
    | none => (c, .heartbeat none errClientRequired)
    | some current =>
      (c, .heartbeat (some { c.identity with
        lastAppliedGeneration := current.generation, lastAppliedHash := current.contentHash, sentAt := now }) none)

def acceptHeartbeatAck (now : Time) (a : HeartbeatAck) : ClientSession × ClientAnswer :=
  if !a.valid now then (c, .done errInvalidInput)
  else
    match c.ensureActiveLocked now with
    | .error (c', e) => (c', .done e)
    | .ok _ =>
      if a.toBinding ≠ c.identity then (c, .done errClientIdentity)
      else ({ c with leaseExpiresAt := a.leaseExpiresAt, lastHeartbeatAck := now }, .done none)

def checkLease (now : Time) : ClientSession × ClientAnswer :=
  match c.ensureActiveLocked now with
  | .error (c', e) => (c', .done e)
  | .ok _ => (c, .done none)

/-! ### Drains -/

def makeDrainAckLocked (d : Drain) (status : DrainStatus) (activeStreams : ℕ) (forced : Bool) (code : Option Code) :
    DrainAck :=
  { c.identity with
    drainID := d.drainID, generation := d.generation, contentHash := d.contentHash, status := status
    activeStreams := activeStreams, forcedClose := forced, code := code }

def rejectDrain (d : Drain) (activeStreams : ℕ) (e : ProtocolError) : ClientAnswer :=
  .drainAck (c.makeDrainAckLocked d .rejected activeStreams false (some .drainRejected)) e

/-- HandleDrain up to the call of StopNewStreams -/
def beginDrain (canceled : Bool) (now : Time) (d : Drain) : ClientSession × Option ClientAnswer :=
  if canceled then (c, some (.drainAck none errClientCanceled))
  else if !d.valid now then (c, some (.drainAck none errInvalidInput))
  else
    match c.ensureActiveLocked now with
    | .error (c', e) => (c', some (.drainAck none e))
    | .ok _ =>
      if !c.capabilities.contains capabilityDrain then
        (c, some (.drainAck none (codeError .capabilityMissing .capabilityMissing false)))
      else if d.toBinding ≠ c.identity then (c, some (c.rejectDrain d 0 errClientIdentity))
      else
        match c.drain with
        | some current =>
          if d.drainID ≠ current.drainID then
            (c, some (c.rejectDrain d c.activeStreams (codeError .sessionConflict .staleGeneration true)))
          else if d.generation ≠ current.generation ∨ d.contentHash ≠ current.contentHash then
            (c, some (c.rejectDrain d c.activeStreams (codeError .contentHashMismatch .snapshotRejected false)))
          else
            let status := c.drainStatus.getD .accepted
            (c, some (.drainAck (c.makeDrainAckLocked d status c.activeStreams (status = .forced) c.drainCode) none))
        | none =>
          match c.active with
          | none => (c, some (c.rejectDrain d 0 errClientNotReady))
          | some a =>
            if c.needsSnapshot || c.readyGeneration != a.generation then (c, some (c.rejectDrain d 0 errClientNotReady))
            else if d.generation ≠ a.generation ∨ d.contentHash ≠ a.contentHash then
              (c, some (c.rejectDrain d 0 (codeError .staleGeneration .staleGeneration true)))
            else
              ({ c with drain := some d, drainStatus := some .accepted, drainCode := none, drainCompleted := false,
                        activeStreams := 0, state := .draining }, none)

/-- a hook of the drainer has failed for the drain of this session -/
def drainFailed (d : Drain) : ClientSession :=
  if c.drain.any fun current => current.drainID == d.drainID then
    restoreStateLocked
      { c with drainStatus := some .rejected, drainCode := some .drainRejected, drainCompleted := true }
  else c

def errDrainHook : ProtocolError := codeError .drainRejected .snapshotRejected true

/-- the end of HandleDrain: the streams are counted -/
def drainCounted (d : Drain) (streams : ℕ) : ClientSession × ClientAnswer :=
  if c.drain.any fun current => current.drainID == d.drainID then
    ({ c with activeStreams := streams }, .drainAck (c.makeDrainAckLocked d .accepted streams false none) none)
  else (c, c.rejectDrain d streams (codeError .staleSession .staleGeneration false))

def drainProgress (canceled : Bool) (now : Time) (streams : ℕ) (forced : Bool) : ClientSession × ClientAnswer :=
  if streams > maxActiveStreams then (c, .drainAck none errInvalidInput)
  else if canceled then (c, .drainAck none errClientCanceled)
  else
    match c.ensureActiveLocked now with
    | .error (c', e) => (c', .drainAck none e)
    | .ok _ =>
      match c.drain with
      | none => (c, .drainAck none (codeError .sessionConflict .staleGeneration false))
      | some d =>
        let c' := { c with activeStreams := streams }
        if c.drainCompleted then
          let status := c.drainStatus.getD .accepted
          (c', .drainAck (c.makeDrainAckLocked d status streams (status = .forced) c.drainCode) none)
        else if forced then
          if streams ≠ 0 then (c', .drainAck none (codeError .invalidInput .snapshotRejected false))
          else
            ({ c' with drainStatus := some .forced, drainCode := some .drainTimeout, drainCompleted := true },
              .drainAck (c.makeDrainAckLocked d .forced 0 true (some .drainTimeout)) none)
        else if streams = 0 then
          ({ c' with drainStatus := some .completed, drainCode := none, drainCompleted := true },
            .drainAck (c.makeDrainAckLocked d .completed 0 false none) none)
        else if d.deadline ≤ now then
          (c', .drainAck (c.makeDrainAckLocked d .progress streams false none)
            (codeError .drainTimeout .heartbeatTimeout true))
        else
          ({ c' with drainStatus := some .progress, drainCode := none },
            .drainAck (c.makeDrainAckLocked d .progress streams false none) none)

end ClientSession

/-! ## Calls under way -/

/-- the call that holds the apply lock and waits for the applier -/
inductive Applying where
  | snapshot (o : Snapshot)
  | delta (d : Delta)
  | activate (candidate : Snapshot) (p : PreparedConfig) (readiness : Readiness)
deriving DecidableEq, Repr

structure Client where
  session : ClientSession
  applying : Option Applying := none
  /-- the drains that wait for StopNewStreams -/
  stopping : List Drain := []
  /-- the drains that wait for ActiveStreams -/
  counting : List Drain := []
  returned : List PreparedConfig := []
  activated : List PreparedConfig := []
  aborted : List PreparedConfig := []
  closeReturned : Bool := false
deriving DecidableEq, Repr

/-- what PrepareSnapshot or PrepareDelta returns: a configuration or nil, an error or nil; and whether the time of the
preparation and the context of the call are over -/
structure Preparation where
  prepared : Bool
  failed : Bool := false
  expired : Bool := false
  canceled : Bool := false
deriving DecidableEq, Repr

inductive ClientOp where
  | applySnapshot (now : Time) (canceled : Bool) (snapshot : Snapshot)
  | applyDelta (now : Time) (canceled : Bool) (delta : Delta)
  | prepared (now : Time) (preparation : Preparation)
  | markReady (now : Time) (canceled edgeReady routeReady originReady : Bool)
  | activated (now : Time) (succeeded canceled : Bool)
  | heartbeat (now : Time)
  | acceptHeartbeatAck (now : Time) (ack : HeartbeatAck)
  | handleDrain (canceled : Bool) (now : Time) (request : Drain)
  | drainStopped (request : Drain) (failed : Bool)
  | drainCounted (request : Drain) (streams : Option ℕ)
  | drainProgress (canceled : Bool) (now : Time) (streams : ℕ) (forced : Bool)
  | checkLease (now : Time)
  | close (reason : DisconnectReason) (abortFails : Bool)
deriving DecidableEq, Repr

namespace Client

variable (c : Client)

/-- a call that only the session answers -/
def answer (r : ClientSession × ClientAnswer) : Client × ClientAnswer := ({ c with session := r.1 }, r.2)

/-- a call that takes the apply lock -/
def begin (call : Applying) (r : ClientSession × Option ClientAnswer) : Client × ClientAnswer :=
  match c.applying with
  | some _ => (c, .blocked)
  | none =>
    match r.2 with
    | some a => ({ c with session := r.1 }, a)
    | none => ({ c with session := r.1, applying := some call }, .waiting)

/-- the applier has answered a preparation for a configuration; `stage` goes on with what it has prepared -/
def finish (r : Preparation) (generation : UInt64) (contentHash : String) (rejection : ProtocolError)
    (stage : PreparedConfig → ClientSession × Bool × ClientAnswer) : Client × ClientAnswer :=
  let p : PreparedConfig := ⟨c.returned.length, generation, contentHash⟩
  let c := { c with applying := none, returned := if r.prepared then c.returned ++ [p] else c.returned }
  let aborted := if r.prepared then c.aborted ++ [p] else c.aborted
  if r.failed then
    ({ c with aborted }, .ack none (if r.canceled || r.expired then errClientCanceled else rejection))
  else if r.expired then ({ c with aborted }, .ack none errClientCanceled)
  else if !r.prepared then (c, .ack none rejection)
  else
    match stage p with
    | (session, true, a) => ({ c with session }, a)
    | (session, false, a) => ({ c with session, aborted }, a)

def prepared (now : Time) (r : Preparation) : Client × ClientAnswer :=
  match c.applying with
  | some (.snapshot o) =>
    c.finish r o.generation o.contentHash errSnapshotRejected fun p =>
      c.session.stage now .snapshot (o.bind c.session.identity) false p
  | some (.delta d) =>
    c.finish r d.generation d.contentHash (codeError .deltaRejected .snapshotRejected false) fun p =>
      c.session.stage now .delta (d.target c.session.identity) c.session.needsSnapshot p
  | _ => (c, .blocked)

def markReady (now : Time) (canceled edgeReady routeReady originReady : Bool) : Client × ClientAnswer :=
  match c.applying with
  | some _ => (c, .blocked)
  | none =>
    match c.session.beginReady now canceled edgeReady routeReady originReady with
    | (session, .error a) => ({ c with session }, a)
    | (session, .ok (candidate, p, readiness)) =>
      ({ c with session, applying := some (.activate candidate p readiness) }, .waiting)

def activationReturned (now : Time) (succeeded canceled : Bool) : Client × ClientAnswer :=
  match c.applying with
  | some (.activate candidate p readiness) =>
    let c := { c with applying := none }
    if !succeeded then
      ({ c with session := c.session.activationFailed candidate, aborted := c.aborted ++ [p] },
        .readiness readiness (if canceled then errClientCanceled else errSnapshotRejected))
    else answer { c with activated := c.activated ++ [p] } (c.session.activationDone now candidate readiness)
  | _ => (c, .blocked)

def handleDrain (canceled : Bool) (now : Time) (d : Drain) : Client × ClientAnswer :=
  match c.session.beginDrain canceled now d with
  | (session, some a) => ({ c with session }, a)
  | (session, none) => ({ c with session, stopping := d :: c.stopping }, .waiting)

def drainStopped (d : Drain) (failed : Bool) : Client × ClientAnswer :=
  if d ∉ c.stopping then (c, .blocked)
  else
    let c := { c with stopping := c.stopping.erase d }
    if failed then
      c.answer (c.session.drainFailed d,
        (c.session.drainFailed d).rejectDrain d c.session.activeStreams ClientSession.errDrainHook)
    else ({ c with counting := d :: c.counting }, .waiting)

/-- no count is that ActiveStreams has failed -/
def drainCounted (d : Drain) (streams : Option ℕ) : Client × ClientAnswer :=
  if d ∉ c.counting then (c, .blocked)
  else
    let c := { c with counting := c.counting.erase d }
    match streams.filter fun n => decide (n ≤ maxActiveStreams) with
    | none => c.answer (c.session.drainFailed d, (c.session.drainFailed d).rejectDrain d 0 ClientSession.errDrainHook)
    | some n => c.answer (c.session.drainCounted d n)

def close (reason : DisconnectReason) (abortFails : Bool) : Client × ClientAnswer :=
  match c.applying with
  | some _ => (c, .blocked)
  | none =>
    if c.session.state = .closed then ({ c with closeReturned := true }, .done none)
    else
      let session :=
        { c.session with state := .closed, disconnectReason := some reason, prepared := none, candidate := none }
      ({ c with session, closeReturned := true, aborted := c.aborted ++ c.session.prepared.toList },
        .done (if c.session.prepared.isSome && abortFails then some errSnapshotRejected else none))

def perform (k : PayloadChecks) : ClientOp → Client × ClientAnswer
  | .applySnapshot now canceled o => c.begin (.snapshot o) (c.session.beginSnapshot k now canceled o)
  | .applyDelta now canceled d => c.begin (.delta d) (c.session.beginDelta k now canceled d)
  | .prepared now r => c.prepared now r
  | .markReady now canceled edgeReady routeReady originReady =>
    c.markReady now canceled edgeReady routeReady originReady
  | .activated now succeeded canceled => c.activationReturned now succeeded canceled
  | .heartbeat now => c.answer (c.session.heartbeat now)
  | .acceptHeartbeatAck now a => c.answer (c.session.acceptHeartbeatAck now a)
  | .handleDrain canceled now d => c.handleDrain canceled now d
  | .drainStopped d failed => c.drainStopped d failed
  | .drainCounted d streams => c.drainCounted d streams
  | .drainProgress canceled now streams forced => c.answer (c.session.drainProgress canceled now streams forced)
  | .checkLease now => c.answer (c.session.checkLease now)
  | .close reason abortFails => c.close reason abortFails

def step (k : PayloadChecks) (op : ClientOp) : Client := (c.perform k op).1

end Client

end Paperboat.Connector
