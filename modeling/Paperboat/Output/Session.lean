/-
The output path of one terminal session: what its manager does with its history and its
fanout (hostruntime/session: manager_capture.go, manager_input.go, manager_attach.go,
window_size_manager.go).

Output of the program and resize records are appended to the history and published, in
one piece under the session lock. An attach takes the same lock, asks the history for a
replay and queues its events one after the other; reads, and the moves of the controller
that typing causes, need only the fanout's lock and come in between. So an attach is a
state of the machine: while it lasts, whatever needs the session lock waits. Everything
else happens in any order, which is what a run is.

`log` records the events of the history from the start, and `seen` what the reader of
every attachment went through, by the lease of the attachment. Nothing reads them back.
-/
import Paperboat.Core.Json
import Paperboat.Core.Machine
import Paperboat.Output.Fanout

namespace Paperboat.Output

/-- the configuration of the manager, checked when it starts -/
structure Config where
  attachmentBytes : ℕ
  maxAttachments : ℕ
  positive : 0 < attachmentBytes

def initialReplayBytes : ℕ := 64 * 1024

/-- in milliseconds -/
def ownerStallBound : ℕ := 5000

def attachmentReplayLimit (attachmentBytes : ℕ) : ℕ :=
  let limit := if attachmentBytes / 2 = 0 then 1 else attachmentBytes / 2
  if limit > initialReplayBytes then initialReplayBytes else limit

def decimalBytes (n : ℕ) : Bytes := (Json.natDecimal n).map fun c => c.toNat.toUInt8

/-- the record of a resize, ESC [ 8 ; rows ; columns t -/
def resizeOutput (rows columns : ℕ) : Bytes :=
  [0x1b, 0x5b, 0x38, 0x3b] ++ decimalBytes rows ++ [0x3b] ++ decimalBytes columns ++ [0x74]

/-- why a reader is moved forward -/
inductive Jump where
  | lagged
  | skipped
  deriving DecidableEq, Repr

/-- what the reader of an attachment goes through; a byte counts with its channel -/
abbrev Seen := Reading (UInt8 × UInt8) Jump

/-- an attach that holds the session lock, with the replayed events it has not queued yet -/
structure Attaching where
  attachmentID : String
  remaining : List Event

structure Session where
  history : History
  fanout : Fanout
  attaching : Option Attaching
  now : ℕ
  log : List Event
  /-- latest first -/
  seen : List (ℕ × Seen)

inductive Op where
  /-- the program printed -/
  | output (data : Bytes)
  | resize (rows columns : ℕ)
  | attach (attachmentID : String) (fromSequence : ℕ) (controlOnly backpressure : Bool)
  /-- the attach under way queues its next event -/
  | enqueue
  | detach (attachmentID : String)
  /-- a screen of the current output was made for the attachment -/
  | skipTo (attachmentID : String)
  | clear
  /-- the terminal stopped -/
  | release
  | setController (attachmentID : String)
  | waitRoom (size : ℕ)
  | waitNextFrom (attachmentID : String) (fromSequence lease : ℕ)
  | waitNextOwned (attachmentID : String)
  | next (attachmentID : String)
  /-- time passes -/
  | tick (d : ℕ)
  deriving DecidableEq, Repr

inductive Answer where
  | done
  /-- the session lock is taken -/
  | blocked
  | published (evictions : List Eviction)
  | attached (replay : Replay)
  | room (full : Bool)
  | read (r : Fanout.Read)
  | failed (err : FanoutError)
  | refused (err : HistoryError)
  deriving DecidableEq, Repr

/-- what a confirming read shows its reader, latest first -/
def AttachmentCursor.seenFrom (c : AttachmentCursor) (fromSequence : ℕ) : Fanout.Read → List Seen
  | .event e => .shown e.startSequence e.content :: if c.confirms fromSequence then [.confirmed fromSequence] else []
  | .waiting => if c.confirms fromSequence then [.confirmed fromSequence] else []
  | .failed .attachmentLagged => [.jumped .lagged c.cursor]
  | .failed _ => []

/-- what a read that takes the event shows its reader -/
def AttachmentCursor.seenTaken (c : AttachmentCursor) : Fanout.Read → List Seen
  | .event e => [.took e.startSequence e.content]
  | .failed .attachmentLagged => [.jumped .lagged c.cursor]
  | _ => []

namespace Session

def start (history : History) : Session :=
  { history, fanout := .new, attaching := none, now := 0, log := history.events, seen := [] }

/-- what the reader with this lease went through, latest first -/
def trace (s : Session) (lease : ℕ) : List Seen := s.seen.filterMap fun p => if p.1 = lease then some p.2 else none

/-- the reader of the attachment goes through `rs`, latest first -/
def note (s : Session) (attachmentID : String) (rs : AttachmentCursor → List Seen) : List (ℕ × Seen) :=
  match s.fanout.attachments.lookup attachmentID with
  | none => s.seen
  | some c => (rs c).map (fun r => (c.lease, r)) ++ s.seen

/-- an append and its publication, under the session lock -/
def publish (s : Session) (channel : UInt8) (data : Bytes) : Answer × Session :=
  match s.history.appendOwned channel data with
  | .error err => (.refused err, s)
  | .ok (event, history) =>
    match s.fanout.publishOwned event with
    | .error err => (.failed err, { s with history, log := s.log ++ [event] })
    | .ok (evictions, fanout) => (.published evictions, { s with history, fanout, log := s.log ++ [event] })

/-- the first part of attachLocked; the loop over the replayed events follows step by step -/
def attachLocked (config : Config) (s : Session) (attachmentID : String) (fromSequence : ℕ)
    (controlOnly backpressure : Bool) : Answer × Session :=
  if s.fanout.count ≥ config.maxAttachments then (.failed .resourceLimit, s)
  else if controlOnly then
    match s.fanout.attachControl attachmentID config.attachmentBytes s.now with
    | .error err => (.failed err, s)
    | .ok fanout =>
      (.attached ⟨s.history.latest, s.history.latest, s.history.earliest, s.history.latest, []⟩,
        { s with fanout, seen := (fanout.lastLease, .started s.history.latest []) :: s.seen })
  else
    match s.history.attachReplay fromSequence (attachmentReplayLimit config.attachmentBytes) with
    | .error err => (.refused err, s)
    | .ok replay =>
      match if backpressure then s.fanout.attachBackpressured attachmentID config.attachmentBytes s.now
        else s.fanout.attach attachmentID config.attachmentBytes true s.now with
      | .error err => (.failed err, s)
      | .ok fanout =>
        (.attached replay,
          { s with
            fanout
            attaching := if replay.events = [] then none else some ⟨attachmentID, replay.events⟩
            seen := (fanout.lastLease, .started replay.fromSequence (replay.events.flatMap Event.content)) :: s.seen })

/-- an attach that fails takes its attachment back -/
def abandon (s : Session) (fanout : Fanout) (attachmentID : String) (err : FanoutError) : Answer × Session :=
  (.failed err,
    { s with
      fanout := match fanout.detach attachmentID with
        | .error _ => fanout
        | .ok fanout => fanout
      attaching := none })

/-- one round of the loop of attachLocked -/
def enqueue (s : Session) : Answer × Session :=
  match s.attaching with
  | none => (.done, s)
  | some ⟨_, []⟩ => (.done, { s with attaching := none })
  | some ⟨attachmentID, event :: rest⟩ =>
    match s.fanout.enqueueOwned attachmentID event with
    | .error err => s.abandon s.fanout attachmentID err
    | .ok (some _, fanout) => s.abandon fanout attachmentID .attachmentEvicted
    | .ok (none, fanout) =>
      (.done, { s with fanout, attaching := if rest = [] then none else some ⟨attachmentID, rest⟩ })

/-- what needs the session lock waits for it -/
def locked (s : Session) (act : Answer × Session) : Answer × Session :=
    if s.attaching.isSome then (.blocked, s) else act

def exec (config : Config) (s : Session) : Op → Answer × Session
  | .output data => s.locked (if data = [] then (.done, s) else s.publish 1 data)
  | .resize rows columns => s.locked (s.publish 2 (resizeOutput rows columns))
  | .attach attachmentID fromSequence controlOnly backpressure =>
    s.locked (s.attachLocked config attachmentID fromSequence controlOnly backpressure)
  | .enqueue => s.enqueue
  | .detach attachmentID =>
    s.locked (match s.fanout.detach attachmentID with
      | .error err => (.failed err, s)
      | .ok fanout => (.done, { s with fanout }))
  | .skipTo attachmentID =>
    s.locked (match s.fanout.skipTo attachmentID s.history.latest with
      | .error err => (.failed err, s)
      | .ok fanout =>
        (.done, { s with fanout, seen := s.note attachmentID fun _ => [.jumped .skipped s.history.latest] }))
  | .clear => s.locked (.done, { s with history := s.history.clear })
  | .release => s.locked (.done, { s with history := s.history.clear, fanout := s.fanout.release })
  | .setController attachmentID => (.done, { s with fanout := s.fanout.setController attachmentID s.now })
  | .waitRoom size => (.room (s.fanout.full size ownerStallBound s.now), s)
  | .waitNextFrom attachmentID fromSequence lease =>
    let (r, fanout) := s.fanout.waitNextFromLease attachmentID fromSequence lease s.now
    (.read r, { s with fanout, seen := s.note attachmentID fun c => c.seenFrom fromSequence r })
  | .waitNextOwned attachmentID =>
    let (r, fanout) := s.fanout.waitNextOwned attachmentID s.now
    (.read r, { s with fanout, seen := s.note attachmentID fun c => c.seenTaken r })
  | .next attachmentID =>
    let (r, fanout) := s.fanout.next attachmentID s.now
    (.read r, { s with fanout, seen := s.note attachmentID fun c => c.seenTaken r })
  | .tick d => (.done, { s with now := s.now + d })

def step (config : Config) (s : Session) (op : Op) : Session := (s.exec config op).2

/-- the state after the operations -/
def after (config : Config) (history : History) (ops : List Op) : Session :=
  Machine.run (step config) (start history) ops

end Session

end Paperboat.Output
