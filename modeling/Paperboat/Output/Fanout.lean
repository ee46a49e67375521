/-
The fanout of a session's output to its attachments (hostruntime/session/fanout.go).

Every attachment is a cursor into one ring. The methods are those of the source, each
one critical section of the fanout's own lock; a read that waits for output is one round
of its loop, so a read that was woken is another read. The clock is a parameter.

Results:
- `foldl_lower`: the loop of a compaction finds the least cursor that holds output;
- `compactLocked_frees`, `compactAfterAdvanceLocked_frees`: a compaction changes nothing
  but the ring, and keeps every byte that some cursor has not read yet;
- `next_eq`: the two reads that take an event are one.

Premises:
- sequence numbers and byte counts are natural numbers. The source's unsigned
  subtractions agree with the truncated ones here as long as nothing is taken from less;
  that it never is, is part of the invariant of the deliveries;
- the lock-free index of attached identifiers, the wake-up channels, and the byte count
  kept for the status of an evicted attachment are left out.
-/
import Paperboat.Core.Table
import Paperboat.Output.Ring

namespace Paperboat.Output

inductive FanoutError where
  | attachmentExists
  | attachmentUnknown
  | attachmentEvicted
  | attachmentLagged
  | outputOrder
  | invalidQueueLimit
  | invalidTransition
  | resourceLimit
  deriving DecidableEq, Repr

inductive AttachmentState where
  | attaching
  | attached
  | detached
  | evicted
  deriving DecidableEq, Repr

structure Eviction where
  attachmentID : String
  queuedBytes : ℕ
  reason : String
  deriving DecidableEq, Repr

structure AttachmentCursor where
  lease : ℕ
  state : AttachmentState
  receiveOutput : Bool
  /-- the controlling owner, whose queue holds the program back -/
  backpressure : Bool
  /-- may become the controller -/
  owner : Bool
  lagged : Bool
  progressAt : ℕ
  maxBytes : ℕ
  queuedBytes : ℕ
  cursor : ℕ
  enqueuedEnd : ℕ
  hasCursor : Bool
  deriving DecidableEq, Repr

structure Fanout where
  lastLease : ℕ
  attachments : AList fun _ : String => AttachmentCursor
  ring : Ring
  minimum : ℕ
  haveMinimum : Bool
  atMinimum : ℤ

namespace AttachmentCursor

variable (c : AttachmentCursor)

/-- a cursor that holds output in the ring -/
def holds : Bool := c.state = .attached && c.hasCursor

/-- an attached cursor that is fed by the fanout -/
def receives : Bool := c.state = .attached && c.receiveOutput

/-- an event of this size does not fit the queue -/
def overflows (size : ℕ) : Bool := size > c.maxBytes - c.queuedBytes

/-- the event is queued -/
def queue (event : Event) : AttachmentCursor :=
  { c with
    cursor := if c.hasCursor then c.cursor else event.startSequence
    hasCursor := true
    enqueuedEnd := event.endSequence
    queuedBytes := c.queuedBytes + event.data.length }

/-- the backlog is dropped, the event included -/
def lag (event : Event) : AttachmentCursor :=
  { c with
    cursor := event.endSequence, enqueuedEnd := event.endSequence, hasCursor := true, queuedBytes := 0, lagged := true }

def evict : AttachmentCursor := { c with queuedBytes := 0, state := .evicted }

/-- the cursor is put at `n`, with nothing queued -/
def moved (n : ℕ) : AttachmentCursor :=
  { c with cursor := n, enqueuedEnd := n, hasCursor := true, queuedBytes := 0 }

/-- an attachment's round of the loop of PublishOwned -/
def publish (event : Event) (c : AttachmentCursor) : AttachmentCursor :=
  if !c.receives then c
  else if c.overflows event.data.length then if !c.backpressure then c.lag event else c.evict
  else c.queue event

/-- a position the reader may confirm: beyond the cursor, in the queue -/
def confirms (n : ℕ) : Bool := c.hasCursor && n > c.cursor && n ≤ c.enqueuedEnd

/-- the cursor has read up to `n` -/
def drained (n now : ℕ) : AttachmentCursor :=
  { c with queuedBytes := c.queuedBytes - (n - c.cursor), cursor := n, progressAt := now }

end AttachmentCursor

/-! ## Compaction -/

/-- one round of the loop of compactLocked over the attachments: the minimum, whether there is one, how many are on
it -/
def lower (acc : ℕ × Bool × ℤ) (c : AttachmentCursor) : ℕ × Bool × ℤ :=
  if !c.holds then acc
  else if !acc.2.1 || c.cursor < acc.1 then (c.cursor, true, 1)
  else if c.cursor = acc.1 then (acc.1, acc.2.1, acc.2.2 + 1)
  else acc

namespace Fanout

def new : Fanout :=
  { lastLease := 0, attachments := ∅, ring := ⟨[], 0⟩, minimum := 0, haveMinimum := false, atMinimum := 0 }

variable (f : Fanout) (attachmentID : String)

def cursors : List AttachmentCursor := f.attachments.entries.map Sigma.snd

def compactLocked : Fanout :=
  let (minimum, haveMinimum, atMinimum) := f.cursors.foldl lower (0, false, 0)
  { f with minimum, haveMinimum, atMinimum, ring := if haveMinimum then f.ring.free minimum else ⟨[], 0⟩ }

/-- after a cursor moved on from `previous`: a compaction only when it was the last on the minimum -/
def compactAfterAdvanceLocked (previous : ℕ) : Fanout :=
  if !f.haveMinimum || previous ≠ f.minimum then f
  else if f.atMinimum - 1 > 0 then { f with atMinimum := f.atMinimum - 1 }
  else ({ f with atMinimum := f.atMinimum - 1 }).compactLocked

def release : Fanout := f.compactLocked

/-- the cursor under an identifier is written -/
def set (c : AttachmentCursor) : Fanout :=
  { f with attachments := f.attachments.insert attachmentID c }

/-! ## Attaching -/

def attach (maxPendingBytes : ℕ) (receiveOutput : Bool) (now : ℕ) :
    Except FanoutError Fanout :=
  if attachmentID = "" ∨ maxPendingBytes = 0 then .error .invalidQueueLimit
  else if (f.attachments.lookup attachmentID).any fun c => c.state = .attached then .error .attachmentExists
  else if f.lastLease = maxSequence then .error .resourceLimit
  else .ok
    { f with
      lastLease := f.lastLease + 1
      attachments := f.attachments.insert attachmentID
        { lease := f.lastLease + 1, state := .attached, receiveOutput, backpressure := false,
          owner := false, lagged := false,
          progressAt := now, maxBytes := maxPendingBytes, queuedBytes := 0, cursor := 0, enqueuedEnd := 0,
          hasCursor := false } }

/-- a window that may pace the program -/
def attachBackpressured (maxPendingBytes now : ℕ) : Except FanoutError Fanout :=
  match f.attach attachmentID maxPendingBytes true now with
  | .error err => .error err
  | .ok f =>
    match f.attachments.lookup attachmentID with
    | none => .ok f
    | some c => .ok (f.set attachmentID { c with owner := true })

/-- a participant whose output comes another way -/
def attachControl (maxPendingBytes now : ℕ) : Except FanoutError Fanout :=
  f.attach attachmentID maxPendingBytes false now

def detach : Except FanoutError Fanout :=
  match f.attachments.lookup attachmentID with
  | none => .error .attachmentUnknown
  | some c =>
    if c.state ≠ .attached ∧ c.state ≠ .evicted then .error .invalidTransition
    else .ok ({ f with attachments := f.attachments.erase attachmentID }).compactLocked

def count : ℕ := f.cursors.countP fun c => c.state = .attached

def setController (now : ℕ) : Fanout :=
  match f.attachments.lookup attachmentID with
  | none => { f with attachments := Table.map (fun c => { c with backpressure := false }) f.attachments }
  | some target =>
    if target.backpressure then f
    else
      let free := { f with attachments := Table.map (fun c => { c with backpressure := false }) f.attachments }
      if target.state = .attached ∧ target.owner then
        free.set attachmentID { target with backpressure := true, progressAt := now }
      else free

/-- the test of WaitRoom: an attachment that paces has no room, and drained something within the bound -/
def full (size stall now : ℕ) : Bool :=
  f.cursors.any fun c => c.state = .attached && c.backpressure && c.overflows size && now - c.progressAt < stall

def skipTo (nextSequence : ℕ) : Except FanoutError Fanout :=
  match f.attachments.lookup attachmentID with
  | none => .error .attachmentUnknown
  | some c =>
    if c.state ≠ .attached then .error .attachmentUnknown
    else if !c.receiveOutput then .ok (f.set attachmentID (c.moved nextSequence)).compactLocked
    else if c.hasCursor ∧ (nextSequence < c.cursor ∨ nextSequence > c.enqueuedEnd) then .error .outputOrder
    else
      let enqueuedEnd := if c.hasCursor then c.enqueuedEnd else nextSequence
      let f' := f.set attachmentID
        { c with cursor := nextSequence, enqueuedEnd, hasCursor := true, queuedBytes := enqueuedEnd - nextSequence }
      .ok (if c.hasCursor then f'.compactAfterAdvanceLocked c.cursor else f'.compactLocked)

/-! ## Output -/

def validOutputEvent (event : Event) : Bool :=
  event.endSequence ≥ event.startSequence && event.endSequence - event.startSequence = event.data.length &&
    event.data.length ≠ 0

/-- the attachments an event puts out -/
def evictions (event : Event) : List Eviction :=
  f.attachments.entries.filterMap fun e =>
    if e.2.receives && e.2.overflows event.data.length && e.2.backpressure then
      some ⟨e.1, e.2.queuedBytes, "slow_consumer"⟩
    else none

/-- the event goes into the ring, and to every attachment -/
def spread (event : Event) : Fanout :=
  { f with
    ring := f.ring.insertEventLocked event
    attachments := Table.map (AttachmentCursor.publish event) f.attachments }

def publishOwned (event : Event) : Except FanoutError (List Eviction × Fanout) :=
  if !validOutputEvent event then .error .outputOrder
  else if f.cursors.any fun c => c.receives && c.hasCursor && c.enqueuedEnd ≠ event.startSequence then
    .error .outputOrder
  else .ok (f.evictions event, (f.spread event).compactLocked)

def enqueueOwned (event : Event) : Except FanoutError (Option Eviction × Fanout) :=
  if !validOutputEvent event then .error .outputOrder
  else
    match f.attachments.lookup attachmentID with
    | none => .error .attachmentUnknown
    | some c =>
      if c.state = .evicted then .error .attachmentEvicted
      else if c.state ≠ .attached then .error .invalidTransition
      else if c.hasCursor ∧ c.enqueuedEnd ≠ event.startSequence then .error .outputOrder
      else if c.overflows event.data.length then
        .ok (some ⟨attachmentID, c.queuedBytes, "slow_consumer"⟩, (f.set attachmentID c.evict).compactLocked)
      else .ok (none, ({ f with ring := f.ring.insertEventLocked event }).set attachmentID (c.queue event))

/-! ## Reads -/

/-- what one round of a read answers -/
inductive Read where
  | event (e : Event)
  | failed (err : FanoutError)
  /-- nothing to read yet -/
  | waiting
  deriving DecidableEq, Repr

/-- the checks every read begins with; a lease of zero is any lease -/
def reader (lease : ℕ) : Except FanoutError AttachmentCursor :=
  match f.attachments.lookup attachmentID with
  | none => .error .attachmentUnknown
  | some c =>
    if lease ≠ 0 ∧ c.lease ≠ lease then .error .attachmentUnknown
    else if c.state = .evicted then .error .attachmentEvicted
    else if c.state ≠ .attached then .error .invalidTransition
    else .ok c

/-- the cursor of an attachment moves to `n` -/
def advance (c : AttachmentCursor) (n now : ℕ) : Fanout :=
  (f.set attachmentID (c.drained n now)).compactAfterAdvanceLocked c.cursor

/-- `fromSequence` confirms what is before it; the event at the cursor is returned and stays -/
def waitNextFromLease (fromSequence lease now : ℕ) : Read × Fanout :=
  match f.reader attachmentID lease with
  | .error err => (.failed err, f)
  | .ok c =>
    if c.lagged then (.failed .attachmentLagged, f.set attachmentID { c with lagged := false })
    else
      let cursor := if c.confirms fromSequence then fromSequence else c.cursor
      let f' := if c.confirms fromSequence then f.advance attachmentID c fromSequence now else f
      if c.hasCursor && cursor < c.enqueuedEnd then
        match f'.ring.eventAtLocked cursor with
        | none => (.failed .outputOrder, f')
        | some event => (.event (event.trim cursor), f')
      else (.waiting, f')

def waitNextFrom (fromSequence now : ℕ) : Read × Fanout :=
  f.waitNextFromLease attachmentID fromSequence 0 now

/-- the event at the cursor is taken -/
def waitNextOwned (now : ℕ) : Read × Fanout :=
  match f.reader attachmentID 0 with
  | .error err => (.failed err, f)
  | .ok c =>
    if c.lagged then (.failed .attachmentLagged, f.set attachmentID { c with lagged := false })
    else if c.hasCursor && c.cursor < c.enqueuedEnd then
      match f.ring.eventAtLocked c.cursor with
      | none => (.failed .outputOrder, f)
      | some event => (.event (event.trim c.cursor), f.advance attachmentID c event.endSequence now)
    else (.waiting, f)

/-- as `waitNextOwned`, but the caller never waits: nothing to read is an answer -/
def next (now : ℕ) : Read × Fanout :=
  match f.reader attachmentID 0 with
  | .error err => (.failed err, f)
  | .ok c =>
    if c.lagged then (.failed .attachmentLagged, f.set attachmentID { c with lagged := false })
    else if !c.hasCursor || c.cursor ≥ c.enqueuedEnd then (.waiting, f)
    else
      match f.ring.eventAtLocked c.cursor with
      | none => (.failed .outputOrder, f)
      | some event => (.event (event.trim c.cursor), f.advance attachmentID c event.endSequence now)

theorem next_eq (now : ℕ) : f.next attachmentID now = f.waitNextOwned attachmentID now := by
  unfold next waitNextOwned
  cases f.reader attachmentID 0 with
  | error err => rfl
  | ok c =>
    have hempty : (!c.hasCursor || decide (c.cursor ≥ c.enqueuedEnd)) =
        !(c.hasCursor && decide (c.cursor < c.enqueuedEnd)) := by
      rw [Bool.not_and, ← decide_not]
      simp only [not_lt, ge_iff_le]
    simp only [hempty, Bool.not_eq_true']
    cases c.hasCursor && decide (c.cursor < c.enqueuedEnd) <;> simp

/-! ## What a compaction keeps -/

theorem mem_cursors {f : Fanout} {c : AttachmentCursor} : c ∈ f.cursors ↔ ∃ id, f.attachments.lookup id = some c := by
  unfold cursors
  simp only [List.mem_map, Sigma.exists, exists_eq_right]
  exact exists_congr fun id => AList.mem_lookup_iff.symm

end Fanout

variable {c : AttachmentCursor}

theorem lower_of_holds (acc : ℕ × Bool × ℤ) (h : c.holds = true) :
    (lower acc c).2.1 = true ∧ (lower acc c).1 ≤ c.cursor ∧ (acc.2.1 = true → (lower acc c).1 ≤ acc.1) ∧
      ((lower acc c).1 = c.cursor ∨ acc.2.1 = true ∧ (lower acc c).1 = acc.1) := by
  obtain ⟨minimum, haveMinimum, atMinimum⟩ := acc
  cases haveMinimum with
  | false => simp [lower, h]
  | true =>
    simp only [lower, h, Bool.not_true, Bool.false_or, Bool.false_eq_true, if_false, decide_eq_true_eq, true_and]
    split_ifs with hlt heq
    · exact ⟨rfl, le_rfl, fun _ => hlt.le, .inl rfl⟩
    · exact ⟨rfl, heq.ge, fun _ => le_rfl, .inl heq.symm⟩
    · exact ⟨rfl, not_lt.1 hlt, fun _ => le_rfl, .inr rfl⟩

/-- the loop of a compaction: the least cursor that holds output -/
theorem foldl_lower (cs : List AttachmentCursor) (acc : ℕ × Bool × ℤ) :
    ((cs.foldl lower acc).2.1 = true ↔ acc.2.1 = true ∨ ∃ c ∈ cs, c.holds = true) ∧
      (acc.2.1 = true → (cs.foldl lower acc).1 ≤ acc.1) ∧
      (∀ c ∈ cs, c.holds = true → (cs.foldl lower acc).1 ≤ c.cursor) ∧
      ((cs.foldl lower acc).2.1 = true →
        acc.2.1 = true ∧ (cs.foldl lower acc).1 = acc.1 ∨ ∃ c ∈ cs, c.holds = true ∧
          c.cursor = (cs.foldl lower acc).1) := by
  induction cs generalizing acc with
  | nil => simp
  | cons c cs ih =>
    rw [List.foldl_cons]
    obtain ⟨hhave, hacc, hall, hsome⟩ := ih (lower acc c)
    by_cases hholds : c.holds = true
    · obtain ⟨htrue, hle, hle', heq⟩ := lower_of_holds acc hholds
      refine ⟨?_, fun h => (hacc htrue).trans (hle' h), fun c' hc' hholds' => ?_, fun h => ?_⟩
      · simp [hhave, htrue, hholds]
      · rcases List.mem_cons.1 hc' with rfl | hc'
        · exact (hacc htrue).trans hle
        · exact hall c' hc' hholds'
      · rcases hsome h with ⟨-, hfirst⟩ | ⟨c', hc', hfound⟩
        · rcases heq with heq | ⟨hbefore, heq⟩
          · exact .inr ⟨c, List.mem_cons_self, hholds, (hfirst.trans heq).symm⟩
          · exact .inl ⟨hbefore, hfirst.trans heq⟩
        · exact .inr ⟨c', List.mem_cons_of_mem c hc', hfound⟩
    · rw [show lower acc c = acc by simp [lower, hholds]] at hhave hacc hall hsome ⊢
      refine ⟨by simp [hhave, hholds], hacc, fun c' hc' hholds' => ?_, fun h => ?_⟩
      · rcases List.mem_cons.1 hc' with rfl | hc'
        · exact absurd hholds' hholds
        · exact hall c' hc' hholds'
      · rcases hsome h with hbefore | ⟨c', hc', hfound⟩
        · exact .inl hbefore
        · exact .inr ⟨c', List.mem_cons_of_mem c hc', hfound⟩

namespace Fanout

/-- only the ring changes, and it keeps what some cursor still has to read -/
structure Frees (log : List Event) (f f' : Fanout) : Prop where
  lastLease : f'.lastLease = f.lastLease
  attachments : f'.attachments = f.attachments
  sound : f.ring.Sound log → f'.ring.Sound log
  keeps : ∀ {id c k}, f.attachments.lookup id = some c → c.holds = true → c.cursor ≤ k → f.ring.Covers k →
    f'.ring.Covers k

theorem compactLocked_frees (log : List Event) (f : Fanout) : Frees log f f.compactLocked := by
  obtain ⟨hhave, -, hall, -⟩ := foldl_lower f.cursors (0, false, 0)
  unfold compactLocked
  generalize f.cursors.foldl lower (0, false, 0) = r at hhave hall
  obtain ⟨minimum, haveMinimum, atMinimum⟩ := r
  refine ⟨rfl, rfl, fun hsound => ?_, fun {id c k} hlookup hholds hk hcovers => ?_⟩
  · dsimp only
    split_ifs
    · exact hsound.free minimum
    · exact .empty
  · have hmem : c ∈ f.cursors := mem_cursors.2 ⟨id, hlookup⟩
    have htrue : haveMinimum = true := hhave.2 (.inr ⟨c, hmem, hholds⟩)
    dsimp only
    rw [if_pos htrue]
    exact hcovers.free ((hall c hmem hholds).trans hk)

theorem compactAfterAdvanceLocked_frees (log : List Event) (f : Fanout) (previous : ℕ) :
    Frees log f (f.compactAfterAdvanceLocked previous) := by
  unfold compactAfterAdvanceLocked
  split_ifs
  · exact ⟨rfl, rfl, id, fun _ _ _ h => h⟩
  · exact ⟨rfl, rfl, id, fun _ _ _ h => h⟩
  · have h := compactLocked_frees log { f with atMinimum := f.atMinimum - 1 }
    exact { h with }

end Fanout

end Paperboat.Output
