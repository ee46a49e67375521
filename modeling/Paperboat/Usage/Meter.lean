/-
The usage meter of the tunnel: counters of bytes, the queue of signed reports, and what
was last reported.

Record, Flush and pruneDelivered hold the meter's lock, but the queue has its own:
acknowledgements come between any two steps of theirs. So each is a `Phase` that goes on
step by step, and an operation of another phase does nothing. The clock is read as often
as the source reads it, and only moves on; times are nanoseconds since 1970.

Results:
- `newest_le_iff`: the largest absolute among reports;
- `Ledger.enqueue_cases`: a counter of a Flush has nothing new, or is reported;
- `Queue.enqueueLatest_cases`: a report is refused, is nothing new, or takes the place
  of the one of its identity.

Premises:
- an operation ID is what the source hashes, the key and the bytes;
- signing is one answer: the size of the payload, or a failure;
- a counter epoch is the number of the process and, with an authority, the delivery
  window, which the source puts into one text;
- `sent`, `acked`, `recorded` and `pruned` are not in the source: they keep what a run
  has done.
-/
import Paperboat.Core.Keyed
import Paperboat.Core.Table
import Paperboat.Core.Machine

namespace Paperboat.Usage

open Keyed Table Index

/-! ## Counters -/

def maxUint64 : ℕ := 2 ^ 64 - 1

/-- seven days -/
def deliveryWindow : ℕ := 7 * 24 * 3600 * 1000000000

/-- the delivery window of a time: the seconds of Unix time, in weeks -/
def window (time : ℕ) : ℕ := time / 1000000000 / (deliveryWindow / 1000000000)

inductive Direction
  | ingress
  | egress
deriving DecidableEq, Repr

structure Epoch where
  process : ℕ
  window : Option ℕ
deriving DecidableEq, Repr

structure Key where
  authority : String
  node : String
  epoch : Epoch
  environment : String
  route : String
  direction : Direction
  revision : ℕ
deriving DecidableEq, Repr

def Key.counterIdentity (k : Key) : Key := { k with revision := 0 }

structure CounterRecord where
  observedAt : ℕ
  key : Key
  bytes : ℕ
deriving DecidableEq, Repr

/-- both by identity -/
structure Counters where
  values : AList fun _ : Key => CounterRecord := ∅
  restoredBaseline : AList fun _ : Key => ℕ := ∅

namespace Counters

/-- the record after `n` more bytes; it keeps the latest revision -/
def added (old : Option CounterRecord) (k : Key) (n at_ : ℕ) : CounterRecord :=
  match old with
  | none => ⟨at_, k, min maxUint64 n⟩
  | some r => ⟨at_, if r.key.revision ≤ k.revision then k else r.key, min maxUint64 (r.bytes + n)⟩

def addAt (c : Counters) (k : Key) (n at_ : ℕ) : Counters :=
  { c with values := c.values.insert k.counterIdentity (added (c.values.lookup k.counterIdentity) k n at_) }

def canAdd (c : Counters) (keys : List Key) (limit : ℕ) : Bool :=
  c.values.entries.length + (keys.filter fun k => (c.values.lookup k.counterIdentity).isNone).length ≤ limit

end Counters

/-! ## The queue -/

/-- `size` is the length of the payload -/
structure Report where
  key : Key
  bytes : ℕ
  start : ℕ
  finish : ℕ
  size : ℕ
deriving DecidableEq, Repr

def Report.identity (r : Report) : Key := r.key.counterIdentity

def Report.operationID (r : Report) : Key × ℕ := (r.key, r.bytes)

/-- `pending` is in order -/
structure Queue where
  maxReports : ℕ
  maxBytes : ℕ
  bytes : ℕ := 0
  pending : List Report := []
deriving DecidableEq, Repr

open Report

namespace Queue

/-- the queue after the report, and whether it has been taken; `none` is ErrQueueFull -/
def enqueueLatest (q : Queue) (report : Report) : Option (Queue × Bool) :=
  if report.size = 0 || q.maxBytes < report.size then none
  else match entry identity q.pending report.identity with
    | some current =>
      if report.bytes ≤ current.bytes then some (q, false)
      else if q.maxBytes < q.bytes - current.size + report.size then none
      else some ({ q with pending := upsert identity q.pending report
                          bytes := q.bytes - current.size + report.size }, true)
    | none =>
      if q.maxReports ≤ q.pending.length || q.maxBytes < q.bytes + report.size then none
      else some ({ q with pending := upsert identity q.pending report, bytes := q.bytes + report.size }, true)

def ack (q : Queue) (id : Key × ℕ) : Queue :=
  match entry operationID q.pending id with
  | some report => { q with pending := q.pending.filter (·.operationID ≠ id), bytes := q.bytes - report.size }
  | none => q

def hasKey (q : Queue) (k : Key) : Bool := q.pending.any (·.identity == k)

end Queue

/-! ## The meter -/

/-- what the meter keeps -/
structure Ledger where
  node : String
  process : ℕ
  queue : Queue
  clock : ℕ := 0
  counters : Counters := {}
  last : AList fun _ : Key => ℕ := ∅
  start : AList fun _ : Key => ℕ := ∅
  sent : List Report := []
  acked : List Report := []
  recorded : Key → ℕ := fun _ => 0
  pruned : List Key := []

namespace Ledger

variable (s : Ledger)

def lastOf (k : Key) : ℕ := (s.last.lookup k).getD 0

/-- the clock moves on -/
def tick (elapsed : ℕ) : Ledger := { s with clock := s.clock + elapsed }

/-- the counters a Record adds to; its epoch is that of the first reading of the clock -/
def addsOf (environment route : String) (revision ingress egress : ℕ) (authority : String) : List (Key × ℕ) :=
  let epoch : Epoch := ⟨s.process, if authority = "" then none else some (window s.clock)⟩
  let key (direction : Direction) : Key := ⟨authority, s.node, epoch, environment, route, direction, revision⟩
  (if ingress = 0 then [] else [(key .ingress, ingress)]) ++ if egress = 0 then [] else [(key .egress, egress)]

def canAdd (adds : List (Key × ℕ)) : Bool := s.counters.canAdd (adds.map (·.1)) s.queue.maxReports

/-- delivered, and not seen for longer than the delivery window -/
def prunable (now : ℕ) (k : Key) : Bool :=
  match s.counters.values.lookup k with
  | some r => deliveryWindow < now - r.observedAt && r.bytes ≤ s.lastOf k && !s.queue.hasKey k
  | none => false

def drop (k : Key) : Ledger :=
  { s with
    counters := ⟨s.counters.values.erase k, s.counters.restoredBaseline.erase k⟩
    last := s.last.erase k
    start := s.start.erase k
    pruned := k :: s.pruned }

def add (k : Key) (n : ℕ) : Ledger :=
  { s with
    counters := s.counters.addAt k n s.clock
    recorded := Function.update s.recorded k.counterIdentity (min maxUint64 (s.recorded k.counterIdentity + n)) }

/-- the report of a counter; it goes on where the last one ended -/
def reportOf (k : Key) (r : CounterRecord) (size : ℕ) : Report :=
  let start := (s.start.lookup k).getD r.observedAt
  ⟨r.key, r.bytes, if r.observedAt < start then r.observedAt else start, r.observedAt, size⟩

/-- the counter is reported: the report was taken, or there was one with as many bytes -/
def reported (k : Key) (r : CounterRecord) (q : Queue) (taken : Bool) (report : Report) : Ledger :=
  { s with
    queue := q
    last := s.last.insert k r.bytes
    start := s.start.insert k r.observedAt
    sent := if taken then s.sent ++ [report] else s.sent }

/-- one counter of a Flush; `none` is a failure -/
def enqueue (k : Key) (size : Option ℕ) : Option Ledger :=
  match s.counters.values.lookup k with
  | none => some s
  | some r =>
    if r.bytes = 0 || r.bytes ≤ s.lastOf k then some s
    else size.bind fun n => (s.queue.enqueueLatest (s.reportOf k r n)).map fun e =>
      s.reported k r e.1 e.2 (s.reportOf k r n)

/-- a report that Next has returned is delivered and acknowledged; it may have been replaced in the queue meanwhile -/
def ack (report : Report) : Ledger :=
  if s.sent.contains report then { s with queue := s.queue.ack report.operationID, acked := s.acked ++ [report] } else s

end Ledger

/-- what the holder of the lock has still to do: a Record before its pruning and in it, with what it is to add, and
in its additions; a Flush with the counters it has not looked at. The counters do not change while a Flush goes
through them. -/
inductive Phase
  | idle
  | full (adds : List (Key × ℕ))
  | pruning (adds : List (Key × ℕ)) (now : ℕ) (todo removed : List Key)
  | adding (adds : List (Key × ℕ))
  | flushing (todo : List Key)
deriving DecidableEq, Repr

structure Meter where
  ledger : Ledger
  phase : Phase := .idle

abbrev Authority := { a : String // a ≠ "" }

/-- the steps: a Record up to its first canAdd, its pruning, counter by counter, up to the second canAdd, an
addition or the end of the Record; a Flush, counter by counter, and its end; an acknowledgement -/
inductive MeterOp
  | record (environment route : String) (revision ingress egress : ℕ) (authority : Authority) (elapsed : ℕ)
  | prune (elapsed : ℕ) (order : List Key)
  | pruneNext
  | pruneEnd
  | add (elapsed : ℕ)
  | flush (order : List Key)
  | enqueue (size : Option ℕ)
  | flushEnd
  | ack (report : Report)

namespace Meter

def step (s : Meter) : MeterOp → Meter
  | .record environment route revision ingress egress authority elapsed =>
    match s.phase with
    | .idle =>
      let ledger := s.ledger.tick elapsed
      if ledger.node = "" || environment = "" || route = "" || revision = 0 then ⟨ledger, .idle⟩
      else
        let adds := ledger.addsOf environment route revision ingress egress authority
        ⟨ledger, if ledger.canAdd adds then .adding adds else .full adds⟩
    | _ => s
  | .prune elapsed order =>
    match s.phase with
    | .full adds =>
      if order.isPerm s.ledger.counters.values.keys then
        ⟨s.ledger.tick elapsed, .pruning adds (s.ledger.clock + elapsed) order []⟩
      else s
    | _ => s
  | .pruneNext =>
    match s.phase with
    | .pruning adds now (k :: todo) removed =>
      if s.ledger.prunable now k then ⟨s.ledger.drop k, .pruning adds now todo (removed ++ [k])⟩
      else ⟨s.ledger, .pruning adds now todo removed⟩
    | _ => s
  | .pruneEnd =>
    match s.phase with
    -- the second canAdd: the additions, or ErrQueueFull
    | .pruning adds _ [] _ => ⟨s.ledger, if s.ledger.canAdd adds then .adding adds else .idle⟩
    | _ => s
  | .add elapsed =>
    match s.phase with
    | .adding ((k, n) :: rest) => ⟨(s.ledger.tick elapsed).add k n, .adding rest⟩
    | .adding [] => ⟨s.ledger, .idle⟩
    | _ => s
  | .flush order =>
    match s.phase with
    | .idle => if order.isPerm s.ledger.counters.values.keys then ⟨s.ledger, .flushing order⟩ else s
    | _ => s
  | .enqueue size =>
    match s.phase with
    | .flushing (k :: todo) =>
      match s.ledger.enqueue k size with
      | some ledger => ⟨ledger, .flushing todo⟩
      | none => ⟨s.ledger, .idle⟩
    | _ => s
  | .flushEnd =>
    match s.phase with
    | .flushing [] => ⟨s.ledger, .idle⟩
    | _ => s
  | .ack report => ⟨s.ledger.ack report, s.phase⟩

/-- a new meter -/
def new (node : String) (process maxReports maxBytes clock : ℕ) : Meter :=
  { ledger := { node := node, process := process, queue := { maxReports := maxReports, maxBytes := maxBytes },
                clock := clock } }

end Meter

/-! ## Facts -/

/-- the largest absolute among the reports of an identity -/
def newest (reports : List Report) (k : Key) : ℕ := ((reports.filter (·.identity = k)).map (·.bytes)).foldr max 0

variable {reports : List Report}

theorem newest_le_iff {k : Key} {n : ℕ} : newest reports k ≤ n ↔ ∀ r ∈ reports, r.identity = k → r.bytes ≤ n := by
  unfold newest
  induction reports with
  | nil => simp
  | cons r reports ih =>
    by_cases hr : r.identity = k
    · simp [hr, ih]
    · simp [hr, ih]

theorem le_newest {r : Report} (h : r ∈ reports) : r.bytes ≤ newest reports r.identity :=
  newest_le_iff.1 le_rfl r h rfl

namespace Queue

/-- a report is refused, has nothing new, or takes the place of the one of its identity -/
theorem enqueueLatest_cases {q q' : Queue} {report : Report} {taken : Bool}
    (h : q.enqueueLatest report = some (q', taken)) :
    (taken = false ∧ q' = q ∧ ∃ current ∈ q.pending, current.identity = report.identity ∧
      report.bytes ≤ current.bytes) ∨
    (taken = true ∧ q'.maxReports = q.maxReports ∧ q'.pending = upsert identity q.pending report) := by
  unfold enqueueLatest at h
  by_cases hsize : (decide (report.size = 0) || decide (q.maxBytes < report.size)) = true
  · rw [if_pos hsize] at h
    cases h
  · cases hcurrent : entry identity q.pending report.identity with
    | some current =>
      rw [hcurrent] at h
      dsimp only at h
      split_ifs at h with hold hfull
      · obtain ⟨rfl, rfl⟩ := Prod.mk.inj (Option.some.inj h)
        exact .inl ⟨rfl, rfl, current, List.mem_of_find?_eq_some hcurrent,
          by simpa using List.find?_some hcurrent, hold⟩
      · obtain ⟨rfl, rfl⟩ := Prod.mk.inj (Option.some.inj h)
        exact .inr ⟨rfl, rfl, rfl⟩
    | none =>
      rw [hcurrent] at h
      split_ifs at h with hfull
      obtain ⟨rfl, rfl⟩ := Prod.mk.inj (Option.some.inj h)
      exact .inr ⟨rfl, rfl, rfl⟩

theorem ack_pending (q : Queue) (id : Key × ℕ) : (q.ack id).pending = q.pending.filter (·.operationID ≠ id) := by
  unfold ack
  cases hfound : entry operationID q.pending id with
  | some r => rfl
  | none => exact (List.filter_eq_self.2 fun r hr => by simpa using List.find?_eq_none.1 hfound r hr).symm

theorem ack_maxReports (q : Queue) (id : Key × ℕ) : (q.ack id).maxReports = q.maxReports := by
  unfold ack
  split <;> rfl

end Queue

namespace Ledger

variable {s : Ledger}

theorem lastOf_drop (k k' : Key) : (s.drop k).lastOf k' = if k' = k then 0 else s.lastOf k' := by
  unfold lastOf drop
  rw [lookup_erase_if]
  split_ifs <;> rfl

theorem lookup_drop (k k' : Key) :
    (s.drop k).counters.values.lookup k' = if k' = k then none else s.counters.values.lookup k' := lookup_erase_if ..

theorem lookup_add (k : Key) (n : ℕ) (k' : Key) : (s.add k n).counters.values.lookup k' =
    if k' = k.counterIdentity then some (Counters.added (s.counters.values.lookup k.counterIdentity) k n s.clock)
    else s.counters.values.lookup k' := lookup_insert_if ..

/-- a counter of a Flush has nothing new, or a report of it is taken -/
theorem enqueue_cases {s' : Ledger} {k : Key} {size : Option ℕ} (h : s.enqueue k size = some s') :
    (s' = s ∧ ∀ r, s.counters.values.lookup k = some r → r.bytes ≤ s.lastOf k) ∨
    ∃ r n q taken, s.counters.values.lookup k = some r ∧ s.lastOf k < r.bytes ∧
      s.queue.enqueueLatest (s.reportOf k r n) = some (q, taken) ∧ s' = s.reported k r q taken (s.reportOf k r n) := by
  unfold enqueue at h
  cases hr : s.counters.values.lookup k with
  | none =>
    rw [hr] at h
    exact .inl ⟨(Option.some.inj h).symm, nofun⟩
  | some r =>
    rw [hr] at h
    dsimp only at h
    split_ifs at h with hold
    · refine .inl ⟨(Option.some.inj h).symm, fun r' hr' => ?_⟩
      cases hr'
      simp only [Bool.or_eq_true, decide_eq_true_eq] at hold
      omega
    · obtain ⟨n, -, hn⟩ := Option.bind_eq_some_iff.1 h
      obtain ⟨⟨q, taken⟩, hq, rfl⟩ := Option.map_eq_some_iff.1 hn
      simp only [Bool.or_eq_true, decide_eq_true_eq, not_or, not_le] at hold
      exact .inr ⟨r, n, q, taken, rfl, hold.2, hq, rfl⟩

theorem lastOf_reported (k : Key) (r : CounterRecord) (q : Queue) (taken : Bool) (report : Report) (k' : Key) :
    (s.reported k r q taken report).lastOf k' = if k' = k then r.bytes else s.lastOf k' := by
  unfold lastOf reported
  rw [lookup_insert_if]
  split_ifs <;> rfl

end Ledger

/-- the additions of a Record with an authority -/
theorem mem_addsOf {l : Ledger} {environment route : String} {revision ingress egress : ℕ} {authority : Authority}
    {a : Key × ℕ} (h : a ∈ l.addsOf environment route revision ingress egress authority) : 0 < a.2 ∧
      ∃ d, a.1 = ⟨authority, l.node, ⟨l.process, some (window l.clock)⟩, environment, route, d, revision⟩ := by
  unfold Ledger.addsOf at h
  rw [if_neg authority.2] at h
  rcases List.mem_append.1 h with h | h
  · split_ifs at h with hzero
    · cases h
    · rw [List.mem_singleton.1 h]
      exact ⟨Nat.pos_of_ne_zero hzero, .ingress, rfl⟩
  · split_ifs at h with hzero
    · cases h
    · rw [List.mem_singleton.1 h]
      exact ⟨Nat.pos_of_ne_zero hzero, .egress, rfl⟩

end Paperboat.Usage
