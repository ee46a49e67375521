/-
Input of a terminal session as the session manager handles it (session/manager_input.go,
store/store_operations.go).

WriteContext holds the session's input lock from its first look at the pending interrupt
to its end, so it is one step here. An interrupt takes no such lock; all it does to the
session is to store its key as the pending one. What the outside answers in a
WriteContext (the program's terminal, the database) is its `Weather`.

Results:
- `decides`: whether a WriteContext gets to a new decision of the journal;
- `writeContext_of_decides`, `writeContext_of_not_decides`: what it does then, and what
  it does otherwise.

Premises:
- activity and window size bookkeeping is left out.
-/
import Paperboat.Core.Json
import Paperboat.Terminal.Journal

namespace Paperboat.Terminal

open InputJournal

/-- the primary key of a durable decision, within the session -/
structure RowKey where
  cursor : InputCursor
  inputID : String
deriving DecidableEq, Repr

/-- inputStorageID -/
def inputStorageID (key : InputKey) : String :=
  if key.inputSequence ≠ 0 then String.ofList (Json.natDecimal key.inputSequence) else key.inputID

def InputKey.row (key : InputKey) : RowKey := ⟨key.cursor, inputStorageID key⟩

structure Session (Hash : Type) where
  /-- of the lifecycle -/
  generation : ℕ
  /-- the generation of the live process -/
  live : Option ℕ
  inputs : InputJournal Hash
  /-- the pending interrupt -/
  interrupt : Option InputKey := none
  /-- the attachments that are attached (fanout.Status) -/
  attached : List String := []
  /-- the durable decisions; none without a store -/
  rows : Option (AList fun _ : RowKey => Recorded Hash) := none
  /-- outcomes that wait for the next group commit -/
  decided : List (RowKey × Recorded Hash) := []
  /-- what the terminal of the program was given, in order -/
  pty : List (InputKey × Bytes) := []

/-- what the outside does during a WriteContext -/
structure Weather where
  /-- the context has ended before the write -/
  cancelled : Bool := false
  /-- the answer of the terminal -/
  n : ℤ
  err : Option WriteError := none
  /-- PutInputDecision fails -/
  storeFails : Bool := false
  /-- PruneInputDecisions fails -/
  pruneFails : Bool := false
deriving DecidableEq, Repr

/-- where the bytes of a WriteContext go -/
inductive Sink where
  | pty
  /-- discardedInput -/
  | discarded
  /-- deliveredInput -/
  | delivered
deriving DecidableEq, Repr

/-- what the writer answers (contextInputWriter) -/
def Sink.answer (data : Bytes) (w : Weather) (sink : Sink) : ℤ × Option WriteError :=
  if w.cancelled then (0, some .failed)
  else
    match sink with
    | .pty => (w.n, w.err)
    | .discarded => (0, some .interrupted)
    | .delivered => (data.length, none)

inductive WriteFailure where
  | input (e : InputError)
  | store
deriving DecidableEq, Repr

/-- how many sequenced writes pass between deletions of durable decisions -/
def inputPruneBatch : ℕ := 64

section

variable {Hash : Type} [DecidableEq Hash] (sum256 : Bytes → Hash)

variable (s : Session Hash)

/-- where the pending interrupt sends an input, and the pending interrupt afterwards -/
def Session.sink (key : InputKey) : Sink × Option InputKey :=
  match s.interrupt with
  | none => (.pty, none)
  | some interrupt =>
    if interrupt.cursor = key.cursor ∧ key.inputSequence ≠ 0 then
      if key.inputSequence < interrupt.inputSequence then (.discarded, some interrupt)
      else if key.inputSequence = interrupt.inputSequence then (.delivered, none)
      else (.pty, none)
    else (.pty, some interrupt)

/-- inputs.Write with the writer of the sink -/
def Session.deliver (sink : Sink) (key : InputKey) (data : Bytes) (w : Weather) :
    Session Hash × Except WriteFailure InputDecision :=
  let answer := sink.answer data w
  match s.inputs.reserve sum256 key data true with
  | .refused e => (s, .error (.input e))
  | .repeated decision => (s, .ok decision)
  | .reserved taken =>
    ({ s with
        inputs := taken.record sum256 key.normalize data answer.1 answer.2
        pty := if sink = .pty ∧ w.cancelled = false then s.pty ++ [(key.normalize, data)] else s.pty },
      .ok (outcome key.normalize.inputSequence data answer.1 answer.2))

/-- PutInputDecision: INSERT OR IGNORE, then the row that is there -/
def putInputDecision (rows : AList fun _ : RowKey => Recorded Hash) (key : InputKey) (hash : Hash) :
    Except WriteFailure (AList fun _ : RowKey => Recorded Hash) :=
  match rows.lookup key.row with
  | none => .ok (rows.insert key.row { status := .uncertain, inputSequence := key.inputSequence, hash := hash })
  | some row => if row.hash = hash then .error (.input .inputConflict) else .error .store

/-- PruneInputDecisions: the sequenced decisions of a cursor up to a number -/
def pruneInputDecisions (rows : AList fun _ : RowKey => Recorded Hash) (cursor : InputCursor) (upTo : ℕ) :
    AList fun _ : RowKey => Recorded Hash :=
  Table.keep (fun row => !(row.cursor = cursor && row.inputID != "" && row.inputID.toList.all Char.isDigit &&
    Nat.ofDigits 10 (row.inputID.toList.reverse.map Json.digitVal) ≤ upTo)) rows

/-- what follows a decision when there is a store -/
def Session.settle (s : Session Hash) (key : InputKey) (data : Bytes) (decision : InputDecision) (w : Weather) :
    Session Hash :=
  match s.rows with
  | none => s
  | some rows =>
    { s with
      decided := s.decided ++ [(key.row, ⟨decision, sum256 data⟩)]
      rows := some <|
        if inputDecisionWindow < key.inputSequence ∧ key.inputSequence % inputPruneBatch = 0 ∧ w.pruneFails = false then
          pruneInputDecisions rows key.cursor (key.inputSequence - inputDecisionWindow)
        else rows }

/-- WriteContext for an input the journal does not know: admitted, made durable, written, settled -/
def Session.writeNew (s : Session Hash) (sink : Sink) (key : InputKey) (data : Bytes) (w : Weather) :
    Session Hash × Except WriteFailure InputDecision :=
  match s.inputs.admits key with
  | some e => (s, .error (.input e))
  | none =>
    let stored : Except WriteFailure (Session Hash) :=
      match s.rows with
      | none => .ok s
      | some rows =>
        if w.storeFails then .error .store
        else (putInputDecision rows key (sum256 data)).map fun rows => { s with rows := some rows }
    match stored with
    | .error e => (s, .error e)
    | .ok s =>
      match s.deliver sum256 sink key data w with
      | (s, .error e) => (s, .error e)
      | (s, .ok decision) => (s.settle sum256 key data decision w, .ok decision)

/-- WriteContext once it holds the input lock -/
def Session.writeContext (s : Session Hash) (key : InputKey) (data : Bytes) (w : Weather) :
    Session Hash × Except WriteFailure InputDecision :=
  if s.live ≠ some key.generation then (s, .error (.input (.staleGeneration s.generation)))
  else
    let (sink, interrupt) := s.sink key
    let s := { s with interrupt := interrupt }
    if key.attachmentID ∉ s.attached then (s, .error (.input .invalidInput))
    else
      match s.inputs.query key.normalize with
      | .ok _ => s.deliver sum256 sink key.normalize data w
      | .error _ => s.writeNew sum256 sink key.normalize data w

/-- UpdateInputDecisions: the outcome of a row that is still there -/
def updateInputDecisions (rows : AList fun _ : RowKey => Recorded Hash) (decided : List (RowKey × Recorded Hash)) :
    AList fun _ : RowKey => Recorded Hash :=
  decided.foldl (fun rows (key, outcome) =>
    match rows.lookup key with
    | some row => if row.hash = outcome.hash then rows.insert key outcome else rows
    | none => rows) rows

/-! ## What a WriteContext does -/

/-- there is room for the durable decision -/
def Session.stores (s : Session Hash) (key : InputKey) (w : Weather) : Bool :=
  match s.rows with
  | none => true
  | some rows => !w.storeFails && (rows.lookup key.row).isNone

/-- the journal takes the identity of a normalized key -/
def InputJournal.takes (j : InputJournal Hash) (key : InputKey) (data : Bytes) : Bool :=
  match j.reserve sum256 key data true with
  | .reserved _ => true
  | _ => false

/-- the WriteContext gets to a new decision of the journal -/
def Session.decides (s : Session Hash) (key : InputKey) (data : Bytes) (w : Weather) : Bool :=
  s.live = some key.generation && decide (key.attachmentID ∈ s.attached) && s.stores key.normalize w &&
    s.inputs.takes sum256 key.normalize data

end

open Session

section

variable {Hash : Type} [DecidableEq Hash] {sum256 : Bytes → Hash} {s : Session Hash} {key : InputKey} {data : Bytes}
  {w : Weather}

@[simp] theorem InputKey.normalize_normalize (key : InputKey) : key.normalize.normalize = key.normalize := by
  unfold InputKey.normalize
  split_ifs <;> simp_all

variable {j : InputJournal Hash}

theorem takes_iff :
    j.takes sum256 key data = true ↔
      key.normalize.valid = true ∧ j.decisions.lookup key.normalize = none ∧ j.decisions.entries.length < j.max ∧
      key.generation = j.current ∧ j.sequenceError key.normalize = none := by
  unfold takes
  constructor
  · intro h
    split at h
    · rename_i j' hj'
      obtain ⟨⟨hvalid, -⟩, hnone, hroom, hgen, herr, -⟩ := reserve_reserved.1 hj'
      exact ⟨hvalid, hnone, hroom, hgen, herr⟩
    · cases h
  · rintro ⟨hvalid, hnone, hroom, hgen, herr⟩
    rw [reserve_reserved.2 ⟨⟨hvalid, rfl⟩, hnone, hroom, hgen, herr, rfl⟩]

section

variable (h : s.decides sum256 key data w = true)
include h

theorem decides_live : s.live = some key.generation := by
  unfold decides at h
  simp only [Bool.and_eq_true, decide_eq_true_eq] at h
  exact h.1.1.1

theorem decides_stores : s.stores key.normalize w = true := by
  unfold decides at h
  simp only [Bool.and_eq_true] at h
  exact h.1.2

theorem decides_takes : s.inputs.takes sum256 key.normalize data = true := by
  unfold decides at h
  simp only [Bool.and_eq_true] at h
  exact h.2

end

/-- a key the journal takes is delivered -/
theorem deliver_of_takes {sink : Sink} (h : s.inputs.takes sum256 key data = true) :
    s.deliver sum256 sink key data w =
      ({ s with
          inputs := (s.inputs.take key.normalize (sum256 data)).record sum256 key.normalize data
            (sink.answer data w).1 (sink.answer data w).2
          pty := if sink = .pty ∧ w.cancelled = false then s.pty ++ [(key.normalize, data)] else s.pty },
        .ok (outcome key.normalize.inputSequence data (sink.answer data w).1 (sink.answer data w).2)) := by
  obtain ⟨hvalid, hnone, hroom, hgen, herr⟩ := takes_iff.1 h
  unfold deliver
  rw [reserve_reserved.2 ⟨⟨hvalid, rfl⟩, hnone, hroom, hgen, herr, rfl⟩]

/-- and any other changes nothing -/
theorem deliver_of_not_takes {sink : Sink} (h : s.inputs.takes sum256 key data = false) :
    (s.deliver sum256 sink key data w).1 = s := by
  unfold takes at h
  unfold deliver
  split <;> simp_all

/-- a new key that the journal does not take is refused -/
theorem deliver_refused (sink : Sink) (w : Weather) (h : s.inputs.takes sum256 key data = false)
    (hnone : s.inputs.decisions.lookup key.normalize = none) :
    ∃ e, s.deliver sum256 sink key data w = (s, .error (.input e)) := by
  unfold takes at h
  unfold deliver
  cases hreserve : s.inputs.reserve sum256 key data true with
  | refused e => exact ⟨e, rfl⟩
  | repeated decision =>
    unfold reserve at hreserve
    simp only [hnone] at hreserve
    split_ifs at hreserve
    split at hreserve <;> cases hreserve
  | reserved j => simp [hreserve] at h

/-- what Admit lets through and is an identity of the generation, the journal takes -/
theorem takes_of_admits (hnone : j.decisions.lookup key.normalize = none)
    (hadmits : j.admits key = none) (hvalid : key.normalize.valid = true) (hgen : key.generation = j.current) :
    j.takes sum256 key data = true := by
  unfold admits at hadmits
  simp only [hnone] at hadmits
  split_ifs at hadmits with hroom
  exact takes_iff.2 ⟨hvalid, hnone, Nat.lt_of_not_le hroom, hgen, hadmits⟩

/-- what the journal takes, Admit lets through -/
theorem admit_of_takes (h : j.takes sum256 key data = true) : j.admits key = none := by
  obtain ⟨-, hnone, hroom, -, herr⟩ := takes_iff.1 h
  unfold admits
  simp only [hnone, Nat.not_le.2 hroom, if_false, herr]

omit [DecidableEq Hash] in
theorem query_error (h : j.decisions.lookup key.normalize = none) : j.query key = .error .inputUnknown := by
  unfold query
  rw [h]

/-- the durable decisions after a new decision -/
def Session.rowsWith (sum256 : Bytes → Hash) (s : Session Hash) (key : InputKey) (data : Bytes) (w : Weather) :
    Option (AList fun _ : RowKey => Recorded Hash) :=
  s.rows.map fun rows =>
    let added := rows.insert key.row { status := .uncertain, inputSequence := key.inputSequence, hash := sum256 data }
    if inputDecisionWindow < key.inputSequence ∧ key.inputSequence % inputPruneBatch = 0 ∧ w.pruneFails = false then
      pruneInputDecisions added key.cursor (key.inputSequence - inputDecisionWindow)
    else added

/-- what a session is after a new decision: the journal has it, the terminal was given the bytes if nothing stood in its
place, the pending interrupt is what it left -/
structure Session.Decided (sum256 : Bytes → Hash) (s s' : Session Hash) (key : InputKey) (data : Bytes) (w : Weather) :
    Prop where
  generation : s'.generation = s.generation
  inputs : s'.inputs = (s.inputs.take key.normalize (sum256 data)).record sum256 key.normalize data
    ((s.sink key).1.answer data w).1 ((s.sink key).1.answer data w).2
  interrupt : s'.interrupt = (s.sink key).2
  pty : s'.pty = if (s.sink key).1 = .pty ∧ w.cancelled = false then s.pty ++ [(key.normalize, data)] else s.pty
  attached : s'.attached = s.attached
  live : s'.live = s.live
  rows : s'.rows = s.rowsWith sum256 key.normalize data w
  decided : ∀ d ∈ s'.decided, d ∈ s.decided ∨ d.2.toInputDecision = outcome key.normalize.inputSequence data
    ((s.sink key).1.answer data w).1 ((s.sink key).1.answer data w).2

theorem writeContext_of_decides (h : s.decides sum256 key data w = true) :
    s.Decided sum256 (s.writeContext sum256 key data w).1 key data w := by
  unfold decides at h
  simp only [Bool.and_eq_true, decide_eq_true_eq] at h
  obtain ⟨⟨⟨hlive, hattached⟩, hstores⟩, htakes⟩ := h
  have hnone := (takes_iff.1 htakes).2.1
  unfold writeContext
  rw [if_neg (not_not.2 hlive)]
  dsimp only
  rw [if_neg (not_not.2 hattached), query_error hnone]
  unfold writeNew
  rw [admit_of_takes htakes]
  unfold stores at hstores
  cases hrows : s.rows with
  | none =>
    dsimp only
    rw [deliver_of_takes (by exact htakes)]
    exact ⟨by simp [settle], by simp [settle], rfl, by simp [settle], rfl, rfl,
      by simp [settle, rowsWith, hrows], fun d hd => .inl hd⟩
  | some rows =>
    rw [hrows] at hstores
    simp only [Bool.and_eq_true, Bool.not_eq_true', Option.isNone_iff_eq_none] at hstores
    dsimp only
    rw [if_neg (by simp [hstores.1]), putInputDecision, hstores.2]
    dsimp only [Except.map]
    rw [deliver_of_takes (by exact htakes)]
    refine ⟨by simp [settle], by simp [settle], rfl, by simp [settle], rfl, rfl,
      by simp [settle, rowsWith, hrows], fun d hd => ?_⟩
    rcases List.mem_append.1 hd with hd | hd
    · exact .inl hd
    · rw [List.mem_singleton.1 hd]
      exact .inr (by simp)

/-- what a WriteContext without a new decision leaves alone -/
structure Session.Untouched (s s' : Session Hash) : Prop where
  generation : s'.generation = s.generation
  inputs : s'.inputs = s.inputs
  pty : s'.pty = s.pty
  attached : s'.attached = s.attached
  live : s'.live = s.live
  decided : s'.decided = s.decided

omit [DecidableEq Hash] in
theorem Session.Untouched.refl : s.Untouched s := ⟨rfl, rfl, rfl, rfl, rfl, rfl⟩

theorem writeNew_of_not_decides (sink : Sink) (hnone : s.inputs.decisions.lookup key.normalize = none)
    (h : (s.stores key w && s.inputs.takes sum256 key data) = false) :
    s.Untouched (s.writeNew sum256 sink key data w).1 ∧
    (s.writeNew sum256 sink key data w).1.interrupt = s.interrupt ∧
    (key.normalize.valid = true → key.generation = s.inputs.current →
      (s.writeNew sum256 sink key data w).1.rows = s.rows) ∧
    ∃ e, (s.writeNew sum256 sink key data w).2 = .error e := by
  unfold writeNew
  cases hadmits : s.inputs.admits key with
  | some e => exact ⟨.refl, rfl, fun _ _ => rfl, _, rfl⟩
  | none =>
    cases hrows : s.rows with
    | none =>
      have htakes : s.inputs.takes sum256 key data = false := by simpa [stores, hrows] using h
      obtain ⟨e, hdeliver⟩ := deliver_refused sink w htakes hnone
      dsimp only
      rw [hdeliver]
      exact ⟨.refl, rfl, fun _ _ => hrows, _, rfl⟩
    | some rows =>
      dsimp only
      by_cases hfails : w.storeFails = true
      · rw [if_pos hfails]
        exact ⟨.refl, rfl, fun _ _ => hrows, _, rfl⟩
      · rw [if_neg hfails]
        unfold putInputDecision
        cases hrow : rows.lookup key.row with
        | some row =>
          dsimp only
          split_ifs <;> exact ⟨.refl, rfl, fun _ _ => hrows, _, rfl⟩
        | none =>
          have htakes : s.inputs.takes sum256 key data = false := by
            simpa [stores, hrows, hfails, hrow] using h
          obtain ⟨e, hdeliver⟩ := deliver_refused sink w
            (s := { s with rows := some (rows.insert key.row ⟨⟨.uncertain, key.inputSequence, 0, ""⟩, sum256 data⟩) })
            htakes hnone
          dsimp only [Except.map]
          rw [hdeliver]
          refine ⟨⟨rfl, rfl, rfl, rfl, rfl, rfl⟩, rfl, fun hvalid hgen => ?_, _, rfl⟩
          -- an identity of the generation that is admitted is taken
          rw [takes_of_admits hnone hadmits hvalid hgen] at htakes
          cases htakes

/-- without a new decision the journal and the terminal stay as they are; the pending interrupt may be gone all the
same -/
theorem writeContext_of_not_decides (h : s.decides sum256 key data w = false) :
    s.Untouched (s.writeContext sum256 key data w).1 ∧
    (s.writeContext sum256 key data w).1.interrupt =
      (if s.live = some key.generation then (s.sink key).2 else s.interrupt) ∧
    (key.normalize.valid = true → (s.live = some key.generation → key.generation = s.inputs.current) →
      (s.writeContext sum256 key data w).1.rows = s.rows) := by
  unfold writeContext
  by_cases hlive : s.live = some key.generation
  · rw [if_neg (not_not.2 hlive), if_pos hlive]
    dsimp only
    by_cases hattached : key.attachmentID ∈ s.attached
    · rw [if_neg (not_not.2 hattached)]
      cases hlookup : s.inputs.decisions.lookup key.normalize.normalize with
      | some r =>
        have htakes : s.inputs.takes sum256 key.normalize data = false := by
          rw [← Bool.not_eq_true, takes_iff, hlookup]
          simp
        rw [query, hlookup]
        rw [deliver_of_not_takes (by exact htakes)]
        exact ⟨⟨rfl, rfl, rfl, rfl, rfl, rfl⟩, rfl, fun _ _ => rfl⟩
      | none =>
        rw [query_error hlookup]
        have hnot : (s.stores key.normalize w && s.inputs.takes sum256 key.normalize data) = false := by
          simpa [decides, hlive, hattached] using h
        obtain ⟨hsame, hinterrupt, hrows, -⟩ :=
          writeNew_of_not_decides (s := { s with interrupt := (s.sink key).2 }) (s.sink key).1 hlookup hnot
        refine ⟨{ hsame with }, hinterrupt, fun hvalid hgen => hrows ?_ ?_⟩
        · rw [InputKey.normalize_normalize, hvalid]
        · rw [InputKey.normalize_generation, hgen hlive]
    · rw [if_pos hattached]
      exact ⟨⟨rfl, rfl, rfl, rfl, rfl, rfl⟩, rfl, fun _ _ => rfl⟩
  · rw [if_pos hlive, if_neg hlive]
    exact ⟨.refl, rfl, fun _ _ => rfl⟩

/-- an input that is answered with a decision was decided now or is remembered -/
theorem writeContext_ok {decision : InputDecision} (h : (s.writeContext sum256 key data w).2 = .ok decision) :
    s.decides sum256 key data w = true ∨ (s.inputs.decisions.lookup key.normalize).isSome = true := by
  by_contra hnot
  obtain ⟨hdecides, hlookup⟩ := not_or.1 hnot
  rw [← InputKey.normalize_normalize, Option.not_isSome_iff_eq_none] at hlookup
  unfold writeContext at h
  split_ifs at h with hlive
  dsimp only at h
  split_ifs at h with hattached
  rw [query_error hlookup] at h
  have htakes : (s.stores key.normalize w && s.inputs.takes sum256 key.normalize data) = false := by
    rw [← Bool.not_eq_true]
    simpa [decides, not_not.1 hlive, hattached] using hdecides
  obtain ⟨-, -, -, e, he⟩ :=
    writeNew_of_not_decides (s := { s with interrupt := (s.sink key).2 }) (s.sink key).1 hlookup htakes
  rw [he] at h
  cases h

end

end Paperboat.Terminal
