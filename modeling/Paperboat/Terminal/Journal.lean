/-
The journal of a terminal session's input (session/input.go): which inputs were handed
to the program, and what came of it.

Write decides under the journal's lock, calls the writer outside of it and takes the
lock again to record what the writer answered. `reserve` is the first critical section,
`record` the second one.

Results:
- `reserve_reserved`: when Write calls the writer, and what it has reserved then;
- `reserve_remembered`: how Write answers an input the journal remembers;
- `take_lookup`, `take_lastSequence`: the journal while the writer runs.

Premises:
- SHA-256 is a parameter `sum256`;
- sequence numbers are naturals. The source's are uint64, where last+1 wraps to 0 at the
  end of the range; no sequenced key has the number 0 and none has the number 2^64, so
  both refuse every input after the last number.
-/
import Paperboat.Core.Table

namespace Paperboat.Terminal

abbrev Bytes := List UInt8

inductive InputStatus where
  | accepted
  | duplicate
  | rejected
  | uncertain
deriving DecidableEq, Repr

inductive InputError where
  | invalidInput
  | inputConflict
  | inputSequence
  | inputUncertain
  | staleGeneration (currentGeneration : ℕ)
  | inputUnknown
  | inputJournalFull
deriving DecidableEq, Repr

structure InputKey where
  clientID : String
  attachmentID : String
  generation : ℕ
  inputSequence : ℕ
  inputID : String := ""
deriving DecidableEq, Repr

structure InputCursor where
  clientID : String
  attachmentID : String
  generation : ℕ
deriving DecidableEq, Repr

/-- what a caller of the journal sees of a decision (publicDecision) -/
structure InputDecision where
  status : InputStatus
  inputSequence : ℕ
  bytesWritten : ℤ := 0
  writeError : String := ""
deriving DecidableEq, Repr

/-- a decision with the hash of the bytes it is about -/
structure Recorded (Hash : Type) extends InputDecision where
  hash : Hash
deriving DecidableEq, Repr

def InputKey.cursor (key : InputKey) : InputCursor := ⟨key.clientID, key.attachmentID, key.generation⟩

/-- the key of a sequenced input -/
def InputCursor.key (cursor : InputCursor) (sequence : ℕ) : InputKey :=
  ⟨cursor.clientID, cursor.attachmentID, cursor.generation, sequence, ""⟩

/-- normalizeInputKey: a sequenced key has no input ID -/
def InputKey.normalize (key : InputKey) : InputKey :=
  if key.inputSequence ≠ 0 then { key with inputID := "" } else key

/-- the fields without which a key is no identity -/
def InputKey.valid (key : InputKey) : Bool :=
  key.clientID != "" && key.attachmentID != "" && key.generation != 0 && (key.inputSequence != 0 || key.inputID != "")

section

variable (cursor : InputCursor) (n : ℕ)

@[simp] theorem InputCursor.cursor_key : (cursor.key n).cursor = cursor := rfl

@[simp] theorem InputCursor.key_inputSequence : (cursor.key n).inputSequence = n := rfl

@[simp] theorem InputCursor.key_generation : (cursor.key n).generation = cursor.generation := rfl

end

variable (key : InputKey)

@[simp] theorem InputKey.cursor_generation : key.cursor.generation = key.generation := rfl

theorem InputCursor.key_inj {c c' : InputCursor} {n n' : ℕ} : c.key n = c'.key n' ↔ c = c' ∧ n = n' := by
  cases c
  cases c'
  simp [InputCursor.key, and_assoc]

@[simp] theorem InputKey.normalize_cursor : key.normalize.cursor = key.cursor := by
  unfold normalize
  split <;> rfl

@[simp] theorem InputKey.normalize_generation : key.normalize.generation = key.generation := by
  unfold normalize
  split <;> rfl

@[simp] theorem InputKey.normalize_inputSequence : key.normalize.inputSequence = key.inputSequence := by
  unfold normalize
  split <;> rfl

@[simp] theorem InputKey.cursor_with (n : ℕ) : { key with inputSequence := n }.cursor = key.cursor := rfl

/-- a normalized key with a number is the key of its cursor and number -/
theorem InputKey.normalize_eq {key : InputKey} (h : key.inputSequence ≠ 0) :
    key.normalize = key.cursor.key key.inputSequence := by
  unfold normalize
  rw [if_pos h]
  rfl

open InputKey

theorem InputKey.normalize_valid {key : InputKey} (hvalid : key.valid = true) (hseq : key.inputSequence ≠ 0) :
    key.normalize.valid = true := by
  simpa [normalize_eq hseq, valid, InputCursor.key, cursor, hseq] using hvalid

@[simp] theorem InputCursor.normalize_key (cursor : InputCursor) (n : ℕ) : (cursor.key n).normalize = cursor.key n := by
  unfold InputKey.normalize
  split <;> rfl

/-! ## The journal -/

/-- how many decisions are kept for a client, attachment and generation -/
def inputDecisionWindow : ℕ := 256

theorem inputDecisionWindow_pos : 0 < inputDecisionWindow := by decide

structure InputJournal (Hash : Type) where
  current : ℕ
  max : ℕ
  decisions : AList (fun _ : InputKey => Recorded Hash) := ∅
  last : AList (fun _ : InputCursor => ℕ) := ∅

section

variable {Hash : Type} [DecidableEq Hash] (sum256 : Bytes → Hash)

/-- NewBoundedInputJournal -/
def InputJournal.new (generation max : ℕ) : InputJournal Hash := { current := generation, max := max }

variable (j : InputJournal Hash) (key : InputKey)

/-- SetGeneration drops what is of another generation -/
def InputJournal.setGeneration (generation : ℕ) : InputJournal Hash :=
  { j with
    current := generation
    decisions := Table.keep (fun key => key.generation = generation) j.decisions
    last := Table.keep (fun cursor => cursor.generation = generation) j.last }

/-- LastSequence; 0 when nothing was written -/
def InputJournal.lastSequence (cursor : InputCursor) : ℕ := (j.last.lookup cursor).getD 0

/-- the decision of the last input of a cursor is uncertain -/
def InputJournal.stuck (cursor : InputCursor) : Bool :=
  match j.decisions.lookup (cursor.key (j.lastSequence cursor)) with
  | some previous => previous.status = .uncertain
  | none => false

/-- a sequenced input follows the last one, which is not uncertain -/
def InputJournal.sequenceError : Option InputError :=
  if key.inputSequence ≠ 0 ∧ j.lastSequence key.cursor ≠ 0 then
    if j.stuck key.cursor then some .inputUncertain
    else if key.inputSequence ≠ j.lastSequence key.cursor + 1 then some .inputSequence
    else none
  else none

/-- forgetBeforeWindowLocked: the decision that just left the window -/
def InputJournal.forgetBeforeWindowLocked : InputJournal Hash :=
  if inputDecisionWindow < key.inputSequence then
    { j with decisions := j.decisions.erase { key with inputSequence := key.inputSequence - inputDecisionWindow } }
  else j

/-- the identity is taken before the writer is called: an uncertain decision -/
def InputJournal.take (hash : Hash) : InputJournal Hash :=
  let taken := { j with
    decisions := j.decisions.insert key { status := .uncertain, inputSequence := key.inputSequence, hash := hash } }
  if key.inputSequence ≠ 0 then
    { taken with last := taken.last.insert key.cursor key.inputSequence }.forgetBeforeWindowLocked key
  else taken

/-- how Write leaves its first critical section -/
inductive Reservation (Hash : Type) where
  | refused (e : InputError)
  | repeated (decision : InputDecision)
  /-- the writer is to be called -/
  | reserved (j : InputJournal Hash)

/-- Write up to the call of the writer; `writer` says whether there is one -/
def InputJournal.reserve (data : Bytes) (writer : Bool) : Reservation Hash :=
  let normal := key.normalize
  if !(normal.valid && writer) then .refused .invalidInput
  else
    match j.decisions.lookup normal with
    | some previous =>
      if previous.hash ≠ sum256 data then .refused .inputConflict
      else if key.inputSequence = 0 ∧ previous.status = .accepted then
        .repeated { previous.toInputDecision with status := .duplicate }
      else .repeated previous.toInputDecision
    | none =>
      if j.max ≤ j.decisions.entries.length then .refused .inputJournalFull
      else if normal.generation ≠ j.current then .refused (.staleGeneration j.current)
      else
        match j.sequenceError normal with
        | some e => .refused e
        | none => .reserved (j.take normal (sum256 data))

/-- an error of the writer, by what Write asks of it: errors.Is(err, pty.ErrInterrupted) -/
inductive WriteError where
  | interrupted
  | failed
deriving DecidableEq, Repr

/-- the status by the number of bytes written -/
def statusOf (data : Bytes) (n : ℤ) : InputStatus :=
  if n = data.length then .accepted else if n = 0 then .rejected else .uncertain

/-- the decision about an input for which the writer returned `n` and `err` -/
def outcome (sequence : ℕ) (data : Bytes) (n : ℤ) : Option WriteError → InputDecision
  | none => { status := statusOf data n, inputSequence := sequence, bytesWritten := n }
  -- the interrupt of the user discarded the rest: final, never to be resent
  | some .interrupted =>
    { status := .accepted, inputSequence := sequence, bytesWritten := n, writeError := "interrupted" }
  | some .failed =>
    { status := if 0 < n ∧ n < data.length then .uncertain else statusOf data n, inputSequence := sequence,
      bytesWritten := n, writeError := "pty_write_failed" }

/-- Write after the writer has returned; the key is the normalized one -/
def InputJournal.record (data : Bytes) (n : ℤ) (err : Option WriteError) :
    InputJournal Hash :=
  match j.decisions.lookup key with
  | some current =>
    if current.hash = sum256 data then
      { j with decisions := j.decisions.insert key ⟨outcome key.inputSequence data n err, sum256 data⟩ }
    else j
  | none => j

/-- Write with nothing in between: the writer answers `n` and `err` if it is called -/
def InputJournal.write (data : Bytes) (n : ℤ) (err : Option WriteError) :
    InputJournal Hash × Except InputError InputDecision :=
  match j.reserve sum256 key data true with
  | .refused e => (j, .error e)
  | .repeated decision => (j, .ok decision)
  | .reserved taken =>
    (taken.record sum256 key.normalize data n err, .ok (outcome key.normalize.inputSequence data n err))

/-- Query -/
def InputJournal.query : Except InputError InputDecision :=
  match j.decisions.lookup key.normalize with
  | some decision => .ok decision.toInputDecision
  | none => .error .inputUnknown

/-- Admit; no error is `none` -/
def InputJournal.admits : Option InputError :=
  let normal := key.normalize
  match j.decisions.lookup normal with
  | some _ => none
  | none => if j.max ≤ j.decisions.entries.length then some .inputJournalFull else j.sequenceError normal

/-- Restore a decision; a hash has the size of a hash -/
def InputJournal.restore (decision : Recorded Hash) :
    Except InputError (InputJournal Hash) :=
  let normal := key.normalize
  if !normal.valid then .error .invalidInput
  else if decision.status = .duplicate then .error .invalidInput
  else if (j.decisions.lookup normal).isSome then .error .inputConflict
  else if j.max ≤ j.decisions.entries.length then .error .inputJournalFull
  else
    let restored := { j with
      decisions := j.decisions.insert normal { decision with inputSequence := normal.inputSequence } }
    .ok (if normal.inputSequence ≠ 0 ∧ j.lastSequence normal.cursor < normal.inputSequence then
      { restored with last := restored.last.insert normal.cursor normal.inputSequence } else restored)

end

/-! ## What Write can do -/

open InputJournal

section

variable {Hash : Type} [DecidableEq Hash] {sum256 : Bytes → Hash} {j j' : InputJournal Hash}
    {key : InputKey} {data : Bytes}

omit [DecidableEq Hash] in
theorem sequenceError_none (hseq : key.inputSequence ≠ 0) :
    j.sequenceError key = none ↔
      j.lastSequence key.cursor = 0 ∨
        (j.stuck key.cursor = false ∧ key.inputSequence = j.lastSequence key.cursor + 1) := by
  unfold sequenceError
  split_ifs <;> grind

/-- when the writer is called, and the journal then -/
theorem reserve_reserved {writer : Bool} :
    j.reserve sum256 key data writer = .reserved j' ↔
      (key.normalize.valid = true ∧ writer = true) ∧ j.decisions.lookup key.normalize = none ∧
      j.decisions.entries.length < j.max ∧ key.generation = j.current ∧ j.sequenceError key.normalize = none ∧
      j' = j.take key.normalize (sum256 data) := by
  unfold reserve
  dsimp only
  rw [normalize_generation]
  by_cases hvalid : (key.normalize.valid && writer) = true
  · rw [if_neg (by simpa using hvalid), ← Bool.and_eq_true]
    cases hlookup : j.decisions.lookup key.normalize with
    | some previous =>
      dsimp only
      split_ifs <;> simp
    | none =>
      split_ifs with hmax hgen
      · simp [hmax]
      · simp [hgen]
      · cases herr : j.sequenceError key.normalize with
        | some e => simp
        | none =>
          simp only [Reservation.reserved.injEq, hvalid, true_and]
          exact ⟨fun h => ⟨Nat.lt_of_not_le hmax, not_not.1 hgen, h.symm⟩, fun h => h.2.2.symm⟩
  · rw [← Bool.and_eq_true]
    simp [hvalid]

/-- a remembered input is answered without a write: the recorded decision for the same bytes, a conflict for others -/
theorem reserve_remembered {r : Recorded Hash} (hvalid : key.valid = true) (hseq : key.inputSequence ≠ 0)
    (hr : j.decisions.lookup key.normalize = some r) :
    j.reserve sum256 key data true =
      if r.hash = sum256 data then .repeated r.toInputDecision else .refused .inputConflict := by
  unfold reserve
  simp only [normalize_valid hvalid hseq, hr, hseq, ne_eq, ite_not]
  simp

/-! ### The journal with an identity taken -/

variable (j key) (hash : Hash)

omit [DecidableEq Hash]

@[simp] theorem take_current : (j.take key hash).current = j.current := by
  unfold take forgetBeforeWindowLocked
  split_ifs <;> rfl

@[simp] theorem take_max : (j.take key hash).max = j.max := by
  unfold take forgetBeforeWindowLocked
  split_ifs <;> rfl

theorem take_lastSequence (c : InputCursor) :
    (j.take key hash).lastSequence c =
      if key.inputSequence ≠ 0 ∧ c = key.cursor then key.inputSequence else j.lastSequence c := by
  unfold take forgetBeforeWindowLocked lastSequence
  by_cases hseq : key.inputSequence = 0
  · simp [hseq]
  · split_ifs <;> simp_all [Index.lookup_insert_if]

/-- an input that left the window is forgotten, no other one -/
theorem take_lookup (k : InputKey) :
    (j.take key hash).decisions.lookup k =
      if inputDecisionWindow < key.inputSequence ∧
          k = { key with inputSequence := key.inputSequence - inputDecisionWindow } then none
      else if k = key then some { status := .uncertain, inputSequence := key.inputSequence, hash := hash }
      else j.decisions.lookup k := by
  have hwindow : inputDecisionWindow < key.inputSequence → key.inputSequence ≠ 0 := fun h =>
      Nat.ne_of_gt (Nat.zero_lt_of_lt h)
  unfold take forgetBeforeWindowLocked
  by_cases hlong : inputDecisionWindow < key.inputSequence
  · simp only [ne_eq, hwindow hlong, not_false_eq_true, if_true, hlong, true_and]
    rw [Index.lookup_erase_if, Index.lookup_insert_if]
  · split_ifs <;> simp_all [Index.lookup_insert_if]

end

/-! ### The journal with an outcome recorded -/

section

variable {Hash : Type} [DecidableEq Hash] {sum256 : Bytes → Hash} {n : ℤ} {err : Option WriteError}

variable (j : InputJournal Hash)

variable (key : InputKey)

@[simp] theorem record_current (data : Bytes) : (j.record sum256 key data n err).current = j.current := by
  unfold record
  split
  · split <;> rfl
  · rfl

@[simp] theorem record_max (data : Bytes) : (j.record sum256 key data n err).max = j.max := by
  unfold record
  split
  · split <;> rfl
  · rfl

@[simp] theorem record_lastSequence (data : Bytes) (c : InputCursor) :
    (j.record sum256 key data n err).lastSequence c = j.lastSequence c := by
  unfold record
  split
  · split <;> rfl
  · rfl

end

end Paperboat.Terminal
