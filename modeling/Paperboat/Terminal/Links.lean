/-
A terminal client and its host over any number of links (resolver.TerminalInputQueue,
tunnel/helper_websocket.go, tunnel/reconnecting.go,
hostruntime/server/server_terminal.go, session/manager_input.go, session/input.go).

All links of the terminal share one queue of unanswered input. A link attaches (the host
reports the last number its journal has for the attachment and binds the stream to it),
later the client reconciles its queue with that number and sends what is unanswered
again, and at some point the link becomes the current one. A Write takes the link that
is current when it is called and puts all its chunks on it, also when another link
becomes current in between. A link hands its frames to the host in order and may lose
the rest at any moment; answers travel back the same way. The host checks that the
numbers of a stream are contiguous before it calls WriteContext, which is the one of
`Terminal.Input`: it looks at the live process, the pending interrupt, the attachment,
the store and the journal. A restart gives the session a new generation: the journal is
empty and reports 0.

Results:
- `Links.Hosted`: what holds of the host in every run, `Links.Hosted.step`
- `deliver_cases`: what the host can do with a frame
- `shells_in_sequence`: the journal of each generation calls its writer for the numbers
  1, 2, 3, …, each once and in order; the terminals are given those of them that no
  interrupt stood in for

Premises:
- the queue is a map from numbers to input in the source; here it is the list of its
  entries by number
- an input carries which Enqueue made it, since numbers may be given out again, and the
  generation of the link it was typed on; an answer carries the input it is about. The
  code sends none of this and no step of the code reads it
- the client has a sink for launch warnings, so what Reconcile returns as unconfirmed is
  reported to the user
- the other windows of the session do not appear; what they do to it is an interrupt or
  a restart at any moment
-/
import Paperboat.Terminal.Interrupt
import Paperboat.Terminal.Window

namespace Paperboat.Terminal

open Machine InputCursor

/-! ## The queue of unanswered input -/

structure TerminalInput where
  sequence : ℕ
  data : Bytes
  /-- which Enqueue made it -/
  id : ℕ
  /-- the generation of the link it was typed on -/
  generation : ℕ
deriving DecidableEq, Repr

structure TerminalInputQueue where
  next : ℕ
  limit : ℕ
  pending : List TerminalInput
  sorted : pending.Pairwise fun p q => p.sequence < q.sequence
  bounded : ∀ p ∈ pending, p.sequence ≤ next

/-- NewTerminalInputQueue -/
def TerminalInputQueue.new (limit : ℕ) : TerminalInputQueue where
  next := 0
  limit := if limit < 1 then 256 else limit
  pending := []
  sorted := .nil
  bounded := by simp

variable (q : TerminalInputQueue)

/-- Enqueue fails (EnqueueWait waits) -/
def TerminalInputQueue.full (data : Bytes) : Bool := data = [] ∨ q.limit ≤ q.pending.length

/-- Enqueue -/
def TerminalInputQueue.enqueue (data : Bytes) (id generation : ℕ) : TerminalInputQueue where
  next := q.next + 1
  limit := q.limit
  pending := q.pending ++ [⟨q.next + 1, data, id, generation⟩]
  sorted := by
    refine List.pairwise_append.2 ⟨q.sorted, List.pairwise_singleton _ _, fun p hp r hr => ?_⟩
    rw [List.mem_singleton.1 hr]
    exact Nat.lt_succ_of_le (q.bounded p hp)
  bounded := by
    intro p hp
    rcases mem_snoc.1 hp with hp | rfl
    · exact Nat.le_succ_of_le (q.bounded p hp)
    · rfl

/-- Complete -/
def TerminalInputQueue.complete (sequence : ℕ) : TerminalInputQueue where
  next := max q.next sequence
  limit := q.limit
  pending := q.pending.filter (·.sequence ≠ sequence)
  sorted := q.sorted.sublist List.filter_sublist
  bounded := fun p hp => (q.bounded p (List.mem_filter.1 hp).1).trans (le_max_left _ _)

/-- what the host has not passed -/
def TerminalInputQueue.kept (hostSequence : ℕ) : List TerminalInput :=
  q.pending.filter (hostSequence ≤ ·.sequence)

/-- the first number the client would send -/
def TerminalInputQueue.first (hostSequence : ℕ) : ℕ :=
  match q.kept hostSequence with
  | p :: _ => p.sequence
  | [] => q.next + 1

/-- the host does not know this numbering -/
def TerminalInputQueue.foreign (hostSequence : ℕ) : Bool :=
  hostSequence + 1 < q.first hostSequence

/-- the queue after Reconcile and its three results -/
structure Reconciled where
  queue : TerminalInputQueue
  decided : List TerminalInput
  resend : List TerminalInput
  unconfirmed : List TerminalInput

/-- Reconcile -/
def TerminalInputQueue.reconcile (q : TerminalInputQueue) (hostSequence : ℕ) : Reconciled :=
  let decided := q.pending.filter (·.sequence < hostSequence)
  if q.foreign hostSequence then
    { queue := { next := hostSequence, limit := q.limit, pending := [], sorted := .nil, bounded := by simp }
      decided := decided
      resend := []
      unconfirmed := q.kept hostSequence }
  else
    { queue :=
        { next := max q.next hostSequence
          limit := q.limit
          pending := q.kept hostSequence
          sorted := q.sorted.sublist List.filter_sublist
          bounded := fun p hp => (q.bounded p (List.mem_filter.1 hp).1).trans (le_max_left _ _) }
      decided := decided
      resend := q.kept hostSequence
      unconfirmed := [] }

/-! ## Links -/

/-- who types: a client and its attachment -/
structure Identity where
  clientID : String
  attachmentID : String

def Identity.cursor (who : Identity) (generation : ℕ) : InputCursor := ⟨who.clientID, who.attachmentID, generation⟩

/-- a terminal_input_result -/
structure InputResult where
  /-- the client sees its number only -/
  input : TerminalInput
  /-- it is a decision of the journal, not an error -/
  decided : Bool
deriving DecidableEq, Repr

structure Link where
  generation : ℕ
  /-- the input sequence in the attach response -/
  reported : ℕ
  /-- that of the stream's binding on the host -/
  binding : ℕ
  reconciled : Bool := false
  /-- another link was made current after it -/
  retired : Bool := false
  lost : Bool := false
  /-- the last number sent on it -/
  inputSeq : ℕ := 0
  /-- on their way to the host -/
  frames : List TerminalInput := []
  /-- on their way to the client -/
  answers : List InputResult := []
deriving DecidableEq, Repr

/-- a call of the journal's writer -/
structure Written where
  generation : ℕ
  input : TerminalInput
  /-- the writer was that of the PTY, not one that stands in for it after an interrupt or with its context ended -/
  reached : Bool
deriving DecidableEq, Repr

structure Links (Hash : Type) where
  session : Session Hash
  queue : TerminalInputQueue
  links : ℕ → Option Link := fun _ => none
  current : Option ℕ := none
  /-- the link of the Write in progress -/
  writer : Option ℕ := none
  /-- how many inputs were enqueued -/
  typed : ℕ := 0
  /-- the calls of the journal's writer, in order -/
  writes : List Written := []
  /-- the inputs unanswered when a new generation took the place of the one they were typed for -/
  unknown : List TerminalInput := []
  /-- the inputs for which a decision was received -/
  settled : List TerminalInput := []
  /-- the inputs reported to the user as unconfirmed -/
  unconfirmed : List TerminalInput := []

inductive LinkOp where
  /-- the host answers an attach -/
  | attach (i : ℕ)
  /-- the client has the answer: finishAttachment -/
  | reconcile (i : ℕ)
  /-- setCurrent -/
  | promote (i : ℕ)
  /-- Write is called: waitCurrent -/
  | write
  /-- the next chunk of the Write in progress -/
  | type (data : Bytes)
  /-- the host handles the next frame -/
  | deliver (i : ℕ) (w : Weather)
  /-- the client handles the next answer -/
  | answer (i : ℕ)
  /-- the stream ends on the host; what it has answered may still arrive -/
  | close (i : ℕ)
  | lose (i : ℕ)
  /-- Interrupt stores the key of this or another attachment -/
  | interrupt (key : InputKey)
  /-- the attachment is detached -/
  | detach
  /-- the process is gone -/
  | exited
  | restart (pruneFails : Bool)
deriving DecidableEq, Repr

section

variable {Hash : Type} [DecidableEq Hash] (sum256 : Bytes → Hash) (who : Identity)

/-- the last number of the current generation -/
def Links.last (s : Links Hash) : ℕ := s.session.inputs.lastSequence (who.cursor s.session.generation)

def Links.setLink (s : Links Hash) (i : ℕ) (l : Link) : Links Hash :=
  { s with links := Function.update s.links i (some l) }

/-- input frames are sent one after another; on a lost link they go nowhere -/
def Link.send (l : Link) (inputs : List TerminalInput) : Link :=
  { l with
    inputSeq := (inputs.getLast?.map TerminalInput.sequence).getD l.inputSeq
    frames := if l.lost then [] else l.frames ++ inputs }

/-- the host ends the connection after an error; what it has answered may still arrive -/
def Link.ended (l : Link) : Link := { l with lost := true, frames := [] }

/-- the number follows the last one of the stream, or repeats it -/
def Link.contiguous (l : Link) (f : TerminalInput) : Bool := f.sequence = l.binding ∨ f.sequence = l.binding + 1

/-- the head frame is answered -/
def Link.answered (l : Link) (f : TerminalInput) (rest : List TerminalInput) (decided : Bool) : Link :=
  { l with frames := rest, answers := l.answers ++ [⟨f, decided⟩] }

/-- errors that are answered and leave the connection as it is -/
def WriteFailure.tolerated : WriteFailure → Bool
  | .input .inputConflict | .input .inputSequence | .input .inputUncertain | .input (.staleGeneration _)
  | .input .invalidInput => true
  | .input .inputUnknown | .input .inputJournalFull | .store => false

/-- launchRestartLocked; DeleteInputDecisionsOutsideGeneration may fail -/
def Session.restart (s : Session Hash) (pruneFails : Bool) : Session Hash :=
  { s with
    generation := s.generation + 1
    live := some (s.generation + 1)
    inputs := s.inputs.setGeneration (s.generation + 1)
    rows := if pruneFails then s.rows else s.rows.map (Table.keep (·.cursor.generation = s.generation + 1)) }

/-- HandleTerminalInput: a WriteContext under the identity of the link's stream -/
def Links.handleTerminalInput (s : Links Hash) (generation : ℕ) (f : TerminalInput) (w : Weather) :
    Links Hash × Except WriteFailure InputDecision :=
  let key := (who.cursor generation).key f.sequence
  let reached : Bool := (s.session.sink key).1 = .pty ∧ w.cancelled = false
  let (session, answer) := s.session.writeContext sum256 key f.data w
  ({ s with
      session := session
      writes := if s.session.decides sum256 key f.data w then s.writes ++ [⟨generation, f, reached⟩] else s.writes },
    answer)

/-- handleTerminalDataWithWriter for a terminal's input frame -/
def Links.handle (s : Links Hash) (i : ℕ) (l : Link) (f : TerminalInput) (rest : List TerminalInput) (w : Weather) :
    Links Hash :=
  if !l.contiguous f then s.setLink i l.ended
  else
    match s.handleTerminalInput sum256 who l.generation f w with
    | (s, .ok _) => s.setLink i { l.answered f rest true with binding := max l.binding f.sequence }
    | (s, .error e) =>
      s.setLink i (if e.tolerated then l.answered f rest false else (l.answered f rest false).ended)

def Links.step (s : Links Hash) : LinkOp → Links Hash
  | .attach i =>
    match s.links i with
    | some _ => s
    | none =>
      let attached : Links Hash := { s with
        session := { s.session with attached := who.attachmentID :: s.session.attached } }
      attached.setLink i { generation := s.session.generation, reported := s.last who, binding := s.last who }
  | .reconcile i =>
    match s.links i with
    | none => s
    | some l =>
      if l.reconciled then s
      else
        let r := s.queue.reconcile l.reported
        let reconciled : Links Hash := { s with queue := r.queue, unconfirmed := s.unconfirmed ++ r.unconfirmed }
        reconciled.setLink i ({ l with reconciled := true, inputSeq := l.reported }.send r.resend)
  | .promote i =>
    match s.links i with
    | none => s
    | some l =>
      if !l.reconciled || l.retired || s.current = some i then s
      else
        { s with
          current := some i
          links := fun j => if s.current = some j then (s.links j).map ({ · with retired := true }) else s.links j }
  | .write => { s with writer := s.current }
  | .type data =>
    match s.writer with
    | none => s
    | some i =>
      match s.links i with
      | none => s
      | some l =>
        if s.queue.full data then s
        else
          let queued : Links Hash := { s with
            queue := s.queue.enqueue data s.typed l.generation
            typed := s.typed + 1 }
          queued.setLink i (l.send [⟨s.queue.next + 1, data, s.typed, l.generation⟩])
  | .deliver i w =>
    match s.links i with
    | none => s
    | some l =>
      match l.frames with
      | [] => s
      | f :: rest => s.handle sum256 who i l f rest w
  | .answer i =>
    match s.links i with
    | none => s
    | some l =>
      match l.answers with
      | [] => s
      | a :: rest =>
        let completed : Links Hash := { s with
          queue := s.queue.complete a.input.sequence
          settled := if a.decided then s.settled ++ [a.input] else s.settled }
        completed.setLink i { l with answers := rest }
  | .close i =>
    match s.links i with
    | none => s
    | some l => s.setLink i l.ended
  | .lose i =>
    match s.links i with
    | none => s
    | some l => s.setLink i { l.ended with answers := [] }
  | .interrupt key =>
    if key.inputSequence = 0 ∨ s.session.live ≠ some key.generation then s
    else { s with session := { s.session with interrupt := some key } }
  | .detach => { s with session := { s.session with attached := s.session.attached.filter (· ≠ who.attachmentID) } }
  | .exited => { s with session := { s.session with live := none } }
  | .restart pruneFails =>
    -- ErrSessionRunning
    if s.session.live ≠ none then s
    else { s with session := s.session.restart pruneFails, unknown := s.unknown ++ s.queue.pending }

/-- a new session, with or without a store, and a new client -/
def Links.start (generation max limit : ℕ) (stored : Bool) : Links Hash :=
  { session := { generation := generation, live := some generation, inputs := .new generation max,
                 rows := if stored then some ∅ else none }
    queue := .new limit }

/-- what the journal of the current generation wrote -/
def Links.now (s : Links Hash) : List Written := s.writes.filter (·.generation = s.session.generation)

/-- what the terminal is given by a call of the journal's writer -/
def Written.given (w : Written) : InputKey × Bytes :=
  ((who.cursor w.generation).key w.input.sequence, w.input.data)

end

/-! ## The host -/

open Links

open TerminalInputQueue

section

variable {Hash : Type} {who : Identity} {s : Links Hash} {f : TerminalInput} {l : Link} {i : ℕ}

theorem mem_send {inputs : List TerminalInput} (hf : f ∈ (l.send inputs).frames) : f ∈ l.frames ∨ f ∈ inputs := by
  unfold Link.send at hf
  by_cases hlost : l.lost = true
  · simp [hlost] at hf
  · simpa [hlost] using hf

variable {q : TerminalInputQueue} {n : ℕ}

theorem resend_subset : (q.reconcile n).resend ⊆ q.pending := by
  unfold reconcile
  split_ifs
  · exact List.nil_subset _
  · exact List.filter_sublist.subset

theorem reconcile_subset : (q.reconcile n).queue.pending ⊆ q.pending := by
  unfold reconcile
  split_ifs
  · exact List.nil_subset _
  · exact List.filter_sublist.subset

/-- a link, against the generation and the last number of the journal -/
structure Link.Sound (current last : ℕ) (l : Link) : Prop where
  generation : l.generation ≤ current
  /-- no stream is ahead of the journal -/
  binding : l.generation = current → l.binding ≤ last
  reported : l.generation = current → l.reported ≤ last
  frames : ∀ f ∈ l.frames, 0 < f.sequence

theorem Link.Sound.later {current last last' : ℕ} (h : l.Sound current last) (hle : last ≤ last') :
    l.Sound current last' :=
  { h with
    binding := fun hgen => (h.binding hgen).trans hle
    reported := fun hgen => (h.reported hgen).trans hle }

/-- the journal of a session in a generation -/
structure InputJournal.Sound (generation : ℕ) (j : InputJournal Hash) : Prop where
  current : j.current = generation
  known : ∀ key, (j.decisions.lookup key).isSome = true →
    key.generation ≤ generation ∧ key.inputSequence ≤ j.lastSequence key.cursor
  cursors : ∀ c, j.lastSequence c ≠ 0 → c.generation ≤ generation

variable (who s) in
/-- what holds of the host in every run -/
structure Links.Hosted : Prop where
  journal : s.session.inputs.Sound s.session.generation
  /-- the current generation wrote 1, 2, 3, … -/
  numbers : s.now.map (·.input.sequence) = List.range' 1 (s.last who)
  past : ∀ w ∈ s.writes, w.generation ≤ s.session.generation
  pty : s.session.pty = (s.writes.filter (·.reached)).map (Written.given who)
  pending : ∀ p ∈ s.queue.pending, 0 < p.sequence
  links : ∀ i l, s.links i = some l → l.Sound s.session.generation (s.last who)

theorem Links.Hosted.start (generation max limit : ℕ) (stored : Bool) :
    Links.Hosted who (.start generation max limit stored : Links Hash) where
  journal := ⟨rfl, by simp [Links.start, InputJournal.new], by simp [Links.start, InputJournal.new,
    InputJournal.lastSequence]⟩
  numbers := rfl
  past := by simp [Links.start]
  pty := rfl
  pending := by simp [Links.start, new]
  links := by simp [Links.start]

/-- what holds of every link after one of them was set -/
theorem setLink_forall {P : Link → Prop} (hl : P l) (hs : ∀ j l', s.links j = some l' → P l') :
    ∀ j l', (s.setLink i l).links j = some l' → P l' := by
  intro j l' hj
  change Function.update s.links i (some l) j = some l' at hj
  rw [Function.update_apply] at hj
  split_ifs at hj
  · exact Option.some.inj hj ▸ hl
  · exact hs j l' hj

/-- a restart leaves nothing in the journal -/
theorem InputJournal.Sound.restart {j : InputJournal Hash} {g : ℕ} (h : j.Sound g) :
    (j.setGeneration (g + 1)).Sound (g + 1) ∧ ∀ c, (j.setGeneration (g + 1)).lastSequence c = 0 := by
  have hlast : ∀ c, (j.setGeneration (g + 1)).lastSequence c = 0 := by
    intro c
    rw [setGeneration_lastSequence]
    split_ifs with hgen
    · by_contra hne
      have := h.cursors c hne
      omega
    · rfl
  refine ⟨⟨rfl, fun key hkey => ?_, fun c hc => absurd (hlast c) hc⟩, hlast⟩
  rw [setGeneration_lookup] at hkey
  split_ifs at hkey with hgen
  · have := (h.known key hkey).1
    omega
  · simp at hkey

variable [DecidableEq Hash] {sum256 : Bytes → Hash} {key : InputKey} {data : Bytes} {w : Weather}

variable (sum256 key data w) in
/-- a WriteContext of a sequenced key, for the journal -/
theorem InputJournal.Sound.writeContext {t : Session Hash} {g : ℕ} (h : t.inputs.Sound g)
    (hseq : key.inputSequence ≠ 0) : (t.writeContext sum256 key data w).1.inputs.Sound g := by
  cases hdecides : t.decides sum256 key data w with
  | false =>
    rw [(writeContext_of_not_decides hdecides).1.inputs]
    exact h
  | true =>
    have hgen : key.generation = g := by
      have := (takes_iff.1 (decides_takes hdecides)).2.2.2.1
      rw [InputKey.normalize_generation] at this
      exact this.trans h.current
    have hlast (c : InputCursor) : (t.writeContext sum256 key data w).1.inputs.lastSequence c = _ :=
        writeContext_lastSequence c
    simp only [hdecides, hseq, ne_eq, not_false_eq_true, true_and] at hlast
    have habove := decides_above hdecides hseq
    constructor
    case current =>
      rw [(writeContext_of_decides hdecides).inputs, record_current, take_current]
      exact h.current
    case known =>
      intro k hk
      rw [hlast]
      rw [(writeContext_of_decides hdecides).inputs, record_isSome, take_lookup] at hk
      split_ifs at hk with hold hkey
      · simp at hk
      · rw [hkey, InputKey.normalize_cursor, if_pos rfl, InputKey.normalize_generation, hgen]
        simp
      · obtain ⟨hle, hknown⟩ := h.known k hk
        refine ⟨hle, ?_⟩
        split_ifs with hcursor
        · rw [hcursor] at hknown
          omega
        · exact hknown
    case cursors =>
      intro c hc
      rw [hlast] at hc
      split_ifs at hc with hcursor
      · rw [hcursor, InputKey.cursor_generation, hgen]
      · exact h.cursors c hc

/-- what is answered with a decision is not above the last number -/
theorem InputJournal.Sound.answered {t : Session Hash} {g : ℕ} {decision : InputDecision} (h : t.inputs.Sound g)
    (hseq : key.inputSequence ≠ 0) (hok : (t.writeContext sum256 key data w).2 = .ok decision) :
    key.inputSequence ≤ (t.writeContext sum256 key data w).1.inputs.lastSequence key.cursor := by
  rw [writeContext_lastSequence]
  split_ifs with hdecides
  · rfl
  · have hknown := (writeContext_ok hok).resolve_left fun h => hdecides ⟨h, hseq, rfl⟩
    simpa using (h.known _ hknown).2

/-! ### A frame at the host -/

section

variable (h : s.Hosted who)
include h

omit [DecidableEq Hash] in
theorem Links.Hosted.setLink (hl : l.Sound s.session.generation (s.last who)) : (s.setLink i l).Hosted who :=
  { h with links := setLink_forall hl h.links }

variable {g : ℕ}

/-- only input of the current generation is decided -/
theorem Links.Hosted.decides_generation
    (hdecides : s.session.decides sum256 ((who.cursor g).key f.sequence) f.data w = true) :
    g = s.session.generation := by
  have hgen := (takes_iff.1 (decides_takes hdecides)).2.2.2.1
  rw [InputKey.normalize_generation] at hgen
  exact hgen.trans h.journal.current

/-- the numbers up to the last one are decided, so a contiguous number that is decided now is the next one -/
theorem Links.Hosted.decides_next (hl : l.Sound s.session.generation (s.last who)) (hcont : l.contiguous f = true)
    (hpos : 0 < f.sequence)
    (hdecides : s.session.decides sum256 ((who.cursor l.generation).key f.sequence) f.data w = true) :
    f.sequence = s.last who + 1 := by
  have hgen := h.decides_generation hdecides
  have herr := (takes_iff.1 (decides_takes hdecides)).2.2.2.2
  have hbinding := hl.binding hgen
  rw [normalize_key, normalize_key, sequenceError_none hpos.ne', cursor_key, hgen,
    ← last] at herr
  simp only [Link.contiguous, decide_eq_true_eq] at hcont
  simp only [key_inputSequence] at herr
  omega

omit [DecidableEq Hash] in
/-- without a new decision everything stays -/
theorem Links.Hosted.untouched {t : Session Hash} (ht : s.session.Untouched t) :
    ({ s with session := t } : Links Hash).Hosted who := by
  have hlast : ({ s with session := t } : Links Hash).last who = s.last who := by
    unfold last
    rw [ht.inputs, ht.generation]
  constructor
  case journal =>
    rw [ht.inputs, ht.generation]
    exact h.journal
  case numbers =>
    rw [hlast, now, ht.generation]
    exact h.numbers
  case past =>
    rw [ht.generation]
    exact h.past
  case pty => exact ht.pty.trans h.pty
  case pending => exact h.pending
  case links =>
    rw [hlast, ht.generation]
    exact h.links

/-- a new decision is about the next number -/
theorem Links.Hosted.decided (hl : l.Sound s.session.generation (s.last who)) (hcont : l.contiguous f = true)
    (hpos : 0 < f.sequence)
    (hdecides : s.session.decides sum256 ((who.cursor l.generation).key f.sequence) f.data w = true) :
    (s.handleTerminalInput sum256 who l.generation f w).1.Hosted who ∧
    (s.handleTerminalInput sum256 who l.generation f w).1.last who = s.last who + 1 := by
  have hgen := h.decides_generation hdecides
  have hnext := h.decides_next hl hcont hpos hdecides
  have hdecided := writeContext_of_decides hdecides
  have hjournal := h.journal.writeContext sum256 ((who.cursor l.generation).key f.sequence) f.data w hpos.ne'
  have hlast : (s.handleTerminalInput sum256 who l.generation f w).1.last who = s.last who + 1 := by
    unfold last handleTerminalInput
    dsimp only
    rw [hdecided.generation, writeContext_lastSequence, if_pos ⟨hdecides, hpos.ne', by rw [cursor_key, hgen]⟩]
    exact hnext
  refine ⟨?_, hlast⟩
  constructor
  case journal =>
    unfold handleTerminalInput
    dsimp only
    rw [hdecided.generation]
    exact hjournal
  case numbers =>
    rw [hlast, List.range'_1_concat, ← h.numbers]
    unfold now handleTerminalInput
    dsimp only
    rw [if_pos hdecides, hdecided.generation, List.filter_append, List.map_append]
    simp [hgen, hnext, Nat.add_comm]
  case past =>
    unfold handleTerminalInput
    dsimp only
    rw [if_pos hdecides, hdecided.generation]
    intro v hv
    rcases mem_snoc.1 hv with hv | rfl
    · exact h.past v hv
    · exact hgen.le
  case pty =>
    unfold handleTerminalInput
    dsimp only
    rw [if_pos hdecides, hdecided.pty, List.filter_append, List.map_append, ← h.pty, normalize_key]
    split_ifs with hreached <;> simp [hreached, Written.given]
  case pending => exact h.pending
  case links =>
    rw [hlast]
    unfold handleTerminalInput
    dsimp only
    rw [hdecided.generation]
    exact fun j l' hj => (h.links j l' hj).later (Nat.le_succ _)

variable (sum256) in
/-- WriteContext for a contiguous number -/
theorem Links.Hosted.handleTerminalInput (w : Weather) (hl : l.Sound s.session.generation (s.last who))
    (hcont : l.contiguous f = true) (hpos : 0 < f.sequence) :
    (s.handleTerminalInput sum256 who l.generation f w).1.Hosted who ∧
    (s.handleTerminalInput sum256 who l.generation f w).1.session.generation = s.session.generation ∧
    s.last who ≤ (s.handleTerminalInput sum256 who l.generation f w).1.last who := by
  cases hdecides : s.session.decides sum256 ((who.cursor l.generation).key f.sequence) f.data w with
  | true =>
    obtain ⟨hhosted, hlast⟩ := h.decided hl hcont hpos hdecides
    exact ⟨hhosted, (writeContext_of_decides hdecides).generation, hlast ▸ Nat.le_succ _⟩
  | false =>
    have hsame := (writeContext_of_not_decides hdecides).1
    unfold Links.handleTerminalInput
    simp only [hdecides, Bool.false_eq_true, if_false]
    refine ⟨h.untouched hsame, hsame.generation, ?_⟩
    unfold Links.last
    rw [hsame.inputs, hsame.generation]

/-- an answer with a decision is about a number up to the last one -/
theorem Links.Hosted.answered {decision : InputDecision} (hpos : 0 < f.sequence) (hgen : g = s.session.generation)
    (hsame : (s.handleTerminalInput sum256 who g f w).1.session.generation = s.session.generation)
    (hok : (s.handleTerminalInput sum256 who g f w).2 = .ok decision) :
    f.sequence ≤ (s.handleTerminalInput sum256 who g f w).1.last who := by
  have hanswered := h.journal.answered hpos.ne' hok
  rw [cursor_key, hgen] at hanswered
  unfold last
  rw [hsame, hgen]
  exact hanswered

variable (sum256) in
/-- **A frame at the host.** Nothing is there, or the head frame is gone after a WriteContext or together with the
link -/
theorem Links.Hosted.deliver_cases (i : ℕ) (w : Weather) : s.step sum256 who (.deliver i w) = s ∨
    ∃ l f rest s' l', s.links i = some l ∧ l.frames = f :: rest ∧ s.step sum256 who (.deliver i w) = s'.setLink i l' ∧
      (s' = s ∨ s' = (s.handleTerminalInput sum256 who l.generation f w).1) ∧ s'.Hosted who ∧
      s'.session.generation = s.session.generation ∧ s.last who ≤ s'.last who ∧
      l'.Sound s'.session.generation (s'.last who) ∧ l'.generation = l.generation ∧ l'.reconciled = l.reconciled ∧
      l'.frames ⊆ rest := by
  simp only [step]
  repeat' split
  any_goals exact .inl rfl
  next l hl _ f rest hf =>
    have hsound := h.links i l hl
    have hrest : ∀ p ∈ rest, 0 < p.sequence := fun p hp => hsound.frames p (hf ▸ List.mem_cons_of_mem _ hp)
    refine .inr ⟨l, f, rest, ?_⟩
    unfold handle
    by_cases hcont : l.contiguous f = true
    · have hpos := hsound.frames f (hf ▸ List.mem_cons_self)
      obtain ⟨hhosted, hgen, hlast⟩ := h.handleTerminalInput sum256 w hsound hcont hpos
      have hlater := hgen.symm ▸ hsound.later hlast
      rw [if_neg (by simp [hcont])]
      split
      next s' decision heq =>
        have hs' : s' = (s.handleTerminalInput sum256 who l.generation f w).1 := by rw [heq]
        refine ⟨_, _, hl, hf, rfl, .inr hs', hs' ▸ hhosted, hs' ▸ hgen, hs' ▸ hlast, ?_, rfl, rfl, List.Subset.refl _⟩
        have hok : (s.handleTerminalInput sum256 who l.generation f w).2 = .ok decision := by rw [heq]
        subst hs'
        exact ⟨hlater.generation, fun hg => max_le (hlater.binding hg) (h.answered hpos (hg.trans hgen) hgen hok),
          hlater.reported, hrest⟩
      next s' e heq =>
        have hs' : s' = (s.handleTerminalInput sum256 who l.generation f w).1 := by rw [heq]
        subst hs'
        refine ⟨_, _, hl, hf, rfl, .inr rfl, hhosted, hgen, hlast, ?_⟩
        split_ifs
        · exact ⟨⟨hlater.generation, hlater.binding, hlater.reported, hrest⟩, rfl, rfl, List.Subset.refl _⟩
        · exact ⟨⟨hlater.generation, hlater.binding, hlater.reported, by simp [Link.ended]⟩, rfl, rfl,
            List.nil_subset _⟩
    · rw [if_pos (by simp [hcont])]
      exact ⟨s, _, hl, hf, rfl, .inl rfl, h, rfl, le_refl _,
        ⟨hsound.generation, hsound.binding, hsound.reported, by simp [Link.ended]⟩, rfl, rfl, List.nil_subset _⟩

/-! ### Every step keeps it -/

omit [DecidableEq Hash] in
/-- the new generation starts with an empty journal, and no link is of it -/
theorem Links.Hosted.restart (pruneFails : Bool) {unknown : List TerminalInput} :
    ({ s with session := s.session.restart pruneFails, unknown := unknown } : Links Hash).Hosted who := by
  obtain ⟨hjournal, hzero⟩ := h.journal.restart
  constructor
  case journal => exact hjournal
  case numbers =>
    rw [last, now, List.filter_eq_nil_iff.2]
    · exact (congrArg (List.range' 1) (hzero _)).symm
    · intro v hv
      have := h.past v hv
      change ¬decide (v.generation = s.session.generation + 1) = true
      rw [decide_eq_true_eq]
      omega
  case past => exact fun v hv => Nat.le_succ_of_le (h.past v hv)
  case pty => exact h.pty
  case pending => exact h.pending
  case links =>
    intro j l hj
    have hsound := h.links j l hj
    have hold : ¬l.generation = s.session.generation + 1 := fun heq => by
      have := hsound.generation
      omega
    exact ⟨Nat.le_succ_of_le hsound.generation, fun hg => absurd hg hold, fun hg => absurd hg hold, hsound.frames⟩

theorem Links.Hosted.step (op : LinkOp) : (s.step sum256 who op).Hosted who := by
  cases op with
  | attach i =>
    simp only [Links.step]
    split
    · exact h
    · exact { h with links := setLink_forall ⟨le_refl _, fun _ => le_refl _, fun _ => le_refl _, by simp⟩ h.links }
  | reconcile i =>
    simp only [Links.step]
    repeat' split
    any_goals exact h
    rename_i l hl _
    have hsound := h.links i l hl
    refine { h with
      pending := fun p hp => h.pending p (reconcile_subset hp)
      links := setLink_forall ⟨hsound.generation, hsound.binding, hsound.reported, fun f hf => ?_⟩ h.links }
    rcases mem_send hf with hf | hf
    · exact hsound.frames f hf
    · exact h.pending f (resend_subset hf)
  | promote i =>
    simp only [Links.step]
    repeat' split
    any_goals exact h
    refine { h with links := fun j l hj => ?_ }
    dsimp only at hj
    split_ifs at hj
    · obtain ⟨l', hl', rfl⟩ := Option.map_eq_some_iff.1 hj
      exact { h.links j l' hl' with }
    · exact h.links j l hj
  | write => exact { h with }
  | type data =>
    simp only [Links.step]
    repeat' split
    any_goals exact h
    rename_i i _ _ l hl _
    have hsound := h.links i l hl
    refine { h with
      pending := fun p hp => ?_
      links := setLink_forall ⟨hsound.generation, hsound.binding, hsound.reported, fun f hf => ?_⟩ h.links }
    · rcases mem_snoc.1 hp with hp | rfl
      · exact h.pending p hp
      · exact Nat.succ_pos _
    · rcases mem_send hf with hf | hf
      · exact hsound.frames f hf
      · rw [List.mem_singleton.1 hf]
        exact Nat.succ_pos _
  | deliver i w =>
    obtain hsame | ⟨l, f, rest, s', l', -, -, hstep, -, hhosted, -, -, hsound, -⟩ := h.deliver_cases sum256 i w
    · rwa [hsame]
    · rw [hstep]
      exact hhosted.setLink hsound
  | answer i =>
    simp only [Links.step]
    split
    · exact h
    next l hl =>
      split
      · exact h
      · exact { h with
          pending := fun p hp => h.pending p (List.mem_filter.1 hp).1
          links := setLink_forall { h.links i l hl with } h.links }
  | close i | lose i =>
    simp only [Links.step]
    split
    · exact h
    · rename_i l hl
      exact h.setLink { h.links i l hl with frames := by simp [Link.ended] }
  | interrupt key =>
    simp only [Links.step]
    split_ifs
    · exact h
    · exact { h with }
  | detach | exited => exact { h with }
  | restart pruneFails =>
    unfold Links.step
    dsimp only
    by_cases hlive : s.session.live = none
    · rw [if_neg (not_not.2 hlive)]
      exact h.restart pruneFails
    · rwa [if_pos hlive]

omit h in
theorem Links.Hosted.run (generation max limit : ℕ) (stored : Bool) (ops : List LinkOp) :
    (Machine.run (Links.step sum256 who) (.start generation max limit stored) ops).Hosted who :=
  run_inv (I := fun _ s => Links.Hosted who s) _ _ (.start generation max limit stored) (fun _ op h => h.step op) ops

/-- what the journals of other generations wrote stays -/
theorem Links.Hosted.others (op : LinkOp) {g : ℕ} (hg : (s.step sum256 who op).session.generation ≠ g) :
    (s.step sum256 who op).writes.filter (·.generation = g) = s.writes.filter (·.generation = g) := by
  cases op with
  | deliver i w =>
    obtain hsame | ⟨l, f, rest, s', l', -, -, hstep, rfl | hs', -, hgen, -⟩ := h.deliver_cases sum256 i w
    · rw [hsame]
    · rw [hstep]
      rfl
    · rw [hstep] at hg ⊢
      change s'.session.generation ≠ g at hg
      change s'.writes.filter _ = _
      rw [hs']
      unfold Links.handleTerminalInput
      dsimp only
      split_ifs with hdecides
      · have hne : l.generation ≠ g := by rwa [h.decides_generation hdecides, ← hgen]
        simp [List.filter_append, hne]
      · rfl
  | _ =>
    simp only [Links.step]
    repeat' split
    all_goals rfl

end

/-- **Every journal is in sequence.** In every run, with any links, losses, repetitions, interrupts and restarts, the
journal of each generation calls its writer for the numbers 1, 2, 3, …, each once and in order. What the terminals are
given is the part of these calls for which the writer was that of the terminal. -/
theorem shells_in_sequence (generation max limit : ℕ) (stored : Bool) (ops : List LinkOp) :
    (∀ g, ∃ n,
      ((run (Links.step sum256 who) (.start generation max limit stored) ops).writes.filter (·.generation = g)).map
        (·.input.sequence) = List.range' 1 n) ∧
    (run (Links.step sum256 who) (.start generation max limit stored) ops).session.pty =
      ((run (Links.step sum256 who) (.start generation max limit stored) ops).writes.filter (·.reached)).map
        (Written.given who) := by
  refine ⟨fun g => ?_, (Links.Hosted.run generation max limit stored ops).pty⟩
  induction ops using List.reverseRecOn with
  | nil => exact ⟨0, rfl⟩
  | append_singleton ops op ih =>
    have h : (run (Links.step sum256 who) (.start generation max limit stored) ops).Hosted who :=
      .run generation max limit stored ops
    rw [run_snoc]
    by_cases hg : (Links.step sum256 who (run (Links.step sum256 who) (.start generation max limit stored) ops)
        op).session.generation = g
    · exact hg ▸ ⟨_, (h.step op).numbers⟩
    · rwa [h.others op hg]

end

end Paperboat.Terminal
