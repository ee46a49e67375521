/-
The output a terminal session retains for replay (hostruntime/history/history.go).

Output is appended in events, each numbered by the bytes it carries; the oldest events
go when more than `maxBytes` are retained. A `History` carries what its operations keep:
its events follow each other without a gap from `earliest` to `latest` (`Chained`),
`bytes` counts them, within the limit.

Results:
- `appendOwned_spec`: what an append retains, and the event it makes;
- `replayOwned_of_le`: a replay whose limit reaches the end gives the end part of every
  event it touches;
- `attachReplay_spec`: the replay of an attach always reaches the end, within its limit;
- `Chained.has`: the events as a tape of bytes.

Premises:
- buffers, their reference counts and the acknowledgements of attachments are left out:
  no output depends on them.
-/
import Paperboat.Core.Tape

namespace Paperboat.Output

abbrev Bytes := List UInt8

structure Event where
  channel : UInt8
  startSequence : ℕ
  endSequence : ℕ
  data : Bytes
  deriving DecidableEq, Repr

/-- the bytes, each with the channel it belongs to -/
def Event.content (e : Event) : List (UInt8 × UInt8) := e.data.map fun b => (e.channel, b)

/-- the part of an event from `n` on -/
def Event.trim (e : Event) (n : ℕ) : Event := { e with startSequence := n, data := e.data.drop (n - e.startSequence) }

/-- the part of an event from `start` up to `stop` -/
def Event.slice (e : Event) (start stop : ℕ) : Event :=
  { e with
    startSequence := start
    endSequence := stop
    data := (e.data.drop (start - e.startSequence)).take (stop - start) }

/-- the bytes in the events -/
def total (events : List Event) : ℕ := (events.map fun e => e.data.length).sum

@[simp] theorem total_nil : total [] = 0 := rfl

@[simp] theorem total_cons (e : Event) (es : List Event) : total (e :: es) = e.data.length + total es := rfl

@[simp] theorem Event.length_content (e : Event) : e.content.length = e.data.length := List.length_map _

/-! ## Events without a gap -/

/-- the events follow each other from `n` to `m`, each as long as its numbers say -/
def Chained : ℕ → List Event → ℕ → Prop
  | n, [], m => n = m
  | n, e :: es, m => e.startSequence = n ∧ e.endSequence = n + e.data.length ∧ Chained e.endSequence es m

open Event

namespace Chained

variable {n m k : ℕ} {es es' : List Event} {e : Event}

theorem of_append (h : Chained n (es ++ es') k) : ∃ m, Chained n es m ∧ Chained m es' k := by
  induction es generalizing n with
  | nil => exact ⟨n, rfl, h⟩
  | cons e es ih =>
    obtain ⟨m, hes, hes'⟩ := ih h.2.2
    exact ⟨m, ⟨h.1, h.2.1, hes⟩, hes'⟩

variable (h : Chained n es m)
include h

theorem append (h' : Chained m es' k) : Chained n (es ++ es') k := by
  induction es generalizing n with
  | nil => exact (show n = m from h) ▸ h'
  | cons e es ih => exact ⟨h.1, h.2.1, ih h.2.2⟩

theorem total_eq : n + total es = m := by
  induction es generalizing n with
  | nil => exact h
  | cons e es ih =>
    have := ih h.2.2
    rw [total_cons]
    have := h.2.1
    omega

theorem le : n ≤ m := by
  have := h.total_eq
  omega

theorem mem (he : e ∈ es) : n ≤ e.startSequence ∧ e.endSequence = e.startSequence + e.data.length ∧
    e.endSequence ≤ m := by
  obtain ⟨before, after, rfl⟩ := List.append_of_mem he
  obtain ⟨k, hbefore, hstart, hend, hafter⟩ := of_append h
  have := hbefore.le
  have := hafter.le
  omega

theorem getLast : (es.getLast?.map endSequence).getD n = m := by
  induction es generalizing n with
  | nil => exact h
  | cons e es ih =>
    rw [List.getLast?_cons, Option.map_some]
    have := ih h.2.2
    cases hlast : es.getLast? with
    | none | some => simpa [hlast] using this

end Chained

/-- the events as a tape that begins at `n` -/
def tape (n : ℕ) (es : List Event) : Tape (UInt8 × UInt8) := ⟨n, es.flatMap content⟩

theorem tape_snoc (n : ℕ) (es : List Event) (e : Event) : tape n (es ++ [e]) = (tape n es).extend e.content := by
  simp [tape, Tape.extend]

variable {es : List Event} {n m : ℕ}

theorem Chained.stop (h : Chained n es m) : (tape n es).stop = m := by
  have hlength : (es.flatMap content).length = total es := by
    simp [total, List.length_flatMap]
  rw [Tape.stop, tape, hlength, h.total_eq]

variable {e : Event}

theorem Chained.has (h : Chained n es m) (he : e ∈ es) : (tape n es).Has e.startSequence e.content := by
  obtain ⟨before, after, rfl⟩ := List.append_of_mem he
  obtain ⟨k, hbefore, hstart, -, -⟩ := of_append h
  refine ⟨before.flatMap content, after.flatMap content, by simp [tape], ?_⟩
  have := hbefore.stop
  rw [hstart, ← this]
  rfl

/-- a nonempty end part of one of the events -/
def TailOf (es : List Event) (e : Event) : Prop :=
  ∃ a ∈ es, a.startSequence ≤ e.startSequence ∧ e.startSequence < a.endSequence ∧ e = a.trim e.startSequence

theorem TailOf.mono {es' : List Event} (h : TailOf es e) (hsub : es ⊆ es') : TailOf es' e := by
  obtain ⟨a, ha, htail⟩ := h
  exact ⟨a, hsub ha, htail⟩

theorem TailOf.sized (h : TailOf es e) (hchain : Chained n es m) :
    e.startSequence < e.endSequence ∧ e.endSequence = e.startSequence + e.data.length ∧ n ≤ e.startSequence ∧
      e.endSequence ≤ m := by
  obtain ⟨a, ha, hlow, hhigh, htrim⟩ := h
  obtain ⟨hstart, hsized, hend⟩ := hchain.mem ha
  have hdata : e.data.length = a.data.length - (e.startSequence - a.startSequence) := by
    conv_lhs => rw [htrim]
    exact List.length_drop
  have hstop : e.endSequence = a.endSequence := by
    conv_lhs => rw [htrim]
    rfl
  omega

theorem TailOf.has (h : TailOf es e) (hchain : Chained n es m) : (tape n es).Has e.startSequence e.content := by
  obtain ⟨a, ha, hlow, hhigh, htrim⟩ := h
  have hsized := (hchain.mem ha).2.1
  have hdrop := (hchain.has ha).drop (k := e.startSequence - a.startSequence) (by rw [length_content]; omega)
  rw [Nat.add_sub_cancel' hlow] at hdrop
  have hcontent : e.content = a.content.drop (e.startSequence - a.startSequence) := by
    conv_lhs => rw [htrim]
    simp [content, trim]
  rwa [hcontent]

/-! ## The history -/

/-- math.MaxUint64 -/
def maxSequence : ℕ := 2 ^ 64 - 1

structure History where
  maxBytes : ℕ
  bytes : ℕ
  earliest : ℕ
  latest : ℕ
  /-- the events that are not compacted away, `events[head:]` -/
  events : List Event
  positive : 0 < maxBytes
  chained : Chained earliest events latest
  counted : bytes = total events
  limited : bytes ≤ maxBytes
  bounded : latest ≤ maxSequence

inductive HistoryError where
  | invalidLimit
  | invalidCursor
  | sequenceFull
  | gap (requestedSequence earliestSequence latestSequence : ℕ)
  deriving DecidableEq, Repr

namespace History

def empty (maxBytes : ℕ) (positive : 0 < maxBytes) : History :=
  { maxBytes, bytes := 0, earliest := 0, latest := 0, events := [], positive, chained := rfl, counted := rfl
    limited := Nat.zero_le _, bounded := Nat.zero_le _ }

def new (maxBytes : ℕ) : Except HistoryError History :=
  if h : maxBytes = 0 then .error .invalidLimit else .ok (empty maxBytes (Nat.pos_of_ne_zero h))

/-- the loop drops the oldest event while more than the limit is retained -/
def compactLocked (maxBytes latest : ℕ) (positive : 0 < maxBytes) (bounded : latest ≤ maxSequence) :
    (events : List Event) → (bytes earliest : ℕ) → Chained earliest events latest → bytes = total events → History
  | [], bytes, _, _, counted =>
    { maxBytes, bytes, earliest := latest, latest, events := [], positive, chained := rfl, counted
      limited := counted ▸ Nat.zero_le _, bounded }
  | event :: rest, bytes, earliest, chained, counted =>
    if h : bytes > maxBytes then
      compactLocked maxBytes latest positive bounded rest (bytes - event.data.length) event.endSequence chained.2.2
        (by rw [counted, total_cons, Nat.add_sub_cancel_left])
    else
      { maxBytes, bytes, earliest, latest, events := event :: rest, positive, chained, counted,
        limited := not_lt.1 h, bounded }

/-- the event an append makes -/
def next (h : History) (channel : UInt8) (data : Bytes) : Event :=
  { channel, startSequence := h.latest, endSequence := h.latest + data.length, data }

def appendOwned (h : History) (channel : UInt8) (data : Bytes) : Except HistoryError (Event × History) :=
  if data.length = 0 then .ok ({ channel, startSequence := h.latest, endSequence := h.latest, data := [] }, h)
  else if hfull : data.length > maxSequence - h.latest then .error .sequenceFull
  else .ok (h.next channel data,
    compactLocked h.maxBytes (h.latest + data.length) h.positive (by have := h.bounded; omega)
      (h.events ++ [h.next channel data]) (h.bytes + data.length) h.earliest
      (h.chained.append ⟨rfl, rfl, rfl⟩) (by rw [h.counted]; simp [total, next]))

def clear (h : History) : History :=
  { h with bytes := 0, earliest := h.latest, events := [], chained := rfl, counted := rfl, limited := Nat.zero_le _ }

variable {h h' : History} {channel : UInt8} {data : Bytes} {event : Event}

theorem compactLocked_spec {maxBytes latest : ℕ} {positive : 0 < maxBytes} {bounded : latest ≤ maxSequence}
    {events : List Event} {bytes earliest : ℕ} {chained : Chained earliest events latest}
      {counted : bytes = total events} :
    (compactLocked maxBytes latest positive bounded events bytes earliest chained counted).latest = latest ∧
      (compactLocked maxBytes latest positive bounded events bytes earliest chained counted).events <:+ events := by
  induction events generalizing bytes earliest with
  | nil => exact ⟨rfl, List.suffix_rfl⟩
  | cons event rest ih =>
    unfold compactLocked
    split_ifs with hfull
    · exact ⟨ih.1, ih.2.trans (List.suffix_cons event rest)⟩
    · exact ⟨rfl, List.suffix_rfl⟩

/-- an append retains the event, and of the older ones the newest -/
theorem appendOwned_spec (hne : data ≠ []) (happend : h.appendOwned channel data = .ok (event, h')) :
    event = h.next channel data ∧ h'.latest = event.endSequence ∧ h'.events <:+ h.events ++ [event] := by
  unfold appendOwned at happend
  rw [if_neg (by simpa using hne)] at happend
  split_ifs at happend with hfull
  cases happend
  exact ⟨rfl, compactLocked_spec⟩

end History

/-! ## Replay -/

structure Replay where
  fromSequence : ℕ
  toSequence : ℕ
  earliestSequence : ℕ
  latestSequence : ℕ
  events : List Event
  deriving DecidableEq, Repr

/-- the loop of a replay over the retained events; a limit of zero is none -/
def replayEvents (fromSequence byteLimit : ℕ) : ℕ → List Event → List Event
  | _, [] => []
  | remaining, event :: rest =>
    if event.endSequence ≤ fromSequence then replayEvents fromSequence byteLimit remaining rest
    else
      let start := max fromSequence event.startSequence
      let stop := if 0 < byteLimit ∧ event.endSequence - start > remaining then start + remaining else event.endSequence
      if start < stop then
        event.slice start stop ::
          if 0 < byteLimit then
            if remaining - (stop - start) = 0 then []
            else replayEvents fromSequence byteLimit (remaining - (stop - start)) rest
          else replayEvents fromSequence byteLimit remaining rest
      else replayEvents fromSequence byteLimit remaining rest

def History.replayOwned (h : History) (fromSequence byteLimit : ℕ) : Except HistoryError Replay :=
  if fromSequence < h.earliest then .error (.gap fromSequence h.earliest h.latest)
  else if fromSequence > h.latest then .error .invalidCursor
  else
    let events := replayEvents fromSequence byteLimit byteLimit h.events
    .ok
      { fromSequence
        toSequence := (events.getLast?.map endSequence).getD fromSequence
        earliestSequence := h.earliest
        latestSequence := h.latest
        events }

/-- the end parts from `n` on of the events that reach beyond it -/
def tails (n : ℕ) (es : List Event) : List Event :=
  (es.filter fun e => max n e.startSequence < e.endSequence).map fun e => e.trim (max n e.startSequence)

theorem Event.slice_end {start : ℕ} (hsized : e.endSequence = e.startSequence + e.data.length)
    (hlow : e.startSequence ≤ start) : e.slice start e.endSequence = e.trim start := by
  unfold slice trim
  rw [List.take_of_length_le (by rw [List.length_drop]; omega)]

theorem tails_cons_of_le (h : e.endSequence ≤ max n e.startSequence) : tails n (e :: es) = tails n es := by
  simp only [tails]
  rw [List.filter_cons_of_neg (by simpa only [decide_eq_true_eq, not_lt] using h)]

theorem tails_cons_of_lt (h : max n e.startSequence < e.endSequence) :
    tails n (e :: es) = e.trim (max n e.startSequence) :: tails n es := by
  simp only [tails]
  rw [List.filter_cons_of_pos (by simpa only [decide_eq_true_eq] using h), List.map_cons]

variable {fromSequence : ℕ} {byteLimit remaining : ℕ}

/-- when everything up to the end fits the limit, nothing is cut off at the end -/
theorem replayEvents_eq_tails (h : Chained n es m)
    (hfits : m - max fromSequence n ≤ remaining) :
    replayEvents fromSequence byteLimit remaining es = tails fromSequence es := by
  induction es generalizing n remaining with
  | nil => rfl
  | cons e es ih =>
    obtain ⟨hstart, hend, hrest⟩ := h
    have hle := hrest.le
    subst hstart
    unfold replayEvents
    by_cases hpast : e.endSequence ≤ fromSequence
    · rw [if_pos hpast, tails_cons_of_le (by omega)]
      exact ih hrest (by omega)
    · rw [if_neg hpast]
      have hstop : ¬ (0 < byteLimit ∧ e.endSequence - max fromSequence e.startSequence > remaining) := by omega
      simp only [if_neg hstop]
      by_cases hlt : max fromSequence e.startSequence < e.endSequence
      · rw [if_pos hlt, tails_cons_of_lt hlt, slice_end hend (le_max_right _ _)]
        congr 1
        split_ifs with hlimit hzero
        · -- the limit is used up: the rest is empty
          rw [tails, List.filter_eq_nil_iff.2, List.map_nil]
          intro a ha
          have := hrest.mem ha
          simp only [decide_eq_true_eq]
          omega
        all_goals exact ih hrest (by omega)
      · rw [if_neg hlt, tails_cons_of_le (not_lt.1 hlt)]
        exact ih hrest (by omega)

theorem tails_chained (h : Chained n es m) (hle : fromSequence ≤ m) :
    Chained (max fromSequence n) (tails fromSequence es) m := by
  induction es generalizing n with
  | nil =>
    rw [show n = m from h]
    exact max_eq_right hle
  | cons e es ih =>
    obtain ⟨hstart, hend, hrest⟩ := h
    subst hstart
    have htail := ih hrest
    by_cases hlt : max fromSequence e.startSequence < e.endSequence
    · rw [tails_cons_of_lt hlt]
      refine ⟨rfl, ?_, ?_⟩
      · simp only [trim, List.length_drop]
        omega
      · simpa [trim, max_eq_right (show fromSequence ≤ e.endSequence by omega)] using htail
    · rw [tails_cons_of_le (not_lt.1 hlt)]
      have hmax : max fromSequence e.startSequence = max fromSequence e.endSequence := by omega
      rwa [hmax]

theorem mem_tails (h : e ∈ tails n es) : TailOf es e := by
  obtain ⟨a, ha, rfl⟩ := List.mem_map.1 h
  obtain ⟨hmem, hlt⟩ := List.mem_filter.1 ha
  exact ⟨a, hmem, le_max_right _ _, of_decide_eq_true hlt, rfl⟩

/-- a replay is without a gap and within its limit -/
theorem replayEvents_chained (h : Chained n es m) (hlimit : 0 < byteLimit) (hremaining : 0 < remaining) :
    (∃ k, Chained (max fromSequence n) (replayEvents fromSequence byteLimit remaining es) k) ∧
      total (replayEvents fromSequence byteLimit remaining es) ≤ remaining := by
  induction es generalizing n remaining with
  | nil => exact ⟨⟨_, rfl⟩, Nat.zero_le _⟩
  | cons e es ih =>
    obtain ⟨hstart, hend, hrest⟩ := h
    subst hstart
    unfold replayEvents
    by_cases hpast : e.endSequence ≤ fromSequence
    · have hmax : max fromSequence e.startSequence = max fromSequence e.endSequence := by omega
      rw [if_pos hpast, hmax]
      exact ih hrest hremaining
    · rw [if_neg hpast]
      simp only [hlimit, true_and, if_true]
      generalize hstop : (if e.endSequence - max fromSequence e.startSequence > remaining then
        max fromSequence e.startSequence + remaining else e.endSequence) = stop
      have hbounds : stop ≤ e.endSequence ∧ stop ≤ max fromSequence e.startSequence + remaining := by
        split_ifs at hstop <;> omega
      by_cases hlt : max fromSequence e.startSequence < stop
      · have hlength : (e.slice (max fromSequence e.startSequence) stop).data.length =
            stop - max fromSequence e.startSequence := by
          simp only [slice, List.length_take, List.length_drop]
          omega
        split_ifs with hzero
        · refine ⟨⟨stop, rfl, ?_, rfl⟩, ?_⟩
          · rw [hlength]
            simp only [slice]
            omega
          · rw [total_cons, total_nil]
            omega
        · -- something is left, so the event was not cut off
          have hwhole : stop = e.endSequence := by
            split_ifs at hstop <;> omega
          subst hwhole
          obtain ⟨⟨k, hk⟩, htotal⟩ := ih hrest (Nat.pos_of_ne_zero hzero)
          rw [max_eq_right (show fromSequence ≤ e.endSequence by omega)] at hk
          refine ⟨⟨k, rfl, ?_, hk⟩, ?_⟩
          · rw [hlength]
            simp only [slice]
            omega
          · rw [total_cons]
            omega
      · rw [if_neg hlt]
        have hmax : max fromSequence e.startSequence = max fromSequence e.endSequence := by
          split_ifs at hstop <;> omega
        rw [hmax]
        exact ih hrest hremaining

namespace History

variable {h : History} {fromSequence byteLimit : ℕ} {replay : Replay}

/-- a replay is of the retained output only, and says where it ends -/
theorem replayOwned_spec (hlimit : 0 < byteLimit) (hreplay : h.replayOwned fromSequence byteLimit = .ok replay) :
    h.earliest ≤ fromSequence ∧ replay.fromSequence = fromSequence ∧ fromSequence ≤ h.latest ∧
      replay.latestSequence = h.latest ∧ replay.earliestSequence = h.earliest ∧
      replay.toSequence ≤ fromSequence + byteLimit := by
  unfold replayOwned at hreplay
  split_ifs at hreplay with hgap hbeyond
  cases hreplay
  refine ⟨not_lt.1 hgap, rfl, not_lt.1 hbeyond, rfl, rfl, ?_⟩
  obtain ⟨⟨k, hk⟩, htotal⟩ := replayEvents_chained h.chained hlimit hlimit
  rw [max_eq_left (not_lt.1 hgap)] at hk
  have := hk.total_eq
  simp only [hk.getLast]
  omega

/-- when the limit reaches the end, the replay is of everything from `fromSequence` on -/
theorem replayOwned_of_le (hlow : h.earliest ≤ fromSequence) (hhigh : fromSequence ≤ h.latest)
    (hfits : h.latest - fromSequence ≤ byteLimit) :
    h.replayOwned fromSequence byteLimit =
      .ok ⟨fromSequence, h.latest, h.earliest, h.latest, tails fromSequence h.events⟩ := by
  have htails : replayEvents fromSequence byteLimit byteLimit h.events = tails fromSequence h.events :=
    replayEvents_eq_tails h.chained (by rwa [max_eq_left hlow])
  have hchained := tails_chained h.chained hhigh
  rw [max_eq_left hlow] at hchained
  unfold replayOwned
  rw [if_neg (not_lt.2 hlow), if_neg (not_lt.2 hhigh)]
  simp only [htails, hchained.getLast]

/-- the replay of an attach: from the sequence asked for, or the newest part that fits when that would not reach the
end -/
def attachReplay (h : History) (fromSequence replayLimit : ℕ) : Except HistoryError Replay :=
  match h.replayOwned fromSequence replayLimit with
  | .error err => .error err
  | .ok replay =>
    if replay.toSequence < replay.latestSequence then
      let boundary := replay.latestSequence - replayLimit
      h.replayOwned (if boundary < replay.earliestSequence then replay.earliestSequence else boundary) replayLimit
    else .ok replay

/-- **An attach replays up to the end.** Its replay is everything retained from some sequence on, and fits its limit. -/
theorem attachReplay_spec (hlimit : 0 < byteLimit) (hreplay : h.attachReplay fromSequence byteLimit = .ok replay) :
    h.earliest ≤ replay.fromSequence ∧ replay.fromSequence ≤ h.latest ∧ h.latest - replay.fromSequence ≤ byteLimit ∧
      replay.events = tails replay.fromSequence h.events := by
  unfold attachReplay at hreplay
  cases hfirst : h.replayOwned fromSequence byteLimit with
  | error err =>
    rw [hfirst] at hreplay
    cases hreplay
  | ok first =>
    rw [hfirst] at hreplay
    obtain ⟨hlow, hfrom, hhigh, hlatest, hearliest, hto⟩ := replayOwned_spec hlimit hfirst
    simp only [hlatest, hearliest] at hreplay
    have hle := h.chained.le
    split_ifs at hreplay with hshort hboundary
    · rw [replayOwned_of_le le_rfl hle (by omega)] at hreplay
      cases hreplay
      exact ⟨le_rfl, hle, by dsimp only; omega, rfl⟩
    · rw [replayOwned_of_le (by omega) (by omega) (by omega)] at hreplay
      cases hreplay
      exact ⟨by dsimp only; omega, by dsimp only; omega, by dsimp only; omega, rfl⟩
    · cases hreplay
      rw [replayOwned_of_le hlow hhigh (by omega)] at hfirst
      cases hfirst
      exact ⟨hlow, hhigh, by dsimp only; omega, rfl⟩

end History

end Paperboat.Output
