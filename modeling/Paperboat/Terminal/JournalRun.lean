/-
Concurrent use of the input journal: any number of goroutines call Write, Query, Admit
and SetGeneration.

A Write of a goroutine is two steps: `write` is the first critical section, after which
the writer may run, and `wrote` is the return of the writer together with the second
critical section. What a goroutine does between the return of the writer and its second
critical section is seen by nobody, so the call of the writer lies between the two
steps.

Results:
- `Inv.step`: what the steps preserve: the last number of a cursor is that of the last
  call, and its decision stays uncertain while the writer runs;
- `input_exactly_once`: for a client, attachment and generation the writer is called for
  consecutive numbers, each once, one call at a time and never after an uncertain one; a
  remembered input is answered from the journal.

Witnesses:
- `input_exactly_once_twoKeys`: a key is repeated, and one follows an uncertain one.

Premises:
- SetGeneration is never called with a lower generation.
-/
import Paperboat.Core.Machine
import Paperboat.Terminal.Journal

namespace Paperboat.Terminal

open Machine InputJournal InputKey

/-- a running call of the writer; the key is normalized -/
structure Call where
  key : InputKey
  data : Bytes
deriving DecidableEq, Repr

inductive JournalEvent where
  /-- the writer is called -/
  | called (key : InputKey) (data : Bytes)
  /-- and returns -/
  | ended (key : InputKey) (data : Bytes) (n : ℤ) (err : Option WriteError)
deriving DecidableEq, Repr

structure Journaling (Hash : Type) where
  journal : InputJournal Hash
  /-- the call that a goroutine is in -/
  calls : ℕ → Option Call := fun _ => none
  log : List JournalEvent := []

inductive JournalOp where
  | write (goroutine : ℕ) (key : InputKey) (data : Bytes) (writer : Bool)
  | wrote (goroutine : ℕ) (n : ℤ) (err : Option WriteError)
  | query (key : InputKey)
  | admits (key : InputKey)
  | setGeneration (generation : ℕ)
deriving DecidableEq, Repr

section

variable {Hash : Type} [DecidableEq Hash] (sum256 : Bytes → Hash)

def Journaling.step (s : Journaling Hash) : JournalOp → Journaling Hash
  | .write t key data writer =>
    if s.calls t ≠ none then s
    else
      match s.journal.reserve sum256 key data writer with
      | .reserved j =>
        { journal := j
          calls := Function.update s.calls t (some ⟨key.normalize, data⟩)
          log := s.log ++ [.called key.normalize data] }
      | _ => s
  | .wrote t n err =>
    match s.calls t with
    | some call =>
      { journal := s.journal.record sum256 call.key call.data n err
        calls := Function.update s.calls t none
        log := s.log ++ [.ended call.key call.data n err] }
    | none => s
  | .query _ => s
  | .admits _ => s
  | .setGeneration generation =>
    if s.journal.current ≤ generation then { s with journal := s.journal.setGeneration generation } else s

/-- a new journal, nobody in a call -/
def Journaling.start (generation max : ℕ) : Journaling Hash := { journal := .new generation max }

/-- the number of a sequenced call of a cursor -/
def JournalEvent.sequence (c : InputCursor) : JournalEvent → Option ℕ
  | .called key _ => if key.cursor = c ∧ key.inputSequence ≠ 0 then some key.inputSequence else none
  | .ended .. => none

/-- the numbers for which the writer was called, in order -/
def sequences (c : InputCursor) (log : List JournalEvent) : List ℕ := log.filterMap (JournalEvent.sequence c)

end

variable (c : InputCursor)

@[simp] theorem sequences_append (log more : List JournalEvent) :
    sequences c (log ++ more) = sequences c log ++ sequences c more := List.filterMap_append

@[simp] theorem sequences_ended (key : InputKey) (data : Bytes) (n : ℤ) (err : Option WriteError) :
    sequences c [.ended key data n err] = [] := rfl

theorem sequences_called (key : InputKey) (data : Bytes) :
    sequences c [.called key data] = if key.cursor = c ∧ key.inputSequence ≠ 0 then [key.inputSequence] else [] := by
  unfold sequences JournalEvent.sequence
  split_ifs with h <;> simp [h]

/-- an event is a call with the cursor -/
theorem sequences_eq_nil {c : InputCursor} {log : List JournalEvent} :
    sequences c log = [] ↔ ∀ key data, .called key data ∈ log → key.cursor = c → key.inputSequence = 0 := by
  unfold sequences
  rw [List.filterMap_eq_nil_iff]
  constructor
  · intro h key data hmem hc
    have := h _ hmem
    unfold JournalEvent.sequence at this
    grind
  · intro h e he
    cases e with
    | called key data =>
      unfold JournalEvent.sequence
      grind
    | ended key data n err => rfl

/-! ## The invariant -/

open Journaling

section

variable {Hash : Type} {sum256 : Bytes → Hash} {s : Journaling Hash}

/-- the decision that is reserved while the writer runs -/
def Call.reserved (sum256 : Bytes → Hash) (call : Call) : Recorded Hash :=
  { status := .uncertain, inputSequence := call.key.inputSequence, hash := sum256 call.data }

variable (sum256 s) in
/-- what the journal knows of the calls so far -/
structure Journaling.Inv : Prop where
  /-- everything in the journal is of the current generation -/
  generation : ∀ key r, s.journal.decisions.lookup key = some r → key.generation = s.journal.current
  cursors : ∀ c, s.journal.lastSequence c ≠ 0 → c.generation = s.journal.current
  /-- no call is of a later one; its key is normalized -/
  past : ∀ key data, .called key data ∈ s.log → key.normalize = key ∧ key.generation ≤ s.journal.current
  /-- the numbers of a cursor are consecutive, and the last one is the journal's -/
  consecutive : ∀ c, ∃ first count, 0 < first ∧ sequences c s.log = List.range' first count ∧
    (c.generation = s.journal.current →
      s.journal.lastSequence c = if count = 0 then 0 else first + count - 1)
  /-- a running call is in the log, and in the current generation its identity is reserved -/
  running : ∀ t call, s.calls t = some call → .called call.key call.data ∈ s.log ∧
    (call.key.generation = s.journal.current →
      s.journal.decisions.lookup call.key = some (call.reserved sum256) ∧
      (call.key.inputSequence ≠ 0 → s.journal.lastSequence call.key.cursor = call.key.inputSequence))
  /-- no other call is about the same input, or about one of the same cursor -/
  alone : ∀ t t' call call', s.calls t = some call → s.calls t' = some call' →
    (call.key = call'.key ∨
      call.key.cursor = call'.key.cursor ∧ call.key.inputSequence ≠ 0 ∧ call'.key.inputSequence ≠ 0) → t = t'
  /-- a decision is that of a running call or of one that ended -/
  remembered : ∀ key r, s.journal.decisions.lookup key = some r →
    (∃ t call, s.calls t = some call ∧ call.key = key ∧ r = call.reserved sum256) ∨
    ∃ data n err, .ended key data n err ∈ s.log ∧ r = ⟨outcome key.inputSequence data n err, sum256 data⟩
  /-- a call that ended was made, and is not running -/
  ended : ∀ key data n err, .ended key data n err ∈ s.log → .called key data ∈ s.log ∧
    (key.inputSequence ≠ 0 → ∀ t call, s.calls t = some call → call.key ≠ key)
  /-- an uncertain input stays the last one of its cursor -/
  final : ∀ key data n err, .ended key data n err ∈ s.log → key.inputSequence ≠ 0 →
    (outcome key.inputSequence data n err).status = .uncertain → key.generation = s.journal.current →
    s.journal.lastSequence key.cursor = key.inputSequence ∧ s.journal.stuck key.cursor = true
  /-- and no call follows it -/
  nothingAfter : ∀ pre post key data n err, s.log = pre ++ .ended key data n err :: post → key.inputSequence ≠ 0 →
    (outcome key.inputSequence data n err).status = .uncertain → sequences key.cursor post = []

theorem Journaling.Inv.start (generation max : ℕ) : Inv sum256 (.start generation max) where
  generation := by simp [Journaling.start, new]
  cursors := by simp [Journaling.start, new, lastSequence]
  past := by simp [Journaling.start]
  consecutive c := ⟨1, 0, Nat.one_pos, rfl, fun _ => rfl⟩
  running := by simp [Journaling.start]
  alone := by simp [Journaling.start]
  remembered := by simp [Journaling.start, new]
  ended := by simp [Journaling.start]
  final := by simp [Journaling.start]
  nothingAfter := by simp [Journaling.start]

/-- the key of a sequenced input that is already normalized -/
theorem InputKey.eq_cursor_key {key : InputKey} (hnormal : key.normalize = key) (hseq : key.inputSequence ≠ 0) :
    key = key.cursor.key key.inputSequence := by
  rw [← normalize_eq hseq, hnormal]

/-- while a call of a cursor runs in the current generation, the cursor is stuck -/
theorem Journaling.Inv.stuck_of_running (h : Inv sum256 s) {t : ℕ} {call : Call} (hcall : s.calls t = some call)
    (hseq : call.key.inputSequence ≠ 0) (hgen : call.key.generation = s.journal.current) :
    s.journal.lastSequence call.key.cursor ≠ 0 ∧ s.journal.stuck call.key.cursor = true := by
  obtain ⟨hcalled, hcurrent⟩ := h.running t call hcall
  obtain ⟨hlookup, hlast⟩ := hcurrent hgen
  have hlast := hlast hseq
  refine ⟨hlast ▸ hseq, ?_⟩
  unfold stuck
  rw [hlast, ← eq_cursor_key (h.past _ _ hcalled).1 hseq, hlookup]
  simp [Call.reserved]

/-! ## The first critical section -/

section write

variable {k : InputKey}

section

variable (hgen : k.generation = s.journal.current) (hseq : k.inputSequence ≠ 0)
  (herr : s.journal.sequenceError k = none)
include hgen hseq herr

/-- an input that is let through finds its cursor unused or settled -/
theorem not_stuck {key : InputKey} (hcursor : key.cursor = k.cursor) (hused : key.generation = s.journal.current →
    s.journal.lastSequence key.cursor ≠ 0 ∧ s.journal.stuck key.cursor = true) : False := by
  obtain ⟨hlast, hstuck⟩ := hused (by rw [← hgen, ← cursor_generation, hcursor, cursor_generation])
  rw [hcursor] at hlast hstuck
  rcases (sequenceError_none hseq).1 herr with hzero | ⟨hnot, -⟩
  · exact hlast hzero
  · exact absurd hstuck (by simp [hnot])

variable (h : Inv sum256 s)
include h

/-- an input that is let through finds its cursor idle -/
theorem Journaling.Inv.idle {t : ℕ} {call : Call} (hcall : s.calls t = some call)
    (hcursor : call.key.cursor = k.cursor) : call.key.inputSequence = 0 := by
  by_contra hcallseq
  exact not_stuck hgen hseq herr hcursor (h.stuck_of_running hcall hcallseq)

/-- an input that is let through continues the numbers of its cursor -/
theorem Journaling.Inv.continues :
    ∃ first count, 0 < first ∧ sequences k.cursor s.log = List.range' first count ∧ k.inputSequence = first + count ∧
      (0 < count → k.inputSequence = s.journal.lastSequence k.cursor + 1) := by
  obtain ⟨first, count, hfirst, hnumbers, hlast⟩ := h.consecutive k.cursor
  have hlast := hlast hgen
  by_cases hcount : count = 0
  · -- nothing was written for the cursor, so the first number is free
    subst hcount
    exact ⟨k.inputSequence, 0, Nat.pos_of_ne_zero hseq, hnumbers, rfl, fun hpos => absurd hpos (Nat.lt_irrefl 0)⟩
  · rw [if_neg hcount] at hlast
    rcases (sequenceError_none hseq).1 herr with hzero | ⟨-, hnext⟩
    · omega
    · exact ⟨first, count, hfirst, hnumbers, by omega, fun _ => hnext⟩

/-- so no call was made for it before -/
theorem Journaling.Inv.fresh (data : Bytes) : .called k data ∉ s.log := by
  intro hmem
  obtain ⟨first, count, -, hnumbers, hk, -⟩ := h.continues hgen hseq herr
  have : k.inputSequence ∈ sequences k.cursor s.log :=
    List.mem_filterMap.2 ⟨_, hmem, by simp [JournalEvent.sequence, hseq]⟩
  rw [hnumbers, List.mem_range'_1] at this
  omega

/-- nor did one of its cursor end uncertain -/
theorem Journaling.Inv.settled {key : InputKey} {data : Bytes} {n : ℤ} {err : Option WriteError}
    (hmem : .ended key data n err ∈ s.log) (hkey : key.inputSequence ≠ 0)
    (huncertain : (outcome key.inputSequence data n err).status = .uncertain) : key.cursor ≠ k.cursor := by
  intro hcursor
  refine not_stuck hgen hseq herr hcursor fun hkeygen => ?_
  obtain ⟨hlast, hstuck⟩ := h.final key data n err hmem hkey huncertain hkeygen
  exact ⟨hlast ▸ hkey, hstuck⟩

end

/-- a cursor that is stuck stays stuck when another identity is taken -/
theorem take_stuck {j : InputJournal Hash} {c : InputCursor} {hash : Hash} (hnone : j.decisions.lookup k = none)
    (hother : k.inputSequence ≠ 0 → c ≠ k.cursor) (hstuck : j.stuck c = true) : (j.take k hash).stuck c = true := by
  have hlast : (j.take k hash).lastSequence c = j.lastSequence c := by
    rw [take_lastSequence, if_neg]
    exact fun h => hother h.1 h.2
  unfold stuck at hstuck ⊢
  rw [hlast, take_lookup, if_neg, if_neg]
  · exact hstuck
  · rintro rfl
    rw [hnone] at hstuck
    cases hstuck
  · rintro ⟨hlong, heq⟩
    have hcursor := congrArg cursor heq
    rw [InputCursor.cursor_key, cursor_with] at hcursor
    exact hother (Nat.ne_of_gt (Nat.zero_lt_of_lt hlong)) hcursor

variable {t : ℕ} (data : Bytes)

/-- **The first critical section.** -/
theorem Journaling.Inv.write (h : Inv sum256 s) (hfree : s.calls t = none) (hnormal : k.normalize = k)
    (hnone : s.journal.decisions.lookup k = none) (hgen : k.generation = s.journal.current)
    (herr : s.journal.sequenceError k = none) :
    Inv sum256 { journal := s.journal.take k (sum256 data), calls := Function.update s.calls t (some ⟨k, data⟩),
                 log := s.log ++ [.called k data] } := by
  -- the calls after the step: the new one, or one of another goroutine
  have hcalls : ∀ t' call, Function.update s.calls t (some ⟨k, data⟩) t' = some call →
      t' = t ∧ call = ⟨k, data⟩ ∨ t' ≠ t ∧ s.calls t' = some call := by
    intro t' call hcall
    rw [Function.update_apply] at hcall
    split_ifs at hcall with ht
    · exact .inl ⟨ht, (Option.some.inj hcall).symm⟩
    · exact .inr ⟨ht, hcall⟩
  have hkept : ∀ t' call, s.calls t' = some call → Function.update s.calls t (some ⟨k, data⟩) t' = some call := by
    intro t' call hcall
    rw [Function.update_of_ne, hcall]
    rintro rfl
    rw [hfree] at hcall
    cases hcall
  have hdistinct : ∀ t' call, s.calls t' = some call → call.key ≠ k := by
    rintro t' call hcall rfl
    rw [((h.running t' call hcall).2 hgen).1] at hnone
    cases hnone
  constructor
  case generation =>
    intro key r hr
    rw [take_lookup] at hr
    rw [take_current]
    split_ifs at hr with hold hkey
    · rw [hkey, hgen]
    · exact h.generation key r hr
  case cursors =>
    intro c hc
    rw [take_lastSequence] at hc
    rw [take_current]
    split_ifs at hc with hcursor
    · rw [hcursor.2, cursor_generation, hgen]
    · exact h.cursors c hc
  case past =>
    intro key data' hmem
    rw [take_current]
    rcases mem_snoc.1 hmem with hmem | hmem
    · exact h.past key data' hmem
    · cases hmem
      exact ⟨hnormal, hgen.le⟩
  case consecutive =>
    intro c
    rw [sequences_append, sequences_called, take_current, take_lastSequence]
    by_cases hk : k.cursor = c ∧ k.inputSequence ≠ 0
    · obtain ⟨rfl, hseq⟩ := hk
      obtain ⟨first, count, hfirst, hnumbers, hnext, -⟩ := h.continues hgen hseq herr
      refine ⟨first, count + 1, hfirst, ?_, fun _ => ?_⟩
      · rw [if_pos ⟨rfl, hseq⟩, hnumbers, List.range'_1_concat, hnext]
      · rw [if_pos ⟨hseq, rfl⟩, if_neg (Nat.succ_ne_zero count)]
        omega
    · rw [if_neg hk, List.append_nil, if_neg fun hk' => hk ⟨hk'.2.symm, hk'.1⟩]
      exact h.consecutive c
  case running =>
    intro t' call hcall
    rw [take_current, take_lookup, take_lastSequence]
    rcases hcalls t' call hcall with ⟨-, rfl⟩ | ⟨-, hcall⟩
    · refine ⟨by simp, fun _ => ⟨?_, fun hseq => if_pos ⟨hseq, rfl⟩⟩⟩
      rw [if_neg, if_pos rfl]
      · rfl
      · rintro ⟨hlong, heq⟩
        have := congrArg inputSequence heq
        dsimp only at this hlong
        unfold inputDecisionWindow at this hlong
        omega
    · obtain ⟨hmem, hcurrent⟩ := h.running t' call hcall
      refine ⟨List.mem_append_left _ hmem, fun hcallgen => ?_⟩
      obtain ⟨hlookup, hlast⟩ := hcurrent hcallgen
      constructor
      · rw [if_neg, if_neg (hdistinct t' call hcall), hlookup]
        -- the input that leaves the window is not running
        rintro ⟨hlong, heq⟩
        have hcursor : call.key.cursor = k.cursor := by rw [heq, cursor_with]
        have hzero := h.idle hgen (Nat.ne_of_gt (Nat.zero_lt_of_lt hlong)) herr hcall hcursor
        have := congrArg inputSequence heq
        dsimp only at this
        omega
      · intro hcallseq
        rw [if_neg, hlast hcallseq]
        rintro ⟨hseq, hcursor⟩
        exact hcallseq (h.idle hgen hseq herr hcall hcursor)
  case alone =>
    intro t₁ t₂ call₁ call₂ h₁ h₂ hsame
    rcases hcalls t₁ call₁ h₁ with ⟨ht₁, rfl⟩ | ⟨-, hold₁⟩ <;> rcases hcalls t₂ call₂ h₂ with ⟨ht₂, rfl⟩ | ⟨-, hold₂⟩
    · rw [ht₁, ht₂]
    · rcases hsame with hkey | ⟨hcursor, hseq, hcallseq⟩
      · exact absurd hkey.symm (hdistinct t₂ call₂ hold₂)
      · exact absurd (h.idle hgen hseq herr hold₂ hcursor.symm) hcallseq
    · rcases hsame with hkey | ⟨hcursor, hcallseq, hseq⟩
      · exact absurd hkey (hdistinct t₁ call₁ hold₁)
      · exact absurd (h.idle hgen hseq herr hold₁ hcursor) hcallseq
    · exact h.alone t₁ t₂ call₁ call₂ hold₁ hold₂ hsame
  case remembered =>
    intro key r hr
    rw [take_lookup] at hr
    split_ifs at hr with hold hkey
    · refine .inl ⟨t, ⟨k, data⟩, Function.update_self .., hkey.symm, ?_⟩
      exact (Option.some.inj hr).symm
    · rcases h.remembered key r hr with ⟨t', call, hcall, hrest⟩ | ⟨data', n, err, hmem, hrest⟩
      · exact .inl ⟨t', call, hkept t' call hcall, hrest⟩
      · exact .inr ⟨data', n, err, List.mem_append_left _ hmem, hrest⟩
  case ended =>
    intro key data' n err hmem
    have hmem : .ended key data' n err ∈ s.log := by simpa using hmem
    obtain ⟨hcalled, hover⟩ := h.ended key data' n err hmem
    refine ⟨List.mem_append_left _ hcalled, fun hseq t' call hcall => ?_⟩
    rcases hcalls t' call hcall with ⟨-, rfl⟩ | ⟨-, hcall⟩
    · rintro rfl
      exact h.fresh hgen hseq herr data' hcalled
    · exact hover hseq t' call hcall
  case final =>
    intro key data' n err hmem hseq huncertain hkeygen
    rw [take_current] at hkeygen
    have hmem : .ended key data' n err ∈ s.log := by simpa using hmem
    obtain ⟨hlast, hstuck⟩ := h.final key data' n err hmem hseq huncertain hkeygen
    have hother : k.inputSequence ≠ 0 → key.cursor ≠ k.cursor :=
      fun hkseq => h.settled hgen hkseq herr hmem hseq huncertain
    refine ⟨?_, take_stuck hnone hother hstuck⟩
    rw [take_lastSequence, if_neg, hlast]
    exact fun hk => hother hk.1 hk.2
  case nothingAfter =>
    intro pre post key data' n err hlog hseq huncertain
    rcases snoc_split hlog with ⟨rfl, -⟩ | ⟨rest, rfl, hbefore⟩
    · rfl
    · rw [sequences_append, h.nothingAfter pre rest key data' n err hbefore hseq huncertain, sequences_called, if_neg]
      · rfl
      rintro ⟨hcursor, hkseq⟩
      have hmem : .ended key data' n err ∈ s.log := by simp [hbefore]
      exact h.settled hgen hkseq herr hmem hseq huncertain hcursor.symm

end write

/-! ## The second critical section -/

section wrote

variable [DecidableEq Hash] {t : ℕ} {call : Call} {n : ℤ} {err : Option WriteError}

/-- the outcome takes the place of the reservation, unless the generation has moved on -/
theorem Journaling.Inv.record_lookup (h : Inv sum256 s) (hcall : s.calls t = some call) (key : InputKey) :
    (s.journal.record sum256 call.key call.data n err).decisions.lookup key =
      if key = call.key ∧ key.generation = s.journal.current then
        some ⟨outcome key.inputSequence call.data n err, sum256 call.data⟩
      else s.journal.decisions.lookup key := by
  unfold record
  by_cases hgen : call.key.generation = s.journal.current
  · rw [((h.running t call hcall).2 hgen).1]
    simp only [Call.reserved, if_true, Index.lookup_insert_if]
    split_ifs <;> simp_all
  · cases hlookup : s.journal.decisions.lookup call.key with
    | some r => exact absurd (h.generation _ r hlookup) hgen
    | none =>
      rw [if_neg]
      rintro ⟨rfl, hkeygen⟩
      exact hgen hkeygen

/-- **The second critical section.** -/
theorem Journaling.Inv.wrote (h : Inv sum256 s) (hcall : s.calls t = some call) (n : ℤ) (err : Option WriteError) :
    Inv sum256 { journal := s.journal.record sum256 call.key call.data n err, calls := Function.update s.calls t none,
                 log := s.log ++ [.ended call.key call.data n err] } := by
  obtain ⟨hcalled, hcurrent⟩ := h.running t call hcall
  have hcalls : ∀ t' call', Function.update s.calls t none t' = some call' → t' ≠ t ∧ s.calls t' = some call' := by
    intro t' call' hcall'
    rw [Function.update_apply] at hcall'
    split_ifs at hcall' with ht
    exact ⟨ht, hcall'⟩
  constructor
  case generation =>
    intro key r hr
    rw [h.record_lookup hcall] at hr
    rw [record_current]
    split_ifs at hr with hkey
    · exact hkey.2
    · exact h.generation key r hr
  case cursors =>
    intro c hc
    rw [record_lastSequence] at hc
    rw [record_current]
    exact h.cursors c hc
  case past =>
    intro key data hmem
    have hmem : .called key data ∈ s.log := by simpa using hmem
    rw [record_current]
    exact h.past key data hmem
  case consecutive =>
    intro c
    rw [sequences_append, sequences_ended, List.append_nil, record_current, record_lastSequence]
    exact h.consecutive c
  case running =>
    intro t' call' hcall'
    obtain ⟨ht, hcall'⟩ := hcalls t' call' hcall'
    obtain ⟨hmem, hcurrent'⟩ := h.running t' call' hcall'
    refine ⟨List.mem_append_left _ hmem, fun hgen => ?_⟩
    rw [record_current] at hgen
    rw [h.record_lookup hcall, record_lastSequence, if_neg]
    · exact hcurrent' hgen
    · rintro ⟨hkey, -⟩
      exact ht (h.alone t' t call' call hcall' hcall (.inl hkey))
  case alone =>
    intro t₁ t₂ call₁ call₂ h₁ h₂ hsame
    exact h.alone t₁ t₂ call₁ call₂ (hcalls t₁ call₁ h₁).2 (hcalls t₂ call₂ h₂).2 hsame
  case remembered =>
    intro key r hr
    dsimp only at hr ⊢
    rw [h.record_lookup hcall] at hr
    split_ifs at hr with hkey
    · refine .inr ⟨call.data, n, err, ?_, (Option.some.inj hr).symm⟩
      simp [hkey.1]
    · rcases h.remembered key r hr with ⟨t', call', hcall', rfl, hrest⟩ | ⟨data, n', err', hmem, hrest⟩
      · refine .inl ⟨t', call', ?_, rfl, hrest⟩
        rw [Function.update_of_ne, hcall']
        rintro rfl
        rw [hcall] at hcall'
        cases hcall'
        exact hkey ⟨rfl, h.generation _ r hr⟩
      · exact .inr ⟨data, n', err', List.mem_append_left _ hmem, hrest⟩
  case ended =>
    intro key data n' err' hmem
    rcases mem_snoc.1 hmem with hmem | hmem
    · obtain ⟨hmem, hover⟩ := h.ended key data n' err' hmem
      exact ⟨List.mem_append_left _ hmem, fun hseq t' call' hcall' => hover hseq t' call' (hcalls t' call' hcall').2⟩
    · cases hmem
      refine ⟨List.mem_append_left _ hcalled, fun _ t' call' hcall' hkey => ?_⟩
      obtain ⟨ht, hcall'⟩ := hcalls t' call' hcall'
      exact ht (h.alone t' t call' call hcall' hcall (.inl hkey))
  case final =>
    intro key data n' err' hmem hseq huncertain hgen
    rw [record_current] at hgen
    unfold stuck
    rw [record_lastSequence, h.record_lookup hcall]
    rcases mem_snoc.1 hmem with hmem | hmem
    · obtain ⟨hlast, hstuck⟩ := h.final key data n' err' hmem hseq huncertain hgen
      refine ⟨hlast, ?_⟩
      rw [if_neg]
      · exact hstuck
      -- the call that ends is not the one that ended before
      rintro ⟨hkey, -⟩
      obtain ⟨hcalledKey, hover⟩ := h.ended key data n' err' hmem
      rw [hlast, ← eq_cursor_key (h.past _ _ hcalledKey).1 hseq] at hkey
      exact hover hseq t call hcall hkey.symm
    · cases hmem
      have hlast := (hcurrent hgen).2 hseq
      refine ⟨hlast, ?_⟩
      rw [hlast, ← eq_cursor_key (h.past _ _ hcalled).1 hseq, if_pos ⟨rfl, hgen⟩]
      simp [huncertain]
  case nothingAfter =>
    intro pre post key data n' err' hlog hseq huncertain
    rcases snoc_split hlog with ⟨rfl, -⟩ | ⟨rest, rfl, hbefore⟩
    · rfl
    · rw [sequences_append, h.nothingAfter pre rest key data n' err' hbefore hseq huncertain]
      rfl

end wrote

/-! ## Whole runs -/

theorem setGeneration_lastSequence (j : InputJournal Hash) (generation : ℕ) (c : InputCursor) :
    (j.setGeneration generation).lastSequence c = if c.generation = generation then j.lastSequence c else 0 := by
  unfold setGeneration lastSequence
  rw [Table.lookup_keep]
  split_ifs <;> simp_all

theorem setGeneration_lookup (j : InputJournal Hash) (generation : ℕ) (key : InputKey) :
    (j.setGeneration generation).decisions.lookup key =
      if key.generation = generation then j.decisions.lookup key else none := by
  unfold setGeneration
  rw [Table.lookup_keep]
  split_ifs <;> simp_all

/-- the new generation is the old one, or nothing was ever written in it -/
theorem Journaling.Inv.setGeneration (h : Inv sum256 s) {generation : ℕ} (hle : s.journal.current ≤ generation) :
    Inv sum256 { s with journal := s.journal.setGeneration generation } := by
  have hsame : ∀ {key : InputKey} {data : Bytes}, .called key data ∈ s.log → key.generation = generation →
      key.generation = s.journal.current :=
    fun hmem hgen => le_antisymm (h.past _ _ hmem).2 (hgen ▸ hle)
  constructor
  case generation =>
    intro key r hr
    rw [setGeneration_lookup] at hr
    split_ifs at hr with hgen
    exact hgen
  case cursors =>
    intro c hc
    rw [setGeneration_lastSequence] at hc
    by_contra hgen
    exact hc (if_neg hgen)
  case past => exact fun key data hmem => ⟨(h.past key data hmem).1, (h.past key data hmem).2.trans hle⟩
  case consecutive =>
    intro c
    obtain ⟨first, count, hfirst, hnumbers, hlast⟩ := h.consecutive c
    refine ⟨first, count, hfirst, hnumbers, fun hgen => ?_⟩
    replace hgen : c.generation = generation := hgen
    rw [setGeneration_lastSequence, if_pos hgen]
    by_cases hcurrent : c.generation = s.journal.current
    · exact hlast hcurrent
    · have hzero : s.journal.lastSequence c = 0 := by
        by_contra hne
        exact hcurrent (h.cursors c hne)
      have hnone : sequences c s.log = [] := by
        rw [sequences_eq_nil]
        rintro key data hmem rfl
        exact absurd (hsame hmem hgen) hcurrent
      rw [hnumbers, List.range'_eq_nil_iff] at hnone
      rw [hzero, if_pos hnone]
  case running =>
    intro t call hcall
    obtain ⟨hcalled, hcurrent⟩ := h.running t call hcall
    refine ⟨hcalled, fun hgen => ?_⟩
    replace hgen : call.key.generation = generation := hgen
    rw [setGeneration_lookup, if_pos hgen, setGeneration_lastSequence, cursor_generation, if_pos hgen]
    exact hcurrent (hsame hcalled hgen)
  case alone => exact h.alone
  case remembered =>
    intro key r hr
    rw [setGeneration_lookup] at hr
    split_ifs at hr with hgen
    exact h.remembered key r hr
  case ended => exact h.ended
  case final =>
    intro key data n err hmem hseq huncertain hgen
    replace hgen : key.generation = generation := hgen
    unfold stuck
    rw [setGeneration_lastSequence, cursor_generation, if_pos hgen, setGeneration_lookup,
      InputCursor.key_generation, cursor_generation, if_pos hgen]
    exact h.final key data n err hmem hseq huncertain (hsame (h.ended key data n err hmem).1 hgen)
  case nothingAfter => exact h.nothingAfter

variable [DecidableEq Hash]

theorem Journaling.Inv.step (h : Inv sum256 s) (op : JournalOp) : Inv sum256 (s.step sum256 op) := by
  cases op with
  | write t key data writer =>
    unfold Journaling.step
    dsimp only
    split_ifs with hbusy
    · exact h
    · split
      · rename_i j hj
        obtain ⟨-, hnone, -, hgen, herr, rfl⟩ := reserve_reserved.1 hj
        refine h.write data (not_not.1 hbusy) ?_ hnone (by simpa using hgen) herr
        by_cases hseq : key.inputSequence = 0 <;> simp [InputKey.normalize, hseq]
      · exact h
  | wrote t n err =>
    unfold Journaling.step
    dsimp only
    split
    · rename_i call hcall
      exact h.wrote hcall n err
    · exact h
  | query | admits => exact h
  | setGeneration generation =>
    unfold Journaling.step
    dsimp only
    split_ifs with hle
    · exact h.setGeneration hle
    · exact h

theorem Journaling.Inv.run (generation max : ℕ) (ops : List JournalOp) :
    Inv sum256 (Machine.run (Journaling.step sum256) (.start generation max) ops) :=
  run_inv (I := fun _ s => Inv sum256 s) _ _ (.start generation max) (fun _ op h => h.step op) ops

/-- a Write that reserves nothing changes nothing -/
theorem step_write_of_not_reserved {t : ℕ} {key : InputKey} {data : Bytes} {writer : Bool}
    (h : ∀ j, s.journal.reserve sum256 key data writer ≠ .reserved j) :
      s.step sum256 (.write t key data writer) = s := by
  unfold step
  dsimp only
  split_ifs
  · rfl
  · split
    · rename_i j hj
      exact absurd hj (h j)
    · rfl

/-- the one call whose decision is remembered: it still runs, or what it returned was recorded -/
def Journaling.Decided (s : Journaling Hash) (key : InputKey) (data : Bytes) (decision : InputDecision) : Prop :=
  .called key data ∈ s.log ∧
    ((∃ t, s.calls t = some ⟨key, data⟩) ∧ decision = { status := .uncertain, inputSequence := key.inputSequence } ∨
      ∃ n err, .ended key data n err ∈ s.log ∧ decision = outcome key.inputSequence data n err)

omit [DecidableEq Hash] in
theorem Journaling.Inv.decided (h : Inv sum256 s) {key : InputKey} {r : Recorded Hash}
    (hr : s.journal.decisions.lookup key = some r) :
    ∃ data, s.Decided key data r.toInputDecision ∧ r.hash = sum256 data := by
  rcases h.remembered key r hr with ⟨t, call, hcall, rfl, rfl⟩ | ⟨data, n, err, hmem, rfl⟩
  · exact ⟨call.data, ⟨(h.running t call hcall).1, .inl ⟨⟨t, hcall⟩, rfl⟩⟩, rfl⟩
  · exact ⟨data, ⟨(h.ended key data n err hmem).1, .inr ⟨n, err, hmem, rfl⟩⟩, rfl⟩

variable (sum256) in
/-- the state after the operations on a new journal -/
def Journaling.after (generation max : ℕ) (ops : List JournalOp) : Journaling Hash :=
  Machine.run (step sum256) (.start generation max) ops

/-- **Exactly once.** In every interleaving, for each client, attachment and generation: the numbers for which the
writer was called are consecutive, each called once; no two of the calls run at a time; after one that ended
uncertain there is none; and a remembered input is answered without a write, by the decision of its one call for the
same bytes and by a conflict for others. -/
theorem input_exactly_once (generation max : ℕ) (ops : List JournalOp) :
    (∀ c, ∃ first count, sequences c (Journaling.after sum256 generation max ops).log = List.range' first count) ∧
    (∀ t t' call call', (Journaling.after sum256 generation max ops).calls t = some call →
      (Journaling.after sum256 generation max ops).calls t' = some call' → call.key.cursor = call'.key.cursor →
      call.key.inputSequence ≠ 0 → call'.key.inputSequence ≠ 0 → t = t') ∧
    (∀ pre post key data n err, (Journaling.after sum256 generation max ops).log =
      pre ++ .ended key data n err :: post →
      key.inputSequence ≠ 0 → (outcome key.inputSequence data n err).status = .uncertain →
      ∀ key' data', .called key' data' ∈ post → key'.cursor = key.cursor → key'.inputSequence = 0) ∧
    ∀ key r, key.valid = true → key.inputSequence ≠ 0 →
      (Journaling.after sum256 generation max ops).journal.decisions.lookup key.normalize = some r →
      (∀ t data, (Journaling.after sum256 generation max ops).step sum256 (.write t key data true) =
        Journaling.after sum256 generation max ops) ∧
      ∃ data, (Journaling.after sum256 generation max ops).Decided key.normalize data r.toInputDecision ∧
        (Function.Injective sum256 → ∀ data',
          (Journaling.after sum256 generation max ops).journal.reserve sum256 key data' true =
          if data' = data then .repeated r.toInputDecision else .refused .inputConflict) := by
  have h : Journaling.Inv sum256 (Journaling.after sum256 generation max ops) := .run generation max ops
  refine ⟨fun c => ?_, fun t t' call call' ht ht' hc h0 h0' => h.alone t t' call call' ht ht' (.inr ⟨hc, h0, h0'⟩),
    ?_, ?_⟩
  · obtain ⟨first, count, -, hnumbers, -⟩ := h.consecutive c
    exact ⟨first, count, hnumbers⟩
  · intro pre post key data n err hlog hseq huncertain
    exact sequences_eq_nil.1 (h.nothingAfter pre post key data n err hlog hseq huncertain)
  · intro key r hvalid hseq hr
    constructor
    · intro t data
      refine step_write_of_not_reserved fun j => ?_
      rw [reserve_remembered hvalid hseq hr]
      split_ifs <;> simp
    · obtain ⟨data, hdecided, hhash⟩ := h.decided hr
      refine ⟨data, hdecided, fun hinj data' => ?_⟩
      rw [reserve_remembered hvalid hseq hr, hhash]
      simp only [hinj.eq_iff, eq_comm]

end

/-- a key of one client -/
def typed (sequence : ℕ) : InputKey := ⟨"client", "window", 1, sequence, ""⟩

/-- two keys, the first one sent twice, the second partly written -/
def twoKeys : List JournalOp :=
  [.write 0 (typed 1) [97] true, .wrote 0 1 none, .write 1 (typed 2) [98, 99] true, .write 2 (typed 1) [97] true,
    .wrote 1 1 none, .write 0 (typed 3) [100] true]

/-- the repeated key is not written, and neither is the one after the uncertain one -/
theorem input_exactly_once_twoKeys :
    sequences (typed 1).cursor (after id 1 8 twoKeys).log = [1, 2] ∧
    (∃ r, (after id 1 8 twoKeys).journal.decisions.lookup (typed 1).normalize = some r ∧
      ∃ data, ∀ data', (after id 1 8 twoKeys).journal.reserve id (typed 1) data' true =
        if data' = data then .repeated r.toInputDecision else .refused .inputConflict) := by
  have h := @input_exactly_once Bytes id _ 1 8 twoKeys
  refine ⟨by decide +kernel, ⟨⟨.accepted, 1, 1, ""⟩, [97]⟩, by decide +kernel, ?_⟩
  obtain ⟨data, -, hanswer⟩ := (h.2.2.2 (typed 1) ⟨⟨.accepted, 1, 1, ""⟩, [97]⟩ (by decide)
    (by decide) (by decide +kernel)).2
  exact ⟨data, hanswer Function.injective_id⟩

end Paperboat.Terminal
