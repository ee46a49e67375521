/-
Interrupts and queued input of several attachments of one session generation.

An Interrupt call has two moments that others see: Process.Interrupt runs `accepted`,
which stores the key as the session's pending interrupt, and later the call returns
whether the process handled it. Both are steps here, in any order with the WriteContext
calls of all attachments. WriteContext reads the pending interrupt once and clears it
only if it is still the one it read, so an interrupt that is stored meanwhile comes
after it.

Results:
- `Guarded`: what keeps a key from the terminal: the pending interrupt, or the journal
  once it has decided the number;
- `keeps`: a step after which no accepted interrupt has lost its guard;
- `interrupt_discards`: as long as every step keeps the guards no input up to an
  accepted interrupt reaches the terminal, and after a step that does not keep them the
  interrupt key itself reaches it.

Witnesses:
- `interrupt_discards_one`: one window interrupts;
- `interrupt_delivered_twice`: the interrupt of one attachment removes the guard of
  another one.
-/
import Paperboat.Core.Fold
import Paperboat.Core.Machine
import Paperboat.Terminal.Input

namespace Paperboat.Terminal

open Machine Session

structure Interrupts (Hash : Type) where
  session : Session Hash
  /-- Interrupt calls whose key is stored and that have not returned -/
  calls : List InputKey := []
  /-- the keys of the calls that returned true -/
  handled : List InputKey := []

inductive InterruptOp where
  /-- Interrupt found the key to be an interrupt and stored it -/
  | accepted (key : InputKey)
  /-- Interrupt returns -/
  | returned (key : InputKey) (handled : Bool)
  | writeContext (key : InputKey) (data : Bytes) (w : Weather)
  | attach (attachmentID : String)
  | detach (attachmentID : String)
  /-- the process is gone -/
  | exited
deriving DecidableEq, Repr

/-- the operation is not the acceptance of an interrupt -/
def InterruptOp.quiet : InterruptOp → Bool
  | .accepted _ => false
  | _ => true

section

variable {Hash : Type} [DecidableEq Hash] (sum256 : Bytes → Hash)

def Interrupts.step (s : Interrupts Hash) : InterruptOp → Interrupts Hash
  | .accepted key =>
    if key.inputSequence = 0 ∨ s.session.live ≠ some key.generation then s
    else { s with session := { s.session with interrupt := some key }, calls := key :: s.calls }
  | .returned key handled =>
    if key ∉ s.calls then s
    else { s with calls := s.calls.erase key, handled := if handled then key :: s.handled else s.handled }
  | .writeContext key data w => { s with session := (s.session.writeContext sum256 key data w).1 }
  | .attach id => { s with session := { s.session with attached := id :: s.session.attached } }
  | .detach id => { s with session := { s.session with attached := s.session.attached.filter (· ≠ id) } }
  | .exited => { s with session := { s.session with live := none } }

/-- the interrupts that are handled or may still be -/
def Interrupts.owed (s : Interrupts Hash) : List InputKey := s.calls ++ s.handled

/-- the journal has not decided the number yet -/
def Session.undecided (s : Session Hash) (key : InputKey) : Bool := s.inputs.lastSequence key.cursor < key.inputSequence

/-- an interrupt of `key` stands in for that of `k` -/
def covers (key k : InputKey) : Bool := key.cursor = k.cursor ∧ k.inputSequence ≤ key.inputSequence

/-- a WriteContext of `key` clears the pending interrupt -/
def Session.clears (s : Session Hash) (key : InputKey) : Bool :=
  match s.interrupt with
  | none => false
  | some p => s.live = some key.generation ∧ key.inputSequence ≠ 0 ∧ covers key p

/-- the step keeps the guards: an interrupt is accepted only in place of the undecided ones it covers, and an input that
clears the pending interrupt is decided by the journal -/
def Interrupts.keeps (s : Interrupts Hash) : InterruptOp → Bool
  | .accepted key =>
    key.inputSequence = 0 ∨ s.session.live ≠ some key.generation ∨
      ∀ k ∈ s.owed, s.session.undecided k = true → covers key k = true
  | .writeContext key data w =>
    s.session.clears key = false ∨ s.session.decides sum256 key data w = true ∨
      ∀ k ∈ s.owed, k.cursor = key.cursor → s.session.undecided k = false
  | _ => true

/-- the step brings input up to a handled interrupt to the terminal -/
def Interrupts.violates (s : Interrupts Hash) : InterruptOp → Bool
  | .writeContext key data w =>
    key.inputSequence ≠ 0 ∧ (∃ k ∈ s.handled, covers k key = true) ∧
      (s.session.writeContext sum256 key data w).1.pty ≠ s.session.pty
  | _ => false

end

/-! ## The guard -/

section

variable {Hash : Type} {s : Session Hash} {key k : InputKey}

theorem covers_iff : covers key k = true ↔ key.cursor = k.cursor ∧ k.inputSequence ≤ key.inputSequence := by
  simp [covers]

theorem undecided_iff : s.undecided k = true ↔ s.inputs.lastSequence k.cursor < k.inputSequence := by
  simp [undecided]

/-- the pending interrupt or the journal keeps `k` and what is queued before it from the terminal -/
def Session.Guarded (s : Session Hash) (k : InputKey) : Prop :=
  (∃ p, s.interrupt = some p ∧ covers p k = true) ∨ s.undecided k = false

theorem clears_iff : s.clears key = true ↔
    ∃ p, s.interrupt = some p ∧ s.live = some key.generation ∧ key.inputSequence ≠ 0 ∧ covers key p = true := by
  unfold clears
  cases s.interrupt <;> simp

/-- the pending interrupt after a WriteContext of a live generation -/
theorem sink_interrupt (hlive : s.live = some key.generation) :
    (s.sink key).2 = if s.clears key then none else s.interrupt := by
  unfold sink clears covers
  cases s.interrupt with
  | none => rfl
  | some p =>
    dsimp only
    by_cases hsame : p.cursor = key.cursor ∧ key.inputSequence ≠ 0
    · split_ifs <;> grind
    · split_ifs <;> simp_all

/-- with a pending interrupt that covers it, input goes nowhere near the terminal -/
theorem sink_ne_pty {p : InputKey} (hp : s.interrupt = some p) (hseq : key.inputSequence ≠ 0)
    (hcovers : covers p key = true) : (s.sink key).1 ≠ .pty := by
  obtain ⟨hcursor, hle⟩ := covers_iff.1 hcovers
  unfold sink
  rw [hp]
  dsimp only
  rw [if_pos ⟨hcursor, hseq⟩]
  split_ifs
  · simp
  · simp
  · omega

/-- and without one it goes to the terminal -/
theorem sink_eq_pty (hp : ∀ p, s.interrupt = some p → covers p key = false) : (s.sink key).1 = .pty := by
  unfold sink
  cases hi : s.interrupt with
  | none => rfl
  | some p =>
    have hnot := hp p hi
    rw [← Bool.not_eq_true, covers_iff] at hnot
    dsimp only
    split_ifs with hsame hlt heq
    · exact absurd ⟨hsame.1, hlt.le⟩ hnot
    · exact absurd ⟨hsame.1, heq.le⟩ hnot
    · rfl
    · rfl

/-! ## What a WriteContext does to it -/

variable [DecidableEq Hash] {sum256 : Bytes → Hash} {data : Bytes} {w : Weather}

/-- the pending interrupt is cleared whether or not the input is decided -/
theorem writeContext_interrupt :
    (s.writeContext sum256 key data w).1.interrupt = if s.clears key then none else s.interrupt := by
  cases hdecides : s.decides sum256 key data w with
  | true => rw [(writeContext_of_decides hdecides).interrupt, sink_interrupt (decides_live hdecides)]
  | false =>
    rw [(writeContext_of_not_decides hdecides).2.1]
    by_cases hlive : s.live = some key.generation
    · rw [if_pos hlive, sink_interrupt hlive]
    · have hclears : s.clears key = false := by
        rw [← Bool.not_eq_true, clears_iff]
        rintro ⟨p, -, hlive', -⟩
        exact hlive hlive'
      rw [if_neg hlive, hclears]
      rfl

theorem writeContext_lastSequence (c : InputCursor) :
    (s.writeContext sum256 key data w).1.inputs.lastSequence c =
      if s.decides sum256 key data w = true ∧ key.inputSequence ≠ 0 ∧ c = key.cursor then key.inputSequence
      else s.inputs.lastSequence c := by
  cases hdecides : s.decides sum256 key data w with
  | true =>
    rw [(writeContext_of_decides hdecides).inputs, record_lastSequence, take_lastSequence]
    simp
  | false =>
    rw [(writeContext_of_not_decides hdecides).1.inputs]
    simp

theorem writeContext_pty :
    (s.writeContext sum256 key data w).1.pty =
      if s.decides sum256 key data w = true ∧ (s.sink key).1 = .pty ∧ w.cancelled = false then
        s.pty ++ [(key.normalize, data)]
      else s.pty := by
  cases hdecides : s.decides sum256 key data w with
  | true =>
    rw [(writeContext_of_decides hdecides).pty]
    simp
  | false =>
    rw [(writeContext_of_not_decides hdecides).1.pty]
    simp

/-- a number that the journal takes is above all it decided -/
theorem decides_above (h : s.decides sum256 key data w = true) (hseq : key.inputSequence ≠ 0) :
    s.inputs.lastSequence key.cursor < key.inputSequence := by
  have herr := (takes_iff.1 (decides_takes h)).2.2.2.2
  rw [sequenceError_none (by simpa using hseq)] at herr
  simp only [InputKey.normalize_cursor, InputKey.normalize_inputSequence] at herr
  omega

/-- guarded input does not reach the terminal -/
theorem Session.Guarded.pty_eq (h : s.Guarded k) (hseq : key.inputSequence ≠ 0) (hkey : covers k key = true) :
    (s.writeContext sum256 key data w).1.pty = s.pty := by
  obtain ⟨hcursor, hle⟩ := covers_iff.1 hkey
  rw [writeContext_pty, if_neg]
  rintro ⟨hdecides, hpty, -⟩
  rcases h with ⟨p, hp, hpk⟩ | hdecided
  · obtain ⟨hpcursor, hple⟩ := covers_iff.1 hpk
    exact sink_ne_pty hp hseq (covers_iff.2 ⟨hpcursor.trans hcursor, hle.trans hple⟩) hpty
  · have habove := decides_above hdecides hseq
    rw [← Bool.not_eq_true, undecided_iff, hcursor] at hdecided
    omega

/-- a WriteContext keeps the guard of `k` unless it clears the pending interrupt without a decision -/
theorem Session.Guarded.writeContext (h : s.Guarded k)
    (hkeeps : s.clears key = false ∨ s.decides sum256 key data w = true ∨
      (k.cursor = key.cursor → s.undecided k = false)) : (s.writeContext sum256 key data w).1.Guarded k := by
  have hstays : s.undecided k = false → (s.writeContext sum256 key data w).1.undecided k = false := by
    intro hdecided
    rw [← Bool.not_eq_true, undecided_iff] at hdecided ⊢
    rw [writeContext_lastSequence]
    split_ifs with hnew
    · obtain ⟨hdecides, hseq, hcursor⟩ := hnew
      have habove := decides_above hdecides hseq
      rw [← hcursor] at habove
      omega
    · exact hdecided
  rcases h with ⟨p, hp, hpk⟩ | hdecided
  · by_cases hclears : s.clears key = true
    · -- the guard of the pending interrupt goes; the decision of the journal takes its place
      right
      obtain ⟨p', hp', -, hseq, hcovers⟩ := clears_iff.1 hclears
      cases hp.symm.trans hp'
      obtain ⟨hpcursor, hple⟩ := covers_iff.1 hpk
      obtain ⟨hkcursor, hkle⟩ := covers_iff.1 hcovers
      rcases hkeeps with hnot | hdecides | hdecided
      · rw [hclears] at hnot
        cases hnot
      · rw [← Bool.not_eq_true, undecided_iff, writeContext_lastSequence,
          if_pos ⟨hdecides, hseq, (hkcursor.trans hpcursor).symm⟩]
        omega
      · exact hstays (hdecided (hkcursor.trans hpcursor).symm)
    · left
      refine ⟨p, ?_, hpk⟩
      rw [writeContext_interrupt, if_neg hclears, hp]
  · exact .inr (hstays hdecided)

end

/-! ## Whole runs -/

open Interrupts

section

variable {Hash : Type} [DecidableEq Hash] {sum256 : Bytes → Hash} {s : Interrupts Hash}

/-- every interrupt that is handled or may still be has its guard -/
def Interrupts.Inv (s : Interrupts Hash) : Prop := ∀ k ∈ s.owed, s.session.Guarded k

theorem Interrupts.Inv.step (h : s.Inv) (op : InterruptOp) (hop : s.keeps sum256 op = true) :
    (s.step sum256 op).Inv := by
  cases op with
  | accepted key =>
    unfold Interrupts.step
    dsimp only
    split_ifs with hrefused
    · exact h
    · intro k hk
      have hcovered : ∀ k ∈ s.owed, s.session.undecided k = true → covers key k = true := by
        have := of_decide_eq_true hop
        grind
      rcases List.mem_cons.1 hk with rfl | hk
      · exact .inl ⟨k, rfl, by simp [covers]⟩
      · by_cases hundecided : s.session.undecided k = true
        · exact .inl ⟨key, rfl, hcovered k hk hundecided⟩
        · exact .inr (Bool.not_eq_true _ ▸ hundecided)
  | returned key handled =>
    unfold Interrupts.step
    dsimp only
    split_ifs with hcall hhandled
    · intro k hk
      refine h k ?_
      simp only [Interrupts.owed, List.mem_append, List.mem_cons] at hk ⊢
      rcases hk with hk | rfl | hk
      · exact .inl (List.mem_of_mem_erase hk)
      · exact .inl hcall
      · exact .inr hk
    · intro k hk
      refine h k ?_
      simp only [Interrupts.owed, List.mem_append] at hk ⊢
      exact hk.imp_left List.mem_of_mem_erase
    · exact h
  | writeContext key data w =>
    intro k hk
    refine (h k hk).writeContext ?_
    have := of_decide_eq_true hop
    exact this.imp_right (Or.imp_right fun hall => hall k hk)
  | attach | detach | exited => exact h

theorem Interrupts.Inv.not_violates (h : s.Inv) (op : InterruptOp) : s.violates sum256 op = false := by
  cases op with
  | writeContext key data w =>
    refine decide_eq_false ?_
    rintro ⟨hseq, ⟨k, hk, hcovers⟩, hpty⟩
    exact hpty ((h k (List.mem_append_right _ hk)).pty_eq hseq hcovers)
  | accepted | returned | attach | detach | exited => rfl

/-- a handled interrupt without its guard -/
structure Interrupts.Open (s : Interrupts Hash) (k : InputKey) : Prop where
  handled : k ∈ s.handled
  unguarded : ∀ p, s.session.interrupt = some p → covers p k = false

variable {k : InputKey}

/-- an interrupt that has lost its guard and is handled, now or before -/
theorem Interrupts.Open.of_returned (hk : k ∈ s.owed)
    (hunguarded : ∀ p, s.session.interrupt = some p → covers p k = false) :
      (s.step sum256 (.returned k true)).Open k := by
  unfold step
  dsimp only
  split_ifs with hcall
  · exact ⟨List.mem_cons_self, hunguarded⟩
  · exact absurd rfl ‹¬true = true›
  · exact ⟨(List.mem_append.1 hk).resolve_left hcall, hunguarded⟩

variable {op : InterruptOp}

/-- only another interrupt could guard it again -/
theorem Interrupts.Open.step (h : s.Open k) (hop : op.quiet = true) : (s.step sum256 op).Open k := by
  cases op with
  | accepted key => cases hop
  | returned key handled =>
    unfold step
    dsimp only
    split_ifs
    · exact ⟨List.mem_cons_of_mem _ h.handled, h.unguarded⟩
    · exact ⟨h.handled, h.unguarded⟩
    · exact h
  | writeContext key data w =>
    refine ⟨h.handled, fun p hp => h.unguarded p ?_⟩
    unfold step at hp
    rw [writeContext_interrupt] at hp
    split_ifs at hp
    exact hp
  | attach | detach | exited => exact ⟨h.handled, h.unguarded⟩

theorem Interrupts.Open.run (h : s.Open k) {ops : List InterruptOp} (hops : ∀ op ∈ ops, op.quiet = true) :
    (Machine.run (Interrupts.step sum256) s ops).Open k :=
  Fold.foldl_inv (fun s => s.Open k) _ ops (fun _ op hop h => h.step (hops op hop)) s h

/-- the interrupt key itself reaches the terminal -/
theorem Interrupts.Open.violates {data : Bytes} {w : Weather} (h : s.Open k)
    (hdecides : s.session.decides sum256 k data w = true) (hseq : k.inputSequence ≠ 0) (hw : w.cancelled = false) :
    s.violates sum256 (.writeContext k data w) = true := by
  refine decide_eq_true ⟨hseq, ⟨k, h.handled, by simp [covers]⟩, ?_⟩
  rw [writeContext_pty, if_pos ⟨hdecides, sink_eq_pty h.unguarded, hw⟩]
  simp

/-- a step that does not keep the guards takes one away -/
theorem not_keeps (hop : s.keeps sum256 op = false) :
    ∃ k ∈ (s.step sum256 op).owed, (s.step sum256 op).session.undecided k = true ∧
      ∀ p, (s.step sum256 op).session.interrupt = some p → covers p k = false := by
  cases op with
  | accepted key =>
    have hnot := of_decide_eq_false hop
    simp only [not_or, not_forall, Bool.not_eq_true] at hnot
    obtain ⟨hseq, hlive, k, hk, hundecided, hcovers⟩ := hnot
    unfold step
    dsimp only
    rw [if_neg (not_or.2 ⟨hseq, hlive⟩)]
    refine ⟨k, List.mem_cons_of_mem _ hk, hundecided, fun p hp => ?_⟩
    cases hp
    exact hcovers
  | writeContext key data w =>
    have hnot := of_decide_eq_false hop
    simp only [not_or, not_forall, Bool.not_eq_true, Bool.not_eq_false] at hnot
    obtain ⟨hclears, hdecides, k, hk, hcursor, hundecided⟩ := hnot
    refine ⟨k, hk, ?_, fun p hp => ?_⟩
    · rw [undecided_iff] at hundecided ⊢
      unfold step
      rw [writeContext_lastSequence, if_neg (by simp [hdecides])]
      exact hundecided
    · unfold step at hp
      rw [writeContext_interrupt, if_pos hclears] at hp
      cases hp
  | returned | attach | detach | exited => cases hop

/-- **Interrupts discard what is queued before them.** While every step keeps the guards, no WriteContext of an
input up to a handled interrupt reaches the terminal. A step that does not keep them leaves an interrupt, handled or
about to be, whose own key the journal has not decided: from then on the WriteContext that decides it reaches the
terminal, unless another interrupt is accepted first. -/
theorem interrupt_discards (session : Session Hash) (ops : List InterruptOp)
    (hops : Throughout (Interrupts.step sum256) { session := session } (fun s op => s.keeps sum256 op = true) ops)
    (op : InterruptOp) :
    (run (Interrupts.step sum256) { session := session } ops).violates sum256 op = false ∧
    ((run (Interrupts.step sum256) { session := session } ops).keeps sum256 op = false →
      ∃ k, (run (Interrupts.step sum256) { session := session } (ops ++ [op])).session.undecided k = true ∧
        k ∈ (run (Interrupts.step sum256) { session := session } (ops ++ [op])).owed ∧
        ∀ more, (∀ op ∈ more, op.quiet = true) → ∀ data w, w.cancelled = false →
          (run (Interrupts.step sum256) { session := session } (ops ++ [op] ++
            .returned k true :: more)).session.decides
            sum256 k data w = true →
          (run (Interrupts.step sum256) { session := session } (ops ++ [op] ++
            .returned k true :: more)).violates sum256
            (.writeContext k data w) = true) := by
  have hinv : (run (Interrupts.step sum256) { session := session } ops).Inv :=
    throughout_inv _ _ nofun (fun s op hop h => h.step op hop) hops
  refine ⟨hinv.not_violates op, fun hop => ?_⟩
  obtain ⟨k, hk, hundecided, hunguarded⟩ := not_keeps hop
  rw [← run_snoc (Interrupts.step sum256)] at hk hundecided hunguarded
  refine ⟨k, hundecided, hk, fun more hmore data w hw hdecides => ?_⟩
  have hseq : k.inputSequence ≠ 0 := Nat.ne_of_gt (Nat.zero_lt_of_lt (undecided_iff.1 hundecided))
  rw [run_append] at hdecides ⊢
  exact ((Interrupts.Open.of_returned hk hunguarded).run hmore).violates hdecides hseq hw

end

/-! ## Two windows -/

/-- a session with two windows and a live process -/
def twoWindows : Session Bytes :=
  { generation := 1, live := some 1, inputs := .new 1 100, attached := ["one", "two"] }

/-- the first input of a window -/
def first (window : String) : InputKey := ⟨"client", window, 1, 1, ""⟩

/-- both windows interrupt with their first key -/
def bothInterrupt : List InterruptOp :=
  [.accepted (first "one"), .returned (first "one") true, .accepted (first "two"), .returned (first "two") true]

/-- one window interrupts, and its key is discarded when it comes -/
theorem interrupt_discards_one :
    first "one" ∈ (run (step id) { session := twoWindows } (bothInterrupt.take 2)).handled ∧
    (run (step id) { session := twoWindows } (bothInterrupt.take 2)).violates id
      (.writeContext (first "one") [3] { n := 1 }) = false :=
  ⟨by decide +kernel,
    (@interrupt_discards Bytes _ id twoWindows (bothInterrupt.take 2)
      ((throughout_iff_allowed _ _).2 (by decide +kernel)) _).1⟩

/-- the second window's interrupt takes the place of the first one's, whose key then reaches the terminal; so it
does after a write of the first window that was refused -/
theorem interrupt_delivered_twice :
    (run (step id) { session := twoWindows } bothInterrupt).violates id
      (.writeContext (first "one") [3] { n := 1 }) = true ∧
    (run (step id) { session := { twoWindows with rows := some ∅ } }
      (bothInterrupt.take 2 ++ [.writeContext (first "one") [3] { n := 1, storeFails := true }])).violates id
      (.writeContext (first "one") [3] { n := 1 }) = true := by
  decide +kernel

end Paperboat.Terminal
