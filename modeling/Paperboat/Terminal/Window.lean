/-
What the input journal remembers when inputs are decided one after another: of every
client, attachment and generation the last ones, up to the window.

Results:
- `held`: how many decisions that is after a log of calls;
- `Windowed.write`: a new decision keeps the journal at that;
- `Journaling.Inv.decision`, `decision_stuck`: the journal after a decision;
- `Journaling.Inv.empty`, `Windowed.empty`: one that has forgotten everything.
-/
import Paperboat.Terminal.JournalRun

namespace Paperboat.Terminal

open Journaling InputKey InputJournal InputCursor

/-! ## What the journal holds -/

/-- the cursor of a sequenced call -/
def JournalEvent.cursor : JournalEvent → Option InputCursor
  | .called key _ => if key.inputSequence ≠ 0 then some key.cursor else none
  | .ended .. => none

/-- who wrote -/
def writers (log : List JournalEvent) : Finset InputCursor := (log.filterMap JournalEvent.cursor).toFinset

/-- the decisions in the journal: of everyone who wrote, the last ones up to the window -/
def held (log : List JournalEvent) : ℕ := ∑ c ∈ writers log, min (sequences c log).length inputDecisionWindow

variable {log : List JournalEvent}

theorem mem_writers {c : InputCursor} : c ∈ writers log ↔ sequences c log ≠ [] := by
  unfold writers sequences
  rw [List.mem_toFinset, List.mem_filterMap, ne_eq, List.filterMap_eq_nil_iff]
  push Not
  refine exists_congr fun e => and_congr_right fun _ => ?_
  cases e with
  | called key data =>
    unfold JournalEvent.cursor JournalEvent.sequence
    grind
  | ended key data n err => simp [JournalEvent.cursor, JournalEvent.sequence]

/-- others may be counted too: they hold nothing -/
theorem held_eq_sum {S : Finset InputCursor} (h : writers log ⊆ S) :
    held log = ∑ c ∈ S, min (sequences c log).length inputDecisionWindow := by
  refine Finset.sum_subset h fun c _ hc => ?_
  rw [mem_writers, not_not] at hc
  simp [hc]

theorem sequences_write (c : InputCursor) (log : List JournalEvent) (key : InputKey) (data : Bytes) (n : ℤ)
    (err : Option WriteError) :
    sequences c (log ++ [.called key data, .ended key data n err]) =
      if key.cursor = c ∧ key.inputSequence ≠ 0 then sequences c log ++ [key.inputSequence] else sequences c log := by
  have hsplit : [JournalEvent.called key data, .ended key data n err] = [.called key data] ++
      [.ended key data n err] := rfl
  rw [hsplit, sequences_append, sequences_append, sequences_ended, sequences_called]
  split_ifs <;> simp

/-- another input takes room until its cursor has filled the window -/
theorem held_write {key : InputKey} (hseq : key.inputSequence ≠ 0) (data : Bytes) (n : ℤ) (err : Option WriteError) :
    held (log ++ [.called key data, .ended key data n err]) =
      held log + if (sequences key.cursor log).length < inputDecisionWindow then 1 else 0 := by
  have hwriters : writers (log ++ [.called key data, .ended key data n err]) ⊆ insert key.cursor (writers log) := by
    intro c hc
    rw [mem_writers, sequences_write] at hc
    rw [Finset.mem_insert, mem_writers]
    split_ifs at hc with hkey
    · exact .inl hkey.1.symm
    · exact .inr hc
  rw [held_eq_sum hwriters, held_eq_sum (Finset.subset_insert key.cursor (writers log)),
    ← Finset.add_sum_erase _ _ (Finset.mem_insert_self key.cursor (writers log)),
    ← Finset.add_sum_erase _ _ (Finset.mem_insert_self key.cursor (writers log))]
  have hothers : ∀ c ∈ (insert key.cursor (writers log)).erase key.cursor,
      min (sequences c (log ++ [.called key data, .ended key data n err])).length inputDecisionWindow =
        min (sequences c log).length inputDecisionWindow := by
    intro c hc
    rw [sequences_write, if_neg]
    rintro ⟨rfl, -⟩
    exact absurd hc (Finset.notMem_erase _ _)
  rw [Finset.sum_congr rfl hothers, sequences_write, if_pos ⟨rfl, hseq⟩, List.length_append, List.length_singleton]
  split_ifs <;> omega

/-! ## The journal after a decision -/

section

variable {Hash : Type} [DecidableEq Hash] {sum256 : Bytes → Hash} {j : InputJournal Hash} {log : List JournalEvent}
  {k : InputKey} {data : Bytes} {n : ℤ} {err : Option WriteError}

theorem record_isSome (key : InputKey) :
    ((j.record sum256 k data n err).decisions.lookup key).isSome = (j.decisions.lookup key).isSome := by
  unfold record
  cases hk : j.decisions.lookup k with
  | none => rfl
  | some current =>
    dsimp only
    split_ifs
    · rw [Index.lookup_insert_if]
      split_ifs with heq
      · rw [heq, hk]
        rfl
      · rfl
    · rfl

theorem record_length : (j.record sum256 k data n err).decisions.entries.length = j.decisions.entries.length := by
  unfold record
  cases hk : j.decisions.lookup k with
  | none => rfl
  | some current =>
    dsimp only
    split_ifs
    · rw [Table.length_insert, hk]
      rfl
    · rfl

omit [DecidableEq Hash] in
theorem take_length (hash : Hash) (hnone : j.decisions.lookup k = none) :
    (j.take k hash).decisions.entries.length = j.decisions.entries.length + 1 -
      if inputDecisionWindow < k.inputSequence ∧
          (j.decisions.lookup { k with inputSequence := k.inputSequence - inputDecisionWindow }).isSome
            then 1 else 0 := by
  unfold take forgetBeforeWindowLocked
  by_cases hlong : inputDecisionWindow < k.inputSequence
  · have hseq : k.inputSequence ≠ 0 := Nat.ne_of_gt (Nat.zero_lt_of_lt hlong)
    have hother : ({ k with inputSequence := k.inputSequence - inputDecisionWindow } : InputKey) ≠ k := by
      intro heq
      have := congrArg inputSequence heq
      unfold inputDecisionWindow at this hlong
      dsimp only at this
      omega
    simp only [ne_eq, hseq, not_false_eq_true, if_true, hlong, true_and]
    rw [Table.length_erase, Table.length_insert, hnone, Index.lookup_insert_if, if_neg hother]
    rfl
  · simp only [hlong, false_and, if_false]
    split_ifs
    all_goals
      rw [Table.length_insert, hnone]
      rfl

variable (j log) in
/-- the journal remembers the last inputs of every cursor, up to the window, and nothing else -/
structure Windowed : Prop where
  window : ∀ key, (j.decisions.lookup key).isSome = true ↔ key = key.cursor.key key.inputSequence ∧
    key.inputSequence ∈ sequences key.cursor log ∧ j.lastSequence key.cursor < key.inputSequence + inputDecisionWindow
  length : j.decisions.entries.length = held log

/-- nobody in a call -/
def Journaling.quiet (j : InputJournal Hash) (log : List JournalEvent) : Journaling Hash := { journal := j, log := log }

/-- what became of the input says whether its cursor goes on -/
theorem decision_stuck (hnormal : k.normalize = k) (hseq : k.inputSequence ≠ 0) :
    ((j.take k (sum256 data)).record sum256 k data n err).stuck k.cursor =
      decide ((outcome k.inputSequence data n err).status = .uncertain) := by
  have htaken : (j.take k (sum256 data)).decisions.lookup k =
      some { status := .uncertain, inputSequence := k.inputSequence, hash := sum256 data } := by
    rw [take_lookup, if_neg, if_pos rfl]
    rintro ⟨hlong, heq⟩
    have := congrArg inputSequence heq
    have := inputDecisionWindow_pos
    dsimp only at *
    omega
  unfold stuck
  rw [record_lastSequence, take_lastSequence, if_pos ⟨hseq, rfl⟩, ← eq_cursor_key hnormal hseq,
    record, htaken]
  dsimp only
  rw [if_pos rfl, AList.lookup_insert]

variable (h : (quiet j log).Inv sum256)
include h

section

variable (hw : Windowed j log) (hnormal : k.normalize = k) (hgen : k.generation = j.current)
    (hseq : k.inputSequence ≠ 0) (herr : j.sequenceError k = none)
include hw hnormal hgen hseq herr

omit [DecidableEq Hash] in
/-- an input that is taken continues its numbers, and the one it makes the journal forget is there when the window
is full -/
theorem forgets_iff : (inputDecisionWindow < k.inputSequence ∧
      (j.decisions.lookup { k with inputSequence := k.inputSequence - inputDecisionWindow }).isSome = true) ↔
    ¬(sequences k.cursor log).length < inputDecisionWindow := by
  obtain ⟨first, count, hfirst, hnumbers, hnext, hlast⟩ := h.continues hgen hseq herr
  replace hnumbers : sequences k.cursor log = List.range' first count := hnumbers
  replace hlast : 0 < count → k.inputSequence = j.lastSequence k.cursor + 1 := hlast
  have hcanonical : ({ k with inputSequence := k.inputSequence - inputDecisionWindow } : InputKey) =
      k.cursor.key (k.inputSequence - inputDecisionWindow) := by
    rw [eq_cursor_key hnormal hseq]
    rfl
  rw [hw.window, cursor_with, hnumbers, List.length_range', List.mem_range'_1]
  constructor
  · rintro ⟨hlong, -, hmem, -⟩
    dsimp only at hmem
    omega
  · intro hcount
    have hwindow := inputDecisionWindow_pos
    refine ⟨by omega, hcanonical, ?_, ?_⟩
    · dsimp only
      omega
    · dsimp only
      omega

omit [DecidableEq Hash] in
/-- the keys of the cursor that writes, by their numbers -/
theorem Windowed.take_own (hash : Hash) (m : ℕ) : ((j.take k hash).decisions.lookup (k.cursor.key m)).isSome = true ↔
      (m ∈ sequences k.cursor log ∨ m = k.inputSequence) ∧ k.inputSequence < m + inputDecisionWindow := by
  obtain ⟨first, count, hfirst, hnumbers, hnext, hlast⟩ := h.continues hgen hseq herr
  replace hnumbers : sequences k.cursor log = List.range' first count := hnumbers
  replace hlast : 0 < count → k.inputSequence = j.lastSequence k.cursor + 1 := hlast
  have hold := hw.window (k.cursor.key m)
  rw [cursor_key, key_inputSequence, hnumbers, List.mem_range'_1] at hold
  have hnew : k.cursor.key m = k ↔ m = k.inputSequence := by
    rw [eq_cursor_key hnormal hseq]
    exact key_inj.trans (by simp)
  have hforgotten : k.cursor.key m = { k with inputSequence := k.inputSequence - inputDecisionWindow } ↔
      m = k.inputSequence - inputDecisionWindow := by
    rw [eq_cursor_key hnormal hseq]
    exact key_inj.trans (by simp)
  rw [take_lookup, hnumbers, List.mem_range'_1]
  simp only [hnew, hforgotten]
  split_ifs with hleaves hown
  · simp only [Option.isSome_none, Bool.false_eq_true, false_iff]
    omega
  · simp only [Option.isSome_some, true_iff]
    omega
  · rw [hold]
    constructor
    · rintro ⟨-, hmem, hin⟩
      omega
    · rintro ⟨hmem | hmem, hin⟩
      · exact ⟨rfl, hmem, by omega⟩
      · exact absurd hmem hown

end

theorem Windowed.write (hw : Windowed j log) (hnormal : k.normalize = k)
    (hnone : j.decisions.lookup k = none) (hgen : k.generation = j.current) (hseq : k.inputSequence ≠ 0)
    (herr : j.sequenceError k = none) :
    Windowed ((j.take k (sum256 data)).record sum256 k data n err) (log ++ [.called k data, .ended k data n err]) := by
  constructor
  case window =>
    intro key
    have hcanonical := eq_cursor_key hnormal hseq
    rw [record_isSome, record_lastSequence, take_lastSequence, sequences_write]
    by_cases hcursor : key.cursor = k.cursor
    · rw [hcursor, if_pos ⟨rfl, hseq⟩, if_pos ⟨hseq, rfl⟩, List.mem_append, List.mem_singleton]
      by_cases hkey : key = k.cursor.key key.inputSequence
      · rw [hkey, key_inputSequence, hw.take_own h hnormal hgen hseq herr]
        simp
      · rw [take_lookup, if_neg, if_neg, hw.window, hcursor]
        · simp only [hkey, false_and]
        · rintro rfl
          exact hkey hcanonical
        · rintro ⟨-, heq⟩
          refine hkey ?_
          rw [heq, hcanonical]
          rfl
    · rw [if_neg fun hk => hcursor hk.1.symm, if_neg fun hk => hcursor hk.2, take_lookup, if_neg, if_neg]
      · exact hw.window key
      · rintro rfl
        exact hcursor rfl
      · rintro ⟨-, rfl⟩
        exact hcursor (cursor_with _ _)
  case length =>
    rw [record_length, take_length _ hnone, hw.length, held_write hseq]
    have hforgets := forgets_iff h hw hnormal hgen hseq herr
    by_cases hfull : (sequences k.cursor log).length < inputDecisionWindow
    · rw [if_pos hfull, if_neg fun hf => hforgets.1 hf hfull]
      rfl
    · rw [if_neg hfull, if_pos (hforgets.2 hfull)]
      rfl

/-- a decision with nobody else in the journal: both critical sections -/
theorem Journaling.Inv.decision (hnormal : k.normalize = k)
    (hnone : j.decisions.lookup k = none) (hgen : k.generation = j.current) (herr : j.sequenceError k = none) :
    (quiet ((j.take k (sum256 data)).record sum256 k data n err)
      (log ++ [.called k data, .ended k data n err])).Inv sum256 := by
  have hwrite := h.write (t := 0) data rfl hnormal hnone hgen herr
  have hwrote := hwrite.wrote (Function.update_self 0 _ _) n err
  simpa [quiet] using hwrote

end

end Paperboat.Terminal
