/-
What the attachments of a session receive.

Results:
- `output_in_sequence`: in every run no publication, read or screen fails for the order
  of output, and the reader of every attachment follows the tape of the bytes appended
  to the history. It begins where its replay begins; every event it takes or is shown
  starts where it is and carries, byte for byte and with the channel, what was appended
  at those numbers; it moves to the end of what it takes or to the place it confirms,
  and is moved further only with a report of a lag or by a screen. So what it holds
  since it began, or since its last jump, is the output from there up to its position,
  each byte once;
- `viewers_agree`: so no two attachments hold different bytes at one number.

Witnesses:
- `output_in_sequence_oneReader`: one attachment, and what it holds.
-/
import Paperboat.Output.Sound

namespace Paperboat.Output

open Session Reading

/-- **Output reaches every attachment in sequence.** -/
theorem output_in_sequence (config : Config) (history : History) (ops : List Op) :
    (∀ op, ((after config history ops).exec config op).1.outOfOrder = false) ∧
      ∀ lease, (after config history ops).trace lease ≠ [] →
        Follows (tape history.earliest (after config history ops).log)
            ((after config history ops).trace lease) ∧
          (tape history.earliest (after config history ops).log).Has
            (held ((after config history ops).trace lease)).1
            (held ((after config history ops).trace lease)).2 ∧
          (held ((after config history ops).trace lease)).1 +
              (held ((after config history ops).trace lease)).2.length =
            position ((after config history ops).trace lease) := by
  have hsound := Sound.run config history ops
  refine ⟨fun op => (hsound.exec config op).1, fun lease hne => ⟨hsound.follows lease, ?_⟩⟩
  exact (hsound.follows lease).held hne

def smallConfig : Config := ⟨8, 4, by decide⟩

def smallHistory : History := .empty 16 (by decide)

/-- a viewer attaches to a new session, the program prints two bytes, and the viewer reads -/
def oneReader : List Op := [.attach "viewer" 0 false false, .output [104, 105], .waitNextOwned "viewer"]

theorem output_in_sequence_oneReader :
    (after smallConfig smallHistory oneReader).trace 1 = [.took 0 [(1, 104), (1, 105)], .started 0 []] ∧
      Follows (tape 0 (after smallConfig smallHistory oneReader).log)
        ((after smallConfig smallHistory oneReader).trace 1) :=
  ⟨by decide +kernel, ((output_in_sequence smallConfig smallHistory oneReader).2 1 (by decide +kernel)).1⟩

/-- **Viewers agree.** In every run no two attachments, whenever they came and however they read, hold different
bytes at one sequence number. -/
theorem viewers_agree (config : Config) (history : History) (ops : List Op) (lease lease' k : ℕ) :
    let s := after config history ops
    holds (s.trace lease) k = none ∨ holds (s.trace lease') k = none ∨
      holds (s.trace lease) k = holds (s.trace lease') k := by
  intro s
  have hsound := Sound.run config history ops
  cases hx : holds (s.trace lease) k with
  | none => exact .inl rfl
  | some x =>
    cases hy : holds (s.trace lease') k with
    | none => exact .inr (.inl rfl)
    | some y => exact .inr (.inr (((hsound.follows lease).holds hx).symm.trans ((hsound.follows lease').holds hy)))

end Paperboat.Output
