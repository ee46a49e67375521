/-
When a window is put out.

The capture loop waits for room before it takes the session lock, and publishes
afterwards. WaitRoom returns when every window that paces the program has room, or has
drained nothing for the stall bound; the publication then evicts a pacing window that
has no room. In between the room may be taken by the record of a resize, which never
waits, and another window may become the one that paces, with the backlog it built up
while it ran free.

Results:
- `evictions_stalled_iff`: a publication evicts only stalled windows exactly when
  WaitRoom would pass at that moment.

Witnesses:
- `evictions_stalled_gone`: a window that has drained nothing for the bound;
- `window_put_out`: a resize puts out a window that has only just been sent its output,
  and a window that has just become the controller is put out for its backlog, although
  the capture loop waited for room.
-/
import Paperboat.Output.Sound

namespace Paperboat.Output

open Session

/-- the window paces the program and has drained nothing for the bound -/
def Session.stalled (s : Session) (attachmentID : String) : Bool :=
  (s.fanout.attachments.lookup attachmentID).any fun c => c.backpressure && ownerStallBound ≤ s.now - c.progressAt

theorem Fanout.mem_evictions {f : Fanout} {event : Event} {e : Eviction} :
    e ∈ f.evictions event ↔ ∃ c, f.attachments.lookup e.attachmentID = some c ∧ c.receives = true ∧
      c.overflows event.data.length = true ∧ c.backpressure = true ∧ e.queuedBytes = c.queuedBytes ∧
      e.reason = "slow_consumer" := by
  obtain ⟨id, queuedBytes, reason⟩ := e
  unfold Fanout.evictions
  simp only [List.mem_filterMap, Sigma.exists, Option.ite_none_right_eq_some, Bool.and_eq_true, Option.some.injEq,
    Eviction.mk.injEq]
  constructor
  · rintro ⟨id', c, hmem, ⟨⟨hreceives, hoverflows⟩, hpaces⟩, rfl, rfl, rfl⟩
    exact ⟨c, AList.mem_lookup_iff.2 hmem, hreceives, hoverflows, hpaces, rfl, rfl⟩
  · rintro ⟨c, hlookup, hreceives, hoverflows, hpaces, rfl, rfl⟩
    exact ⟨id, c, AList.mem_lookup_iff.1 hlookup, ⟨⟨hreceives, hoverflows⟩, hpaces⟩, rfl, rfl, rfl⟩

/-- **A window is put out only when it has stalled**, in every run and at every publication at which WaitRoom's test
passes, and at no other. -/
theorem evictions_stalled_iff (config : Config) (history : History) (ops : List Op) (op : Op)
    (evictions : List Eviction) (hexec : ((after config history ops).exec config op).1 = .published evictions) :
    (∀ e ∈ evictions, (after config history ops).stalled e.attachmentID = true) ↔
      (after config history ops).fanout.full op.size ownerStallBound (after config history ops).now = false := by
  have hsound := Sound.run config history ops
  generalize after config history ops = s at hexec hsound ⊢
  obtain ⟨channel, data, history', -, hsize, -, heq, hpublished⟩ := hsound.exec_published hexec
  rw [heq, hpublished.eq] at hexec
  cases hexec
  rw [hsize]
  have hdata : (s.history.next channel data).data.length = data.length := rfl
  constructor
  · intro hstalled
    refine List.any_eq_false.2 fun c hc hfull => ?_
    obtain ⟨id, hlookup⟩ := Fanout.mem_cursors.1 hc
    simp only [Bool.and_eq_true, decide_eq_true_eq] at hfull
    obtain ⟨⟨⟨hattached, hpaces⟩, hoverflows⟩, hrecent⟩ := hfull
    -- what paces the program is fed, so it is put out
    have hpaceable := hsound.leased.paceable id c hlookup
    have hreceives : c.receives = true := by
      simp [AttachmentCursor.receives, hattached, hpaceable.2 (hpaceable.1 hpaces)]
    have hevicted : (⟨id, c.queuedBytes, "slow_consumer"⟩ : Eviction) ∈ s.fanout.evictions
        (s.history.next channel data) :=
      Fanout.mem_evictions.2 ⟨c, hlookup, hreceives, hdata ▸ hoverflows, hpaces, rfl, rfl⟩
    have := hstalled _ hevicted
    simp only [stalled, hlookup, Option.any_some, Bool.and_eq_true, decide_eq_true_eq] at this
    omega
  · intro hroom e he
    obtain ⟨c, hlookup, hreceives, hoverflows, hpaces, -, -⟩ := Fanout.mem_evictions.1 he
    have hnot := List.any_eq_false.1 hroom c (Fanout.mem_cursors.2 ⟨_, hlookup⟩)
    simp only [AttachmentCursor.receives, Bool.and_eq_true, decide_eq_true_eq] at hreceives
    rw [hdata] at hoverflows
    simp only [hreceives.1, hpaces, hoverflows, decide_true, Bool.and_self, Bool.true_and, decide_eq_true_eq] at hnot
    simp only [stalled, hlookup, Option.any_some, hpaces, Bool.true_and, decide_eq_true_eq]
    omega

def paceConfig : Config := ⟨16, 4, Nat.le_add_left 1 15⟩

def paceHistory : History := .empty 64 (by decide)

/-- the only window paces the program; the capture loop waits for room, finds it and publishes ten bytes -/
def readingOwner : List Op :=
  [.attach "window" 0 false true, .setController "window", .waitRoom 10, .output [1, 2, 3, 4, 5, 6, 7, 8, 9, 10]]

/-- a window runs free and has ten bytes to read; the capture loop waits for room, finds it, and typing makes the
window the controller -/
def newController : List Op :=
  [.attach "window" 0 false true, .output [1, 2, 3, 4, 5, 6, 7, 8, 9, 10], .waitRoom 7, .setController "window"]

/-- **Put out without having stalled.** No time has passed in either run: the record of a resize does not fit behind
the ten bytes, and the backlog of the new controller leaves no room for the bytes that the loop had found room for. -/
theorem window_put_out :
    ((after paceConfig paceHistory readingOwner).exec paceConfig (.resize 24 80)).1 =
        .published [⟨"window", 10, "slow_consumer"⟩] ∧
      (after paceConfig paceHistory readingOwner).stalled "window" = false ∧
      ((after paceConfig paceHistory (newController.take 2)).exec paceConfig (.waitRoom 7)).1 = .room false ∧
      ((after paceConfig paceHistory newController).exec paceConfig (.output [1, 2, 3, 4, 5, 6, 7])).1 =
        .published [⟨"window", 10, "slow_consumer"⟩] ∧
      (after paceConfig paceHistory newController).stalled "window" = false := by
  decide +kernel

def stalledOwner : List Op := readingOwner ++ [.tick 5000]

/-- a window that has drained nothing for the bound is put out -/
theorem evictions_stalled_gone : (after paceConfig paceHistory stalledOwner).stalled "window" = true :=
  (evictions_stalled_iff paceConfig paceHistory stalledOwner (.output [1, 2, 3, 4, 5, 6, 7])
    [⟨"window", 10, "slow_consumer"⟩] (by decide +kernel)).2 (by decide +kernel) _ (List.mem_singleton_self _)

end Paperboat.Output
