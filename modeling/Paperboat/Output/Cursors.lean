/-
Where the cursor of an attachment is, compared with what its reader went through.

`Placed` is the invariant of one attached cursor: its queue is the bytes from its
position up to the end of what it was sent, all of them in the ring, and its reader is
at that position, or behind it when a lag has not been reported yet. `pending` is what
an attach that is under way still has to queue for it.

Results:
- `Placed.publish`: an event is published to an attachment;
- `Placed.queue`: an attach queues one of its events;
- `Placed.drained`: a read or a confirmation moves the cursor;
- `Placed.reported`: a lag is reported;
- `Placed.skipTo`: a screen moves the cursor to the end;
- `Placed.event_at`: the event at the cursor is in the ring, and ends within the queue.
-/
import Paperboat.Output.Session

namespace Paperboat.Output

open Reading (position)

structure Placed (log : List Event) (ring : Ring) (latest pending : ℕ) (c : AttachmentCursor)
    (rs : List Seen) : Prop where
  started : rs ≠ []
  behind : position rs ≤ latest
  fits : c.queuedBytes + pending ≤ c.maxBytes
  /-- before its first event -/
  fresh : c.hasCursor = false →
    c.queuedBytes = 0 ∧ c.lagged = false ∧ (c.receiveOutput = true → position rs + pending = latest)
  queued : c.hasCursor = true → c.cursor + c.queuedBytes = c.enqueuedEnd
  ends : c.hasCursor = true →
    c.enqueuedEnd + pending ≤ latest ∧ (c.receiveOutput = true → c.enqueuedEnd + pending = latest)
  /-- the queue ends between two events -/
  whole : c.hasCursor = true → ∀ a ∈ log, a.endSequence ≤ c.enqueuedEnd ∨ c.enqueuedEnd ≤ a.startSequence
  place : c.hasCursor = true → position rs ≤ c.cursor ∧ (c.lagged = false → position rs = c.cursor)
  retained : c.hasCursor = true → ∀ k, c.cursor ≤ k → k < c.enqueuedEnd → ring.Covers k

/-- only an attachment that is fed can pace the program -/
def AttachmentCursor.Paceable (c : AttachmentCursor) : Prop :=
  (c.backpressure = true → c.owner = true) ∧ (c.owner = true → c.receiveOutput = true)

namespace Placed

variable {log : List Event} {ring ring' : Ring} {origin latest pending n now : ℕ} {c : AttachmentCursor}
    {rs : List Seen} {event : Event}

/-- the event is queued behind what was sent before -/
theorem queue (hlog : Chained origin log latest) (h : Placed log ring latest (event.data.length + pending) c rs)
    (hreceives : c.receiveOutput = true) (hevent : TailOf log event)
    (hnext : event.startSequence + (event.data.length + pending) = latest) (hring : ∀ k, ring.Covers k → ring'.Covers k)
    (hadds : ∀ k, event.startSequence ≤ k → k < event.endSequence → ring'.Covers k) :
    Placed log ring' latest pending (c.queue event) rs := by
  obtain ⟨hlt, hsized, -, -⟩ := hevent.sized hlog
  have hfits := h.fits
  refine ⟨h.started, h.behind, ?_, fun hc => absurd hc (by simp [AttachmentCursor.queue]), fun _ => ?_, fun _ => ?_,
    fun _ a ha => ?_, fun _ => ?_, fun _ k hlow hhigh => ?_⟩
  · simp only [AttachmentCursor.queue]
    omega
  · cases hc : c.hasCursor with
    | false =>
      have := (h.fresh hc).1
      simp only [AttachmentCursor.queue, hc, Bool.false_eq_true, if_false]
      omega
    | true =>
      have := h.queued hc
      have := (h.ends hc).2 hreceives
      simp only [AttachmentCursor.queue, hc, if_true]
      omega
  · simp only [AttachmentCursor.queue]
    omega
  · -- the event reaches to the end of an appended one
    obtain ⟨x, hx, hlow, hhigh, htrim⟩ := hevent
    have hend : event.endSequence = x.endSequence := by rw [htrim]; rfl
    simp only [AttachmentCursor.queue, hend]
    by_cases hax : a = x
    · exact .inl (by rw [hax])
    · by_contra hcross
      push Not at hcross
      exact hax (hlog.unique ha hx (k := x.endSequence - 1) (by omega) (by omega))
  · cases hc : c.hasCursor with
    | false =>
      have := (h.fresh hc).2.2 hreceives
      simp only [AttachmentCursor.queue, hc, Bool.false_eq_true, if_false]
      omega
    | true =>
      simpa only [AttachmentCursor.queue, hc, if_true] using h.place hc
  · cases hc : c.hasCursor with
    | false =>
      simp only [AttachmentCursor.queue, hc, Bool.false_eq_true, if_false] at hlow hhigh
      exact hadds k hlow hhigh
    | true =>
      simp only [AttachmentCursor.queue, hc, if_true] at hlow hhigh
      have := (h.ends hc).2 hreceives
      by_cases hk : k < c.enqueuedEnd
      · exact hring k (h.retained hc k hlow hk)
      · exact hadds k (by omega) hhigh

/-- an appended event is still to be queued for an attachment that has room for it -/
theorem append (h : Placed log ring latest 0 c rs) (hstart : event.startSequence = latest)
    (hend : event.endSequence = latest + event.data.length) (hroom : c.overflows event.data.length = false) :
    Placed (log ++ [event]) ring event.endSequence (event.data.length + 0) c rs := by
  have hroom : c.queuedBytes + event.data.length ≤ c.maxBytes := by
    have := h.fits
    simp only [AttachmentCursor.overflows, decide_eq_false_iff_not] at hroom
    omega
  refine ⟨h.started, h.behind.trans (by omega),
    by omega, fun hc => ?_, h.queued, fun hc => ?_, fun hc a ha => ?_, h.place, h.retained⟩
  · obtain ⟨hqueued, hlagged, hplace⟩ := h.fresh hc
    exact ⟨hqueued, hlagged, fun hreceives => by have := hplace hreceives; omega⟩
  · obtain ⟨hle, heq⟩ := h.ends hc
    exact ⟨by omega, fun hreceives => by have := heq hreceives; omega⟩
  · rcases Machine.mem_snoc.1 ha with ha | rfl
    · exact h.whole hc a ha
    · have := (h.ends hc).1
      omega

/-- the backlog is dropped: the reader is behind until it is told -/
theorem lag (hlog : Chained origin log event.endSequence) (h : rs ≠ []) (hbehind : position rs ≤ event.endSequence) :
    Placed log ring event.endSequence 0 (c.lag event) rs := by
  refine ⟨h, hbehind, Nat.zero_le _, fun hc => absurd hc (by simp [AttachmentCursor.lag]), fun _ => rfl,
    fun _ => ⟨le_rfl, fun _ => rfl⟩, fun _ a ha => .inl (hlog.mem ha).2.2,
    fun _ => ⟨hbehind, fun hlagged => absurd hlagged (by simp [AttachmentCursor.lag])⟩, fun _ k hlow hhigh => ?_⟩
  simp only [AttachmentCursor.lag] at hlow hhigh
  omega

/-- an attachment that is not fed stays where it is -/
theorem unfed (h : Placed log ring latest 0 c rs) (hfed : c.receiveOutput = false)
    (hstart : event.startSequence = latest) (hend : event.endSequence = latest + event.data.length) :
    Placed (log ++ [event]) ring event.endSequence 0 c rs := by
  refine { h with behind := h.behind.trans (by omega), fresh := fun hc => ?_,
                  ends := fun hc => ?_, whole := fun hc a ha => ?_ }
  · exact ⟨(h.fresh hc).1, (h.fresh hc).2.1, fun hreceives => absurd hreceives (by simp [hfed])⟩
  · exact ⟨by have := (h.ends hc).1; omega, fun hreceives => absurd hreceives (by simp [hfed])⟩
  · rcases Machine.mem_snoc.1 ha with ha | rfl
    · exact h.whole hc a ha
    · have := (h.ends hc).1
      omega

section

variable (h : Placed log ring latest pending c rs)
include h

/-- the ring may lose what the cursor has read -/
theorem ring_congr (hring : c.hasCursor = true → ∀ k, c.cursor ≤ k → ring.Covers k → ring'.Covers k) :
    Placed log ring' latest pending c rs :=
  { h with retained := fun hc k hlow hhigh => hring hc k hlow (h.retained hc k hlow hhigh) }

/-- who paces the program does not matter -/
theorem repaced (backpressure owner : Bool) (progressAt : ℕ) :
    Placed log ring latest pending { c with backpressure, owner, progressAt } rs :=
  { h with }

omit h in
/-- **What a publication does to an attachment** that stays attached -/
theorem publish (hlog : Chained origin log latest) (h : Placed log ring latest 0 c rs)
    (hstart : event.startSequence = latest)
    (hend : event.endSequence = latest + event.data.length) (hne : event.data ≠ [])
    (hinserted : Ring.Inserted (log ++ [event]) ring event ring') (hattached : c.state = .attached)
    (hattached' : (c.publish event).state = .attached) :
    Placed (log ++ [event]) ring' event.endSequence 0 (c.publish event) rs := by
  have hlog' : Chained origin (log ++ [event]) event.endSequence := hlog.append ⟨hstart, by omega, rfl⟩
  cases hreceives : c.receiveOutput with
  | false =>
    have hpublish : c.publish event = c := by simp [AttachmentCursor.publish, AttachmentCursor.receives, hreceives]
    rw [hpublish]
    exact (h.unfed hreceives hstart hend).ring_congr fun _ k _ => hinserted.keeps k
  | true =>
    have hreceives' : c.receives = true := by simp [AttachmentCursor.receives, hreceives, hattached]
    cases hroom : c.overflows event.data.length with
    | false =>
      have hpublish : c.publish event = c.queue event := by simp [AttachmentCursor.publish, hreceives', hroom]
      have hlength : 0 < event.data.length := List.length_pos_iff.2 hne
      have htail : TailOf (log ++ [event]) event :=
        ⟨event, by simp, le_rfl, by omega, by simp [Event.trim]⟩
      rw [hpublish]
      exact (h.append hstart hend hroom).queue hlog' hreceives htail (by omega) hinserted.keeps hinserted.adds
    | true =>
      cases hpaces : c.backpressure with
      | false =>
        have hpublish : c.publish event = c.lag event := by simp [AttachmentCursor.publish, hreceives', hroom, hpaces]
        rw [hpublish]
        exact lag hlog' h.started (h.behind.trans (by omega))
      | true =>
        have hpublish : c.publish event = c.evict := by simp [AttachmentCursor.publish, hreceives', hroom, hpaces]
        rw [hpublish] at hattached'
        exact absurd hattached' (by simp [AttachmentCursor.evict])

/-! ## Reads -/

/-- the cursor moves within its queue, and the reader with it -/
theorem drained (hc : c.hasCursor = true) (hlow : c.cursor ≤ n)
    (hhigh : n ≤ c.enqueuedEnd) {rs' : List Seen} (hstarted : rs' ≠ []) (hplace : position rs' = n) :
    Placed log ring latest pending (c.drained n now) rs' := by
  have hqueued := h.queued hc
  have hends := h.ends hc
  have hfits := h.fits
  refine ⟨hstarted, by omega, ?_, fun hc' => absurd hc (by simpa [AttachmentCursor.drained] using hc'), fun _ => ?_,
    fun _ => hends, fun _ => h.whole hc, fun _ => ⟨hplace.le, fun _ => hplace⟩, fun _ k hk hk' => ?_⟩
  · simp only [AttachmentCursor.drained]
    omega
  · simp only [AttachmentCursor.drained]
    omega
  · exact h.retained hc k (hlow.trans hk) hk'

/-- a lag is reported to the reader -/
theorem reported (hlagged : c.lagged = true) :
    Placed log ring latest pending { c with lagged := false } (.jumped .lagged c.cursor :: rs) := by
  have hc : c.hasCursor = true := by
    by_contra hc
    have := (h.fresh (by simpa using hc)).2.1
    simp [this] at hlagged
  have hqueued := h.queued hc
  have hends := h.ends hc
  exact { h with
    started := by simp
    behind := by simp only [position]; omega
    fresh := fun hc' => absurd hc (by simpa using hc')
    place := fun _ => ⟨le_rfl, fun _ => rfl⟩ }

/-- a reader that is shown something stays where it is -/
theorem shown (k : ℕ) (data : List (UInt8 × UInt8)) : Placed log ring latest pending c (.shown k data :: rs) :=
  { h with started := by simp }

end

/-- the event at the cursor is what the reader has to get next -/
theorem event_at (hlog : Chained origin log latest) (hring : ring.Sound log) (h : Placed log ring latest pending c rs)
    (hc : c.hasCursor = true) (hunread : c.cursor < c.enqueuedEnd) :
    ∃ e, ring.eventAtLocked c.cursor = some e ∧ TailOf log (e.trim c.cursor) ∧ c.cursor < e.endSequence ∧
      e.endSequence ≤ c.enqueuedEnd := by
  obtain ⟨e, hmem, hfound, hlow, hhigh⟩ := Ring.eventAt_of_covers hlog hring (h.retained hc _ le_rfl hunread)
  obtain ⟨x, hx, hxlow, hxhigh, htrim⟩ := hring.tails e hmem
  have hend : e.endSequence = x.endSequence := by rw [htrim]; rfl
  refine ⟨e, hfound, ⟨x, hx, hxlow.trans hlow, by simpa [Event.trim, ← hend] using hhigh, ?_⟩, hhigh, ?_⟩
  · have hdata : e.data = x.data.drop (e.startSequence - x.startSequence) := by rw [htrim]; rfl
    have hchannel : e.channel = x.channel := by rw [htrim]; rfl
    simp only [Event.trim, Event.mk.injEq, hchannel, hend, hdata, List.drop_drop, true_and]
    congr 1
    omega
  · rcases h.whole hc x hx with hbefore | hafter
    · omega
    · omega

/-! ## Screens -/

/-- a screen moves an attachment to the end of the output -/
theorem skipTo (hlog : Chained origin log latest) :
    Placed log ring latest 0 (c.moved latest) (.jumped .skipped latest :: rs) :=
  ⟨by simp, le_rfl, Nat.zero_le _, fun hc => absurd hc (by simp [AttachmentCursor.moved]), fun _ => rfl,
    fun _ => ⟨le_rfl, fun _ => rfl⟩, fun _ a ha => .inl (hlog.mem ha).2.2, fun _ => ⟨le_rfl, fun _ => rfl⟩,
    fun _ k hlow hhigh => absurd hhigh (not_lt.2 hlow)⟩

end Placed

end Paperboat.Output
