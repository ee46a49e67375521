/-
The invariant of a session's output path: the ring holds parts of what was appended,
every attached cursor is where its reader is, and every reader follows the tape of the
appended bytes.

Results:
- `Sound.frees`, `Sound.update`: the two ways the fanout changes under a read, a
  compaction and one cursor;
- `Sound.publish`, `Sound.attachLocked`, `Sound.enqueue`, `Sound.waitNextFrom`,
  `Sound.waitNextOwned`, `Sound.skipTo`: one lemma for each operation, that it keeps the
  invariant and does not answer that output is out of order;
- `Sound.exec`, `Sound.run`: so for every operation, and for every run;
- `Sound.exec_published`: what an operation that publishes comes to.
-/
import Paperboat.Output.Cursors

namespace Paperboat.Output

open Fanout AttachmentCursor Attaching

open Reading (position)

/-- what the attach under way still has to queue for an attachment -/
def Attaching.pending (attaching : Option Attaching) (id : String) : ℕ :=
  match attaching with
  | none => 0
  | some a => if a.attachmentID = id then total a.remaining else 0

/-- the bytes an operation publishes -/
def Op.size : Op → ℕ
  | .output data => data.length
  | .resize rows columns => (resizeOutput rows columns).length
  | _ => 0

/-- the answers that say output came out of order -/
def Answer.outOfOrder : Answer → Bool
  | .failed .outputOrder => true
  | .read (.failed .outputOrder) => true
  | _ => false

/-- every lease is of one attachment, and only an owner that is fed paces the program -/
structure Fanout.Leased (f : Fanout) : Prop where
  leases : ∀ id c, f.attachments.lookup id = some c → c.lease ≤ f.lastLease
  distinct : ∀ id id' c c', f.attachments.lookup id = some c → f.attachments.lookup id' = some c' →
    c.lease = c'.lease → id = id'
  paceable : ∀ id c, f.attachments.lookup id = some c → c.Paceable

/-- each attachment was there, with its lease -/
theorem Fanout.Leased.of_lookup {f f' : Fanout} (h : f.Leased) (hlast : f'.lastLease = f.lastLease)
    (hback : ∀ id d, f'.attachments.lookup id = some d →
      ∃ c, f.attachments.lookup id = some c ∧ d.lease = c.lease ∧ (c.Paceable → d.Paceable)) : f'.Leased where
  leases := fun id d hd => by
    obtain ⟨c, hc, hlease, -⟩ := hback id d hd
    rw [hlast, hlease]
    exact h.leases id c hc
  distinct := fun id id' d d' hd hd' heq => by
    obtain ⟨c, hc, hlease, -⟩ := hback id d hd
    obtain ⟨c', hc', hlease', -⟩ := hback id' d' hd'
    exact h.distinct id id' c c' hc hc' (by rw [← hlease, heq, hlease'])
  paceable := fun id d hd => by
    obtain ⟨c, hc, -, hpaceable⟩ := hback id d hd
    exact hpaceable (h.paceable id c hc)

namespace Session

structure Sound (origin : ℕ) (s : Session) : Prop where
  chained : Chained origin s.log s.history.latest
  retained : s.history.events <:+ s.log
  ring : s.fanout.ring.Sound s.log
  attaching : ∀ a, s.attaching = some a →
    (∃ k, Chained k a.remaining s.history.latest) ∧ (∀ e ∈ a.remaining, TailOf s.log e) ∧
      ∃ c, s.fanout.attachments.lookup a.attachmentID = some c ∧ c.state = .attached ∧ c.receiveOutput = true
  placed : ∀ id c, s.fanout.attachments.lookup id = some c → c.state = .attached →
    Placed s.log s.fanout.ring s.history.latest (pending s.attaching id) c (s.trace c.lease)
  leased : s.fanout.Leased
  fresh : ∀ lease, s.fanout.lastLease < lease → s.trace lease = []
  follows : ∀ lease, Reading.Follows (tape origin s.log) (s.trace lease)

/-- the invariant after an operation, and an answer that is not about the order -/
def Keeps (origin : ℕ) (act : Answer × Session) : Prop := act.1.outOfOrder = false ∧ Sound origin act.2

variable {origin n now maxBytes : ℕ} {s : Session} {f f' : Fanout} {id : String} {c c' : AttachmentCursor}
    {event : Event}

/-! ## How the fanout changes -/

theorem Sound.frees (h : Sound origin s) (hfrees : Frees s.log s.fanout f') : Sound origin { s with fanout := f' } where
  chained := h.chained
  retained := h.retained
  ring := hfrees.sound h.ring
  attaching := fun a ha => by
    obtain ⟨hchained, htails, c, hlookup, hc⟩ := h.attaching a ha
    exact ⟨hchained, htails, c, by rw [hfrees.attachments]; exact hlookup, hc⟩
  placed := fun id c hlookup hattached => by
    rw [hfrees.attachments] at hlookup
    refine (h.placed id c hlookup hattached).ring_congr fun hc k hk => ?_
    exact hfrees.keeps hlookup (by simp [holds, hattached, hc]) hk
  leased := h.leased.of_lookup hfrees.lastLease fun id c hc => ⟨c, by rwa [hfrees.attachments] at hc, rfl, fun h => h⟩
  fresh := fun lease hlease => h.fresh lease (by rwa [hfrees.lastLease] at hlease)
  follows := h.follows

theorem trace_note (s : Session) (lease lease' : ℕ) (rs : List Seen) :
    (rs.map (fun r => (lease, r)) ++ s.seen).filterMap (fun p => if p.1 = lease' then some p.2 else none) =
      if lease = lease' then rs ++ s.trace lease' else s.trace lease' := by
  rw [List.filterMap_append]
  split_ifs with h
  · subst h
    simp [trace, List.filterMap_map]
  · have hnil : (rs.map fun r => (lease, r)).filterMap (fun p => if p.1 = lease' then some p.2 else none) = [] := by
      simp [List.filterMap_map, h]
    rw [hnil]
    rfl

/-- the fanout differs in the cursor of one attachment -/
structure Rewrites (f : Fanout) (id : String) (c' : AttachmentCursor) (f' : Fanout) : Prop where
  ring : f'.ring = f.ring
  lastLease : f'.lastLease = f.lastLease
  lookup : ∀ j, f'.attachments.lookup j = if j = id then some c' else f.attachments.lookup j

theorem rewrites_set (f : Fanout) (id : String) (c' : AttachmentCursor) : Rewrites f id c' (f.set id c') :=
  ⟨rfl, rfl, fun _ => Index.lookup_insert_if _ _ _ _⟩

theorem rewrites_self (f : Fanout) (hlookup : f.attachments.lookup id = some c) : Rewrites f id c f :=
  ⟨rfl, rfl, fun j => by
    split_ifs with hj
    · rw [hj, hlookup]
    · rfl⟩

theorem note_nil {rs : AttachmentCursor → List Seen} (h : ∀ c, rs c = []) : s.note id rs = s.seen := by
  unfold note
  split
  · rfl
  · rw [h]
    rfl

/-- a read finds an attached cursor, or fails -/
theorem reader_cases (f : Fanout) (id : String) (lease : ℕ) :
    (∃ err, f.reader id lease = .error err ∧ err ≠ .outputOrder ∧ err ≠ .attachmentLagged) ∨
      ∃ c, f.reader id lease = .ok c ∧ f.attachments.lookup id = some c ∧ c.state = .attached := by
  unfold reader
  cases hlookup : f.attachments.lookup id with
  | none => exact .inl ⟨_, rfl, by simp, by simp⟩
  | some c =>
    dsimp only
    split_ifs with hlease hevicted hattached
    · exact .inl ⟨_, rfl, by simp, by simp⟩
    · exact .inl ⟨_, rfl, by simp, by simp⟩
    · exact .inl ⟨_, rfl, by simp, by simp⟩
    · exact .inr ⟨c, rfl, rfl, not_not.1 hattached⟩

theorem lookup_advance : (f.advance id c n now).attachments.lookup id = some (c.drained n now) := by
  unfold advance
  rw [(compactAfterAdvanceLocked_frees [] _ _).attachments]
  exact AList.lookup_insert _

theorem pending_of_none (hfree : s.attaching = none) (id : String) : pending s.attaching id = 0 := by
  rw [hfree]
  rfl

/-- a screen at the end of the output moves the cursor there, and frees what that allows -/
theorem skipTo_frees (log : List Event) (hlookup : f.attachments.lookup id = some c) (hattached : c.state = .attached)
    (hinside : c.receiveOutput = true → c.hasCursor = true → c.cursor ≤ n ∧ c.enqueuedEnd = n) :
    ∃ f', f.skipTo id n = .ok f' ∧
      Frees log (f.set id (c.moved n)) f' := by
  unfold skipTo
  rw [hlookup]
  dsimp only
  rw [if_neg (not_not.2 hattached)]
  by_cases hreceives : c.receiveOutput = true
  · rw [if_neg (by simp [hreceives])]
    by_cases hc : c.hasCursor = true
    · obtain ⟨hlow, hend⟩ := hinside hreceives hc
      rw [if_neg (by omega), if_pos hc, if_pos hc, hend, Nat.sub_self]
      exact ⟨_, rfl, compactAfterAdvanceLocked_frees _ _ _⟩
    · rw [if_neg (fun h => hc h.1), if_neg hc, if_neg hc, Nat.sub_self]
      exact ⟨_, rfl, compactLocked_frees _ _⟩
  · rw [if_pos (by simpa using hreceives)]
    exact ⟨_, rfl, compactLocked_frees _ _⟩

section

variable (h : Sound origin s)
include h

section

variable (rs : List Seen) (hlookup : s.fanout.attachments.lookup id = some c) (hwrites : Rewrites s.fanout id c' f')
  (hlease : c'.lease = c.lease) (hattached : c'.state = .attached) (hpaceable : c.Paceable → c'.Paceable)
include hlookup hwrites hlease hattached hpaceable

/-- the cursor of one attachment changes, its reader goes through `rs`, and the attach under way goes on -/
theorem Sound.update_attaching {attaching : Option Attaching}
    (hpending : ∀ j, j ≠ id → pending attaching j = pending s.attaching j)
    (hattaching : ∀ a, attaching = some a → (∃ k, Chained k a.remaining s.history.latest) ∧
      (∀ e ∈ a.remaining, TailOf s.log e) ∧ (a.attachmentID = id ∧ c'.receiveOutput = true ∨
        a.attachmentID ≠ id ∧ s.attaching = some a))
    (hplaced : Placed s.log s.fanout.ring s.history.latest (pending attaching id) c' (rs ++ s.trace c.lease))
    (hfollows : Reading.Follows (tape origin s.log) (rs ++ s.trace c.lease)) :
    Sound origin { s with fanout := f', attaching, seen := rs.map (fun r => (c.lease, r)) ++ s.seen } where
  chained := h.chained
  retained := h.retained
  ring := by
    change f'.ring.Sound s.log
    rw [hwrites.ring]
    exact h.ring
  attaching := fun a ha => by
    obtain ⟨hchained, htails, ⟨hid, hreceives⟩ | ⟨hid, hbefore⟩⟩ := hattaching a ha
    · exact ⟨hchained, htails, c', by rw [hwrites.lookup, if_pos hid], hattached, hreceives⟩
    · obtain ⟨-, -, c₀, hlookup₀, hc₀⟩ := h.attaching a hbefore
      exact ⟨hchained, htails, c₀, by rw [hwrites.lookup, if_neg hid, hlookup₀], hc₀⟩
  placed := fun j d hj hd => by
    rw [hwrites.lookup] at hj
    change Placed _ f'.ring _ _ d (List.filterMap _ _)
    rw [trace_note, hwrites.ring]
    split_ifs at hj with hjid
    · cases hj
      rw [if_pos hlease.symm, hjid, hlease]
      exact hplaced
    · have hne : c.lease ≠ d.lease := fun heq => hjid (h.leased.distinct _ _ _ _ hlookup hj heq).symm
      rw [if_neg hne, hpending j hjid]
      exact h.placed j d hj hd
  leased := h.leased.of_lookup hwrites.lastLease fun j d hj => by
    rw [hwrites.lookup] at hj
    split_ifs at hj with hjid
    · cases hj
      exact ⟨c, hjid ▸ hlookup, hlease, hpaceable⟩
    · exact ⟨d, hj, rfl, fun h => h⟩
  fresh := fun lease hlt => by
    rw [hwrites.lastLease] at hlt
    have hle := h.leased.leases id c hlookup
    have hne : c.lease ≠ lease := by omega
    change List.filterMap _ _ = []
    rw [trace_note, if_neg hne]
    exact h.fresh lease hlt
  follows := fun lease => by
    change Reading.Follows _ (List.filterMap _ _)
    rw [trace_note]
    split_ifs with heq
    · rw [← heq]
      exact hfollows
    · exact h.follows lease

/-- the cursor of one attachment changes, and its reader goes through `rs` -/
theorem Sound.update (hreceives : c'.receiveOutput = c.receiveOutput)
    (hplaced : Placed s.log s.fanout.ring s.history.latest (pending s.attaching id) c' (rs ++ s.trace c.lease))
    (hfollows : Reading.Follows (tape origin s.log) (rs ++ s.trace c.lease)) :
    Sound origin { s with fanout := f', seen := rs.map (fun r => (c.lease, r)) ++ s.seen } := by
  refine h.update_attaching rs hlookup hwrites hlease hattached hpaceable (fun _ _ => rfl)
    (fun a ha => ?_) hplaced hfollows
  obtain ⟨hchained, htails, c₀, hlookup₀, -, hreceives₀⟩ := h.attaching a ha
  refine ⟨hchained, htails, ?_⟩
  by_cases hid : a.attachmentID = id
  · rw [hid, hlookup] at hlookup₀
    cases hlookup₀
    exact .inl ⟨hid, hreceives.trans hreceives₀⟩
  · exact .inr ⟨hid, ha⟩

end

/-! ## Reads -/

/-- the places a reader can be moved to -/
theorem Sound.has_nil {lease : ℕ} (hstarted : s.trace lease ≠ []) (hlow : position (s.trace lease) ≤ n)
    (hhigh : n ≤ s.history.latest) : (tape origin s.log).Has n [] := by
  obtain ⟨pre, post, -, hplace⟩ := (h.follows lease).ahead hstarted
  refine Tape.has_nil ?_ (h.chained.stop ▸ hhigh)
  omega

section

variable (hlookup : s.fanout.attachments.lookup id = some c)
include hlookup

omit h in
theorem note_some {rs : AttachmentCursor → List Seen} :
    s.note id rs = (rs c).map (fun r => (c.lease, r)) ++ s.seen := by
  unfold note
  rw [hlookup]

omit h in
/-- what a read answers and shows its reader -/
theorem Keeps.note {r : Read} {rs : AttachmentCursor → List Seen} (hr : (Answer.read r).outOfOrder = false)
    (hsound : Sound origin { s with fanout := f, seen := (rs c).map (fun r => (c.lease, r)) ++ s.seen }) :
    Keeps origin (.read r, { s with fanout := f, seen := s.note id rs }) := by
  refine ⟨hr, ?_⟩
  rw [note_some hlookup]
  exact hsound

omit hlookup in
/-- a read that finds no cursor -/
theorem Sound.failed {err : FanoutError} (horder : err ≠ .outputOrder) {rs : AttachmentCursor → List Seen}
    (hrs : ∀ c, rs c = []) :
    Keeps origin (.read (.failed err), { s with seen := s.note id rs }) := by
  rw [note_nil hrs]
  refine ⟨?_, h⟩
  cases err <;> first | rfl | exact absurd rfl horder

variable (hattached : c.state = .attached)
include hattached

/-- a read that reports a lag -/
theorem Sound.report (hlagged : c.lagged = true) :
    Sound origin
      { s with
        fanout := s.fanout.set id { c with lagged := false }
        seen := [Reading.jumped Jump.lagged c.cursor].map (fun r => (c.lease, r)) ++ s.seen } := by
  have hplaced := h.placed id c hlookup hattached
  have hreported := hplaced.reported hlagged
  have hc : c.hasCursor = true := by
    by_contra hc
    have := (hplaced.fresh (by simpa using hc)).2.1
    simp [this] at hlagged
  have hle := (hplaced.place hc).1
  exact h.update [_] hlookup (rewrites_set _ _ _) rfl hattached (fun h => h) rfl hreported
    ⟨⟨hplaced.started, hle, h.has_nil hplaced.started hle hreported.behind⟩, h.follows c.lease⟩

/-- a read or a confirmation that moves the cursor, and the reader to the same place -/
theorem Sound.advance (hc : c.hasCursor = true) (hlow : c.cursor ≤ n) (hhigh : n ≤ c.enqueuedEnd) {r : Seen}
    (hplace : position (r :: s.trace c.lease) = n) (hlegal : Reading.Legal (tape origin s.log) (s.trace c.lease) r) :
    Sound origin
      { s with fanout := s.fanout.advance id c n now, seen := [r].map (fun r => (c.lease, r)) ++ s.seen } := by
  have hplaced := h.placed id c hlookup hattached
  have hupdate := h.update [r] hlookup (rewrites_set _ id (c.drained n now)) rfl hattached (fun h => h) rfl
    (hplaced.drained hc hlow hhigh (List.cons_ne_nil r _) hplace) ⟨hlegal, h.follows c.lease⟩
  exact hupdate.frees (compactAfterAdvanceLocked_frees _ _ _)

omit hlookup hattached in
theorem Sound.waitNextOwned (config : Config) (id : String) : Keeps origin (s.exec config (.waitNextOwned id)) := by
  unfold exec Fanout.waitNextOwned
  rcases reader_cases s.fanout id 0 with ⟨err, hreader, horder, hlag⟩ | ⟨c, hreader, hlookup, hattached⟩
  · simp only [hreader]
    refine h.failed horder fun c => ?_
    cases err <;> first | rfl | exact absurd rfl hlag
  · simp only [hreader]
    split_ifs with hlagged hunread
    · exact .note hlookup rfl (h.report hlookup hattached hlagged)
    · simp only [Bool.and_eq_true, decide_eq_true_eq] at hunread
      obtain ⟨hc, hunread⟩ := hunread
      have hplaced := h.placed id c hlookup hattached
      obtain ⟨e, hfound, htail, hlow, hhigh⟩ := hplaced.event_at h.chained h.ring hc hunread
      simp only [hfound]
      have hplace := (hplaced.place hc).2 (by simpa using hlagged)
      have hsized := (htail.sized h.chained).2.1
      refine .note hlookup rfl (h.advance hlookup hattached hc hlow.le hhigh ?_ ⟨hplaced.started,
        hplace.symm, htail.has h.chained⟩)
      change c.cursor + (e.trim c.cursor).content.length = e.endSequence
      rw [Event.length_content]
      exact hsized.symm
    · exact .note hlookup rfl h

/-- the event at the cursor is shown to the reader and stays -/
theorem Sound.peek (hlagged : c.lagged = false) (hc : c.hasCursor = true) (hunread : c.cursor < c.enqueuedEnd) :
    ∃ e, s.fanout.ring.eventAtLocked c.cursor = some e ∧
      Sound origin
        { s with
          seen := [Reading.shown c.cursor (e.trim c.cursor).content].map (fun r => (c.lease, r)) ++ s.seen } := by
  have hplaced := h.placed id c hlookup hattached
  obtain ⟨e, hfound, htail, -, -⟩ := hplaced.event_at h.chained h.ring hc hunread
  refine ⟨e, hfound, h.update [_] hlookup (rewrites_self _ hlookup) rfl hattached (fun h => h) rfl (hplaced.shown _ _)
    ⟨?_, h.follows c.lease⟩⟩
  exact ⟨hplaced.started, ((hplaced.place hc).2 hlagged).symm, htail.has h.chained⟩

/-- a confirmation moves the reader to the confirmed place -/
theorem Sound.confirm (now : ℕ) (hconfirms : c.confirms n = true) :
    Sound origin
      { s with
        fanout := s.fanout.advance id c n now
        seen := [Reading.confirmed n].map (fun r => (c.lease, r)) ++ s.seen } := by
  simp only [confirms, Bool.and_eq_true, decide_eq_true_eq] at hconfirms
  obtain ⟨⟨hc, hlow⟩, hhigh⟩ := hconfirms
  have hplaced := h.placed id c hlookup hattached
  have hplace := (hplaced.place hc).1
  have hends := (hplaced.ends hc).1
  exact h.advance hlookup hattached hc hlow.le hhigh rfl
    ⟨hplaced.started, by omega, h.has_nil hplaced.started (by omega) (by omega)⟩

end

variable (config : Config)

theorem Sound.waitNextFrom (id : String) (fromSequence lease : ℕ) :
    Keeps origin (s.exec config (.waitNextFrom id fromSequence lease)) := by
  unfold exec waitNextFromLease
  rcases reader_cases s.fanout id lease with ⟨err, hreader, horder, hlag⟩ | ⟨c, hreader, hlookup, hattached⟩
  · simp only [hreader]
    refine h.failed horder fun c => ?_
    cases err <;> first | rfl | exact absurd rfl hlag
  · simp only [hreader]
    by_cases hlagged : c.lagged = true
    · simp only [hlagged, if_true]
      exact .note hlookup rfl (h.report hlookup hattached hlagged)
    · have hlagged : c.lagged = false := by simpa using hlagged
      simp only [hlagged, Bool.false_eq_true, if_false]
      by_cases hconfirms : c.confirms fromSequence = true
      · -- the cursor moves first, then the event at its new place is shown
        have hconfirmed := h.confirm hlookup hattached s.now hconfirms
        simp only [hconfirms, if_true]
        have hc : c.hasCursor = true := by
          simp only [confirms, Bool.and_eq_true] at hconfirms
          exact hconfirms.1.1
        by_cases hunread : fromSequence < c.enqueuedEnd
        · obtain ⟨e, hfound, hsound⟩ := hconfirmed.peek lookup_advance hattached hlagged hc hunread
          change (s.fanout.advance id c fromSequence s.now).ring.eventAtLocked fromSequence = some e at hfound
          simp only [hc, hunread, decide_true, Bool.and_self, if_true, hfound]
          refine .note hlookup rfl ?_
          simp only [seenFrom, hconfirms, if_true]
          exact hsound
        · simp only [hunread, decide_false, Bool.and_false, Bool.false_eq_true, if_false]
          refine .note hlookup rfl ?_
          simpa only [seenFrom, hconfirms, if_true] using hconfirmed
      · simp only [hconfirms, Bool.false_eq_true, if_false]
        by_cases hunread : c.hasCursor = true ∧ c.cursor < c.enqueuedEnd
        · obtain ⟨e, hfound, hsound⟩ := h.peek hlookup hattached hlagged hunread.1 hunread.2
          simp only [hunread.1, hunread.2, decide_true, Bool.and_self, if_true, hfound]
          refine .note hlookup rfl ?_
          simp only [seenFrom, hconfirms, Bool.false_eq_true, if_false]
          exact hsound
        · have hnone : (c.hasCursor && decide (c.cursor < c.enqueuedEnd)) = false := by
            simpa using hunread
          simp only [hnone, Bool.false_eq_true, if_false]
          refine .note hlookup rfl ?_
          simp only [seenFrom, hconfirms, Bool.false_eq_true, if_false]
          exact h

/-! ## What needs the session lock -/

theorem Sound.keeps_locked {act : Answer × Session} (hact : s.attaching = none → Keeps origin act) :
    Keeps origin (s.locked act) := by
  unfold locked
  split_ifs with hheld
  · exact ⟨rfl, h⟩
  · exact hact (Option.not_isSome_iff_eq_none.1 hheld)

theorem Sound.skipTo (id : String) : Keeps origin (s.exec config (.skipTo id)) := by
  refine h.keeps_locked fun hfree => ?_
  cases hlookup : s.fanout.attachments.lookup id with
  | none =>
    simp only [Fanout.skipTo, hlookup]
    exact ⟨rfl, h⟩
  | some c =>
    by_cases hattached : c.state = .attached
    · have hplaced := h.placed id c hlookup hattached
      have hpending := pending_of_none hfree id
      have hinside : c.receiveOutput = true → c.hasCursor = true →
          c.cursor ≤ s.history.latest ∧ c.enqueuedEnd = s.history.latest := by
        intro hreceives hc
        have hqueued := hplaced.queued hc
        have hends := (hplaced.ends hc).2 hreceives
        omega
      obtain ⟨f', hskip, hfrees⟩ := skipTo_frees s.log hlookup hattached hinside
      rw [hskip]
      refine ⟨rfl, ?_⟩
      rw [note_some hlookup]
      refine (h.update [_] hlookup (rewrites_set _ id (c.moved s.history.latest)) rfl hattached (fun h => h) rfl ?_
        ⟨?_, h.follows c.lease⟩).frees hfrees
      · rw [hpending]
        exact .skipTo h.chained
      · exact ⟨hplaced.started, hplaced.behind, h.has_nil hplaced.started hplaced.behind le_rfl⟩
    · simp only [Fanout.skipTo, hlookup, if_pos hattached]
      exact ⟨rfl, h⟩

theorem Sound.detach (id : String) : Keeps origin (s.exec config (.detach id)) := by
  refine h.keeps_locked fun hfree => ?_
  unfold Fanout.detach
  cases hlookup : s.fanout.attachments.lookup id with
  | none => exact ⟨rfl, h⟩
  | some c =>
    dsimp only
    split_ifs with hstate
    · exact ⟨rfl, h⟩
    · refine ⟨rfl, ?_⟩
      have hsub : ∀ j d, (s.fanout.attachments.erase id).lookup j = some d →
          s.fanout.attachments.lookup j = some d := by
        intro j d hj
        rw [Index.lookup_erase_if] at hj
        split_ifs at hj
        exact hj
      have herased : Sound origin { s with fanout := { s.fanout with attachments := s.fanout.attachments.erase id } } :=
        { h with
          attaching := fun a ha => nomatch hfree.symm.trans ha
          placed := fun j d hj => h.placed j d (hsub j d hj)
          leased := h.leased.of_lookup rfl fun j d hj => ⟨d, hsub j d hj, rfl, fun h => h⟩ }
      exact herased.frees (Fanout.compactLocked_frees _ _)

end

/-- only who paces the program changes -/
structure Repaces (f f' : Fanout) : Prop where
  ring : f'.ring = f.ring
  lastLease : f'.lastLease = f.lastLease
  lookup : ∀ j, Option.Rel (fun c d => (c.Paceable → d.Paceable) ∧
    ∃ backpressure progressAt, d = { c with backpressure, progressAt })
      (f.attachments.lookup j) (f'.attachments.lookup j)

/-- the controller is an attachment that may pace the program -/
theorem setController_repaces (f : Fanout) (id : String) (now : ℕ) : Repaces f (f.setController id now) := by
  have hmap : Repaces f
      { f with attachments := Table.map (fun c => { c with backpressure := false }) f.attachments } := by
    refine ⟨rfl, rfl, fun j => ?_⟩
    rw [Table.lookup_map]
    cases f.attachments.lookup j with
    | none => exact .none
    | some c => exact .some ⟨fun h => ⟨nofun, h.2⟩, _, _, rfl⟩
  unfold Fanout.setController
  cases hlookup : f.attachments.lookup id with
  | none => exact hmap
  | some target =>
    dsimp only
    split_ifs with hpaces howner
    · refine ⟨rfl, rfl, fun j => ?_⟩
      cases f.attachments.lookup j with
      | none => exact .none
      | some c => exact .some ⟨fun h => h, _, _, rfl⟩
    · refine ⟨rfl, rfl, fun j => ?_⟩
      simp only [Fanout.set, Index.lookup_insert_if]
      split_ifs with hj
      · rw [hj, hlookup]
        exact .some ⟨fun h => ⟨fun _ => howner.2, h.2⟩, _, _, rfl⟩
      · exact hmap.lookup j
    · exact hmap

theorem Sound.repaced (h : Sound origin s) (hrepaces : Repaces s.fanout f') : Sound origin { s with fanout := f' } := by
  have hback : ∀ j d, f'.attachments.lookup j = some d → ∃ c, s.fanout.attachments.lookup j = some c ∧
      (c.Paceable → d.Paceable) ∧ ∃ backpressure progressAt, d = { c with backpressure, progressAt } := by
    intro j d hj
    have hrel := hrepaces.lookup j
    rw [hj] at hrel
    generalize s.fanout.attachments.lookup j = before at hrel ⊢
    cases hrel with
    | some hrel => exact ⟨_, rfl, hrel⟩
  refine { h with ring := ?_, attaching := fun a ha => ?_, placed := fun j d hj hd => ?_, leased := ?_,
                  fresh := fun lease hlt => h.fresh lease (by rwa [hrepaces.lastLease] at hlt) }
  · rw [hrepaces.ring]
    exact h.ring
  · obtain ⟨hchained, htails, c, hlookup, hattached, hreceives⟩ := h.attaching a ha
    have hrel := hrepaces.lookup a.attachmentID
    rw [hlookup] at hrel
    generalize f'.attachments.lookup a.attachmentID = after at hrel ⊢
    cases hrel with
    | some hrel =>
      obtain ⟨-, backpressure, progressAt, rfl⟩ := hrel
      exact ⟨hchained, htails, _, rfl, hattached, hreceives⟩
  · obtain ⟨c, hc, -, backpressure, progressAt, rfl⟩ := hback j d hj
    rw [hrepaces.ring]
    exact (h.placed j c hc hd).repaced _ _ _
  · refine h.leased.of_lookup hrepaces.lastLease fun j d hj => ?_
    obtain ⟨c, hc, hpaceable, backpressure, progressAt, rfl⟩ := hback j d hj
    exact ⟨c, hc, rfl, hpaceable⟩

theorem Sound.cleared (h : Sound origin s) (hfree : s.attaching = none) :
    Sound origin { s with history := s.history.clear } :=
  { h with
    retained := List.nil_suffix
    attaching := fun a ha => absurd (hfree.symm.trans ha) (by simp) }

/-! ## Output -/

theorem publishOwned_ok (hvalid : validOutputEvent event = true)
    (hnext : ∀ id c, f.attachments.lookup id = some c → c.state = .attached → c.receiveOutput = true →
      c.hasCursor = true → c.enqueuedEnd = event.startSequence) :
    f.publishOwned event = .ok (f.evictions event, (f.spread event).compactLocked) := by
  have hnone :
      (f.cursors.any fun c => c.receives && c.hasCursor && decide (c.enqueuedEnd ≠ event.startSequence)) = false := by
    rw [List.any_eq_false]
    intro c hc
    obtain ⟨id, hlookup⟩ := mem_cursors.1 hc
    simp only [receives, Bool.and_eq_true, decide_eq_true_eq]
    rintro ⟨⟨⟨hattached, hreceives⟩, hcursor⟩, hne⟩
    exact hne (hnext id c hlookup hattached hreceives hcursor)
  unfold publishOwned
  rw [if_neg (by simp [hvalid]), if_neg (by simp only [hnone, Bool.false_eq_true, not_false_eq_true])]

theorem publish_lease (event : Event) (c : AttachmentCursor) : (c.publish event).lease = c.lease := by
  unfold AttachmentCursor.publish
  split_ifs <;> rfl

variable {c : AttachmentCursor}

theorem publish_paceable (event : Event) (h : c.Paceable) : (c.publish event).Paceable := by
  unfold AttachmentCursor.publish
  split_ifs <;> exact h

theorem publish_attached (h : (c.publish event).state = .attached) : c.state = .attached := by
  unfold AttachmentCursor.publish at h
  split_ifs at h
  · exact h
  · exact h
  · cases h
  · exact h

theorem lookup_spread {id : String} {d : AttachmentCursor} (hlookup : (f.spread event).attachments.lookup id = some d) :
    ∃ c, f.attachments.lookup id = some c ∧ c.publish event = d := by
  rw [spread, Table.lookup_map] at hlookup
  exact Option.map_eq_some_iff.1 hlookup

/-- while no attach is under way nothing is pending -/
theorem Sound.placed_free (h : Sound origin s) (hfree : s.attaching = none)
    (hlookup : s.fanout.attachments.lookup id = some c) (hattached : c.state = .attached) :
    Placed s.log s.fanout.ring s.history.latest 0 c (s.trace c.lease) := by
  have hplaced := h.placed id c hlookup hattached
  rwa [pending_of_none hfree] at hplaced

/-- the event of an append is spread -/
theorem Sound.spread (h : Sound origin s) (hfree : s.attaching = none) {history : History}
    (hstart : event.startSequence = s.history.latest) (hend : event.endSequence = s.history.latest + event.data.length)
    (hne : event.data ≠ []) (hlatest : history.latest = event.endSequence)
    (hretained : history.events <:+ s.history.events ++ [event]) :
    Sound origin { s with history, log := s.log ++ [event], fanout := s.fanout.spread event } := by
  have hlength : 0 < event.data.length := List.length_pos_iff.2 hne
  have hlog : Chained origin (s.log ++ [event]) event.endSequence := h.chained.append ⟨hstart, by omega, rfl⟩
  have htail : TailOf (s.log ++ [event]) event := ⟨event, by simp, le_rfl, by omega, by simp [Event.trim]⟩
  have hinserted := Ring.insertEventLocked_spec hlog (h.ring.mono (List.subset_append_left _ _)) htail
  exact
    { chained := by rw [hlatest]; exact hlog
      retained := by
        obtain ⟨front, hfront⟩ := h.retained
        refine hretained.trans ⟨front, ?_⟩
        rw [← List.append_assoc, hfront]
      ring := hinserted.sound
      attaching := fun a ha => absurd (hfree.symm.trans ha) (Option.some_ne_none a).symm
      placed := fun j d hj hd => by
        obtain ⟨c, hc, rfl⟩ := lookup_spread hj
        have hattached := publish_attached hd
        rw [pending_of_none hfree, hlatest, publish_lease]
        exact (h.placed_free hfree hc hattached).publish h.chained hstart hend hne hinserted hattached hd
      leased := h.leased.of_lookup rfl fun j d hj => by
        obtain ⟨c, hc, rfl⟩ := lookup_spread hj
        exact ⟨c, hc, publish_lease event c, publish_paceable event⟩
      fresh := h.fresh
      follows := fun lease => by
        rw [tape_snoc]
        exact (h.follows lease).extend event.content }

/-- what an append and its publication come to, when there are numbers left for the bytes -/
structure Published (origin : ℕ) (s : Session) (channel : UInt8) (data : Bytes) (history : History) : Prop where
  eq : s.publish channel data = (.published (s.fanout.evictions (s.history.next channel data)),
    { s with
      history, log := s.log ++ [s.history.next channel data]
      fanout := (s.fanout.spread (s.history.next channel data)).compactLocked })
  latest : history.latest = s.history.latest + data.length
  spread : Sound origin
    { s with
      history, log := s.log ++ [s.history.next channel data]
      fanout := s.fanout.spread (s.history.next channel data) }

section

variable (h : Sound origin s) (hfree : s.attaching = none) (channel : UInt8)
include h hfree

/-- **An append and its publication.** The queue of every attachment that is fed ends where the output ended, so the
event is in order. -/
theorem Sound.published {data : Bytes} (hne : data ≠ []) :
    (data.length > maxSequence - s.history.latest ∧ s.publish channel data = (.refused .sequenceFull, s)) ∨
      (data.length ≤ maxSequence - s.history.latest ∧ ∃ history, Published origin s channel data history) := by
  unfold Session.publish
  cases happend : s.history.appendOwned channel data with
  | error err =>
    left
    unfold History.appendOwned at happend
    rw [if_neg (by simpa using hne)] at happend
    split_ifs at happend with hfull
    cases happend
    exact ⟨hfull, rfl⟩
  | ok result =>
    right
    obtain ⟨event, history⟩ := result
    obtain ⟨hevent, hlatest, hretained⟩ := History.appendOwned_spec hne happend
    have hroom : data.length ≤ maxSequence - s.history.latest := by
      unfold History.appendOwned at happend
      rw [if_neg (by simpa using hne)] at happend
      split_ifs at happend with hfull
      exact not_lt.1 hfull
    subst hevent
    have hvalid : validOutputEvent (s.history.next channel data) = true := by
      simp [validOutputEvent, History.next, hne]
    refine ⟨hroom, history, ?_, hlatest, h.spread hfree rfl rfl hne hlatest hretained⟩
    unfold Session.publish
    simp only [happend]
    rw [publishOwned_ok hvalid fun id c hlookup hattached hreceives hc =>
      ((h.placed_free hfree hlookup hattached).ends hc).2 hreceives]

theorem Sound.publish {data : Bytes} (hne : data ≠ []) : Keeps origin (s.publish channel data) := by
  rcases h.published hfree channel hne with ⟨-, hrefused⟩ | ⟨-, history, hpublished⟩
  · rw [hrefused]
    exact ⟨rfl, h⟩
  · rw [hpublished.eq]
    exact ⟨rfl, hpublished.spread.frees (compactLocked_frees _ _)⟩

end

/-! ## Attaching -/

/-- a new attachment, with nothing queued and the next lease -/
structure Attached (f : Fanout) (id : String) (maxBytes : ℕ) (receiveOutput : Bool) (c : AttachmentCursor)
    (f' : Fanout) : Prop where
  ring : f'.ring = f.ring
  lastLease : f'.lastLease = f.lastLease + 1
  lookup : ∀ j, f'.attachments.lookup j = if j = id then some c else f.attachments.lookup j
  lease : c.lease = f.lastLease + 1
  state : c.state = .attached
  receives : c.receiveOutput = receiveOutput
  limit : c.maxBytes = maxBytes
  queued : c.queuedBytes = 0
  hasCursor : c.hasCursor = false
  lagged : c.lagged = false
  paceable : c.Paceable

theorem attach_spec {receiveOutput : Bool}
    (hattach : f.attach id maxBytes receiveOutput now = .ok f') : ∃ c, Attached f id maxBytes receiveOutput c f' := by
  unfold attach at hattach
  split_ifs at hattach
  cases hattach
  refine ⟨_, rfl, rfl, fun j => Index.lookup_insert_if _ _ _ _, rfl, rfl, rfl, rfl, rfl, rfl, rfl, ?_⟩
  exact ⟨nofun, nofun⟩

theorem attachBackpressured_spec (hattach : f.attachBackpressured id maxBytes now = .ok f') :
    ∃ c, Attached f id maxBytes true c f' := by
  unfold attachBackpressured at hattach
  cases hplain : f.attach id maxBytes true now with
  | error err =>
    rw [hplain] at hattach
    cases hattach
  | ok f₁ =>
    obtain ⟨c, hc⟩ := attach_spec hplain
    rw [hplain] at hattach
    have hlookup : f₁.attachments.lookup id = some c := by rw [hc.lookup, if_pos rfl]
    simp only [hlookup] at hattach
    cases hattach
    refine ⟨{ c with owner := true }, hc.ring, hc.lastLease, fun j => ?_, hc.lease, hc.state,
      hc.receives, hc.limit, hc.queued, hc.hasCursor, hc.lagged, fun _ => rfl, fun _ => hc.receives⟩
    change (f₁.attachments.insert id _).lookup j = _
    rw [Index.lookup_insert_if]
    split_ifs with hj
    · rfl
    · rw [hc.lookup, if_neg hj]

theorem attachmentReplayLimit_pos (n : ℕ) : 0 < attachmentReplayLimit n := by
  unfold attachmentReplayLimit initialReplayBytes
  dsimp only
  split_ifs <;> omega

theorem attachmentReplayLimit_le (hn : 0 < n) : attachmentReplayLimit n ≤ n := by
  unfold attachmentReplayLimit initialReplayBytes
  dsimp only
  split_ifs <;> omega

/-- the pending part of an attach that has just begun is its replay -/
theorem pending_replay (id : String) (events : List Event) :
    pending (if events = [] then none else some ⟨id, events⟩) id = total events := by
  split_ifs with hnil
  · rw [hnil]
    rfl
  · simp [pending]

section

variable (h : Sound origin s)
include h

/-- an attachment is added, and its reader begins -/
theorem Sound.attached (hfree : s.attaching = none) {receiveOutput : Bool}
    (hc : Attached s.fanout id maxBytes receiveOutput c f') {data : List (UInt8 × UInt8)} {attaching : Option Attaching}
    (hothers : ∀ j, j ≠ id → pending attaching j = 0)
    (hattaching : ∀ a, attaching = some a → (∃ k, Chained k a.remaining s.history.latest) ∧
      (∀ e ∈ a.remaining, TailOf s.log e) ∧ a.attachmentID = id ∧ receiveOutput = true)
    (hbehind : n ≤ s.history.latest) (hfits : pending attaching id ≤ maxBytes)
    (hplace : receiveOutput = true → n + pending attaching id = s.history.latest)
    (hhas : (tape origin s.log).Has n data) :
    Sound origin { s with fanout := f', attaching, seen := (f'.lastLease, .started n data) :: s.seen } := by
  have hnew : s.trace (s.fanout.lastLease + 1) = [] := h.fresh _ (Nat.lt_succ_self _)
  have htrace : ∀ lease, ({ s with fanout := f', attaching, seen := (f'.lastLease, .started n data) :: s.seen } :
      Session).trace lease = if lease = s.fanout.lastLease + 1 then [.started n data] else s.trace lease := by
    intro lease
    change List.filterMap _ ([Reading.started n data].map (fun r => (f'.lastLease, r)) ++ s.seen) = _
    rw [trace_note, hc.lastLease]
    by_cases hlease : s.fanout.lastLease + 1 = lease
    · rw [if_pos hlease, if_pos hlease.symm, ← hlease, hnew]
      rfl
    · rw [if_neg hlease, if_neg (Ne.symm hlease)]
  have hold : ∀ j d, s.fanout.attachments.lookup j = some d → d.lease ≠ s.fanout.lastLease + 1 := by
    intro j d hj
    have := h.leased.leases j d hj
    omega
  refine { chained := h.chained, retained := h.retained, ring := ?_, attaching := fun a ha => ?_,
           placed := fun j d hj hd => ?_, fresh := fun lease hlt => ?_, follows := fun lease => ?_,
           leased := ⟨fun j d hj => ?_, fun j j' d d' hj hj' heq => ?_, fun j d hj => ?_⟩ }
  · rw [hc.ring]
    exact h.ring
  · obtain ⟨hchained, htails, hid, hreceives⟩ := hattaching a ha
    exact ⟨hchained, htails, c, by rw [hid, hc.lookup, if_pos rfl], hc.state, hc.receives.trans hreceives⟩
  · rw [hc.lookup] at hj
    rw [htrace]
    rw [hc.ring]
    split_ifs at hj with hjid
    · cases hj
      rw [if_pos hc.lease, hjid]
      have hfalse : c.hasCursor ≠ true := by simp [hc.hasCursor]
      refine ⟨by simp, hbehind, by rw [hc.queued, hc.limit, Nat.zero_add]; exact hfits,
        fun _ => ⟨hc.queued, hc.lagged, fun hreceives => ?_⟩,
        fun h => absurd h hfalse, fun h => absurd h hfalse, fun h => absurd h hfalse, fun h => absurd h hfalse,
        fun h => absurd h hfalse⟩
      exact hplace (hc.receives.symm.trans hreceives)
    · rw [if_neg (hold j d hj)]
      have hplaced := h.placed j d hj hd
      rw [pending_of_none hfree] at hplaced
      rwa [hothers j hjid]
  · rw [hc.lookup] at hj
    rw [hc.lastLease]
    split_ifs at hj with hjid
    · cases hj
      exact hc.lease.le
    · exact (h.leased.leases j d hj).trans (Nat.le_succ _)
  · rw [hc.lookup] at hj hj'
    split_ifs at hj with hjid <;> split_ifs at hj' with hjid'
    · rw [hjid, hjid']
    · cases hj
      exact absurd (heq.symm.trans hc.lease) (hold j' d' hj')
    · cases hj'
      exact absurd (heq.trans hc.lease) (hold j d hj)
    · exact h.leased.distinct j j' d d' hj hj' heq
  · rw [hc.lookup] at hj
    split_ifs at hj with hjid
    · cases hj
      exact hc.paceable
    · exact h.leased.paceable j d hj
  · rw [hc.lastLease] at hlt
    rw [htrace, if_neg (by omega)]
    exact h.fresh lease (by omega)
  · rw [htrace]
    split_ifs with hlease
    · exact ⟨⟨rfl, hhas⟩, trivial⟩
    · exact h.follows lease

/-- a replay is what the tape carries from its first sequence to the end -/
theorem Sound.has_tails (hlow : s.history.earliest ≤ n) (hhigh : n ≤ s.history.latest) :
    (tape origin s.log).Has n ((tails n s.history.events).flatMap Event.content) := by
  have hchained := tails_chained s.history.chained hhigh
  rw [max_eq_left hlow] at hchained
  have htails : ∀ e ∈ tails n s.history.events, TailOf s.log e := fun e he => (mem_tails he).mono h.retained.subset
  obtain ⟨front, hfront⟩ := h.retained
  have hlog := h.chained
  rw [← hfront] at hlog
  obtain ⟨k, hbefore, hretained⟩ := hlog.of_append
  have hk : k = s.history.earliest := by
    have := hretained.total_eq
    have := s.history.chained.total_eq
    omega
  have horigin : origin ≤ n := by
    have := hbefore.le
    omega
  -- the events follow each other on the tape
  have hall : ∀ (es : List Event) (a : ℕ), Chained a es s.history.latest → (∀ e ∈ es, TailOf s.log e) →
      origin ≤ a → (tape origin s.log).Has a (es.flatMap Event.content) := by
    intro es
    induction es with
    | nil =>
      intro a ha _ hlow
      exact Tape.has_nil hlow (by rw [h.chained.stop]; exact ha.le)
    | cons e es ih =>
      rintro a ⟨hstart, hend, hrest⟩ htails hlow
      have hfirst := (htails e List.mem_cons_self).has h.chained
      rw [hstart] at hfirst
      refine hfirst.append ?_
      rw [Event.length_content, ← hend]
      exact ih _ hrest (fun e' he' => htails e' (List.mem_cons_of_mem e he')) (by omega)
  exact hall _ n hchained htails horigin

/-- an attach that is fed begins at the first sequence of its replay -/
theorem Sound.replayed (hfree : s.attaching = none) (config : Config) {fromSequence : ℕ} {replay : Replay}
    (hreplay : s.history.attachReplay fromSequence (attachmentReplayLimit config.attachmentBytes) = .ok replay)
    (hc : Attached s.fanout id config.attachmentBytes true c f') :
    Sound origin
      { s with
        fanout := f'
        attaching := if replay.events = [] then none else some ⟨id, replay.events⟩
        seen := (f'.lastLease, .started replay.fromSequence (replay.events.flatMap Event.content)) :: s.seen } := by
  obtain ⟨hlow, hhigh, hlimit, hevents⟩ := History.attachReplay_spec (attachmentReplayLimit_pos _) hreplay
  have hchained := tails_chained s.history.chained hhigh
  rw [max_eq_left hlow, ← hevents] at hchained
  have htotal := hchained.total_eq
  refine h.attached hfree hc (fun j hj => ?_) (fun a ha => ?_) hhigh ?_ (fun _ => ?_) ?_
  · split_ifs
    · rfl
    · exact if_neg (Ne.symm hj)
  · split_ifs at ha
    cases ha
    refine ⟨⟨_, hchained⟩, fun e he => ?_, rfl, rfl⟩
    rw [hevents] at he
    exact (mem_tails he).mono h.retained.subset
  · rw [pending_replay]
    have := attachmentReplayLimit_le config.positive
    omega
  · rw [pending_replay]
    exact htotal
  · rw [hevents]
    exact h.has_tails hlow hhigh

theorem Sound.attachLocked (hfree : s.attaching = none) (config : Config) (id : String) (fromSequence : ℕ)
    (controlOnly backpressure : Bool) :
    Keeps origin (s.attachLocked config id fromSequence controlOnly backpressure) := by
  have hattachError : ∀ (receiveOutput : Bool) err,
      s.fanout.attach id config.attachmentBytes receiveOutput s.now = .error err →
        (Answer.failed err).outOfOrder = false := by
    intro receiveOutput err hattach
    unfold attach at hattach
    split_ifs at hattach <;> cases hattach <;> rfl
  unfold Session.attachLocked
  by_cases hcount : s.fanout.count ≥ config.maxAttachments
  · rw [if_pos hcount]
    exact ⟨rfl, h⟩
  rw [if_neg hcount]
  by_cases hcontrol : controlOnly = true
  · rw [if_pos hcontrol]
    cases hattach : s.fanout.attachControl id config.attachmentBytes s.now with
    | error err => exact ⟨hattachError false err hattach, h⟩
    | ok f' =>
      obtain ⟨c, hc⟩ := attach_spec hattach
      refine ⟨rfl, ?_⟩
      rw [hfree]
      refine h.attached hfree hc (fun _ _ => rfl) nofun le_rfl (Nat.zero_le _)
        nofun ?_
      exact Tape.has_nil h.chained.le (by rw [h.chained.stop])
  rw [if_neg hcontrol]
  cases hreplay : s.history.attachReplay fromSequence (attachmentReplayLimit config.attachmentBytes) with
  | error err => exact ⟨rfl, h⟩
  | ok replay =>
    cases backpressure with
    | false =>
      cases hattach : s.fanout.attach id config.attachmentBytes true s.now with
      | error err => exact ⟨hattachError true err hattach, h⟩
      | ok f' =>
        obtain ⟨c, hc⟩ := attach_spec hattach
        exact ⟨rfl, h.replayed hfree config hreplay hc⟩
    | true =>
      cases hattach : s.fanout.attachBackpressured id config.attachmentBytes s.now with
      | error err =>
        refine ⟨?_, h⟩
        unfold attachBackpressured at hattach
        cases hplain : s.fanout.attach id config.attachmentBytes true s.now with
        | error err' =>
          rw [hplain] at hattach
          cases hattach
          exact hattachError true err hplain
        | ok f' =>
          rw [hplain] at hattach
          dsimp only at hattach
          split at hattach <;> cases hattach
      | ok f' =>
        obtain ⟨c, hc⟩ := attachBackpressured_spec hattach
        exact ⟨rfl, h.replayed hfree config hreplay hc⟩

theorem Sound.inserted {ring : Ring} (hinserted : Ring.Inserted s.log s.fanout.ring event ring) :
    Sound origin { s with fanout := { s.fanout with ring } } :=
  { h with
    ring := hinserted.sound
    leased := h.leased.of_lookup rfl fun _ d hd => ⟨d, hd, rfl, fun h => h⟩
    placed := fun j d hj hd => (h.placed j d hj hd).ring_congr fun _ k _ => hinserted.keeps k }

/-- the next event of a replay is queued: it follows what was queued before, and there is room for it -/
theorem Sound.enqueue : Keeps origin s.enqueue := by
  unfold Session.enqueue
  cases hattaching : s.attaching with
  | none => exact ⟨rfl, h⟩
  | some a =>
    obtain ⟨id, remaining⟩ := a
    obtain ⟨⟨k, hchained⟩, htails, c, hlookup, hattached, hreceives⟩ := h.attaching _ hattaching
    have hpending : pending s.attaching id = total remaining := by
      rw [hattaching]
      exact if_pos rfl
    have hplaced := h.placed id c hlookup hattached
    rw [hpending] at hplaced
    cases remaining with
    | nil =>
      refine ⟨rfl, ?_⟩
      refine h.update_attaching [] hlookup (rewrites_self _ hlookup) rfl hattached (fun h => h) (fun j hj => ?_)
        nofun hplaced (h.follows c.lease)
      rw [hattaching]
      exact (if_neg (Ne.symm hj)).symm
    | cons event rest =>
      obtain ⟨hstart, hend, hrest⟩ := hchained
      have htail := htails event List.mem_cons_self
      have hsized := htail.sized h.chained
      have htotal := hrest.total_eq
      rw [total_cons] at hplaced
      have hvalid : validOutputEvent event = true := by
        simp only [validOutputEvent, Bool.and_eq_true, decide_eq_true_eq, ge_iff_le, ne_eq]
        omega
      have hnext : ¬ (c.hasCursor = true ∧ c.enqueuedEnd ≠ event.startSequence) := by
        rintro ⟨hc, hne⟩
        have := (hplaced.ends hc).2 hreceives
        omega
      have hroom : c.overflows event.data.length = false := by
        have := hplaced.fits
        simp only [overflows, decide_eq_false_iff_not]
        omega
      have hinserted := Ring.insertEventLocked_spec h.chained h.ring htail
      have henqueue : s.fanout.enqueueOwned id event =
          .ok (none, ({ s.fanout with ring := s.fanout.ring.insertEventLocked event }).set id (c.queue event)) := by
        unfold enqueueOwned
        rw [if_neg (by simp [hvalid]), hlookup]
        dsimp only
        rw [if_neg (by simp [hattached]), if_neg (not_not.2 hattached), if_neg hnext, if_neg (by simp [hroom])]
      simp only [henqueue]
      refine ⟨rfl, ?_⟩
      refine (h.inserted hinserted).update_attaching [] hlookup
        (rewrites_set _ id (c.queue event)) rfl hattached (fun h => h)
        (fun j hj => ?_) (fun a ha => ?_) ?_ (h.follows c.lease)
      · rw [hattaching]
        split_ifs
        · exact (if_neg (Ne.symm hj)).symm
        · exact (if_neg (Ne.symm hj)).trans (if_neg (Ne.symm hj)).symm
      · split_ifs at ha
        cases ha
        exact ⟨⟨_, hrest⟩, fun e he => htails e (List.mem_cons_of_mem event he), .inl ⟨rfl, hreceives⟩⟩
      · have hqueued : event.startSequence + (event.data.length + total rest) = s.history.latest := by omega
        rw [pending_replay]
        exact hplaced.queue h.chained hreceives htail hqueued hinserted.keeps hinserted.adds

/-! ## Runs -/

/-- every operation keeps the invariant, and none finds output out of order -/
theorem Sound.exec (config : Config) (op : Op) : Keeps origin (s.exec config op) := by
  cases op with
  | output data =>
    refine h.keeps_locked fun hfree => ?_
    split_ifs with hnil
    · exact ⟨rfl, h⟩
    · exact h.publish hfree 1 hnil
  | resize rows columns => exact h.keeps_locked fun hfree => h.publish hfree 2 (by simp [resizeOutput])
  | attach id fromSequence controlOnly backpressure =>
    exact h.keeps_locked fun hfree => h.attachLocked hfree config id fromSequence controlOnly backpressure
  | enqueue => exact h.enqueue
  | detach id => exact h.detach config id
  | skipTo id => exact h.skipTo config id
  | clear => exact h.keeps_locked fun hfree => ⟨rfl, h.cleared hfree⟩
  | release =>
    refine h.keeps_locked fun hfree => ⟨rfl, ?_⟩
    exact (h.cleared hfree).frees (compactLocked_frees _ _)
  | setController id => exact ⟨rfl, h.repaced (setController_repaces _ _ _)⟩
  | waitRoom size => exact ⟨rfl, h⟩
  | waitNextFrom id fromSequence lease => exact h.waitNextFrom config id fromSequence lease
  | waitNextOwned id => exact h.waitNextOwned config id
  | next id =>
    simp only [Session.exec, next_eq]
    exact h.waitNextOwned config id
  | tick d => exact ⟨rfl, h.1, h.2, h.3, h.4, h.5, h.6, h.7, h.8⟩

end

theorem Sound.start (history : History) : Sound history.earliest (start history) where
  chained := history.chained
  retained := List.suffix_rfl
  ring := .empty
  attaching := by simp [Session.start]
  placed := by simp [Session.start, new]
  leased := by constructor <;> simp [Session.start, new]
  fresh := fun _ _ => rfl
  follows := fun _ => trivial

theorem Sound.run (config : Config) (history : History) (ops : List Op) :
    Sound history.earliest (after config history ops) :=
  Machine.run_inv (step config) (Session.start history) (I := fun _ s => Sound history.earliest s) (.start history)
    (fun _ op h => (h.exec config op).2) ops

/-! ## Publications in a run -/

theorem locked_free (hfree : s.attaching = none) {act : Answer × Session} : s.locked act = act := by
  unfold locked
  rw [hfree]
  rfl

variable {evictions : List Eviction} {config : Config}

/-- the operations that publish: what is published does not depend on the attachments -/
theorem exec_published {op : Op} (hexec : (s.exec config op).1 = .published evictions) :
    ∃ channel data, data ≠ [] ∧ op.size = data.length ∧ s.attaching = none ∧
      ∀ s' : Session, s'.attaching = none → s'.exec config op = s'.publish channel data := by
  have hunlocked : ∀ {act : Answer × Session}, (s.locked act).1 = .published evictions → s.attaching = none ∧
      act.1 = .published evictions := by
    intro act hact
    unfold locked at hact
    split_ifs at hact with hheld
    exact ⟨Option.not_isSome_iff_eq_none.1 hheld, hact⟩
  cases op with
  | output data =>
    obtain ⟨hnone, hact⟩ := hunlocked hexec
    split_ifs at hact with hnil
    refine ⟨1, data, hnil, rfl, hnone, fun s' hs' => ?_⟩
    exact (locked_free hs').trans (if_neg hnil)
  | resize rows columns =>
    obtain ⟨hnone, -⟩ := hunlocked hexec
    exact ⟨2, resizeOutput rows columns, by simp [resizeOutput], rfl, hnone, fun s' hs' => locked_free hs'⟩
  | attach id fromSequence controlOnly backpressure =>
    obtain ⟨-, hact⟩ := hunlocked hexec
    unfold attachLocked at hact
    split_ifs at hact
    all_goals (split at hact <;> try cases hact)
    all_goals (split at hact <;> cases hact)
  | enqueue =>
    change s.enqueue.1 = _ at hexec
    unfold enqueue abandon at hexec
    split at hexec
    · cases hexec
    · cases hexec
    · split at hexec <;> cases hexec
  | detach | skipTo =>
    obtain ⟨-, hact⟩ := hunlocked hexec
    split at hact <;> cases hact
  | clear | release => cases (hunlocked hexec).2
  | setController | waitRoom | waitNextFrom | waitNextOwned | next | tick => cases hexec

/-- what a publication that happens comes to -/
theorem Sound.exec_published (h : Sound origin s) {op : Op} (hexec : (s.exec config op).1 = .published evictions) :
    ∃ channel data history, data ≠ [] ∧ op.size = data.length ∧ s.attaching = none ∧
      s.exec config op = s.publish channel data ∧ Published origin s channel data history := by
  obtain ⟨channel, data, hne, hsize, hfree, hpublish⟩ := Session.exec_published hexec
  have heq := hpublish s hfree
  rcases h.published hfree channel hne with ⟨-, hrefused⟩ | ⟨-, history, hpublished⟩
  · rw [heq, hrefused] at hexec
    cases hexec
  · exact ⟨channel, data, history, hne, hsize, hfree, heq, hpublished⟩

end Session

end Paperboat.Output
