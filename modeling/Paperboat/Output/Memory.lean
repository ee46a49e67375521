/-
How much output the ring holds.

A compaction frees what every attached cursor has read. The limits of the attachments
bound what they have not read, so after a publication the ring is bounded by the largest
limit and one event, and empty when nothing is unread. But a cursor also stays in the
ring for an attachment that is not fed from it: a browser whose screens move it to the
end of the output. Between two screens it holds back everything that is printed.

Results:
- `Sound.bounded`: the bound, when no such cursor is attached;
- `run_detach`: the attachments that are fed leave, the others stay;
- `ring_bounded`: the bound after every publication, and how it is lost otherwise.

Witnesses:
- `ring_bounded_oneViewer`: one viewer, and a byte it has not read;
- `ring_grows`: one browser with a screen, one viewer that reads everything, and the
  ring grows with every byte.
-/
import Paperboat.Output.Sound

namespace Paperboat.Output

open Session AttachmentCursor Fanout

namespace Fanout

def ringBytes (f : Fanout) : ℕ := total f.ring.events

/-- the largest limit of the attachments that are fed -/
def largestLimit (f : Fanout) : ℕ := ((f.cursors.filter receives).map maxBytes).foldr max 0

/-- an attachment that is fed has output to read -/
def hasUnread (f : Fanout) : Bool := f.cursors.any fun c => c.receives && c.hasCursor && c.cursor < c.enqueuedEnd

/-- at most the largest limit and one event, and nothing when nothing is unread -/
def Bounded (f : Fanout) : Prop :=
  (f.ring.events = [] ∨ ∃ e ∈ f.ring.events, f.ringBytes ≤ f.largestLimit + e.data.length) ∧
    (f.hasUnread = false → f.ringBytes = 0)

instance (f : Fanout) : Decidable f.Bounded := inferInstanceAs (Decidable (_ ∧ _))

/-- an attachment that is not fed was moved by a screen -/
def screened (f : Fanout) : Bool := f.cursors.any fun c => c.holds && !c.receiveOutput

theorem le_largestLimit {f : Fanout} {c : AttachmentCursor} (hmem : c ∈ f.cursors) (hreceives : c.receives = true) :
    c.maxBytes ≤ f.largestLimit := by
  have hmem' : c.maxBytes ∈ (f.cursors.filter receives).map maxBytes :=
    List.mem_map_of_mem (List.mem_filter.2 ⟨hmem, hreceives⟩)
  unfold largestLimit
  generalize (f.cursors.filter receives).map maxBytes = limits at hmem'
  induction limits with
  | nil => cases hmem'
  | cons n ns ih =>
    rcases List.mem_cons.1 hmem' with hn | hn
    · rw [hn]
      exact le_max_left _ _
    · exact (ih hn).trans (le_max_right _ _)

end Fanout

/-- events in order and apart have no more bytes than there are numbers -/
theorem total_le {a b : ℕ} {es : List Event} (hab : a ≤ b)
    (hsorted : es.Pairwise fun x y => x.endSequence ≤ y.startSequence)
    (hsized : ∀ e ∈ es, e.endSequence = e.startSequence + e.data.length) (hlow : ∀ e ∈ es, a ≤ e.startSequence)
    (hhigh : ∀ e ∈ es, e.endSequence ≤ b) : total es ≤ b - a := by
  induction es generalizing a with
  | nil => exact Nat.zero_le _
  | cons e es ih =>
    obtain ⟨hfirst, hrest⟩ := List.pairwise_cons.1 hsorted
    have hsize := hsized e List.mem_cons_self
    have hstart := hlow e List.mem_cons_self
    have hend := hhigh e List.mem_cons_self
    have := ih hend hrest (fun x hx => hsized x (List.mem_cons_of_mem e hx)) hfirst
      (fun x hx => hhigh x (List.mem_cons_of_mem e hx))
    rw [total_cons]
    omega

namespace Session

variable {origin : ℕ} {s : Session}

theorem cursors_compactLocked (f : Fanout) : f.compactLocked.cursors = f.cursors := by
  unfold cursors
  rw [(compactLocked_frees [] f).attachments]

/-- **What a compaction leaves** when only attachments that are fed hold output -/
theorem Sound.bounded (h : Sound origin s) (hfree : s.attaching = none) (hscreened : s.fanout.screened = false) :
    s.fanout.compactLocked.Bounded := by
  have hfed : ∀ c ∈ s.fanout.cursors, c.holds = true → c.receives = true := by
    intro c hc hholds
    have := List.any_eq_false.1 hscreened c hc
    simp only [hholds, Bool.true_and, Bool.not_eq_true', Bool.not_eq_false] at this
    simp only [holds, receives, Bool.and_eq_true] at hholds ⊢
    exact ⟨hholds.1, this⟩
  obtain ⟨-, -, -, hleast⟩ := foldl_lower s.fanout.cursors (0, false, 0)
  have hcursors := cursors_compactLocked s.fanout
  have hlimit : s.fanout.compactLocked.largestLimit = s.fanout.largestLimit := by
    unfold largestLimit
    rw [hcursors]
  have hunread : s.fanout.compactLocked.hasUnread = s.fanout.hasUnread := by
    unfold hasUnread
    rw [hcursors]
  have hring : s.fanout.compactLocked.ring =
      if (s.fanout.cursors.foldl lower (0, false, 0)).2.1 then
        s.fanout.ring.free (s.fanout.cursors.foldl lower (0, false, 0)).1 else ⟨[], 0⟩ := rfl
  unfold Bounded ringBytes
  rw [hunread, hring]
  generalize s.fanout.cursors.foldl lower (0, false, 0) = r at hleast
  obtain ⟨minimum, haveMinimum, atMinimum⟩ := r
  cases haveMinimum with
  | false => exact ⟨.inl rfl, fun _ => rfl⟩
  | true =>
    -- the minimum is the cursor of an attachment that is fed, so its queue reaches from there to the end
    obtain ⟨c, hmem, hholds, hcursor⟩ := (hleast rfl).resolve_left (by simp)
    have hreceives := hfed c hmem hholds
    obtain ⟨id, hlookup⟩ := mem_cursors.1 hmem
    simp only [holds, receives, Bool.and_eq_true, decide_eq_true_eq] at hholds hreceives
    have hplaced := h.placed_free hfree hlookup hholds.1
    have hqueued := hplaced.queued hholds.2
    have hends := (hplaced.ends hholds.2).2 hreceives.2
    have hfits := hplaced.fits
    have hlargest : c.maxBytes ≤ s.fanout.largestLimit :=
      le_largestLimit hmem (by simp [receives, hreceives])
    rw [if_pos rfl]
    have hsound := h.ring.free minimum
    cases hkept : (s.fanout.ring.free minimum).events with
    | nil => exact ⟨.inl rfl, fun _ => rfl⟩
    | cons first rest =>
      have hsized : ∀ e ∈ first :: rest, e.endSequence = e.startSequence + e.data.length ∧
          e.endSequence ≤ s.history.latest ∧ minimum < e.endSequence := by
        intro e he
        rw [← hkept] at he
        have := (hsound.tails e he).sized h.chained
        exact ⟨this.2.1, this.2.2.2, Ring.free_end h.chained h.ring he⟩
      have hfirst := hsized first List.mem_cons_self
      refine ⟨.inr ⟨first, List.mem_cons_self, ?_⟩, fun hnone => ?_⟩
      · have hsorted := hsound.sorted
        rw [hkept] at hsorted
        have hrest := total_le hfirst.2.1 (List.pairwise_cons.1 hsorted).2
          (fun e he => (hsized e (List.mem_cons_of_mem first he)).1) (List.pairwise_cons.1 hsorted).1
          (fun e he => (hsized e (List.mem_cons_of_mem first he)).2.1)
        rw [total_cons]
        omega
      · have := List.any_eq_false.1 hnone c hmem
        simp only [receives, hholds, hreceives, decide_true, Bool.and_self, Bool.true_and,
          decide_eq_true_eq] at this
        omega

/-! ## Publications -/

theorem publish_receiveOutput (event : Event) (c : AttachmentCursor) :
    (c.publish event).receiveOutput = c.receiveOutput := by
  unfold AttachmentCursor.publish
  split_ifs <;> rfl

variable {c : AttachmentCursor}

/-- a publication does not touch an attachment that is not fed -/
theorem publish_unfed (event : Event) (hfed : c.receiveOutput = false) : c.publish event = c := by
  simp [AttachmentCursor.publish, AttachmentCursor.receives, hfed]

theorem mem_cursors_spread {f : Fanout} {event : Event} {d : AttachmentCursor} (hd : d ∈ (f.spread event).cursors) :
    ∃ c ∈ f.cursors, c.publish event = d := by
  obtain ⟨id, hlookup⟩ := mem_cursors.1 hd
  obtain ⟨c, hc, heq⟩ := lookup_spread hlookup
  exact ⟨c, mem_cursors.2 ⟨id, hc⟩, heq⟩

theorem screened_spread {f : Fanout} (event : Event) (hscreened : f.screened = false) :
    (f.spread event).screened = false := by
  refine List.any_eq_false.2 fun d hd => ?_
  obtain ⟨c, hc, rfl⟩ := mem_cursors_spread hd
  have hnot := List.any_eq_false.1 hscreened c hc
  cases hfed : c.receiveOutput with
  | true => simp [publish_receiveOutput, hfed]
  | false => rwa [publish_unfed event hfed]

/-! ## Those that are fed leave -/

/-- after some attachments are detached the others are as before, and nothing else has changed but the ring -/
structure Left (s : Session) (ids : List String) (s' : Session) : Prop where
  attaching : s'.attaching = none
  history : s'.history = s.history
  kept : ∀ id, id ∉ ids → s'.fanout.attachments.lookup id = s.fanout.attachments.lookup id
  gone : ∀ id c, id ∈ ids → s.fanout.attachments.lookup id = some c → c.state = .attached →
    s'.fanout.attachments.lookup id = none
  from_before : ∀ id c, s'.fanout.attachments.lookup id = some c → s.fanout.attachments.lookup id = some c

theorem detach_left (hfree : s.attaching = none) (config : Config) (id : String) :
    Left s [id] (s.step config (.detach id)) := by
  rw [step, exec, locked_free hfree]
  cases hdetach : s.fanout.detach id with
  | error err =>
    refine ⟨hfree, rfl, fun _ _ => rfl, fun j c hj hlookup hattached => ?_, fun _ _ hj => hj⟩
    rw [List.mem_singleton.1 hj] at hlookup
    simp [detach, hlookup, hattached] at hdetach
  | ok f' =>
    have herase : ∀ j, f'.attachments.lookup j = if j = id then none else s.fanout.attachments.lookup j := by
      intro j
      unfold detach at hdetach
      split at hdetach
      · cases hdetach
      · split_ifs at hdetach
        cases hdetach
        exact Index.lookup_erase_if _ _ _
    refine ⟨hfree, rfl, fun j hj => ?_, fun j d hj _ _ => ?_, fun j d hj => ?_⟩
    · exact (herase j).trans (if_neg (by simpa using hj))
    · exact (herase j).trans (if_pos (List.mem_singleton.1 hj))
    · have hj' := (herase j).symm.trans hj
      split_ifs at hj'
      exact hj'

theorem run_detach (hfree : s.attaching = none) (config : Config) (ids : List String) :
    Left s ids (Machine.run (step config) s (ids.map Op.detach)) := by
  induction ids generalizing s with
  | nil => exact ⟨hfree, rfl, fun _ _ => rfl, nofun, fun _ _ hid => hid⟩
  | cons id ids ih =>
    have hfirst := detach_left hfree config id
    have hrest := ih hfirst.attaching
    change Left s (id :: ids) (Machine.run (step config) (s.step config (.detach id)) (ids.map Op.detach))
    refine ⟨hrest.attaching, hrest.history.trans hfirst.history, fun j hj => ?_, fun j c hj hlookup hattached => ?_,
      fun j c hj => hfirst.from_before j c (hrest.from_before j c hj)⟩
    · simp only [List.mem_cons, not_or] at hj
      rw [hrest.kept j hj.2, hfirst.kept j (by simpa using hj.1)]
    · by_cases hjid : j = id
      · have hnone := hfirst.gone j c (by simpa using hjid) hlookup hattached
        cases hafter : (Machine.run (step config) (s.step config (.detach id))
          (ids.map Op.detach)).fanout.attachments.lookup j with
        | none => rfl
        | some d => exact absurd (hrest.from_before j d hafter) (by simp [hnone])
      · have hkept := hfirst.kept j (by simpa using hjid)
        exact hrest.gone j c ((List.mem_cons.1 hj).resolve_left hjid) (hkept.trans hlookup) hattached

/-- the attachments that are fed -/
def fed (s : Session) : List String := (s.fanout.attachments.entries.filter fun e => e.2.receives).map Sigma.fst

theorem mem_fed {id : String} (hlookup : s.fanout.attachments.lookup id = some c) : id ∈ s.fed ↔ c.receives = true := by
  unfold fed
  simp only [List.mem_map, List.mem_filter, Sigma.exists]
  constructor
  · rintro ⟨_, d, ⟨hmem, hreceives⟩, rfl⟩
    have hd := AList.mem_lookup_iff.2 hmem
    rw [hlookup] at hd
    cases hd
    exact hreceives
  · intro hreceives
    exact ⟨id, c, ⟨AList.mem_lookup_iff.1 hlookup, hreceives⟩, rfl⟩

variable {channel : UInt8}

/-- what is published while nobody is fed stays in the ring, for a cursor that only a screen moves -/
theorem Sound.unbounded (h : Sound origin s) {data : Bytes} {history : History} (hne : data ≠ [])
    (hfree : s.attaching = none) (hpublished : Published origin s channel data history)
    (hscreened : s.fanout.screened = true) (hunfed : ∀ c ∈ s.fanout.cursors, c.receives = false) :
    ¬ (s.publish channel data).2.fanout.Bounded := by
  obtain ⟨c, hmem, hc⟩ := List.any_eq_true.1 hscreened
  simp only [Bool.and_eq_true, Bool.not_eq_true'] at hc
  obtain ⟨hholds, hfed⟩ := hc
  obtain ⟨id, hlookup⟩ := Fanout.mem_cursors.1 hmem
  have hkept : (s.fanout.spread (s.history.next channel data)).attachments.lookup id = some c := by
    rw [Fanout.spread, Table.lookup_map, hlookup, Option.map_some, publish_unfed _ hfed]
  have hlength : 0 < data.length := List.length_pos_iff.2 hne
  -- the cursor is not beyond the event, so the compaction keeps it
  have hcovers : (s.fanout.spread (s.history.next channel data)).compactLocked.ring.Covers s.history.latest := by
    have hattached : c.state = .attached := by
      simp only [AttachmentCursor.holds, Bool.and_eq_true, decide_eq_true_eq] at hholds
      exact hholds.1
    have hcursor : c.hasCursor = true := by
      simp only [AttachmentCursor.holds, Bool.and_eq_true, decide_eq_true_eq] at hholds
      exact hholds.2
    have hplaced := h.placed_free hfree hlookup hattached
    have hends := (hplaced.ends hcursor).1
    have hqueued := hplaced.queued hcursor
    have hinserted := Ring.insertEventLocked_spec hpublished.spread.chained (h.ring.mono (List.subset_append_left _ _))
      ⟨s.history.next channel data, by simp, le_rfl, by simp only [History.next]; omega, by simp [Event.trim]⟩
    refine (Fanout.compactLocked_frees (s.log ++ [s.history.next channel data]) _).keeps hkept hholds (by omega)
      (hinserted.adds _ le_rfl ?_)
    simp only [History.next]
    omega
  obtain ⟨e, he, hlow, hhigh⟩ := hcovers
  rw [hpublished.eq]
  rintro ⟨-, hzero⟩
  have hunread : (s.fanout.spread (s.history.next channel data)).compactLocked.hasUnread = false := by
    refine List.any_eq_false.2 fun d hd => ?_
    obtain ⟨c', hc', rfl⟩ := mem_cursors_spread hd
    have hnot := hunfed c' hc'
    have hsame : c'.publish (s.history.next channel data) = c' := by simp [AttachmentCursor.publish, hnot]
    simp [hsame, hnot]
  have hbytes := hzero hunread
  have hsized := ((hpublished.spread.frees (Fanout.compactLocked_frees _ _)).ring.tails e he).sized
      hpublished.spread.chained
  have hle : e.data.length ≤ total (s.fanout.spread (s.history.next channel data)).compactLocked.ring.events :=
    List.single_le_sum (by simp) _ (List.mem_map_of_mem he)
  have : e.data.length ≤ 0 := hbytes ▸ hle
  omega

/-- once all that are fed have left, the same publication breaks the bound -/
theorem Sound.left_unbounded {s' : Session} (h' : Sound origin s') (hleft : Left s s.fed s') (h : Sound origin s)
    {data : Bytes} (hne : data ≠ []) (hscreened : s.fanout.screened = true) {evictions : List Eviction}
    (hpublish : (s.publish channel data).1 = .published evictions) (hfree : s.attaching = none) :
    ∃ evictions', (s'.publish channel data).1 = .published evictions' ∧
      ¬ (s'.publish channel data).2.fanout.Bounded := by
  have hroom : data.length ≤ maxSequence - s.history.latest := by
    rcases h.published hfree channel hne with ⟨-, hrefused⟩ | ⟨hroom, -⟩
    · rw [hrefused] at hpublish
      cases hpublish
    · exact hroom
  rcases h'.published hleft.attaching channel hne with ⟨hfull, -⟩ | ⟨-, history, hpublished⟩
  · rw [hleft.history] at hfull
    exact absurd hroom (not_le.2 hfull)
  refine ⟨_, by rw [hpublished.eq], h'.unbounded hne hleft.attaching hpublished ?_ fun c hc => ?_⟩
  · obtain ⟨c, hmem, hc⟩ := List.any_eq_true.1 hscreened
    obtain ⟨id, hlookup⟩ := mem_cursors.1 hmem
    have hunfed : id ∉ s.fed := by
      rw [mem_fed hlookup]
      simp only [Bool.and_eq_true, Bool.not_eq_true'] at hc
      simp [receives, hc.2]
    exact List.any_eq_true.2 ⟨c, mem_cursors.2 ⟨id, (hleft.kept id hunfed).trans hlookup⟩, hc⟩
  · obtain ⟨id, hlookup⟩ := mem_cursors.1 hc
    have hbefore := hleft.from_before id c hlookup
    by_contra hreceives
    have hreceives : c.receives = true := by simpa using hreceives
    have hattached : c.state = .attached := by
      simp only [receives, Bool.and_eq_true, decide_eq_true_eq] at hreceives
      exact hreceives.1
    rw [hleft.gone id c ((mem_fed hbefore).2 hreceives) hbefore hattached] at hlookup
    cases hlookup

end Session

/-- **The ring is bounded by the limits of its readers.** After a publication it holds at most the largest limit and
one event, and nothing when nothing is unread, as long as no attachment that is not fed has been moved by a screen.
While there is such an attachment, the run can go on until the same publication breaks the bound. -/
theorem ring_bounded (config : Config) (history : History) (ops : List Op) (op : Op) (evictions : List Eviction)
    (hexec : ((after config history ops).exec config op).1 = .published evictions) :
    ((after config history ops).fanout.screened = false →
      ((after config history ops).step config op).fanout.Bounded) ∧
    ((after config history ops).fanout.screened = true →
      ∃ more evictions', ((after config history (ops ++ more)).exec config op).1 = .published evictions' ∧
        ¬ ((after config history (ops ++ more)).step config op).fanout.Bounded) := by
  have hsound := Sound.run config history ops
  obtain ⟨channel, data, hne, -, hfree, hpublish⟩ := exec_published hexec
  constructor
  · intro hscreened
    obtain ⟨channel, data, history', -, -, -, heq, hpublished⟩ := hsound.exec_published hexec
    unfold step
    rw [heq, hpublished.eq]
    exact hpublished.spread.bounded hfree (screened_spread _ hscreened)
  · intro hscreened
    refine ⟨(after config history ops).fed.map Op.detach, ?_⟩
    have hleft := run_detach hfree config (after config history ops).fed
    have hsound' := Sound.run config history (ops ++ (after config history ops).fed.map Op.detach)
    have hafter : after config history (ops ++ (after config history ops).fed.map Op.detach) =
        Machine.run (step config) (after config history ops)
          ((after config history ops).fed.map Op.detach) := Machine.run_append _ _ _ _
    rw [hafter] at hsound' ⊢
    generalize after config history ops = s at hexec hsound hfree hscreened hleft hsound' ⊢
    generalize Machine.run (step config) s (s.fed.map Op.detach) = s' at hleft hsound' ⊢
    obtain ⟨evictions', hpublished, hbreaks⟩ := hsound'.left_unbounded hleft hsound hne hscreened
      (hpublish s hfree ▸ hexec) hfree
    refine ⟨evictions', ?_, ?_⟩
    · rw [hpublish s' hleft.attaching]
      exact hpublished
    · unfold step
      rw [hpublish s' hleft.attaching]
      exact hbreaks

/-- a browser has a screen; a viewer reads every byte as it comes -/
def oneScreen : List Op :=
  [.attach "browser" 0 true false, .skipTo "browser", .attach "viewer" 0 false false, .output [1],
    .waitNextOwned "viewer", .output [2], .waitNextOwned "viewer", .output [3], .waitNextOwned "viewer"]

def twoBytes : Config := ⟨2, 4, by decide⟩

def oneByteMore : Session := (after twoBytes (.empty 16 (Nat.succ_pos _)) oneScreen).step twoBytes (.output [4])

/-- with a limit of two bytes and events of one byte, the ring holds all four bytes that were printed since the
screen -/
theorem ring_grows :
    ((after twoBytes (.empty 16 (by decide)) oneScreen).exec twoBytes (.output [4])).1 = .published [] ∧
      oneByteMore.fanout.largestLimit = 2 ∧ oneByteMore.fanout.ringBytes = 4 ∧ ¬ oneByteMore.fanout.Bounded := by
  decide +kernel

/-- the same without the browser: the ring holds the byte that is unread -/
theorem ring_bounded_oneViewer :
    ((after twoBytes (.empty 16 (by decide)) [.attach "viewer" 0 false false]).step twoBytes
      (.output [4])).fanout.Bounded :=
  (ring_bounded twoBytes (.empty 16 (by decide)) [.attach "viewer" 0 false false] (.output [4])
    [] (by decide +kernel)).1
    (by decide +kernel)

end Paperboat.Output
