/-
The ring of output events that the attachments of a session share
(hostruntime/session/fanout.go: insertEventLocked, eventAtLocked and the part of
compactLocked that frees events).

Published events come in order and are appended. An attach inserts the replayed end
parts of older events, so an event may already be there, whole or in part: it is then
left out, or takes the place of the part. `Sound` is what the ring keeps: its events are
end parts of appended events, in order and apart.

Results:
- `insertEvent_spec`: an insertion loses no byte of the ring and adds the bytes of the
  event;
- `eventAt_of_covers`: the binary search finds the event that has a byte of the ring;
- `Sound.free`, `Covers.free`, `free_end`: what compaction keeps.
-/
import Mathlib.Data.List.TakeWhile
import Paperboat.Core.Search
import Paperboat.Output.History

namespace Paperboat.Output

structure Ring where
  events : List Event
  /-- the largest end of the events, 0 when there are none -/
  ringEnd : ℕ
  deriving DecidableEq, Repr

/-- `a` has the bytes of `b` at the numbers of `b` -/
def Event.covers (a b : Event) : Bool :=
  a.startSequence ≤ b.startSequence && b.endSequence ≤ a.endSequence && a.channel == b.channel &&
    (a.data.drop (b.startSequence - a.startSequence)).take (b.endSequence - b.startSequence) == b.data

/-- the order of the ring: by start, the longer event first -/
def Event.Before (a b : Event) : Prop :=
  a.startSequence < b.startSequence ∨ a.startSequence = b.startSequence ∧ b.endSequence ≤ a.endSequence

instance : DecidableRel Event.Before := fun _ _ => inferInstanceAs (Decidable (_ ∨ _))

namespace Ring

/-- the scan stops at the first event that has the new one, or that the new one has; each round but the last takes
one event out of the ring, `fuel` bounds the rounds -/
def insertEvent : ℕ → Ring → Event → Ring
  | fuel, ring, event =>
    if event.startSequence ≥ ring.ringEnd then
      { events := ring.events ++ [event], ringEnd := event.endSequence }
    else
      match ring.events.find? fun existing => existing.covers event || event.covers existing with
      | none =>
        { events := (ring.events ++ [event]).insertionSort Event.Before, ringEnd := max ring.ringEnd event.endSequence }
      | some existing =>
        if existing.covers event then ring
        else
          match fuel with
          | 0 => ring
          | fuel + 1 => insertEvent fuel { ring with events := ring.events.erase existing } event

def insertEventLocked (ring : Ring) (event : Event) : Ring := ring.insertEvent ring.events.length event

/-- the event that has the byte with this number -/
def eventAtLocked (ring : Ring) (sequence : ℕ) : Option Event :=
  let index := Search.search ring.events.length fun i => (ring.events[i]?).all fun e =>
      decide (e.endSequence > sequence)
  match ring.events[index]? with
  | none => none
  | some event => if event.startSequence > sequence then none else some event

/-- the events before the first that ends beyond `minimum` are freed -/
def free (ring : Ring) (minimum : ℕ) : Ring :=
  let kept := ring.events.dropWhile fun e => decide (e.endSequence ≤ minimum)
  { events := kept, ringEnd := if kept.length < ring.events.length ∧ kept = [] then 0 else ring.ringEnd }

/-! ## What the ring keeps -/

/-- the ring has the byte with number `n` -/
def Covers (ring : Ring) (n : ℕ) : Prop := ∃ e ∈ ring.events, e.startSequence ≤ n ∧ n < e.endSequence

/-- the events are end parts of appended events, in order and apart -/
structure Sound (log : List Event) (ring : Ring) : Prop where
  tails : ∀ e ∈ ring.events, TailOf log e
  sorted : ring.events.Pairwise fun a b => a.endSequence ≤ b.startSequence
  bound : ∀ e ∈ ring.events, e.endSequence ≤ ring.ringEnd

variable {log : List Event} {ring : Ring} {event : Event} {n m : ℕ}

theorem Sound.empty : Sound log ⟨[], 0⟩ := ⟨by simp, List.Pairwise.nil, by simp⟩

theorem Sound.mono {log' : List Event} (h : ring.Sound log) (hsub : log ⊆ log') : ring.Sound log' :=
  ⟨fun e he => (h.tails e he).mono hsub, h.sorted, h.bound⟩

end Ring

/-! ## Parts of one event -/

variable {a b : Event}

theorem Chained.unique {n m k : ℕ} {es : List Event} (h : Chained n es m) (ha : a ∈ es) (hb : b ∈ es)
    (hka : a.startSequence ≤ k ∧ k < a.endSequence) (hkb : b.startSequence ≤ k ∧ k < b.endSequence) : a = b := by
  induction es generalizing n with
  | nil => cases ha
  | cons e es ih =>
    rcases List.mem_cons.1 ha with rfl | ha'
    · rcases List.mem_cons.1 hb with rfl | hb'
      · rfl
      · have := (h.2.2.mem hb').1
        omega
    · rcases List.mem_cons.1 hb with rfl | hb'
      · have := (h.2.2.mem ha').1
        omega
      · exact ih h.2.2 ha' hb'

theorem Event.covers_bounds (h : a.covers b = true) :
    a.startSequence ≤ b.startSequence ∧ b.endSequence ≤ a.endSequence := by
  simp only [Event.covers, Bool.and_eq_true, decide_eq_true_eq] at h
  exact h.1.1

/-- two end parts of appended events that share a byte are parts of the same event, and the longer has the shorter -/
theorem TailOf.covers {n m k : ℕ} {log : List Event} (hlog : Chained n log m) (ha : TailOf log a)
    (hb : TailOf log b) (hka : a.startSequence ≤ k ∧ k < a.endSequence) (hkb : b.startSequence ≤ k ∧ k < b.endSequence)
    (hle : a.startSequence ≤ b.startSequence) : a.covers b = true := by
  obtain ⟨x, hx, hxa, hxa', htrima⟩ := ha
  obtain ⟨y, hy, hyb, hyb', htrimb⟩ := hb
  have hend : a.endSequence = x.endSequence := by rw [htrima]; rfl
  have hend' : b.endSequence = y.endSequence := by rw [htrimb]; rfl
  obtain rfl := hlog.unique hx hy (k := k) (by omega) (by omega)
  have hsized := (hlog.mem hx).2.1
  have hdrop : a.data.drop (b.startSequence - a.startSequence) = b.data := by
    have hadata : a.data = x.data.drop (a.startSequence - x.startSequence) := by rw [htrima]; rfl
    have hbdata : b.data = x.data.drop (b.startSequence - x.startSequence) := by rw [htrimb]; rfl
    rw [hadata, hbdata, List.drop_drop]
    congr 1
    omega
  have hlength : b.data.length ≤ b.endSequence - b.startSequence := by
    have hbdata : b.data = x.data.drop (b.startSequence - x.startSequence) := by rw [htrimb]; rfl
    rw [hbdata, List.length_drop]
    omega
  have hchannel : a.channel = b.channel := by rw [htrima, htrimb]; rfl
  simp only [Event.covers, Bool.and_eq_true, decide_eq_true_eq, beq_iff_eq]
  exact ⟨⟨⟨hle, by omega⟩, hchannel⟩, by rw [hdrop, List.take_of_length_le hlength]⟩

namespace Ring

variable {log : List Event} {ring : Ring} {event : Event} {n m k : ℕ}

/-! ## Insertion -/

/-- sorting events that are apart puts one after the other -/
theorem insertionSort_apart {es : List Event} (hne : ∀ e ∈ es, e.startSequence < e.endSequence)
    (hapart : es.Pairwise fun a b => a.endSequence ≤ b.startSequence ∨ b.endSequence ≤ a.startSequence) :
    (es.insertionSort Event.Before).Pairwise fun a b => a.endSequence ≤ b.startSequence := by
  have : IsTrans Event Event.Before := ⟨fun a b c hab hbc => by unfold Event.Before at *; omega⟩
  have : Std.Total Event.Before := ⟨fun a b => by unfold Event.Before; omega⟩
  have hsorted := List.pairwise_insertionSort Event.Before es
  have hperm := List.perm_insertionSort Event.Before es
  have happart' := (hperm.pairwise_iff fun {a b} hab => Or.symm hab).2 hapart
  refine (hsorted.and happart').imp_of_mem fun {a b} ha hb hab => ?_
  obtain ⟨hbefore, hab | hba⟩ := hab
  · exact hab
  · have := hne b (hperm.mem_iff.1 hb)
    unfold Event.Before at hbefore
    omega

/-- an event that shares no byte with the ring takes its place in the order -/
theorem Sound.sort (hlog : Chained n log m) (h : ring.Sound log) (hevent : TailOf log event)
    (hfind : ring.events.find? (fun existing => existing.covers event || event.covers existing) = none) :
    Sound log ⟨(ring.events ++ [event]).insertionSort Event.Before, max ring.ringEnd event.endSequence⟩ := by
  have hmem : ∀ e, e ∈ (ring.events ++ [event]).insertionSort Event.Before ↔ e ∈ ring.events ∨ e = event := by
    intro e
    rw [List.mem_insertionSort, List.mem_append, List.mem_singleton]
  have htails : ∀ e ∈ ring.events ++ [event], TailOf log e := by
    intro e he
    rcases List.mem_append.1 he with he | he
    · exact h.tails e he
    · exact List.mem_singleton.1 he ▸ hevent
  refine ⟨fun e he => htails e ((List.mem_insertionSort _).1 he), ?_, ?_⟩
  · refine insertionSort_apart (fun e he => ((htails e he).sized hlog).1) ?_
    refine List.pairwise_append.2 ⟨h.sorted.imp .inl, List.pairwise_singleton _ _, fun a ha b hb => ?_⟩
    obtain rfl := List.mem_singleton.1 hb
    -- a shared byte would have stopped the scan
    by_contra hshared
    push Not at hshared
    have hnone := List.find?_eq_none.1 hfind a ha
    have hasized := ((h.tails a ha).sized hlog).1
    have hbsized := (hevent.sized hlog).1
    rcases le_total a.startSequence b.startSequence with hle | hle
    · exact hnone (by rw [(h.tails a ha).covers hlog hevent (k := b.startSequence) (by omega) (by omega) hle]; rfl)
    · exact hnone (by
        rw [hevent.covers hlog (h.tails a ha) (k := a.startSequence) (by omega) (by omega) hle, Bool.or_true])
  · intro e he
    rcases (hmem e).1 he with he | rfl
    · exact (h.bound e he).trans (le_max_left _ _)
    · exact le_max_right _ _

theorem Sound.erase (h : ring.Sound log) (e : Event) : Sound log { ring with events := ring.events.erase e } :=
  ⟨fun a ha => h.tails a (List.mem_of_mem_erase ha), h.sorted.sublist List.erase_sublist,
    fun a ha => h.bound a (List.mem_of_mem_erase ha)⟩

/-- what an insertion makes of the ring -/
structure Inserted (log : List Event) (ring : Ring) (event : Event) (ring' : Ring) : Prop where
  sound : ring'.Sound log
  keeps : ∀ k, ring.Covers k → ring'.Covers k
  adds : ∀ k, event.startSequence ≤ k → k < event.endSequence → ring'.Covers k

/-- a part of the event goes before the event is inserted -/
theorem Inserted.replace {existing : Event} {ring' : Ring} (hcovers : event.covers existing = true)
    (h : Inserted log { ring with events := ring.events.erase existing } event ring') :
      Inserted log ring event ring' where
  sound := h.sound
  keeps := by
    rintro k ⟨e, he, hk⟩
    by_cases heq : e = existing
    · subst heq
      have := Event.covers_bounds hcovers
      exact h.adds k (by omega) (by omega)
    · exact h.keeps k ⟨e, (List.mem_erase_of_ne heq).2 he, hk⟩
  adds := h.adds

theorem Covers.free {minimum : ℕ} (h : ring.Covers k) (hk : minimum ≤ k) : (ring.free minimum).Covers k := by
  obtain ⟨e, he, hlow, hhigh⟩ := h
  refine ⟨e, ?_, hlow, hhigh⟩
  have hsplit := List.takeWhile_append_dropWhile (p := fun e => decide (e.endSequence ≤ minimum)) (l := ring.events)
  rw [← hsplit, List.mem_append] at he
  rcases he with he | he
  · have := List.mem_takeWhile_imp he
    simp only [decide_eq_true_eq] at this
    omega
  · exact he

variable (hlog : Chained n log m)
include hlog

variable (h : ring.Sound log)
include h

section

variable (hevent : TailOf log event)
include hevent

theorem Inserted.append (hafter : ring.ringEnd ≤ event.startSequence) :
    Inserted log ring event ⟨ring.events ++ [event], event.endSequence⟩ where
  sound := by
    have hsized := (hevent.sized hlog).1
    refine ⟨fun e he => ?_, ?_, fun e he => ?_⟩
    · rcases List.mem_append.1 he with he | he
      · exact h.tails e he
      · exact List.mem_singleton.1 he ▸ hevent
    · refine List.pairwise_append.2 ⟨h.sorted, List.pairwise_singleton _ _, fun a ha b hb => ?_⟩
      obtain rfl := List.mem_singleton.1 hb
      exact (h.bound a ha).trans hafter
    · rcases List.mem_append.1 he with he | he
      · have := h.bound e he
        dsimp only
        omega
      · rw [List.mem_singleton.1 he]
  keeps := fun _ ⟨e, he, hk⟩ => ⟨e, List.mem_append_left _ he, hk⟩
  adds := fun _ hlow hhigh => ⟨event, by simp, hlow, hhigh⟩

theorem Inserted.sort
    (hfind : ring.events.find? (fun existing => existing.covers event || event.covers existing) = none) :
    Inserted log ring event
      ⟨(ring.events ++ [event]).insertionSort Event.Before, max ring.ringEnd event.endSequence⟩ where
  sound := h.sort hlog hevent hfind
  keeps := fun _ ⟨e, he, hk⟩ => ⟨e, (List.mem_insertionSort _).2 (List.mem_append_left _ he), hk⟩
  adds := fun _ hlow hhigh => ⟨event, (List.mem_insertionSort _).2 (by simp), hlow, hhigh⟩

omit hevent in
omit hlog in
/-- the ring has the event already -/
theorem Inserted.same {existing : Event} (hmem : existing ∈ ring.events)
    (hcovers : existing.covers event = true) : Inserted log ring event ring where
  sound := h
  keeps := fun _ hk => hk
  adds := fun k hlow hhigh => by
    have := Event.covers_bounds hcovers
    exact ⟨existing, hmem, by omega, by omega⟩

theorem insertEvent_spec {fuel : ℕ}
    (hfuel : ring.events.length ≤ fuel) : Inserted log ring event (ring.insertEvent fuel event) := by
  induction fuel generalizing ring with
  | zero =>
    have hnil : ring.events = [] := List.length_eq_zero_iff.1 (Nat.le_zero.1 hfuel)
    have hfind : ring.events.find? (fun existing => existing.covers event || event.covers existing) = none := by
      rw [hnil, List.find?_nil]
    unfold insertEvent
    split_ifs with hafter
    · exact .append hlog h hevent hafter
    · rw [hfind]
      exact .sort hlog h hevent hfind
  | succ fuel ih =>
    unfold insertEvent
    split_ifs with hafter
    · exact .append hlog h hevent hafter
    · cases hfind : ring.events.find? fun existing => existing.covers event || event.covers existing with
      | none => exact .sort hlog h hevent hfind
      | some existing =>
        have hmem := List.mem_of_find?_eq_some hfind
        by_cases hcovers : existing.covers event = true
        · simp only [hcovers, if_true]
          exact .same h hmem hcovers
        · simp only [hcovers]
          have hlength := List.length_erase_of_mem hmem
          refine .replace ?_ (ih (h.erase existing) (by dsimp only; omega))
          have hfound := List.find?_some hfind
          simpa [hcovers] using hfound

theorem insertEventLocked_spec :
    Inserted log ring event (ring.insertEventLocked event) := insertEvent_spec hlog h hevent le_rfl

end

/-! ## Search -/

theorem Sound.ends_sorted : ring.events.Pairwise fun a b => a.endSequence < b.endSequence := by
  refine h.sorted.imp_of_mem fun {a b} _ hb hab => ?_
  have := ((h.tails b hb).sized hlog).1
  omega

/-- the search finds the event that has the byte -/
theorem eventAt_of_covers (hk : ring.Covers k) :
    ∃ e ∈ ring.events, ring.eventAtLocked k = some e ∧ e.startSequence ≤ k ∧ k < e.endSequence := by
  obtain ⟨e, he, hlow, hhigh⟩ := hk
  obtain ⟨j, hj, rfl⟩ := List.getElem_of_mem he
  have hends := List.pairwise_iff_getElem.1 (h.ends_sorted hlog)
  have hstarts := List.pairwise_iff_getElem.1 h.sorted
  have hupward : Search.Upward ring.events.length
      fun i => (ring.events[i]?).all fun e => decide (e.endSequence > k) := by
    intro a b hab hb ha
    simp only [List.getElem?_eq_getElem hb, List.getElem?_eq_getElem (show a < ring.events.length by omega),
      Option.all_some, decide_eq_true_eq] at ha ⊢
    rcases Nat.lt_or_eq_of_le hab with hlt | rfl
    · have := hends a b (by omega) hb hlt
      omega
    · exact ha
  obtain ⟨-, hbelow, habove⟩ := Search.search_spec _ _ hupward
  generalize hi : Search.search ring.events.length
    (fun i => (ring.events[i]?).all fun e => decide (e.endSequence > k)) = i at hbelow habove
  -- everything before `j` ends at or before `k`, and `j` does not
  have hij : i = j := by
    rcases lt_trichotomy i j with hlt | heq | hgt
    · simp only [List.getElem?_eq_getElem (show i < ring.events.length by omega), Option.all_some,
        decide_eq_true_eq] at habove
      have := hstarts i j (by omega) hj hlt
      omega
    · exact heq
    · have hbelow := hbelow j hgt
      simp only [List.getElem?_eq_getElem hj, Option.all_some, decide_eq_false_iff_not] at hbelow
      omega
  subst hij
  refine ⟨_, he, ?_, hlow, hhigh⟩
  simp only [eventAtLocked, hi, List.getElem?_eq_getElem hj]
  rw [if_neg (by omega)]

/-! ## Compaction -/

omit hlog in
theorem Sound.free (minimum : ℕ) : (ring.free minimum).Sound log := by
  have hsub := List.dropWhile_sublist (l := ring.events) fun e => decide (e.endSequence ≤ minimum)
  refine ⟨fun e he => h.tails e (hsub.subset he), h.sorted.sublist hsub, fun e he => ?_⟩
  have hne : ring.events.dropWhile (fun e => decide (e.endSequence ≤ minimum)) ≠ [] := List.ne_nil_of_mem he
  simp only [Ring.free, hne, and_false, if_false]
  exact h.bound e (hsub.subset he)

/-- what is kept ends beyond the minimum -/
theorem free_end {minimum : ℕ} {e : Event} (he : e ∈ (ring.free minimum).events) : minimum < e.endSequence := by
  have hends := h.ends_sorted hlog
  change e ∈ ring.events.dropWhile fun e => decide (e.endSequence ≤ minimum) at he
  generalize ring.events = es at he hends
  induction es with
  | nil => cases he
  | cons a es ih =>
    rw [List.dropWhile_cons] at he
    obtain ⟨hafter, hrest⟩ := List.pairwise_cons.1 hends
    split_ifs at he with ha
    · exact ih he hrest
    · have ha : minimum < a.endSequence := by simpa using ha
      rcases List.mem_cons.1 he with rfl | he
      · exact ha
      · exact ha.trans (hafter e he)

end Ring

end Paperboat.Output
