/-
The absolutes of one meter process: what is reported under a counter identity, and what
was recorded under it.

Results:
- `Ledger.Books`: what ties the counters, the last reports and the queue to the bytes
  that were recorded, kept by every step (`Books.add`, `Books.drop`, `Books.enqueue`,
  `Books.ack`);
- `Meter.inv_step`: a step keeps the books, unless a Record goes on although its own
  pruning has removed a counter it is to add to (`Apart`);
- `Meter.absolutes_sound`: **the absolutes**; in a run without such a Record they
  increase strictly and never exceed what was recorded, a Flush that gets through leaves
  all of it reported, and a pruned identity never appears again; and after such a Record
  the run goes on to a pruned identity that does.

Witnesses:
- `pruned_restarts`: the clock moves into the next week between the two readings of a
  Record.
-/
import Paperboat.Usage.Meter

namespace Paperboat.Usage

open Keyed Table Index Machine

namespace Ledger

/-- the state of the books, apart from what the holder of the lock is doing -/
structure Books (s : Ledger) : Prop where
  keyed : ∀ {k r}, s.counters.values.lookup k = some r → r.key.counterIdentity = k
  recorded : ∀ {k r}, s.counters.values.lookup k = some r → r.bytes = s.recorded k ∧ 0 < r.bytes
  small : ∀ k, s.recorded k ≤ maxUint64
  absent : ∀ {k}, s.counters.values.lookup k = none → k ∈ s.pruned ∨ s.recorded k = 0
  room : s.counters.values.entries.length ≤ s.queue.maxReports
  lastAbsent : ∀ {k}, s.counters.values.lookup k = none → s.lastOf k = 0
  lastSent : ∀ r ∈ s.sent, (s.counters.values.lookup r.identity).isSome → r.bytes ≤ s.lastOf r.identity
  lastFrom : ∀ k, s.lastOf k = 0 ∨ ∃ r ∈ s.sent, r.identity = k ∧ s.lastOf k ≤ r.bytes
  bounded : ∀ r ∈ s.sent, r.bytes ≤ s.recorded r.identity
  increasing : s.sent.Pairwise fun a b => a.identity = b.identity → a.bytes < b.bytes
  pendingSent : ∀ r ∈ s.queue.pending, r ∈ s.sent
  ackedSent : ∀ r ∈ s.acked, r ∈ s.sent
  carried : ∀ r ∈ s.sent, ∃ r' ∈ s.queue.pending ++ s.acked, r'.identity = r.identity ∧ r.bytes ≤ r'.bytes
  single : (s.queue.pending.map Report.identity).Nodup
  gone : ∀ k ∈ s.pruned, s.counters.values.lookup k = none
  settled : ∀ k ∈ s.pruned, ∃ r ∈ s.acked, r.identity = k ∧ r.bytes = s.recorded k
  passed : ∀ k ∈ s.pruned, ∃ w, k.epoch.window = some w ∧ w < window s.clock
  observed : ∀ {k r}, s.counters.values.lookup k = some r →
    r.observedAt ≤ s.clock ∧ ∃ w, k.epoch.window = some w ∧ w ≤ window r.observedAt

theorem window_mono {a b : ℕ} (h : a ≤ b) : window a ≤ window b :=
  Nat.div_le_div_right (Nat.div_le_div_right h)

/-- more than the delivery window later it is another window -/
theorem window_lt {a b : ℕ} (h : deliveryWindow < b - a) : window a < window b := by
  unfold window deliveryWindow at *
  omega

variable {s : Ledger}

theorem recorded_add (k : Key) (n : ℕ) (k' : Key) : (s.add k n).recorded k' =
    if k' = k.counterIdentity then min maxUint64 (s.recorded k.counterIdentity + n) else s.recorded k' :=
  Function.update_apply ..

variable (h : s.Books)
include h

theorem Books.tick (elapsed : ℕ) : (s.tick elapsed).Books := by
  refine { h with passed := fun k hk => ?_, observed := fun hr => ?_ }
  · obtain ⟨w, hw, hlt⟩ := h.passed k hk
    exact ⟨w, hw, hlt.trans_le (window_mono (Nat.le_add_right _ _))⟩
  · obtain ⟨hle, hw⟩ := h.observed hr
    exact ⟨hle.trans (Nat.le_add_right _ _), hw⟩

/-- the largest absolute in the queue or acknowledged is the largest that was sent -/
theorem Books.newest_eq (k : Key) : newest (s.queue.pending ++ s.acked) k = newest s.sent k := by
  apply le_antisymm
  · refine newest_le_iff.2 fun r hr hk => ?_
    rw [← hk]
    rcases List.mem_append.1 hr with hr | hr
    · exact le_newest (h.pendingSent r hr)
    · exact le_newest (h.ackedSent r hr)
  · refine newest_le_iff.2 fun r hr hk => ?_
    obtain ⟨r', hr', hid, hle⟩ := h.carried r hr
    refine hle.trans ?_
    rw [← hk, ← hid]
    exact le_newest hr'

variable {k : Key}

/-- a counter that is delivered is acknowledged in full -/
theorem Books.delivered {now : ℕ} (hp : s.prunable now k = true) :
    ∃ r, s.counters.values.lookup k = some r ∧ deliveryWindow < now - r.observedAt ∧
      ∃ report ∈ s.acked, report.identity = k ∧ report.bytes = s.recorded k := by
  unfold prunable at hp
  cases hr : s.counters.values.lookup k with
  | none => rw [hr] at hp; cases hp
  | some r =>
    rw [hr] at hp
    simp only [Bool.and_eq_true, decide_eq_true_eq, Bool.not_eq_true', ← Bool.not_eq_true,
      Queue.hasKey, List.any_eq_true, beq_iff_eq] at hp
    obtain ⟨⟨hold, hlast⟩, hqueue⟩ := hp
    refine ⟨r, rfl, hold, ?_⟩
    obtain ⟨hrecorded, hpos⟩ := h.recorded hr
    rcases h.lastFrom k with hzero | ⟨report, hsent, hid, hle⟩
    · omega
    · obtain ⟨report', hmem, hid', hle'⟩ := h.carried report hsent
      rcases List.mem_append.1 hmem with hpending | hacked
      · exact absurd ⟨report', hpending, hid'.trans hid⟩ hqueue
      · refine ⟨report', hacked, hid'.trans hid, ?_⟩
        have hbound := h.bounded report' (h.ackedSent report' hacked)
        rw [hid', hid] at hbound
        omega

theorem Books.drop {now : ℕ} (hnow : now ≤ s.clock) (hp : s.prunable now k = true) : (s.drop k).Books := by
  obtain ⟨r, hr, hold, hsettled⟩ := h.delivered hp
  have hpresent : ∀ {k' r'}, (s.drop k).counters.values.lookup k' = some r' →
      k' ≠ k ∧ s.counters.values.lookup k' = some r' := by
    intro k' r' hr'
    rw [lookup_drop] at hr'
    split_ifs at hr' with hk
    exact ⟨hk, hr'⟩
  refine { h with
    keyed := fun hr' => h.keyed (hpresent hr').2
    recorded := fun hr' => h.recorded (hpresent hr').2
    absent := ?_
    room := ?_
    lastAbsent := ?_
    lastSent := ?_
    lastFrom := ?_
    gone := ?_
    settled := ?_
    passed := ?_
    observed := fun hr' => h.observed (hpresent hr').2 }
  · intro k' hnone
    rw [lookup_drop] at hnone
    split_ifs at hnone with hk
    · exact .inl (hk ▸ List.mem_cons_self)
    · exact (h.absent hnone).imp_left (List.mem_cons_of_mem _)
  · change (s.counters.values.erase k).entries.length ≤ _
    rw [length_erase]
    exact (Nat.sub_le _ _).trans h.room
  · intro k' hnone
    rw [lookup_drop] at hnone
    rw [lastOf_drop]
    split_ifs at hnone ⊢ with hk
    · rfl
    · exact h.lastAbsent hnone
  · intro report hreport hsome
    rw [lookup_drop] at hsome
    rw [lastOf_drop]
    split_ifs at hsome ⊢ with hk
    · cases hsome
    · exact h.lastSent report hreport hsome
  · intro k'
    rw [lastOf_drop]
    split_ifs with hk
    · exact .inl rfl
    · exact h.lastFrom k'
  · intro k' hk'
    rw [lookup_drop]
    split_ifs with hk
    · rfl
    · exact h.gone k' ((List.mem_cons.1 hk').resolve_left hk)
  · intro k' hk'
    rcases List.mem_cons.1 hk' with rfl | hk'
    · exact hsettled
    · exact h.settled k' hk'
  · intro k' hk'
    rcases List.mem_cons.1 hk' with rfl | hk'
    · obtain ⟨-, w, hw, hle⟩ := h.observed hr
      exact ⟨w, hw, hle.trans_lt ((window_lt hold).trans_le (window_mono hnow))⟩
    · exact h.passed k' hk'

/-- what was recorded only grows -/
theorem Books.recorded_le (k : Key) (n : ℕ) (k' : Key) : s.recorded k' ≤ (s.add k n).recorded k' := by
  rw [recorded_add]
  split_ifs with hk
  · subst hk
    exact le_min (h.small _) (Nat.le_add_right _ _)
  · exact le_rfl

/-- the counter after an addition, in terms of what was recorded -/
theorem Books.added (n : ℕ) (hk : k.counterIdentity ∉ s.pruned) :
    (Counters.added (s.counters.values.lookup k.counterIdentity) k n s.clock).bytes =
      min maxUint64 (s.recorded k.counterIdentity + n) := by
  cases hr : s.counters.values.lookup k.counterIdentity with
  | none => rw [(h.absent hr).resolve_left hk, Nat.zero_add]; rfl
  | some r => rw [← (h.recorded hr).1]; rfl

theorem Books.add {n : ℕ} (hn : 0 < n) (hk : k.counterIdentity ∉ s.pruned)
    (hroom : s.counters.values.entries.length + (if (s.counters.values.lookup k.counterIdentity).isSome then 0 else 1) ≤
      s.queue.maxReports) (hwindow : ∃ w, k.epoch.window = some w ∧ w ≤ window s.clock) : (s.add k n).Books := by
  have hmax : 0 < maxUint64 := by decide
  have hother : ∀ {k'}, k' ∈ s.pruned → k' ≠ k.counterIdentity := fun hk' heq => hk (heq ▸ hk')
  refine { h with
    keyed := ?_
    recorded := ?_
    small := ?_
    absent := ?_
    room := ?_
    lastAbsent := ?_
    lastSent := ?_
    bounded := fun r hr => (h.bounded r hr).trans (h.recorded_le k n _)
    gone := ?_
    settled := ?_
    observed := ?_ }
  · intro k' r hr
    rw [lookup_add] at hr
    split_ifs at hr with heq
    · cases hr
      rw [heq]
      cases hold : s.counters.values.lookup k.counterIdentity with
      | none => rfl
      | some old =>
        change (if old.key.revision ≤ k.revision then k else old.key).counterIdentity = _
        split_ifs
        · rfl
        · exact h.keyed hold
    · exact h.keyed hr
  · intro k' r hr
    rw [lookup_add] at hr
    rw [recorded_add]
    split_ifs at hr ⊢ with heq
    · cases hr
      rw [h.added n hk]
      exact ⟨rfl, by omega⟩
    · exact h.recorded hr
  · intro k'
    rw [recorded_add]
    split_ifs
    · exact min_le_left _ _
    · exact h.small k'
  · intro k' hnone
    rw [lookup_add] at hnone
    rw [recorded_add]
    split_ifs at hnone ⊢ with heq
    exact h.absent hnone
  · change (s.counters.values.insert _ _).entries.length ≤ _
    rw [length_insert]
    exact hroom
  · intro k' hnone
    rw [lookup_add] at hnone
    split_ifs at hnone with heq
    exact h.lastAbsent hnone
  · intro r hr hsome
    rw [lookup_add] at hsome
    by_cases hpresent : (s.counters.values.lookup r.identity).isSome = true
    · exact h.lastSent r hr hpresent
    · -- a counter that was not there: nothing was recorded, so nothing sent
      rw [Option.not_isSome_iff_eq_none] at hpresent
      have heq : r.identity = k.counterIdentity := by
        by_contra hne
        rw [if_neg hne, hpresent] at hsome
        cases hsome
      have hbound := h.bounded r hr
      rw [(h.absent hpresent).resolve_left (heq ▸ hk)] at hbound
      exact hbound.trans (Nat.zero_le _)
  · intro k' hk'
    rw [lookup_add, if_neg (hother hk')]
    exact h.gone k' hk'
  · intro k' hk'
    rw [recorded_add, if_neg (hother hk')]
    exact h.settled k' hk'
  · intro k' r hr
    rw [lookup_add] at hr
    split_ifs at hr with heq
    · cases hr
      have hat : (Counters.added (s.counters.values.lookup k.counterIdentity) k n s.clock).observedAt = s.clock := by
        cases s.counters.values.lookup k.counterIdentity <;> rfl
      rw [hat, heq]
      exact ⟨le_rfl, hwindow⟩
    · exact h.observed hr

theorem Books.reported {r : CounterRecord} {n : ℕ} {q : Queue} {taken : Bool}
    (hr : s.counters.values.lookup k = some r) (hnew : s.lastOf k < r.bytes)
    (hq : s.queue.enqueueLatest (s.reportOf k r n) = some (q, taken)) :
    (s.reported k r q taken (s.reportOf k r n)).Books := by
  have hid : (s.reportOf k r n).identity = k := h.keyed hr
  have hbytes : (s.reportOf k r n).bytes = r.bytes := rfl
  have holder : ∀ r' ∈ s.sent, r'.identity = k → r'.bytes < r.bytes := fun r' hr' hk =>
    (hk ▸ h.lastSent r' hr' (by rw [hk, hr]; rfl) : r'.bytes ≤ s.lastOf k).trans_lt hnew
  rcases Queue.enqueueLatest_cases hq with ⟨-, -, current, hcurrent, hk, hle⟩ | ⟨rfl, hmax, hpending⟩
  · -- the queue has nothing as new as the counter
    exact absurd (holder current (h.pendingSent current hcurrent) (hk.trans hid)) (by omega)
  · have hmem : ∀ r', r' ∈ q.pending ↔ r' = s.reportOf k r n ∨ r' ∈ s.queue.pending ∧ r'.identity ≠ k := fun r' => by
      rw [hpending, mem_upsert h.single, hid]
    refine { h with
      room := hmax.symm ▸ h.room
      lastAbsent := ?_
      lastSent := ?_
      lastFrom := ?_
      bounded := ?_
      increasing := ?_
      pendingSent := ?_
      ackedSent := fun r' hr' => List.mem_append_left _ (h.ackedSent r' hr')
      carried := ?_
      single := ?_ }
    · intro k' hnone
      rw [lastOf_reported, if_neg]
      · exact h.lastAbsent hnone
      · rintro rfl
        cases hr.symm.trans hnone
    · intro r' hr' hsome
      rw [lastOf_reported]
      rcases List.mem_append.1 hr' with hr' | hr'
      · split_ifs with hk
        · exact (holder r' hr' hk).le
        · exact h.lastSent r' hr' hsome
      · rw [List.mem_singleton.1 hr', if_pos hid, hbytes]
    · intro k'
      rw [lastOf_reported]
      split_ifs with hk
      · exact .inr ⟨s.reportOf k r n, List.mem_append_right _ (by simp), hid.trans hk.symm, le_rfl⟩
      · exact (h.lastFrom k').imp_right fun ⟨r', hr', hrest⟩ => ⟨r', List.mem_append_left _ hr', hrest⟩
    · intro r' hr'
      rcases List.mem_append.1 hr' with hr' | hr'
      · exact h.bounded r' hr'
      · rw [List.mem_singleton.1 hr', hid]
        exact (h.recorded hr).1.le
    · refine List.pairwise_append.2 ⟨h.increasing, List.pairwise_singleton _ _, fun a ha b hb hab => ?_⟩
      rw [List.mem_singleton.1 hb] at hab ⊢
      exact holder a ha (hab.trans hid)
    · intro r' hr'
      rcases (hmem r').1 hr' with rfl | ⟨hr', -⟩
      · exact List.mem_append_right _ (by simp)
      · exact List.mem_append_left _ (h.pendingSent r' hr')
    · intro r' hr'
      by_cases hk : r'.identity = k
      · refine ⟨s.reportOf k r n, List.mem_append_left _ ((hmem _).2 (.inl rfl)), hid.trans hk.symm, ?_⟩
        rcases List.mem_append.1 hr' with hr' | hr'
        · exact (holder r' hr' hk).le
        · rw [List.mem_singleton.1 hr']
      · have hold : r' ∈ s.sent := (List.mem_append.1 hr').resolve_right fun heq =>
          hk ((List.mem_singleton.1 heq) ▸ hid)
        obtain ⟨r'', hr'', hid', hle⟩ := h.carried r' hold
        refine ⟨r'', ?_, hid', hle⟩
        rcases List.mem_append.1 hr'' with hr'' | hr''
        · exact List.mem_append_left _ ((hmem r'').2 (.inr ⟨hr'', fun heq => hk (hid'.symm.trans heq)⟩))
        · exact List.mem_append_right _ hr''
    · change (q.pending.map Report.identity).Nodup
      rw [hpending]
      exact nodup_foldl_upsert [s.reportOf k r n] h.single

theorem Books.ack (report : Report) : (s.ack report).Books := by
  unfold Ledger.ack
  split_ifs with hsent
  · rw [List.contains_iff_mem] at hsent
    have hmem : ∀ r, r ∈ (s.queue.ack report.operationID).pending ↔ r ∈ s.queue.pending ∧
        r.operationID ≠ report.operationID := by
      intro r
      rw [Queue.ack_pending]
      simp
    refine { h with
      room := (Queue.ack_maxReports s.queue _).symm ▸ h.room
      pendingSent := fun r hr => h.pendingSent r ((hmem r).1 hr).1
      ackedSent := ?_
      carried := ?_
      single := ?_
      settled := ?_ }
    · intro r hr
      rcases mem_snoc.1 hr with hr | rfl
      · exact h.ackedSent r hr
      · exact hsent
    · intro r hr
      obtain ⟨r', hr', hid, hle⟩ := h.carried r hr
      rcases List.mem_append.1 hr' with hpending | hacked
      · by_cases hop : r'.operationID = report.operationID
        · -- the report itself, which is acknowledged now
          obtain ⟨hkey, hbytes⟩ := Prod.mk.inj hop
          refine ⟨report, List.mem_append_right _ (List.mem_append_right _ (by simp)), ?_, hbytes ▸ hle⟩
          exact (congrArg Key.counterIdentity hkey).symm.trans hid
        · exact ⟨r', List.mem_append_left _ ((hmem r').2 ⟨hpending, hop⟩), hid, hle⟩
      · exact ⟨r', List.mem_append_right _ (List.mem_append_left _ hacked), hid, hle⟩
    · rw [Queue.ack_pending]
      exact h.single.sublist (List.filter_sublist.map _)
    · intro k hk
      obtain ⟨r, hr, hrest⟩ := h.settled k hk
      exact ⟨r, List.mem_append_left _ hr, hrest⟩
  · exact h

end Ledger

namespace Meter

open Ledger

/-- additions to different counters, each of a window that has begun -/
structure Fit (l : Ledger) (adds : List (Key × ℕ)) : Prop where
  distinct : (adds.map fun a => a.1.counterIdentity).Nodup
  positive : ∀ a ∈ adds, 0 < a.2
  begun : ∀ a ∈ adds, ∃ w, a.1.epoch.window = some w ∧ w ≤ window l.clock

/-- what the holder of the lock relies on -/
def Holds (l : Ledger) : Phase → Prop
  | .idle => True
  | .full adds => Fit l adds ∧ ∀ a ∈ adds, a.1.counterIdentity ∉ l.pruned
  | .pruning adds now _ removed => Fit l adds ∧ now ≤ l.clock ∧ ∀ a ∈ adds, a.1.counterIdentity ∈ l.pruned →
      a.1.counterIdentity ∈ removed
  | .adding adds => Fit l adds ∧ l.canAdd adds = true ∧ ∀ a ∈ adds, a.1.counterIdentity ∉ l.pruned
  | .flushing todo => ∀ k r, l.counters.values.lookup k = some r → k ∉ todo → r.bytes ≤ l.lastOf k

structure Inv (s : Meter) : Prop where
  books : s.ledger.Books
  holds : Holds s.ledger s.phase

/-- a Record that goes on after its pruning has not pruned a counter that it is to add to -/
def Apart (s : Meter) : MeterOp → Prop
  | .pruneEnd => ∀ adds now removed, s.phase = .pruning adds now [] removed → s.ledger.canAdd adds = true →
      ∀ a ∈ adds, a.1.counterIdentity ∉ removed
  | _ => True

variable {l : Ledger} {adds : List (Key × ℕ)}

theorem Fit.later (h : Fit l adds) (elapsed : ℕ) : Fit (l.tick elapsed) adds where
  distinct := h.distinct
  positive := h.positive
  begun a ha := by
    obtain ⟨w, hw, hle⟩ := h.begun a ha
    exact ⟨w, hw, hle.trans (window_mono (Nat.le_add_right _ _))⟩

variable {revision ingress egress : ℕ} {environment route : String} {authority : Authority}

/-- the additions of a Record are to counters of the present window -/
theorem addsOf_window {a : Key × ℕ} (h : a ∈ l.addsOf environment route revision ingress egress authority) :
    a.1.epoch.window = some (window l.clock) := by
  obtain ⟨-, d, heq⟩ := mem_addsOf h
  rw [heq]

theorem fit_addsOf (l : Ledger) (environment route : String) (revision ingress egress : ℕ) (authority : Authority) :
    Fit l (l.addsOf environment route revision ingress egress authority) where
  distinct := by
    unfold addsOf
    split_ifs <;> simp [Key.counterIdentity]
  positive _ ha := (mem_addsOf ha).1
  begun a ha := ⟨window l.clock, addsOf_window ha, le_rfl⟩

/-- no counter of the present window was pruned -/
theorem addsOf_not_pruned (h : l.Books)
    {a : Key × ℕ} (ha : a ∈ l.addsOf environment route revision ingress egress authority) :
    a.1.counterIdentity ∉ l.pruned := by
  intro hmem
  obtain ⟨w, hw, hlt⟩ := h.passed _ hmem
  have hnow : a.1.counterIdentity.epoch.window = some (window l.clock) := addsOf_window ha
  rw [hw] at hnow
  exact absurd hlt (by rw [Option.some.inj hnow]; exact lt_irrefl _)

variable {s : Meter} {k : Key} {rest : List (Key × ℕ)}

/-- the first of the additions that there is room for -/
theorem canAdd_cons {n : ℕ} (h : l.canAdd ((k, n) :: rest) = true) :
    l.counters.values.entries.length + (if (l.counters.values.lookup k.counterIdentity).isSome then 0 else 1) +
      ((rest.map (·.1)).filter fun k => (l.counters.values.lookup k.counterIdentity).isNone).length ≤
        l.queue.maxReports := by
  unfold canAdd Counters.canAdd at h
  rw [decide_eq_true_iff, List.map_cons, List.filter_cons] at h
  cases hk : l.counters.values.lookup k.counterIdentity with
  | none => rw [hk] at h; simp only [Option.isNone_none, if_true, List.length_cons] at h; simp; omega
  | some r => rw [hk] at h; simpa using h

theorem inv_add (h : s.Inv) {n : ℕ} (hphase : s.phase = .adding ((k, n) :: rest))
    (elapsed : ℕ) : Inv ⟨(s.ledger.tick elapsed).add k n, .adding rest⟩ := by
  obtain ⟨hfit, hroom, hpruned⟩ : Fit _ _ ∧ _ ∧ _ := hphase ▸ h.holds
  have hcount := canAdd_cons hroom
  have hlater := hfit.later elapsed
  have hk : k.counterIdentity ∉ s.ledger.pruned := hpruned (k, n) List.mem_cons_self
  obtain ⟨hne, hdistinct⟩ := List.nodup_cons.1 hfit.distinct
  refine ⟨(h.books.tick elapsed).add (hfit.positive (k, n) List.mem_cons_self) hk ?_
    (hlater.begun (k, n) List.mem_cons_self), ⟨hdistinct, fun a ha => hfit.positive a (List.mem_cons_of_mem _ ha),
      fun a ha => hlater.begun a (List.mem_cons_of_mem _ ha)⟩, ?_, fun a ha => hpruned a (List.mem_cons_of_mem _ ha)⟩
  · exact le_trans (Nat.le_add_right _ _) hcount
  · unfold canAdd Counters.canAdd
    rw [decide_eq_true_iff]
    change (s.ledger.counters.values.insert _ _).entries.length + _ ≤ s.ledger.queue.maxReports
    rw [length_insert]
    refine le_trans (Nat.add_le_add_left
      (le_of_eq (congrArg List.length (List.filter_congr fun k' hk' => ?_))) _) hcount
    obtain ⟨a, ha, rfl⟩ := List.mem_map.1 hk'
    rw [lookup_add, if_neg]
    · rfl
    · exact fun heq => hne (List.mem_map.2 ⟨a, ha, heq⟩)

theorem inv_pruneNext (h : s.Inv) {now : ℕ} {todo removed : List Key}
    (hphase : s.phase = .pruning adds now (k :: todo) removed) (hp : s.ledger.prunable now k = true) :
    Inv ⟨s.ledger.drop k, .pruning adds now todo (removed ++ [k])⟩ := by
  obtain ⟨hfit, hnow, hremoved⟩ : Fit _ _ ∧ _ ∧ _ := hphase ▸ h.holds
  refine ⟨h.books.drop hnow hp, ⟨hfit.distinct, hfit.positive, hfit.begun⟩, hnow, fun a ha hmem => ?_⟩
  rcases List.mem_cons.1 hmem with heq | hmem
  · exact List.mem_append_right _ (List.mem_singleton.2 heq)
  · exact List.mem_append_left _ (hremoved a ha hmem)

theorem inv_enqueue (h : s.Inv) {todo : List Key} {size : Option ℕ}
    (hphase : s.phase = .flushing (k :: todo)) (hl : s.ledger.enqueue k size = some l) : Inv ⟨l, .flushing todo⟩ := by
  have hdone := h.holds
  rw [hphase] at hdone
  rcases enqueue_cases hl with ⟨rfl, hold⟩ | ⟨r, n, q, taken, hr, hnew, hq, rfl⟩
  · refine ⟨h.books, fun k' r' hr' hk' => ?_⟩
    by_cases heq : k' = k
    · exact heq ▸ hold r' (heq ▸ hr')
    · exact hdone k' r' hr' (by simp [heq, hk'])
  · refine ⟨h.books.reported hr hnew hq, fun k' r' hr' hk' => ?_⟩
    rw [lastOf_reported]
    split_ifs with heq
    · subst heq
      exact le_of_eq (congrArg CounterRecord.bytes (Option.some.inj (hr'.symm.trans hr)))
    · exact hdone k' r' hr' (by simp [heq, hk'])

/-- an acknowledgement changes nothing that the holder of the lock relies on -/
theorem Holds.ack {phase : Phase} (h : Holds l phase) (report : Report) : Holds (l.ack report) phase := by
  have hsame : (l.ack report).clock = l.clock ∧ (l.ack report).counters = l.counters ∧ (l.ack report).last = l.last ∧
      (l.ack report).pruned = l.pruned ∧ (l.ack report).queue.maxReports = l.queue.maxReports := by
    unfold Ledger.ack
    split_ifs
    · exact ⟨rfl, rfl, rfl, rfl, Queue.ack_maxReports _ _⟩
    · exact ⟨rfl, rfl, rfl, rfl, rfl⟩
  obtain ⟨hclock, hcounters, hlast, hpruned, hmax⟩ := hsame
  have hfit : ∀ {adds}, Fit l adds → Fit (l.ack report) adds := fun hf =>
    ⟨hf.distinct, hf.positive, by rw [hclock]; exact hf.begun⟩
  cases phase with
  | idle => trivial
  | full adds => exact ⟨hfit h.1, by rw [hpruned]; exact h.2⟩
  | pruning adds now todo removed => exact ⟨hfit h.1, by rw [hclock]; exact h.2.1, by rw [hpruned]; exact h.2.2⟩
  | adding adds =>
    refine ⟨hfit h.1, ?_, by rw [hpruned]; exact h.2.2⟩
    have hroom := h.2.1
    unfold canAdd at hroom ⊢
    rwa [hcounters, hmax]
  | flushing todo =>
    intro k r hr hk
    rw [hcounters] at hr
    unfold lastOf
    rw [hlast]
    exact h k r hr hk

/-- **One step.** -/
theorem inv_step (h : s.Inv) (op : MeterOp) (hop : s.Apart op) : (s.step op).Inv := by
  obtain ⟨l, phase⟩ := s
  have hbooks := h.books
  have hholds := h.holds
  cases op with
  | record environment route revision ingress egress authority elapsed =>
    cases phase with
    | idle =>
      simp only [step]
      have hlater := hbooks.tick elapsed
      split_ifs with hbad hroom
      · exact ⟨hlater, trivial⟩
      · exact ⟨hlater, fit_addsOf .., hroom, fun a ha => addsOf_not_pruned hlater ha⟩
      · exact ⟨hlater, fit_addsOf .., fun a ha => addsOf_not_pruned hlater ha⟩
    | _ => exact h
  | prune elapsed order =>
    cases phase with
    | full adds =>
      simp only [step]
      split_ifs
      · exact ⟨hbooks.tick elapsed, hholds.1.later elapsed, le_rfl, fun a ha hmem => absurd hmem (hholds.2 a ha)⟩
      · exact h
    | _ => exact h
  | pruneNext =>
    cases phase with
    | pruning adds now todo removed =>
      cases todo with
      | nil => exact h
      | cons k todo =>
        simp only [step]
        split_ifs with hp
        · exact inv_pruneNext h rfl hp
        · exact ⟨hbooks, hholds⟩
    | _ => exact h
  | pruneEnd =>
    cases phase with
    | pruning adds now todo removed =>
      cases todo with
      | nil =>
        simp only [step]
        split_ifs with hroom
        · exact ⟨hbooks, hholds.1, hroom, fun a ha hmem => hop adds now removed rfl hroom a ha (hholds.2.2 a ha hmem)⟩
        · exact ⟨hbooks, trivial⟩
      | cons k todo => exact h
    | _ => exact h
  | add elapsed =>
    cases phase with
    | adding adds =>
      cases adds with
      | nil => exact ⟨hbooks, trivial⟩
      | cons a rest => exact inv_add h rfl elapsed
    | _ => exact h
  | flush order =>
    cases phase with
    | idle =>
      simp only [step]
      split_ifs with hperm
      · refine ⟨hbooks, fun k r hr hk => absurd ?_ hk⟩
        exact (List.isPerm_iff.1 hperm).mem_iff.2 (AList.mem_keys.1 (AList.lookup_isSome.1 (by rw [hr]; rfl)))
      · exact h
    | _ => exact h
  | enqueue size =>
    cases phase with
    | flushing todo =>
      cases todo with
      | nil => exact h
      | cons k todo =>
        simp only [step]
        cases hl : l.enqueue k size with
        | none => exact ⟨hbooks, trivial⟩
        | some l' => exact inv_enqueue h rfl hl
    | _ => exact h
  | flushEnd =>
    cases phase with
    | flushing todo =>
      cases todo with
      | nil => exact ⟨hbooks, trivial⟩
      | cons k todo => exact h
    | _ => exact h
  | ack report => exact ⟨hbooks.ack report, hholds.ack report⟩

/-! ## Runs -/

/-- what is reported increases and was recorded, one report of an identity is pending, the table has room, and what
was pruned is gone -/
structure Sound (s : Meter) : Prop where
  increasing : s.ledger.sent.Pairwise fun a b => a.identity = b.identity → a.bytes < b.bytes
  bounded : ∀ r ∈ s.ledger.sent, r.bytes ≤ s.ledger.recorded r.identity
  single : (s.ledger.queue.pending.map Report.identity).Nodup
  room : s.ledger.counters.values.entries.length ≤ s.ledger.queue.maxReports
  gone : ∀ k ∈ s.ledger.pruned, s.ledger.counters.values.lookup k = none

/-- everything recorded is in the newest report that is pending or acknowledged -/
def Complete (s : Meter) : Prop :=
  ∀ k, newest (s.ledger.queue.pending ++ s.ledger.acked) k = s.ledger.recorded k

theorem Inv.sound (h : s.Inv) : s.Sound :=
  ⟨h.books.increasing, h.books.bounded, h.books.single, h.books.room, h.books.gone⟩

/-- a Flush that gets through leaves nothing unreported -/
theorem Inv.complete (h : s.Inv) (hphase : s.phase = .flushing []) : s.Complete := by
  intro k
  have hdone := h.holds
  rw [hphase] at hdone
  apply le_antisymm
  · rw [h.books.newest_eq]
    exact newest_le_iff.2 fun r hr hk => hk ▸ h.books.bounded r hr
  · cases hr : s.ledger.counters.values.lookup k with
    | some r =>
      rw [← (h.books.recorded hr).1, h.books.newest_eq]
      have hlast := hdone k r hr (by simp)
      rcases h.books.lastFrom k with hzero | ⟨report, hsent, rfl, hle⟩
      · omega
      · exact hlast.trans (hle.trans (le_newest hsent))
    | none =>
      rcases h.books.absent hr with hpruned | hzero
      · obtain ⟨report, hacked, rfl, hbytes⟩ := h.books.settled k hpruned
        rw [← hbytes]
        exact le_newest (List.mem_append_right _ hacked)
      · rw [hzero]
        exact Nat.zero_le _

theorem inv_new (node : String) (process maxReports maxBytes clock : ℕ) :
    (new node process maxReports maxBytes clock).Inv := by
  refine ⟨?_, trivial⟩
  constructor <;> simp [new, Ledger.lastOf]

/-- a Record in its pruning knows what it has pruned -/
def Traced (s : Meter) : Prop := ∀ adds now todo removed, s.phase = .pruning adds now todo removed →
  ∀ k ∈ removed, k ∈ s.ledger.pruned

theorem traced_step (h : s.Traced) (op : MeterOp) : (s.step op).Traced := by
  obtain ⟨l, phase⟩ := s
  intro adds now todo removed hphase k hk
  cases op with
  | pruneNext =>
    cases phase with
    | pruning adds' now' todo' removed' =>
      cases todo' with
      | nil => exact h _ _ _ _ hphase k hk
      | cons k' todo' =>
        simp only [step] at hphase ⊢
        split_ifs at hphase ⊢
        · cases hphase
          rcases mem_snoc.1 hk with hk | rfl
          · exact List.mem_cons_of_mem _ (h _ _ _ _ rfl k hk)
          · exact List.mem_cons_self
        · cases hphase
          exact h _ _ _ _ rfl k hk
    | _ => exact h _ _ _ _ hphase k hk
  | ack report =>
    have hpruned : (l.ack report).pruned = l.pruned := by
      unfold Ledger.ack
      split_ifs <;> rfl
    change k ∈ (l.ack report).pruned
    rw [hpruned]
    exact h _ _ _ _ hphase k hk
  | _ =>
    -- nothing happens, or the phase is a pruning that has removed nothing, or none
    simp only [step] at hphase ⊢
    repeat' split at hphase
    all_goals first | exact h _ _ _ _ hphase k hk | (cases hphase <;> cases hk)

/-- a Record that has room adds to all its counters -/
theorem adds_all (l : Ledger) (adds : List (Key × ℕ)) :
    let t := run step ⟨l, .adding adds⟩ (List.replicate adds.length (.add 0))
    t.ledger.pruned = l.pruned ∧ ∀ k, (l.counters.values.lookup k).isSome ∨ (∃ a ∈ adds, a.1.counterIdentity = k) →
      (t.ledger.counters.values.lookup k).isSome := by
  induction adds generalizing l with
  | nil => exact ⟨rfl, fun k hk => hk.elim id fun ⟨a, ha, _⟩ => (nomatch ha)⟩
  | cons a rest ih =>
    obtain ⟨k₀, n⟩ := a
    obtain ⟨hpruned, hpresent⟩ := ih ((l.tick 0).add k₀ n)
    refine ⟨hpruned, fun k hk => hpresent k ?_⟩
    rw [lookup_add]
    by_cases heq : k = k₀.counterIdentity
    · exact .inl (by rw [if_pos heq]; rfl)
    · rw [if_neg heq]
      rcases hk with hk | ⟨a, ha, hid⟩
      · exact .inl hk
      · rcases List.mem_cons.1 ha with rfl | ha
        · exact absurd hid.symm heq
        · exact .inr ⟨a, ha, hid⟩

/-- the meter after the operations -/
def after (node : String) (process maxReports maxBytes clock : ℕ) (ops : List MeterOp) : Meter :=
  run step (new node process maxReports maxBytes clock) ops

/-- **The absolutes.** In every run without a Record that goes on after pruning a counter it is to add to: the
absolutes reported under an identity increase strictly and never exceed what was recorded, at most one report of it
is pending, the table has room, what was pruned never appears again, and after a Flush that gets through everything
recorded is reported. And after any such Record the run goes on to a state in which this fails. -/
theorem absolutes_sound (node : String) (process maxReports maxBytes clock : ℕ) (ops : List MeterOp) :
    (Throughout step (new node process maxReports maxBytes clock) Apart ops →
      (after node process maxReports maxBytes clock ops).Sound ∧
      ∀ pre, pre ++ [.flushEnd] <+: ops → (after node process maxReports maxBytes clock pre).phase = .flushing [] →
        (after node process maxReports maxBytes clock (pre ++ [.flushEnd])).Complete) ∧
    ∀ pre op, pre ++ [op] <+: ops → ¬ (after node process maxReports maxBytes clock pre).Apart op →
      ∃ more, ¬ (after node process maxReports maxBytes clock (pre ++ op :: more)).Sound := by
  have hinv : ∀ {ops}, Throughout step (new node process maxReports maxBytes clock) Apart ops →
      (after node process maxReports maxBytes clock ops).Inv := fun h =>
    throughout_inv step _ (inv_new ..) (fun _ op hop hI => inv_step hI op hop) h
  refine ⟨fun h => ⟨(hinv h).sound, fun pre hpre hphase => ?_⟩, fun pre op hpre hop => ?_⟩
  · have hbefore := hinv fun pre' op hpre' => h pre' op (hpre'.trans ((List.prefix_append pre _).trans hpre))
    have hcomplete := hbefore.complete hphase
    rw [after, run_snoc]
    change (step (after node process maxReports maxBytes clock pre) .flushEnd).Complete
    unfold step
    rw [hphase]
    exact hcomplete
  · -- the Record holds the lock and adds to what it has pruned
    have htraced : (after node process maxReports maxBytes clock pre).Traced :=
      run_inv step _ (I := fun _ s => s.Traced) (fun _ _ _ _ h => absurd h (by simp [new]))
        (fun _ op h => traced_step h op) pre
    cases op with
    | pruneEnd =>
      simp only [Apart, not_forall, not_not] at hop
      obtain ⟨adds, now, removed, hphase, hroom, a, ha, hremoved⟩ := hop
      refine ⟨List.replicate adds.length (.add 0), fun hsound => ?_⟩
      have hstep : step (after node process maxReports maxBytes clock pre) .pruneEnd =
          ⟨(after node process maxReports maxBytes clock pre).ledger, .adding adds⟩ := by
        unfold step
        rw [hphase]
        simp only [hroom, if_true]
      have hrun : after node process maxReports maxBytes clock
          (pre ++ .pruneEnd :: List.replicate adds.length (.add 0)) =
          run step ⟨(after node process maxReports maxBytes clock pre).ledger, .adding adds⟩
            (List.replicate adds.length (.add 0)) := by
        rw [after, run_append, ← hstep]
        rfl
      obtain ⟨hpruned, hpresent⟩ := adds_all (after node process maxReports maxBytes clock pre).ledger adds
      rw [hrun] at hsound
      have hnone := hsound.gone a.1.counterIdentity (by rw [hpruned]; exact htraced _ _ _ _ hphase _ hremoved)
      have hsome := hpresent a.1.counterIdentity (.inr ⟨a, ha, rfl⟩)
      rw [hnone] at hsome
      cases hsome
    | _ => exact absurd trivial hop

/-- a counter of the first week, and its first report -/
def weekKey (route : String) (direction : Direction) : Key := ⟨"a", "n", ⟨1, some 1⟩, "e", route, direction, 1⟩

def weekReport (route : String) : Report := ⟨weekKey route .ingress, 5, deliveryWindow, deliveryWindow, 10⟩

def weekRecord (route : String) (ingress egress elapsed : ℕ) : MeterOp :=
  .record "e" route 1 ingress egress ⟨"a", by decide⟩ elapsed

/-- five bytes each of two routes, recorded as the week begins, reported and acknowledged; as the week ends, a
Record of the first route, for which the table has no room -/
def weekOps : List MeterOp :=
  [weekRecord "r" 5 0 0, .add 0, .add 0, weekRecord "q" 5 0 0, .add 0, .add 0,
   .flush [(weekKey "q" .ingress).counterIdentity, (weekKey "r" .ingress).counterIdentity],
   .enqueue (some 10), .enqueue (some 10), .flushEnd, .ack (weekReport "q"), .ack (weekReport "r"),
   weekRecord "r" 3 4 (deliveryWindow - 1),
   .prune 2 [(weekKey "q" .ingress).counterIdentity, (weekKey "r" .ingress).counterIdentity], .pruneNext, .pruneNext,
   .pruneEnd, .add 0, .add 0, .add 0]

/-- the counter of the first route starts again at three bytes -/
theorem pruned_restarts :
    ¬ (after "n" 1 2 100 deliveryWindow weekOps).Sound ∧
    ((after "n" 1 2 100 deliveryWindow (weekOps ++ [.flush [(weekKey "r" .egress).counterIdentity,
      (weekKey "r" .ingress).counterIdentity], .enqueue (some 10), .enqueue (some 10), .flushEnd])).ledger.sent.filter
        (·.identity = (weekKey "r" .ingress).counterIdentity)).map (·.bytes) = [5, 3] := by
  refine ⟨fun h => ?_, by decide +kernel⟩
  exact absurd (h.gone (weekKey "r" .ingress).counterIdentity (by decide +kernel)) (by decide +kernel)

end Meter

end Paperboat.Usage
