/-
Two successive rounds of a config synchronisation (workspace_reconciler.go, Reconcile)
without resolutions and text merges: the plan is carried out on the home directory and
the repository, the next baseline is computed, and nobody edits anything before the next
round.

Results:
- `lookup_round_local`, `lookup_round_remote`, `lookup_round_baseline`: a round, path by
  path;
- `round_settles`: **one round is enough**; the changed side's state is on both sides
  where the mode lets it through, conflicts are untouched, and the next round has
  nothing to do but the same conflicts.

Witnesses:
- `edited_settles`: an edit and a removal.
-/
import Paperboat.Config.Plan

namespace Paperboat.Config

open Fold Table Index Verdict

/-! ## Model -/

/-- the three maps a round starts from -/
structure Replicas where
  baseline : Files
  localFiles : Files
  remote : Files

/-- without writes a bidirectional assignment only pulls -/
def effectiveMode (mode : AssignmentMode) (writesEnabled : Bool) : AssignmentMode :=
  if writesEnabled = false ∧ mode = .bidirectional then .pullOnly else mode

section Round

variable (s : Replicas) (mode : AssignmentMode) (writesEnabled : Bool)

/-- the plan of Reconcile -/
def Replicas.plan : ReconcilePlan :=
  (planReconciliationMode s.baseline s.localFiles s.remote (effectiveMode mode writesEnabled)).withWrites writesEnabled

/-- a round: with nothing to publish the work tree is clean and the home directory is compared with the repository, else
with itself -/
def Replicas.round : Replicas :=
  let plan := s.plan mode writesEnabled
  let merged := plan.apply s.remote s.localFiles
  let clean := plan.publishUpdates = [] ∧ plan.publishDeletes = []
  let accepted := acceptedBaseline s.baseline merged (if clean then s.remote else merged) mode writesEnabled
  { baseline := freezeConflictBaseline accepted s.baseline plan.conflicts
    localFiles := merged
    remote := plan.publish s.localFiles s.remote }

end Round

/-! ## A round, path by path -/

section Paths

variable {s : Replicas} {mode : AssignmentMode} {writes : Bool} {p : Path}

/-- the case of a path in the round's plan -/
def Replicas.verdict (s : Replicas) (mode : AssignmentMode) (writesEnabled : Bool) (p : Path) : Verdict :=
  planVerdict s.baseline s.localFiles s.remote (effectiveMode mode writesEnabled) p

theorem plan_follows (s : Replicas) (mode : AssignmentMode) (writes : Bool) : (s.plan mode writes).Follows
    s.localFiles s.remote fun p => (s.verdict mode writes p).withWrites writes :=
  (planReconciliationMode_follows _ _ _ _).withWrites writes

theorem lookup_round_local : (s.round mode writes).localFiles.lookup p =
    if s.verdict mode writes p = .apply then s.remote.lookup p else s.localFiles.lookup p := by
  have happly := (plan_follows s mode writes).lookup_apply s.localFiles p
  simp only [withWrites_eq_apply] at happly
  exact happly

theorem lookup_round_remote : (s.round mode writes).remote.lookup p =
    if s.verdict mode writes p = .publish ∧ writes = true then s.localFiles.lookup p else s.remote.lookup p := by
  have hpublish := (plan_follows s mode writes).lookup_publish s.remote p
  simp only [withWrites_eq_publish] at hpublish
  exact hpublish

/-- something is published only by an assignment that publishes -/
theorem publishes_of_verdict (h : s.verdict mode writes p = .publish) (hw : writes = true) : mode ≠ .pullOnly := by
  rintro rfl
  rw [hw, Replicas.verdict, planVerdict, Config.verdict] at h
  split_ifs at h with h1 h2 h3
  exact h3.2 rfl

theorem publishes_of_not_clean
    (h : ¬ ((s.plan mode writes).publishUpdates = [] ∧ (s.plan mode writes).publishDeletes = [])) :
    mode ≠ .pullOnly ∧ writes = true := by
  rw [(plan_follows s mode writes).clean_iff] at h
  simp only [ne_eq, withWrites_eq_publish, not_forall, not_not] at h
  obtain ⟨q, hv, hw⟩ := h
  exact ⟨publishes_of_verdict hv hw, hw⟩

theorem lookup_round_baseline : (s.round mode writes).baseline.lookup p =
    if s.verdict mode writes p = .conflict then s.baseline.lookup p
    else if (mode ≠ .pullOnly ∧ writes = true) ∨
        (s.round mode writes).localFiles.lookup p = s.remote.lookup p then (s.round mode writes).localFiles.lookup p
    else s.baseline.lookup p := by
  have hbaseline : (s.round mode writes).baseline = freezeConflictBaseline (acceptedBaseline s.baseline
      (s.round mode writes).localFiles (if (s.plan mode writes).publishUpdates = [] ∧
        (s.plan mode writes).publishDeletes = [] then s.remote else (s.round mode writes).localFiles)
      mode writes) s.baseline (s.plan mode writes).conflicts := rfl
  rw [hbaseline, lookup_freezeConflictBaseline, lookup_acceptedBaseline]
  simp only [(plan_follows s mode writes).conflicts, withWrites_eq_conflict]
  by_cases hclean : (s.plan mode writes).publishUpdates = [] ∧ (s.plan mode writes).publishDeletes = []
  · rw [if_pos hclean]
  · rw [if_pos (c := _ ∨ _) (.inl (publishes_of_not_clean hclean)),
      if_pos (c := _ ∨ _) (.inl (publishes_of_not_clean hclean))]

/-! ## Two rounds -/

theorem verdict_cases (base localState remoteState : Option FileState) (mode : AssignmentMode) :
    (verdict base localState remoteState mode = .same ∧ localState = remoteState) ∨
    (verdict base localState remoteState mode = .conflict ∧ localState ≠ remoteState ∧ base ≠ localState ∧
      base ≠ remoteState) ∨
    (verdict base localState remoteState mode = .publish ∧ base ≠ localState ∧ base = remoteState ∧ mode ≠ .pullOnly) ∨
    (verdict base localState remoteState mode = .apply ∧ base = localState ∧ base ≠ remoteState ∧ mode ≠ .pushOnly) ∨
    (verdict base localState remoteState mode = .suppressed ∧
      (base ≠ localState ∧ base = remoteState ∧ mode = .pullOnly ∨
      base = localState ∧ base ≠ remoteState ∧ mode = .pushOnly)) := by
  unfold verdict
  by_cases h : localState = remoteState
  · simp [h]
  · by_cases hl : base = localState <;> by_cases hr : base = remoteState <;> cases mode <;> simp_all

variable {localState remoteState base : Option FileState} {mode : AssignmentMode}

theorem verdict_publish (hl : base ≠ localState) (hr : base = remoteState)
    (hmode : mode ≠ .pullOnly) : verdict base localState remoteState mode = .publish := by
  subst hr
  rw [verdict, if_neg (Ne.symm hl), if_neg (by simp), if_pos ⟨hl, hmode⟩]

theorem verdict_apply (hl : base = localState) (hr : base ≠ remoteState)
    (hmode : mode ≠ .pushOnly) : verdict base localState remoteState mode = .apply := by
  subst hl
  rw [verdict, if_neg hr, if_neg (by simp), if_neg (by simp), if_pos ⟨hr, hmode⟩]

theorem verdict_conflict (h : localState ≠ remoteState) (hl : base ≠ localState)
    (hr : base ≠ remoteState) : verdict base localState remoteState mode = .conflict := by
  rw [verdict, if_neg h, if_pos ⟨hl, hr⟩]

section

variable (s : Replicas) (mode : AssignmentMode) (writes : Bool) (p : Path)

/-- after a round a path is the same everywhere, or it is as it was: in conflict, or the mode or the write setting
does not let its change through -/
theorem round_at :
    (s.verdict mode writes p ≠ .conflict ∧ ∃ state, (s.round mode writes).baseline.lookup p = state ∧
      (s.round mode writes).localFiles.lookup p = state ∧ (s.round mode writes).remote.lookup p = state) ∨
    ((s.round mode writes).baseline.lookup p = s.baseline.lookup p ∧
      (s.round mode writes).localFiles.lookup p = s.localFiles.lookup p ∧
      (s.round mode writes).remote.lookup p = s.remote.lookup p ∧
      (s.verdict mode writes p = .conflict ∨ s.verdict mode writes p = .suppressed ∨
        s.verdict mode writes p = .publish ∧ writes = false)) := by
  have hcases := verdict_cases (s.baseline.lookup p) (s.localFiles.lookup p) (s.remote.lookup p)
      (effectiveMode mode writes)
  simp only [lookup_round_baseline, lookup_round_local, lookup_round_remote]
  change (s.verdict mode writes p = .same ∧ _) ∨ (s.verdict mode writes p = .conflict ∧ _) ∨
    (s.verdict mode writes p = .publish ∧ _) ∨ (s.verdict mode writes p = .apply ∧ _) ∨
    (s.verdict mode writes p = .suppressed ∧ _) at hcases
  rcases hcases with ⟨hv, heq⟩ | ⟨hv, -⟩ | ⟨hv, hl, hr, -⟩ | ⟨hv, -⟩ | ⟨hv, hsuppressed⟩
  · exact .inl ⟨by simp [hv], s.remote.lookup p, by simp [hv, heq], by simp [hv, heq], by simp [hv]⟩
  · exact .inr (by simp [hv])
  · cases hw : writes
    · rw [hw] at hv
      have hne : s.localFiles.lookup p ≠ s.remote.lookup p := fun h => hl (hr.trans h.symm)
      exact .inr (by simp [hv, hne])
    · rw [hw] at hv
      have hmode := publishes_of_verdict hv rfl
      exact .inl ⟨by simp [hv], s.localFiles.lookup p, by simp [hv, hmode], by simp [hv], by simp [hv]⟩
  · exact .inl ⟨by simp [hv], s.remote.lookup p, by simp [hv], by simp [hv], by simp [hv]⟩
  · refine .inr ⟨?_, by simp [hv], by simp [hv], by simp [hv]⟩
    rcases hsuppressed with ⟨hl, hr, hmode⟩ | ⟨hl, hr, -⟩
    · -- nothing is published, so that the sides are compared
      have hpub : ¬ (mode ≠ .pullOnly ∧ writes = true) := by
        rintro ⟨hne, rfl⟩
        exact hne hmode
      have hne : s.localFiles.lookup p ≠ s.remote.lookup p := fun h => hl (hr.trans h.symm)
      simp [hv, hpub, hne]
    · have hne : s.localFiles.lookup p ≠ s.remote.lookup p := fun h => hr (hl.trans h)
      simp [hv, hne, hl]

theorem verdict_round :
    s.verdict mode writes p ≠ .conflict ∧ (s.round mode writes).verdict mode writes p = .same ∨
    (s.round mode writes).verdict mode writes p = s.verdict mode writes p ∧
      (s.verdict mode writes p = .conflict ∨ s.verdict mode writes p = .suppressed ∨
        s.verdict mode writes p = .publish ∧ writes = false) := by
  rcases round_at s mode writes p with ⟨hv, state, hb, hl, hr⟩ | ⟨hb, hl, hr, hv⟩
  · refine .inl ⟨hv, ?_⟩
    rw [Replicas.verdict, planVerdict, hl, hr, verdict, if_pos rfl]
  · refine .inr ⟨?_, hv⟩
    rw [Replicas.verdict, Replicas.verdict, planVerdict, planVerdict, hb, hl, hr]

end

theorem conflict_round_iff : (s.round mode writes).verdict mode writes p = .conflict ↔
    s.verdict mode writes p = .conflict := by
  rcases verdict_round s mode writes p with ⟨hne, hsame⟩ | ⟨hv, -⟩
  · simp [hne, hsame]
  · rw [hv]

/-- the conflicts of the next round are the same, summaries included -/
theorem conflicts_round : ((s.round mode writes).plan mode writes).conflicts = (s.plan mode writes).conflicts := by
  have hconflicts : ∀ t : Replicas, (t.plan mode writes).conflicts = ((allPaths t.baseline t.localFiles t.remote).filter
      fun q => t.verdict mode writes q = .conflict).map (concurrentUpdate t.remote) := by
    intro t
    rw [Replicas.plan, ReconcilePlan.withWrites_conflicts, planReconciliationMode_eq]
    rfl
  rw [hconflicts, hconflicts]
  simp only [conflict_round_iff]
  rw [filter_allPaths_eq (P := fun q => s.verdict mode writes q = .conflict) fun q hq =>
    ⟨mem_of_planVerdict (conflict_round_iff.2 hq) (by decide), mem_of_planVerdict hq (by decide)⟩]
  refine List.map_congr_left fun q hq => ?_
  have hq : s.verdict mode writes q = .conflict := by simpa using (List.mem_filter.1 hq).2
  rw [concurrentUpdate, concurrentUpdate, lookup_round_remote, if_neg (by simp [hq])]

theorem plan_round : (s.round mode writes).plan mode writes = { conflicts := (s.plan mode writes).conflicts } := by
  have hfollows := plan_follows (s.round mode writes) mode writes
  have hnone : ∀ p, ((s.round mode writes).verdict mode writes p).withWrites writes ≠ .publish ∧
      ((s.round mode writes).verdict mode writes p).withWrites writes ≠ .apply := by
    intro p
    rw [ne_eq, ne_eq, withWrites_eq_publish, withWrites_eq_apply]
    rcases verdict_round s mode writes p with ⟨-, hv⟩ | ⟨hv, hkept⟩
    · simp [hv]
    · rcases hkept with hv | hv | ⟨hv, hw⟩ <;> simp_all
  obtain ⟨h1, h2⟩ := hfollows.clean_iff.2 fun p => (hnone p).1
  have h3 : ((s.round mode writes).plan mode writes).applyRemote = [] :=
    List.eq_nil_iff_forall_not_mem.2 fun p hp => (hnone p).2 ((hfollows.applyRemote p).1 hp).1
  have h4 : ((s.round mode writes).plan mode writes).deleteLocal = [] :=
    List.eq_nil_iff_forall_not_mem.2 fun p hp => (hnone p).2 ((hfollows.deleteLocal p).1 hp).1
  have h5 : ((s.round mode writes).plan mode writes).conflicts = (s.plan mode writes).conflicts :=
    conflicts_round
  cases hplan : (s.round mode writes).plan mode writes
  simp_all

end Paths

/-- **One round is enough.** A path changed on one side is, where the mode lets the change through, the same on both
sides afterwards; a path changed differently on both sides is untouched; the next baseline has nothing that is not
in the old one or in the repository; and the next round plans nothing but the same conflicts: where the sides still
differ, the path is in conflict or the mode or the write setting suppresses its change. -/
theorem round_settles (s : Replicas) (mode : AssignmentMode) (writesEnabled : Bool) :
    (∀ p, s.localFiles.lookup p ≠ s.baseline.lookup p → s.remote.lookup p = s.baseline.lookup p → mode ≠ .pullOnly →
      writesEnabled = true → (s.round mode writesEnabled).localFiles.lookup p = s.localFiles.lookup p ∧
        (s.round mode writesEnabled).remote.lookup p = s.localFiles.lookup p) ∧
    (∀ p, s.remote.lookup p ≠ s.baseline.lookup p → s.localFiles.lookup p = s.baseline.lookup p → mode ≠ .pushOnly →
      (s.round mode writesEnabled).localFiles.lookup p = s.remote.lookup p ∧
        (s.round mode writesEnabled).remote.lookup p = s.remote.lookup p) ∧
    (∀ p, s.localFiles.lookup p ≠ s.baseline.lookup p → s.remote.lookup p ≠ s.baseline.lookup p →
      s.localFiles.lookup p ≠ s.remote.lookup p →
      (s.round mode writesEnabled).localFiles.lookup p = s.localFiles.lookup p ∧
        (s.round mode writesEnabled).remote.lookup p = s.remote.lookup p) ∧
    (∀ p state, (s.round mode writesEnabled).baseline.lookup p = some state →
      s.baseline.lookup p = some state ∨ (s.round mode writesEnabled).remote.lookup p = some state) ∧
    (s.round mode writesEnabled).plan mode writesEnabled = { conflicts := (s.plan mode writesEnabled).conflicts } ∧
    ∀ p, (s.round mode writesEnabled).localFiles.lookup p ≠ (s.round mode writesEnabled).remote.lookup p →
      p ∈ (s.plan mode writesEnabled).conflicts.map PathSummary.path ∨
      s.remote.lookup p = s.baseline.lookup p ∧ (mode = .pullOnly ∨ writesEnabled = false) ∨
      s.localFiles.lookup p = s.baseline.lookup p ∧ mode = .pushOnly := by
  refine ⟨?_, ?_, ?_, ?_, ?_, ?_⟩
  · rintro p hl hr hmode rfl
    have hv : s.verdict mode true p = .publish := verdict_publish (Ne.symm hl) hr.symm hmode
    rw [lookup_round_local, lookup_round_remote, hv]
    simp
  · intro p hr hl hmode
    have hv : s.verdict mode writesEnabled p = .apply := by
      refine verdict_apply hl.symm (Ne.symm hr) ?_
      rw [effectiveMode]
      split_ifs <;> simp [hmode]
    rw [lookup_round_local, lookup_round_remote, hv]
    simp
  · intro p hl hr hlr
    have hv : s.verdict mode writesEnabled p = .conflict := verdict_conflict hlr (Ne.symm hl) (Ne.symm hr)
    rw [lookup_round_local, lookup_round_remote, hv]
    simp
  · intro p state hstate
    rcases round_at s mode writesEnabled p with ⟨-, common, hb, -, hr⟩ | ⟨hb, -⟩
    · exact .inr (by rw [hr, ← hb, hstate])
    · exact .inl (by rw [← hb, hstate])
  · exact plan_round
  · intro p hne
    have hcases := verdict_cases (s.baseline.lookup p) (s.localFiles.lookup p) (s.remote.lookup p)
      (effectiveMode mode writesEnabled)
    rcases round_at s mode writesEnabled p with ⟨-, common, -, hl, hr⟩ | ⟨-, -, -, hv | hv | ⟨hv, hw⟩⟩
    · exact absurd (hl.trans hr.symm) hne
    · exact .inl (((plan_follows s mode writesEnabled).conflicts p).2 (withWrites_eq_conflict.2 hv))
    · rw [Replicas.verdict, planVerdict] at hv
      rw [hv] at hcases
      simp only [reduceCtorEq, false_and, false_or, true_and] at hcases
      rcases hcases with ⟨-, hr, hmode⟩ | ⟨hl, -, hmode⟩
      · refine .inr (.inl ⟨hr.symm, ?_⟩)
        rw [effectiveMode] at hmode
        split_ifs at hmode with hw
        · exact .inr hw.1
        · exact .inl hmode
      · refine .inr (.inr ⟨hl.symm, ?_⟩)
        rw [effectiveMode] at hmode
        split_ifs at hmode
        exact hmode
    · rw [Replicas.verdict, planVerdict] at hv
      rw [hv] at hcases
      simp only [reduceCtorEq, false_and, false_or, or_false, true_and] at hcases
      exact .inr (.inl ⟨hcases.2.1.symm, .inr hw⟩)

/-- a file edited at home and a file another machine removed -/
def edited : Replicas where
  baseline := (∅ : Files).insert "a" ⟨"1", 1, 0o600, ""⟩ |>.insert "b" ⟨"2", 1, 0o600, ""⟩
  localFiles := (∅ : Files).insert "a" ⟨"3", 1, 0o600, ""⟩ |>.insert "b" ⟨"2", 1, 0o600, ""⟩
  remote := (∅ : Files).insert "a" ⟨"1", 1, 0o600, ""⟩

/-- after one round the edit is in the repository, the removed file is gone and nothing is left to do -/
theorem edited_settles : (edited.round .bidirectional true).remote.lookup "a" = some ⟨"3", 1, 0o600, ""⟩ ∧
    (edited.round .bidirectional true).localFiles.lookup "b" = none ∧
    (edited.round .bidirectional true).plan .bidirectional true = {} :=
  ⟨((round_settles edited .bidirectional true).1 "a" (by decide) (by decide) (by decide) rfl).2,
    ((round_settles edited .bidirectional true).2.1 "b" (by decide) (by decide) (by decide)).1,
    (round_settles edited .bidirectional true).2.2.2.2.1⟩

end Paperboat.Config
