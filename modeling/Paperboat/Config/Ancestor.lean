/-
Is the baseline a common ancestor? Runs of whole cycles (Reconcile, then
PublicationCommitted) of one machine, with the user editing files at any moment and
other machines pushing between the cycles.

A cycle takes its first snapshot of the home directory, decides, writes, reads what it
publishes (and fails where that is not what the snapshot saw), lets git add and commit
the working tree, and takes a second snapshot, from which the next baseline is computed.
The user's edits come before or after the cycle's own write of a path; no more is needed
to cover every interleaving, because a cycle writes a path once. What git makes of the
working tree is a parameter of the cycle.

Results:
- `lookup_worktree`, `lookup_second`, `lookup_outcome_baseline`: a cycle, path by path;
- `Undisturbed.accepts`: the new baseline has for a path the repository's version or the
  old baseline's, where the user leaves the path alone during the cycle, git takes it as
  it is, and what the user resolves is not a whole configuration;
- `baseline_is_ancestor`: **the ancestor**; in every run of such cycles each version of
  the path in the baseline was in the repository, and a version that is overwritten as
  unchanged was too.

Witnesses:
- `draft_published`: a version the user writes between two cycles;
- `draft_lost`: an edit during a cycle, which is lost.

Premises:
- a cycle that fails leaves the baseline and the repository; what it wrote to the home
  directory is an edit of the user;
- the path mapping and the policy do not change.
-/
import Paperboat.Core.Machine
import Paperboat.Config.Reconcile

namespace Paperboat.Config

open Fold Table Index Reconciliation

/-! ## Model -/

/-- what stays the same in a run -/
structure Assignment where
  descriptor : Descriptor
  digest : List String → String
  hashSnapshotBytes : Bytes → String

/-- a file that the user writes, or removes -/
structure Edit where
  path : Path
  state : Option FileState

def Edit.make (home : Files) (e : Edit) : Files :=
  match e.state with
  | some state => home.insert e.path state
  | none => home.erase e.path

/-- the home directory, the repository and the baseline; `history` has what the repository had at the revisions for
which a baseline was written -/
structure Replica where
  home : Files
  repository : Files
  revision : String
  baseline : Files := ∅
  baselineRevision : String := ""
  frozen : FrozenPaths := ∅
  history : List Files := []

/-- what a cycle meets on its way: the answers of the file system and of the server, the edits before and after its
own writes, and git's answer: nothing when the status of the working tree is clean, otherwise the commit and the
files in it -/
structure Cycle where
  readers : Readers
  materialized : Bool
  resolutions : Option (List ConflictResolution)
  before : List Edit
  after : List Edit
  commit : Option (String × Files)

def nextFrozenPaths (previous : FrozenPaths) (conflicts : List PathSummary) (baseRevision : String) : FrozenPaths :=
  let baseRevision := if baseRevision = "" then "absent" else baseRevision
  conflicts.foldl (fun result conflict =>
    match previous.lookup conflict.path with
    | some frozen => result.insert conflict.path frozen
    | none => result.insert conflict.path ⟨baseRevision, conflict.revision⟩) ∅

/-- what a cycle comes to: the second snapshot, the repository at the revision of the baseline, and the baseline -/
structure Outcome where
  second : Files
  published : Files
  committed : Bool
  baseline : Files
  frozen : FrozenPaths

section Cycle

variable (a : Assignment) (s : Replica) (c : Cycle)

def mergedState (content : MergedContent) : FileState :=
  ⟨a.hashSnapshotBytes content.value, content.value.length, content.mode, ""⟩

/-- the merged contents in the place of the files -/
def writeMerged (merged : Merged) (files : Files) : Files :=
  merged.keys.foldl (Table.fill fun p => (merged.lookup p).map (mergedState a)) files

/-- what Reconcile reads -/
def Replica.reconciliation : Reconciliation where
  descriptor := a.descriptor
  revision := s.revision
  baseline := s.baseline
  baselineRevision := s.baselineRevision
  frozen := s.frozen
  localFiles := s.home
  remote := s.repository
  readers := c.readers
  materialized := c.materialized
  resolutions := c.resolutions
  digest := a.digest

/-- the states a publication expects, the merged ones first -/
def Replica.expected (d : Decision) : Files := writeMerged a d.merged s.home

/-- the home directory after the cycle's own writes -/
def Replica.written (d : Decision) : Files :=
  writeMerged a d.merged (d.plan.apply s.repository (c.before.foldl Edit.make s.home))

/-- the working tree that git is asked to add -/
def Replica.worktree (d : Decision) : Files := d.plan.publish (s.expected a d) s.repository

def Replica.outcome (d : Decision) : Outcome :=
  let published := (c.commit.map Prod.snd).getD s.repository
  let committed := c.commit.isSome
  let second := c.after.foldl Edit.make (s.written a c d)
  let accepted := acceptedBaseline d.baseline second (if committed then second else s.repository) a.descriptor.mode
    a.descriptor.writesEnabled
  { second, published, committed
    baseline := freezeConflictBaseline accepted d.baseline d.plan.conflicts
    frozen := nextFrozenPaths d.frozen d.plan.conflicts s.baselineRevision }

/-- a cycle, or nothing where it fails -/
def Replica.cycle : Option Outcome :=
  match (s.reconciliation a c).decision with
  | none => none
  | some d =>
    if d.plan.publishUpdates.any fun p => (s.written a c d).lookup p ≠ (s.expected a d).lookup p then none
    else some (s.outcome a c d)

end Cycle

inductive SyncOp
  /-- the user edits a file between two cycles -/
  | edit (e : Edit)
  /-- another machine publishes -/
  | push (files : Files) (revision : String)
  | cycle (c : Cycle)

def Replica.step (a : Assignment) (s : Replica) : SyncOp → Replica
  | .edit e => { s with home := e.make s.home }
  | .push files revision => { s with repository := files, revision }
  | .cycle c =>
    match s.cycle a c with
    | none => s
    | some o =>
      let revision := (c.commit.map Prod.fst).getD s.revision
      { home := o.second, repository := o.published, revision, baseline := o.baseline, baselineRevision := revision,
        frozen := o.frozen, history := o.published :: s.history }

/-! ## A cycle, path by path -/

theorem Edit.lookup_make (home : Files) (e : Edit) (p : Path) :
    (e.make home).lookup p = if p = e.path then e.state else home.lookup p := by
  unfold Edit.make
  cases e.state with
  | some state => rw [lookup_insert_if]
  | none => rw [lookup_erase_if]

theorem Edit.lookup_foldl_make {edits : List Edit} {p : Path} (h : p ∉ edits.map path) (home : Files) :
    (edits.foldl Edit.make home).lookup p = home.lookup p := by
  induction edits generalizing home with
  | nil => rfl
  | cons e edits ih =>
    rw [List.map_cons, List.mem_cons, not_or] at h
    rw [List.foldl_cons, ih h.2, lookup_make, if_neg h.1]

open Replica

section Paths

variable {a : Assignment} {s : Replica} {c : Cycle} {d : Decision} {p : Path}

theorem lookup_writeMerged (merged : Merged) (files : Files) (p : Path) :
    (writeMerged a merged files).lookup p = ((merged.lookup p).map (mergedState a)).or (files.lookup p) := by
  rw [writeMerged, lookup_foldl_fill]
  split_ifs with hp
  · rfl
  · have hnone : merged.lookup p = none := AList.lookup_eq_none.2 fun h => hp (AList.mem_keys.1 h)
    simp [hnone]

variable (a s c) in
/-- what the cycle does with a path in the end -/
def Replica.verdict (p : Path) : Verdict := (s.reconciliation a c).finalVerdict p

variable (a) in
/-- whether the cycle takes the home directory over into the baseline as it is: when it may publish, or does -/
def Outcome.accepting (o : Outcome) : Bool :=
    (a.descriptor.mode != .pullOnly && a.descriptor.writesEnabled) || o.committed

section

variable (h : (s.reconciliation a c).decision = some d)
include h

/-- the plan is for what is expected to be published as well: what merges is a file of the home directory -/
theorem follows_expected : d.plan.Follows (s.expected a d) s.repository (s.verdict a c) := by
  have hfollows := plan_follows_finalVerdict h
  have hsome : ∀ p, ((s.expected a d).lookup p).isSome = (s.home.lookup p).isSome := by
    intro p
    rw [expected, lookup_writeMerged, decision_eq h]
    cases hm : (s.reconciliation a c).merged.lookup p with
    | none => simp
    | some content =>
      have hclean : (s.home.lookup p).isSome = true :=
        (merged_isSome.1 (by rw [hm]; rfl)).localFiles_isSome
      simpa using hclean
  exact ⟨fun p => by rw [hsome]; exact hfollows.publishUpdates p,
    fun p => by rw [hsome]; exact hfollows.publishDeletes p,
    hfollows.applyRemote, hfollows.deleteLocal, hfollows.conflicts⟩

theorem lookup_worktree : (s.worktree a d).lookup p =
    if s.verdict a c p = .publish then (s.expected a d).lookup p else s.repository.lookup p :=
  (follows_expected h).lookup_publish s.repository p

/-- where the user edits nothing the second snapshot has what the cycle wrote, or the first snapshot -/
theorem lookup_second (hbefore : p ∉ c.before.map Edit.path)
    (hafter : p ∉ c.after.map Edit.path) : (s.outcome a c d).second.lookup p =
      ((d.merged.lookup p).map (mergedState a)).or
        (if s.verdict a c p = .apply then s.repository.lookup p else s.home.lookup p) := by
  have hsecond : (s.outcome a c d).second = c.after.foldl Edit.make (s.written a c d) := rfl
  rw [hsecond, Edit.lookup_foldl_make hafter, written, lookup_writeMerged, (follows_expected h).lookup_apply,
    Edit.lookup_foldl_make hbefore]

theorem lookup_outcome_baseline : (s.outcome a c d).baseline.lookup p =
    if s.verdict a c p = .conflict then d.baseline.lookup p
    else if (s.outcome a c d).accepting a = true ∨ (s.outcome a c d).second.lookup p = s.repository.lookup p then
      (s.outcome a c d).second.lookup p
    else d.baseline.lookup p := by
  have hbaseline : (s.outcome a c d).baseline =
      freezeConflictBaseline (acceptedBaseline d.baseline (s.outcome a c d).second
      (if (s.outcome a c d).committed then (s.outcome a c d).second else s.repository) a.descriptor.mode
      a.descriptor.writesEnabled) d.baseline d.plan.conflicts := rfl
  rw [hbaseline, lookup_freezeConflictBaseline, lookup_acceptedBaseline]
  simp only [(follows_expected h).conflicts]
  refine if_congr Iff.rfl rfl (if_congr ?_ rfl rfl)
  rw [Outcome.accepting]
  cases (s.outcome a c d).committed <;> simp

end

/-! ## What the baseline takes over -/

variable (a s c) in
/-- git has the path as it is in the working tree, and finds nothing to commit in a tree that is the repository -/
structure Replica.Takes (d : Decision) (p : Path) : Prop where
  path : (s.outcome a c d).published.lookup p = (s.worktree a d).lookup p
  clean : (∀ q, (s.worktree a d).lookup q = s.repository.lookup q) → c.commit = none

variable (a s c) in
/-- the user leaves the path alone during the cycle, git takes it, and no resolution applies, or only resolutions of
single paths in an assignment that synchronises both ways -/
structure Replica.Undisturbed (p : Path) : Prop where
  before : p ∉ c.before.map Edit.path
  after : p ∉ c.after.map Edit.path
  git : ∀ d, (s.reconciliation a c).decision = some d → s.Takes a c d p
  resolutions : (∀ resolution ∈ c.resolutions.getD [], ¬ (s.reconciliation a c).Applies resolution) ∨
    a.descriptor.mode = .bidirectional ∧ a.descriptor.writesEnabled = true ∧
      ∀ resolution ∈ c.resolutions.getD [], (s.reconciliation a c).Applies resolution → resolution.scope ≠ .config

theorem cycle_eq_some {o : Outcome} (h : s.cycle a c = some o) :
    ∃ d, (s.reconciliation a c).decision = some d ∧ o = s.outcome a c d := by
  unfold cycle at h
  cases hd : (s.reconciliation a c).decision with
  | none =>
    rw [hd] at h
    cases h
  | some d =>
    rw [hd] at h
    dsimp only at h
    split_ifs at h
    exact ⟨d, rfl, (Option.some.inj h).symm⟩

/-- the baseline of a reported conflict is the old one -/
theorem old_baseline_of_conflict (h : s.verdict a c p = .conflict) :
    (s.reconciliation a c).resolving.baseline.lookup p = s.baseline.lookup p := by
  obtain ⟨hl, hr⟩ := baseline_of_conflict h
  rcases (settled_resolving (s.reconciliation a c)).sides p with ⟨-, heq⟩ | heq | heq
  · exact heq
  · exact absurd heq hl
  · exact absurd heq hr

theorem resolved_eq_nil (h : ∀ resolution ∈ c.resolutions.getD [], ¬ (s.reconciliation a c).Applies resolution) :
    (s.reconciliation a c).resolving.resolved = [] := by
  refine List.eq_nil_iff_forall_not_mem.2 fun resolution hmem => ?_
  obtain ⟨hpending, happlies⟩ := ((settled_resolving (s.reconciliation a c)).resolved resolution).1 hmem
  exact h resolution hpending happlies

theorem Replica.Undisturbed.forcedMode (h : s.Undisturbed a c p) :
    (s.reconciliation a c).resolving.forcedMode = none := by
  have hsettled := settled_resolving (s.reconciliation a c)
  by_contra hne
  obtain ⟨resolution, hmem, hscope⟩ := hsettled.config.1 hne
  obtain ⟨hpending, happlies⟩ := (hsettled.resolved resolution).1 hmem
  rcases h.resolutions with hnone | ⟨-, -, hpaths⟩
  · exact hnone resolution hpending happlies
  · exact hpaths resolution hpending happlies hscope

/-- a merge is published, or reported as a conflict -/
theorem Replica.Undisturbed.not_merged (h : s.Undisturbed a c p) (hconflict : s.verdict a c p ≠ .conflict)
    (hpublish : s.verdict a c p ≠ .publish) : (s.reconciliation a c).merged.lookup p = none := by
  by_contra hne
  have hsome := Option.isSome_iff_ne_none.2 hne
  by_cases hresolved : (s.reconciliation a c).resolving.resolved = []
  · refine hpublish ?_
    rw [verdict, finalVerdict, if_pos hresolved, if_pos hsome]
  · exact hconflict (conflict_of_merge (merged_isSome.1 hsome) hresolved h.forcedMode)

theorem mode_of_writes (h : a.descriptor.writesEnabled = true) : (s.reconciliation a c).mode = a.descriptor.mode := by
  have hmode : (s.reconciliation a c).mode = effectiveMode a.descriptor.mode a.descriptor.writesEnabled := rfl
  rw [hmode, effectiveMode, h]
  simp

/-- where no resolution applies nothing is published by an assignment that may not write -/
theorem may_publish (hnone : (s.reconciliation a c).resolving.resolved = []) (hpublish : s.verdict a c p = .publish) :
    a.descriptor.mode ≠ .pullOnly ∧ a.descriptor.writesEnabled = true := by
  have hwrites : a.descriptor.writesEnabled = true ∧ (s.reconciliation a c).mode ≠ .pullOnly := by
    rw [Replica.verdict, finalVerdict, if_pos hnone] at hpublish
    split_ifs at hpublish with hmerged
    · have hmerges := (merged_isSome.1 hmerged).1
      rw [merges, Bool.and_eq_true, Bool.and_eq_true, beq_iff_eq] at hmerges
      exact ⟨hmerges.1.1, by rw [hmerges.1.2]; decide⟩
    · obtain ⟨hverdict, hwrites⟩ := Verdict.withWrites_eq_publish.1 hpublish
      refine ⟨hwrites, fun hmode => ?_⟩
      rw [planVerdict, hmode, verdict] at hverdict
      split_ifs at hverdict with h1 h2 h3
      exact h3.2 rfl
  rw [mode_of_writes hwrites.1] at hwrites
  exact ⟨hwrites.2, hwrites.1⟩

/-- what is suppressed although the assignment may publish is a version of the home directory that did not change -/
theorem Replica.Undisturbed.old_of_suppressed (h : s.Undisturbed a c p) (hmode : a.descriptor.mode ≠ .pullOnly)
    (hwrites : a.descriptor.writesEnabled = true) (hsuppressed : s.verdict a c p = .suppressed) :
    s.home.lookup p = s.baseline.lookup p := by
  have hsettled := settled_resolving (s.reconciliation a c)
  -- no forced path is suppressed, so that the entries were compared
  have hcompared : Config.verdict ((s.reconciliation a c).resolving.baseline.lookup p) (s.home.lookup p)
      (s.repository.lookup p) a.descriptor.mode = .suppressed := by
    rw [← mode_of_writes (s := s) (c := c) hwrites]
    rw [verdict, finalVerdict, h.forcedMode, Option.getD_none] at hsuppressed
    have hkeep : ∀ v : Verdict, v.withWrites a.descriptor.writesEnabled = v :=
        fun v => by simp [Verdict.withWrites, hwrites]
    split_ifs at hsuppressed with hnone hmerged
    · rw [hsettled.untouched hnone]
      exact (hkeep _).symm.trans hsuppressed
    · have hforced := (hkeep _).symm.trans hsuppressed
      cases haction : (s.reconciliation a c).resolving.forcedPaths.lookup p with
      | none =>
        rw [haction] at hforced
        exact hforced
      | some action =>
        rw [haction] at hforced
        cases action <;> cases hforced
  have hpush : (s.reconciliation a c).resolving.baseline.lookup p = s.home.lookup p ∧
      a.descriptor.mode = .pushOnly := by
    unfold Config.verdict at hcompared
    split_ifs at hcompared with h1 h2 h3 h4
    refine ⟨?_, ?_⟩
    · by_contra hne
      exact h3 ⟨hne, hmode⟩
    · by_contra hne
      by_cases hl : (s.reconciliation a c).resolving.baseline.lookup p = s.home.lookup p
      · exact h4 ⟨fun hr => h1 (hl.symm.trans hr), hne⟩
      · exact h3 ⟨hl, hmode⟩
  rcases h.resolutions with hnone | ⟨hboth, -, -⟩
  · rw [← hpush.1, hsettled.untouched (resolved_eq_nil hnone)]
    rfl
  · cases hboth.symm.trans hpush.2

/-- what is neither a conflict nor suppressed is the same on both sides after the cycle -/
theorem Replica.Undisturbed.second (hu : s.Undisturbed a c p) (h : (s.reconciliation a c).decision = some d)
    (hconflict : s.verdict a c p ≠ .conflict) (hsuppressed : s.verdict a c p ≠ .suppressed) :
    (s.outcome a c d).second.lookup p = (s.outcome a c d).published.lookup p := by
  rw [lookup_second h hu.before hu.after, (hu.git d h).path, lookup_worktree h, expected, lookup_writeMerged]
  by_cases hpublish : s.verdict a c p = .publish
  · simp [hpublish]
  have hnone : d.merged.lookup p = none := by
    rw [decision_eq h]
    exact hu.not_merged hconflict hpublish
  rw [hnone]
  cases hv : s.verdict a c p with
  | apply => simp
  | same =>
    obtain ⟨mode, heq⟩ := finalVerdict_compared (.inr hv)
    have hsame : s.home.lookup p = s.repository.lookup p := by
      have hverdict : Config.verdict ((s.reconciliation a c).resolving.baseline.lookup p) (s.home.lookup p)
          (s.repository.lookup p) mode = .same := heq.symm.trans hv
      unfold Config.verdict at hverdict
      by_contra hne
      rw [if_neg hne] at hverdict
      split_ifs at hverdict
    simp [hsame]
  | publish => exact absurd hv hpublish
  | conflict => exact absurd hv hconflict
  | suppressed => exact absurd hv hsuppressed

/-- a cycle that may not publish commits nothing, unless the user resolves conflicts -/
theorem Replica.Undisturbed.commit_eq_none (hu : s.Undisturbed a c p) (h : (s.reconciliation a c).decision = some d)
    (hnot : ¬ (a.descriptor.mode ≠ .pullOnly ∧ a.descriptor.writesEnabled = true)) :
    c.commit = none ∧ (s.reconciliation a c).resolving.resolved = [] := by
  have hnone : (s.reconciliation a c).resolving.resolved = [] := by
    rcases hu.resolutions with hnone | ⟨hboth, hwrites, -⟩
    · exact resolved_eq_nil hnone
    · exact absurd ⟨by rw [hboth]; decide, hwrites⟩ hnot
  refine ⟨(hu.git d h).clean fun q => ?_, hnone⟩
  rw [lookup_worktree h, if_neg fun hpublish => hnot (may_publish hnone hpublish)]

/-- **One cycle.** The new baseline has for the path what the repository has at its revision, or what the old
baseline had. -/
theorem Replica.Undisturbed.accepts (hu : s.Undisturbed a c p) (h : (s.reconciliation a c).decision = some d) :
    (s.outcome a c d).baseline.lookup p = (s.outcome a c d).published.lookup p ∨
      (s.outcome a c d).baseline.lookup p = s.baseline.lookup p := by
  have hbaseline : d.baseline = (s.reconciliation a c).resolving.baseline := by rw [decision_eq h]
  rw [lookup_outcome_baseline h, hbaseline]
  by_cases hconflict : s.verdict a c p = .conflict
  · rw [if_pos hconflict]
    exact .inr (old_baseline_of_conflict hconflict)
  rw [if_neg hconflict]
  by_cases hmay : a.descriptor.mode ≠ .pullOnly ∧ a.descriptor.writesEnabled = true
  · have haccepting : (s.outcome a c d).accepting a = true := by simp [Outcome.accepting, hmay]
    rw [if_pos (.inl haccepting)]
    by_cases hsuppressed : s.verdict a c p = .suppressed
    · have hnone : d.merged.lookup p = none := by
        rw [decision_eq h]
        exact hu.not_merged hconflict (by rw [hsuppressed]; decide)
      refine .inr ?_
      rw [lookup_second h hu.before hu.after, hnone, hsuppressed]
      exact hu.old_of_suppressed hmay.1 hmay.2 hsuppressed
    · exact .inl (hu.second h hconflict hsuppressed)
  · obtain ⟨hcommit, hnone⟩ := hu.commit_eq_none h hmay
    have hpublished : (s.outcome a c d).published = s.repository := by
      have heq : (s.outcome a c d).published = (c.commit.map Prod.snd).getD s.repository := rfl
      rw [heq, hcommit]
      rfl
    rw [hpublished, (settled_resolving (s.reconciliation a c)).untouched hnone]
    split_ifs with hsame
    · rcases hsame with haccepting | hsame
      · have hcommitted : (s.outcome a c d).committed = c.commit.isSome := rfl
        rw [Outcome.accepting, hcommitted, hcommit] at haccepting
        exact absurd (by simpa using haccepting) hmay
      · exact .inl hsame
    · exact .inr rfl

end Paths

/-! ## Runs -/

/-- a machine without a baseline -/
def Replica.start (home repository : Files) (revision : String) : Replica := { home, repository, revision }

def Replica.after (a : Assignment) (s : Replica) (ops : List SyncOp) : Replica := Machine.run (step a) s ops

/-- the operation, if it is a cycle, leaves the path undisturbed -/
def Replica.Allows (a : Assignment) (p : Path) (s : Replica) : SyncOp → Prop
  | .cycle c => s.Undisturbed a c p
  | _ => True

/-- the version of the path in the baseline was in the repository -/
def Replica.Ancestral (p : Path) (s : Replica) : Prop :=
  ∀ state, s.baseline.lookup p = some state → ∃ files ∈ s.history, files.lookup p = some state

section Runs

variable {a : Assignment} {s : Replica} {p : Path}

theorem baseline_of_cycle {c : Cycle} {o : Outcome} (hu : s.Undisturbed a c p) (h : s.cycle a c = some o)
    {state : FileState} (hstate : o.baseline.lookup p = some state) :
    o.published.lookup p = some state ∨ s.baseline.lookup p = some state := by
  obtain ⟨d, hd, rfl⟩ := cycle_eq_some h
  rcases hu.accepts hd with heq | heq
  · exact .inl (heq.symm.trans hstate)
  · exact .inr (heq.symm.trans hstate)

theorem Replica.Ancestral.step (h : s.Ancestral p) {op : SyncOp} (hop : s.Allows a p op) :
    (s.step a op).Ancestral p := by
  cases op with
  | edit | push => exact h
  | cycle c =>
    rw [Replica.step]
    cases ho : s.cycle a c with
    | none => exact h
    | some o =>
      intro state hstate
      rcases baseline_of_cycle hop ho hstate with hpublished | hold
      · exact ⟨o.published, List.mem_cons_self, hpublished⟩
      · obtain ⟨files, hfiles, hfound⟩ := h state hold
        exact ⟨files, List.mem_cons_of_mem _ hfiles, hfound⟩

theorem Replica.Ancestral.overwritten {c : Cycle} {d : Decision} {state : FileState} (h : s.Ancestral p)
    (hd : (s.reconciliation a c).decision = some d) (hp : p ∈ d.plan.applyRemote ∨ p ∈ d.plan.deleteLocal)
    (hother : ∀ resolution ∈ c.resolutions.getD [], (s.reconciliation a c).Applies resolution →
      resolution.scope ≠ .config ∧ resolution.path ≠ p) (hstate : s.home.lookup p = some state) :
    ∃ files ∈ s.history, files.lookup p = some state := by
  have hfollows := plan_follows_finalVerdict hd
  have hverdict : (s.reconciliation a c).finalVerdict p = .apply := by
    rcases hp with hp | hp
    · exact ((hfollows.applyRemote p).1 hp).1
    · exact ((hfollows.deleteLocal p).1 hp).1
  refine h state (Eq.trans (baseline_of_apply hverdict fun resolution hmem => ?_) hstate)
  obtain ⟨hpending, happlies⟩ := ((settled_resolving (s.reconciliation a c)).resolved resolution).1 hmem
  exact hother resolution hpending happlies

end Runs

/-- **The ancestor.** In a run whose cycles leave the path undisturbed, the next such cycle writes a baseline with
the version that the repository has at its revision or the old baseline had. The version in the baseline was in the
repository, and so was a version that the next cycle overwrites without a conflict, unless the user resolves one for
it. -/
theorem baseline_is_ancestor (a : Assignment) (home repository : Files) (revision : String)
    (ops : List SyncOp) (p : Path)
    (hops : Machine.Throughout (step a) (start home repository revision) (Allows a p) ops) :
    let s := (start home repository revision).after a ops
    (∀ c o state, s.Undisturbed a c p → s.cycle a c = some o → o.baseline.lookup p = some state →
      o.published.lookup p = some state ∨ s.baseline.lookup p = some state) ∧
    (∀ state, s.baseline.lookup p = some state → ∃ files ∈ s.history, files.lookup p = some state) ∧
    ∀ c d state, (s.reconciliation a c).decision = some d → p ∈ d.plan.applyRemote ∨ p ∈ d.plan.deleteLocal →
      (∀ resolution ∈ c.resolutions.getD [], (s.reconciliation a c).Applies resolution →
        resolution.scope ≠ .config ∧ resolution.path ≠ p) →
      s.home.lookup p = some state → ∃ files ∈ s.history, files.lookup p = some state := by
  intro s
  have hancestral : s.Ancestral p :=
    Machine.throughout_inv (step a) _ (I := Ancestral p) (fun state h => by simp [start] at h)
      (fun s op hop hs => hs.step hop) hops
  exact ⟨fun c o state hu ho hstate => baseline_of_cycle hu ho hstate, hancestral,
    fun c d state hd hp hother hstate => hancestral.overwritten hd hp hother hstate⟩

/-- an assignment that synchronises both ways -/
def bothWays : Assignment := ⟨⟨"r", "a", .bidirectional, true, "", "", 100⟩, fun _ => "", fun _ => ""⟩

def version (hash : String) : FileState := ⟨hash, 1, 0o600, ""⟩

/-- one file with this version -/
def draft (hash : String) : Files := (∅ : Files).insert "f" (version hash)

/-- a cycle in which the user edits files after the first snapshot, and git's answer -/
def editing (edits : List Edit) (commit : Option (String × Files)) : Cycle where
  readers := ⟨fun _ _ => none, fun _ _ => none, fun _ _ => none⟩
  materialized := true
  resolutions := none
  before := []
  after := edits
  commit := commit

/-- a run from version 1 on both sides -/
def draftRun (ops : List SyncOp) : Replica := (start (draft "1") (draft "1") "r1").after bothWays ops

/-- the user saves version 2 between two cycles, and the second one publishes it -/
def publishOps : List SyncOp :=
  [.cycle (editing [] none), .edit ⟨"f", some (version "2")⟩, .cycle (editing [] (some ("c", draft "2")))]

theorem draft_published : (draftRun publishOps).baseline.lookup "f" = some (version "2") ∧
    ∃ files ∈ (draftRun publishOps).history, files.lookup "f" = some (version "2") := by
  have hbaseline : (draftRun publishOps).baseline.lookup "f" = some (version "2") := by decide +kernel
  refine ⟨hbaseline, (baseline_is_ancestor bothWays (draft "1") (draft "1") "r1" publishOps "f" ?_).2.1 _ hbaseline⟩
  rw [publishOps, Machine.throughout_cons, Machine.throughout_cons, Machine.throughout_cons]
  refine ⟨⟨by simp [editing], by simp [editing], fun d hd => ?_, .inl fun _ hmem => by cases hmem⟩, trivial,
    ⟨by simp [editing], by simp [editing], fun d hd => ?_, .inl fun _ hmem => by cases hmem⟩,
    fun _ _ hpre => absurd hpre (by simp)⟩
  · cases hd
    exact ⟨by decide +kernel, fun _ => rfl⟩
  · cases hd
    exact ⟨by decide +kernel, fun hclean => absurd (hclean "f") (by decide +kernel)⟩

/-- the user saves version 2 during a cycle that has nothing to do, then another machine publishes version 3 -/
def draftOps : List SyncOp := [.cycle (editing [⟨"f", some (version "2")⟩] none), .push (draft "3") "r2"]

/-- version 2 is in the baseline and was never published, so that the next cycle takes it for unchanged and
overwrites it without a conflict -/
theorem draft_lost : (draftRun draftOps).baseline.lookup "f" = some (version "2") ∧
    (draftRun draftOps).history = [draft "1"] ∧ (draftRun draftOps).home.lookup "f" = some (version "2") ∧
    (draftRun (draftOps ++ [.cycle (editing [] none)])).home.lookup "f" = some (version "3") ∧
    ∃ d, ((draftRun draftOps).reconciliation bothWays (editing [] none)).decision = some d ∧ d.plan.conflicts = [] := by
  refine ⟨?_, rfl, ?_, ?_, _, rfl, ?_⟩ <;> decide +kernel

end Paperboat.Config
