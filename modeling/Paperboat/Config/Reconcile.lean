/-
What a Reconcile decides before it writes (workspace_reconciler.go,
workspace_reconciler_merge.go, conflict_resolution.go): the plan, the conflicts that
merge cleanly, the pending resolutions of the user, and the plan computed again when one
of them applies.

Results:
- `Resolves`, `Settled`: what a turn of the loop over the resolutions does, and what the
  loop makes of the baseline;
- `finalVerdict`, `plan_follows_finalVerdict`: what is done with a path in the end;
- `conflicts_untouched_iff`: **reported conflicts are untouched** exactly when no
  conflict merges cleanly, or no resolution applies, or the whole configuration is
  forced.

Witnesses:
- `notes_untouched`: a merge, and a conflict without a resolution;
- `notes_overwritten`: a merge that is written although it is reported.

Premises:
- the contents of files are read through `Readers`, and SHA-256 is a parameter;
- the private copies of conflicts (preserveConflicts) are not modelled: a failure there
  ends the call before anything is written.
-/
import Paperboat.Core.Text
import Paperboat.Config.TextMerge
import Paperboat.Config.Rounds

namespace Paperboat.Config

open Fold Table Index Text PathSummary

/-! ## Model -/

/-- the parts of the runtime descriptor that the decision reads; WriteMode is "leased_writes" or not -/
structure Descriptor where
  repositoryID : String
  assignmentID : String
  mode : AssignmentMode
  writesEnabled : Bool
  pullRepositoryID : String
  pushRepositoryID : String
  maxFileBytes : ℤ

structure FrozenPath where
  baseRevision : String
  conflictRevision : String
deriving DecidableEq, Repr

abbrev FrozenPaths := AList fun _ : Path => FrozenPath

inductive Scope
  | config
  | path
  | other
deriving DecidableEq, Repr

inductive Action
  | keepLocal
  | keepRemote
  | forcePull
  | forcePush
  | other
deriving DecidableEq, Repr

structure ConflictResolution where
  id : String
  path : Path
  conflictRevision : String
  expectedRemoteRevision : String
  scope : Scope
  action : Action
deriving DecidableEq, Repr

def safeConflictRevision (value : String) : Bool :=
  value.length == 64 && value.toList.all fun c => ('a' ≤ c && c ≤ 'f') || ('0' ≤ c && c ≤ '9')

/-- filepath.Clean leaves the path, which does not start with a slash, as it is: no empty parts and no ".", and ".."
at the front only -/
def cleanPath (path : String) : Bool :=
  let parts := split path '/'
  parts.all (fun part => part ≠ "" && part ≠ ".") && (parts.dropWhile (· == "..")).all (· ≠ "..")

def safeRelativeStatusPath (path : String) : Bool :=
  let path := trimSpace path
  path != "" && decide (path.utf8ByteSize ≤ 512) && path != "." && !hasPrefix path "/" && !contains path "\x00" &&
    cleanPath path && path != ".." && !hasPrefix path "../"

def ConflictResolution.valid (r : ConflictResolution) : Bool :=
  if r.id = "" ∨ safeConflictRevision r.conflictRevision = false ∨ r.expectedRemoteRevision = "" then false
  else if r.scope = .config then r.path == "." && (r.action == .forcePull || r.action == .forcePush)
  else r.scope == .path && safeRelativeStatusPath r.path && r.action != .other

def leavesToOtherDirection (d : Descriptor) (r : ConflictResolution) : Bool :=
  match d.mode with
  | .pullOnly => d.pushRepositoryID != "" && (r.action == .keepLocal || r.action == .forcePush)
  | .pushOnly => d.pullRepositoryID != "" && (r.action == .keepRemote || r.action == .forcePull)
  | .bidirectional => false

/-- the conflicts that may be merged, and those that wait for the user already -/
def partitionFrozenConflicts (conflicts : List PathSummary) (frozen : FrozenPaths) :
    List PathSummary × List PathSummary :=
  (conflicts.filter fun c => (frozen.lookup c.path).isNone,
    conflicts.filterMap fun c => (frozen.lookup c.path).map fun ancestry =>
      { c with revision := ancestry.conflictRevision })

structure MergedContent where
  value : Bytes
  mode : BitVec 32
deriving DecidableEq, Repr

abbrev Merged := AList fun _ : Path => MergedContent

/-- the verified contents of the three sides (readVerifiedState, PathMapping.read); none where the file is not in
the state the snapshot has -/
structure Readers where
  base : Path → FileState → Option Bytes
  localText : Path → FileState → Option Bytes
  remote : Path → FileState → Option Bytes

def modeSymlink : BitVec 32 := 1 <<< 27

def perm (mode : BitVec 32) : BitVec 32 := mode &&& 0o777

/-- one turn of the loop of mergeConflicts: the merged content, or the reason why there is none -/
def mergeConflict (readers : Readers) (maxBytes : ℤ) (path : Path) (base localState remote : Option FileState) :
    Except String MergedContent :=
  match base, localState, remote with
  | some base, some localState, some remote =>
    if base.mode &&& modeSymlink ≠ 0 ∨ localState.mode &&& modeSymlink ≠ 0 ∨ remote.mode &&& modeSymlink ≠ 0 then
      .error "type_change"
    else if perm base.mode ≠ perm localState.mode ∨ perm localState.mode ≠ perm remote.mode then .error "mode_change"
    else
      match readers.base path base, readers.localText path localState, readers.remote path remote with
      | some baseValue, some localValue, some remoteValue =>
        match mergeRegularText baseValue localValue remoteValue maxBytes with
        | .ok value => .ok ⟨value, perm localState.mode⟩
        | .error _ => .error "merge_conflict"
      | _, _, _ => .error "source_changed"
  | _, _, _ => .error "delete_modify"

/-- everything a Reconcile reads -/
structure Reconciliation where
  descriptor : Descriptor
  /-- the revision of the repository that was fetched -/
  revision : String
  baseline : Files
  /-- the revision the baseline was written for, or "" without one -/
  baselineRevision : String
  frozen : FrozenPaths
  localFiles : Files
  remote : Files
  readers : Readers
  /-- whether the revision of the baseline can be checked out -/
  materialized : Bool
  /-- what Pending answers, if there is an authority to ask -/
  resolutions : Option (List ConflictResolution)
  /-- the identity of a conflict (a SHA-256 of its parts) -/
  digest : List String → String

/-- the variables of the loop over the resolutions -/
structure Resolving where
  baseline : Files
  frozen : FrozenPaths
  resolved : List ConflictResolution := []
  forcedPaths : AList fun _ : Path => Action := ∅
  forcedMode : Option AssignmentMode := none

/-- what is decided before anything is written -/
structure Decision where
  baseline : Files
  frozen : FrozenPaths
  plan : ReconcilePlan
  merged : Merged
  resolved : List ConflictResolution

namespace Reconciliation

variable (r : Reconciliation)

def mode : AssignmentMode := effectiveMode r.descriptor.mode r.descriptor.writesEnabled

/-- the first plan, without the write setting -/
def firstPlan : ReconcilePlan := planReconciliationMode r.baseline r.localFiles r.remote r.mode

def candidates : List PathSummary := (partitionFrozenConflicts r.firstPlan.conflicts r.frozen).1

def frozenConflicts : List PathSummary := (partitionFrozenConflicts r.firstPlan.conflicts r.frozen).2

/-- whether conflicts are merged at all -/
def merges : Bool := r.descriptor.writesEnabled && r.mode == .bidirectional && r.baselineRevision != ""

def mergeAt (path : Path) : Except String MergedContent :=
  mergeConflict r.readers r.descriptor.maxFileBytes path (r.baseline.lookup path) (r.localFiles.lookup path)
    (r.remote.lookup path)

/-- mergeConflicts: the conflicts that remain, with their reasons -/
def remaining : List PathSummary :=
  if r.merges then
    r.candidates.filterMap fun c =>
      match r.mergeAt c.path with
      | .ok _ => none
      | .error reason => some { c with reason }
  else r.candidates

/-- mergeConflicts: the merged contents -/
def merged : Merged :=
  if r.merges then
    r.candidates.foldl (fun m c =>
      match r.mergeAt c.path with
      | .ok content => m.insert c.path content
      | .error _ => m) ∅
  else ∅

def identifyConflicts (conflicts : List PathSummary) : List PathSummary :=
  conflicts.map fun c =>
    { c with revision := r.digest [r.descriptor.repositoryID, r.descriptor.assignmentID, c.path,
        ((r.localFiles.lookup c.path).map FileState.hash).getD "deleted",
        ((r.remote.lookup c.path).map FileState.hash).getD "deleted"] }

/-- the plan after the merges; a conflict is identified by its two sides -/
def mergedPlan : ReconcilePlan :=
  let plan := r.firstPlan.withWrites r.descriptor.writesEnabled
  { plan with
    publishUpdates := dedup ((plan.publishUpdates ++ r.merged.keys).insertionSort (· ≤ ·))
    conflicts := r.identifyConflicts ((r.frozenConflicts ++ r.remaining).insertionSort fun a b => a.path ≤ b.path) }

/-- one turn of the loop over the resolutions; a path resolution applies to the conflict of its path -/
def resolve (s : Resolving) (resolution : ConflictResolution) : Resolving :=
  if leavesToOtherDirection r.descriptor resolution = true then s
  else if resolution.valid = false ∨ resolution.scope ≠ .config ∧ resolution.expectedRemoteRevision ≠ r.revision then s
  else if resolution.scope = .config then
    match resolution.action with
    | .forcePull =>
      { s with baseline := r.localFiles, forcedMode := some .pullOnly, resolved := s.resolved ++ [resolution] }
    | .forcePush =>
      { s with baseline := r.remote, forcedMode := some .pushOnly, resolved := s.resolved ++ [resolution] }
    | _ => { s with resolved := s.resolved ++ [resolution] }
  else if resolution.path ∈ r.mergedPlan.conflicts.map path then
    { s with
      baseline := match resolution.action with
        | .keepLocal | .forcePush => setBaselineState s.baseline resolution.path r.remote
        | .keepRemote | .forcePull => setBaselineState s.baseline resolution.path r.localFiles
        | .other => s.baseline
      forcedPaths := match resolution.action with
        | .forcePull | .forcePush => s.forcedPaths.insert resolution.path resolution.action
        | _ => s.forcedPaths
      resolved := s.resolved ++ [resolution]
      frozen := s.frozen.erase resolution.path }
  else s

def resolving : Resolving := (r.resolutions.getD []).foldl r.resolve { baseline := r.baseline, frozen := r.frozen }

end Reconciliation

/-- the first part of forcePlanPath: the path is taken out of every list -/
def ReconcilePlan.without (plan : ReconcilePlan) (path : Path) : ReconcilePlan where
  publishUpdates := plan.publishUpdates.filter (· ≠ path)
  publishDeletes := plan.publishDeletes.filter (· ≠ path)
  applyRemote := plan.applyRemote.filter (· ≠ path)
  deleteLocal := plan.deleteLocal.filter (· ≠ path)
  conflicts := plan.conflicts.filter (·.path ≠ path)

def forcePlanPath (plan : ReconcilePlan) (path : Path) (action : Action) (localFiles remote : Files) : ReconcilePlan :=
  let plan := plan.without path
  if action = .forcePull then
    if (remote.lookup path).isSome then { plan with applyRemote := plan.applyRemote ++ [path] }
    else { plan with deleteLocal := plan.deleteLocal ++ [path] }
  else if (localFiles.lookup path).isSome then { plan with publishUpdates := plan.publishUpdates ++ [path] }
  else { plan with publishDeletes := plan.publishDeletes ++ [path] }

namespace Reconciliation

variable (r : Reconciliation)

/-- the plan computed again after the resolutions; the code goes through the forced paths in any order -/
def resolvedPlan : ReconcilePlan :=
  let s := r.resolving
  let plan := planReconciliationMode s.baseline r.localFiles r.remote (s.forcedMode.getD r.mode)
  let plan := s.forcedPaths.entries.foldl (fun plan e => forcePlanPath plan e.1 e.2 r.localFiles r.remote) plan
  let plan := plan.withWrites r.descriptor.writesEnabled
  { plan with conflicts := r.identifyConflicts plan.conflicts }

/-- the decision, or nothing where the revision of the baseline cannot be checked out -/
def decision : Option Decision :=
  if r.candidates ≠ [] ∧ r.baselineRevision ≠ "" ∧ r.materialized = false then none
  else
    some
      { baseline := r.resolving.baseline
        frozen := r.resolving.frozen
        plan := if r.resolving.resolved = [] then r.mergedPlan else r.resolvedPlan
        merged := r.merged
        resolved := r.resolving.resolved }

end Reconciliation

/-- the paths that are written or removed at home: what is applied, and the merged contents -/
def Decision.localWrites (d : Decision) : List Path := d.plan.applyRemote ++ d.plan.deleteLocal ++ d.merged.keys

/-- the paths that are written or removed in the repository -/
def Decision.repositoryWrites (d : Decision) : List Path := d.plan.publishUpdates ++ d.plan.publishDeletes

/-! ## Conflicts that merge -/

namespace Reconciliation

variable {r : Reconciliation} {p : Path}

/-- both sides changed the path, and differently -/
def InConflict (r : Reconciliation) (p : Path) : Prop :=
    planVerdict r.baseline r.localFiles r.remote r.mode p = .conflict

instance : Decidable (r.InConflict p) := inferInstanceAs (Decidable (_ = _))

/-- a conflict that does not wait for the user yet and whose texts merge -/
def MergesCleanly (r : Reconciliation) (p : Path) : Prop :=
  r.merges = true ∧ r.InConflict p ∧ r.frozen.lookup p = none ∧ ∃ content, r.mergeAt p = .ok content

theorem mem_firstPlan_conflicts : p ∈ r.firstPlan.conflicts.map path ↔ r.InConflict p :=
  (planReconciliationMode_follows _ _ _ _).conflicts p

theorem mem_candidates : p ∈ r.candidates.map path ↔ r.InConflict p ∧ r.frozen.lookup p = none := by
  rw [← mem_firstPlan_conflicts]
  simp only [candidates, partitionFrozenConflicts, List.mem_map, List.mem_filter, Option.isNone_iff_eq_none]
  constructor
  · rintro ⟨c, ⟨hc, hfrozen⟩, rfl⟩
    exact ⟨⟨c, hc, rfl⟩, hfrozen⟩
  · rintro ⟨⟨c, hc, rfl⟩, hfrozen⟩
    exact ⟨c, ⟨hc, hfrozen⟩, rfl⟩

theorem mem_frozenConflicts : p ∈ r.frozenConflicts.map path ↔ r.InConflict p ∧ r.frozen.lookup p ≠ none := by
  rw [← mem_firstPlan_conflicts]
  simp only [frozenConflicts, partitionFrozenConflicts, List.mem_map, List.mem_filterMap, Option.map_eq_some_iff]
  constructor
  · rintro ⟨_, ⟨c, hc, ancestry, hancestry, rfl⟩, rfl⟩
    exact ⟨⟨c, hc, rfl⟩, by simp [hancestry]⟩
  · rintro ⟨⟨c, hc, rfl⟩, hfrozen⟩
    obtain ⟨ancestry, hancestry⟩ := Option.ne_none_iff_exists'.1 hfrozen
    exact ⟨_, ⟨c, hc, ancestry, hancestry, rfl⟩, rfl⟩

theorem mem_remaining : p ∈ r.remaining.map path ↔
    r.InConflict p ∧ r.frozen.lookup p = none ∧ ¬ r.MergesCleanly p := by
  rw [← and_assoc, ← mem_candidates, remaining]
  by_cases hm : r.merges = true
  · rw [if_pos hm]
    simp only [List.mem_map, List.mem_filterMap]
    constructor
    · rintro ⟨c, ⟨c', hc', hmerge⟩, rfl⟩
      cases hat : r.mergeAt c'.path with
      | ok content =>
        rw [hat] at hmerge
        cases hmerge
      | error reason =>
        rw [hat] at hmerge
        cases hmerge
        refine ⟨⟨c', hc', rfl⟩, ?_⟩
        rintro ⟨-, -, -, content, hok⟩
        rw [hat] at hok
        cases hok
    · rintro ⟨⟨c, hc, rfl⟩, hno⟩
      obtain ⟨hconflict, hfrozen⟩ := mem_candidates.1 (List.mem_map_of_mem hc)
      cases hat : r.mergeAt c.path with
      | ok content => exact absurd ⟨hm, hconflict, hfrozen, content, hat⟩ hno
      | error reason => exact ⟨{ c with reason }, ⟨c, hc, by rw [hat]⟩, rfl⟩
  · rw [if_neg hm]
    exact (and_iff_left fun h => hm h.1).symm

theorem identifyConflicts_paths (conflicts : List PathSummary) :
    (r.identifyConflicts conflicts).map path = conflicts.map path := by
  rw [identifyConflicts, List.map_map]
  rfl

/-- the conflicts that are left for the user -/
theorem mem_mergedPlan_conflicts : p ∈ r.mergedPlan.conflicts.map path ↔ r.InConflict p ∧ ¬ r.MergesCleanly p := by
  have hsort : ∀ l : List PathSummary, p ∈ (l.insertionSort fun a b => a.path ≤ b.path).map path ↔
      p ∈ l.map path := fun l => by simp only [List.mem_map, List.mem_insertionSort]
  rw [mergedPlan, identifyConflicts_paths, hsort, List.map_append, List.mem_append, mem_frozenConflicts, mem_remaining]
  constructor
  · rintro (⟨hconflict, hfrozen⟩ | ⟨hconflict, -, hno⟩)
    · exact ⟨hconflict, fun h => hfrozen h.2.2.1⟩
    · exact ⟨hconflict, hno⟩
  · rintro ⟨hconflict, hno⟩
    by_cases hfrozen : r.frozen.lookup p = none
    · exact .inr ⟨hconflict, hfrozen, hno⟩
    · exact .inl ⟨hconflict, hfrozen⟩

theorem lookup_merged : r.merged.lookup p =
    if r.merges = true ∧ r.InConflict p ∧ r.frozen.lookup p = none then (r.mergeAt p).toOption else none := by
  have hfill : r.candidates.foldl (fun m c => match r.mergeAt c.path with
      | .ok content => m.insert c.path content
      | .error _ => m) (∅ : Merged) =
      (r.candidates.map path).foldl (Table.fill fun q => (r.mergeAt q).toOption) ∅ := by
    rw [List.foldl_map]
    congr 1
    funext m c
    rw [Table.fill]
    cases r.mergeAt c.path <;> rfl
  rw [merged]
  by_cases hm : r.merges = true
  · rw [if_pos hm, hfill, lookup_foldl_fill]
    simp only [mem_candidates, hm, true_and, AList.lookup_empty, Option.or_none]
  · rw [if_neg hm, if_neg fun h => hm h.1, AList.lookup_empty]

theorem merged_isSome : (r.merged.lookup p).isSome = true ↔ r.MergesCleanly p := by
  rw [lookup_merged, MergesCleanly]
  split_ifs with h
  · obtain ⟨hm, hconflict, hfrozen⟩ := h
    simp only [hm, hconflict, hfrozen, true_and]
    cases r.mergeAt p <;> simp [Except.toOption]
  · simp only [Option.isSome_none, Bool.false_eq_true, false_iff]
    exact fun hclean => h ⟨hclean.1, hclean.2.1, hclean.2.2.1⟩

/-! ## The resolutions -/

/-- the resolution is for this assignment, and for the whole configuration or for a conflict that is left for the
user -/
def Applies (r : Reconciliation) (resolution : ConflictResolution) : Prop :=
  leavesToOtherDirection r.descriptor resolution = false ∧ resolution.valid = true ∧
    (resolution.scope = .config ∨ resolution.expectedRemoteRevision = r.revision ∧ r.InConflict resolution.path ∧
      ¬ r.MergesCleanly resolution.path)

variable {resolution : ConflictResolution}

theorem valid_config (hvalid : resolution.valid = true) (hscope : resolution.scope = .config) :
    resolution.action = .forcePull ∨ resolution.action = .forcePush := by
  rw [ConflictResolution.valid] at hvalid
  split_ifs at hvalid
  cases haction : resolution.action <;> simp_all

theorem valid_path (hvalid : resolution.valid = true) (hscope : resolution.scope ≠ .config) :
    resolution.action ≠ .other := by
  rw [ConflictResolution.valid] at hvalid
  split_ifs at hvalid
  intro haction
  simp_all

/-- what one turn does: nothing, or the whole baseline becomes one side's, or one entry does -/
inductive Resolves (r : Reconciliation) (resolution : ConflictResolution) (s : Resolving) : Resolving → Prop
  | skip (h : ¬ r.Applies resolution) : Resolves r resolution s s
  | config (h : r.Applies resolution) (hscope : resolution.scope = .config) (side : Files) (mode : AssignmentMode)
      (hside : side = r.localFiles ∨ side = r.remote) :
      Resolves r resolution s
        { s with baseline := side, forcedMode := some mode, resolved := s.resolved ++ [resolution] }
  | path (h : r.Applies resolution) (hscope : resolution.scope ≠ .config) (side : Files)
      (forcedPaths : AList fun _ : Path => Action) (hside : side = r.localFiles ∨ side = r.remote)
      (hforced : forcedPaths = s.forcedPaths ∨ forcedPaths = s.forcedPaths.insert resolution.path resolution.action) :
      Resolves r resolution s
        { s with
          baseline := Table.copy side s.baseline resolution.path
          forcedPaths, resolved := s.resolved ++ [resolution], frozen := s.frozen.erase resolution.path }

theorem resolve_cases (r : Reconciliation) (s : Resolving) (resolution : ConflictResolution) :
    Resolves r resolution s (r.resolve s resolution) := by
  unfold resolve
  split_ifs with hleaves hstale hscope hpath
  · exact .skip fun h => by simp [h.1] at hleaves
  · refine .skip fun h => ?_
    rcases hstale with hvalid | ⟨hscope, hrevision⟩
    · rw [h.2.1] at hvalid
      cases hvalid
    · exact h.2.2.elim hscope fun h => hrevision h.1
  · have hvalid : resolution.valid = true := by simpa using (not_or.1 hstale).1
    have happlies : r.Applies resolution := ⟨by simpa using hleaves, hvalid, .inl hscope⟩
    rcases valid_config hvalid hscope with haction | haction <;> rw [haction]
    · exact .config happlies hscope _ _ (.inl rfl)
    · exact .config happlies hscope _ _ (.inr rfl)
  · rw [not_or, not_and_or, not_not, not_not] at hstale
    have hvalid : resolution.valid = true := by simpa using hstale.1
    have happlies : r.Applies resolution :=
      ⟨by simpa using hleaves, hvalid, .inr ⟨hstale.2.resolve_left hscope, mem_mergedPlan_conflicts.1 hpath⟩⟩
    cases haction : resolution.action with
    | keepLocal => exact .path happlies hscope _ _ (.inr rfl) (.inl rfl)
    | keepRemote => exact .path happlies hscope _ _ (.inl rfl) (.inl rfl)
    | forcePull => exact .path happlies hscope _ _ (.inl rfl) (.inr (by rw [haction]))
    | forcePush => exact .path happlies hscope _ _ (.inr rfl) (.inr (by rw [haction]))
    | other => exact absurd haction (valid_path hvalid hscope)
  · refine .skip fun h => hpath (mem_mergedPlan_conflicts.2 ?_)
    exact (h.2.2.resolve_left hscope).2

/-- where the loop is after the resolutions `done` -/
structure Settled (r : Reconciliation) (done : List ConflictResolution) (s : Resolving) : Prop where
  resolved : ∀ resolution, resolution ∈ s.resolved ↔ resolution ∈ done ∧ r.Applies resolution
  untouched : s.resolved = [] → s = { baseline := r.baseline, frozen := r.frozen }
  config : s.forcedMode ≠ none ↔ ∃ resolution ∈ s.resolved, resolution.scope = .config
  -- without a force of the whole configuration only entries of resolved paths change
  kept : s.forcedMode = none → ∀ p, (∀ resolution ∈ s.resolved, resolution.path ≠ p) →
    s.baseline.lookup p = r.baseline.lookup p
  sides : ∀ p, s.forcedMode = none ∧ s.baseline.lookup p = r.baseline.lookup p ∨
    s.baseline.lookup p = r.localFiles.lookup p ∨ s.baseline.lookup p = r.remote.lookup p
  forced : ∀ p action, s.forcedPaths.lookup p = some action →
    ∃ resolution ∈ s.resolved, resolution.scope ≠ .config ∧ resolution.path = p

theorem Settled.start : Settled r [] { baseline := r.baseline, frozen := r.frozen } where
  resolved := by simp
  untouched _ := rfl
  config := by simp
  kept _ _ _ := rfl
  sides _ := .inl ⟨rfl, rfl⟩
  forced p action h := by simp at h

variable {done : List ConflictResolution}

theorem Settled.resolved_snoc {s : Resolving} (h : Settled r done s)
    (happlies : r.Applies resolution) (x : ConflictResolution) :
    x ∈ s.resolved ++ [resolution] ↔ x ∈ done ++ [resolution] ∧ r.Applies x := by
  simp only [List.mem_append, List.mem_singleton, h.resolved]
  constructor
  · rintro (hx | rfl)
    · exact ⟨.inl hx.1, hx.2⟩
    · exact ⟨.inr rfl, happlies⟩
  · rintro ⟨hx | rfl, hx'⟩
    · exact .inl ⟨hx, hx'⟩
    · exact .inr rfl

theorem Settled.snoc {s s' : Resolving} (h : Settled r done s)
    (hstep : Resolves r resolution s s') : Settled r (done ++ [resolution]) s' := by
  cases hstep with
  | skip hno =>
    refine { h with resolved := fun x => ?_ }
    rw [h.resolved, List.mem_append, List.mem_singleton]
    constructor
    · exact fun hx => ⟨.inl hx.1, hx.2⟩
    · rintro ⟨hx | rfl, happlies⟩
      · exact ⟨hx, happlies⟩
      · exact absurd happlies hno
  | config happlies hscope side mode hside =>
    have hmem : resolution ∈ s.resolved ++ [resolution] := by simp
    refine ⟨h.resolved_snoc happlies, fun hnil => absurd hnil (by simp),
      ⟨fun _ => ⟨resolution, hmem, hscope⟩, fun _ => by simp⟩,
      nofun, fun p => .inr ?_, fun p action hp => ?_⟩
    · rcases hside with rfl | rfl
      · exact .inl rfl
      · exact .inr rfl
    · obtain ⟨x, hx, hrest⟩ := h.forced p action hp
      exact ⟨x, List.mem_append_left _ hx, hrest⟩
  | path happlies hscope side forcedPaths hside hforced =>
    have hmem : resolution ∈ s.resolved ++ [resolution] := by simp
    refine ⟨h.resolved_snoc happlies, fun hnil => absurd hnil (by simp), ?_, fun hmode p hp => ?_,
      fun p => ?_, fun p action hp => ?_⟩
    · rw [h.config]
      constructor
      · exact fun ⟨x, hx, hrest⟩ => ⟨x, List.mem_append_left _ hx, hrest⟩
      · rintro ⟨x, hx, hx'⟩
        rcases List.mem_append.1 hx with hx | hx
        · exact ⟨x, hx, hx'⟩
        · rw [List.mem_singleton.1 hx] at hx'
          exact absurd hx' hscope
    · rw [lookup_copy, if_neg fun heq => hp resolution hmem heq.symm]
      exact h.kept hmode p fun x hx => hp x (List.mem_append_left _ hx)
    · rw [lookup_copy]
      by_cases hpath : p = resolution.path
      · rw [if_pos hpath]
        rcases hside with rfl | rfl
        · exact .inr (.inl rfl)
        · exact .inr (.inr rfl)
      · rw [if_neg hpath]
        exact h.sides p
    · have hold : s.forcedPaths.lookup p = some action →
          ∃ x ∈ s.resolved ++ [resolution], x.scope ≠ .config ∧ x.path = p := fun hp => by
        obtain ⟨x, hx, hrest⟩ := h.forced p action hp
        exact ⟨x, List.mem_append_left _ hx, hrest⟩
      rcases hforced with rfl | rfl
      · exact hold hp
      · rw [lookup_insert_if] at hp
        split_ifs at hp with hpath
        · exact ⟨resolution, hmem, hscope, hpath.symm⟩
        · exact hold hp

theorem settled_resolving (r : Reconciliation) : Settled r (r.resolutions.getD []) r.resolving := by
  have hrun : ∀ done : List ConflictResolution,
      Settled r done (done.foldl r.resolve { baseline := r.baseline, frozen := r.frozen }) := by
    intro done
    induction done using List.reverseRecOn with
    | nil => exact .start
    | append_singleton done resolution ih =>
      rw [List.foldl_append]
      exact ih.snoc (resolve_cases r _ resolution)
  exact hrun _

end Reconciliation

/-! ## The final plan -/

def Action.verdict (action : Action) : Verdict := if action = .forcePull then .apply else .publish

section Force

variable {plan : ReconcilePlan} {localFiles remote : Files} {v : Path → Verdict}

theorem ReconcilePlan.Follows.without (h : plan.Follows localFiles remote v) (path : Path) :
    (plan.without path).Follows localFiles remote (Function.update v path .same) := by
  have hne : ∀ (l : List Path) (p : Path), p ∈ l.filter (· ≠ path) ↔ p ∈ l ∧ p ≠ path := fun l p => by simp
  have hupdate : ∀ (p : Path) (w : Verdict), w ≠ .same → (Function.update v path .same p = w ↔ v p = w ∧ p ≠ path) := by
    intro p w hw
    rw [Function.update_apply]
    split_ifs with hp
    · simp [hp, hw.symm]
    · simp [hp]
  refine ⟨fun p => ?_, fun p => ?_, fun p => ?_, fun p => ?_, fun p => ?_⟩
  · rw [ReconcilePlan.without, hne, h.publishUpdates, hupdate p _ (by decide), and_right_comm]
  · rw [ReconcilePlan.without, hne, h.publishDeletes, hupdate p _ (by decide), and_right_comm]
  · rw [ReconcilePlan.without, hne, h.applyRemote, hupdate p _ (by decide), and_right_comm]
  · rw [ReconcilePlan.without, hne, h.deleteLocal, hupdate p _ (by decide), and_right_comm]
  · rw [hupdate p _ (by decide), ← h.conflicts]
    simp only [ReconcilePlan.without, List.mem_map, List.mem_filter, ne_eq, decide_not, Bool.not_eq_true',
      decide_eq_false_iff_not]
    constructor
    · rintro ⟨c, ⟨hc, hpath⟩, rfl⟩
      exact ⟨⟨c, hc, rfl⟩, hpath⟩
    · rintro ⟨⟨c, hc, rfl⟩, hpath⟩
      exact ⟨c, ⟨hc, hpath⟩, rfl⟩

theorem forcePlanPath_follows (h : plan.Follows localFiles remote v) (path : Path) (action : Action) :
    (forcePlanPath plan path action localFiles remote).Follows localFiles remote
      (Function.update v path action.verdict) := by
  have hwithout := h.without path
  unfold forcePlanPath Action.verdict
  by_cases haction : action = .forcePull
  · cases hr : (remote.lookup path).isSome <;> refine ⟨fun p => ?_, fun p => ?_, fun p => ?_,
      fun p => ?_, fun p => ?_⟩ <;>
      obtain rfl | hp := eq_or_ne p path <;>
      simp_all [hwithout.publishUpdates, hwithout.publishDeletes, hwithout.applyRemote, hwithout.deleteLocal,
        hwithout.conflicts]
  · cases hl : (localFiles.lookup path).isSome <;> refine ⟨fun p => ?_, fun p => ?_, fun p => ?_,
      fun p => ?_, fun p => ?_⟩ <;>
      obtain rfl | hp := eq_or_ne p path <;>
      simp_all [hwithout.publishUpdates, hwithout.publishDeletes, hwithout.applyRemote, hwithout.deleteLocal,
        hwithout.conflicts]

/-- the paths are forced one after the other; each is its own -/
theorem foldl_forcePlanPath_follows (entries : List (Sigma fun _ : Path => Action)) (hnodup : entries.NodupKeys)
    (h : plan.Follows localFiles remote v) :
    (entries.foldl (fun plan e => forcePlanPath plan e.1 e.2 localFiles remote) plan).Follows localFiles remote
      fun p => ((entries.dlookup p).map Action.verdict).getD (v p) := by
  induction entries generalizing plan v with
  | nil => simpa using h
  | cons e entries ih =>
    obtain ⟨path, action⟩ := e
    have hcons := List.nodupKeys_cons.1 hnodup
    have hrest := ih hcons.2 (forcePlanPath_follows h path action)
    rw [List.foldl_cons]
    convert hrest using 2 with p
    by_cases hp : p = path
    · subst hp
      have hnone : entries.dlookup p = none := List.dlookup_eq_none.2 hcons.1
      simp [hnone]
    · rw [List.dlookup_cons_ne _ _ hp, Function.update_of_ne hp]

end Force

namespace Reconciliation

variable {r : Reconciliation} {p : Path}

/-- what is done with a path in the end -/
def finalVerdict (r : Reconciliation) (p : Path) : Verdict :=
  if r.resolving.resolved = [] then
    if (r.merged.lookup p).isSome then .publish
    else (planVerdict r.baseline r.localFiles r.remote r.mode p).withWrites r.descriptor.writesEnabled
  else
    (((r.resolving.forcedPaths.lookup p).map Action.verdict).getD
      (planVerdict r.resolving.baseline r.localFiles r.remote (r.resolving.forcedMode.getD r.mode) p)).withWrites
        r.descriptor.writesEnabled

theorem resolvedPlan_follows : r.resolvedPlan.Follows r.localFiles r.remote fun p =>
    (((r.resolving.forcedPaths.lookup p).map Action.verdict).getD
      (planVerdict r.resolving.baseline r.localFiles r.remote (r.resolving.forcedMode.getD r.mode) p)).withWrites
        r.descriptor.writesEnabled := by
  have hplan := planReconciliationMode_follows r.resolving.baseline r.localFiles r.remote
      (r.resolving.forcedMode.getD r.mode)
  have hforced := foldl_forcePlanPath_follows r.resolving.forcedPaths.entries r.resolving.forcedPaths.nodupKeys hplan
  have hwrites := hforced.withWrites r.descriptor.writesEnabled
  refine ⟨hwrites.publishUpdates, hwrites.publishDeletes, hwrites.applyRemote, hwrites.deleteLocal, fun p => ?_⟩
  have hconflicts := hwrites.conflicts p
  rw [← identifyConflicts_paths (r := r)] at hconflicts
  exact hconflicts

/-- a merge has a text of the home directory -/
theorem MergesCleanly.localFiles_isSome (h : r.MergesCleanly p) : (r.localFiles.lookup p).isSome = true := by
  obtain ⟨-, -, -, content, hok⟩ := h
  rw [mergeAt] at hok
  cases hl : r.localFiles.lookup p with
  | none =>
    rw [hl] at hok
    cases hb : r.baseline.lookup p <;> rw [hb] at hok <;> simp [mergeConflict] at hok
  | some state => rfl

theorem mergedPlan_follows : r.mergedPlan.Follows r.localFiles r.remote fun p =>
    if (r.merged.lookup p).isSome then .publish
    else (planVerdict r.baseline r.localFiles r.remote r.mode p).withWrites r.descriptor.writesEnabled := by
  have hplan := (planReconciliationMode_follows r.baseline r.localFiles r.remote r.mode).withWrites
      r.descriptor.writesEnabled
  have hkeys : ∀ p, p ∈ r.merged.keys ↔ (r.merged.lookup p).isSome = true := fun p => by
    rw [← AList.mem_keys, AList.lookup_isSome]
  have hupdates : ∀ p, p ∈ r.mergedPlan.publishUpdates ↔
      p ∈ (r.firstPlan.withWrites r.descriptor.writesEnabled).publishUpdates ∨ (r.merged.lookup p).isSome = true := by
    intro p
    rw [mergedPlan, mem_dedup, List.mem_insertionSort, List.mem_append, hkeys]
  have hmerged : ∀ p, (r.merged.lookup p).isSome = true → (r.localFiles.lookup p).isSome = true ∧
      (planVerdict r.baseline r.localFiles r.remote r.mode p).withWrites r.descriptor.writesEnabled = .conflict := by
    intro p hp
    have hclean := merged_isSome.1 hp
    exact ⟨hclean.localFiles_isSome, Verdict.withWrites_eq_conflict.2 hclean.2.1⟩
  refine ⟨fun p => ?_, fun p => ?_, fun p => ?_, fun p => ?_, fun p => ?_⟩
  · rw [hupdates]
    split_ifs with hp
    · simp [hp, (hmerged p hp).1]
    · rw [or_iff_left hp]
      exact hplan.publishUpdates p
  · refine (hplan.publishDeletes p).trans ?_
    split_ifs with hp
    · simp [(hmerged p hp).1]
    · rfl
  · refine (hplan.applyRemote p).trans ?_
    split_ifs with hp
    · simp [(hmerged p hp).2]
    · rfl
  · refine (hplan.deleteLocal p).trans ?_
    split_ifs with hp
    · simp [(hmerged p hp).2]
    · rfl
  · rw [mem_mergedPlan_conflicts, ← merged_isSome]
    split_ifs with hp
    · simp [hp]
    · rw [Verdict.withWrites_eq_conflict]
      exact and_iff_left hp

theorem decision_eq {d : Decision} (h : r.decision = some d) : d =
    { baseline := r.resolving.baseline
      frozen := r.resolving.frozen
      plan := if r.resolving.resolved = [] then r.mergedPlan else r.resolvedPlan
      merged := r.merged
      resolved := r.resolving.resolved } := by
  rw [decision] at h
  by_cases hbase : r.candidates ≠ [] ∧ r.baselineRevision ≠ "" ∧ r.materialized = false
  · rw [if_pos hbase] at h
    cases h
  · rw [if_neg hbase] at h
    exact (Option.some.inj h).symm

theorem plan_follows_finalVerdict {d : Decision} (h : r.decision = some d) :
    d.plan.Follows r.localFiles r.remote r.finalVerdict := by
  rw [decision_eq h]
  unfold finalVerdict
  by_cases hnil : r.resolving.resolved = []
  · simp only [if_pos hnil]
    exact mergedPlan_follows
  · simp only [if_neg hnil]
    exact resolvedPlan_follows

/-- what is not forced and does not merge is compared with the baseline after the resolutions -/
theorem finalVerdict_compared (h : r.finalVerdict p = .conflict ∨ r.finalVerdict p = .same) : ∃ mode,
    r.finalVerdict p = verdict (r.resolving.baseline.lookup p) (r.localFiles.lookup p) (r.remote.lookup p) mode := by
  have hwrites : ∀ {v : Verdict} {w : Bool}, v.withWrites w = .conflict ∨ v.withWrites w = .same →
      v.withWrites w = v := by
    intro v w
    cases v <;> cases w <;> decide
  rw [finalVerdict] at h ⊢
  by_cases hnil : r.resolving.resolved = []
  · split_ifs at h ⊢
    · simp at h
    · exact ⟨r.mode, by rw [hwrites h, planVerdict, (settled_resolving r).untouched hnil]⟩
  · rw [if_neg hnil] at h ⊢
    cases haction : r.resolving.forcedPaths.lookup p with
    | some action =>
      rw [haction, Option.map_some] at h
      rw [hwrites h, Action.verdict] at h
      split_ifs at h <;> simp at h
    | none =>
      rw [haction, Option.map_none] at h
      exact ⟨r.resolving.forcedMode.getD r.mode, hwrites h⟩

/-- the baseline of a reported conflict is neither side's -/
theorem baseline_of_conflict (h : r.finalVerdict p = .conflict) :
    r.resolving.baseline.lookup p ≠ r.localFiles.lookup p ∧
    r.resolving.baseline.lookup p ≠ r.remote.lookup p := by
  obtain ⟨mode, heq⟩ := finalVerdict_compared (.inl h)
  rw [h] at heq
  rcases verdict_cases (r.resolving.baseline.lookup p) (r.localFiles.lookup p) (r.remote.lookup p) mode with
    hv | ⟨-, -, hl, hr⟩ | hv | hv | hv
  · cases heq.trans hv.1
  · exact ⟨hl, hr⟩
  all_goals cases heq.trans hv.1

/-- what is overwritten without a resolution of the user is the version of the baseline -/
theorem baseline_of_apply (h : r.finalVerdict p = .apply)
    (hother : ∀ resolution ∈ r.resolving.resolved, resolution.scope ≠ .config ∧ resolution.path ≠ p) :
    r.baseline.lookup p = r.localFiles.lookup p := by
  have hsettled := settled_resolving r
  have hmode : r.resolving.forcedMode = none := by
    by_contra hne
    obtain ⟨resolution, hmem, hscope⟩ := hsettled.config.1 hne
    exact (hother resolution hmem).1 hscope
  have hkept := hsettled.kept hmode p fun resolution hmem => (hother resolution hmem).2
  have hpath : r.resolving.forcedPaths.lookup p = none := by
    cases haction : r.resolving.forcedPaths.lookup p with
    | none => rfl
    | some action =>
      obtain ⟨resolution, hmem, -, hp⟩ := hsettled.forced p action haction
      exact absurd hp (hother resolution hmem).2
  have hverdict : verdict (r.baseline.lookup p) (r.localFiles.lookup p) (r.remote.lookup p) r.mode = .apply := by
    rw [finalVerdict, hpath, hmode, Option.map_none, Option.getD_none, planVerdict, planVerdict, hkept] at h
    split_ifs at h
    all_goals exact Verdict.withWrites_eq_apply.1 h
  rcases verdict_cases (r.baseline.lookup p) (r.localFiles.lookup p) (r.remote.lookup p) r.mode
    with hv | hv | hv | hv | hv
  · cases hverdict.symm.trans hv.1
  · cases hverdict.symm.trans hv.1
  · cases hverdict.symm.trans hv.1
  · exact hv.2.1
  · cases hverdict.symm.trans hv.1

/-- no conflict is reported when the whole configuration is forced: every entry of the baseline is one side's -/
theorem no_conflict_of_forcedMode (hforced : r.resolving.forcedMode ≠ none) : r.finalVerdict p ≠ .conflict := by
  intro hconflict
  obtain ⟨hl, hr⟩ := baseline_of_conflict hconflict
  rcases (settled_resolving r).sides p with ⟨hnone, -⟩ | h | h
  · exact hforced hnone
  · exact hl h
  · exact hr h

/-- a clean merge is reported as a conflict again when the plan is computed again -/
theorem conflict_of_merge (hclean : r.MergesCleanly p) (hresolved : r.resolving.resolved ≠ [])
    (hmode : r.resolving.forcedMode = none) : r.finalVerdict p = .conflict := by
  have hsettled := settled_resolving r
  -- a resolution applies to what is left for the user, never to a path that merges
  have hother : ∀ resolution ∈ r.resolving.resolved, resolution.path ≠ p := by
    rintro resolution hmem rfl
    have hscope : resolution.scope ≠ .config := fun h => hsettled.config.2 ⟨resolution, hmem, h⟩ hmode
    exact (((hsettled.resolved resolution).1 hmem).2.2.2.resolve_left hscope).2.2 hclean
  have hpath : r.resolving.forcedPaths.lookup p = none := by
    cases haction : r.resolving.forcedPaths.lookup p with
    | none => rfl
    | some action =>
      obtain ⟨resolution, hmem, -, hp⟩ := hsettled.forced p action haction
      exact absurd hp (hother resolution hmem)
  have hkept := hsettled.kept hmode p hother
  rw [finalVerdict, if_neg hresolved, Verdict.withWrites_eq_conflict, hpath, hmode]
  rw [planVerdict, hkept]
  exact hclean.2.1

/-- **Reported conflicts are untouched**, exactly when no conflict merges cleanly, or no resolution applies, or the
whole configuration is forced. -/
theorem conflicts_untouched_iff (r : Reconciliation) (d : Decision) (h : r.decision = some d) :
    (∀ c ∈ d.plan.conflicts, c.path ∉ d.localWrites ∧ c.path ∉ d.repositoryWrites) ↔
      (∀ p, ¬ r.MergesCleanly p) ∨ (∀ resolution ∈ r.resolutions.getD [], ¬ r.Applies resolution) ∨
      ∃ resolution ∈ r.resolutions.getD [], r.Applies resolution ∧ resolution.scope = .config := by
  have hfollows := plan_follows_finalVerdict h
  have hsettled := settled_resolving r
  -- a reported conflict is in no list of the plan, so that only the merges matter
  have hwrites : (∀ c ∈ d.plan.conflicts, c.path ∉ d.localWrites ∧ c.path ∉ d.repositoryWrites) ↔
      ∀ p, r.finalVerdict p = .conflict → ¬ r.MergesCleanly p := by
    have hmerged : d.merged = r.merged := by rw [decision_eq h]
    have hlocal : ∀ p, r.finalVerdict p = .conflict → (p ∈ d.localWrites ↔ r.MergesCleanly p) := by
      intro p hp
      rw [Decision.localWrites, List.mem_append, List.mem_append, hfollows.applyRemote,
        hfollows.deleteLocal, hp, hmerged, ← AList.mem_keys, ← AList.lookup_isSome, merged_isSome]
      simp
    have hrepository : ∀ p, r.finalVerdict p = .conflict → p ∉ d.repositoryWrites := by
      intro p hp
      rw [Decision.repositoryWrites, List.mem_append, hfollows.publishUpdates, hfollows.publishDeletes, hp]
      simp
    constructor
    · intro hall p hp
      obtain ⟨c, hc, rfl⟩ := List.mem_map.1 ((hfollows.conflicts p).2 hp)
      exact fun hclean => (hall c hc).1 ((hlocal _ hp).2 hclean)
    · intro hall c hc
      have hp := (hfollows.conflicts c.path).1 (List.mem_map_of_mem hc)
      exact ⟨fun hmem => hall _ hp ((hlocal _ hp).1 hmem), hrepository _ hp⟩
  have hnil : r.resolving.resolved = [] ↔ ∀ resolution ∈ r.resolutions.getD [], ¬ r.Applies resolution := by
    simp only [List.eq_nil_iff_forall_not_mem, hsettled.resolved, not_and]
  have hconfig : r.resolving.forcedMode ≠ none ↔
      ∃ resolution ∈ r.resolutions.getD [], r.Applies resolution ∧ resolution.scope = .config := by
    rw [hsettled.config]
    simp only [hsettled.resolved, and_assoc]
  rw [hwrites, ← hnil, ← hconfig]
  constructor
  · intro hall
    by_contra hno
    simp only [not_or, not_forall, not_not] at hno
    obtain ⟨⟨p, hclean⟩, hresolved, hmode⟩ := hno
    exact hall p (conflict_of_merge hclean hresolved hmode) hclean
  · rintro (hno | hresolved | hforced) p hp hclean
    · exact hno p hclean
    · rw [finalVerdict, if_pos hresolved, if_pos (merged_isSome.2 hclean)] at hp
      cases hp
    · exact no_conflict_of_forcedMode hforced hp

end Reconciliation

/-- two files changed on both sides: the texts of "a" merge, "b" is no text; the user keeps the local version of "b" -/
def notes : Reconciliation where
  descriptor := ⟨"r", "a", .bidirectional, true, "", "", 100⟩
  revision := "2"
  baseline := (∅ : Files).insert "a" ⟨"a0", 6, 0o600, ""⟩ |>.insert "b" ⟨"b0", 1, 0o600, ""⟩
  baselineRevision := "1"
  frozen := ∅
  localFiles := (∅ : Files).insert "a" ⟨"a1", 6, 0o600, ""⟩ |>.insert "b" ⟨"b1", 1, 0o600, ""⟩
  remote := (∅ : Files).insert "a" ⟨"a2", 6, 0o600, ""⟩ |>.insert "b" ⟨"b2", 1, 0o600, ""⟩
  readers :=
    { base := fun p _ => if p = "a" then some [97, 10, 98, 10, 99, 10] else some [0]
      localText := fun p _ => if p = "a" then some [120, 10, 98, 10, 99, 10] else some [1]
      remote := fun p _ => if p = "a" then some [97, 10, 98, 10, 121, 10] else some [2] }
  materialized := true
  resolutions := some [⟨"k", "b", "0000000000000000000000000000000000000000000000000000000000000000",
    "2", .path, .keepLocal⟩]
  digest := fun _ => ""

/-- the merge of "a" is written although "a" is reported as a conflict -/
theorem notes_overwritten : ∃ d, notes.decision = some d ∧ "a" ∈ d.plan.conflicts.map PathSummary.path ∧
    "a" ∈ d.localWrites ∧ "a" ∉ d.repositoryWrites := by
  refine ⟨_, rfl, ?_, ?_, ?_⟩ <;> decide +kernel

/-- without the resolution "a" is merged and only "b" is reported -/
theorem notes_untouched : ∃ d, Reconciliation.decision { notes with resolutions := some [] } = some d ∧
    ∀ c ∈ d.plan.conflicts, c.path ∉ d.localWrites ∧ c.path ∉ d.repositoryWrites :=
  ⟨_, rfl, (Reconciliation.conflicts_untouched_iff { notes with resolutions := some [] } _ rfl).2
    (.inr (.inl (by simp)))⟩

end Paperboat.Config
