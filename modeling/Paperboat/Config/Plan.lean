/-
The plan of a config synchronisation (reconcile.go): three maps of file states, the
baseline (the last common version), the home directory (local) and the repository
(remote), are compared path by path.

Results:
- `verdict`: the comparison of one path, `planReconciliationMode` the loop over all
  paths;
- `ReconcilePlan.Follows`: a plan that does with every path what its verdict says
  (`planReconciliationMode_follows`), and what the home directory and the repository are
  after such a plan;
- `acceptedBaseline`, `freezeConflictBaseline`: the next baseline, path by path
  (`lookup_acceptedBaseline`, `lookup_freezeConflictBaseline`).
-/
import Paperboat.Core.Fold
import Paperboat.Core.Table

namespace Paperboat.Config

open Fold Table Index

/-! ## Model -/

abbrev Path := String

structure FileState where
  hash : String
  bytes : ℤ
  mode : BitVec 32
  target : String
deriving DecidableEq, Repr

abbrev Files := AList fun _ : Path => FileState

inductive AssignmentMode
  | pullOnly
  | pushOnly
  | bidirectional
deriving DecidableEq, Repr

structure PathSummary where
  path : Path
  bytes : ℤ := 0
  reason : String
  revision : String := ""
deriving DecidableEq, Repr

structure ReconcilePlan where
  publishUpdates : List Path := []
  publishDeletes : List Path := []
  applyRemote : List Path := []
  deleteLocal : List Path := []
  conflicts : List PathSummary := []
deriving DecidableEq, Repr

/-- the cases of the switch in PlanReconciliationMode; `suppressed` is where no case applies -/
inductive Verdict
  | same
  | conflict
  | publish
  | apply
  | suppressed
deriving DecidableEq, Repr

/-- a state is present or not, so that localChanged is base ≠ localState -/
def verdict (base localState remoteState : Option FileState) (mode : AssignmentMode) : Verdict :=
  if localState = remoteState then .same
  else if base ≠ localState ∧ base ≠ remoteState then .conflict
  else if base ≠ localState ∧ mode ≠ .pullOnly then .publish
  else if base ≠ remoteState ∧ mode ≠ .pushOnly then .apply
  else .suppressed

def concurrentUpdate (remote : Files) (path : Path) : PathSummary :=
  { path, bytes := ((remote.lookup path).map FileState.bytes).getD 0, reason := "concurrent_update" }

section Plan

variable (baseline localFiles remote : Files) (mode : AssignmentMode)

/-- one turn of the loop of PlanReconciliationMode -/
def planPath (plan : ReconcilePlan) (path : Path) : ReconcilePlan :=
  match verdict (baseline.lookup path) (localFiles.lookup path) (remote.lookup path) mode with
  | .same => plan
  | .conflict => { plan with conflicts := plan.conflicts ++ [concurrentUpdate remote path] }
  | .publish =>
    if (localFiles.lookup path).isSome then { plan with publishUpdates := plan.publishUpdates ++ [path] }
    else { plan with publishDeletes := plan.publishDeletes ++ [path] }
  | .apply =>
    if (remote.lookup path).isSome then { plan with applyRemote := plan.applyRemote ++ [path] }
    else { plan with deleteLocal := plan.deleteLocal ++ [path] }
  | .suppressed => plan

/-- every path of the three maps, sorted -/
def allPaths : List Path := (dedup (baseline.keys ++ localFiles.keys ++ remote.keys)).insertionSort (· ≤ ·)

def planReconciliationMode : ReconcilePlan :=
    (allPaths baseline localFiles remote).foldl (planPath baseline localFiles remote mode) {}

end Plan

/-- one turn of the loop of AcceptedBaseline -/
def acceptPath (previous localFiles remote accepted : Files) (name : Path) : Files :=
  if localFiles.lookup name = remote.lookup name then
    match localFiles.lookup name with
    | some state => accepted.insert name state
    | none => accepted
  else
    match previous.lookup name with
    | some state => accepted.insert name state
    | none => accepted

def acceptedBaseline (previous localFiles remote : Files) (mode : AssignmentMode) (writesEnabled : Bool) : Files :=
  if mode = .bidirectional ∧ writesEnabled ∨ mode = .pushOnly ∧ writesEnabled then localFiles
  else (allPaths previous localFiles remote).foldl (acceptPath previous localFiles remote) ∅

def setBaselineState (baseline : Files) (path : Path) (source : Files) : Files := Table.copy source baseline path

def freezeConflictBaseline (accepted previous : Files) (conflicts : List PathSummary) : Files :=
  conflicts.foldl (fun accepted conflict => setBaselineState accepted conflict.path previous) accepted

/-- without writes nothing is published -/
def ReconcilePlan.withWrites (plan : ReconcilePlan) (writesEnabled : Bool) : ReconcilePlan :=
  if writesEnabled then plan else { plan with publishUpdates := [], publishDeletes := [] }

/-- the loops over ApplyRemote and DeleteLocal -/
def ReconcilePlan.apply (plan : ReconcilePlan) (remote home : Files) : Files :=
  plan.deleteLocal.foldl (fun t p => t.erase p) (plan.applyRemote.foldl (Table.copy remote) home)

/-- the loops over PublishUpdates and PublishDeletes -/
def ReconcilePlan.publish (plan : ReconcilePlan) (localFiles repository : Files) : Files :=
  plan.publishDeletes.foldl (fun t p => t.erase p) (plan.publishUpdates.foldl (Table.copy localFiles) repository)

/-! ## What the plan does with a path -/

/-- the plan does with every path what `v` says -/
structure ReconcilePlan.Follows (plan : ReconcilePlan) (localFiles remote : Files) (v : Path → Verdict) : Prop where
  publishUpdates : ∀ p, p ∈ plan.publishUpdates ↔ v p = .publish ∧ (localFiles.lookup p).isSome = true
  publishDeletes : ∀ p, p ∈ plan.publishDeletes ↔ v p = .publish ∧ (localFiles.lookup p).isSome = false
  applyRemote : ∀ p, p ∈ plan.applyRemote ↔ v p = .apply ∧ (remote.lookup p).isSome = true
  deleteLocal : ∀ p, p ∈ plan.deleteLocal ↔ v p = .apply ∧ (remote.lookup p).isSome = false
  conflicts : ∀ p, p ∈ plan.conflicts.map PathSummary.path ↔ v p = .conflict

/-- what is left of a case without writes -/
def Verdict.withWrites (v : Verdict) (writesEnabled : Bool) : Verdict :=
  if writesEnabled = false ∧ v = .publish then .suppressed else v

variable {writesEnabled : Bool} {v : Verdict}

theorem Verdict.withWrites_eq_publish :
    v.withWrites writesEnabled = .publish ↔ v = .publish ∧ writesEnabled = true := by
  cases v <;> cases writesEnabled <;> decide

theorem Verdict.withWrites_eq_apply : v.withWrites writesEnabled = .apply ↔ v = .apply := by
  cases v <;> cases writesEnabled <;> decide

theorem Verdict.withWrites_eq_conflict : v.withWrites writesEnabled = .conflict ↔ v = .conflict := by
  cases v <;> cases writesEnabled <;> decide

theorem ReconcilePlan.withWrites_conflicts (plan : ReconcilePlan) (writesEnabled : Bool) :
    (plan.withWrites writesEnabled).conflicts = plan.conflicts := by
  cases writesEnabled <;> rfl

open Verdict

section Follows

variable {plan : ReconcilePlan} {localFiles remote : Files} {v : Path → Verdict}

variable (h : plan.Follows localFiles remote v)
include h

theorem ReconcilePlan.Follows.withWrites (writesEnabled : Bool) :
    (plan.withWrites writesEnabled).Follows localFiles remote fun p => (v p).withWrites writesEnabled := by
  unfold ReconcilePlan.withWrites
  cases writesEnabled
  · simp only [Bool.false_eq_true, if_false]
    exact ⟨fun p => by simp [withWrites_eq_publish], fun p => by simp [withWrites_eq_publish],
      fun p => by rw [withWrites_eq_apply, h.applyRemote], fun p => by rw [withWrites_eq_apply, h.deleteLocal],
      fun p => by rw [withWrites_eq_conflict, h.conflicts]⟩
  · exact h

/-- the home directory after the plan -/
theorem ReconcilePlan.Follows.lookup_apply (home : Files) (p : Path) :
    (plan.apply remote home).lookup p = if v p = .apply then remote.lookup p else home.lookup p := by
  rw [ReconcilePlan.apply, lookup_foldl_erase, lookup_foldl_copy]
  simp only [h.applyRemote, h.deleteLocal]
  by_cases hv : v p = .apply
  · cases hr : remote.lookup p <;> simp [hv]
  · simp [hv]

/-- the repository after the plan -/
theorem ReconcilePlan.Follows.lookup_publish (repository : Files) (p : Path) :
    (plan.publish localFiles repository).lookup p = if v p = .publish then localFiles.lookup p
      else repository.lookup p := by
  rw [ReconcilePlan.publish, lookup_foldl_erase, lookup_foldl_copy]
  simp only [h.publishUpdates, h.publishDeletes]
  by_cases hv : v p = .publish
  · cases hl : localFiles.lookup p <;> simp [hv]
  · simp [hv]

/-- nothing is published where no path is to be published -/
theorem ReconcilePlan.Follows.clean_iff :
    plan.publishUpdates = [] ∧ plan.publishDeletes = [] ↔ ∀ p, v p ≠ .publish := by
  simp only [List.eq_nil_iff_forall_not_mem, h.publishUpdates, h.publishDeletes, ← forall_and]
  refine forall_congr' fun p => ?_
  cases (localFiles.lookup p).isSome <;> simp

end Follows

section Spec

variable (baseline localFiles remote : Files) (mode : AssignmentMode)

/-- the case of the switch for a path -/
def planVerdict (p : Path) : Verdict := verdict (baseline.lookup p) (localFiles.lookup p) (remote.lookup p) mode

variable {baseline localFiles remote mode} {p : Path}

theorem mem_allPaths : p ∈ allPaths baseline localFiles remote ↔
    (baseline.lookup p).isSome ∨ (localFiles.lookup p).isSome ∨ (remote.lookup p).isSome := by
  rw [allPaths, List.mem_insertionSort, mem_dedup]
  simp only [List.mem_append, ← AList.mem_keys, ← AList.lookup_isSome, or_assoc]

/-- the order of the paths depends on nothing but themselves: a choice of paths is the same in any two triples of
maps that have them -/
theorem filter_allPaths_eq {baseline' localFiles' remote' : Files} {P : Path → Prop} [DecidablePred P]
    (h : ∀ q, P q → q ∈ allPaths baseline localFiles remote ∧ q ∈ allPaths baseline' localFiles' remote') :
    (allPaths baseline localFiles remote).filter P = (allPaths baseline' localFiles' remote').filter P := by
  have hnodup : ∀ b l r, ((allPaths b l r).filter P).Nodup := fun b l r =>
    (((List.perm_insertionSort _ _).nodup_iff).2 (dedup_nodup _)).filter _
  have hsorted : ∀ b l r, ((allPaths b l r).filter P).Pairwise (· ≤ ·) := fun b l r =>
    (List.pairwise_insertionSort _ _).filter _
  refine List.Perm.eq_of_pairwise' (hsorted _ _ _) (hsorted _ _ _) ?_
  rw [List.perm_ext_iff_of_nodup (hnodup _ _ _) (hnodup _ _ _)]
  intro q
  simp only [List.mem_filter, decide_eq_true_eq]
  exact ⟨fun hq => ⟨(h q hq.2).2, hq.2⟩, fun hq => ⟨(h q hq.2).1, hq.2⟩⟩

/-- where a path is in no map there is nothing to compare -/
theorem mem_of_planVerdict (h : planVerdict baseline localFiles remote mode p = v) (hv : v ≠ .same) :
    p ∈ allPaths baseline localFiles remote := by
  by_contra hno
  rw [mem_allPaths] at hno
  simp only [not_or, Bool.not_eq_true, Option.isSome_eq_false_iff, Option.isNone_iff_eq_none] at hno
  obtain ⟨h1, h2, h3⟩ := hno
  rw [planVerdict, h2, h3] at h
  exact hv h.symm

variable (baseline localFiles remote mode) in
/-- the lists a loop over `paths` ends with -/
def planned (plan : ReconcilePlan) (paths : List Path) : ReconcilePlan :=
  let chosen (v : Verdict) (files : Files) (present : Bool) :=
    paths.filter fun q => planVerdict baseline localFiles remote mode q = v ∧ (files.lookup q).isSome = present
  { publishUpdates := plan.publishUpdates ++ chosen .publish localFiles true
    publishDeletes := plan.publishDeletes ++ chosen .publish localFiles false
    applyRemote := plan.applyRemote ++ chosen .apply remote true
    deleteLocal := plan.deleteLocal ++ chosen .apply remote false
    conflicts := plan.conflicts ++
      (paths.filter fun q => planVerdict baseline localFiles remote mode q = .conflict).map (concurrentUpdate remote) }

theorem foldl_planPath (plan : ReconcilePlan) (paths : List Path) :
    paths.foldl (planPath baseline localFiles remote mode) plan =
      planned baseline localFiles remote mode plan paths := by
  induction paths generalizing plan with
  | nil => simp [planned]
  | cons q paths ih =>
    rw [List.foldl_cons, ih]
    cases hv : planVerdict baseline localFiles remote mode q <;> rw [planVerdict] at hv <;>
      cases hl : (localFiles.lookup q).isSome <;> cases hr : (remote.lookup q).isSome <;>
      simp [planned, planPath, planVerdict, hv, hl, hr, -Option.isSome_eq_false_iff]

/-- what the plan does with a path depends on its three states only -/
theorem planReconciliationMode_eq : planReconciliationMode baseline localFiles remote mode =
    planned baseline localFiles remote mode {} (allPaths baseline localFiles remote) :=
  foldl_planPath {} _

theorem planReconciliationMode_follows (baseline localFiles remote : Files) (mode : AssignmentMode) :
    (planReconciliationMode baseline localFiles remote mode).Follows localFiles remote
      (planVerdict baseline localFiles remote mode) := by
  have hchosen : ∀ (v : Verdict) (files : Files) (present : Bool) (p : Path), v ≠ .same →
      (p ∈ (allPaths baseline localFiles remote).filter (fun q =>
        planVerdict baseline localFiles remote mode q = v ∧ (files.lookup q).isSome = present) ↔
      planVerdict baseline localFiles remote mode p = v ∧ (files.lookup p).isSome = present) := by
    intro v files present p hv
    simp only [List.mem_filter, decide_eq_true_eq]
    exact ⟨And.right, fun h => ⟨mem_of_planVerdict h.1 hv, h⟩⟩
  rw [planReconciliationMode_eq]
  refine ⟨fun p => hchosen _ _ _ p (by decide), fun p => hchosen _ _ _ p (by decide),
    fun p => hchosen _ _ _ p (by decide), fun p => hchosen _ _ _ p (by decide), fun p => ?_⟩
  simp only [planned, List.nil_append, List.map_map, List.mem_map, List.mem_filter, decide_eq_true_eq,
    Function.comp_apply]
  constructor
  · rintro ⟨q, ⟨-, hq⟩, rfl⟩
    exact hq
  · exact fun h => ⟨p, ⟨mem_of_planVerdict h (by decide), h⟩, rfl⟩

end Spec

/-! ## The next baseline -/

/-- what is accepted for a path: the common state of the two sides, or else the previous one -/
def acceptedState (previous localFiles remote : Files) (p : Path) : Option FileState :=
  if localFiles.lookup p = remote.lookup p then localFiles.lookup p else previous.lookup p

variable {previous localFiles remote : Files}

theorem acceptPath_eq :
    acceptPath previous localFiles remote = Table.fill (acceptedState previous localFiles remote) := by
  funext accepted name
  unfold acceptPath Table.fill acceptedState
  split_ifs
  · cases localFiles.lookup name <;> rfl
  · cases previous.lookup name <;> rfl

theorem lookup_acceptedBaseline {mode : AssignmentMode} (p : Path) :
    (acceptedBaseline previous localFiles remote mode writesEnabled).lookup p =
      if mode ≠ .pullOnly ∧ writesEnabled = true ∨ localFiles.lookup p = remote.lookup p then localFiles.lookup p
      else previous.lookup p := by
  unfold acceptedBaseline
  by_cases hpub : mode ≠ .pullOnly ∧ writesEnabled = true
  · rw [if_pos (by cases mode <;> simp_all), if_pos (.inl hpub)]
  · rw [if_neg (by cases mode <;> simp_all), acceptPath_eq, lookup_foldl_fill]
    simp only [hpub, false_or, AList.lookup_empty, Option.or_none, acceptedState]
    by_cases hmem : p ∈ allPaths previous localFiles remote
    · rw [if_pos hmem]
    · rw [mem_allPaths] at hmem
      simp_all

theorem lookup_freezeConflictBaseline (accepted previous : Files) (conflicts : List PathSummary) (p : Path) :
    (freezeConflictBaseline accepted previous conflicts).lookup p =
      if p ∈ conflicts.map PathSummary.path then previous.lookup p else accepted.lookup p := by
  have hmap : freezeConflictBaseline accepted previous conflicts =
      (conflicts.map PathSummary.path).foldl (Table.copy previous) accepted := by
    rw [List.foldl_map]
    rfl
  rw [hmap, lookup_foldl_copy]

end Paperboat.Config
