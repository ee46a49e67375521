/-
Publisher.Sync with the workspace reconciler, and the journal of applied conflict
resolutions that it keeps on disk.

A process may stop after any of its writes: of the journal (PublicationPrepared, and
PublicationCommitted once more), of the branch on the remote, of the baseline, of an
acknowledgement to the server, and the removal of the journal. A new process starts its
Reconcile with recoverResolutionCommit. Everything else a Sync meets is an answer: what
Fetch returns, the leases, what Reconcile comes to after the recovery, what Publish and
ObserveCommit report.

Results:
- `keeps_own`: a journal on disk, after any write, is one that the next process reads
  and takes for its own;
- `journal_of_resolutions`: without applied resolutions there is no journal to be left;
- `certain_without_resolutions`: so Syncs that apply none may be stopped anywhere;
- `later_sync_certain_iff`: **the next process**; with a remote that does not change and
  no failures, a later Sync ends in ErrSyncUncertain exactly when the remote head is not
  the commit of a journal that was left, and then it changes nothing, so that the one
  after it ends in the same way.

Witnesses:
- `stopped_after_push`: a stop after the push, which the next Sync completes;
- `stopped_before_push`: a stop between the journal and the push;
- `stoppedMerge_certain`: a stop in a Sync that applies no resolution.

Premises:
- Reconcile's own writes to the home directory and the repository are in `Ancestor`;
- a failed write is a stop before it.
-/
import Paperboat.Core.Crash
import Paperboat.Core.Machine
import Paperboat.Config.Reconcile

namespace Paperboat.Config

open Crash Process

/-! ## Model -/

/-- the baseline file; the selected roots and the destinations of the paths are left out -/
structure Baseline where
  repositoryID : String
  assignmentID : String
  policyRevision : String
  manifestRevision : String
  mappingRevision : String
  remoteRevision : String
  frozenPaths : FrozenPaths
  files : Files

def validFrozenPath (path : Path) (frozen : FrozenPath) : Bool :=
  safeRelativeStatusPath path && frozen.baseRevision != "" && safeConflictRevision frozen.conflictRevision

def validFileState (path : Path) (state : FileState) : Bool :=
  safeRelativeStatusPath path && state.hash.utf8ByteSize == 64 && decide (0 ≤ state.bytes) &&
    !(state.mode &&& modeSymlink != 0 && (state.target == "" || state.target.startsWith "/"))

def validBaseline (b : Baseline) : Bool :=
  b.repositoryID != "" && b.assignmentID != "" && b.policyRevision != "" && b.manifestRevision.utf8ByteSize == 64 &&
    b.remoteRevision != "" && (b.mappingRevision == "" || b.mappingRevision.utf8ByteSize == 64) &&
    (b.frozenPaths.entries.all fun e => validFrozenPath e.1 e.2) && b.files.entries.all fun e => validFileState e.1 e.2

structure ResolutionCommit where
  commitID : String
  baseline : Baseline
  resolutions : List ConflictResolution

def ResolutionCommit.valid (c : ResolutionCommit) : Bool :=
  c.commitID != "" && validBaseline c.baseline && !c.resolutions.isEmpty && c.resolutions.all ConflictResolution.valid

/-- what outlives the process: the files under the state root, what the server knows to be acknowledged (a
resolution, and the commit that has it), and the head of the branch -/
structure Durable where
  resolutionCommit : Option ResolutionCommit := none
  baseline : Option Baseline := none
  acknowledged : List (String × String) := []
  head : String

/-- the errors that are told apart; `failed` is any other -/
inductive SyncError
  | remoteRevisionChanged
  | reviewRequired
  | authorization
  | baselineInvalid
  | uncertain
  | leaseLost
  | failed
deriving DecidableEq, Repr

/-- errors.Join keeps all of them -/
abbrev Syncing := Process Durable (List SyncError)

def Syncing.demand {α : Type} (answer : Option α) (error : SyncError) : Syncing α :=
  match answer with
  | none => fail [error]
  | some a => pure a

def Syncing.ensure (condition : Bool) (error : SyncError) : Syncing Unit :=
  if condition then pure () else fail [error]

open Syncing

structure PreparedPublication where
  expectedRemoteRevision : String
  commitID : String
  hasChanges : Bool

structure PendingBaseline where
  commitID : String
  value : Baseline
  resolutions : List ConflictResolution

structure PublishResult where
  remoteRevision : String
  landed : Bool
  uncertain : Bool

/-- what Reconcile comes to once the recovery is done; `commit` is the new commit, if the worktree is not clean -/
structure Reconciled where
  commit : Option String
  baseline : Baseline
  resolutions : List ConflictResolution

/-- `authority` says whether there is someone to acknowledge resolutions to -/
structure Reconciler where
  descriptor : Descriptor
  authority : Bool

namespace Reconciler

variable (r : Reconciler)

def writeBaseline (value : Baseline) : Syncing Unit := do
  ensure (validBaseline value) .baselineInvalid
  Process.write fun s => { s with baseline := some value }

def writeResolutionCommit (value : ResolutionCommit) : Syncing Unit := do
  ensure value.valid .baselineInvalid
  Process.write fun s => { s with resolutionCommit := some value }

def removeResolutionCommit : Syncing Unit := Process.write fun s => { s with resolutionCommit := none }

def acknowledge (commitID : String) (resolution : ConflictResolution) : Syncing Unit :=
  Process.write fun s => { s with acknowledged := s.acknowledged ++ [(resolution.id, commitID)] }

/-- finish the commit of an earlier process -/
def completeCommit (commit : ResolutionCommit) : Syncing Unit := do
  writeBaseline commit.baseline
  forEach commit.resolutions fun resolution => do
    ensure r.authority .baselineInvalid
    acknowledge commit.commitID resolution
  removeResolutionCommit

def recoverResolutionCommit (remoteRevision : String) : Syncing Unit := do
  match (← look).resolutionCommit with
  | none => pure ()
  | some commit =>
    ensure (commit.valid && commit.baseline.repositoryID == r.descriptor.repositoryID &&
      commit.baseline.assignmentID == r.descriptor.assignmentID &&
      commit.baseline.remoteRevision == commit.commitID) .baselineInvalid
    ensure (remoteRevision == commit.commitID) .uncertain
    r.completeCommit commit

/-- the commit that is prepared, which is the remote head if there is nothing to publish -/
def prepare (remote : String) (c : Reconciled) : PreparedPublication × PendingBaseline :=
  let commitID := c.commit.getD remote
  (⟨remote, commitID, c.commit.isSome⟩,
    ⟨commitID, { c.baseline with repositoryID := r.descriptor.repositoryID, assignmentID := r.descriptor.assignmentID,
                                 remoteRevision := commitID }, c.resolutions⟩)

def reconcile (remote : String) (answer : Option Reconciled) : Syncing (PreparedPublication × PendingBaseline) := do
  r.recoverResolutionCommit remote
  let c ← demand answer .failed
  pure (r.prepare remote c)

/-- the pending baseline is that of the Reconcile just before, whose mapping is still in place -/
def publicationCommitted (pending : PendingBaseline) (prepared : PreparedPublication) (revision : String) :
    Syncing Unit := do
  ensure (prepared.commitID != "" && pending.commitID == prepared.commitID &&
    revision == prepared.commitID) .baselineInvalid
  if pending.resolutions.isEmpty then writeBaseline pending.value
  else do
    writeResolutionCommit ⟨revision, pending.value, pending.resolutions⟩
    writeBaseline pending.value
    forEach pending.resolutions fun resolution => if r.authority then acknowledge revision resolution else pure ()
    removeResolutionCommit

def publicationPrepared (pending : PendingBaseline) (prepared : PreparedPublication) : Syncing Unit := do
  ensure (prepared.commitID != "" && pending.commitID == prepared.commitID) .baselineInvalid
  if pending.resolutions.isEmpty then pure ()
  else writeResolutionCommit ⟨prepared.commitID, pending.value, pending.resolutions⟩

def publicationAborted (prepared : PreparedPublication) : Syncing Unit := do
  match (← look).resolutionCommit with
  | none => pure ()
  | some commit =>
    ensure (commit.valid && commit.commitID == prepared.commitID) .baselineInvalid
    removeResolutionCommit

end Reconciler

/-- ObserveCommit: is the commit reachable from the head, the head, and whether there was an error as well -/
structure Observation where
  landed : Bool
  revision : String
  failed : Bool

/-- what one Sync is told, step by step; `none` and `false` are errors -/
structure Answers where
  fetched : Option String
  reviewed : Option String
  credential : Bool
  reconciled : Option Reconciled
  lease : Option String
  verified : Option String
  reconciledAgain : Option Reconciled
  renewed : Bool
  inTime : Bool
  credentialAgain : Bool
  current : Option String
  /-- does the push reach the remote, whatever Publish reports -/
  pushed : Bool
  published : PublishResult
  publishFailed : Bool
  observed : Observation

structure Publisher where
  requireReview : Bool
  automaticUpdates : Bool
  approvedRevision : String
  reconciler : Reconciler

open Reconciler

open SyncError

namespace Publisher

variable (p : Publisher) (a : Answers)

def needsReview (reviewRevision : String) : Bool :=
  p.requireReview && !p.automaticUpdates && p.approvedRevision != reviewRevision

def push (commitID : String) : Syncing Unit :=
  if a.pushed then Process.write fun s => { s with head := commitID } else pure ()

/-- the push, and what is made of its outcome -/
def publish (pending : PendingBaseline) (prepared : PreparedPublication) : Syncing PublishResult := do
  let err := if a.publishFailed then [failed] else []
  let observeErr := if a.observed.failed then [failed] else []
  push a prepared.commitID
  if a.published.landed && !a.published.uncertain && a.published.remoteRevision != "" then do
    (p.reconciler.publicationCommitted pending prepared a.published.remoteRevision).mapError (err ++ ·)
    if a.publishFailed then fail err else pure a.published
  else if a.publishFailed && !a.published.uncertain then do
    (publicationAborted prepared).mapError (err ++ ·)
    fail err
  else if a.observed.landed && a.observed.revision != "" then do
    (p.reconciler.publicationCommitted pending prepared a.observed.revision).mapError (err ++ observeErr ++ ·)
    if a.observed.failed then fail (err ++ observeErr) else pure ⟨a.observed.revision, true, false⟩
  else fail (.uncertain :: err ++ observeErr)

def commitUnchanged (pending : PendingBaseline) (prepared : PreparedPublication) (revision : String) :
    Syncing PublishResult := do
  p.reconciler.publicationCommitted pending prepared revision
  pure ⟨revision, true, false⟩

/-- the steps under the lease -/
def publishLeased (remote : String) : Syncing PublishResult := do
  let baseRevision ← demand a.lease .failed
  let verified ← demand a.verified .failed
  ensure (verified == remote && baseRevision == remote) .remoteRevisionChanged
  let (prepared, pending) ← p.reconciler.reconcile verified a.reconciledAgain
  if !prepared.hasChanges then p.commitUnchanged pending prepared verified
  else do
    ensure (prepared.expectedRemoteRevision == remote && prepared.commitID != "") .remoteRevisionChanged
    ensure a.renewed .failed
    ensure a.inTime .leaseLost
    ensure a.credentialAgain .authorization
    let current ← demand a.current .failed
    ensure (current == prepared.expectedRemoteRevision) .remoteRevisionChanged
    publicationPrepared pending prepared
    p.publish a pending prepared

def sync : Syncing PublishResult := do
  let remote ← demand a.fetched .failed
  ensure (remote != "") .remoteRevisionChanged
  let reviewRevision ← demand a.reviewed .failed
  ensure (!p.needsReview reviewRevision) .reviewRequired
  ensure a.credential .authorization
  let (prepared, pending) ← p.reconciler.reconcile remote a.reconciled
  if !prepared.hasChanges then p.commitUnchanged pending prepared remote
  else p.publishLeased a remote

end Publisher

/-! ## what journals there can be -/

/-- the journal on disk, if there is one, is `J` -/
def Durable.Journal (J : ResolutionCommit → Prop) (s : Durable) : Prop := ∀ c, s.resolutionCommit = some c → J c

/-- the journal that is written for what Reconcile came to is `J` -/
def Reconciled.Journals (c : Reconciled) (r : Reconciler) (J : ResolutionCommit → Prop) : Prop := ∀ remote,
  let commit : ResolutionCommit := ⟨(r.prepare remote c).1.commitID, (r.prepare remote c).2.value, c.resolutions⟩
  commit.valid → J commit

open ResolutionCommit

section Keeps

variable {α : Type} {I : Durable → Prop} {r : Reconciler} {J : ResolutionCommit → Prop}

theorem keeps_demand (answer : Option α) (error : SyncError) : Keeps I (demand answer error) := by
  cases answer
  · exact keeps_fail _
  · exact keeps_pure _

theorem keeps_ensure (condition : Bool) (error : SyncError) : Keeps I (ensure condition error) :=
  keeps_ite (fun _ => keeps_pure _) fun _ => keeps_fail _

/-- after a check, what it checked -/
theorem keeps_ensure_bind {condition : Bool} {error : SyncError} {f : Unit → Syncing α}
    (h : condition → Keeps I (f ())) : Keeps I (ensure condition error >>= f) := by
  cases condition with
  | false => exact keeps_fail _
  | true => exact h rfl

theorem keeps_writeBaseline (value : Baseline) : Keeps (Durable.Journal J) (writeBaseline value) :=
  (keeps_ensure _ _).bind fun _ => keeps_write fun _ hs => hs

theorem keeps_acknowledge (commitID : String) (resolution : ConflictResolution) :
    Keeps (Durable.Journal J) (acknowledge commitID resolution) := keeps_write fun _ hs => hs

theorem keeps_removeResolutionCommit : Keeps (Durable.Journal J) removeResolutionCommit :=
  keeps_write nofun

theorem keeps_writeResolutionCommit {value : ResolutionCommit} (h : value.valid → J value) :
    Keeps (Durable.Journal J) (writeResolutionCommit value) := by
  refine keeps_ensure_bind fun hvalid => keeps_write fun s _ c hc => ?_
  cases hc
  exact h hvalid

theorem keeps_recoverResolutionCommit (remote : String) :
    Keeps (Durable.Journal J) (r.recoverResolutionCommit remote) := by
  refine keeps_look_bind fun s _ => ?_
  cases s.resolutionCommit with
  | none => exact keeps_pure ()
  | some commit =>
    refine (keeps_ensure _ _).bind fun _ => (keeps_ensure _ _).bind fun _ => (keeps_writeBaseline _).bind fun _ => ?_
    refine (keeps_forEach fun resolution _ => ?_).bind fun _ => keeps_removeResolutionCommit
    exact (keeps_ensure _ _).bind fun _ => keeps_acknowledge _ _

theorem keeps_reconcile (remote : String) (answer : Option Reconciled) :
    Keeps (Durable.Journal J) (r.reconcile remote answer) :=
  (keeps_recoverResolutionCommit remote).bind fun _ => (keeps_demand _ _).bind fun _ => keeps_pure _

/-- what Reconcile answers is prepared for this assignment -/
theorem reconcile_ok {remote : String} {answer : Option Reconciled} {s : Durable}
    {prepared : PreparedPublication × PendingBaseline} (h : (r.reconcile remote answer s).2 = .ok prepared) :
    ∃ c, answer = some c ∧ prepared = r.prepare remote c := by
  obtain ⟨_, -, h⟩ := bind_ok h
  cases answer with
  | none => exact absurd h (by simp [demand, fail_bind, fail])
  | some c => exact ⟨c, rfl, (Except.ok.inj h).symm⟩

variable {c : Reconciled}

theorem keeps_publicationCommitted (hc : c.Journals r J) (remote revision : String) :
    Keeps (Durable.Journal J) (r.publicationCommitted (r.prepare remote c).2 (r.prepare remote c).1 revision) := by
  refine keeps_ensure_bind fun hcheck => keeps_ite (fun _ => keeps_writeBaseline _) fun _ => ?_
  have hrevision : revision = (r.prepare remote c).1.commitID := by
    simp only [Bool.and_eq_true, beq_iff_eq] at hcheck
    exact hcheck.2
  subst hrevision
  refine (keeps_writeResolutionCommit (hc remote)).bind fun _ => (keeps_writeBaseline _).bind fun _ => ?_
  refine (keeps_forEach fun resolution _ => ?_).bind fun _ => keeps_removeResolutionCommit
  exact keeps_ite (fun _ => keeps_acknowledge _ _) fun _ => keeps_pure ()

theorem keeps_publicationPrepared (hc : c.Journals r J) (remote : String) :
    Keeps (Durable.Journal J) (publicationPrepared (r.prepare remote c).2 (r.prepare remote c).1) :=
  (keeps_ensure _ _).bind fun _ => keeps_ite (fun _ => keeps_pure ()) fun _ => keeps_writeResolutionCommit (hc remote)

theorem keeps_publicationAborted (prepared : PreparedPublication) :
    Keeps (Durable.Journal J) (publicationAborted prepared) := by
  refine keeps_look_bind fun s _ => ?_
  cases s.resolutionCommit with
  | none => exact keeps_pure ()
  | some commit => exact (keeps_ensure _ _).bind fun _ => keeps_removeResolutionCommit

theorem keeps_push (a : Answers) (commitID : String) : Keeps (Durable.Journal J) (Publisher.push a commitID) :=
  keeps_ite (fun _ => keeps_write fun _ hs => hs) fun _ => keeps_pure ()

variable {p : Publisher} {a : Answers}

theorem keeps_publish (hc : c.Journals p.reconciler J) (remote : String) :
    Keeps (Durable.Journal J) (p.publish a (p.reconciler.prepare remote c).2 (p.reconciler.prepare remote c).1) := by
  refine (keeps_push _ _).bind fun _ => ?_
  refine keeps_ite (fun _ => ?_) fun _ => keeps_ite (fun _ => ?_) fun _ => keeps_ite (fun _ => ?_) fun _ => keeps_fail _
  · exact ((keeps_publicationCommitted hc _ _).mapError _).bind fun _ =>
      keeps_ite (fun _ => keeps_fail _) fun _ => keeps_pure _
  · exact ((keeps_publicationAborted _).mapError _).bind fun _ => keeps_fail _
  · exact ((keeps_publicationCommitted hc _ _).mapError _).bind fun _ =>
      keeps_ite (fun _ => keeps_fail _) fun _ => keeps_pure _

theorem keeps_commitUnchanged (hc : c.Journals p.reconciler J) (remote revision : String) :
    Keeps (Durable.Journal J)
      (p.commitUnchanged (p.reconciler.prepare remote c).2 (p.reconciler.prepare remote c).1 revision) :=
  (keeps_publicationCommitted hc _ _).bind fun _ => keeps_pure _

theorem keeps_publishLeased (h : ∀ c, a.reconciledAgain = some c → c.Journals p.reconciler J) (remote : String) :
    Keeps (Durable.Journal J) (p.publishLeased a remote) := by
  refine (keeps_demand _ _).bind fun _ => (keeps_demand _ _).bind fun verified => (keeps_ensure _ _).bind fun _ => ?_
  refine (keeps_reconcile verified a.reconciledAgain).bind_of (fun _ _ => reconcile_ok) ?_
  rintro _ ⟨c, hc, rfl⟩
  refine keeps_ite (fun _ => keeps_commitUnchanged (h c hc) _ _) fun _ => ?_
  refine (keeps_ensure _ _).bind fun _ => (keeps_ensure _ _).bind fun _ => (keeps_ensure _ _).bind fun _ => ?_
  refine (keeps_ensure _ _).bind fun _ => (keeps_demand _ _).bind fun _ => (keeps_ensure _ _).bind fun _ => ?_
  exact (keeps_publicationPrepared (h c hc) _).bind fun _ => keeps_publish (h c hc) _

/-- the journals of a Sync are those of its two Reconciles -/
theorem keeps_journal (h : ∀ c, a.reconciled = some c ∨ a.reconciledAgain = some c → c.Journals p.reconciler J) :
    Keeps (Durable.Journal J) (p.sync a) := by
  refine (keeps_demand _ _).bind fun remote => (keeps_ensure _ _).bind fun _ => (keeps_demand _ _).bind fun _ => ?_
  refine (keeps_ensure _ _).bind fun _ => (keeps_ensure _ _).bind fun _ => ?_
  refine (keeps_reconcile remote a.reconciled).bind_of (fun _ _ => reconcile_ok) ?_
  rintro _ ⟨c, hc, rfl⟩
  exact keeps_ite (fun _ => keeps_commitUnchanged (h c (.inl hc)) _ _) fun _ =>
    keeps_publishLeased (fun c hc => h c (.inr hc)) _

/-- the journal passes the checks of the next recovery, apart from the remote head -/
def ResolutionCommit.own (r : Reconciler) (c : ResolutionCommit) : Bool :=
  c.valid && c.baseline.repositoryID == r.descriptor.repositoryID &&
    c.baseline.assignmentID == r.descriptor.assignmentID &&
    c.baseline.remoteRevision == c.commitID

theorem keeps_own (p : Publisher) (a : Answers) : Keeps (Durable.Journal (·.own p.reconciler)) (p.sync a) :=
  keeps_journal fun c _ remote hvalid => by simpa [own, prepare] using hvalid

/-- **No resolutions, no journal.** Stopped anywhere, a Sync that applies no resolutions leaves no journal if it
found none. -/
theorem journal_of_resolutions (p : Publisher) (a : Answers) (s : Durable) (n : Nat)
    (h : ∀ c, a.reconciled = some c ∨ a.reconciledAgain = some c → c.resolutions = [])
    (hs : s.resolutionCommit = none) : ((p.sync a).stopped n s).resolutionCommit = none := by
  have hkeeps : Keeps (Durable.Journal fun _ => False) (p.sync a) :=
    keeps_journal fun c hc remote hvalid => by simp [valid, h c hc] at hvalid
  have hnone := hkeeps.stopped (s := s) (fun c hc => absurd hc (by simp [hs])) n
  exact Option.eq_none_iff_forall_ne_some.2 hnone

end Keeps

/-! ## how a later Sync ends -/

/-- ErrSyncUncertain is not among the errors -/
def Certain (errors : List SyncError) : Prop := uncertain ∉ errors

/-- there is nothing to recover -/
def Durable.Settled (s : Durable) : Prop := s.resolutionCommit = none

section Ends

variable {α : Type} {P : Durable → Prop} {r : Reconciler} {error : SyncError}

theorem ends_ensure {condition : Bool} (h : error ≠ .uncertain) :
    Ends P (ensure condition error) (fun _ => P) Certain := by
  cases condition with
  | false => exact ends_fail fun _ _ => by simpa [Certain] using h.symm
  | true => exact ends_pure fun _ hs => hs

theorem ends_demand {answer : Option α} (h : error ≠ .uncertain) :
    Ends P (demand answer error) (fun _ => P) Certain := by
  cases answer with
  | none => exact ends_fail fun _ _ => by simpa [Certain] using h.symm
  | some a => exact ends_pure fun _ hs => hs

theorem ends_writeBaseline (value : Baseline) (hP : ∀ s, P s → P { s with baseline := some value }) :
    Ends P (writeBaseline value) (fun _ => P) Certain :=
  (ends_ensure (by simp)).bind fun _ => ends_write hP

theorem ends_writeResolutionCommit (value : ResolutionCommit) :
    Ends (fun _ => True) (writeResolutionCommit value) (fun _ _ => True) Certain :=
  (ends_ensure (by simp)).bind fun _ => ends_write fun _ _ => trivial

theorem ends_publicationCommitted (pending : PendingBaseline) (prepared : PreparedPublication) (revision : String) :
    Ends (fun _ => True) (r.publicationCommitted pending prepared revision) (fun _ _ => True) Certain := by
  refine (ends_ensure (by simp)).bind fun _ => ends_ite (fun _ => ends_writeBaseline _ fun _ _ => trivial) fun _ => ?_
  refine (ends_writeResolutionCommit _).bind fun _ => (ends_writeBaseline _ fun _ _ => trivial).bind fun _ => ?_
  refine (ends_forEach fun resolution _ => ?_).bind fun _ => ends_write fun _ _ => trivial
  exact ends_ite (fun _ => ends_write fun _ _ => trivial) fun _ => ends_pure fun _ _ => trivial

/-- the recovery of a journal whose commit is the remote head ends without a journal -/
theorem ends_recoverResolutionCommit (remote : String) :
    Ends (fun s => ∀ c, s.resolutionCommit = some c → c.commitID = remote) (r.recoverResolutionCommit remote)
      (fun _ => Durable.Settled) Certain := by
  refine ends_look_bind fun s hs => ?_
  cases hc : s.resolutionCommit with
  | none => exact ends_pure fun s' hs' => hs' ▸ hc
  | some commit =>
    refine (ends_ensure (P := fun _ => True) (by simp)).mono (fun _ _ => trivial)
      (fun _ _ _ => trivial) |>.bind fun _ => ?_
    rw [show (remote == commit.commitID) = true from beq_iff_eq.2 (hs commit hc).symm]
    refine Ends.bind (Q := fun _ _ => True) (ends_pure fun _ _ => trivial) fun _ => ?_
    refine (ends_writeBaseline _ fun _ _ => trivial).bind fun _ => ?_
    refine (ends_forEach fun resolution _ => ?_).bind fun _ => ends_write fun _ _ => rfl
    exact (ends_ensure (by simp)).bind fun _ => ends_write fun _ _ => trivial

theorem ends_reconcile (remote : String) (answer : Option Reconciled) :
    Ends (fun s => ∀ c, s.resolutionCommit = some c → c.commitID = remote) (r.reconcile remote answer)
      (fun _ => Durable.Settled) Certain :=
  (ends_recoverResolutionCommit remote).bind fun _ => (ends_demand (by simp)).bind fun _ => ends_pure fun _ hs => hs

theorem ends_push (a : Answers) (commitID : String) :
    Ends (fun _ => True) (Publisher.push a commitID) (fun _ _ => True) Certain :=
  ends_ite (fun _ => ends_write fun _ _ => trivial) fun _ => ends_pure fun _ _ => trivial

theorem ends_commitUnchanged (p : Publisher) (pending : PendingBaseline) (prepared : PreparedPublication)
    (revision : String) :
    Ends Durable.Settled (p.commitUnchanged pending prepared revision) (fun _ _ => True) Certain :=
  ((ends_publicationCommitted _ _ _).mono (fun _ _ => trivial) fun _ _ h => h).bind fun _ =>
    ends_pure fun _ _ => trivial

variable {p : Publisher} {a : Answers} (hlanded : a.published.landed) (hcertain : a.published.uncertain = false)
  (hrevision : a.published.remoteRevision ≠ "")
include hlanded hcertain hrevision

theorem ends_publish (pending : PendingBaseline) (prepared : PreparedPublication) :
    Ends (fun _ => True) (p.publish a pending prepared) (fun _ _ => True) Certain := by
  have herr : Certain (if a.publishFailed then [failed] else []) := by split_ifs <;> simp [Certain]
  refine (ends_push _ _).bind fun _ => ?_
  rw [if_pos (by simp [hlanded, hcertain, hrevision])]
  refine ((ends_publicationCommitted _ _ _).mapError fun e he => ?_).bind fun _ => ?_
  · simp only [Certain, List.mem_append, not_or] at herr he ⊢
    exact ⟨herr, he⟩
  · exact ends_ite (fun _ => ends_fail fun _ _ => herr) fun _ => ends_pure fun _ _ => trivial

theorem ends_publishLeased (remote : String) :
    Ends Durable.Settled (p.publishLeased a remote) (fun _ _ => True) Certain := by
  refine (ends_demand (by simp)).bind fun _ => (ends_demand (by simp)).bind fun verified => ?_
  refine (ends_ensure (by simp)).bind fun _ => ?_
  refine ((ends_reconcile verified _).mono (fun s hs c hc =>
    absurd hc (by simp [show s.resolutionCommit = none from hs]))
    fun _ _ h => h).bind fun _ => ?_
  refine ends_ite (fun _ => ends_commitUnchanged _ _ _ _) fun _ => ?_
  refine (ends_ensure (by simp)).bind fun _ => (ends_ensure (by simp)).bind fun _ =>
    (ends_ensure (by simp)).bind fun _ => ?_
  refine (ends_ensure (by simp)).bind fun _ => (ends_demand (by simp)).bind fun _ =>
    (ends_ensure (by simp)).bind fun _ => ?_
  refine Ends.bind (Q := fun _ _ => True) ?_ fun _ => ends_publish hlanded hcertain hrevision _ _
  refine (ends_ensure (by simp)).bind fun _ => ends_ite (fun _ => ends_pure fun _ _ => trivial) fun _ => ?_
  exact (ends_writeResolutionCommit _).mono (fun _ _ => trivial) fun _ _ h => h

end Ends

/-- nothing fails, and every Fetch finds the same head -/
structure Answers.Clean (a : Answers) (p : Publisher) (head : String) : Prop where
  head_ne : head ≠ ""
  fetched : a.fetched = some head
  reviewed : ∃ revision, a.reviewed = some revision ∧ p.needsReview revision = false
  credential : a.credential
  reconciled : a.reconciled.isSome
  lease : a.lease = some head
  verified : a.verified = some head
  renewed : a.renewed
  inTime : a.inTime
  credentialAgain : a.credentialAgain
  current : a.current = some head
  pushed : a.pushed
  /-- Publish reports the commit it was given -/
  published : ∃ c, a.reconciledAgain = some c ∧ a.published = ⟨c.commit.getD head, true, false⟩ ∧ c.commit ≠ some ""
  publishFailed : a.publishFailed = false

namespace Answers.Clean

variable {a : Answers} {p : Publisher} {s : Durable}

variable (h : a.Clean p s.head)
include h

/-- without failures a Sync starts with the Reconcile -/
theorem sync_eq : p.sync a = (p.reconciler.reconcile s.head a.reconciled >>= fun
    | (prepared, pending) => if !prepared.hasChanges then p.commitUnchanged pending prepared s.head
      else p.publishLeased a s.head) := by
  obtain ⟨revision, hreviewed, hreview⟩ := h.reviewed
  have hhead : (s.head != "") = true := bne_iff_ne.2 h.head_ne
  rw [Publisher.sync, h.fetched, hreviewed, h.credential]
  simp only [demand, ensure, pure_bind, hhead, hreview, Bool.not_false, if_true]

/-- a journal of the remote head, or none: the Sync is not uncertain -/
theorem certain (hs : ∀ c, s.resolutionCommit = some c → c.commitID = s.head)
    {errors : List SyncError} (he : (p.sync a s).2 = .error errors) : uncertain ∉ errors := by
  obtain ⟨c, -, hpublished, hcommit⟩ := h.published
  have hrevision : a.published.remoteRevision ≠ "" := by
    rw [hpublished]
    cases hc : c.commit with
    | none => exact h.head_ne
    | some commit => exact fun hempty => hcommit (by rw [hc]; exact congrArg some hempty)
  have hends : Ends (fun s' => ∀ c, s'.resolutionCommit = some c → c.commitID = s.head) (p.sync a) (fun _ _ => True)
      Certain := by
    rw [h.sync_eq]
    refine (ends_reconcile _ _).bind fun _ => ends_ite (fun _ => ends_commitUnchanged _ _ _ _) fun _ => ?_
    exact ends_publishLeased (by rw [hpublished]) (by rw [hpublished]) hrevision s.head
  exact (hends s hs).2 errors he

/-- a journal of another commit: the Sync is uncertain, and it writes nothing -/
theorem stuck {c : ResolutionCommit} (hc : s.resolutionCommit = some c) (hown : c.own p.reconciler)
    (hcommit : c.commitID ≠ s.head) : p.sync a s = ([], .error [.uncertain]) := by
  have hrecover : p.reconciler.recoverResolutionCommit s.head s = ([], .error [.uncertain]) := by
    rw [recoverResolutionCommit, look_bind, hc]
    simp only [own] at hown
    simp only [hown, ensure, if_true, pure_bind, beq_eq_false_iff_ne.2 hcommit.symm, Bool.false_eq_true,
      if_false, fail_bind]
    rfl
  rw [h.sync_eq]
  exact bind_error (bind_error hrecover)

end Answers.Clean

/-! ## runs -/

/-- a process that is stopped after some number of its writes, if it is not done before; another machine's push -/
inductive SyncEvent
  | stopped (a : Answers) (writes : Nat)
  | moved (head : String)

def Publisher.step (p : Publisher) (s : Durable) : SyncEvent → Durable
  | .stopped a writes => (p.sync a).stopped writes s
  | .moved head => { s with head := head }

/-- after the events, from a machine that has never synchronised -/
def Publisher.after (p : Publisher) (head : String) (events : List SyncEvent) : Durable :=
  Machine.run p.step { head := head } events

theorem journal_step (p : Publisher) (s : Durable) (event : SyncEvent) (hs : s.Journal (·.own p.reconciler)) :
    (p.step s event).Journal (·.own p.reconciler) := by
  cases event with
  | stopped a writes => exact (keeps_own p a).stopped hs writes
  | moved head => exact hs

/-- in every run a journal on disk is one's own -/
theorem journal_after (p : Publisher) (head : String) (events : List SyncEvent) :
    (p.after head events).Journal (·.own p.reconciler) :=
  Machine.run_inv p.step { head := head } (I := fun _ s => Durable.Journal (·.own p.reconciler) s)
    nofun (fun _ event hs => journal_step p _ event hs) events

/-- **The next process.** After any Syncs that were stopped anywhere and any pushes of other machines, with a remote
that does not change and no failures: the next Sync does not end in ErrSyncUncertain exactly when no journal was
left, or the remote head is its commit; and otherwise it writes nothing, so that every later attempt ends in the
same way. -/
theorem later_sync_certain_iff (p : Publisher) (head : String) (events : List SyncEvent) (a : Answers)
    (ha : a.Clean p (p.after head events).head) :
    ((∀ errors, (p.sync a (p.after head events)).2 = .error errors → uncertain ∉ errors) ↔
      ∀ c, (p.after head events).resolutionCommit = some c → c.commitID = (p.after head events).head) ∧
    ((¬ ∀ c, (p.after head events).resolutionCommit = some c → c.commitID = (p.after head events).head) →
      (p.sync a (p.after head events)).1 = []) := by
  set s := p.after head events with hs
  have hstuck : ∀ c, s.resolutionCommit = some c → c.commitID ≠ s.head → p.sync a s = ([], .error [.uncertain]) :=
    fun c hc hne => ha.stuck hc (journal_after p head events c (hs ▸ hc)) hne
  refine ⟨⟨fun h c hc => ?_, fun h errors he => ha.certain h he⟩, fun h => ?_⟩
  · by_contra hne
    exact h _ (by rw [hstuck c hc hne]) (by simp)
  · simp only [not_forall] at h
    obtain ⟨c, hc, hne⟩ := h
    rw [hstuck c hc hne]

/-- **Without resolutions no stop is harmful.** After Syncs that applied none, each stopped anywhere, and any pushes
of other machines there is no journal, and a Sync without failures is not uncertain. -/
theorem certain_without_resolutions (p : Publisher) (head : String) (events : List SyncEvent)
    (h : ∀ a n c, .stopped a n ∈ events → a.reconciled = some c ∨ a.reconciledAgain = some c → c.resolutions = [])
    (a : Answers) (ha : a.Clean p (p.after head events).head) :
    (p.after head events).Settled ∧
      ∀ errors, (p.sync a (p.after head events)).2 = .error errors → uncertain ∉ errors := by
  have hnone : (p.after head events).Settled := by
    refine Machine.run_inv (I := fun pre (s : Durable) => pre ⊆ events → s.Settled) p.step
      { head := head } (fun _ => rfl) (fun pre event ih hpre => ?_) events (List.Subset.refl _)
    obtain ⟨hbefore, hevent⟩ := List.append_subset.1 hpre
    cases event with
    | stopped a n => exact journal_of_resolutions p a _ n (fun c => h a n c (hevent List.mem_cons_self)) (ih hbefore)
    | moved head => exact ih hbefore
  exact ⟨hnone, fun errors => ha.certain fun c hc => absurd hc (by simp [show _ = none from hnone])⟩

/-- no review, one resolution for the path f that keeps the local file -/
def publisher : Publisher := ⟨false, true, "", ⟨⟨"r", "a", .bidirectional, true, "", "", 100⟩, true⟩⟩

def sixtyFour : String := "0123456789abcdef0123456789abcdef0123456789abcdef0123456789abcdef"

def keepLocal : Reconciled where
  commit := some "c1"
  baseline := ⟨"", "", "1", sixtyFour, sixtyFour, "", ∅, ∅⟩
  resolutions := [⟨"k", "f", sixtyFour, "c0", .path, .keepLocal⟩]

/-- a Sync of `keepLocal` without failures -/
def keepingLocal (head : String) : Answers where
  fetched := some head
  reviewed := some head
  credential := true
  reconciled := some keepLocal
  lease := some head
  verified := some head
  reconciledAgain := some keepLocal
  renewed := true
  inTime := true
  credentialAgain := true
  current := some head
  pushed := true
  published := ⟨"c1", true, false⟩
  publishFailed := false
  observed := ⟨true, "c1", false⟩

theorem keepingLocal_clean {head : String} (h : head ≠ "") : (keepingLocal head).Clean publisher head where
  head_ne := h
  fetched := rfl
  reviewed := ⟨head, rfl, rfl⟩
  credential := rfl
  reconciled := rfl
  lease := rfl
  verified := rfl
  renewed := rfl
  inTime := rfl
  credentialAgain := rfl
  current := rfl
  pushed := rfl
  published := ⟨keepLocal, rfl, rfl, by simp [keepLocal]⟩
  publishFailed := rfl

/-- the process stops after the journal and before the push; from then on every Sync is uncertain, and writes nothing -/
theorem stopped_before_push :
    (keepingLocal "c0").Clean publisher (publisher.after "c0" [.stopped (keepingLocal "c0") 1]).head ∧
    publisher.sync (keepingLocal "c0") (publisher.after "c0" [.stopped (keepingLocal "c0") 1]) =
      ([], .error [.uncertain]) :=
  ⟨keepingLocal_clean (by decide), rfl⟩

/-- the process stops after the push; the journal is there, and the next Sync completes it -/
theorem stopped_after_push :
    (publisher.after "c0" [.stopped (keepingLocal "c0") 2]).head = "c1" ∧
    (publisher.after "c0" [.stopped (keepingLocal "c0") 2]).resolutionCommit.isSome ∧
    ∀ errors, (publisher.sync (keepingLocal "c1") (publisher.after "c0" [.stopped (keepingLocal "c0") 2])).2 =
      .error errors → uncertain ∉ errors :=
  ⟨rfl, rfl, (later_sync_certain_iff publisher "c0" [.stopped (keepingLocal "c0") 2] (keepingLocal "c1")
    (keepingLocal_clean (by decide))).1.2 fun c hc => by
      have hjournal : (publisher.after "c0" [.stopped (keepingLocal "c0") 2]).resolutionCommit =
          some ⟨"c1", (publisher.reconciler.prepare "c0" keepLocal).2.value, keepLocal.resolutions⟩ := rfl
      rw [← Option.some.inj (hjournal.symm.trans hc)]
      rfl⟩

def merged : Option Reconciled := some { keepLocal with resolutions := [] }

/-- the process stops after the push of a merge without resolutions -/
def stoppedMerge : SyncEvent := .stopped { keepingLocal "c0" with reconciled := merged, reconciledAgain := merged } 1

theorem stoppedMerge_certain : (publisher.after "c0" [stoppedMerge]).head = "c1" ∧ ∀ errors,
    (publisher.sync (keepingLocal "c1") (publisher.after "c0" [stoppedMerge])).2 = .error errors →
      .uncertain ∉ errors :=
  ⟨rfl, (certain_without_resolutions publisher "c0" _ (by simp +contextual [stoppedMerge, merged]) (keepingLocal "c1")
    (keepingLocal_clean (by decide))).2⟩

end Paperboat.Config
