/-
The plan of a synchronisation is carried out in two trees of files: the home directory
and the repository (workspace_reconciler.go, the loops of Reconcile). Paths are planned
one by one but share directories: a file cannot be created below a file
(checkSafeAbsolutePath), nor where there is a directory.

Results:
- `Tree`: the files of one side, none of them below another;
- `written_iff`: a list of files of one tree can be written into another exactly when
  none of them is in the way of what is there;
- `carried_out_iff`: both halves of the plan can be carried out exactly when no path
  that only one side changed and still has is below, or a directory of, a path of the
  other side.

Witnesses:
- `turned_not_carried_out`: a file that became a directory on the other side, and a
  directory that became a file.
-/
import Paperboat.Config.Rounds

namespace Paperboat.Config

/-- the path lies in the directory, at any depth -/
def below (path directory : Path) : Bool := (directory ++ "/").toList.isPrefixOf path.toList

/-- one of the two would have to be a directory -/
def clash (p q : Path) : Bool := below p q || below q p

/-- the files of one side -/
structure Tree where
  files : Files
  possible : ∀ p ∈ files, ∀ q ∈ files, below p q = false

/-- one write: the file cannot be made below a file, nor over a directory that holds files -/
def create (source tree : Files) (path : Path) : Option Files :=
  if tree.keys.any (clash path) then none else some (Table.copy source tree path)

/-- the loops over ApplyRemote and DeleteLocal, in the home directory -/
def ReconcilePlan.applyTree (plan : ReconcilePlan) (remote home : Files) : Option Files :=
  (plan.applyRemote.foldlM (create remote) home).map fun tree => plan.deleteLocal.foldl (fun t p => t.erase p) tree

/-- the loops over PublishUpdates and PublishDeletes, in the repository -/
def ReconcilePlan.publishTree (plan : ReconcilePlan) (localFiles repository : Files) : Option Files :=
  (plan.publishUpdates.foldlM (create localFiles) repository).map fun tree =>
    plan.publishDeletes.foldl (fun t p => t.erase p) tree

/-- nothing of a tree is in the way of a path -/
def Free (tree : Files) (path : Path) : Prop := ∀ q ∈ tree, clash path q = false

theorem create_isSome (source tree : Files) (path : Path) : (create source tree path).isSome ↔ Free tree path := by
  unfold create Free
  split_ifs with h
  · simp only [Option.isSome_none, Bool.false_eq_true, false_iff]
    intro hfree
    obtain ⟨q, hq, hclash⟩ := List.any_eq_true.1 h
    rw [hfree q (AList.mem_keys.2 hq)] at hclash
    cases hclash
  · simp only [Option.isSome_some, true_iff]
    intro q hq
    by_contra hclash
    exact h (List.any_eq_true.2 ⟨q, AList.mem_keys.1 hq, by simpa using hclash⟩)

/-- **Writing files of one tree into another.** They are in no one's way among themselves, so only what is there
counts. -/
theorem written_iff (source : Tree) (tree : Files) {paths : List Path} (h : ∀ p ∈ paths, p ∈ source.files) :
    (paths.foldlM (create source.files) tree).isSome ↔ ∀ p ∈ paths, Free tree p := by
  induction paths generalizing tree with
  | nil => simp
  | cons p paths ih =>
    rw [List.forall_mem_cons] at h ⊢
    rw [List.foldlM_cons, ← create_isSome source.files]
    cases hcreate : create source.files tree p with
    | none => simp
    | some next =>
      simp only [Option.bind_eq_bind, Option.bind_some, Option.isSome_some, true_and]
      rw [ih next h.2]
      obtain ⟨state, hstate⟩ := Option.isSome_iff_exists.1 (AList.lookup_isSome.2 h.1)
      -- the new tree has one file more, and that one is of the same tree as the rest
      have hnext : ∀ q, q ∈ next ↔ q = p ∨ q ∈ tree := by
        unfold create at hcreate
        split_ifs at hcreate
        cases hcreate
        intro q
        simp [Table.copy, hstate]
      refine forall₂_congr fun q hq => ?_
      have hpq : clash q p = false := by
        rw [clash, source.possible q (h.2 q hq) p h.1, source.possible p h.1 q (h.2 q hq)]
        rfl
      simp only [Free, hnext, forall_eq_or_imp, hpq, true_and]

/-- the paths only one side changed -/
theorem verdict_oneSided (base localState remoteState : Option FileState) (mode : AssignmentMode) :
    (verdict base localState remoteState mode = .apply ↔ base = localState ∧ base ≠ remoteState ∧ mode ≠ .pushOnly) ∧
    (verdict base localState remoteState mode = .publish ↔
      base ≠ localState ∧ base = remoteState ∧ mode ≠ .pullOnly) := by
  unfold verdict
  split_ifs <;> grind

/-- **The plan can be carried out in both trees** exactly when no path that only one side changed and still has is
below, or a directory of, a path of the other side. -/
theorem carried_out_iff (baseline : Files) (localTree remoteTree : Tree) (mode : AssignmentMode) :
    let plan := planReconciliationMode baseline localTree.files remoteTree.files mode
    (plan.applyTree remoteTree.files localTree.files).isSome ∧
      (plan.publishTree localTree.files remoteTree.files).isSome ↔
      (mode ≠ .pushOnly → ∀ p ∈ remoteTree.files, baseline.lookup p = localTree.files.lookup p →
        baseline.lookup p ≠ remoteTree.files.lookup p → ∀ q ∈ localTree.files, clash p q = false) ∧
      (mode ≠ .pullOnly → ∀ p ∈ localTree.files, baseline.lookup p ≠ localTree.files.lookup p →
        baseline.lookup p = remoteTree.files.lookup p → ∀ q ∈ remoteTree.files, clash p q = false) := by
  intro plan
  have hplan := planReconciliationMode_follows baseline localTree.files remoteTree.files mode
  have hside := fun p => verdict_oneSided (baseline.lookup p) (localTree.files.lookup p)
      (remoteTree.files.lookup p) mode
  have happly := written_iff remoteTree localTree.files fun p hp => AList.lookup_isSome.1 ((hplan.applyRemote p).1 hp).2
  have hpublish := written_iff localTree remoteTree.files fun p hp => AList.lookup_isSome.1
      ((hplan.publishUpdates p).1 hp).2
  simp only [ReconcilePlan.applyTree, ReconcilePlan.publishTree, Option.isSome_map, happly, hpublish, Free, plan,
    hplan.applyRemote, hplan.publishUpdates, planVerdict, (hside _).1, (hside _).2, AList.lookup_isSome]
  refine and_congr ?_ ?_
  all_goals exact ⟨fun h hm p hp hl hr => h p ⟨⟨hl, hr, hm⟩, hp⟩, fun h p hp => h hp.1.2.2 p hp.2 hp.1.1 hp.1.2.1⟩

/-- a tree with one file -/
def single (path : Path) : Tree where
  files := AList.singleton path ⟨"", 0, 0, ""⟩
  possible := by
    intro p hp q hq
    obtain rfl : p = path := List.mem_singleton.1 hp
    obtain rfl : q = p := List.mem_singleton.1 hq
    rw [Bool.eq_false_iff]
    intro h
    simpa using (List.isPrefixOf_iff_prefix.1 h).length_le

/-- a file that became a directory on the other side, and a directory that became a file: nothing can be written. -/
theorem turned_not_carried_out :
    (planReconciliationMode (single "a").files (single "a").files (single "a/b").files .bidirectional).applyTree
      (single "a/b").files (single "a").files = none ∧
    (planReconciliationMode (single "a/b").files (single "a").files (single "a/b").files .bidirectional).publishTree
      (single "a").files (single "a/b").files = none := by
  refine ⟨by decide +kernel, by decide +kernel⟩

end Paperboat.Config
