/-
The fence an update raises against exec operations: BeginUpdate and EndUpdate of the
exec manager, and both fences together.

It differs from the fence of the file transfers in that the wait looks at the number of
active operations, and that a call which gives up asks only whether the fence has its
transaction, not whether it raised it.

Results:
- `Manager.step_moves`, `Manager.clear_of_kept`: as for the file transfers;
- `fences_kept_iff`: **on both, the promise of BeginUpdate is kept in a run exactly if
  no call that gives up takes down a fence that another one was promised**.

Witnesses:
- `fences_lost`: the first call of a transaction gives up after the second one returned.
-/
import Paperboat.Update.Transfers

namespace Paperboat.Update

open Fence Fenced Machine

/-! ## Execs -/

namespace Execs

structure Limits where
  maximumActive : ℤ
  maximumOperations : ℕ

/-- `operations` has the hash of each request; a call waits in WaitIdle -/
structure Manager extends Fenced Unit Unit String where
  operations : AList fun _ : String => ℕ := ∅
  order : List String := []

/-- what the operation store says of a new request -/
inductive Reserve
  | unused
  | failed
  | inserted
  | present (hash : ℕ) (recovered : Bool)
deriving DecidableEq, Repr

inductive ManagerOp
  | begin (id : CallID) (ctx : Context) (t : String)
  /-- WaitIdle finds no active operation -/
  | idle (id : CallID)
  /-- the context ends in WaitIdle, or is found over after it: the fence is released -/
  | abandon (id : CallID)
  | settle (id : CallID) (ctx : Context)
  | endUpdate (t : String)
  /-- `hash`: of a request that is valid -/
  | start (ctx : Context) (operationID : String) (hash : Option ℕ) (reserve : Reserve)
  | finish (operationID : String)
deriving DecidableEq, Repr

def transactionChar (c : Char) : Bool :=
  ('a' ≤ c && c ≤ 'z') || ('A' ≤ c && c ≤ 'Z') || ('0' ≤ c && c ≤ '9') || c == '.' || c == '_' || c == ':' || c == '-'

def validUpdateTransactionID (t : String) : Bool :=
  t.utf8ByteSize != 0 && decide (t.utf8ByteSize ≤ 128) && t.toList.all transactionChar

/-- the oldest finished operations go while there are too many -/
def evict (maximum : ℕ) : (AList fun _ : String => ℕ) → List String → (AList fun _ : String => ℕ) × List String
  | operations, [] => (operations, [])
  | operations, oldest :: order =>
    if maximum ≤ operations.entries.length then evict maximum (operations.erase oldest) order
      else (operations, oldest :: order)

namespace Manager

/-- whoever has the transaction of the fence may take it down -/
def owns (s : Manager) (c : Call Unit Unit) : Bool := s.updateTransaction == c.transactionID

def begin (s : Manager) (id : CallID) (ctx : Context) (t : String) : Manager :=
  let c : Call Unit Unit := ⟨t, (), .waiting ()⟩
  match s.answer validUpdateTransactionID .updateInProgress ctx t with
  | some err => { s with toFenced := s.reply id c err }
  | none => { s with toFenced := s.raise id c }

/-- releaseFence -/
def giveUp (s : Manager) (id : CallID) (c : Call Unit Unit) : Manager :=
  { s with toFenced := s.toFenced.giveUp id c (s.owns c) }

def settle (s : Manager) (id : CallID) (c : Call Unit Unit) (ctx : Context) : Manager :=
  { s with toFenced := s.toFenced.settle id c (s.owns c) .updateInProgress ctx }

def endUpdate (s : Manager) (t : String) : Manager :=
    { s with toFenced := s.toFenced.endUpdate validUpdateTransactionID t }

/-- Start; an operation the manager knows is answered without new work -/
def start (limits : Limits) (s : Manager) (ctx : Context) (operationID : String) (hash : Option ℕ) (reserve : Reserve) :
    Manager × Except UpdateError Bool :=
  match ctx, hash with
  | .missing, _ => (s, .error .invalid)
  | _, none => (s, .error .invalid)
  | _, some hash =>
    match s.operations.lookup operationID with
    | some known => (s, if known = hash then .ok true else .error .conflict)
    | none =>
      if s.updateTransaction ≠ "" then (s, .error .updateInProgress)
      else if limits.maximumActive ≤ s.active then (s, .error .capacity)
      else
        let kept := evict limits.maximumOperations s.operations s.order
        let s := { s with operations := kept.1, order := kept.2 }
        if limits.maximumOperations ≤ kept.1.entries.length then (s, .error .capacity)
        else
          match reserve with
          | .failed => (s, .error .store)
          | .present stored recovered =>
            if stored ≠ hash then (s, .error .conflict)
            else if !recovered then (s, .error .store)
            else ({ s with operations := kept.1.insert operationID hash, order := kept.2 ++ [operationID] }, .ok true)
          | .unused | .inserted =>
            ({ s with
                operations := kept.1.insert operationID hash
                active := s.active + 1
                running := operationID :: s.running }, .ok false)

/-- the end of an execution -/
def finish (s : Manager) (operationID : String) : Manager :=
  { s with active := s.active - 1, order := s.order ++ [operationID], running := s.running.erase operationID }

def step (limits : Limits) (s : Manager) : ManagerOp → Manager
  | .begin id ctx t => if (s.calls.lookup id).isSome then s else s.begin id ctx t
  | .idle id =>
    match s.calls.lookup id with
    | some ⟨t, _, .waiting _⟩ => if s.active = 0 then { s with toFenced := s.setCall id ⟨t, (), .drained⟩ } else s
    | _ => s
  | .abandon id =>
    match s.calls.lookup id with
    | some ⟨t, _, .waiting _⟩ => s.giveUp id ⟨t, (), .waiting ()⟩
    | some ⟨t, _, .drained⟩ => s.giveUp id ⟨t, (), .drained⟩
    | _ => s
  | .settle id ctx =>
    match s.calls.lookup id with
    | some ⟨t, _, .drained⟩ => s.settle id ⟨t, (), .drained⟩ ctx
    | _ => s
  | .endUpdate t => s.endUpdate t
  | .start ctx operationID hash reserve => (s.start limits ctx operationID hash reserve).1
  | .finish operationID => if operationID ∈ s.running then s.finish operationID else s

/-- from the return of BeginUpdate until EndUpdate is called no operation runs and no new one is admitted -/
def Kept (limits : Limits) (s : Manager) : Prop :=
  ∀ t ∈ s.promised, s.running = [] ∧ ∀ operationID hash reserve, s.operations.lookup operationID = none →
    (s.start limits .live operationID (some hash) reserve).2 = .error .updateInProgress

/-- a call that gives up has the transaction of a fence that is promised -/
def takesDown (s : Manager) : ManagerOp → Bool
  | .abandon id =>
    match s.calls.lookup id with
    | some ⟨t, _, .waiting _⟩ => s.updateTransaction == t && s.promised.contains t
    | some ⟨t, _, .drained⟩ => s.updateTransaction == t && s.promised.contains t
    | _ => false
  | .settle id ctx =>
    match s.calls.lookup id with
    | some ⟨t, _, .drained⟩ => ctx == .over && s.updateTransaction == t && s.promised.contains t
    | _ => false
  | _ => false

variable {s : Manager}

theorem begin_moves (hcounted : s.active = s.running.length) (id : CallID) (ctx : Context) (t : String) :
    s.toFenced.Moves (s.begin id ctx t).toFenced := by
  unfold begin
  dsimp only
  split
  next err h => exact answer_moves (c := ⟨t, (), .waiting ()⟩) hcounted h id
  next h => exact raise_moves (c := ⟨t, (), .waiting ()⟩) (by decide) h id

section

variable (limits : Limits) (s : Manager) (ctx : Context) (operationID : String) (hash : Option ℕ) (reserve : Reserve)

/-- Start leaves fence, calls and promises alone, and lets an operation in only without a fence -/
theorem start_cases : (s.start limits ctx operationID hash reserve).1.updateTransaction = s.updateTransaction ∧
      (s.start limits ctx operationID hash reserve).1.calls = s.calls ∧
      (s.start limits ctx operationID hash reserve).1.promised = s.promised ∧
      ((s.start limits ctx operationID hash reserve).1.running = s.running ∧
          (s.start limits ctx operationID hash reserve).1.active = s.active ∨
        s.updateTransaction = "" ∧ (s.start limits ctx operationID hash reserve).1.running = operationID :: s.running ∧
          (s.start limits ctx operationID hash reserve).1.active = s.active + 1) := by
  unfold start
  dsimp only
  repeat' split
  all_goals try exact ⟨rfl, rfl, rfl, .inl ⟨rfl, rfl⟩⟩
  all_goals
    rename_i hfence _ _ _
    exact ⟨rfl, rfl, rfl, .inr ⟨not_not.1 hfence, rfl, rfl⟩⟩

theorem start_moves : s.toFenced.Moves (s.start limits ctx operationID hash reserve).1.toFenced := by
  obtain ⟨hfence, hcalls, hpromised, hcase⟩ := start_cases limits s ctx operationID hash reserve
  refine ⟨?_, fun h => ?_, fun h => by rw [Named, hcalls]; exact h⟩
  · rcases hcase with ⟨hrunning, -⟩ | ⟨hfree, hrunning, -⟩
    · left
      simp [view, hfence, hpromised, hrunning]
    · right
      have hview : (s.start limits ctx operationID hash reserve).1.view =
          { s.view with running := operationID :: s.view.running } := by
        simp [view, hfence, hpromised, hrunning]
      rw [hview]
      exact .admits operationID (if_pos hfree)
  · rcases hcase with ⟨hrunning, hactive⟩ | ⟨-, hrunning, hactive⟩
    · rw [hrunning, hactive, h]
    · rw [hrunning, hactive, h]
      rfl

end

variable {limits : Limits}

theorem step_moves (h : s.Inv) (op : ManagerOp) (hclear : s.takesDown op = false) :
    s.toFenced.Moves (s.step limits op).toFenced := by
  -- a call that owns the fence is not promised it
  have hfree : ∀ c : Call Unit Unit,
      (s.updateTransaction == c.transactionID && s.promised.contains c.transactionID) = false →
      s.owns c = true → c.transactionID ∉ s.promised := by
    intro c hclear howns
    rw [Bool.and_eq_false_imp] at hclear
    simpa using hclear howns
  cases op with
  | begin id ctx t =>
    simp only [step]
    split_ifs
    · exact .refl s.toFenced
    · exact begin_moves h.counted id ctx t
  | idle id =>
    simp only [step]
    split
    next t _ _ hc =>
      split_ifs
      · exact .setCall hc (by simp) rfl
      · exact .refl s.toFenced
    · exact .refl s.toFenced
  | abandon id =>
    simp only [step, takesDown] at hclear ⊢
    split at hclear
    next hc => exact giveUp_moves (h.named id _ hc (by simp)) beq_iff_eq.1 (hfree _ hclear) id
    next hc => exact giveUp_moves (h.named id _ hc (by simp)) beq_iff_eq.1 (hfree _ hclear) id
    · exact .refl s.toFenced
  | settle id ctx =>
    simp only [step, takesDown] at hclear ⊢
    split at hclear
    next t _ hc =>
      refine settle_moves (h.named id _ hc (by simp)) beq_iff_eq.1 h.counted (fun hover => hfree _ ?_) id
      rw [hover] at hclear
      simpa using hclear
    · exact .refl s.toFenced
  | endUpdate t => exact endUpdate_moves (by decide) s.toFenced t
  | start ctx operationID hash reserve => exact start_moves limits s ctx operationID hash reserve
  | finish operationID =>
    simp only [step]
    split_ifs with hmem
    · exact .release hmem rfl rfl rfl
    · exact .refl s.toFenced

/-- a manager with the operations it loaded -/
def loaded (operations : AList fun _ : String => ℕ) (order : List String) : Manager :=
    { operations := operations, order := order }

theorem loaded_inv (operations : AList fun _ : String => ℕ) (order : List String) : (loaded operations order).Inv :=
  ⟨rfl, nofun, nofun⟩

theorem kept_of_inv (h : s.Inv) : s.Kept limits := by
  intro t ht
  obtain ⟨hfence, hidle⟩ := h.kept ht
  refine ⟨hidle, fun operationID hash reserve hnone => ?_⟩
  simp [start, hnone, hfence]

/-- once a promised fence is taken down, an operation is no longer refused for the update -/
theorem clear_of_kept (op : ManagerOp) (hkept : (s.step limits op).Kept limits) : s.takesDown op = false := by
  have hdown : ∀ id c, (s.giveUp id c).Kept limits →
      (s.updateTransaction == c.transactionID && s.promised.contains c.transactionID) = false := by
    intro id c hkept
    by_contra htrue
    simp only [Bool.not_eq_false, Bool.and_eq_true, List.contains_iff_mem, beq_iff_eq] at htrue
    obtain ⟨hfence, hmem⟩ := htrue
    obtain ⟨fresh, hfresh⟩ := Infinite.exists_notMem_finset s.operations.keys.toFinset
    have hnone : s.operations.lookup fresh = none :=
      AList.lookup_eq_none.2 fun hin => hfresh (List.mem_toFinset.2 (AList.mem_keys.1 hin))
    have hstart := (hkept c.transactionID hmem).2 fresh 0 .failed hnone
    simp [start, giveUp, owns, Fenced.giveUp, Fenced.reply, Fenced.setCall, hfence, hnone] at hstart
    split_ifs at hstart <;> cases hstart
  cases op with
  | abandon id =>
    simp only [step, takesDown] at hkept ⊢
    split at hkept
    next t _ _ hc => exact hdown id ⟨t, (), .waiting ()⟩ hkept
    next t _ hc => exact hdown id ⟨t, (), .drained⟩ hkept
    · rfl
  | settle id ctx =>
    simp only [step, takesDown] at hkept ⊢
    split at hkept
    next t _ hc =>
      cases hover : ctx == .over with
      | false => rfl
      | true =>
        rw [settle, Fenced.settle, if_pos (beq_iff_eq.1 hover)] at hkept
        exact hdown id ⟨t, (), .drained⟩ hkept
    · rfl
  | _ => rfl

end Manager

end Execs

/-! ## Both fences -/

/-- **The promise of BeginUpdate is kept** in a run of either component exactly if no call that gives up takes down
a fence that another call of its transaction was promised. -/
theorem fences_kept_iff (transfers : List Transfers.ServiceOp) (limits : Execs.Limits)
    (operations : AList fun _ : String => ℕ) (order : List String) (execs : List Execs.ManagerOp) :
    ((∀ pre, pre <+: transfers → (run Transfers.Service.step {} pre).Kept) ↔
      Throughout Transfers.Service.step {} (fun s op => s.takesDown op = false) transfers) ∧
    ((∀ pre, pre <+: execs → (run (Execs.Manager.step limits)
      (Execs.Manager.loaded operations order) pre).Kept limits) ↔
      Throughout (Execs.Manager.step limits) (Execs.Manager.loaded operations order)
        (fun s op => s.takesDown op = false) execs) := by
  refine ⟨?_, ?_⟩
  · exact always_iff_throughout_of Transfers.Service.step {} (I := fun s => s.Inv) Transfers.Service.init_inv
      (fun _ h => Transfers.Service.kept_of_inv h)
      (fun _ op h hclear => h.moves (Transfers.Service.step_moves h op hclear))
      (fun _ op _ hkept => Transfers.Service.clear_of_kept op hkept) transfers
  · exact always_iff_throughout_of (Execs.Manager.step limits) _ (I := fun s => s.Inv)
      (Execs.Manager.loaded_inv operations order) (fun _ h => Execs.Manager.kept_of_inv h)
      (fun _ op h hclear => h.moves (Execs.Manager.step_moves h op hclear))
      (fun _ op _ hkept => Execs.Manager.clear_of_kept op hkept) execs

/-- the first call of "t" waits for work 1; the work ends and a second call of "t" returns at once; the first gives
up; work 2 -/
def lostTransferFence : List Transfers.ServiceOp :=
  [.admits 1 .live, .begin 0 .live "t", .release 1, .begin 1 .live "t", .abandon 0, .admits 2 .live]

def lostExecFence : List Execs.ManagerOp :=
  [.start .live "a" (some 1) .unused, .begin 0 .live "t", .finish "a", .begin 1 .live "t", .abandon 0,
    .start .live "b" (some 1) .unused]

/-- "t" is promised that nothing runs, and something does -/
theorem fences_lost :
    ((run Transfers.Service.step {} lostTransferFence).promised = ["t"] ∧
      (run Transfers.Service.step {} lostTransferFence).running = [2]) ∧
    (run (Execs.Manager.step ⟨8, 8⟩) (Execs.Manager.loaded ∅ []) lostExecFence).promised = ["t"] ∧
      (run (Execs.Manager.step ⟨8, 8⟩) (Execs.Manager.loaded ∅ []) lostExecFence).running = ["b"] := by
  decide +kernel

end Paperboat.Update
