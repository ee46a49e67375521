/-
The fence an update raises against file transfers: BeginUpdate and EndUpdate of the file
transfer service.

BeginUpdate closes admission under the lock, waits outside it for the admitted work, and
checks once more under the lock; a call whose context ends takes the fence down again. A
call that finds the fence up under its own transaction with no work running returns at
once. Each section under the lock is a step, and a run is an interleaving of the steps
of any number of calls and of any work. The exec manager has a fence of the same make
(`Execs`): what both have is `Fenced`.

Results:
- `Fenced.Moves`: a section is a change of the fence as in `Fence.Change`, and
  `Fenced.Inv.moves`: it keeps every promise;
- `Service.step_moves`: a step is such a section, unless a call that gives up takes down
  a fence another call of the same transaction was promised (`takesDown`);
- `Service.clear_of_kept`: a step that keeps the promises is none of those.
-/
import Paperboat.Core.Fence
import Paperboat.Core.Index
import Paperboat.Core.Machine

namespace Paperboat.Update

open Fence

abbrev CallID := ℕ

abbrev WorkID := ℕ

/-- a context: nil, over, or neither -/
inductive Context
  | missing
  | over
  | live
deriving DecidableEq, Repr

inductive UpdateError
  | invalid
  | resourceLimit
  | updateInProgress
  | conflict
  | capacity
  /-- the error of the operation store, or of a record of it -/
  | store
  | context
deriving DecidableEq, Repr

/-! ## A fence and the calls for it -/

/-- where a call of BeginUpdate is, and what it waits for -/
inductive Phase (Wait : Type)
  | waiting (wait : Wait)
  | drained
  | returned (err : Option UpdateError)
deriving DecidableEq, Repr

structure Call (Generation Wait : Type) where
  transactionID : String
  generation : Generation
  phase : Phase Wait
deriving DecidableEq, Repr

/-- `active` is the counter of the admitted work and `running` lists it; `promised` has the transactions of which a
BeginUpdate returned nil since EndUpdate was last called for them -/
structure Fenced (Generation Wait Work : Type) where
  updateTransaction : String := ""
  active : ℤ := 0
  calls : AList fun _ : CallID => Call Generation Wait := ∅
  running : List Work := []
  promised : List String := []

namespace Fenced

variable {Generation Wait Work : Type}

section Sections

variable (s : Fenced Generation Wait Work) (id : CallID) (c : Call Generation Wait)

def setCall : Fenced Generation Wait Work := { s with calls := s.calls.insert id c }

/-- the call returns; without an error its transaction is promised the fence -/
def reply (err : Option UpdateError) : Fenced Generation Wait Work :=
  { s.setCall id { c with phase := .returned err } with
    promised := if err = none then c.transactionID :: s.promised else s.promised }

/-- what BeginUpdate answers at once, if it raises no fence -/
def answer (valid : String → Bool) (busy : UpdateError) (ctx : Context) (t : String) : Option (Option UpdateError) :=
  if ctx = .missing || !valid t then some (some .invalid)
  else if ctx = .over then some (some .context)
  else if s.updateTransaction ≠ "" then some (if s.updateTransaction = t ∧ s.active = 0 then none else some busy)
  else none

/-- the call raises the fence -/
def raise : Fenced Generation Wait Work := { s with updateTransaction := c.transactionID }.setCall id c

/-- a call whose context is over takes down the fence it owns -/
def giveUp (owns : Bool) : Fenced Generation Wait Work :=
  { s with updateTransaction := if owns then "" else s.updateTransaction }.reply id c (some .context)

/-- the last section of BeginUpdate -/
def settle (owns : Bool) (busy : UpdateError) (ctx : Context) : Fenced Generation Wait Work :=
  if ctx = .over then s.giveUp id c owns
  else if !owns || s.active != 0 then s.reply id c (some busy)
  else s.reply id c none

def endUpdate (valid : String → Bool) (t : String) : Fenced Generation Wait Work :=
  let s := { s with promised := s.promised.filter (· ≠ t) }
  if valid t && s.updateTransaction == t then { s with updateTransaction := "" } else s

end Sections

def view (s : Fenced Generation Wait Work) : View String Work :=
  ⟨if s.updateTransaction = "" then none else some s.updateTransaction, s.running, s.promised⟩

/-- the calls of a state that are still under way have a transaction -/
def Named (s : Fenced Generation Wait Work) : Prop :=
  ∀ id c, s.calls.lookup id = some c → (∀ err, c.phase ≠ .returned err) → c.transactionID ≠ ""

/-- the counter counts the admitted work, calls under way have a transaction, and every promise is kept -/
structure Inv (s : Fenced Generation Wait Work) : Prop where
  counted : s.active = s.running.length
  named : s.Named
  held : s.view.Held

variable {s t : Fenced Generation Wait Work} {c : Call Generation Wait}

theorem fence_of_ne (h : s.updateTransaction ≠ "") : s.view.fence = some s.updateTransaction := if_neg h

theorem Named.setCall (h : s.Named) (id : CallID)
    (hc : (∀ err, c.phase ≠ .returned err) → c.transactionID ≠ "") : (s.setCall id c).Named :=
  Index.forall_insert h hc

theorem Named.reply (h : s.Named) (id : CallID) (c : Call Generation Wait) (err : Option UpdateError) :
    (s.reply id c err).Named :=
  h.setCall id (c := { c with phase := .returned err }) fun hfalse => absurd rfl (hfalse err)

/-- a promise is kept: the fence is up, and nothing runs -/
theorem Inv.kept (h : s.Inv) {u : String} (hu : u ∈ s.promised) : s.updateTransaction ≠ "" ∧ s.running = [] := by
  obtain ⟨hfence, hidle⟩ := h.held u hu
  refine ⟨fun heq => ?_, hidle⟩
  rw [view, if_pos heq] at hfence
  cases hfence

variable [DecidableEq Work]

/-- what a section does: the fence is left or changed, the counter goes with the admitted work, and calls keep a
transaction -/
structure Moves (s t : Fenced Generation Wait Work) : Prop where
  change : t.view = s.view ∨ Change s.view t.view
  counted : s.active = s.running.length → t.active = t.running.length
  named : s.Named → t.Named

theorem Moves.refl (s : Fenced Generation Wait Work) : s.Moves s := ⟨.inl rfl, fun h => h, fun h => h⟩

theorem Inv.moves (h : s.Inv) (hmoves : s.Moves t) : t.Inv := by
  refine ⟨hmoves.counted h.counted, hmoves.named h.named, ?_⟩
  rcases hmoves.change with heq | hchange
  · rw [heq]
    exact h.held
  · exact hchange.held h.held

theorem Moves.refused (s : Fenced Generation Wait Work) (id : CallID) (c : Call Generation Wait) (err : UpdateError) :
    s.Moves (s.reply id c (some err)) :=
  ⟨.inl rfl, fun h => h, fun h => h.reply id c _⟩

/-- the call returns nil: the fence is its own, and nothing runs -/
theorem Moves.promised (hcounted : s.active = s.running.length) (ht : c.transactionID ≠ "")
    (hfence : s.updateTransaction = c.transactionID) (hzero : s.active = 0) (id : CallID) :
      s.Moves (s.reply id c none) :=
  ⟨.inr (.promise c.transactionID ((fence_of_ne (hfence ▸ ht)).trans (congrArg some hfence))
    (List.length_eq_zero_iff.1 (show s.running.length = 0 by omega))), fun h => h, fun h => h.reply id c _⟩

/-- a call goes on to its next phase -/
theorem Moves.setCall {id : CallID} {c' : Call Generation Wait} (hc : s.calls.lookup id = some c)
    (hphase : ∀ err, c.phase ≠ .returned err) (ht : c'.transactionID = c.transactionID) : s.Moves (s.setCall id c') :=
  ⟨.inl rfl, fun h => h, fun h => h.setCall id fun _ => ht ▸ h id c hc hphase⟩

variable {valid : String → Bool} {busy : UpdateError} {ctx : Context}

theorem answer_moves (hcounted : s.active = s.running.length) {err : Option UpdateError}
    (h : s.answer valid busy ctx c.transactionID = some err) (id : CallID) : s.Moves (s.reply id c err) := by
  unfold answer at h
  split_ifs at h with hinvalid hover hfence hsame
  all_goals cases h
  · exact .refused s id c _
  · exact .refused s id c _
  · exact .promised hcounted (hsame.1 ▸ hfence) hsame.1 hsame.2 id
  · exact .refused s id c _

theorem raise_moves (hvalid : valid "" = false) (h : s.answer valid busy ctx c.transactionID = none) (id : CallID) :
    s.Moves (s.raise id c) := by
  unfold answer at h
  split_ifs at h with hinvalid hover hfence
  have ht : c.transactionID ≠ "" := fun heq => hinvalid (by rw [heq, hvalid]; simp)
  exact ⟨.inr (.raised (not_not.1 hfence) ht), fun h => h, fun h => h.setCall id fun _ => ht⟩

section Owner

variable {owns : Bool} (ht : c.transactionID ≠ "") (howns : owns = true → s.updateTransaction = c.transactionID)
include ht howns

/-- giving up changes the fence if it is the call's own -/
theorem giveUp_moves (hfree : owns = true → c.transactionID ∉ s.promised) (id : CallID) :
    s.Moves (s.giveUp id c owns) := by
  refine ⟨?_, fun h => h, fun h => h.reply id c _⟩
  cases owns with
  | true =>
    have hfence := howns rfl
    exact .inr (.lower c.transactionID ((fence_of_ne (hfence ▸ ht)).trans (congrArg some hfence)) (hfree rfl))
  | false => exact .inl rfl

theorem settle_moves (hcounted : s.active = s.running.length)
    (hfree : ctx = .over → owns = true → c.transactionID ∉ s.promised) (id : CallID) :
    s.Moves (s.settle id c owns busy ctx) := by
  unfold settle
  split_ifs with hover hnot
  · exact giveUp_moves ht howns (hfree hover) id
  · exact .refused s id c _
  · simp only [Bool.or_eq_true, Bool.not_eq_true', bne_iff_ne, not_or, Bool.not_eq_false, not_not] at hnot
    exact .promised hcounted ht (howns hnot.1) hnot.2 id

end Owner

theorem endUpdate_moves (hvalid : valid "" = false) (s : Fenced Generation Wait Work) (t : String) :
    s.Moves (s.endUpdate valid t) := by
  by_cases hend : (valid t && s.updateTransaction == t) = true
  · have heq :
        s.endUpdate valid t = { s with updateTransaction := "", promised := s.promised.filter (· ≠ t) } := if_pos hend
    simp only [Bool.and_eq_true, beq_iff_eq] at hend
    have ht : t ≠ "" := fun h => Bool.eq_false_iff.1 hvalid (h ▸ hend.1)
    rw [heq]
    exact ⟨.inr (.close t none (.inr ((fence_of_ne (hend.2 ▸ ht)).trans (congrArg some hend.2)))),
      fun h => h, fun h => h⟩
  · have heq : s.endUpdate valid t = { s with promised := s.promised.filter (· ≠ t) } := if_neg hend
    rw [heq]
    exact ⟨.inr (.close t s.view.fence (.inl rfl)), fun h => h, fun h => h⟩

/-- admitted work that ends -/
theorem Moves.release {w : Work} (hmem : w ∈ s.running) (hactive : t.active = s.active - 1)
    (hview : t.view = { s.view with running := s.running.erase w }) (hcalls : t.calls = s.calls) : s.Moves t := by
  refine ⟨.inr (hview ▸ .release w), fun hcounted => ?_, fun h => by rw [Named, hcalls]; exact h⟩
  have hrunning : t.running = s.running.erase w := congrArg View.running hview
  have hpos := List.length_pos_of_mem hmem
  rw [hrunning, List.length_erase_of_mem hmem, hactive, hcounted]
  omega

end Fenced

/-! ## File transfers -/

open Fenced

namespace Transfers

/-- `active` is operations; `operationDone` counts the channels made, and `closed` lists those closed; a call waits
for one -/
structure Service extends Fenced UInt64 ℕ WorkID where
  updateGeneration : UInt64 := 0
  operationDone : ℕ := 0
  closed : List ℕ := []

inductive ServiceOp
  | begin (id : CallID) (ctx : Context) (t : String)
  /-- the channel is closed -/
  | wake (id : CallID)
  /-- the context ends while the call waits -/
  | abandon (id : CallID)
  /-- the last section of BeginUpdate -/
  | settle (id : CallID) (ctx : Context)
  | endUpdate (t : String)
  | admits (w : WorkID) (ctx : Context)
  /-- CancelActive; `writing`: there is a transfer being written -/
  | cancelActive (w : WorkID) (ctx : Context) (writing : Bool)
  | release (w : WorkID)
deriving DecidableEq, Repr

def validTransaction (t : String) : Bool := t != "" && decide (t.utf8ByteSize ≤ 128)

namespace Service

variable (s : Service)

/-- the fence is still the one the call raised -/
def owns (c : Call UInt64 ℕ) : Bool :=
  s.updateGeneration == c.generation && s.updateTransaction == c.transactionID

/-- the call of a new fence; without admitted work there is nothing to wait for -/
def newCall (t : String) : Call UInt64 ℕ :=
  ⟨t, s.updateGeneration + 1, if s.active ≠ 0 then .waiting s.operationDone else .drained⟩

def begin (id : CallID) (ctx : Context) (t : String) : Service :=
  match s.answer validTransaction .resourceLimit ctx t with
  | some err => { s with toFenced := s.reply id (s.newCall t) err }
  | none => { s with toFenced := s.raise id (s.newCall t), updateGeneration := s.updateGeneration + 1 }

def giveUp (id : CallID) (c : Call UInt64 ℕ) : Service := { s with toFenced := s.toFenced.giveUp id c (s.owns c) }

def settle (id : CallID) (c : Call UInt64 ℕ) (ctx : Context) : Service :=
  { s with toFenced := s.toFenced.settle id c (s.owns c) .resourceLimit ctx }

def endUpdate (t : String) : Service := { s with toFenced := s.toFenced.endUpdate validTransaction t }

/-- admitMutation -/
def admits (w : WorkID) (ctx : Context) : Except UpdateError Service :=
  if ctx = .over then .error .context
  else if s.updateTransaction ≠ "" then .error .updateInProgress
  else
    .ok { s with
      operationDone := if s.active = 0 then s.operationDone + 1 else s.operationDone
      active := s.active + 1
      running := w :: s.running }

def cancelActive (w : WorkID) (ctx : Context) (writing : Bool) : Except UpdateError Service :=
  if ctx = .over then .error .context
  else if !writing then .ok s
  else if s.active = 0 then .error .resourceLimit
  else .ok { s with active := s.active + 1, running := w :: s.running }

/-- releaseMutation, called once for each admitted work -/
def release (w : WorkID) : Service :=
  { s with
    active := s.active - 1
    running := s.running.erase w
    closed := if s.active - 1 = 0 then s.operationDone :: s.closed else s.closed }

/-- a step; one that does not fit the phase of its call does nothing -/
def step (s : Service) : ServiceOp → Service
  | .begin id ctx t => if (s.calls.lookup id).isSome then s else s.begin id ctx t
  | .wake id =>
    match s.calls.lookup id with
    | some ⟨t, g, .waiting done⟩ => if done ∈ s.closed then { s with toFenced := s.setCall id ⟨t, g, .drained⟩ } else s
    | _ => s
  | .abandon id =>
    match s.calls.lookup id with
    | some ⟨t, g, .waiting done⟩ => s.giveUp id ⟨t, g, .waiting done⟩
    | _ => s
  | .settle id ctx =>
    match s.calls.lookup id with
    | some ⟨t, g, .drained⟩ => s.settle id ⟨t, g, .drained⟩ ctx
    | _ => s
  | .endUpdate t => s.endUpdate t
  | .admits w ctx => (s.admits w ctx).toOption.getD s
  | .cancelActive w ctx writing => (s.cancelActive w ctx writing).toOption.getD s
  | .release w => if w ∈ s.running then s.release w else s

/-- from the return of BeginUpdate until EndUpdate is called no work runs and none is admitted -/
def Kept (s : Service) : Prop := ∀ t ∈ s.promised, s.running = [] ∧ ∀ w, s.admits w .live = .error .updateInProgress

/-- a call that gives up owns a fence that is promised -/
def takesDown (s : Service) : ServiceOp → Bool
  | .abandon id =>
    match s.calls.lookup id with
    | some ⟨t, g, .waiting done⟩ => s.owns ⟨t, g, .waiting done⟩ && s.promised.contains t
    | _ => false
  | .settle id ctx =>
    match s.calls.lookup id with
    | some ⟨t, g, .drained⟩ => ctx == .over && s.owns ⟨t, g, .drained⟩ && s.promised.contains t
    | _ => false
  | _ => false

variable {s t : Service}

theorem transaction_of_owns {c : Call UInt64 ℕ} (h : s.owns c = true) : s.updateTransaction = c.transactionID := by
  simp only [owns, Bool.and_eq_true, beq_iff_eq] at h
  exact h.2

section

variable (hcounted : s.active = s.running.length)
include hcounted

theorem begin_moves (id : CallID) (ctx : Context) (t : String) : s.toFenced.Moves (s.begin id ctx t).toFenced := by
  unfold begin
  split
  next err h => exact answer_moves (c := s.newCall t) hcounted h id
  next h => exact raise_moves (c := s.newCall t) (by decide) h id

variable {w : WorkID} {ctx : Context}

theorem cancelActive_moves {writing : Bool} (h : s.cancelActive w ctx writing = .ok t) :
    s.toFenced.Moves t.toFenced := by
  unfold cancelActive at h
  split_ifs at h with hover hwriting hzero
  · cases h
    exact .refl s.toFenced
  · cases h
    refine ⟨.inr (.join w fun hidle => hzero ?_), fun _ => ?_, fun h => h⟩
    · rw [hcounted, show s.running = [] from hidle]
      rfl
    · rw [hcounted]
      rfl

end

theorem admit_moves {w : WorkID} {ctx : Context} (h : s.admits w ctx = .ok t) : s.toFenced.Moves t.toFenced := by
  unfold admits at h
  split_ifs at h with hover hfence
  all_goals
    cases h
    refine ⟨.inr (.admits w (if_pos (not_not.1 hfence))), fun hcounted => ?_, fun h => h⟩
    rw [hcounted]
    rfl

theorem step_moves (h : s.Inv) (op : ServiceOp) (hclear : s.takesDown op = false) :
    s.toFenced.Moves (s.step op).toFenced := by
  cases op with
  | begin id ctx t =>
    simp only [step]
    split_ifs
    · exact .refl s.toFenced
    · exact begin_moves h.counted id ctx t
  | wake id =>
    simp only [step]
    split
    next t g done hc =>
      split_ifs
      · exact .setCall hc (by simp) rfl
      · exact .refl s.toFenced
    · exact .refl s.toFenced
  | abandon id =>
    simp only [step, takesDown] at hclear ⊢
    split at hclear
    next t g done hc =>
      rw [Bool.and_eq_false_imp] at hclear
      exact giveUp_moves (h.named id _ hc (by simp)) transaction_of_owns (fun howns => by simpa using hclear howns) id
    · exact .refl s.toFenced
  | settle id ctx =>
    simp only [step, takesDown] at hclear ⊢
    split at hclear
    next t g hc =>
      rw [Bool.and_eq_false_imp, Bool.and_eq_true] at hclear
      exact settle_moves (h.named id _ hc (by simp)) transaction_of_owns h.counted
        (fun hover howns => by simpa using hclear ⟨by simp [hover], howns⟩) id
    · exact .refl s.toFenced
  | endUpdate t => exact endUpdate_moves (by decide) s.toFenced t
  | admits w ctx =>
    simp only [step]
    cases ht : s.admits w ctx with
    | error e => exact .refl s.toFenced
    | ok t => exact admit_moves ht
  | cancelActive w ctx writing =>
    simp only [step]
    cases ht : s.cancelActive w ctx writing with
    | error e => exact .refl s.toFenced
    | ok t => exact cancelActive_moves h.counted ht
  | release w =>
    simp only [step]
    split_ifs with hmem
    · exact .release hmem rfl rfl rfl
    · exact .refl s.toFenced

theorem init_inv : ({} : Service).Inv := ⟨rfl, nofun, nofun⟩

theorem kept_of_inv (h : s.Inv) : s.Kept := by
  intro t ht
  obtain ⟨hfence, hidle⟩ := h.kept ht
  exact ⟨hidle, fun w => by simp [admits, hfence]⟩

/-- once a promised fence is taken down, work is admitted -/
theorem clear_of_kept (op : ServiceOp) (hkept : (s.step op).Kept) : s.takesDown op = false := by
  have hdown : ∀ id c, (s.giveUp id c).Kept → (s.owns c && s.promised.contains c.transactionID) = false := by
    intro id c hkept
    by_contra htrue
    simp only [Bool.not_eq_false, Bool.and_eq_true, List.contains_iff_mem] at htrue
    have hadmits := (hkept c.transactionID htrue.2).2 0
    simp [admits, giveUp, Fenced.giveUp, Fenced.reply, Fenced.setCall, htrue.1] at hadmits
  cases op with
  | abandon id =>
    simp only [step, takesDown] at hkept ⊢
    split at hkept
    next t g done hc => exact hdown id ⟨t, g, .waiting done⟩ hkept
    · rfl
  | settle id ctx =>
    simp only [step, takesDown] at hkept ⊢
    split at hkept
    next t g hc =>
      cases hover : ctx == .over with
      | false => rfl
      | true =>
        rw [settle, Fenced.settle, if_pos (beq_iff_eq.1 hover)] at hkept
        exact hdown id ⟨t, g, .drained⟩ hkept
    · rfl
  | _ => rfl

end Service

end Transfers

end Paperboat.Update
