/-
Transport observations of the local daemon: PublishObservation and Expire keep the
observation of each source, and applyLocked makes the transport fields of every machine
from those that have not expired.

A call is first decided (`publishPlan`, `expirePlan`) and then performed under the lock.
`computedAt` is when the snapshot was last made from the observations.

Results:
- `project_valid_iff`: the transport fields of a machine are valid unless one path is in
  use and the newest observation names a standby path (`Conflicted`);
- `project_exact`: they are the sums over the observations they are made from;
- `exact_later_iff`: sums stay exact exactly if what has expired since was idle;
- `observations_iff`: **observations**; every call is answered as it should and leaves
  exact sums exactly if every call is `Clear`.

Witnesses:
- `standby_refused`: a valid observation with a standby path is refused;
- `republished_stale`: an observation is published again, and the machine keeps the
  consumers of one that has expired.

Premises:
- equal observations are sorted in any order (`Order`);
- the clock does not go back: a call says how much time has passed.
-/
import Mathlib.Data.String.Basic
import Paperboat.Core.Machine
import Paperboat.Core.Table
import Paperboat.LocalDaemon.Status

namespace Paperboat.LocalDaemon

open Table Index

/-! ## Model -/

def second : ℤ := 1000000000

structure TransportObservation where
  schema : String := "paperboat.transport-observation/v1"
  sourceID : String
  sequence : ℕ
  observedAt : ℤ
  expiresAt : ℤ
  machineID : String
  transport : Transport
deriving DecidableEq, Repr

def TransportObservation.valid (o : TransportObservation) : Bool :=
  o.schema == "paperboat.transport-observation/v1" && safeValue o.sourceID && o.sequence != 0 && o.observedAt != 0 &&
    o.expiresAt != 0 && decide (o.observedAt < o.expiresAt) && decide (o.expiresAt - o.observedAt ≤ 30 * second) &&
    safeValue o.machineID && decide (o.transport.activeConsumers ≤ 1024) && o.transport.valid

/-- the order of applyLocked: by time, machine and source -/
def sortKey (o : TransportObservation) : ℤ ×ₗ String ×ₗ String := toLex (o.observedAt, toLex (o.machineID, o.sourceID))

/-- sort.Slice -/
structure Order where
  sort : List TransportObservation → List TransportObservation
  perm : ∀ l, (sort l).Perm l
  sorted : ∀ l, (sort l).Pairwise fun a b => sortKey a ≤ sortKey b

def observationConsumers (o : TransportObservation) : List TransportConsumer :=
  if o.transport.transportConsumers ≠ [] then o.transport.transportConsumers
  else if o.transport.activeConsumers == 0 || o.transport.selectedPath == "none" ||
    o.transport.selectedPath == "mixed" then []
  else [⟨o.transport.selectedPath, o.transport.activeConsumers, o.transport.relayRegion⟩]

variable (obs : List TransportObservation)

/-- the consumers of the path, in the order of the observations -/
def onPath (path : String) : List TransportConsumer :=
  (obs.flatMap observationConsumers).filter (·.path == path)

def sumOn (path : String) : ℕ := ((onPath obs path).map (·.activeConsumers)).sum

/-- the last region that is named -/
def lastRegion (consumers : List TransportConsumer) : String :=
  consumers.foldl (fun region c => if c.relayRegion != "" then c.relayRegion else region) ""

/-- the aggregate of each path that has one, by path -/
def aggregate : List TransportConsumer :=
  transportPaths.filterMap fun path =>
    if onPath obs path = [] then none else some ⟨path, sumOn obs path, lastRegion (onPath obs path)⟩

def totalConsumers : ℕ := (obs.map (·.transport.activeConsumers)).sum

/-- the transport fields of a machine, from its active observations in their order -/
def project : Transport :=
  match obs.getLast? with
  | none => {}
  | some latest =>
    let machine : Transport := { latest.transport with
      activeConsumers := totalConsumers obs
      transportConsumers := aggregate obs
      standbyPath := if latest.transport.standbyPath = "" then "none" else latest.transport.standbyPath
      selectedPath := if totalConsumers obs = 0 then latest.transport.selectedPath else "none" }
    match aggregate obs with
    | [] => machine
    | [c] => { machine with selectedPath := c.path, relayRegion := c.relayRegion }
    | _ => { machine with selectedPath := "mixed", standbyPath := "none", relayRegion := "" }

abbrev Sources := AList fun _ : String => TransportObservation

def stored (sources : Sources) : List TransportObservation := sources.entries.map (·.2)

/-- the observations of the machine that have not expired -/
def live (sources : Sources) (now : ℤ) (machine : String) : List TransportObservation :=
  (stored sources).filter fun o => o.machineID == machine && decide (now < o.expiresAt)

/-- the active observations of a machine, in their order -/
def activeFor (order : Order) (sources : Sources) (now : ℤ) (machine : String) : List TransportObservation :=
  (order.sort ((stored sources).filter fun o => o.transport.selectedPath != "none" &&
    decide (now < o.expiresAt))).filter
    (·.machineID == machine)

/-- what applyLocked makes of the machines -/
def computed {R : Type} (order : Order) (sources : Sources) (now : ℤ) (machines : List (MachineStatus R)) :
    List (MachineStatus R) :=
  machines.map fun m => { m with transport := project (activeFor order sources now m.id) }

structure Peer where
  uid : ℤ := -1
  sid : String := ""
  pid : ℤ
deriving DecidableEq, Repr

structure Owner where
  uid : ℤ
  sid : String
deriving DecidableEq, Repr

def authorizes (owner : Owner) (peer : Peer) : Bool :=
  if owner.sid ≠ "" then peer.sid == owner.sid else peer.uid == owner.uid

def observationKey (peer : Peer) (sourceID : String) : String :=
  if peer.sid ≠ "" then "sid:" ++ peer.sid ++ ":" ++ toString peer.pid ++ ":" ++ sourceID
  else "uid:" ++ toString peer.uid ++ ":" ++ toString peer.pid ++ ":" ++ sourceID

def maxObservationSources : ℕ := 128

structure ObservationStore (E R : Type) where
  snapshot : Snapshot E R
  sources : Sources := ∅
  clock : ℤ
  /-- when and in which order the snapshot was last made from the observations -/
  computedAt : Option (ℤ × Order) := none

/-- what a call comes to -/
inductive Plan
  | refuse (e : Refusal)
  | keep
  | apply (sources : Sources)

inductive Call
  | publish (order : Order) (peer : Peer) (o : TransportObservation) (elapsed : ℕ)
  | expire (order : Order) (elapsed : ℕ)

namespace ObservationStore

variable {E R : Type} [DecidableEq E] [DecidableEq R] (rules : Rules E R) (owner : Owner) (s : ObservationStore E R)

/-- what becomes of an observation that is accepted for its key -/
def storePlan (key : String) (o : TransportObservation) : Plan :=
  match s.sources.lookup key with
  | some previous =>
    if o.sequence < previous.sequence ∨ o.sequence = previous.sequence ∧ o ≠ previous then .refuse .staleObservation
    else if o = previous then .keep
    else .apply (s.sources.insert key o)
  | none =>
    if maxObservationSources ≤ s.sources.entries.length then .refuse .observationLimit
    else .apply (s.sources.insert key o)

def publishPlan (peer : Peer) (o : TransportObservation) (now : ℤ) : Plan :=
  if !(authorizes owner peer && decide (0 < peer.pid)) then .refuse .permission
  else if !o.valid then .refuse .invalidResponse
  else if o.observedAt < now - 30 * second ∨ now + 5 * second < o.observedAt ∨ o.expiresAt ≤ now ∨
      now + 30 * second < o.expiresAt then .refuse .staleObservation
  else s.storePlan (observationKey peer o.sourceID) o

def expirePlan (now : ℤ) : Plan :=
  if (stored s.sources).all fun o => decide (now < o.expiresAt) then .keep
  else .apply (select (fun o => decide (now < o.expiresAt)) s.sources)

def now : Call → ℤ
  | .publish _ _ _ elapsed => s.clock + elapsed
  | .expire _ elapsed => s.clock + elapsed

def plan : Call → Plan
  | .publish order peer o elapsed => s.publishPlan owner peer o (s.now (.publish order peer o elapsed))
  | .expire order elapsed => s.expirePlan (s.now (.expire order elapsed))

def order : Call → Order
  | .publish order _ _ _ => order
  | .expire order _ => order

/-- the update that the call tries with these sources -/
def applied (call : Call) (sources : Sources) : Except Refusal (Snapshot E R) :=
  update rules (s.now call) s.snapshot s.snapshot.envelope
    (computed (order call) sources (s.now call) s.snapshot.machines)

/-- the state and the answer; a failed publication puts the sources back, a failed Expire does not -/
def execute (call : Call) : ObservationStore E R × Option Refusal :=
  match s.plan owner call with
  | .refuse e => ({ s with clock := s.now call }, some e)
  | .keep => ({ s with clock := s.now call }, none)
  | .apply sources =>
    match s.applied rules call sources with
    | .ok snapshot => ({ snapshot, sources, clock := s.now call, computedAt := some (s.now call, order call) }, none)
    | .error e =>
      let left := match call with
        | .publish _ _ _ _ => s.sources
        | .expire _ _ => sources
      ({ s with sources := left, clock := s.now call }, some e)

def step (call : Call) : ObservationStore E R := (s.execute rules owner call).1

end ObservationStore

/-! ## What is asked -/

/-- the paths in use, with the number of their consumers -/
def pathSums (obs : List TransportObservation) : List (String × ℕ) :=
  transportPaths.filterMap fun path => if sumOn obs path = 0 then none else some (path, sumOn obs path)

/-- the path that is selected with nothing in use: none, or that of an observation -/
def Selected (t : Transport) (obs : List TransportObservation) : Prop :=
  (t.selectedPath = "none" ∧ ∀ o ∈ obs, o.transport.selectedPath = "none") ∨
    ∃ o ∈ obs, o.transport.selectedPath ≠ "none" ∧ t.selectedPath = o.transport.selectedPath

/-- the fields are the sums over the observations -/
structure ExactFor (t : Transport) (obs : List TransportObservation) : Prop where
  total : t.activeConsumers = totalConsumers obs
  paths : t.transportConsumers.map (fun c => (c.path, c.activeConsumers)) = pathSums obs
  idle : pathSums obs = [] → Selected t obs
  single : ∀ q, pathSums obs = [q] → t.selectedPath = q.1
  mixed : 1 < (pathSums obs).length → t.selectedPath = "mixed"

/-- one path is in use, and the newest observation names a standby path -/
def Conflicted (obs : List TransportObservation) : Prop :=
  (pathSums obs).length = 1 ∧ ∃ o, obs.getLast? = some o ∧ standbyNamed o.transport.standbyPath = true

namespace ObservationStore

variable {E R : Type} [DecidableEq E] [DecidableEq R] (rules : Rules E R) (owner : Owner) (s : ObservationStore E R)

/-- every listed machine has the sums over its observations that have not expired -/
def Exact (now : ℤ) : Prop := ∀ m ∈ s.snapshot.machines, ExactFor m.transport (live s.sources now m.id)

/-- a valid observation is refused only as stale, over the limit or because the peer is not the owner; Expire does not
fail -/
def Answered (call : Call) (answer : Option Refusal) : Prop :=
  match call with
  | .publish _ peer o _ => o.valid = true →
      answer ∈ [none, some .staleObservation, some .observationLimit] ∨
        answer = some .permission ∧ authorizes owner peer = false
  | .expire _ _ => answer = none

/-- the call computes a valid snapshot if it computes one, is answered as it should, and leaves exact sums if it
succeeds -/
structure Good (call : Call) : Prop where
  valid : ∀ sources, s.plan owner call = .apply sources →
    validMachines rules (computed (order call) sources (s.now call) s.snapshot.machines) = true
  answered : Answered owner call (s.execute rules owner call).2
  exact : (s.execute rules owner call).2 = none → (s.execute rules owner call).1.Exact (s.now call)

/-- the snapshot, as it was made last, is still right: what has expired since then was idle, and for a machine without
consumers an observation with the path of the newest one is left; before the first time, no machine has anything -/
def UpToDate (now : ℤ) : Prop :=
  match s.computedAt with
  | none => ∀ m ∈ s.snapshot.machines, m.transport.activeConsumers = 0 ∧ m.transport.transportConsumers = [] ∧
      m.transport.selectedPath = "none"
  | some (t, order) => ∀ m ∈ s.snapshot.machines,
      (∀ o ∈ live s.sources t m.id, o.expiresAt ≤ now → o.transport.activeConsumers = 0) ∧
      (pathSums (live s.sources now m.id) = [] → ∀ newest, (activeFor order s.sources t m.id).getLast? = some newest →
        ∃ o ∈ live s.sources now m.id, o.transport.selectedPath = newest.transport.selectedPath)

/-- the process of the owner that publishes a valid observation is known -/
def Known (call : Call) : Prop :=
  match call with
  | .publish _ peer o _ => o.valid = true → authorizes owner peer = true → 0 < peer.pid
  | .expire _ _ => True

/-- a call that changes nothing finds the snapshot up to date; one that does finds no conflict, a clock that is set, and
a generation if it needs one; one that is refused is not for a process without a number -/
def Clear (call : Call) : Prop :=
  match s.plan owner call with
  | .refuse _ => Known owner call
  | .keep => s.UpToDate (s.now call)
  | .apply sources => s.now call ≠ 0 ∧
      (computed (order call) sources (s.now call) s.snapshot.machines = s.snapshot.machines ∨
        s.snapshot.generation ≠ maxGeneration) ∧
      ∀ m ∈ s.snapshot.machines, ¬Conflicted (activeFor (order call) sources (s.now call) m.id)

end ObservationStore

/-! ## Valid observations -/

variable {o : TransportObservation}

section

variable (h : o.valid = true)
include h

theorem valid_parts : o.transport.activeConsumers ≤ 1024 ∧
    transportSummary o.transport.selectedPath o.transport.activeConsumers o.transport.transportConsumers
      o.transport.standbyPath o.transport.relayRegion = true ∧ o.transport.diagnostics.valid = true := by
  simp only [TransportObservation.valid, Transport.valid, Bool.and_eq_true, decide_eq_true_eq] at h
  exact ⟨h.1.2, h.2.1, h.2.2⟩

/-- the consumers of a valid observation are valid and add up to its count -/
theorem observationConsumers_ok :
    (∀ c ∈ observationConsumers o, consumerOk c = true) ∧
      ((observationConsumers o).map (·.activeConsumers)).sum = o.transport.activeConsumers := by
  obtain ⟨-, hsummary, -⟩ := valid_parts h
  unfold observationConsumers
  by_cases hne : o.transport.transportConsumers ≠ []
  · rw [if_pos hne]
    obtain ⟨hall, hsum, -⟩ := summary_consumers hsummary hne
    exact ⟨List.all_eq_true.1 hall, hsum⟩
  · rw [if_neg hne]
    rw [not_not.1 hne] at hsummary
    obtain ⟨hmixed, hnone, hpath, hregion, -⟩ := summary_selected hsummary
    by_cases hzero : o.transport.activeConsumers = 0
    · simp [hzero]
    · have hselected := hnone (Nat.pos_of_ne_zero hzero)
      have hmem : o.transport.selectedPath ∈ transportPaths := by simpa [hmixed, hselected] using hpath
      simp [hzero, hselected, hmixed, consumerOk, hmem, hregion]

theorem consumers_nil (hzero : o.transport.activeConsumers = 0) : observationConsumers o = [] := by
  obtain ⟨hok, hsum⟩ := observationConsumers_ok h
  rw [hzero] at hsum
  by_contra hne
  obtain ⟨c, hc⟩ := List.exists_mem_of_ne_nil _ hne
  have hpos := hok c hc
  simp only [consumerOk, Bool.and_eq_true, bne_iff_ne] at hpos
  exact hpos.1.2 (Nat.le_zero.1 (hsum ▸ List.le_sum_of_mem (List.mem_map_of_mem hc)))

/-- an observation without a path has no consumers -/
theorem zero_of_none (hnone : o.transport.selectedPath = "none") : o.transport.activeConsumers = 0 := by
  obtain ⟨-, hsummary, -⟩ := valid_parts h
  by_cases hne : o.transport.transportConsumers = []
  · rw [hne] at hsummary
    by_contra hpos
    exact (summary_selected hsummary).2.1 (Nat.pos_of_ne_zero hpos) hnone
  · exact absurd hnone (summary_selected_ne hsummary hne)

end

variable {obs : List TransportObservation}

/-- the observations that are left out are idle -/
theorem sums_filter {q : TransportObservation → Bool} (hvalid : ∀ o ∈ obs, o.valid = true)
    (h : ∀ o ∈ obs, q o = false → o.transport.activeConsumers = 0) :
    totalConsumers (obs.filter q) = totalConsumers obs ∧ ∀ path, onPath (obs.filter q) path = onPath obs path := by
  have hboth : totalConsumers (obs.filter q) = totalConsumers obs ∧
      (obs.filter q).flatMap observationConsumers = obs.flatMap observationConsumers := by
    induction obs with
    | nil => exact ⟨rfl, rfl⟩
    | cons o obs ih =>
      obtain ⟨htotal, hflat⟩ := ih (fun a ha => hvalid a (List.mem_cons_of_mem _ ha)) fun a ha =>
        h a (List.mem_cons_of_mem _ ha)
      unfold totalConsumers at htotal ⊢
      by_cases hq : q o = true
      · rw [List.filter_cons_of_pos hq]
        simp [htotal, hflat]
      · have hzero := h o List.mem_cons_self (by simpa using hq)
        rw [List.filter_cons_of_neg hq]
        simp [htotal, hflat, hzero, consumers_nil (hvalid o List.mem_cons_self) hzero]
  exact ⟨hboth.1, fun path => by rw [onPath, hboth.2, onPath]⟩

variable {obs' : List TransportObservation}

theorem pathSums_congr (h : ∀ path, sumOn obs' path = sumOn obs path) : pathSums obs' = pathSums obs := by
  unfold pathSums
  simp only [h]

theorem sums_perm (h : obs'.Perm obs) :
    totalConsumers obs' = totalConsumers obs ∧ ∀ path, sumOn obs' path = sumOn obs path :=
  ⟨(h.map _).sum_eq, fun _ => (((h.flatMap_right _).filter _).map _).sum_eq⟩

/-! ## The aggregate -/

variable {consumers : List TransportConsumer}

theorem lastRegion_ok {path : String}
    (h : ∀ c ∈ consumers, regionOk path c.relayRegion = true) : regionOk path (lastRegion consumers) = true := by
  have hfold : ∀ region, regionOk path region = true →
      regionOk path (consumers.foldl
        (fun region c => if c.relayRegion != "" then c.relayRegion else region) region) = true := by
    induction consumers with
    | nil => exact fun _ hregion => hregion
    | cons c consumers ih =>
      intro region hregion
      apply ih fun d hd => h d (List.mem_cons_of_mem _ hd)
      dsimp only
      split_ifs
      · exact h c List.mem_cons_self
      · exact hregion
  exact hfold "" rfl

theorem aggregate_nodup (obs : List TransportObservation) : ((aggregate obs).map (·.path)).Nodup := by
  have hsub : ((aggregate obs).map (·.path)).Sublist transportPaths := by
    unfold aggregate
    induction transportPaths with
    | nil => exact .slnil
    | cons path paths ih =>
      by_cases hnil : onPath obs path = []
      · rw [List.filterMap_cons_none (by simp [hnil])]
        exact ih.cons path
      · rw [List.filterMap_cons_some (by simp [hnil]; rfl)]
        exact ih.cons_cons path
  exact (show transportPaths.Nodup by decide).sublist hsub

/-- the paths together have all consumers -/
theorem sum_paths (h : ∀ c ∈ consumers, c.path ∈ transportPaths) :
    (transportPaths.map fun path => ((consumers.filter (·.path == path)).map (·.activeConsumers)).sum).sum =
      (consumers.map (·.activeConsumers)).sum := by
  induction consumers with
  | nil => rfl
  | cons c consumers ih =>
    have hrest := ih fun d hd => h d (List.mem_cons_of_mem _ hd)
    have hpath := h c List.mem_cons_self
    simp only [transportPaths, List.mem_cons, List.not_mem_nil, or_false] at hpath
    simp only [transportPaths, List.map_cons, List.map_nil, List.sum_cons, List.sum_nil] at hrest ⊢
    obtain hp | hp | hp := hpath <;> simp [hp] <;> omega

theorem standbyNamed_ite (standby : String) :
    standbyNamed (if standby = "" then "none" else standby) = standbyNamed standby := by
  by_cases h : standby = ""
  · simp [h, standbyNamed]
  · simp [h]

theorem standby_none {standby : String} (h : standbyNamed standby = false) :
    (if standby = "" then "none" else standby) = "none" := by
  simp only [standbyNamed, Bool.and_eq_false_iff, bne_eq_false_iff_eq] at h
  obtain h | h := h <;> simp [h]

section

variable (h : ∀ o ∈ obs, o.valid = true)
include h

theorem onPath_ok {path : String} {c : TransportConsumer} (hc : c ∈ onPath obs path) :
    consumerOk c = true ∧ c.path = path := by
  obtain ⟨hc, hpath⟩ := List.mem_filter.1 hc
  obtain ⟨o, ho, hco⟩ := List.mem_flatMap.1 hc
  exact ⟨(observationConsumers_ok (h o ho)).1 c hco, by simpa using hpath⟩

/-- a path has consumers exactly if their sum is not zero -/
theorem onPath_nil_iff (path : String) : onPath obs path = [] ↔ sumOn obs path = 0 := by
  constructor
  · intro hnil
    simp [sumOn, hnil]
  · intro hzero
    by_contra hne
    obtain ⟨c, hc⟩ := List.exists_mem_of_ne_nil _ hne
    have hpos := (onPath_ok h hc).1
    simp only [consumerOk, Bool.and_eq_true, bne_iff_ne] at hpos
    exact hpos.1.2 (Nat.le_zero.1 (hzero ▸ List.le_sum_of_mem (List.mem_map_of_mem hc)))

theorem aggregate_paths : (aggregate obs).map (fun c => (c.path, c.activeConsumers)) = pathSums obs := by
  unfold aggregate pathSums
  rw [List.map_filterMap]
  apply List.filterMap_congr
  intro path _
  by_cases hnil : onPath obs path = []
  · rw [if_pos hnil, if_pos ((onPath_nil_iff h path).1 hnil)]
    rfl
  · rw [if_neg hnil, if_neg fun hzero => hnil ((onPath_nil_iff h path).2 hzero)]
    rfl

theorem aggregate_ok : ∀ c ∈ aggregate obs, consumerOk c = true := by
  intro c hc
  obtain ⟨path, hpath, hsome⟩ := List.mem_filterMap.1 hc
  split_ifs at hsome with hnil
  cases hsome
  have hsum : sumOn obs path ≠ 0 := fun hzero => hnil ((onPath_nil_iff h path).2 hzero)
  have hregion : regionOk path (lastRegion (onPath obs path)) = true := by
    apply lastRegion_ok
    intro c hc
    obtain ⟨hok, hcpath⟩ := onPath_ok h hc
    simp only [consumerOk, Bool.and_eq_true] at hok
    exact hcpath ▸ hok.2
  simp [consumerOk, hpath, hsum, hregion]

theorem sum_aggregate : ((aggregate obs).map (·.activeConsumers)).sum = totalConsumers obs := by
  have hall : ∀ paths : List String, (((paths.filterMap fun path =>
      if onPath obs path = [] then none else some
        (⟨path, sumOn obs path, lastRegion (onPath obs path)⟩ : TransportConsumer)).map
        (·.activeConsumers)).sum) = (paths.map (sumOn obs)).sum := by
    intro paths
    induction paths with
    | nil => rfl
    | cons path paths ih =>
      by_cases hnil : onPath obs path = []
      · rw [List.filterMap_cons_none (by simp [hnil]), ih, List.map_cons, List.sum_cons,
          (onPath_nil_iff h path).1 hnil, zero_add]
      · simp [hnil, ih]
  have hconsumers : ∀ c ∈ obs.flatMap observationConsumers, c.path ∈ transportPaths := by
    intro c hc
    obtain ⟨o, ho, hco⟩ := List.mem_flatMap.1 hc
    have hok := (observationConsumers_ok (h o ho)).1 c hco
    simp only [consumerOk, Bool.and_eq_true, decide_eq_true_eq] at hok
    exact hok.1.1
  have hflat : ((obs.flatMap observationConsumers).map (·.activeConsumers)).sum = totalConsumers obs := by
    unfold totalConsumers
    clear hconsumers hall
    induction obs with
    | nil => rfl
    | cons o obs ih =>
      rw [List.flatMap_cons, List.map_append, List.sum_append, (observationConsumers_ok (h o List.mem_cons_self)).2,
        ih fun a ha => h a (List.mem_cons_of_mem _ ha), List.map_cons, List.sum_cons]
  calc ((aggregate obs).map (·.activeConsumers)).sum = (transportPaths.map (sumOn obs)).sum := hall transportPaths
    _ = ((obs.flatMap observationConsumers).map (·.activeConsumers)).sum := sum_paths hconsumers
    _ = totalConsumers obs := hflat

/-! ## The fields of a machine -/

/-- **Validity.** From valid observations, the fields are valid unless one path is in use and the newest names a
standby path. -/
theorem project_valid_iff (hbound : totalConsumers obs < 2 ^ 64) : (project obs).valid = true ↔ ¬Conflicted obs := by
  have hsum := sum_aggregate h
  have hok := aggregate_ok h
  have hnodup := aggregate_nodup obs
  have hlength : (aggregate obs).length ≤ 3 := List.length_filterMap_le _ _
  cases hlast : obs.getLast? with
  | none =>
    have hproject : project obs = {} := by simp [project, hlast]
    rw [hproject]
    exact iff_of_true (by decide) fun hc => by simp [Conflicted, hlast] at hc
  | some latest =>
    have hmem : latest ∈ obs := List.mem_of_getLast? hlast
    obtain ⟨-, hsummary, hdiagnostics⟩ := valid_parts (h latest hmem)
    have hconflict : Conflicted obs ↔ (aggregate obs).length = 1 ∧
        standbyNamed latest.transport.standbyPath = true := by
      simp [Conflicted, hlast, ← aggregate_paths h]
    rw [hconflict]
    cases hagg : aggregate obs with
    | nil =>
      -- nothing is in use: the newest is idle, and its own fields are valid
      rw [hagg] at hsum
      have htotal : totalConsumers obs = 0 := by simpa using hsum.symm
      have hzero : latest.transport.activeConsumers = 0 :=
        Nat.le_zero.1 (htotal ▸ List.le_sum_of_mem (List.mem_map_of_mem hmem))
      have hconsumers : latest.transport.transportConsumers = [] := by
        by_contra hne
        have hnil := consumers_nil (h latest hmem) hzero
        rw [observationConsumers, if_pos hne] at hnil
        exact hne hnil
      rw [hconsumers, hzero] at hsummary
      obtain ⟨hmixed, -, hselected, hregion, hstandby⟩ := summary_selected hsummary
      refine iff_of_true ?_ (by simp)
      simp only [project, hlast, hagg, htotal, Transport.valid, transportSummary, if_true,
        standby_none (hstandby rfl), hdiagnostics, hregion, decide_eq_true hselected]
      simpa [standbyNamed] using hmixed
    | cons c rest =>
      rw [hagg] at hsum hok hnodup hlength
      cases rest with
      | nil =>
        have hc := hok c List.mem_cons_self
        have hc' := hc
        simp only [consumerOk, Bool.and_eq_true, decide_eq_true_eq, bne_iff_ne] at hc'
        obtain ⟨⟨hpath, hactive⟩, hregion⟩ := hc'
        have htotal : c.activeConsumers = totalConsumers obs := by simpa using hsum
        have hselected : c.path ∈ "none" :: "mixed" :: transportPaths := by simp [hpath]
        cases hnamed : standbyNamed latest.transport.standbyPath with
        | false =>
          refine iff_of_true ?_ (by simp)
          simp [project, hlast, hagg, Transport.valid, transportSummary, standby_none hnamed, hdiagnostics, hregion,
            hselected, hc, htotal, standbyNamed, -List.mem_cons]
          exact hbound
        | true =>
          refine iff_of_false ?_ (by simp)
          simp [project, hlast, hagg, Transport.valid, transportSummary, standbyNamed_ite, hnamed, hdiagnostics]
      | cons c' rest =>
        refine iff_of_true ?_ (by simp)
        have hall : (c :: c' :: rest).all consumerOk = true := List.all_eq_true.2 hok
        simp only [project, hlast, hagg, Transport.valid, transportSummary, hdiagnostics, hall,
          hsum, decide_eq_true hbound, decide_eq_true hnodup, decide_eq_true hlength]
        simp [standbyNamed, regionOk]

/-- **Sums.** The fields are the sums over the active observations they are made from. -/
theorem project_exact (hactive : ∀ o ∈ obs, o.transport.selectedPath ≠ "none") : ExactFor (project obs) obs := by
  have hpaths := aggregate_paths h
  cases hlast : obs.getLast? with
  | none =>
    obtain rfl := List.getLast?_eq_none_iff.1 hlast
    exact ⟨rfl, rfl, fun _ => .inl ⟨rfl, by simp⟩, fun q hq => absurd hq (by simp [pathSums, sumOn, onPath]),
      fun hlt => absurd hlt (by simp [pathSums, sumOn, onPath])⟩
  | some latest =>
    have hmem : latest ∈ obs := List.mem_of_getLast? hlast
    cases hagg : aggregate obs with
    | nil =>
      have htotal : totalConsumers obs = 0 := by rw [← sum_aggregate h, hagg]; rfl
      rw [hagg] at hpaths
      simp only [project, hlast, hagg, htotal]
      exact ⟨htotal.symm, hpaths, fun _ => .inr ⟨latest, hmem, hactive latest hmem, rfl⟩,
        fun q hq => (nomatch hpaths.trans hq), fun hlt => absurd hlt (by simp [← hpaths])⟩
    | cons c rest =>
      rw [hagg] at hpaths
      cases rest with
      | nil =>
        simp only [project, hlast, hagg]
        exact ⟨rfl, hpaths, fun hnil => (nomatch hpaths.trans hnil),
          fun q hq => by rw [← hpaths] at hq; simp at hq; simp [← hq], fun hlt => absurd hlt (by simp [← hpaths])⟩
      | cons c' rest =>
        simp only [project, hlast, hagg]
        exact ⟨rfl, hpaths, fun hnil => (nomatch hpaths.trans hnil), fun q hq => (nomatch hpaths.trans hq),
          fun _ => rfl⟩

end

/-! ## Exact sums -/

variable {t : Transport}

theorem ExactFor.congr (h : ExactFor t obs) (htotal : totalConsumers obs' = totalConsumers obs)
    (hsums : pathSums obs' = pathSums obs) (hselected : pathSums obs = [] → Selected t obs → Selected t obs') :
    ExactFor t obs' where
  total := h.total.trans htotal.symm
  paths := h.paths.trans hsums.symm
  idle hnil := hselected (hsums ▸ hnil) (h.idle (hsums ▸ hnil))
  single q hq := h.single q (hsums ▸ hq)
  mixed hlt := h.mixed (hsums ▸ hlt)

/-- sums over a list are sums over a part of it exactly if what is left out was idle, and, with nothing in use, the
selected path is still there -/
theorem exact_later_iff {q : TransportObservation → Bool} (hvalid : ∀ o ∈ obs, o.valid = true) (h : ExactFor t obs) :
    ExactFor t (obs.filter q) ↔ (∀ o ∈ obs, q o = false → o.transport.activeConsumers = 0) ∧
      (pathSums (obs.filter q) = [] → Selected t (obs.filter q)) := by
  constructor
  · intro hlater
    refine ⟨?_, hlater.idle⟩
    have htotal : totalConsumers (obs.filter q) = totalConsumers obs := hlater.total.symm.trans h.total
    intro o ho hq
    have hsplit : ∀ l : List TransportObservation, totalConsumers l =
        totalConsumers (l.filter q) + totalConsumers (l.filter fun o => !q o) := by
      intro l
      unfold totalConsumers
      induction l with
      | nil => rfl
      | cons a l ih =>
        cases ha : q a <;> simp [ha, ih] <;> omega
    have hrest : totalConsumers (obs.filter fun o => !q o) = 0 := by
      have := hsplit obs
      omega
    exact Nat.le_zero.1 (hrest ▸ List.le_sum_of_mem (List.mem_map_of_mem (List.mem_filter.2 ⟨ho, by simp [hq]⟩)))
  · intro hlater
    obtain ⟨htotal, hon⟩ := sums_filter hvalid hlater.1
    have hsums : pathSums (obs.filter q) = pathSums obs := pathSums_congr fun path => by rw [sumOn, hon, sumOn]
    exact h.congr htotal hsums fun hnil _ => hlater.2 (hsums.trans hnil)

variable {sources : Sources}

section

variable {order : Order} {now : ℤ} {machine : String}

theorem activeFor_perm : (activeFor order sources now machine).Perm
    ((live sources now machine).filter fun o => o.transport.selectedPath != "none") := by
  refine ((order.perm _).filter _).trans (.of_eq ?_)
  rw [live, List.filter_filter, List.filter_filter]
  congr 1
  funext o
  cases o.machineID == machine <;> cases o.transport.selectedPath != "none" <;> simp

theorem mem_activeFor : o ∈ activeFor order sources now machine ↔
    o ∈ live sources now machine ∧ o.transport.selectedPath ≠ "none" := by
  rw [activeFor_perm.mem_iff, List.mem_filter, bne_iff_ne]

variable (hvalid : ∀ o ∈ stored sources, o.valid = true)
include hvalid

/-- the sums of applyLocked are those over all observations that have not expired -/
theorem exact_active : ExactFor (project (activeFor order sources now machine)) (live sources now machine) := by
  have hperm : (activeFor order sources now machine).Perm _ := activeFor_perm
  have hlive : ∀ o ∈ live sources now machine, o.valid = true := fun o ho => hvalid o (List.mem_filter.1 ho).1
  have hexact := project_exact (fun o ho => hlive o (mem_activeFor.1 ho).1)
    fun o (ho : o ∈ activeFor order sources now machine) => (mem_activeFor.1 ho).2
  obtain ⟨htotal, hon⟩ := sums_filter (q := fun o => o.transport.selectedPath != "none") hlive fun o ho hq =>
    zero_of_none (hlive o ho) (by simpa using hq)
  obtain ⟨hpermTotal, hpermSum⟩ := sums_perm hperm
  refine hexact.congr (htotal.symm.trans hpermTotal.symm) (pathSums_congr fun path => ?_) fun _ hselected => ?_
  · rw [hpermSum, sumOn, sumOn, hon]
  · obtain ⟨hnone, hall⟩ | ⟨o, ho, hpath⟩ := hselected
    · refine .inl ⟨hnone, fun o ho => ?_⟩
      by_contra hne
      exact hne (hall o (mem_activeFor.2 ⟨ho, hne⟩))
    · exact .inr ⟨o, (mem_activeFor.1 ho).1, hpath⟩

/-- with nothing in use, the path that applyLocked selects is still that of an observation exactly if one with the path
of the newest is left -/
theorem selected_later_iff {later : List TransportObservation} (hlater : later ⊆ live sources now machine)
    (hidle : pathSums (live sources now machine) = []) :
    Selected (project (activeFor order sources now machine)) later ↔
      ∀ newest, (activeFor order sources now machine).getLast? = some newest →
        ∃ o ∈ later, o.transport.selectedPath = newest.transport.selectedPath := by
  cases hlast : (activeFor order sources now machine).getLast? with
  | none =>
    refine iff_of_true (.inl ⟨by simp [project, hlast], fun o ho => ?_⟩) (by simp)
    by_contra hne
    have hmem : o ∈ activeFor order sources now machine := mem_activeFor.2 ⟨hlater ho, hne⟩
    rw [List.getLast?_eq_none_iff.1 hlast] at hmem
    simp at hmem
  | some newest =>
    obtain ⟨-, hne⟩ := mem_activeFor.1 (List.mem_of_getLast? hlast)
    have hselected : (project (activeFor order sources now machine)).selectedPath = newest.transport.selectedPath := by
      have hvalid' : ∀ o ∈ activeFor order sources now machine, o.valid = true :=
        fun o ho => hvalid o (List.mem_filter.1 (mem_activeFor.1 ho).1).1
      have hnil : aggregate (activeFor order sources now machine) = [] := by
        rw [← List.map_eq_nil_iff, aggregate_paths hvalid', ← hidle, ← (exact_active hvalid).paths]
        exact (project_exact hvalid' fun o ho => (mem_activeFor.1 ho).2).paths.symm
      have htotal : totalConsumers (activeFor order sources now machine) = 0 := by
        rw [← sum_aggregate hvalid', hnil]
        rfl
      simp [project, hlast, hnil, htotal]
    constructor
    · rintro (⟨hnone, -⟩ | ⟨o, ho, -, hpath⟩) _ ⟨⟩
      · exact absurd (hselected.symm.trans hnone) hne
      · exact ⟨o, ho, hpath.symm.trans hselected⟩
    · intro h
      obtain ⟨o, ho, hpath⟩ := h newest rfl
      exact .inr ⟨o, ho, hpath ▸ hne, hselected.trans hpath.symm⟩

omit hvalid in
theorem stored_of_active (ho : o ∈ activeFor order sources now machine) : o ∈ stored sources :=
  (List.mem_filter.1 (mem_activeFor.1 ho).1).1

theorem total_bound (hfew : sources.entries.length ≤ maxObservationSources) (now : ℤ) (machine : String) :
    totalConsumers (activeFor order sources now machine) < 2 ^ 64 := by
  have hlength : (activeFor order sources now machine).length ≤ maxObservationSources := by
    calc (activeFor order sources now machine).length
        ≤ (order.sort ((stored sources).filter fun o => o.transport.selectedPath != "none" &&
          decide (now < o.expiresAt))).length :=
          List.length_filter_le _ _
      _ ≤ (stored sources).length := by rw [(order.perm _).length_eq]; exact List.length_filter_le _ _
      _ ≤ maxObservationSources := by rw [stored, List.length_map]; exact hfew
  have hsum := List.sum_le_card_nsmul ((activeFor order sources now machine).map (·.transport.activeConsumers)) 1024 (by
    intro n hn
    obtain ⟨o, ho, rfl⟩ := List.mem_map.1 hn
    exact (valid_parts (hvalid o (stored_of_active ho))).1)
  rw [List.length_map, smul_eq_mul] at hsum
  unfold maxObservationSources at hlength
  unfold totalConsumers
  omega

end

/-! ## Runs -/

namespace ObservationStore

variable {E R : Type} {rules : Rules E R} {owner : Owner} {s : ObservationStore E R}

theorem le_now (s : ObservationStore E R) (call : Call) : s.clock ≤ s.now call := by
  cases call <;> simp [now]

/-- the snapshot is valid, the observations are, there are not too many, and the snapshot was made from them -/
structure Inv (rules : Rules E R) (s : ObservationStore E R) : Prop where
  valid : s.snapshot.valid rules = true
  sources : ∀ o ∈ stored s.sources, o.valid = true
  few : s.sources.entries.length ≤ maxObservationSources
  started : s.computedAt = none → s.sources = ∅
  exact : ∀ t order, s.computedAt = some (t, order) → t ≤ s.clock ∧
    ∀ m ∈ s.snapshot.machines, m.transport = project (activeFor order s.sources t m.id)

/-- the refusals of a plan are the expected ones, unless the process of the owner has no number -/
theorem plan_refuse (hplan : s.plan owner call = .refuse e) : Answered owner call (some e) ↔ Known owner call := by
  cases call with
  | expire order elapsed =>
    simp only [plan, expirePlan] at hplan
    split_ifs at hplan
  | publish order peer o elapsed =>
    refine forall_congr' fun hvalid => ?_
    simp only [plan, publishPlan, hvalid, Bool.not_true, Bool.false_eq_true, if_false] at hplan
    split_ifs at hplan with hpeer
    · -- only the peer is at fault here
      obtain rfl := Plan.refuse.inj hplan
      cases hauthorizes : authorizes owner peer <;> simp_all
    all_goals
      have hpid : 0 < peer.pid := by simp_all
      refine iff_of_true (.inl ?_) fun _ => hpid
    · obtain rfl := Plan.refuse.inj hplan
      simp
    · unfold storePlan at hplan
      split at hplan <;> split_ifs at hplan <;> obtain rfl := Plan.refuse.inj hplan <;> simp

variable (owner call) in
theorem answered_none : Answered owner call none := by
  cases call with
  | publish order peer o elapsed => exact fun _ => by simp
  | expire order elapsed => rfl

/-- an update error is none of the expected refusals -/
theorem not_answered (hplan : s.plan owner call = .apply sources)
    (he : e ∈ [Refusal.invalidConfig, .generationExhausted, .invalidResponse]) : ¬Answered owner call (some e) := by
  cases call with
  | expire order elapsed => simp [Answered]
  | publish order peer o elapsed =>
    have hvalid : o.valid = true := by
      simp only [plan, publishPlan] at hplan
      split_ifs at hplan with hpeer hinvalid
      simpa using hinvalid
    intro h
    have hmem := h hvalid
    simp only [List.mem_cons, List.not_mem_nil, or_false] at he
    obtain rfl | rfl | rfl := he <;> simp at hmem

theorem update_error [DecidableEq E] [DecidableEq R] {e : Refusal} {now : ℤ} {current : Snapshot E R} {envelope : E}
    {machines : List (MachineStatus R)} (h : update rules now current envelope machines = .error e) :
    e ∈ [Refusal.invalidConfig, .generationExhausted, .invalidResponse] := by
  unfold update at h
  split_ifs at h <;> obtain rfl := Except.error.inj h <;> simp

section

variable (h : s.Inv rules)
include h

/-- a snapshot that is not made anew is exact exactly if it is up to date -/
theorem exact_iff_upToDate (call : Call) : s.Exact (s.now call) ↔ s.UpToDate (s.now call) := by
  unfold Exact UpToDate
  cases hcomputed : s.computedAt with
  | none =>
    have hlive : ∀ m, live s.sources (s.now call) m = [] := by
      intro m
      rw [h.started hcomputed]
      rfl
    simp only [hlive]
    refine forall₂_congr fun m _ => ?_
    constructor
    · intro hexact
      obtain ⟨hselected, -⟩ | ⟨o, ho, -⟩ := hexact.idle rfl
      · exact ⟨hexact.total, by simpa [pathSums, sumOn, onPath] using hexact.paths, hselected⟩
      · cases ho
    · intro hidle
      exact ⟨hidle.1, by rw [hidle.2.1]; rfl, fun _ => .inl ⟨hidle.2.2, by simp⟩,
        fun q hq => absurd hq (by simp [pathSums, sumOn, onPath]), fun hlt =>
          absurd hlt (by simp [pathSums, sumOn, onPath])⟩
  | some computed =>
    obtain ⟨t, order⟩ := computed
    obtain ⟨hclock, hmade⟩ := h.exact t order hcomputed
    have hnow := hclock.trans (le_now s call)
    have hlive : ∀ m, live s.sources (s.now call) m =
        (live s.sources t m).filter fun o => decide (s.now call < o.expiresAt) := by
      intro m
      rw [live, live, List.filter_filter]
      congr 1
      funext o
      by_cases hlt : s.now call < o.expiresAt
      · simp [hlt, hnow.trans_lt hlt]
      · simp [hlt]
    refine forall₂_congr fun m hm => ?_
    have hvalid : ∀ o ∈ live s.sources t m.id, o.valid = true := fun o ho => h.sources o (List.mem_filter.1 ho).1
    rw [hmade m hm, hlive, exact_later_iff hvalid (exact_active h.sources)]
    simp only [decide_eq_false_iff_not, not_lt]
    refine and_congr_right fun hidle => imp_congr_right fun hnil => ?_
    -- what has expired was idle, so nothing was in use then either
    refine selected_later_iff h.sources (List.filter_sublist.subset) ?_
    rw [← hnil]
    refine pathSums_congr fun path => ?_
    rw [sumOn, sumOn, (sums_filter hvalid fun o ho hq => hidle o ho (by simpa using hq)).2]

variable {call : Call}

section

variable (hplan : s.plan owner call = .apply sources)
include hplan

/-- what an accepted plan stores is valid and not too much -/
theorem plan_sources :
    (∀ o ∈ stored sources, o.valid = true) ∧ sources.entries.length ≤ maxObservationSources := by
  cases call with
  | expire order elapsed =>
    simp only [plan, expirePlan] at hplan
    split_ifs at hplan
    obtain rfl := Plan.apply.inj hplan
    refine ⟨fun o ho => ?_, (List.length_filter_le _ _).trans h.few⟩
    obtain ⟨e, he, rfl⟩ := List.mem_map.1 ho
    exact h.sources _ (List.mem_map_of_mem (List.mem_filter.1 he).1)
  | publish order peer o elapsed =>
    have hinsert : ∀ key, o.valid = true → ∀ a ∈ stored (s.sources.insert key o), a.valid = true := by
      intro key ho a ha
      obtain ⟨e, he, rfl⟩ := List.mem_map.1 ha
      obtain rfl | he := List.mem_cons.1 he
      · exact ho
      · exact h.sources _ (List.mem_map_of_mem ((List.kerase_sublist _ _).subset he))
    simp only [plan, publishPlan] at hplan
    split_ifs at hplan with hpeer hinvalid hstale
    have hvalid : o.valid = true := by simpa using hinvalid
    unfold storePlan at hplan
    split at hplan
    next previous hprevious =>
      split_ifs at hplan
      obtain rfl := Plan.apply.inj hplan
      refine ⟨hinsert _ hvalid, ?_⟩
      rw [length_insert, hprevious]
      exact h.few
    next hnone =>
      split_ifs at hplan with hfull
      obtain rfl := Plan.apply.inj hplan
      refine ⟨hinsert _ hvalid, ?_⟩
      rw [length_insert, hnone]
      simp only [Option.isSome_none, Bool.false_eq_true, if_false]
      omega

/-- the machines that a plan computes are valid exactly if none is in conflict -/
theorem computed_valid_iff :
    validMachines rules (computed (order call) sources (s.now call) s.snapshot.machines) = true ↔
      ∀ m ∈ s.snapshot.machines, ¬Conflicted (activeFor (order call) sources (s.now call) m.id) := by
  obtain ⟨hsources, hfew⟩ := plan_sources h hplan
  have hvalid := h.valid
  simp only [Snapshot.valid, Bool.and_eq_true] at hvalid
  have hmachines := hvalid.2
  simp only [validMachines, Bool.and_eq_true, decide_eq_true_eq, List.all_eq_true, MachineStatus.valid] at hmachines
  have hproject : ∀ m : MachineStatus R, (project (activeFor (order call) sources (s.now call) m.id)).valid = true ↔
      ¬Conflicted (activeFor (order call) sources (s.now call) m.id) := by
    intro m
    apply project_valid_iff _ (total_bound hsources hfew _ _)
    intro o ho
    exact hsources o (List.mem_filter.1 (((order call).perm _).mem_iff.1 (List.mem_filter.1 ho).1)).1
  have hids : (computed (order call) sources (s.now call) s.snapshot.machines).map (·.id) =
      s.snapshot.machines.map (·.id) := by
    rw [computed, List.map_map]
    rfl
  rw [validMachines, hids, decide_eq_true hmachines.1, Bool.true_and, List.all_eq_true]
  constructor
  · intro hall m hm
    have hone := hall _ (List.mem_map_of_mem hm)
    simp only [MachineStatus.valid, Bool.and_eq_true] at hone
    exact (hproject m).1 hone.1.2
  · intro hall m' hm'
    obtain ⟨m, hm, rfl⟩ := List.mem_map.1 hm'
    simp only [MachineStatus.valid, Bool.and_eq_true]
    exact ⟨⟨(hmachines.2 m hm).1.1, (hproject m).2 (hall m hm)⟩, (hmachines.2 m hm).2⟩

variable [DecidableEq E] [DecidableEq R]

theorem applied_ok_iff :
    (∃ snapshot, s.applied rules call sources = .ok snapshot) ↔ s.Clear owner call := by
  have hlength : (computed (order call) sources (s.now call) s.snapshot.machines).length = s.snapshot.machines.length :=
    List.length_map _
  rw [applied, update_ok_iff h.valid hlength, Clear, hplan, computed_valid_iff h hplan]

omit hplan in
/-- the machines of the snapshot that an update leaves -/
theorem applied_made {snapshot : Snapshot E R} (hok : s.applied rules call sources = .ok snapshot) :
    ∀ m ∈ snapshot.machines, m.transport = project (activeFor (order call) sources (s.now call) m.id) := by
  intro m hm
  rw [(update_machines h.valid hok).1] at hm
  obtain ⟨m', -, rfl⟩ := List.mem_map.1 hm
  rfl

end

variable [DecidableEq E] [DecidableEq R]

/-- a call is good exactly if it is clear -/
theorem good_iff_clear (call : Call) : s.Good rules owner call ↔ s.Clear owner call := by
  cases hplan : s.plan owner call with
  | refuse e =>
    have hexecute : s.execute rules owner call = ({ s with clock := s.now call }, some e) := by simp [execute, hplan]
    have hclear : s.Clear owner call ↔ Known owner call := by simp [Clear, hplan]
    rw [hclear, ← plan_refuse hplan]
    constructor
    · intro hgood
      simpa [hexecute] using hgood.answered
    · intro hanswered
      refine ⟨fun sources hs => (nomatch hplan.symm.trans hs), by rwa [hexecute], fun hnone => ?_⟩
      rw [hexecute] at hnone
      cases hnone
  | keep =>
    have hexecute : s.execute rules owner call = ({ s with clock := s.now call }, none) := by simp [execute, hplan]
    have hclear : s.Clear owner call ↔ s.UpToDate (s.now call) := by simp [Clear, hplan]
    rw [hclear, ← exact_iff_upToDate h call]
    constructor
    · intro hgood
      have hexact := hgood.exact (by rw [hexecute])
      rw [hexecute] at hexact
      exact hexact
    · intro hexact
      refine ⟨fun sources hs => (nomatch hplan.symm.trans hs), ?_, fun _ => by rw [hexecute]; exact hexact⟩
      rw [hexecute]
      exact answered_none owner call
  | apply sources =>
    rw [← applied_ok_iff h hplan]
    constructor
    · intro hgood
      cases hok : s.applied rules call sources with
      | ok snapshot => exact ⟨snapshot, rfl⟩
      | error e =>
        have hanswer : (s.execute rules owner call).2 = some e := by simp [execute, hplan, hok]
        have hanswered := hgood.answered
        rw [hanswer] at hanswered
        exact absurd hanswered (not_answered hplan (update_error hok))
    · intro hok
      have hclear := (applied_ok_iff h hplan).1 hok
      obtain ⟨snapshot, hok⟩ := hok
      have hexecute : s.execute rules owner call =
          ({ snapshot, sources, clock := s.now call, computedAt := some (s.now call, order call) }, none) := by
        simp [execute, hplan, hok]
      refine ⟨fun sources' hs => ?_, ?_, fun _ => ?_⟩
      · obtain rfl := Plan.apply.inj (hplan.symm.trans hs)
        rw [Clear, hplan] at hclear
        exact (computed_valid_iff h hplan).2 hclear.2.2
      · rw [hexecute]
        exact answered_none owner call
      · rw [hexecute]
        intro m hm
        rw [applied_made h hok m hm]
        exact exact_active (plan_sources h hplan).1

theorem inv_step (hclear : s.Clear owner call) : (s.step rules owner call).Inv rules := by
  have hclock : Inv rules { s with clock := s.now call } :=
    { h with exact := fun t o ht => ⟨(h.exact t o ht).1.trans (le_now s call), (h.exact t o ht).2⟩ }
  unfold step
  cases hplan : s.plan owner call with
  | refuse | keep =>
    simp only [execute, hplan]
    exact hclock
  | apply sources =>
    obtain ⟨snapshot, hok⟩ := (applied_ok_iff h hplan).2 hclear
    obtain ⟨hsources, hfew⟩ := plan_sources h hplan
    simp only [execute, hplan, hok]
    refine ⟨(update_machines h.valid hok).2, hsources, hfew, nofun, fun t o ht => ?_⟩
    cases ht
    exact ⟨le_rfl, applied_made h hok⟩

end

/-- a store over a valid snapshot, before its first call -/
def start (snapshot : { s : Snapshot E R // s.valid rules = true }) (clock : ℤ) : ObservationStore E R :=
  { snapshot := snapshot.1, clock }

/-- **Observations.** In a run of publications and expirations on a valid snapshot, with a clock that does not go
back, every call computes a valid snapshot if it computes one, refuses a valid observation only as stale, over the
limit or because the peer is not the owner, never fails to expire, and leaves exact sums when it succeeds, exactly if
every call is clear. -/
theorem observations_iff {E R : Type} [DecidableEq E] [DecidableEq R] (rules : Rules E R) (owner : Owner)
    (snapshot : { s : Snapshot E R // s.valid rules = true }) (clock : ℤ) (calls : List Call) :
    Machine.Throughout (step rules owner) (start snapshot clock) (Good rules owner) calls ↔
      Machine.Throughout (step rules owner) (start snapshot clock) (Clear owner) calls := by
  have hinit : (start snapshot clock).Inv rules :=
    ⟨snapshot.2, fun o ho => absurd ho (by simp [stored, start]), by simp [start, maxObservationSources], fun _ => rfl,
      fun t o ht => absurd ht (by simp [start])⟩
  exact Machine.throughout_iff_of (step rules owner) (start snapshot clock) hinit
    (fun _ call h => good_iff_clear h call) fun _ _ h hclear => inv_step h hclear

/-! ## Instances -/

def byKey : Order where
  sort l := l.insertionSort fun a b => sortKey a ≤ sortKey b
  perm l := List.perm_insertionSort _ l
  sorted l := List.pairwise_insertionSort (r := fun a b => sortKey a ≤ sortKey b) l

/-- one machine without anything in use, and nothing to check around it -/
def oneMachine : { s : Snapshot Unit Unit // s.valid ⟨fun _ => true, fun _ => true⟩ = true } :=
  ⟨⟨1, 1, (), [⟨"m", {}, ()⟩]⟩, by decide⟩

/-- a consumer on the direct path, seen at the 100th second -/
def seenDirect (source standby : String) (expiresAt : ℤ) : TransportObservation :=
  { sourceID := source, sequence := 1, observedAt := 100 * second, expiresAt, machineID := "m",
    transport := { activeConsumers := 1, selectedPath := "direct", standbyPath := standby } }

/-- the first observation of a machine is valid and names a standby path -/
theorem standby_refused : (seenDirect "a" "relay" (110 * second)).valid = true ∧
    ((start oneMachine (100 * second)).execute ⟨fun _ => true, fun _ => true⟩ ⟨7, ""⟩
      (.publish byKey { uid := 7, pid := 1 } (seenDirect "a" "relay" (110 * second)) 0)).2 = some .invalidResponse := by
  decide +kernel

/-- two sources have a consumer each; one expires, and the other is published again as it is -/
def republished : List Call :=
  [.publish byKey { uid := 7, pid := 1 } (seenDirect "a" "" (105 * second)) 0,
    .publish byKey { uid := 7, pid := 1 } (seenDirect "b" "" (125 * second)) 0,
    .publish byKey { uid := 7, pid := 1 } (seenDirect "b" "" (125 * second)) 10000000000]

/-- the machine still has two consumers, and one of the observations has expired -/
theorem republished_stale :
    let s := Machine.run (step ⟨fun _ => true, fun _ => true⟩ ⟨7, ""⟩) (start oneMachine (100 * second)) republished
    s.snapshot.machines.map (·.transport.activeConsumers) = [2] ∧
      live s.sources s.clock "m" = [seenDirect "b" "" (125 * second)] := by
  decide +kernel

end ObservationStore

end Paperboat.LocalDaemon
