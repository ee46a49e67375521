/-
The standalone update gate: the transactions of the updater that hostd keeps in memory
and in one file, the requests that move them, and the start of a process from the file.

A request changes the transactions in memory and then writes all of them. A write
replaces the file, or fails and leaves it as it was. What the gate calls (the clock, the
health probe, the count of workloads, BeginUpdate and EndUpdate of the transfer fence,
the write) comes with the request as its `Outcome`. The file is kept as the transactions
it holds; `body` is its JSON text, of which load bounds the length. A process can be
stopped at any time, and started again.

Results:
- `stage_stages`, `handle_handles`: everything a request can come to before the write,
  and in all;
- `lookup_purge`, `lookup_set`: what is under an identifier after each of the changes.
-/
import Mathlib.Data.List.Sort
import Paperboat.Core.Json
import Paperboat.Core.Table
import Paperboat.Core.Text

namespace Paperboat.Standalone

/-! ## Requests -/

inductive Operation
  | target
  | candidate
  | drain
  | stability
  | rollback
  | commit
deriving DecidableEq, Repr

inductive Scope
  | standalone
  | tunnel
  | unknown (text : String)
deriving DecidableEq, Repr

def Scope.text : Scope → String
  | .standalone => "standalone"
  | .tunnel => "tunnel"
  | .unknown text => text

/-- UpdateGateTargetBinding -/
structure Binding where
  scope : Scope
  machineID : String := ""
  accountID : String := ""
  hostID : String := ""
  tunnelID : String := ""
  connectorID : String := ""
  edgeNodeID : String := ""
  processEpoch : UInt64 := 0
  sessionGeneration : UInt64 := 0
  configGeneration : UInt64 := 0
  routeGeneration : UInt64 := 0
  failureDomain : String := ""
deriving DecidableEq, Repr

/-- UpdateGateRequest -/
structure Request where
  operation : Operation
  transactionID : String
  version : String
  previousVersion : String := ""
  manifestSHA256 : String
  path : String := ""
  expectedStatus : ℤ := 0
  samples : UInt16 := 0
  timeoutMillis : ℤ := 0
  windowMillis : ℤ := 0
  intervalMillis : ℤ := 0
  expectedTarget : Option Binding := none
deriving DecidableEq, Repr

/-- updateGateIDPattern -/
def idPattern (s : String) : Bool :=
  match s.toList with
  | [] => false
  | c :: rest => c.isAlphanum && rest.all (fun c => c.isAlphanum || c ∈ ['.', '_', ':', '-']) &&
      decide (rest.length ≤ 127)

/-- updateGateDigestPattern -/
def digestPattern (s : String) : Bool :=
  decide (s.toList.length = 64) && s.toList.all fun c => c.isDigit || decide ('a' ≤ c ∧ c ≤ 'f')

def validVersion (s : String) : Bool :=
  decide (0 < s.utf8ByteSize) && decide (s.utf8ByteSize ≤ 128) && Text.trimSpace s == s &&
    !Text.containsAny s "\x00\r\n"

def validUpdatePath (s : String) : Bool :=
  s.toList.head? == some '/' && s.toList.take 2 != ['/', '/'] && decide (s.utf8ByteSize ≤ 512) &&
    !Text.containsAny s "\x00\r\n"

/-- a positive number of milliseconds, at most MaximumUpdateGateDuration -/
def validUpdateDuration (millis : ℤ) : Bool := decide (0 < millis ∧ millis ≤ 30 * 60 * 1000)

def Binding.validate (b : Binding) : Bool :=
  idPattern b.machineID && idPattern b.failureDomain &&
    match b.scope with
    | .standalone =>
      decide (b.accountID = "" ∧ b.hostID = "" ∧ b.tunnelID = "" ∧ b.connectorID = "" ∧ b.edgeNodeID = "" ∧
        b.processEpoch = 0 ∧ b.sessionGeneration = 0 ∧ b.configGeneration = 0 ∧ b.routeGeneration = 0)
    | .tunnel =>
      [b.accountID, b.hostID, b.tunnelID, b.connectorID, b.edgeNodeID].all idPattern &&
        decide (b.processEpoch ≠ 0 ∧ b.sessionGeneration ≠ 0 ∧ b.configGeneration ≠ 0 ∧ b.routeGeneration ≠ 0)
    | .unknown _ => false

namespace Request

/-- the path, status and samples of a health probe -/
def validProbe (r : Request) : Bool :=
  validUpdatePath r.path && decide (200 ≤ r.expectedStatus ∧ r.expectedStatus ≤ 299 ∧ 2 ≤ r.samples ∧ r.samples ≤ 32)

def noProbe (r : Request) : Bool := decide (r.path = "" ∧ r.expectedStatus = 0 ∧ r.samples = 0)

def noWindow (r : Request) : Bool := decide (r.windowMillis = 0 ∧ r.intervalMillis = 0)

def validTarget (r : Request) : Bool := (r.expectedTarget.map Binding.validate).getD false

/-- the version before is named, and another one -/
def replaces (r : Request) : Bool := decide (r.previousVersion ≠ "" ∧ r.previousVersion ≠ r.version)

def validate (r : Request) : Bool :=
  idPattern r.transactionID && validVersion r.version && digestPattern r.manifestSHA256 &&
  (r.previousVersion == "" || validVersion r.previousVersion) &&
    match r.operation with
    | .target =>
      decide (r.previousVersion = "" ∧ r.timeoutMillis = 0 ∧ r.expectedTarget = none) && r.noProbe && r.noWindow
    | .candidate =>
      r.validProbe && validUpdateDuration r.timeoutMillis && r.previousVersion == "" && r.noWindow && r.validTarget
    | .drain => r.replaces && validUpdateDuration r.timeoutMillis && r.noProbe && r.noWindow && r.validTarget
    | .rollback => r.replaces && validUpdateDuration r.timeoutMillis && r.validProbe && r.noWindow && r.validTarget
    | .stability =>
      validUpdateDuration r.windowMillis && validUpdateDuration r.intervalMillis &&
        decide (r.intervalMillis ≤ r.windowMillis ∧ r.previousVersion = "" ∧ r.timeoutMillis = 0) &&
          r.validProbe && r.validTarget
    | .commit =>
      decide (r.previousVersion = "" ∧ r.timeoutMillis = 0) && r.noProbe && r.noWindow && r.validTarget

end Request

/-! ## Transactions and the file -/

/-- `fenced`: BeginUpdate and EndUpdate are there; `stamp` is the text encoding/json writes for a time -/
structure Config where
  machineID : String
  fenced : Bool
  stamp : ℤ → String

/-- the binding of this machine -/
def Config.target (c : Config) : Binding :=
    { scope := .standalone, machineID := c.machineID, failureDomain := "standalone" }

/-- `created` is in nanoseconds since the Unix epoch -/
structure Transaction where
  version : String
  manifest : String
  path : String := ""
  status : ℤ := 0
  samples : UInt16 := 0
  target : Binding
  created : ℤ
  policyBound : Bool := false
  drained : Bool := false
  committed : Bool := false
  rolledBack : Bool := false
  workloadGeneration : UInt64 := 0
  protectedWorkloads : UInt64 := 0
deriving DecidableEq, Repr

abbrev Transactions := AList fun _ : String => Transaction

def Binding.json (b : Binding) : Json.Value :=
  .obj [("scope", .str b.scope.text), ("machine_id", .str b.machineID), ("account_id", .str b.accountID),
    ("host_id", .str b.hostID), ("tunnel_id", .str b.tunnelID), ("connector_id", .str b.connectorID),
    ("edge_node_id", .str b.edgeNodeID), ("process_epoch", .num b.processEpoch.toNat),
    ("session_generation", .num b.sessionGeneration.toNat), ("config_generation", .num b.configGeneration.toNat),
    ("route_generation", .num b.routeGeneration.toNat), ("failure_domain", .str b.failureDomain)]

def Transaction.json (c : Config) (t : Transaction) : Json.Value :=
  .obj ([("Version", .str t.version), ("Manifest", .str t.manifest), ("Path", .str t.path), ("Status", .num t.status),
      ("Samples", .num t.samples.toNat), ("Target", t.target.json), ("Created", .str (c.stamp t.created)),
      ("PolicyBound", .bool t.policyBound), ("Drained", .bool t.drained), ("Committed", .bool t.committed)] ++
    (if t.rolledBack then [("RolledBack", .bool true)] else []) ++
    [("WorkloadGeneration", .num t.workloadGeneration.toNat), ("ProtectedWorkloads", .num t.protectedWorkloads.toNat)])

/-- the text of the file; a map is written in the order of its keys -/
def body (c : Config) (ts : Transactions) : List Char :=
  Json.encode (.obj [("schema", .str "paperboat.standalone-update-gate/v1"),
    ("transactions", .obj ((ts.entries.insertionSort fun a b => a.1 ≤ b.1).map fun e => (e.1, e.2.json c)))])

/-- its length in bytes -/
def size (c : Config) (ts : Transactions) : ℕ := ((body c ts).map Char.utf8Size).sum

/-- the first instant of the year 1, the zero time -/
def zeroTime : ℤ := -62135596800 * 1000000000

/-- the check load makes of each transaction -/
def Transaction.accepted (c : Config) (id : String) (t : Transaction) : Bool :=
  ({ operation := .target, transactionID := id, version := t.version,
     manifestSHA256 := t.manifest } : Request).validate &&
  decide (t.target = c.target) && t.target.validate && t.created != zeroTime &&
  !((t.committed || t.rolledBack) && t.drained) && !(t.committed && t.rolledBack) &&
  !(t.drained && (!t.policyBound || t.workloadGeneration == 0 && t.protectedWorkloads != 0)) &&
  !(!t.drained && !t.committed && !t.rolledBack && (t.workloadGeneration != 0 || t.protectedWorkloads != 0))

/-- load, of a file that is there -/
def load (c : Config) (ts : Transactions) : Bool :=
  decide (size c ts ≤ 256 * 1024) && decide (ts.entries.length ≤ 128) && ts.entries.all fun e => e.2.accepted c e.1

/-! ## The gate -/

structure Gate where
  transactions : Transactions := ∅
  heldTransaction : String := ""

inductive Failure
  /-- errStandaloneUpdateGate -/
  | unavailable
  | beginUpdate
  | endUpdate
  | persist
  | context
deriving DecidableEq, Repr

abbrev Reply := Except (List Failure) Binding

structure WorkloadStatus where
  generation : UInt64
  protectedCount : UInt64
deriving DecidableEq, Repr

/-- what the calls out of the gate give: the clock as the transactions are purged and as one is created, the probe
(of the whole window in a stability request), BeginUpdate, EndUpdate for a transaction that is given up and for the
one of the request, the workloads and the write -/
structure Outcome where
  now : ℕ
  created : ℕ
  probe : Option Failure := none
  beginUpdate : Bool := true
  endHeld : Bool := true
  endOwn : Bool := true
  workloads : WorkloadStatus := ⟨0, 0⟩
  persist : Bool := true
deriving DecidableEq, Repr

/-- the transaction is the one the request names -/
def Transaction.isFor (t : Transaction) (c : Config) (r : Request) : Bool :=
  t.version == r.version && t.manifest == r.manifestSHA256 && decide (t.target = c.target)

def Transaction.samePolicy (t : Transaction) (r : Request) : Bool :=
  t.path == r.path && t.status == r.expectedStatus && t.samples == r.samples

/-- the transaction a target request creates -/
def Transaction.fresh (c : Config) (r : Request) (o : Outcome) : Transaction :=
  { version := r.version, manifest := r.manifestSHA256, target := c.target, created := o.created }

def Transaction.bind (t : Transaction) (r : Request) : Transaction :=
  { t with path := r.path, status := r.expectedStatus, samples := r.samples, policyBound := true }

def Transaction.drain (t : Transaction) (w : WorkloadStatus) : Transaction :=
  { t with drained := true, workloadGeneration := w.generation, protectedWorkloads := w.protectedCount }

def Transaction.rollBack (t : Transaction) : Transaction := { t with drained := false, rolledBack := true }

def Transaction.commit (t : Transaction) : Transaction := { t with drained := false, committed := true }

/-- a transaction abandonHeld gives up -/
def Transaction.abandon (t : Transaction) : Transaction := if t.committed then t else t.rollBack

/-- purge keeps the transaction -/
def Transaction.stays (t : Transaction) (now : ℕ) : Bool :=
    t.drained || !decide (2 * 3600 * 1000000000 < (now : ℤ) - t.created)

namespace Gate

variable (g : Gate)

def set (id : String) (t : Transaction) : Gate := { g with transactions := g.transactions.insert id t }

def hold (id : String) : Gate := { g with heldTransaction := id }

def purge (now : ℕ) : Gate := { g with transactions := Table.select (fun t => t.stays now) g.transactions }

def releaseAdmission (id : String) (ended : Bool) : Gate × Option Failure :=
  if g.heldTransaction ≠ id then (g, none)
  else if !ended then (g, some .endUpdate)
  else (g.hold "", none)

/-- the transaction under the identifier is abandoned -/
def giveUp (id : String) : Gate :=
  match g.transactions.lookup id with
  | some t => g.set id t.abandon
  | none => g

def abandonHeld (ended : Bool) : Gate × Option Failure :=
  match g.releaseAdmission g.heldTransaction ended with
  | (_, some err) => (g, some err)
  | (released, none) => (released.giveUp g.heldTransaction, none)

/-- the fence of another transaction is given up, and one for this transaction raised -/
def raise (c : Config) (id : String) (o : Outcome) : Gate × Option Failure :=
  if !c.fenced then (g, none)
  else
    let other := g.heldTransaction != "" && g.heldTransaction != id
    match if other then g.abandonHeld o.endHeld else (g, none) with
    | (g, some err) => (g, some err)
    | (g, none) => if o.beginUpdate then (g.hold id, none) else (g, some .beginUpdate)

end Gate

/-- what a request has come to before the state is written: a reply, or the gate to write, with the transaction of
the request -/
inductive Staged
  | done (g : Gate) (reply : Reply)
  | write (g : Gate) (t : Transaction)

namespace Gate

variable (g : Gate) (c : Config) (r : Request) (o : Outcome) (t : Transaction)

def refuse : Staged := .done g (.error [.unavailable])

def target : Staged :=
  match g.transactions.lookup r.transactionID with
  -- rollback retries look their target up after the rollback
  | some t => if t.version ≠ r.version ∨ t.manifest ≠ r.manifestSHA256 then g.refuse else .done g (.ok c.target)
  | none =>
    if 128 ≤ g.transactions.entries.length then g.refuse
    else .write (g.set r.transactionID (.fresh c r o)) (.fresh c r o)

def candidate : Staged :=
  if t.committed || t.rolledBack || !t.isFor c r || t.policyBound && !t.samePolicy r then g.refuse
  else
    match o.probe with
    | some err => .done g (.error [err])
    | none => .write (g.set r.transactionID (t.bind r)) (t.bind r)

def drain : Staged :=
  if t.committed || t.rolledBack || !t.policyBound || !t.isFor c r then g.refuse
  else
    match g.raise c r.transactionID o with
    | (g, some err) => .done g (.error [err])
    | (g, none) =>
      if o.workloads.generation = 0 ∧ o.workloads.protectedCount ≠ 0 then
        let released := g.releaseAdmission r.transactionID o.endOwn
        .done released.1 (.error (.unavailable :: released.2.toList))
      else .write (g.set r.transactionID (t.drain o.workloads)) (t.drain o.workloads)

def stability : Staged :=
  if t.rolledBack || !t.policyBound || (!t.committed && !t.drained) || !t.isFor c r || !t.samePolicy r then g.refuse
  else if !t.committed && c.fenced && g.heldTransaction != r.transactionID then g.refuse
  else
    match o.probe with
    | some err => .done g (.error [err])
    | none => if t.committed then .done g (.ok c.target) else .write g t

def rollback : Staged :=
  -- a drain may have failed before it was recorded, so `drained` is not asked for
  if t.committed || !t.policyBound || !t.isFor c r || !t.samePolicy r then g.refuse
  else
    match o.probe with
    | some err => .done g (.error [err])
    | none => .write (g.set r.transactionID t.rollBack) t.rollBack

/-- the reply of a request that is through, but for the release of its fence -/
def settled (err : Option Failure) : Reply :=
  match err with
  | some err => .error [err]
  | none => .ok c.target

def commit : Staged :=
  if t.committed then
    if t.isFor c r then
      let released := g.releaseAdmission r.transactionID o.endOwn
      .done released.1 (settled c released.2)
    else g.refuse
  else if !t.policyBound || !t.drained || !t.isFor c r then g.refuse
  else if c.fenced && g.heldTransaction != r.transactionID then g.refuse
  else .write (g.set r.transactionID t.commit) t.commit

/-- a request for a transaction that is there; without one it is refused -/
def onTransaction (f : Transaction → Staged) : Staged :=
  match g.transactions.lookup r.transactionID with
  | some t => f t
  | none => g.refuse

/-- the request, up to the write -/
def stage : Staged :=
  match r.operation with
  | .target => g.target c r o
  | .candidate => g.onTransaction r (g.candidate c r o)
  | .drain => g.onTransaction r (g.drain c r o)
  | .stability => g.onTransaction r (g.stability c r o)
  | .rollback => g.onTransaction r (g.rollback c r o)
  | .commit => g.onTransaction r (g.commit c r o)

/-- the write has failed; a drain is taken back -/
def unwritten : Gate × Reply :=
  if r.operation = .drain then
    let released := (g.set r.transactionID { t with drained := false }).releaseAdmission r.transactionID o.endOwn
    (released.1, .error (.persist :: released.2.toList))
  else (g, .error [.persist])

/-- the state is written; a commit and a rollback release the fence -/
def written : Gate × Reply :=
  if r.operation = .commit ∨ r.operation = .rollback then
    let released := g.releaseAdmission r.transactionID o.endOwn
    (released.1, settled c released.2)
  else (g, .ok c.target)

end Gate

/-- the gate after a request, what was written, and the reply -/
structure Handled where
  gate : Gate
  file : Option Transactions := none
  reply : Reply

def Staged.finish (c : Config) (r : Request) (o : Outcome) : Staged → Handled
  | .done g reply => ⟨g, none, reply⟩
  | .write g t =>
    if o.persist then
      let last := g.written c r o
      ⟨last.1, some g.transactions, last.2⟩
    else
      let last := g.unwritten r o t
      ⟨last.1, none, last.2⟩

/-- the request is for this machine -/
def Request.aimed (c : Config) (r : Request) : Bool := r.operation == .target || r.expectedTarget == some c.target

/-- HandleUpdateGate -/
def Gate.handleUpdateGate (g : Gate) (c : Config) (r : Request) (o : Outcome) : Handled :=
  if !r.validate then ⟨g, none, .error [.unavailable]⟩
  else if !r.aimed c then ⟨g.purge o.now, none, .error [.unavailable]⟩
  else ((g.purge o.now).stage c r o).finish c r o

/-- expireAdmission, for the transaction that holds the fence; the reply is of no one -/
def Gate.expireAdmission (g : Gate) (ended persisted : Bool) : Gate × Option Transactions :=
  if g.heldTransaction = "" then (g, none)
  else
    match g.abandonHeld ended with
    | (_, some _) => (g, none)
    | (g, none) => (g, if persisted then some g.transactions else none)

/-- the loop of newStandaloneUpdateGate over the transactions it loaded: the transaction that holds the fence -/
def resume (c : Config) (begun : Bool) (held : String) (e : Sigma fun _ : String => Transaction) : Option String :=
  if e.2.drained && !e.2.committed && c.fenced then
    if held ≠ "" then none else if begun then some e.1 else none
  else some held

/-- newStandaloneUpdateGate; `begun`: its call of BeginUpdate succeeds -/
def newStandaloneUpdateGate (c : Config) (file : Option Transactions) (begun : Bool) : Option Gate :=
  if c.machineID = "" then none
  else
    match file with
    | none => some {}
    | some ts => if load c ts then (ts.entries.foldlM (resume c begun) "").map fun held => ⟨ts, held⟩ else none

/-! ## The machine -/

/-- the gate of the process, if one runs, and the file, if there is one -/
structure World where
  gate : Option Gate := none
  file : Option Transactions := none

inductive Op
  | request (r : Request) (o : Outcome)
  /-- the fence lease runs out -/
  | lease (ended persisted : Bool)
  | stop
  | start (begun : Bool)
deriving DecidableEq, Repr

/-- what the step writes -/
def World.writes (w : World) (c : Config) : Op → Option Transactions
  | .request r o => w.gate.bind fun g => (g.handleUpdateGate c r o).file
  | .lease ended persisted => w.gate.bind fun g => (g.expireAdmission ended persisted).2
  | _ => none

def World.nextGate (w : World) (c : Config) : Op → Option Gate
  | .request r o => w.gate.map fun g => (g.handleUpdateGate c r o).gate
  | .lease ended persisted => w.gate.map fun g => (g.expireAdmission ended persisted).1
  | .stop => none
  | .start begun => if w.gate.isSome then w.gate else newStandaloneUpdateGate c w.file begun

def World.step (c : Config) (w : World) (op : Op) : World := ⟨w.nextGate c op, (w.writes c op).or w.file⟩

/-! ## What is under an identifier -/

namespace Gate

variable (g : Gate)

@[simp] theorem lookup_set (id x : String) (t : Transaction) :
    (g.set id t).transactions.lookup x = if x = id then some t else g.transactions.lookup x :=
  Index.lookup_insert_if _ _ _ _

variable (id : String)

@[simp] theorem hold_transactions : (g.hold id).transactions = g.transactions := rfl

@[simp] theorem set_held (t : Transaction) : (g.set id t).heldTransaction = g.heldTransaction := rfl

theorem lookup_purge (now : ℕ) (x : String) :
    (g.purge now).transactions.lookup x = (g.transactions.lookup x).filter fun t => t.stays now :=
  Table.lookup_select _ _ _

variable {t : Transaction}

theorem lookup_purge_some {g : Gate} {now : ℕ} {x : String} :
    (g.purge now).transactions.lookup x = some t ↔ g.transactions.lookup x = some t ∧ t.stays now = true := by
  rw [lookup_purge, Option.filter_eq_some_iff]

/-- an overwritten transaction does not add to the number of transactions -/
theorem length_set_of_some {g : Gate} {id : String} {old : Transaction} (h : g.transactions.lookup id = some old)
    (t : Transaction) : (g.set id t).transactions.entries.length = g.transactions.entries.length := by
  rw [set, Table.length_insert, h]
  rfl

theorem releaseAdmission_transactions (ended : Bool) :
    (g.releaseAdmission id ended).1.transactions = g.transactions := by
  unfold releaseAdmission
  split_ifs <;> rfl

/-- without an error the fence is not held for the transaction afterwards -/
theorem releaseAdmission_held (ended : Bool) :
    (g.releaseAdmission id ended).1.heldTransaction = g.heldTransaction ∧
        ((g.releaseAdmission id ended).2 = none → g.heldTransaction ≠ id) ∨
      (g.releaseAdmission id ended).1.heldTransaction = "" := by
  unfold releaseAdmission
  split_ifs with hheld hended
  · exact .inl ⟨rfl, fun _ => hheld⟩
  · exact .inl ⟨rfl, nofun⟩
  · exact .inr rfl

theorem giveUp_held : (g.giveUp id).heldTransaction = g.heldTransaction := by
  unfold giveUp
  split <;> rfl

theorem lookup_giveUp (id x : String) :
    (g.giveUp id).transactions.lookup x =
      if x = id then (g.transactions.lookup x).map Transaction.abandon else g.transactions.lookup x := by
  unfold giveUp
  by_cases hx : x = id
  · subst hx
    cases h : g.transactions.lookup x <;> simp [h]
  · cases h : g.transactions.lookup id <;> simp [hx]

theorem length_giveUp : (g.giveUp id).transactions.entries.length = g.transactions.entries.length := by
  unfold giveUp
  cases h : g.transactions.lookup id with
  | none => rfl
  | some t => exact length_set_of_some h _

/-- another transaction holds the fence -/
def contended (g : Gate) (c : Config) (id : String) : Prop :=
    c.fenced = true ∧ g.heldTransaction ≠ "" ∧ g.heldTransaction ≠ id

instance (g : Gate) (c : Config) (id : String) : Decidable (g.contended c id) := inferInstanceAs (Decidable (_ ∧ _))

/-- the gate once another transaction has given the fence up -/
def handOver (g : Gate) (c : Config) (id : String) : Gate :=
  if g.contended c id then (g.hold "").giveUp g.heldTransaction else g

/-- the gate once the fence is raised for the transaction -/
def raised (g : Gate) (c : Config) (id : String) : Gate := if c.fenced then (g.handOver c id).hold id else g

variable (c : Config)

theorem lookup_handOver (id x : String) :
    (g.handOver c id).transactions.lookup x =
      if g.contended c id ∧ x = g.heldTransaction then (g.transactions.lookup x).map Transaction.abandon
      else g.transactions.lookup x := by
  unfold handOver
  by_cases h : g.contended c id
  · simp [h, lookup_giveUp]
  · simp [h]

theorem handOver_held (id : String) :
    (g.handOver c id).heldTransaction = g.heldTransaction ∨ (g.handOver c id).heldTransaction = "" := by
  unfold handOver
  split_ifs
  · exact .inr (giveUp_held _ _)
  · exact .inl rfl

theorem raised_transactions (id : String) : (g.raised c id).transactions = (g.handOver c id).transactions := by
  unfold raised
  split_ifs with hfenced
  · rfl
  · rw [handOver, if_neg fun h => hfenced h.1]

/-- raising the fence for a transaction leaves the transaction as it is -/
theorem lookup_raised {g : Gate} {c : Config} {id : String} (h : g.transactions.lookup id = some t) :
    (g.raised c id).transactions.lookup id = some t := by
  rw [raised_transactions, lookup_handOver, if_neg, h]
  rintro ⟨hcontended, heq⟩
  exact hcontended.2.2 heq.symm

theorem abandonHeld_cases (ended : Bool) :
    g.abandonHeld ended = (g, some .endUpdate) ∨
      g.abandonHeld ended = ((g.hold "").giveUp g.heldTransaction, none) := by
  cases ended with
  | false => exact .inl (by simp [abandonHeld, releaseAdmission])
  | true => exact .inr (by simp [abandonHeld, releaseAdmission])

theorem expireAdmission_cases (ended persisted : Bool) :
    g.expireAdmission ended persisted = (g, none) ∨ g.heldTransaction ≠ "" ∧ g.expireAdmission ended persisted =
      ((g.hold "").giveUp g.heldTransaction,
        if persisted then some ((g.hold "").giveUp g.heldTransaction).transactions else none) := by
  unfold expireAdmission
  by_cases hheld : g.heldTransaction = ""
  · rw [if_pos hheld]
    exact .inl rfl
  rw [if_neg hheld]
  rcases g.abandonHeld_cases ended with h | h
  · rw [h]
    exact .inl rfl
  · rw [h]
    exact .inr ⟨hheld, rfl⟩

theorem raise_cases (id : String) (o : Outcome) :
    g.raise c id o = (g.raised c id, none) ∨ ∃ err, g.raise c id o = (g, some err) ∨
      g.raise c id o = (g.handOver c id, some err) := by
  unfold raise raised
  by_cases hfenced : c.fenced = true
  · have hother : (g.heldTransaction != "" && g.heldTransaction != id) = decide (g.contended c id) := by
      rw [Bool.eq_iff_iff]
      simp [contended, hfenced]
    rw [if_neg (by simp [hfenced]), if_pos hfenced, hother]
    by_cases hcontended : g.contended c id
    · have hover : g.handOver c id = (g.hold "").giveUp g.heldTransaction := if_pos hcontended
      simp only [hcontended, decide_true, if_true]
      rcases g.abandonHeld_cases o.endHeld with h | h
      · exact .inr ⟨_, .inl (by rw [h])⟩
      · rw [h, hover]
        cases o.beginUpdate with
        | false => exact .inr ⟨_, .inr rfl⟩
        | true => exact .inl rfl
    · have hover : g.handOver c id = g := if_neg hcontended
      simp only [hcontended, decide_false, Bool.false_eq_true, if_false, hover]
      cases o.beginUpdate with
      | false => exact .inr ⟨_, .inl rfl⟩
      | true => exact .inl rfl
  · rw [if_pos (by simp [hfenced]), if_neg hfenced]
    exact .inl rfl

end Gate

/-! ## What a request comes to -/

open Gate

/-- everything a request can come to before the write, with what was checked for it -/
inductive Stages (c : Config) (g : Gate) (r : Request) (o : Outcome) : Staged → Prop
  | refused (errs : List Failure) : Stages c g r o (.done g (.error errs))
  | found (hop : r.operation ≠ .commit ∧ r.operation ≠ .rollback) : Stages c g r o (.done g (.ok c.target))
  | again {t : Transaction} (hop : r.operation = .commit) (ht : g.transactions.lookup r.transactionID = some t)
      (hcommitted : t.committed = true) :
      Stages c g r o (.done (g.releaseAdmission r.transactionID o.endOwn).1
        (settled c (g.releaseAdmission r.transactionID o.endOwn).2))
  | created (hop : r.operation = .target) (hnone : g.transactions.lookup r.transactionID = none)
      (hlength : g.transactions.entries.length < 128) :
      Stages c g r o (.write (g.set r.transactionID (.fresh c r o)) (.fresh c r o))
  | bound {t : Transaction} (hop : r.operation = .candidate) (ht : g.transactions.lookup r.transactionID = some t)
      (hopen : t.committed = false ∧ t.rolledBack = false) :
      Stages c g r o (.write (g.set r.transactionID (t.bind r)) (t.bind r))
  | undrained {t : Transaction} {g' : Gate} (errs : List Failure) (hop : r.operation = .drain)
      (ht : g.transactions.lookup r.transactionID = some t) (hopen : t.committed = false ∧ t.rolledBack = false)
      (htransactions : g' = g ∨ g'.transactions = (g.handOver c r.transactionID).transactions)
      (hheld : g'.heldTransaction = g.heldTransaction ∨ g'.heldTransaction = "" ∨
        g'.heldTransaction = r.transactionID) :
      Stages c g r o (.done g' (.error errs))
  | drained {t : Transaction} (hop : r.operation = .drain) (ht : g.transactions.lookup r.transactionID = some t)
      (hopen : t.committed = false ∧ t.rolledBack = false) (hbound : t.policyBound = true)
      (hworkloads : ¬(o.workloads.generation = 0 ∧ o.workloads.protectedCount ≠ 0)) :
      Stages c g r o (.write ((g.raised c r.transactionID).set r.transactionID (t.drain o.workloads))
        (t.drain o.workloads))
  | watched {t : Transaction} (hop : r.operation = .stability) (ht : g.transactions.lookup r.transactionID = some t)
      (hdrained : t.drained = true) : Stages c g r o (.write g t)
  | rolledBack {t : Transaction} (hop : r.operation = .rollback) (ht : g.transactions.lookup r.transactionID = some t)
      (hopen : t.committed = false) : Stages c g r o (.write (g.set r.transactionID t.rollBack) t.rollBack)
  | committed {t : Transaction} (hop : r.operation = .commit) (ht : g.transactions.lookup r.transactionID = some t)
      (hdrained : t.drained = true) : Stages c g r o (.write (g.set r.transactionID t.commit) t.commit)

section Stages

variable {c : Config} {g : Gate} {r : Request} {o : Outcome}

theorem onTransaction_stages {f : Transaction → Staged}
    (h : ∀ t, g.transactions.lookup r.transactionID = some t → Stages c g r o (f t)) :
      Stages c g r o (g.onTransaction r f) := by
  unfold onTransaction
  cases ht : g.transactions.lookup r.transactionID with
  | none => exact .refused _
  | some t => exact h t ht

theorem target_stages (hop : r.operation = .target) : Stages c g r o (g.target c r o) := by
  unfold target
  cases ht : g.transactions.lookup r.transactionID with
  | some t =>
    dsimp only
    split_ifs
    · exact .refused _
    · exact .found (by simp [hop])
  | none =>
    split_ifs with hfull
    · exact .refused _
    · exact .created hop ht (by omega)

section

variable {t : Transaction} (ht : g.transactions.lookup r.transactionID = some t)
include ht

theorem candidate_stages (hop : r.operation = .candidate) : Stages c g r o (g.candidate c r o t) := by
  unfold candidate
  split_ifs with hrefused
  · exact .refused _
  · simp only [Bool.or_eq_true, not_or, Bool.not_eq_true] at hrefused
    cases o.probe with
    | some err => exact .refused _
    | none => exact .bound hop ht hrefused.1.1

theorem drain_stages (hop : r.operation = .drain) : Stages c g r o (g.drain c r o t) := by
  unfold drain
  by_cases hrefused : (t.committed || t.rolledBack || !t.policyBound || !t.isFor c r) = true
  · rw [if_pos hrefused]
    exact .refused _
  rw [if_neg hrefused]
  simp only [Bool.or_eq_true, not_or, Bool.not_eq_true, Bool.not_eq_false'] at hrefused
  obtain ⟨⟨hopen, hbound⟩, -⟩ := hrefused
  rcases g.raise_cases c r.transactionID o with h | ⟨err, h | h⟩
  · rw [h]
    split_ifs with hworkloads
    · refine .undrained _ hop ht hopen (.inr ?_) ?_
      · rw [releaseAdmission_transactions, raised_transactions]
      · rcases releaseAdmission_held (g.raised c r.transactionID) r.transactionID o.endOwn with hheld | hheld
        · rw [hheld.1, raised]
          split_ifs
          · exact .inr (.inr rfl)
          · exact .inl rfl
        · exact .inr (.inl hheld)
    · exact .drained hop ht hopen hbound hworkloads
  · rw [h]
    exact .refused _
  · rw [h]
    exact .undrained _ hop ht hopen (.inr rfl) ((g.handOver_held c r.transactionID).imp_right .inl)

theorem stability_stages (hop : r.operation = .stability) : Stages c g r o (g.stability c r o t) := by
  unfold stability
  split
  · exact .refused _
  next hrefused =>
    split
    · exact .refused _
    · cases o.probe with
      | some err => exact .refused _
      | none =>
        split_ifs with hcommitted
        · exact .found (by simp [hop])
        · refine .watched hop ht ?_
          cases hdrained : t.drained
          · simp [hcommitted, hdrained] at hrefused
          · rfl

theorem rollback_stages (hop : r.operation = .rollback) : Stages c g r o (g.rollback c r o t) := by
  unfold rollback
  split_ifs with hrefused
  · exact .refused _
  · simp only [Bool.or_eq_true, not_or, Bool.not_eq_true] at hrefused
    cases o.probe with
    | some err => exact .refused _
    | none => exact .rolledBack hop ht hrefused.1.1.1

theorem commit_stages (hop : r.operation = .commit) : Stages c g r o (g.commit c r o t) := by
  unfold commit
  split_ifs with hcommitted hfor hrefused hfence
  · exact .again hop ht hcommitted
  · exact .refused _
  · exact .refused _
  · exact .refused _
  · simp only [Bool.or_eq_true, not_or, Bool.not_eq_true, Bool.not_eq_false'] at hrefused
    exact .committed hop ht hrefused.1.2

end

theorem stage_stages : Stages c g r o (g.stage c r o) := by
  unfold stage
  cases hop : r.operation with
  | target => exact target_stages hop
  | candidate => exact onTransaction_stages fun _ ht => candidate_stages ht hop
  | drain => exact onTransaction_stages fun _ ht => drain_stages ht hop
  | stability => exact onTransaction_stages fun _ ht => stability_stages ht hop
  | rollback => exact onTransaction_stages fun _ ht => rollback_stages ht hop
  | commit => exact onTransaction_stages fun _ ht => commit_stages ht hop

/-- without a write the transactions stay, or another one gives the fence up -/
theorem Stages.done_transactions {g' : Gate} {reply : Reply} (hs : Stages c g r o (.done g' reply)) :
    g'.transactions = g.transactions ∨ g'.transactions = (g.handOver c r.transactionID).transactions := by
  cases hs with
  | refused | found => exact .inl rfl
  | again => exact .inl (releaseAdmission_transactions ..)
  | undrained _ _ _ _ htransactions => exact htransactions.imp_left (congrArg _)

end Stages

/-- everything a request can come to -/
inductive Handles (c : Config) (g : Gate) (r : Request) (o : Outcome) : Handled → Prop
  | invalid : Handles c g r o ⟨g, none, .error [.unavailable]⟩
  | elsewhere : Handles c g r o ⟨g.purge o.now, none, .error [.unavailable]⟩
  | done {g' : Gate} {reply : Reply} (hr : r.validate = true) (ha : r.aimed c = true)
      (hs : Stages c (g.purge o.now) r o (.done g' reply)) : Handles c g r o ⟨g', none, reply⟩
  | unwritten {g' : Gate} {t : Transaction} (hr : r.validate = true) (ha : r.aimed c = true)
      (hs : Stages c (g.purge o.now) r o (.write g' t)) :
      Handles c g r o ⟨(g'.unwritten r o t).1, none, (g'.unwritten r o t).2⟩
  | written {g' : Gate} {t : Transaction} (hr : r.validate = true) (ha : r.aimed c = true)
      (hs : Stages c (g.purge o.now) r o (.write g' t)) :
      Handles c g r o ⟨(g'.written c r o).1, some g'.transactions, (g'.written c r o).2⟩

theorem handle_handles (c : Config) (g : Gate) (r : Request) (o : Outcome) :
    Handles c g r o (g.handleUpdateGate c r o) := by
  unfold handleUpdateGate
  by_cases hr : r.validate = true
  · by_cases ha : r.aimed c = true
    · simp only [hr, ha, Bool.not_true, Bool.false_eq_true, if_false]
      have hs : Stages c (g.purge o.now) r o ((g.purge o.now).stage c r o) := stage_stages
      generalize (g.purge o.now).stage c r o = st at hs ⊢
      cases st with
      | done g' reply => exact .done hr ha hs
      | write g' t =>
        simp only [Staged.finish]
        split_ifs
        · exact .written hr ha hs
        · exact .unwritten hr ha hs
    · simp only [hr, ha, Bool.not_true, Bool.not_false, Bool.false_eq_true, if_false, if_true]
      exact .elsewhere
  · simp only [hr, Bool.not_false, if_true]
    exact .invalid

theorem Gate.written_transactions (g : Gate) (c : Config) (r : Request) (o : Outcome) :
    (g.written c r o).1.transactions = g.transactions := by
  unfold written
  split_ifs
  · exact releaseAdmission_transactions _ _ _
  · rfl

end Paperboat.Standalone
