/-
What becomes the active configuration of a server session, in every run.

Results:
- `step_change`: everything an operation can do to what a session holds;
- `History`: an active configuration was offered, then acknowledged, then reported
  ready;
- `active_generations`: so it is in every run, whatever the peer sends; and the active
  generation does not decrease as long as no acknowledgement makes a pending snapshot
  the candidate that is older than the active configuration, which is the exact
  condition.

Witnesses:
- `active_generations_first`: the first configuration is offered, acknowledged and
  reported ready;
- `late_ack_lowers`: an offer below the candidate, acknowledged after the candidate has
  become active, lowers it.
-/
import Paperboat.Connector.Server

namespace Paperboat.Connector

open Machine ServerSession

/-! ## Steps -/

/-- what a session is about: whose it is, its configurations and its drain -/
structure Held where
  identity : Binding
  capabilities : List String
  drain : Option Drain
  pendingSnapshot : Option Snapshot
  pendingDelta : Option Delta
  candidate : Option Snapshot
  active : Option Snapshot

def ServerSession.held (s : ServerSession) : Held :=
  ⟨s.identity, s.capabilities, s.drain, s.pendingSnapshot, s.pendingDelta, s.candidate, s.active⟩

/-- the peer has the configuration: applied now, or before -/
def Ack.positive (a : Ack) : Bool := a.status = .applied ∨ a.status = .duplicate

/-- a positive acknowledgement of this configuration -/
structure Confirms (a : Ack) (kind : AckKind) (generation : UInt64) (contentHash : String) : Prop where
  kind : a.kind = kind
  generation : a.generation = generation
  contentHash : a.contentHash = contentHash
  positive : a.positive = true

/-- a report that this configuration is ready in every respect -/
structure Reports (r : Readiness) (generation : UInt64) (contentHash : String) : Prop where
  generation : r.generation = generation
  contentHash : r.contentHash = contentHash
  ready : r.allReady = true

/-- what an operation can do to what a session holds -/
inductive Change (k : PayloadChecks) (s : ServerSession) : ServerOp → Held → Prop
  | keeps (op) : Change k s op s.held
  | offers {now registered o} (newer : ∀ a, s.active = some a → a.generation < o.generation)
      (accepted : (s.offerSnapshot k now registered o).2 = .ok ()) :
      Change k s (.offerSnapshot now registered o)
        { s.held with pendingSnapshot := some (o.bind s.identity), pendingDelta := none }
  | offersDelta {now registered d} (valid : d.generation = d.previousGeneration + 1)
      (idle : s.pendingSnapshot = none ∧ s.candidate = none) (follows : s.follows d = true)
      (accepted : (s.offerDelta k now registered d).2 = .ok ()) :
      Change k s (.offerDelta now registered d)
        { s.held with pendingDelta := some { d with toBinding := { s.identity with tunnelID := d.tunnelID } } }
  | drains {now later registered drainID deadline force d} (free : s.drain = none)
      (begun : (s.beginDrain now later registered drainID deadline force).2 = .ok d)
        (binding : d.toBinding = s.identity)
      (formed : d.wellFormed = true) (capable : s.capabilities.contains capabilityDrain = true) :
      Change k s (.beginDrain now later registered drainID deadline force) { s.held with drain := some d }
  | refuses (op) : Change k s op { s.held with pendingSnapshot := none }
  | refusesDelta (op) : Change k s op { s.held with pendingDelta := none }
  | stages {now registered a p} (pending : s.pendingSnapshot = some p)
      (confirms : Confirms a .snapshot p.generation p.contentHash) :
      Change k s (.handleAck now registered a) { s.held with candidate := some p, pendingSnapshot := none }
  | stagesDelta {now registered a d} (idle : s.pendingSnapshot = none) (pending : s.pendingDelta = some d)
      (confirms : Confirms a .delta d.generation d.contentHash) (nonzero : a.generation ≠ 0) :
      Change k s (.handleAck now registered a)
        { s.held with candidate := some (d.target s.identity), pendingDelta := none }
  | promotes {now registered r c} (candidate : s.candidate = some c) (reports : Reports r c.generation c.contentHash) :
      Change k s (.handleReadiness now registered r) { s.held with active := some c, candidate := none }

section

variable {k : PayloadChecks} {s : ServerSession} {now : Time} {registered : Bool} {s' : ServerSession}
    {e : ProtocolError}

/-- a session that does not go on is closed, and otherwise as it was -/
theorem ensureActive_error (h : s.ensureActiveLocked now registered = .error (s', e)) :
    ∃ reason, s' = { s with state := .closed, disconnectReason := reason } := by
  have hclose (reason : DisconnectReason) :
      ∃ reason', s.closeLocked reason = { s with state := .closed, disconnectReason := reason' } := by
    unfold closeLocked
    split_ifs with hs
    · exact ⟨s.disconnectReason, by rw [← hs]⟩
    · exact ⟨some reason, rfl⟩
  unfold ensureActiveLocked at h
  split_ifs at h with hs
  · cases h
    exact ⟨s.disconnectReason, by rw [← hs]⟩
  · cases h
    exact hclose _
  · cases h
    exact hclose _

theorem keeps_of_error (op : ServerOp)
    (h : s.ensureActiveLocked now registered = .error (s', e)) : Change k s op s'.held := by
  obtain ⟨reason, rfl⟩ := ensureActive_error h
  exact .keeps op

@[simp] theorem awaitReady_held : s.awaitReady.held = s.held := by
  unfold awaitReady
  split_ifs <;> rfl

variable {a : Ack}

theorem positive_of_not (hrequired : a.status ≠ .snapshotRequired) (hrejected : a.status ≠ .rejected) :
    a.positive = true := by
  unfold Ack.positive
  revert hrequired hrejected
  cases a.status <;> simp

theorem ackSnapshot_change {p : Snapshot} (hp : s.pendingSnapshot = some p) :
    Change k s (.handleAck now registered a) (s.ackSnapshot p a).1.held := by
  unfold ackSnapshot
  split
  · exact .keeps _
  rename_i hnamed
  split
  · exact .refuses _
  rename_i hstatus
  rw [awaitReady_held]
  simp only [ne_eq, not_or, not_not] at hnamed hstatus
  exact .stages hp ⟨hnamed.1, hnamed.2.1, hnamed.2.2, positive_of_not hstatus.1 hstatus.2⟩

theorem ackDelta_change {d : Delta} (hidle : s.pendingSnapshot = none) (hd : s.pendingDelta = some d)
    (ha : a.generation ≠ 0) : Change k s (.handleAck now registered a) (s.ackDelta d a).1.held := by
  unfold ackDelta
  split_ifs with hnamed hrequired hrejected hgap
  · exact .keeps _
  · exact .refusesDelta _
  · exact .refusesDelta _
  · exact .refusesDelta _
  · rw [awaitReady_held]
    simp only [ne_eq, not_or, not_not] at hnamed
    exact .stagesDelta hidle hd ⟨hnamed.1, hnamed.2.1, hnamed.2.2, positive_of_not hrequired hrejected⟩ ha

theorem handleAck_change (a : Ack) :
    Change k s (.handleAck now registered a) (s.handleAck now registered a).1.held := by
  unfold handleAck
  repeat' split
  any_goals exact .keeps _
  · rename_i h
    exact keeps_of_error _ h
  · rename_i p _ hp
    exact ackSnapshot_change hp
  · rename_i hvalid _ _ _ _ _ _ d hidle hd
    refine ackDelta_change hidle hd ?_
    simp only [Bool.not_eq_true', Bool.not_eq_false] at hvalid
    simp only [Ack.valid, Bool.and_eq_true, bne_iff_ne] at hvalid
    exact hvalid.1.1.2

theorem handleReadiness_change (r : Readiness) :
    Change k s (.handleReadiness now registered r) (s.handleReadiness now registered r).1.held := by
  unfold handleReadiness
  repeat' split
  any_goals exact .keeps _
  · rename_i h
    exact keeps_of_error _ h
  rename_i current hcurrent hnamed hready
  simp only [not_or, not_not] at hnamed
  cases hc : s.candidate with
  | some c =>
    rw [hc] at hcurrent
    cases hcurrent
    exact .promotes hc ⟨hnamed.1, hnamed.2, by simpa using hready⟩
  | none =>
    -- a repeated report of the active configuration
    rw [hc] at hcurrent
    have heq : s.held = { s.held with candidate := none, active := some current } := by
      unfold held
      rw [hc, show s.active = some current from hcurrent]
    have hkeeps : Change k s (.handleReadiness now registered r) s.held := .keeps _
    rw [heq] at hkeeps
    exact hkeeps

theorem newer_of_unknown {g : UInt64} (hold : ¬ (s.active.any fun a => decide (g < a.generation)) = true)
    (hknown : s.known g = none) (a : Snapshot) (ha : s.active = some a) : a.generation < g := by
  unfold known at hknown
  simp only [Option.orElse_eq_orElse, Option.orElse_eq_or, Option.or_eq_none_iff, Option.filter_eq_none_iff] at hknown
  have hne : ¬ (a.generation == g) = true := hknown.2.1 a ha
  rw [ha, Option.any_some, decide_eq_true_eq, UInt64.not_lt] at hold
  exact UInt64.lt_of_le_of_ne hold (by simpa using hne)

theorem offerSnapshot_change (o : Snapshot) :
    Change k s (.offerSnapshot now registered o) (s.offerSnapshot k now registered o).1.held := by
  generalize hr : s.offerSnapshot k now registered o = r
  have haccepted := congrArg Prod.snd hr
  unfold offerSnapshot at hr
  repeat' split at hr
  all_goals subst hr
  any_goals exact .keeps _
  · rename_i h
    exact keeps_of_error _ h
  all_goals
    rename_i hold _ hknown _
    exact .offers (newer_of_unknown hold hknown) haccepted

theorem offerDelta_change (d : Delta) :
    Change k s (.offerDelta now registered d) (s.offerDelta k now registered d).1.held := by
  generalize hr : s.offerDelta k now registered d = r
  have haccepted := congrArg Prod.snd hr
  unfold offerDelta at hr
  repeat' split at hr
  all_goals subst hr
  any_goals exact .keeps _
  · rename_i h
    exact keeps_of_error _ h
  · rename_i hvalid _ _ _ _ hidle hfollows
    simp only [Delta.valid, Bool.not_eq_true', Bool.not_eq_false, Bool.and_eq_true, beq_iff_eq] at hvalid
    simp only [Bool.or_eq_true, not_or, Bool.not_eq_true, Option.isSome_eq_false_iff,
      Option.isNone_iff_eq_none] at hidle
    simp only [not_or, Bool.not_eq_true', Bool.not_eq_false] at hfollows
    exact .offersDelta hvalid.1.2 ⟨hidle.1.1, hidle.2⟩ hfollows.2.2 haccepted

theorem handleHeartbeat_change (h : Heartbeat) :
    Change k s (.handleHeartbeat now registered h) (s.handleHeartbeat now registered h).1.held := by
  unfold handleHeartbeat
  repeat' split
  any_goals exact .keeps _
  rename_i h
  exact keeps_of_error _ h

theorem beginDrain_change (later : Time) (drainID : String) (deadline : Time) (force : Bool) :
    Change k s (.beginDrain now later registered drainID deadline force)
        (s.beginDrain now later registered drainID deadline force).1.held := by
  generalize hr : s.beginDrain now later registered drainID deadline force = r
  have hbegun := congrArg Prod.snd hr
  unfold beginDrain at hr
  dsimp only at hr
  repeat' split at hr
  all_goals subst hr
  any_goals exact .keeps _
  · rename_i h
    exact keeps_of_error _ h
  · rename_i hcapable _ hfree _ _ _ _ hvalid
    simp only [Drain.valid, Bool.not_eq_true', Bool.not_eq_false, Bool.and_eq_true] at hvalid
    exact .drains hfree hbegun rfl hvalid.1 (by simpa using hcapable)

theorem handleDrainAck_change (a : DrainAck) :
    Change k s (.handleDrainAck now registered a) (s.handleDrainAck now registered a).1.held := by
  unfold handleDrainAck
  split
  · exact .keeps _
  split
  · rename_i h
    exact keeps_of_error _ h
  repeat (split; · exact .keeps _)
  unfold drainAnswered
  cases a.status <;> exact .keeps _

theorem step_change (op : ServerOp) : Change k s op (s.step k op).held := by
  cases op with
  | offerSnapshot now registered o => exact offerSnapshot_change o
  | offerDelta now registered d => exact offerDelta_change d
  | handleAck now registered a => exact handleAck_change a
  | handleReadiness now registered r => exact handleReadiness_change r
  | handleHeartbeat now registered h => exact handleHeartbeat_change h
  | beginDrain now later registered drainID deadline force => exact beginDrain_change later drainID deadline force
  | handleDrainAck now registered a => exact handleDrainAck_change a
  | checkLease now registered =>
    simp only [step]
    split
    · rename_i h
      exact keeps_of_error _ h
    · exact .keeps _
  | close reason =>
    simp only [step, closeLocked]
    split_ifs <;> exact .keeps _

end

/-! ## History -/

/-- the operation is an offer of this configuration that the session accepts -/
def Offers (k : PayloadChecks) (s : ServerSession) (g : UInt64) (h : String) : ServerOp → Prop
  | .offerSnapshot now registered o =>
    o.generation = g ∧ o.contentHash = h ∧ (s.offerSnapshot k now registered o).2 = .ok ()
  | .offerDelta now registered d => d.generation = g ∧ d.contentHash = h ∧ (s.offerDelta k now registered d).2 = .ok ()
  | _ => False

section

variable (k : PayloadChecks) (s₀ : ServerSession)

/-- the server has offered the configuration: the first snapshot, or an offer since -/
def Offered (g : UInt64) (h : String) (ops : List ServerOp) : Prop :=
  (∃ p, s₀.pendingSnapshot = some p ∧ p.generation = g ∧ p.contentHash = h) ∨
    Happens (fun pre op => Offers k (run (·.step k) s₀ pre) g h op) ops

/-- the peer has acknowledged the configuration after it was offered -/
def Acknowledged (g : UInt64) (h : String) : List ServerOp → Prop :=
  Happens fun pre op => Offered k s₀ g h pre ∧
    ∃ now registered a kind, op = .handleAck now registered a ∧ Confirms a kind g h

/-- the peer has reported the configuration ready after it acknowledged it -/
def Reported (g : UInt64) (h : String) : List ServerOp → Prop :=
  Happens fun pre op => Acknowledged k s₀ g h pre ∧
    ∃ now registered r, op = .handleReadiness now registered r ∧ Reports r g h

/-- where the configurations of a session come from -/
structure History (ops : List ServerOp) (c : Held) : Prop where
  pending : ∀ p, c.pendingSnapshot = some p → Offered k s₀ p.generation p.contentHash ops
  delta : ∀ d, c.pendingDelta = some d → Offered k s₀ d.generation d.contentHash ops
  candidate : ∀ c', c.candidate = some c' → Acknowledged k s₀ c'.generation c'.contentHash ops
  active : ∀ a, c.active = some a → Reported k s₀ a.generation a.contentHash ops

end

section

variable {k : PayloadChecks} {s₀ s : ServerSession} {ops : List ServerOp} {g : UInt64} {h : String}

theorem Offered.snoc (ho : Offered k s₀ g h ops) (op : ServerOp) : Offered k s₀ g h (ops ++ [op]) :=
  ho.imp id fun hh => happens_snoc.2 (.inl hh)

variable {op : ServerOp}

variable {c : Held}

/-- a longer run has the history of the shorter one -/
theorem History.snoc (hh : History k s₀ ops c) (op : ServerOp) : History k s₀ (ops ++ [op]) c where
  pending p hp := (hh.pending p hp).snoc op
  delta d hd := (hh.delta d hd).snoc op
  candidate c hc := happens_snoc.2 (.inl (hh.candidate c hc))
  active a ha := happens_snoc.2 (.inl (hh.active a ha))

theorem Change.history (hc : Change k (run (·.step k) s₀ ops) op c)
    (hh : History k s₀ ops (run (·.step k) s₀ ops).held) : History k s₀ (ops ++ [op]) c := by
  have hold := hh.snoc op
  cases hc with
  | keeps => exact hold
  | drains => exact { hold with }
  | offers newer accepted =>
    refine ⟨fun p hp => ?_, nofun, hold.candidate, hold.active⟩
    cases hp
    exact .inr (happens_snoc.2 (.inr ⟨rfl, rfl, accepted⟩))
  | offersDelta valid idle follows accepted =>
    refine ⟨hold.pending, fun d hd => ?_, hold.candidate, hold.active⟩
    cases hd
    exact .inr (happens_snoc.2 (.inr ⟨rfl, rfl, accepted⟩))
  | refuses => exact ⟨nofun, hold.delta, hold.candidate, hold.active⟩
  | refusesDelta => exact ⟨hold.pending, nofun, hold.candidate, hold.active⟩
  | stages pending confirms =>
    refine ⟨nofun, hold.delta, fun c hc => ?_, hold.active⟩
    cases hc
    exact happens_snoc.2 (.inr ⟨hh.pending _ pending, _, _, _, _, rfl, confirms⟩)
  | stagesDelta idle pending confirms nonzero =>
    refine ⟨hold.pending, nofun, fun c hc => ?_, hold.active⟩
    cases hc
    exact happens_snoc.2 (.inr ⟨hh.delta _ pending, _, _, _, _, rfl, confirms⟩)
  | promotes candidate reports =>
    refine ⟨hold.pending, hold.delta, nofun, fun a ha => ?_⟩
    cases ha
    exact happens_snoc.2 (.inr ⟨hh.candidate _ candidate, _, _, _, rfl, reports⟩)

/-! ## Generations -/

/-- the second configuration is there if the first is, and not older -/
def NotBelow (a b : Option Snapshot) : Prop := ∀ x, a = some x → ∃ y, b = some y ∧ x.generation ≤ y.generation

/-- no acknowledgement makes a pending snapshot the candidate that is older than the active configuration -/
def InOrder (s : ServerSession) (op : ServerOp) : Prop :=
  ∀ now registered a p act, op = .handleAck now registered a → s.pendingSnapshot = some p →
    Confirms a .snapshot p.generation p.contentHash → s.active = some act → act.generation ≤ p.generation

/-- a candidate is not older than the active configuration, and a pending delta is the next one -/
structure Ordered (c : Held) : Prop where
  candidate : ∀ c' a, c.candidate = some c' → c.active = some a → a.generation ≤ c'.generation
  delta : ∀ d, c.pendingDelta = some d →
    c.candidate = none ∧ c.pendingSnapshot = none ∧ ∃ a, c.active = some a ∧ d.generation = a.generation + 1

theorem le_succ_of_ne_zero {n : UInt64} (h : n + 1 ≠ 0) : n ≤ n + 1 := by
  rw [UInt64.le_iff_toNat_le]
  have hne : (n + 1).toNat ≠ 0 := fun h0 => h (UInt64.toNat_inj.1 (by simpa using h0))
  rw [UInt64.toNat_add] at hne ⊢
  have := n.toNat_lt
  simp only [UInt64.toNat_one] at hne ⊢
  omega

theorem active_of_follows {d : Delta} (h : s.follows d = true) :
    ∃ a, s.active = some a ∧ d.previousGeneration = a.generation := by
  unfold follows at h
  cases ha : s.active with
  | none => simp [ha] at h
  | some a =>
    simp only [ha, Option.any_some, Bool.and_eq_true, beq_iff_eq] at h
    exact ⟨a, rfl, h.1⟩

theorem Change.ordered (hc : Change k s op c) (ho : Ordered s.held) (hop : InOrder s op) : Ordered c := by
  cases hc with
  | keeps => exact ho
  | drains => exact ⟨ho.candidate, ho.delta⟩
  | offers | refusesDelta => exact ⟨ho.candidate, nofun⟩
  | @offersDelta now registered d valid idle follows accepted =>
    refine ⟨ho.candidate, fun d' hd' => ?_⟩
    cases hd'
    obtain ⟨a, ha, hprev⟩ := active_of_follows follows
    exact ⟨idle.2, idle.1, a, ha, by rw [← hprev]; exact valid⟩
  | refuses => exact ⟨ho.candidate, fun d hd => ⟨(ho.delta d hd).1, rfl, (ho.delta d hd).2.2⟩⟩
  | @stages now registered a p pending confirms =>
    refine ⟨fun c' act hc' hact => ?_, fun d hd => ?_⟩
    · cases hc'
      exact hop now registered a p act rfl pending confirms hact
    · cases pending.symm.trans (ho.delta d hd).2.1
  | @stagesDelta now registered a d idle pending confirms nonzero =>
    refine ⟨fun c' act hc' hact => ?_, nofun⟩
    cases hc'
    obtain ⟨_, _, act', hact', hnext⟩ := ho.delta d pending
    cases hact.symm.trans hact'
    have hne : act.generation + 1 ≠ 0 := by rw [← hnext, ← confirms.generation]; exact nonzero
    show act.generation ≤ d.generation
    rw [hnext]
    exact le_succ_of_ne_zero hne
  | promotes candidate reports =>
    refine ⟨nofun, fun d hd => ?_⟩
    cases candidate.symm.trans (ho.delta d hd).1

theorem Change.notBelow (hc : Change k s op c) (ho : Ordered s.held) : NotBelow s.active c.active := by
  have hsame : NotBelow s.active s.active := fun x hx => ⟨x, hx, UInt64.le_refl _⟩
  cases hc with
  | promotes candidate reports => exact fun x hx => ⟨_, rfl, ho.candidate _ x candidate hx⟩
  | keeps | drains | offers | offersDelta | refuses | refusesDelta | stages | stagesDelta => exact hsame

/-! ## An acknowledgement and the report after it -/

variable {registered : Bool} {now : Time}

/-- what a successful acknowledgement of a pending snapshot does -/
theorem handleAck_ok {a : Ack} {p : Snapshot}
    (hok : (s.handleAck now registered a).2 = .ok ()) (hp : s.pendingSnapshot = some p) :
    a.valid = true ∧ a.toBinding = s.identity ∧ s.ensureActiveLocked now registered = .ok () ∧
      (s.handleAck now registered a).1 =
        awaitReady { s with candidate := some p, pendingSnapshot := none, needsSnapshot := false } := by
  generalize hr : s.handleAck now registered a = r at hok
  unfold handleAck at hr
  rw [hp] at hr
  dsimp only [ackSnapshot] at hr
  repeat' split at hr
  all_goals
    subst hr
    cases hok
  rename_i hvalid _ _ hactive hbinding _ _
  exact ⟨by simpa using hvalid, not_not.1 hbinding, hactive, rfl⟩

theorem ensureActive_ok_iff : s.ensureActiveLocked now registered = .ok () ↔
    s.state ≠ .closed ∧ registered = true ∧ overdue s.heartbeatIntervalMS s.lastHeartbeat now = false := by
  unfold ensureActiveLocked
  split_ifs with h1 h2 h3 <;> simp_all

theorem awaitReady_ensureActive (h : s.ensureActiveLocked now registered = .ok ()) :
    s.awaitReady.ensureActiveLocked now registered = .ok () := by
  unfold awaitReady
  split_ifs
  · exact h
  · rw [ensureActive_ok_iff] at h ⊢
    exact ⟨nofun, h.2⟩

/-- a report about the candidate that passes the checks makes it active -/
theorem handleReadiness_promotes {r : Readiness} {c : Snapshot} (hvalid : r.valid = true)
    (hactive : s.ensureActiveLocked now registered = .ok ()) (hbinding : r.toBinding = s.identity)
    (hc : s.candidate = some c) (hr : Reports r c.generation c.contentHash) :
    (s.handleReadiness now registered r).1.active = some c := by
  unfold handleReadiness
  simp [hvalid, hactive, hbinding, hc, hr.generation, hr.contentHash, hr.ready]

/-- the report of the candidate of a session that has just acknowledged it -/
theorem late_report {a : Ack} {p : Snapshot}
    (hok : (s.handleAck now registered a).2 = .ok ()) (hp : s.pendingSnapshot = some p)
    (hconfirms : Confirms a .snapshot p.generation p.contentHash) :
    ∃ r, ((s.step k (.handleAck now registered a)).step k (.handleReadiness now registered r)).active = some p := by
  obtain ⟨hvalid, hbinding, hactive, hstep⟩ := handleAck_ok hok hp
  simp only [Ack.valid, Bool.and_eq_true] at hvalid
  refine ⟨⟨s.identity, p.generation, p.contentHash, true, true, true⟩, ?_⟩
  simp only [step, hstep]
  refine handleReadiness_promotes ?_ (awaitReady_ensureActive ?_) ?_ ?_ ⟨rfl, rfl, rfl⟩
  · simp only [Readiness.valid, Bool.and_eq_true]
    exact ⟨⟨hbinding ▸ hvalid.1.1.1, hconfirms.generation ▸ hvalid.1.1.2⟩, hconfirms.contentHash ▸ hvalid.1.2⟩
  · have hopen := ensureActive_ok_iff.1 hactive
    exact ensureActive_ok_iff.2 hopen
  · exact (congrArg Held.identity (awaitReady_held (s := { s with
      candidate := some p, pendingSnapshot := none, needsSnapshot := false }))).symm
  · exact congrArg Held.candidate (awaitReady_held (s := { s with
      candidate := some p, pendingSnapshot := none, needsSnapshot := false }))

end

/-- **The active configuration of a server session.** In every run, whatever the peer sends: the active
configuration was offered by the server, acknowledged by the peer after that and reported ready after that; the
active generation does not decrease at an operation if all operations before it are in order; and an acknowledgement
that the session takes is in order just if no report after it can lower the active generation. -/
theorem active_generations (k : PayloadChecks) (identity : Binding) (capabilities : List String) (leaseDuration : Int)
    (heartbeatIntervalMS : ℕ) (leaseExpiresAt start : Time) (snapshot : Snapshot) (ops : List ServerOp) :
    let s₀ := accepted identity capabilities leaseDuration heartbeatIntervalMS leaseExpiresAt start snapshot
    let s := run (·.step k) s₀ ops
    (∀ a, s.active = some a → Reported k s₀ a.generation a.contentHash ops) ∧
      (Throughout (·.step k) s₀ InOrder ops →
        (∀ op, NotBelow s.active (s.step k op).active) ∧
        ∀ now registered a, (s.handleAck now registered a).2 = .ok () → (InOrder s (.handleAck now registered a) ↔
          ∀ r, NotBelow s.active
            ((s.step k (.handleAck now registered a)).step k (.handleReadiness now registered r)).active)) := by
  intro s₀ s
  have hhistory : History k s₀ ops s.held := by
    refine run_inv (I := fun ops s => History k s₀ ops s.held) (·.step k) s₀ ?_ (fun ops op ih => ?_) ops
    · exact ⟨fun p hp => .inl ⟨p, hp, rfl, rfl⟩, nofun, nofun, nofun⟩
    · exact (step_change op).history ih
  refine ⟨hhistory.active, fun hops => ?_⟩
  have hordered : Ordered s.held := by
    refine throughout_inv (I := fun s => Ordered s.held) (·.step k) s₀ ?_ (fun s op hop ih => ?_) hops
    · exact ⟨nofun, nofun⟩
    · exact (step_change op).ordered ih hop
  refine ⟨fun op => (step_change op).notBelow hordered, fun now registered a hok => ⟨fun hop r => ?_, fun hall => ?_⟩⟩
  · -- the acknowledgement keeps the order, so the report does not lower the generation
    have hacked := (step_change (k := k) (.handleAck now registered a)).ordered hordered hop
    intro x hx
    obtain ⟨y, hy, hxy⟩ := (step_change (k := k) (.handleAck now registered a)).notBelow hordered x hx
    obtain ⟨z, hz, hyz⟩ := (step_change (k := k) (.handleReadiness now registered r)).notBelow hacked y hy
    exact ⟨z, hz, UInt64.le_trans hxy hyz⟩
  · intro now' registered' a' p act heq hp hconfirms hact
    cases heq
    obtain ⟨r, hr⟩ := late_report (k := k) hok hp hconfirms
    obtain ⟨y, hy, hle⟩ := hall r act hact
    cases hr.symm.trans hy
    exact hle

/-! ## A late acknowledgement -/

def ackOf (generation : UInt64) : ServerOp :=
  .handleAck 10 true { connectorOne with
    kind := .snapshot, status := .applied, generation := generation, contentHash := contentOne }

def readyOf (generation : UInt64) : ServerOp :=
  .handleReadiness 10 true
    { connectorOne with
      generation := generation, contentHash := contentOne, edgeReady := true, routeReady := true,
      originReady := true }

/-- a session with the first snapshot of generation 1 -/
def sessionOne : ServerSession := .accepted connectorOne [] 1000000000000 1000 1000000000000 10 (snapshotOf 1)

/-- generation 5 is acknowledged, then generation 3 is offered, and only then is 5 reported ready -/
def lateOffer : List ServerOp := [.offerSnapshot 10 true (snapshotOf 5), ackOf 5,
    .offerSnapshot 10 true (snapshotOf 3), readyOf 5]

theorem first_inOrder : Throughout (·.step anyPayload) sessionOne InOrder [ackOf 1, readyOf 1] := by
  have hack : Throughout (·.step anyPayload) sessionOne InOrder ([] ++ [ackOf 1]) :=
    (throughout_snoc _ _).2 ⟨fun pre op h => absurd h (by simp), fun _ _ _ _ act _ _ _ hact => by cases hact⟩
  have hready : Throughout (·.step anyPayload) sessionOne InOrder ([ackOf 1] ++ [readyOf 1]) :=
    (throughout_snoc _ _).2 ⟨hack, fun _ _ _ _ _ heq => by cases heq⟩
  exact hready

theorem active_generations_first :
    let s := run (·.step anyPayload) sessionOne [ackOf 1, readyOf 1]
    Throughout (·.step anyPayload) sessionOne InOrder [ackOf 1, readyOf 1] ∧ s.active.map (·.generation) = some 1 ∧
      ∀ op, NotBelow s.active (s.step anyPayload op).active :=
  ⟨first_inOrder, by decide +kernel,
    ((active_generations anyPayload connectorOne [] 1000000000000 1000 1000000000000 10
      (snapshotOf 1) _).2 first_inOrder).1⟩

/-- the acknowledgement and the report of generation 3 lower the active generation from 5 to 3 -/
theorem late_ack_lowers :
    (run (·.step anyPayload) sessionOne lateOffer).active.map (·.generation) = some 5 ∧
      (run (·.step anyPayload) sessionOne (lateOffer ++ [ackOf 3, readyOf 3])).active.map (·.generation) = some 3 := by
  decide +kernel

end Paperboat.Connector
