/-
One connector session, both sides: a ServerSession and a ClientSession of the same
identity, and what they send each other.

A readiness report is sent when MarkReadyContext returns nil, a drain when BeginDrain
returns it. Both may be delivered any number of times, late, in any order or never, but
only if they were sent. Everything else that arrives (snapshots, deltas,
acknowledgements, heartbeats) may be anything, so in particular whatever the other side
has sent.

Results:
- `active_is_activated`: an active configuration of the server is one the client's
  applier has activated, and the client's active generation stays at least as high;
- `drain_accepted_iff`: when HandleDrain accepts a drain for the client's active
  configuration; and a drain of the server is never replaced by another one.

Witnesses:
- `active_is_activated_first`, `drain_accepted_first`: the first configuration, and a
  drain of it;
- `staged_rejects_drain`: a drain that reaches a client with a newer configuration
  staged is refused, and no later BeginDrain gets through.
-/
import Paperboat.Connector.Promotion
import Paperboat.Connector.Staging

namespace Paperboat.Connector

open Machine ClientSession

structure Joint where
  server : ServerSession
  client : Client
  /-- the readiness reports the client has sent -/
  reports : List Readiness := []
  /-- the drains the server has sent -/
  drains : List Drain := []
deriving DecidableEq, Repr

inductive JointOp where
  | server (op : ServerOp)
  | client (op : ClientOp)
deriving DecidableEq, Repr

/-- the report that a call returns with no error -/
def ClientAnswer.sends : ClientAnswer → List Readiness
  | .readiness (some r) none => [r]
  | _ => []

/-- what BeginDrain returns -/
def ServerSession.sends (s : ServerSession) : ServerOp → List Drain
  | .beginDrain now later registered drainID deadline force =>
    match (s.beginDrain now later registered drainID deadline force).2 with
    | .ok d => [d]
    | .error _ => []
  | _ => []

/-- the operation delivers nothing that was not sent -/
def Joint.delivers (j : Joint) : JointOp → Bool
  | .server (.handleReadiness _ _ r) => r ∈ j.reports
  | .client (.handleDrain _ _ d) => d ∈ j.drains
  | _ => true

def Joint.step (k : PayloadChecks) (j : Joint) (op : JointOp) : Joint :=
  if !j.delivers op then j
  else
    match op with
    | .server op => { j with server := j.server.step k op, drains := j.server.sends op ++ j.drains }
    | .client op =>
      { j with client := (j.client.perform k op).1, reports := (j.client.perform k op).2.sends ++ j.reports }

/-- the two sides after Accept and AcceptWelcome -/
def Joint.accepted (identity : Binding) (capabilities : List String) (leaseDuration : Int) (heartbeatIntervalMS : ℕ)
    (leaseExpiresAt start welcome : Time) (snapshot : Snapshot) : Joint :=
  { server := .accepted identity capabilities leaseDuration heartbeatIntervalMS leaseExpiresAt start snapshot
    client := { session := .welcomed identity capabilities heartbeatIntervalMS leaseExpiresAt welcome } }

/-! ## What the client sends -/

section

variable {k : PayloadChecks} {c : Client} {op : ClientOp} {call : Applying}

theorem begin_sends {r : ClientSession × Option ClientAnswer} (hr : ∀ a, r.2 = some a → a.sends = []) :
    (c.begin call r).2.sends = [] := by
  unfold Client.begin
  split
  · rfl
  split
  · rename_i a ha
    exact hr a ha
  · rfl

theorem finish_sends {r : Preparation} {g : UInt64} {h : String} {e : ProtocolError}
    {stage : PreparedConfig → ClientSession × Bool × ClientAnswer} (hstage : ∀ p, (stage p).2.2.sends = []) :
    (c.finish r g h e stage).2.sends = [] := by
  unfold Client.finish
  dsimp only
  split
  · rfl
  split
  · rfl
  split
  · rfl
  have hs := hstage ⟨c.returned.length, g, h⟩
  split
  all_goals
    rename_i heq
    rw [heq] at hs
    exact hs

theorem stage_sends {s : ClientSession} {now : Time} {kind : AckKind} {candidate : Snapshot} {needs : Bool}
    {p : PreparedConfig} : (s.stage now kind candidate needs p).2.2.sends = [] := by
  unfold stage
  split
  · rfl
  split <;> rfl

theorem answer_sends {r : ClientSession × ClientAnswer} (h : r.2.sends = []) : (c.answer r).2.sends = [] := h

theorem activationReturned_sends {now : Time} {succeeded canceled : Bool} {r : Readiness}
    (h : r ∈ (c.activationReturned now succeeded canceled).2.sends) :
    ∃ candidate p, c.applying = some (.activate candidate p r) ∧ c.session.isCandidate candidate = true ∧
      (c.activationReturned now succeeded canceled).1.activated = c.activated ++ [p] ∧
      (c.activationReturned now succeeded canceled).1.session.active = c.session.candidate := by
  generalize hr : c.activationReturned now succeeded canceled = result at h ⊢
  unfold Client.activationReturned at hr
  split at hr
  · rename_i candidate p readiness hwaiting
    dsimp only at hr
    split at hr
    · subst hr
      cases canceled <;> cases h
    unfold Client.answer activationDone at hr
    split at hr
    · subst hr
      cases h
    split at hr
    · subst hr
      cases h
    · rename_i hmatched
      subst hr
      obtain rfl := List.mem_singleton.1 h
      exact ⟨candidate, p, hwaiting, by simpa using hmatched, rfl, rfl⟩
  · subst hr
    cases h

/-- a report is sent at the end of a successful Activate of the candidate, and it is the report about it -/
theorem sends_activates {r : Readiness} (h : r ∈ (c.perform k op).2.sends) :
    ∃ candidate p, c.applying = some (.activate candidate p r) ∧ c.session.isCandidate candidate = true ∧
      (c.step k op).activated = c.activated ++ [p] ∧ (c.step k op).session.active = c.session.candidate := by
  have hnot {l : List Readiness} (hl : l = []) (hr : r ∈ l) : False := by
    rw [hl] at hr
    cases hr
  cases op with
  | activated now succeeded canceled => exact activationReturned_sends h
  | applySnapshot now canceled o =>
    refine (hnot (begin_sends fun a ha => ?_) h).elim
    unfold beginSnapshot at ha
    dsimp only at ha
    (repeat' split at ha) <;> cases ha <;> rfl
  | applyDelta now canceled d =>
    refine (hnot (begin_sends fun a ha => ?_) h).elim
    unfold beginDelta at ha
    (repeat' split at ha) <;> cases ha <;> rfl
  | prepared now r =>
    refine (hnot ?_ h).elim
    simp only [Client.perform, Client.prepared]
    split
    · exact finish_sends fun _ => stage_sends
    · exact finish_sends fun _ => stage_sends
    · rfl
  | markReady now canceled edgeReady routeReady originReady =>
    refine (hnot ?_ h).elim
    simp only [Client.perform, Client.markReady, beginReady]
    repeat' split
    all_goals first | rfl | (rename_i heq; (repeat' split at heq) <;> cases heq <;> rfl)
  | heartbeat now =>
    refine (hnot (answer_sends ?_) h).elim
    unfold heartbeat
    (repeat' split) <;> rfl
  | acceptHeartbeatAck now a =>
    refine (hnot (answer_sends ?_) h).elim
    unfold acceptHeartbeatAck
    (repeat' split) <;> rfl
  | handleDrain canceled now d =>
    refine (hnot ?_ h).elim
    simp only [Client.perform, Client.handleDrain]
    split
    · rename_i heq
      unfold beginDrain at heq
      (repeat' split at heq) <;> cases heq <;> rfl
    · rfl
  | drainStopped d failed =>
    refine (hnot ?_ h).elim
    simp only [Client.perform, Client.drainStopped]
    (repeat' split) <;> rfl
  | drainCounted d streams =>
    refine (hnot ?_ h).elim
    simp only [Client.perform, Client.drainCounted]
    split
    · rfl
    split
    · rfl
    · refine answer_sends ?_
      unfold drainCounted
      split <;> rfl
  | drainProgress canceled now streams forced =>
    refine (hnot (answer_sends ?_) h).elim
    unfold drainProgress
    (repeat' split) <;> rfl
  | checkLease now =>
    refine (hnot (answer_sends ?_) h).elim
    unfold checkLease
    split <;> rfl
  | close reason abortFails =>
    refine (hnot ?_ h).elim
    simp only [Client.perform, Client.close]
    (repeat' split) <;> rfl

/-! ## Generations on the client -/

def maxGeneration : UInt64 := 0xFFFFFFFFFFFFFFFF

/-- the generations of the configurations that arrive stay below the last one -/
def ClientOp.bounded : ClientOp → Prop
  | .applySnapshot _ _ o => o.generation < maxGeneration
  | .applyDelta _ _ d => d.previousGeneration < maxGeneration ∧ d.generation < maxGeneration
  | _ => True

/-- a configuration that is staged or being prepared is newer than the active one -/
structure Newer (v : View) : Prop where
  candidate : ∀ cd a, v.candidate = some cd → v.active = some a → a.generation < cd.generation
  call : ∀ call t a, v.applying = some call → call.target v.identity = some t → v.active = some a →
    a.generation < t.generation

theorem lt_succ_of_lt_max {n : UInt64} (h : n < maxGeneration) : n < n + 1 := by
  rw [UInt64.lt_iff_toNat_lt] at h ⊢
  rw [UInt64.toNat_add]
  have hmax : maxGeneration.toNat = 2 ^ 64 - 1 := rfl
  simp only [UInt64.toNat_one]
  omega

/-- what is about to be prepared is newer than the active configuration -/
theorem Fits.newer (hfits : Fits c.session call) (hsource : call.begunBy op) (hop : op.bounded)
    (h : Newer c.view) {t a : Snapshot} (ht : call.target c.session.identity = some t)
      (ha : c.session.active = some a) :
    a.generation < t.generation := by
  cases call with
  | snapshot o =>
    cases ht
    cases hc : c.session.candidate with
    | none => exact hfits a (by rw [hc, ha]; rfl)
    | some cd => exact UInt64.lt_trans (h.candidate cd a hc ha) (hfits cd (by rw [hc]; rfl))
  | delta d =>
    cases ht
    obtain ⟨_, a', ha', hprevious, hnext⟩ := hfits
    cases ha.symm.trans ha'
    obtain ⟨now, canceled, rfl⟩ := hsource d rfl
    show a.generation < d.generation
    rw [hnext]
    exact lt_succ_of_lt_max (hprevious ▸ hop.1)
  | activate candidate p r => cases ht

theorem Effect.newer {v : View} (he : Effect k c op v) (h : Newer c.view) (hop : op.bounded) : Newer v := by
  have hidle {v : View} (hv : v.applying = none) (h : ∀ cd a, v.candidate = some cd → v.active = some a →
      a.generation < cd.generation) : Newer v := ⟨h, fun _ _ _ hcall => by cases hv.symm.trans hcall⟩
  cases he with
  | idle | drains | hooks => exact ⟨h.candidate, h.call⟩
  | begins free fits source =>
    refine ⟨h.candidate, fun call t a hcall ht ha => ?_⟩
    cases hcall
    exact fits.newer source hop h ht ha
  | drops | failsLate | activatesLate => exact hidle rfl h.candidate
  | stages waiting target opened free =>
    refine hidle rfl fun cd a hcd ha => ?_
    cases hcd
    exact h.call _ _ a waiting target ha
  | fails | activates => exact hidle rfl nofun
  | closes free => exact hidle free nofun

/-- the active generation does not decrease, and what has been activated stays so -/
theorem Effect.grows {v : View} (he : Effect k c op v) (hp : Paired c.view) (h : Newer c.view) :
    NotBelow c.session.active v.active ∧ ∀ p ∈ c.activated, p ∈ v.activated := by
  have hsame : NotBelow c.session.active c.session.active := fun x hx => ⟨x, hx, UInt64.le_refl _⟩
  cases he with
  | idle | drains | hooks | begins | drops | stages | fails | failsLate | closes => exact ⟨hsame, fun _ h => h⟩
  | @activates _ _ candidate p r waiting matched =>
    have hcandidate := (hp.call candidate p r waiting).1
    exact ⟨fun a ha => ⟨candidate, hcandidate, UInt64.le_of_lt (h.candidate candidate a hcandidate ha)⟩,
      fun _ h => List.mem_append_left _ h⟩
  | activatesLate waiting refused move => exact ⟨hsame, fun _ h => List.mem_append_left _ h⟩

end

/-! ## Agreement -/

/-- the configuration is one the client's applier has activated, and the active one is not older -/
def Activated (c : Client) (g : UInt64) (h : String) : Prop :=
  (∃ p ∈ c.activated, p.generation = g ∧ p.contentHash = h) ∧ ∃ a, c.session.active = some a ∧ g ≤ a.generation

structure Agreement (j : Joint) : Prop where
  paired : Paired j.client.view
  newer : Newer j.client.view
  reported : ∀ r ∈ j.reports, Activated j.client r.generation r.contentHash
  promoted : ∀ s, j.server.active = some s → ∃ r ∈ j.reports, r.generation = s.generation ∧
    r.contentHash = s.contentHash

def JointOp.bounded : JointOp → Prop
  | .client op => op.bounded
  | .server _ => True

open Joint

section

variable {k : PayloadChecks} {j : Joint} {op : JointOp}

theorem Activated.step {c : Client} {g : UInt64} {h : String} (ha : Activated c g h) (hp : Paired c.view)
    (hn : Newer c.view) (op : ClientOp) : Activated (c.step k op) g h := by
  obtain ⟨⟨p, hmem, hfor⟩, a, hact, hle⟩ := ha
  obtain ⟨hbelow, hkept⟩ := (step_effect (k := k) (c := c) op).grows hp hn
  obtain ⟨a', ha', hle'⟩ := hbelow a hact
  exact ⟨⟨p, hkept p hmem, hfor⟩, a', ha', UInt64.le_trans hle hle'⟩

/-- a report that is sent now is about the configuration that is activated now -/
theorem activated_of_sends {c : Client} {op : ClientOp} {r : Readiness} (h : r ∈ (c.perform k op).2.sends)
    (hp : Paired c.view) : Activated (c.step k op) r.generation r.contentHash := by
  obtain ⟨candidate, p, hwaiting, _, hactivated, hactive⟩ := sends_activates h
  obtain ⟨hcandidate, hprepared, hgeneration, hhash⟩ := hp.call candidate p r hwaiting
  have hfor : p.generation = candidate.generation ∧ p.contentHash = candidate.contentHash := by
    rcases hp.pair with ⟨hnone, _⟩ | ⟨cd, p', hcd, hp', hfor⟩
    · cases hnone.symm.trans hcandidate
    · cases hcd.symm.trans hcandidate
      cases hp'.symm.trans hprepared
      exact hfor
  refine ⟨⟨p, by rw [hactivated]; simp, hfor.1.trans hgeneration.symm, hfor.2.trans hhash.symm⟩, candidate, ?_, ?_⟩
  · rw [hactive]
    exact hcandidate
  · rw [hgeneration]
    exact UInt64.le_refl _

/-- the server's active configuration changes only to one that has been reported ready -/
theorem Change.active {s : ServerSession} {op : ServerOp} {c : Held} (hc : Change k s op c) :
    c.active = s.active ∨ ∃ now registered r cd, op = .handleReadiness now registered r ∧ c.active = some cd ∧
      Reports r cd.generation cd.contentHash := by
  cases hc with
  | promotes candidate reports => exact .inr ⟨_, _, _, _, rfl, rfl, reports⟩
  | keeps | drains | offers | offersDelta | refuses | refusesDelta | stages | stagesDelta => exact .inl rfl

theorem step_agreement (hop : op.bounded) (h : Agreement j) : Agreement (j.step k op) := by
  unfold step
  split
  · exact h
  rename_i hdelivers
  cases op with
  | server op =>
    refine { h with promoted := fun s hs => ?_ }
    have hchange := (step_change (k := k) (s := j.server) op).active
    rw [show (j.server.step k op).held.active = (j.server.step k op).active from rfl, hs] at hchange
    rcases hchange with hsame | ⟨now, registered, r, cd, rfl, hcd, hreports⟩
    · exact h.promoted s hsame.symm
    · cases hcd
      have hsent : r ∈ j.reports := by simpa [delivers] using hdelivers
      exact ⟨r, hsent, hreports.generation, hreports.contentHash⟩
  | client op =>
    have heffect : Effect k j.client op (j.client.step k op).view := step_effect op
    refine ⟨heffect.paired h.paired, heffect.newer h.newer hop, fun r hr => ?_, fun s hs => ?_⟩
    · rcases List.mem_append.1 hr with hr | hr
      · exact activated_of_sends hr h.paired
      · exact (h.reported r hr).step h.paired h.newer op
    · obtain ⟨r, hr, hfor⟩ := h.promoted s hs
      exact ⟨r, List.mem_append_right _ hr, hfor⟩

theorem run_agreement {j₀ : Joint} (h : Agreement j₀) (ops : List JointOp) (hops : ∀ op ∈ ops, op.bounded) :
    Agreement (run (·.step k) j₀ ops) := by
  induction ops using List.reverseRecOn with
  | nil => exact h
  | append_singleton ops op ih =>
    rw [run_snoc]
    exact step_agreement (hops op (by simp)) (ih fun op' h' => hops op' (List.mem_append_left _ h'))

/-- the active generation of the client does not decrease along a run -/
theorem run_activated {j : Joint} (h : Agreement j) {g : UInt64} {content : String} (ha : Activated j.client g content)
    (ops : List JointOp) (hops : ∀ op ∈ ops, op.bounded) : Activated (run (·.step k) j ops).client g content := by
  induction ops using List.reverseRecOn with
  | nil => exact ha
  | append_singleton ops op ih =>
    have hpre : ∀ op ∈ ops, op.bounded := fun op' h' => hops op' (List.mem_append_left _ h')
    have hagree := run_agreement (k := k) h ops hpre
    rw [run_snoc]
    have hpast := ih hpre
    unfold step
    split
    · exact hpast
    cases op with
    | server op => exact hpast
    | client op => exact hpast.step hagree.paired hagree.newer op

theorem accepted_agreement (identity : Binding) (capabilities : List String) (leaseDuration : Int)
    (heartbeatIntervalMS : ℕ) (leaseExpiresAt start welcome : Time) (snapshot : Snapshot) :
    Agreement (.accepted identity capabilities leaseDuration heartbeatIntervalMS leaseExpiresAt
      start welcome snapshot) :=
  ⟨⟨.inl ⟨rfl, rfl⟩, nofun, nofun⟩,
    ⟨nofun, nofun⟩, nofun, nofun⟩

end

/-- **Agreement on the active configuration.** In every run of the two sides, if the server holds a configuration as
active, then the client's applier has activated a configuration prepared for exactly this generation and content,
and from then on the client's active generation is at least this one. -/
theorem active_is_activated (k : PayloadChecks) (identity : Binding) (capabilities : List String) (leaseDuration : Int)
    (heartbeatIntervalMS : ℕ) (leaseExpiresAt start welcome : Time) (snapshot : Snapshot) (ops more : List JointOp)
    (hops : ∀ op ∈ ops ++ more, op.bounded) :
    let j₀ := accepted identity capabilities leaseDuration heartbeatIntervalMS leaseExpiresAt start welcome snapshot
    ∀ s, (run (·.step k) j₀ ops).server.active = some s →
      (∃ p ∈ (run (·.step k) j₀ ops).client.activated, p.generation = s.generation ∧ p.contentHash = s.contentHash) ∧
        ∃ a, (run (·.step k) j₀ (ops ++ more)).client.session.active = some a ∧ s.generation ≤ a.generation := by
  intro j₀ s hs
  have h := run_agreement (k := k) (accepted_agreement identity capabilities leaseDuration heartbeatIntervalMS
    leaseExpiresAt start welcome snapshot) ops fun op h' => hops op (List.mem_append_left _ h')
  obtain ⟨r, hr, hgeneration, hhash⟩ := h.promoted s hs
  have hnow := h.reported r hr
  have hlater := run_activated (k := k) h hnow more fun op h' => hops op (List.mem_append_right _ h')
  refine ⟨?_, ?_⟩
  · rw [← hgeneration, ← hhash]
    exact hnow.1
  · rw [← hgeneration, run_append]
    exact hlater.2

def jointOne : Joint := .accepted connectorOne [capabilityDrain] 1000000000000 1000 1000000000000 10 10 (snapshotOf 1)

def applyOf (generation : UInt64) : List JointOp :=
  [.client (.applySnapshot 10 false ((snapshotOf generation).bind connectorOne)),
    .client (.prepared 10 { prepared := true })]

/-- the first snapshot is applied and acknowledged, activated and reported -/
def activateOne : List JointOp :=
  applyOf 1 ++ [.server (ackOf 1), .client (.markReady 10 false true true true), .client (.activated 10 true false),
    .server (readyOf 1)]

theorem activateOne_bounded : ∀ op ∈ activateOne ++ [], op.bounded := by
  have hbound : ((snapshotOf 1).bind connectorOne).generation < maxGeneration := by decide
  simp [activateOne, applyOf, JointOp.bounded, ClientOp.bounded, hbound]

theorem active_is_activated_first :
    (∀ op ∈ activateOne ++ [], op.bounded) ∧
      ∃ s, (run (·.step anyPayload) jointOne activateOne).server.active = some s ∧
      ∃ p ∈ (run (·.step anyPayload) jointOne activateOne).client.activated,
        p.generation = s.generation ∧ p.contentHash = s.contentHash :=
  ⟨activateOne_bounded, _, rfl, (active_is_activated anyPayload connectorOne
    [capabilityDrain] 1000000000000 1000 1000000000000
    10 10 (snapshotOf 1) activateOne [] activateOne_bounded _ rfl).1⟩

/-! ## Drains -/

section

variable {k : PayloadChecks}

/-- a drain may be sent in this session -/
structure Sendable (s : ServerSession) (d : Drain) : Prop where
  binding : d.toBinding = s.identity
  formed : d.wellFormed = true
  capable : s.capabilities.contains capabilityDrain = true

variable {s : ServerSession} {op : ServerOp}

theorem Change.fixed {c : Held} (hc : Change k s op c) : c.identity = s.identity ∧ c.capabilities = s.capabilities := by
  cases hc <;> exact ⟨rfl, rfl⟩

/-- a drain of the server stays, and a first one may be sent -/
theorem Change.drain {c : Held} (hc : Change k s op c) :
    c.drain = s.drain ∨ s.drain = none ∧ ∃ d, c.drain = some d ∧ Sendable s d := by
  cases hc with
  | drains free begun binding formed capable => exact .inr ⟨free, _, rfl, binding, formed, capable⟩
  | promotes | keeps | offers | offersDelta | refuses | refusesDelta | stages | stagesDelta => exact .inl rfl

variable {d : Drain}

/-- what BeginDrain returns is the drain of the session, and the one there was if there was one -/
theorem beginDrain_ok {now later : Time} {registered : Bool} {drainID : String} {deadline : Time}
    {force : Bool} (h : (s.beginDrain now later registered drainID deadline force).2 = .ok d) :
    (s.beginDrain now later registered drainID deadline force).1.drain = some d ∧ ∀ d', s.drain = some d' → d = d' := by
  generalize hr : s.beginDrain now later registered drainID deadline force = r at h ⊢
  unfold ServerSession.beginDrain at hr
  dsimp only at hr
  repeat' split at hr
  all_goals
    subst hr
    cases h
  · rename_i hcurrent _
    exact ⟨hcurrent, fun d' hd' => Option.some.inj (hcurrent.symm.trans hd')⟩
  · rename_i hfree _ _ _ _ _
    exact ⟨rfl, fun d' hd' => by cases hfree.symm.trans hd'⟩

theorem sends_drain (h : d ∈ s.sends op) : (s.step k op).drain = some d := by
  unfold ServerSession.sends at h
  split at h
  · split at h
    · rename_i hok
      obtain rfl := List.mem_singleton.1 h
      exact (beginDrain_ok hok).1
    · cases h
  · cases h

variable {c : Client}

theorem Effect.fixed {op : ClientOp} {v : View} (he : Effect k c op v) :
    v.identity = c.session.identity ∧ v.capabilities = c.session.capabilities := by
  cases he <;> exact ⟨rfl, rfl⟩

/-- a drain of the client stays, and a first one may begin; calls of the drainer are about it -/
theorem Effect.drain {op : ClientOp} {v : View} (he : Effect k c op v) :
    v.drain = c.session.drain ∧ (∀ d, d ∈ v.stopping ∨ d ∈ v.counting → d ∈ c.stopping ∨ d ∈ c.counting) ∨
      c.session.drain = none ∧ ∃ canceled now d, op = .handleDrain canceled now d ∧ v.drain = some d ∧
        v.stopping = d :: c.stopping ∧ v.counting = c.counting := by
  cases he with
  | drains free => exact .inr ⟨free, _, _, _, rfl, rfl, rfl, rfl⟩
  | hooks move calls => exact .inl ⟨rfl, calls⟩
  | idle | begins | drops | stages | fails | failsLate | activates | activatesLate | closes =>
      exact .inl ⟨rfl, fun _ h => h⟩

/-- there is one drain at most, and both sides know it -/
structure OneDrain (j : Joint) : Prop where
  identity : j.client.session.identity = j.server.identity
  capabilities : j.client.session.capabilities = j.server.capabilities
  sendable : ∀ d, j.server.drain = some d → Sendable j.server d
  sent : ∀ d ∈ j.drains, j.server.drain = some d
  received : ∀ d, j.client.session.drain = some d → d ∈ j.drains
  calls : ∀ d, d ∈ j.client.stopping ∨ d ∈ j.client.counting → j.client.session.drain = some d

variable {j : Joint}

theorem step_oneDrain (h : OneDrain j) (op : JointOp) : OneDrain (j.step k op) := by
  unfold step
  split
  · exact h
  rename_i hdelivers
  cases op with
  | server op =>
    have hchange := step_change (k := k) (s := j.server) op
    obtain ⟨hidentity, hcapabilities⟩ : (j.server.step k op).identity = j.server.identity ∧
      (j.server.step k op).capabilities = j.server.capabilities := hchange.fixed
    have hsendable {d : Drain} (hd : Sendable j.server d) : Sendable (j.server.step k op) d :=
      ⟨hd.binding.trans hidentity.symm, hd.formed, by rw [hcapabilities]; exact hd.capable⟩
    refine ⟨h.identity.trans hidentity.symm, h.capabilities.trans hcapabilities.symm, fun d hd => ?_, fun d hd => ?_,
      fun d hd => List.mem_append_right _ (h.received d hd), h.calls⟩
    · rcases hchange.drain with hsame | ⟨_, d', hd', hsend⟩
      · exact hsendable (h.sendable d (hsame.symm.trans hd))
      · cases hd'.symm.trans hd
        exact hsendable hsend
    · rcases List.mem_append.1 hd with hd | hd
      · exact sends_drain hd
      · rcases hchange.drain with hsame | ⟨hnone, _⟩
        · exact hsame.trans (h.sent d hd)
        · cases hnone.symm.trans (h.sent d hd)
  | client op =>
    have heffect : Effect k j.client op (j.client.step k op).view := step_effect op
    obtain ⟨hidentity, hcapabilities⟩ := heffect.fixed
    refine ⟨hidentity.trans h.identity, hcapabilities.trans h.capabilities, h.sendable, h.sent,
      fun d hd => ?_, fun d hd => ?_⟩
    · rcases heffect.drain with ⟨hsame, _⟩ | ⟨_, canceled, now, d', rfl, hd', _⟩
      · exact h.received d (hsame.symm.trans hd)
      · cases hd'.symm.trans hd
        simpa [delivers] using hdelivers
    · rcases heffect.drain with ⟨hsame, hcalls⟩ | ⟨hnone, canceled, now, d', rfl, hd', hstopping, hcounting⟩
      · exact hsame.trans (h.calls d (hcalls d hd))
      · have hd : d ∈ d' :: j.client.stopping ∨ d ∈ j.client.counting := hstopping ▸ hcounting ▸ hd
        rcases hd with hd | hd
        · rcases List.mem_cons.1 hd with rfl | hd
          · exact hd'
          · cases hnone.symm.trans (h.calls d (.inl hd))
        · cases hnone.symm.trans (h.calls d (.inr hd))

theorem run_oneDrain (h : OneDrain j) (ops : List JointOp) : OneDrain (run (·.step k) j ops) :=
  run_inv (I := fun _ j => OneDrain j) _ _ h (fun _ op hj => step_oneDrain hj op) ops

theorem accepted_oneDrain {identity : Binding} {capabilities : List String} {leaseDuration : Int}
    {heartbeatIntervalMS : ℕ} {leaseExpiresAt start welcome : Time} {snapshot : Snapshot} : OneDrain (accepted identity
      capabilities leaseDuration heartbeatIntervalMS leaseExpiresAt start welcome snapshot) := by
  constructor <;> simp [accepted, ServerSession.accepted, welcomed]

theorem run_sent (h : d ∈ j.drains) (ops : List JointOp) : d ∈ (run (·.step k) j ops).drains := by
  refine run_inv (I := fun _ j => d ∈ j.drains) (·.step k) j h (fun _ op hj => ?_) ops
  unfold step
  split
  · exact hj
  · cases op with
    | server op => exact List.mem_append_right _ hj
    | client op => exact hj

/-! ## Acceptance -/

/-- HandleDrain returns no error, or goes on with the hooks of the drainer -/
def Accepts (k : PayloadChecks) (c : Client) (d : Drain) (now : Time) : Prop :=
  (c.perform k (.handleDrain false now d)).2 = .waiting ∨
    ∃ a, (c.perform k (.handleDrain false now d)).2 = .drainAck (some a) none

/-- the session goes on, the deadline is near enough, and the session has begun the drain or serves its active
configuration -/
structure DrainReady (c : ClientSession) (d : Drain) (now : Time) : Prop where
  timely : d.timely now = true
  opened : c.state ≠ .closed ∧ c.state ≠ .new ∧ c.timedOut now = false
  serving : c.drain.isSome = true ∨ c.needsSnapshot = false ∧ c.serving = true

/-- only what the session part of HandleDrain answers counts -/
theorem accepts_iff_begin {now : Time} : Accepts k c d now ↔
    (c.session.beginDrain false now d).2 = none ∨
      ∃ a, (c.session.beginDrain false now d).2 = some (.drainAck (some a) none) := by
  have hanswer : (c.perform k (.handleDrain false now d)).2 = (c.session.beginDrain false now d).2.getD .waiting := by
    simp only [Client.perform, Client.handleDrain]
    split <;> rename_i heq <;> rw [heq] <;> rfl
  unfold Accepts
  rw [hanswer]
  generalize hr : c.session.beginDrain false now d = r
  cases hsome : r.2 with
  | none => simp
  | some answer =>
    have hnever : answer ≠ .waiting := by
      rintro rfl
      subst hr
      unfold beginDrain rejectDrain at hsome
      (repeat' split at hsome) <;> cases hsome
    simp [hnever]

theorem accepts_iff {c : ClientSession} {now : Time} {a : Snapshot} (hbinding : d.toBinding = c.identity)
    (hformed : d.wellFormed = true) (hcapable : capabilityDrain ∈ c.capabilities)
    (hdrain : ∀ d', c.drain = some d' → d' = d) (ha : c.active = some a)
    (hgeneration : d.generation = a.generation) (hhash : d.contentHash = a.contentHash) :
    ((c.beginDrain false now d).2 = none ∨ ∃ a, (c.beginDrain false now d).2 = some (.drainAck (some a) none)) ↔
      DrainReady c d now := by
  have hno {ack : Option DrainAck} {e : ProtocolError}
      (h : (c.beginDrain false now d).2 = some (.drainAck ack (some e))) :
      ¬ ((c.beginDrain false now d).2 = none ∨ ∃ a, (c.beginDrain false now d).2 = some (.drainAck (some a) none)) := by
    rw [h]
    simp
  by_cases htimely : d.timely now = true
  swap
  · have hr : (c.beginDrain false now d).2 = some (.drainAck none (some errInvalidInput)) := by
      simp [beginDrain, Drain.valid, htimely]
    exact iff_of_false (hno hr) fun h => htimely h.timely
  by_cases hopen : c.ensureActiveLocked now = .ok ()
  swap
  · cases he : c.ensureActiveLocked now with
    | ok u => exact absurd he hopen
    | error r =>
      have hr : (c.beginDrain false now d).2 = some (.drainAck none (some r.2)) := by
        simp [beginDrain, Drain.valid, hformed, htimely, he]
      exact iff_of_false (hno hr) fun h => hopen (clientEnsure_ok.2 h.opened)
  have hserving : c.serving = (c.readyGeneration == a.generation) := by simp [serving, ha]
  cases hcurrent : c.drain with
  | some current =>
    obtain rfl := hdrain current hcurrent
    have hr : ∃ ack, (c.beginDrain false now current).2 = some (.drainAck (some ack) none) := by
      simp [beginDrain, Drain.valid, hformed, htimely, hopen, hcapable, hbinding, hcurrent]
    exact iff_of_true (.inr hr) ⟨htimely, clientEnsure_ok.1 hopen, .inl (by rw [hcurrent]; rfl)⟩
  | none =>
    by_cases hready : (c.needsSnapshot || c.readyGeneration != a.generation) = true
    · have hr : (c.beginDrain false now d).2 = some (c.rejectDrain d 0 errClientNotReady) := by
        simp_all [beginDrain, Drain.valid]
      refine iff_of_false (hno hr) fun h => ?_
      rcases h.serving with hs | ⟨hn, hs⟩
      · rw [hcurrent] at hs
        cases hs
      · simp_all
    · have hr : (c.beginDrain false now d).2 = none := by
        simp_all [beginDrain, Drain.valid]
      refine iff_of_true (.inl hr) ⟨htimely, clientEnsure_ok.1 hopen, .inr ?_⟩
      rw [hserving]
      simpa using hready

end

/-- **Drains of a session.** In every run of the two sides: a drain the server has sent, reaching the client before
its deadline while the client's active configuration is the one it names, is accepted just if the client's session
goes on, the deadline is at most the longest lease ahead, and the client has begun this drain already or serves its
active configuration and needs no snapshot; a HandleDrain whose hooks succeed returns that the drain is accepted;
and no later BeginDrain returns another drain than the one sent. -/
theorem drain_accepted_iff (k : PayloadChecks) (identity : Binding) (capabilities : List String) (leaseDuration : Int)
    (heartbeatIntervalMS : ℕ) (leaseExpiresAt start welcome : Time) (snapshot : Snapshot) (ops : List JointOp) :
    let j := run (·.step k)
      (accepted identity capabilities leaseDuration heartbeatIntervalMS leaseExpiresAt start welcome snapshot) ops
    (∀ d ∈ j.drains, ∀ now a, now < d.deadline → j.client.session.active = some a → d.generation = a.generation →
        d.contentHash = a.contentHash → (Accepts k j.client d now ↔ DrainReady j.client.session d now)) ∧
      (∀ d n, d ∈ j.client.counting → n ≤ maxActiveStreams → (j.client.perform k (.drainCounted d (some n))).2 =
        .drainAck (some (j.client.session.makeDrainAckLocked d .accepted n false none)) none) ∧
      ∀ d ∈ j.drains, ∀ more now later registered drainID deadline force d',
        ((run (·.step k) j more).server.beginDrain now later registered drainID deadline force).2 =
          .ok d' → d' = d := by
  intro j
  have h : OneDrain j := run_oneDrain accepted_oneDrain ops
  refine ⟨fun d hd now a _ ha hgeneration hhash => ?_, fun d n hd hn => ?_,
    fun d hd more now later registered drainID deadline
    force d' hd' => ?_⟩
  · have hsend := h.sendable d (h.sent d hd)
    refine accepts_iff_begin.trans (accepts_iff
      (hsend.binding.trans h.identity.symm) hsend.formed ?_ (fun d' hd' => ?_) ha
      hgeneration hhash)
    · rw [h.capabilities]
      exact List.contains_iff_mem.1 hsend.capable
    · exact Option.some.inj ((h.sent d' (h.received d' hd')).symm.trans (h.sent d hd))
  · have hdrain := h.calls d (.inr hd)
    simp [Client.perform, Client.drainCounted, hd, hn, Client.answer, drainCounted, hdrain, Option.filter]
  · have hlater := run_oneDrain (k := k) h more
    exact (beginDrain_ok hd').2 d (hlater.sent d (run_sent hd more))

/-- the drain of the first configuration -/
def drainOne : Drain :=
  { connectorOne with drainID := "d", generation := 1, contentHash := contentOne, deadline := 1000000000,
                      stopNewStreams := true, forceAfterDeadline := false }

def beginOne : JointOp := .server (.beginDrain 10 10 true "d" 1000000000 false)

theorem drain_accepted_first :
    let j := run (·.step anyPayload) jointOne (activateOne ++ [beginOne])
    drainOne ∈ j.drains ∧ DrainReady j.client.session drainOne 10 ∧ Accepts anyPayload j.client drainOne 10 := by
  intro j
  have hready : DrainReady j.client.session drainOne 10 :=
    ⟨by decide +kernel, by decide +kernel, .inr (by decide +kernel)⟩
  have hsent : drainOne ∈ j.drains := by decide +kernel
  refine ⟨hsent, hready, ?_⟩
  exact ((drain_accepted_iff anyPayload connectorOne [capabilityDrain] 1000000000000 1000 1000000000000 10 10
    (snapshotOf 1)
    (activateOne ++ [beginOne])).1 drainOne hsent 10 ((snapshotOf 1).bind connectorOne)
      (by decide) (by decide +kernel) rfl
    rfl).2 hready

/-- the server offers generation 2 and then drains generation 1, and the client stages the offer first -/
def stageTwo : List JointOp := activateOne ++ .server (.offerSnapshot 10 true (snapshotOf 2)) :: beginOne :: applyOf 2

/-- the drain is refused, and after the refusal has come back another BeginDrain is a conflict -/
theorem staged_rejects_drain :
    let j := run (·.step anyPayload) jointOne stageTwo
    let refusal := j.client.session.makeDrainAckLocked drainOne .rejected 0 false (some .drainRejected)
    let later := run (·.step anyPayload) j [.client (.handleDrain false 10 drainOne),
        .server (.handleDrainAck 10 true refusal)]
    drainOne ∈ j.drains ∧ j.client.session.active.map (·.generation) = some drainOne.generation ∧
      j.client.session.active.map (·.contentHash) = some drainOne.contentHash ∧ j.client.session.drain = none ∧
      (j.client.perform anyPayload (.handleDrain false 10 drainOne)).2 =
        .drainAck (some refusal) (some errClientNotReady) ∧
      (later.server.beginDrain 20 20 true "e" 1000000000 false).2 =
        .error (codeError .sessionConflict .staleGeneration true) := by
  decide +kernel

end Paperboat.Connector
