/-
Where the prepared configurations of a connector session go, in every run.

Results:
- `step_effect`: everything an operation can do to the calls under way, to the
  configurations the session holds and to those the applier has returned;
- `staged_settled`: if no operation notices a heartbeat timeout while a configuration is
  staged, then every configuration the applier has returned was activated, or was
  aborted, or is the staged one, and a closed session has none staged; an operation that
  does notice one, with no call of the applier under way, leaves a configuration staged
  that the Close after it does not abort.

Witnesses:
- `stageOne_settled`: one configuration is staged;
- `lease_leaves_staged`: CheckLease notices the timeout, and the Close after it does not
  abort.
-/
import Paperboat.Connector.Client

namespace Paperboat.Connector

open Machine ClientSession

/-! ## Timeouts -/

/-- the clock with which the operation asks whether the session goes on, if it does ask -/
def Client.checks (k : PayloadChecks) (c : Client) : ClientOp → Option Time
  | .applySnapshot now _ o => if c.applying.isNone && o.valid k then some now else none
  | .applyDelta now _ d => if c.applying.isNone && d.valid k then some now else none
  | .prepared now r =>
    match c.applying with
    | some (.snapshot _) | some (.delta _) => if r.prepared && !r.failed && !r.expired then some now else none
    | _ => none
  | .markReady now _ _ _ _ => if c.applying.isNone then some now else none
  | .activated now succeeded _ =>
    match c.applying with
    | some (.activate _ _ _) => if succeeded then some now else none
    | _ => none
  | .heartbeat now => some now
  | .acceptHeartbeatAck now a => if a.valid now then some now else none
  | .handleDrain canceled now d => if !canceled && d.valid now then some now else none
  | .drainProgress canceled now streams _ => if decide (streams ≤ maxActiveStreams) && !canceled then some now else none
  | .checkLease now => some now
  | .drainStopped _ _ | .drainCounted _ _ | .close _ _ => none

/-- the operation notices that an open session has timed out -/
def Notices (k : PayloadChecks) (c : Client) (op : ClientOp) : Prop :=
  c.session.state ≠ .closed ∧ c.session.state ≠ .new ∧ ∃ t, c.checks k op = some t ∧ c.session.timedOut t = true

/-! ## Effects -/

/-- the calls under way, the configurations and the drain of a client -/
structure View where
  identity : Binding
  capabilities : List String
  drain : Option Drain
  stopping : List Drain
  counting : List Drain
  applying : Option Applying
  returned : List PreparedConfig
  activated : List PreparedConfig
  aborted : List PreparedConfig
  state : SessionState
  active : Option Snapshot
  candidate : Option Snapshot
  prepared : Option PreparedConfig

def Client.view (c : Client) : View :=
  ⟨c.session.identity, c.session.capabilities, c.session.drain, c.stopping, c.counting, c.applying,
    c.returned, c.activated, c.aborted, c.session.state, c.session.active, c.session.candidate, c.session.prepared⟩

/-- the session is not closed by the operation unless it has timed out, and never new again -/
structure StateMove (k : PayloadChecks) (c : Client) (op : ClientOp) (state : SessionState) : Prop where
  closed : state = .closed → c.session.state = .closed ∨ Notices k c op
  new : state = .new → c.session.state = .new

/-- the call may begin: it is about a newer configuration, or about the staged one -/
def Fits (c : ClientSession) : Applying → Prop
  | .snapshot o => ∀ cur, (c.candidate <|> c.active) = some cur → cur.generation < o.generation
  | .delta d =>
    c.candidate = none ∧ ∃ a, c.active = some a ∧ d.previousGeneration = a.generation ∧ d.generation = a.generation + 1
  | .activate candidate p r =>
    c.candidate = some candidate ∧ c.prepared = some p ∧ r.generation = candidate.generation ∧
      r.contentHash = candidate.contentHash

/-- the configuration that is staged at the end of the call -/
def Applying.target (b : Binding) : Applying → Option Snapshot
  | .snapshot o => some (o.bind b)
  | .delta d => some (d.target b)
  | .activate _ _ _ => none

/-- the operation that begins the call for a delta -/
def Applying.begunBy (op : ClientOp) (call : Applying) : Prop :=
  ∀ d, call = .delta d → ∃ now canceled, op = .applyDelta now canceled d

/-- what an operation can do to a client -/
inductive Effect (k : PayloadChecks) (c : Client) : ClientOp → View → Prop
  | idle {op state} (move : StateMove k c op state) : Effect k c op { c.view with state }
  | drains {canceled now d} (free : c.session.drain = none) :
      Effect k c (.handleDrain canceled now d)
        { c.view with drain := some d, stopping := d :: c.stopping, state := .draining }
  | hooks {op state stopping counting} (move : StateMove k c op state)
      (calls : ∀ d, d ∈ stopping ∨ d ∈ counting → d ∈ c.stopping ∨ d ∈ c.counting) :
      Effect k c op { c.view with stopping, counting, state }
  | begins {op call} (free : c.applying = none) (fits : Fits c.session call) (source : call.begunBy op) :
      Effect k c op { c.view with applying := some call }
  | drops {op call state dropped} (waiting : c.applying = some call)
      (prepares : (call.target c.session.identity).isSome)
      (move : StateMove k c op state) (fresh : ∀ p ∈ dropped, p.id = c.returned.length) (one : dropped.length ≤ 1) :
      Effect k c op
        { c.view with applying := none, state, returned := c.returned ++ dropped, aborted := c.aborted ++ dropped }
  | stages {op call candidate} (waiting : c.applying = some call)
      (target : call.target c.session.identity = some candidate)
      (opened : c.session.state ≠ .closed) (free : c.session.candidate = none ∨ c.session.prepared = none) :
      Effect k c op
        { c.view with
          applying := none, returned := c.returned ++ [⟨c.returned.length, candidate.generation, candidate.contentHash⟩]
          candidate := some candidate, state := .awaitingReady
          prepared := some ⟨c.returned.length, candidate.generation, candidate.contentHash⟩ }
  | fails {op candidate p r state} (waiting : c.applying = some (.activate candidate p r))
      (matched : c.session.isCandidate candidate = true) (opened : state ≠ .closed ∧ state ≠ .new) :
      Effect k c op
        { c.view with applying := none, aborted := c.aborted ++ [p], candidate := none, prepared := none, state }
  | failsLate {op candidate p r} (waiting : c.applying = some (.activate candidate p r))
      (unmatched : c.session.isCandidate candidate = false) :
      Effect k c op { c.view with applying := none, aborted := c.aborted ++ [p] }
  | activates {now canceled candidate p r} (waiting : c.applying = some (.activate candidate p r))
      (matched : c.session.isCandidate candidate = true) :
      Effect k c (.activated now true canceled)
        { c.view with
          applying := none, activated := c.activated ++ [p], active := c.session.candidate, candidate := none
          prepared := none, state := .ready }
  | activatesLate {op candidate p r state} (waiting : c.applying = some (.activate candidate p r))
      (refused : c.session.isCandidate candidate = false ∨ c.session.state = .closed ∨ c.session.state = .new ∨
        Notices k c op) (move : StateMove k c op state) :
      Effect k c op { c.view with applying := none, activated := c.activated ++ [p], state }
  | closes {op} (free : c.applying = none) :
      Effect k c op
        { c.view with
          aborted := c.aborted ++ c.session.prepared.toList, candidate := none, prepared := none, state := .closed }

section

variable {k : PayloadChecks} {c : Client} {op : ClientOp}

theorem StateMove.refl : StateMove k c op c.session.state := ⟨.inl, id⟩

theorem StateMove.open {state : SessionState} (h1 : state ≠ .closed) (h2 : state ≠ .new) : StateMove k c op state :=
  ⟨fun h => absurd h h1, fun h => absurd h h2⟩

variable {now : Time} {e : ProtocolError} {s' : ClientSession} {s : ClientSession}

/-- a session that does not go on: it was closed or new, or it is closed now because it has timed out -/
theorem clientEnsure_error (h : s.ensureActiveLocked now = .error (s', e)) :
    s' = s ∧ (s.state = .closed ∨ s.state = .new) ∨
      s.state ≠ .closed ∧ s.state ≠ .new ∧ s.timedOut now = true ∧
        s' = { s with state := .closed, disconnectReason := some .heartbeatTimeout } := by
  unfold ensureActiveLocked at h
  split_ifs at h with h1 h2 h3
  · cases h
    exact .inl ⟨rfl, .inl h1⟩
  · cases h
    exact .inl ⟨rfl, .inr h2⟩
  · cases h
    exact .inr ⟨h1, h2, h3, rfl⟩

theorem clientEnsure_ok : s.ensureActiveLocked now = .ok () ↔
    s.state ≠ .closed ∧ s.state ≠ .new ∧ s.timedOut now = false := by
  unfold ensureActiveLocked
  split_ifs <;> simp_all

/-- the session is asked with the clock the operation checks -/
theorem move_of_error (h : c.session.ensureActiveLocked now = .error (s', e)) (hchecks : c.checks k op = some now) :
    StateMove k c op s'.state := by
  rcases clientEnsure_error h with ⟨rfl, _⟩ | ⟨h1, h2, h3, rfl⟩
  · exact .refl
  · exact ⟨fun _ => .inr ⟨h1, h2, now, hchecks, h3⟩, nofun⟩

/-- the configurations and the drain of a session stay as they are -/
structure Quiet (s s' : ClientSession) : Prop where
  identity : s'.identity = s.identity
  capabilities : s'.capabilities = s.capabilities
  drain : s'.drain = s.drain
  active : s'.active = s.active
  candidate : s'.candidate = s.candidate
  prepared : s'.prepared = s.prepared

theorem Quiet.refl (s : ClientSession) : Quiet s s := ⟨rfl, rfl, rfl, rfl, rfl, rfl⟩

theorem quiet_of_error (h : s.ensureActiveLocked now = .error (s', e)) : Quiet s s' := by
  rcases clientEnsure_error h with ⟨rfl, _⟩ | ⟨_, _, _, rfl⟩
  · exact .refl _
  · exact ⟨rfl, rfl, rfl, rfl, rfl, rfl⟩

/-- the view of a client whose session is replaced by a quiet one -/
theorem Quiet.view (hq : Quiet s s') (c : Client) :
    { c with session := s' }.view = { { c with session := s }.view with state := s'.state } := by
  unfold Client.view
  simp only [hq.identity, hq.capabilities, hq.drain, hq.active, hq.candidate, hq.prepared]

/-- the calls that only ask the session -/
structure Asks (k : PayloadChecks) (c : Client) (op : ClientOp) (s' : ClientSession) : Prop where
  quiet : Quiet c.session s'
  move : StateMove k c op s'.state

theorem Asks.same : Asks k c op c.session := ⟨.refl _, .refl⟩

theorem asks_of_error (h : c.session.ensureActiveLocked now = .error (s', e))
    (hchecks : c.checks k op = some now) : Asks k c op s' :=
  ⟨quiet_of_error h, move_of_error h hchecks⟩

theorem Asks.effect (h : Asks k c op s') : Effect k c op { c with session := s' }.view := by
  rw [h.quiet.view c]
  exact .idle h.move

/-- a call of the drainer is over -/
theorem Asks.hooks (h : Asks k c op s') {stopping counting : List Drain}
    (hcalls : ∀ d, d ∈ stopping ∨ d ∈ counting → d ∈ c.stopping ∨ d ∈ c.counting) :
    Effect k c op { c with session := s', stopping, counting }.view := by
  have hview : { c with session := s', stopping, counting }.view =
      { c.view with stopping, counting, state := s'.state } :=
    h.quiet.view { c with stopping, counting }
  rw [hview]
  exact .hooks h.move hcalls

theorem restoreState_open (s : ClientSession) :
    s.restoreStateLocked.state ≠ .closed ∧ s.restoreStateLocked.state ≠ .new := by
  unfold restoreStateLocked
  split_ifs <;> exact ⟨nofun, nofun⟩

section

variable (now : Time)

theorem heartbeat_asks : Asks k c (.heartbeat now) (c.session.heartbeat now).1 := by
  unfold heartbeat
  split
  · rename_i h
    exact asks_of_error h rfl
  · split <;> exact .same

theorem acceptHeartbeatAck_asks (a : HeartbeatAck) :
    Asks k c (.acceptHeartbeatAck now a) (c.session.acceptHeartbeatAck now a).1 := by
  unfold acceptHeartbeatAck
  split
  · exact .same
  split
  · rename_i h
    exact asks_of_error h (by simp_all [Client.checks])
  split
  · exact .same
  · exact ⟨⟨rfl, rfl, rfl, rfl, rfl, rfl⟩, .refl⟩

theorem checkLease_asks : Asks k c (.checkLease now) (c.session.checkLease now).1 := by
  unfold checkLease
  split
  · rename_i h
    exact asks_of_error h rfl
  · exact .same

variable (canceled : Bool)

theorem drainProgress_asks (now : Time) (streams : ℕ) (forced : Bool) :
    Asks k c (.drainProgress canceled now streams forced) (c.session.drainProgress canceled now streams forced).1 := by
  have hkeep {s' : ClientSession} (h1 : Quiet c.session s') (h2 : s'.state = c.session.state) :
      Asks k c (.drainProgress canceled now streams forced) s' := ⟨h1, h2 ▸ .refl⟩
  unfold drainProgress
  split
  · exact .same
  split
  · exact .same
  split
  · rename_i h
    refine asks_of_error h ?_
    simp only [Client.checks]
    rw [if_pos (by simp_all)]
  split
  · exact .same
  repeat' split
  all_goals exact hkeep ⟨rfl, rfl, rfl, rfl, rfl, rfl⟩ rfl

/-- the call returns, or it begins the drain of a session that has none -/
theorem beginDrain_asks (now : Time) (d : Drain) :
    ((c.session.beginDrain canceled now d).2.isSome = true ∧
        Asks k c (.handleDrain canceled now d) (c.session.beginDrain canceled now d).1) ∨
      c.session.drain = none ∧ c.session.beginDrain canceled now d =
        ({ c.session with
          drain := some d, drainStatus := some .accepted, drainCode := none, drainCompleted := false
          activeStreams := 0, state := .draining }, none) := by
  generalize hr : c.session.beginDrain canceled now d = r
  unfold beginDrain at hr
  repeat' split at hr
  all_goals subst hr
  any_goals exact .inl ⟨rfl, .same⟩
  · rename_i h
    exact .inl ⟨rfl, asks_of_error h (by simp_all [Client.checks])⟩
  · rename_i hdrain _ _ _ _ _
    exact .inr ⟨hdrain, rfl⟩

theorem drainFailed_asks (d : Drain) : Asks k c op (c.session.drainFailed d) := by
  unfold drainFailed
  split
  · exact ⟨⟨rfl, rfl, rfl, rfl, rfl, rfl⟩, .open (restoreState_open _).1 (restoreState_open _).2⟩
  · exact .same

theorem drainCounted_asks (d : Drain) (n : ℕ) : Asks k c op (c.session.drainCounted d n).1 := by
  unfold drainCounted
  split
  · exact ⟨⟨rfl, rfl, rfl, rfl, rfl, rfl⟩, .refl⟩
  · exact .same

theorem beginSnapshot_asks (o : Snapshot) (hfree : c.applying = none) :
    Asks k c (.applySnapshot now canceled o) (c.session.beginSnapshot k now canceled o).1 ∧
      ((c.session.beginSnapshot k now canceled o).2 = none →
        (c.session.beginSnapshot k now canceled o).1 = c.session ∧ Fits c.session (.snapshot o)) := by
  unfold beginSnapshot
  dsimp only
  repeat' split
  all_goals try exact ⟨.same, fun h => absurd h (Option.some_ne_none _)⟩
  · rename_i h
    exact ⟨asks_of_error h (by simp_all [Client.checks]), nofun⟩
  · rename_i hold _ hdiffers _
    refine ⟨.same, fun _ => ⟨rfl, fun cur hcur => ?_⟩⟩
    rw [hcur, Option.any_some, decide_eq_true_eq, UInt64.not_lt] at hold
    rw [hcur, Option.any_some, beq_iff_eq] at hdiffers
    exact UInt64.lt_of_le_of_ne hold (Ne.symm hdiffers)

theorem beginDelta_asks (d : Delta) (hfree : c.applying = none) :
    Asks k c (.applyDelta now canceled d) (c.session.beginDelta k now canceled d).1 ∧
      ((c.session.beginDelta k now canceled d).2 = none →
        (c.session.beginDelta k now canceled d).1 = c.session ∧ Fits c.session (.delta d)) := by
  have hgap : Asks k c (.applyDelta now canceled d) { c.session with needsSnapshot := true } :=
      ⟨⟨rfl, rfl, rfl, rfl, rfl, rfl⟩, .refl⟩
  unfold beginDelta
  repeat' split
  all_goals try exact ⟨.same, fun h => absurd h (Option.some_ne_none _)⟩
  all_goals try exact ⟨hgap, fun h => absurd h (Option.some_ne_none _)⟩
  · rename_i h
    exact ⟨asks_of_error h (by simp_all [Client.checks]), nofun⟩
  · rename_i a ha hidle hprevious hnext _
    refine ⟨.same, fun _ => ⟨rfl, ?_, a, ha, hprevious.1, not_not.1 hnext⟩⟩
    simp only [Bool.or_eq_true, not_or, Bool.not_eq_true, Option.isSome_eq_false_iff,
      Option.isNone_iff_eq_none] at hidle
    exact hidle.2

/-- a call that takes the apply lock begins, returns at once or has to wait for the lock -/
theorem begin_effect {call : Applying} {r : ClientSession × Option ClientAnswer} (hsource : call.begunBy op)
    (h : c.applying = none → Asks k c op r.1 ∧ (r.2 = none → r.1 = c.session ∧ Fits c.session call)) :
    Effect k c op (c.begin call r).1.view := by
  unfold Client.begin
  split
  · exact .idle .refl
  rename_i hfree
  obtain ⟨hasks, hfits⟩ := h hfree
  split
  · exact hasks.effect
  · rename_i hnone
    obtain ⟨hsame, hfits⟩ := hfits hnone
    rw [hsame]
    exact .begins hfree hfits hsource

theorem markReady_effect (canceled edgeReady routeReady originReady : Bool) :
    Effect k c (.markReady now canceled edgeReady routeReady originReady)
      (c.markReady now canceled edgeReady routeReady originReady).1.view := by
  unfold Client.markReady
  split
  · exact .idle .refl
  rename_i hfree
  generalize hr : c.session.beginReady now canceled edgeReady routeReady originReady = r
  unfold beginReady at hr
  dsimp only at hr
  repeat' split at hr
  all_goals subst hr
  any_goals exact .idle .refl
  · rename_i h
    exact (asks_of_error h (by simp [Client.checks, hfree])).effect
  · rename_i candidate hcandidate _ _ _ p hp
    exact .begins hfree ⟨hcandidate, hp, rfl, rfl⟩ nofun

theorem activationReturned_effect (succeeded canceled : Bool) :
    Effect k c (.activated now succeeded canceled) (c.activationReturned now succeeded canceled).1.view := by
  unfold Client.activationReturned
  split
  · rename_i candidate p r hwaiting
    dsimp only
    split
    · unfold activationFailed
      split
      · rename_i hmatched
        exact .fails hwaiting hmatched (restoreState_open _)
      · rename_i hunmatched
        exact .failsLate hwaiting (by simpa using hunmatched)
    · rename_i hsucceeded
      obtain rfl : succeeded = true := by simpa using hsucceeded
      have hchecks : c.checks k (.activated now true canceled) = some now := by simp [Client.checks, hwaiting]
      unfold Client.answer activationDone
      split
      · rename_i h
        have hasks : Asks k c (.activated now true canceled) _ := asks_of_error h hchecks
        have hrefused : c.session.state = .closed ∨ c.session.state = .new ∨
            Notices k c (.activated now true canceled) := by
          rcases clientEnsure_error h with ⟨_, h⟩ | ⟨h1, h2, h3, _⟩
          · exact h.imp id .inl
          · exact .inr (.inr ⟨h1, h2, now, hchecks, h3⟩)
        rw [hasks.quiet.view { c with applying := none, activated := c.activated ++ [p] }]
        exact .activatesLate hwaiting (.inr hrefused) hasks.move
      split
      · rename_i hunmatched
        exact .activatesLate hwaiting (.inl (by simpa using hunmatched)) .refl
      · rename_i hmatched
        exact .activates hwaiting (by simpa using hmatched)
  · exact .idle .refl

end

/-- the preparation is over: what was prepared is staged or aborted -/
theorem finish_effect (call : Applying) (candidate : Snapshot) {r : Preparation} {rejection : ProtocolError}
    {kind : AckKind} {needs : Bool} (hwaiting : c.applying = some call)
    (htarget : call.target c.session.identity = some candidate) :
    Effect k c (.prepared now r) (c.finish r candidate.generation candidate.contentHash rejection fun p =>
      c.session.stage now kind candidate needs p).1.view := by
  have hdrops {s' : ClientSession} (hasks : Asks k c (.prepared now r) s') (dropped : List PreparedConfig)
      (hfresh : ∀ p ∈ dropped, p.id = c.returned.length) (hone : dropped.length ≤ 1) :
      Effect k c (.prepared now r) { c with
        session := s', applying := none, returned := c.returned ++ dropped, aborted := c.aborted ++ dropped }.view := by
    rw [hasks.quiet.view
      { c with applying := none, returned := c.returned ++ dropped, aborted := c.aborted ++ dropped }]
    exact .drops hwaiting (by rw [htarget]; rfl) hasks.move hfresh hone
  have hnothing : Effect k c (.prepared now r) { c with applying := none }.view := by
    have h := hdrops .same [] (by simp) (by simp)
    simpa using h
  let p : PreparedConfig := ⟨c.returned.length, candidate.generation, candidate.contentHash⟩
  have hone (s' : ClientSession) (hasks : Asks k c (.prepared now r) s') : Effect k c (.prepared now r) { c with
      session := s', applying := none, returned := c.returned ++ [p], aborted := c.aborted ++ [p] }.view :=
    hdrops hasks [p] (by simp [p]) (by simp)
  unfold Client.finish
  cases hprepared : r.prepared with
  | false =>
    simp only [Bool.false_eq_true, if_false, Bool.not_false, if_true]
    split
    · exact hnothing
    split
    · exact hnothing
    · exact hnothing
  | true =>
    simp only [if_true, Bool.not_true, Bool.false_eq_true, if_false]
    split
    · exact hone _ .same
    split
    · exact hone _ .same
    have hchecks : c.checks k (.prepared now r) = some now := by
      unfold Applying.target at htarget
      simp only [Client.checks, hwaiting]
      cases call <;> simp_all
    generalize hstage : c.session.stage now kind candidate needs
      ⟨c.returned.length, candidate.generation, candidate.contentHash⟩ = staged
    unfold stage at hstage
    split at hstage
    · rename_i h
      subst hstage
      exact hone _ (asks_of_error h hchecks)
    rename_i hopen
    split at hstage
    · subst hstage
      exact hone _ .same
    · rename_i hslot
      subst hstage
      simp only [Bool.and_eq_true, not_and_or, Bool.not_eq_true, Option.isSome_eq_false_iff, Option.isNone_iff_eq_none]
        at hslot
      exact .stages hwaiting htarget (clientEnsure_ok.1 hopen).1 hslot

theorem prepared_effect (now : Time) (r : Preparation) : Effect k c (.prepared now r) (c.prepared now r).1.view := by
  unfold Client.prepared
  split
  · rename_i o hwaiting
    exact finish_effect (.snapshot o) (o.bind c.session.identity) hwaiting rfl
  · rename_i d hwaiting
    exact finish_effect (.delta d) (d.target c.session.identity) hwaiting rfl
  · exact .idle .refl

theorem close_effect (reason : DisconnectReason) (abortFails : Bool) :
    Effect k c (.close reason abortFails) (c.close reason abortFails).1.view := by
  unfold Client.close
  split
  · exact .idle .refl
  rename_i hfree
  split
  · exact .idle .refl
  · exact .closes hfree

theorem step_effect (op : ClientOp) : Effect k c op (c.step k op).view := by
  unfold Client.step
  cases op with
  | applySnapshot now canceled o => exact begin_effect nofun (beginSnapshot_asks now canceled o)
  | applyDelta now canceled d =>
    exact begin_effect (fun _ hd => by cases hd; exact ⟨now, canceled, rfl⟩) (beginDelta_asks now canceled d)
  | prepared now r => exact prepared_effect now r
  | markReady now canceled edgeReady routeReady originReady =>
      exact markReady_effect now canceled edgeReady routeReady originReady
  | activated now succeeded canceled => exact activationReturned_effect now succeeded canceled
  | heartbeat now => exact (heartbeat_asks now).effect
  | acceptHeartbeatAck now a => exact (acceptHeartbeatAck_asks now a).effect
  | handleDrain canceled now d =>
    simp only [Client.perform, Client.handleDrain]
    rcases beginDrain_asks (k := k) (c := c) canceled now d with ⟨hsome, hasks⟩ | ⟨hfree, hbegin⟩
    · split
      · rename_i h
        rw [h] at hasks
        exact hasks.effect
      · rename_i h
        rw [h] at hsome
        cases hsome
    · rw [hbegin]
      exact .drains hfree
  | drainStopped d failed =>
    simp only [Client.perform, Client.drainStopped]
    split
    · exact .idle .refl
    split
    · exact (drainFailed_asks d).hooks fun d' h => h.imp List.mem_of_mem_erase id
    · rename_i hmem _
      refine .hooks .refl fun d' h => ?_
      rcases h with h | h
      · exact .inl (List.mem_of_mem_erase h)
      · rcases List.mem_cons.1 h with rfl | h
        · exact .inl (not_not.1 hmem)
        · exact .inr h
  | drainCounted d streams =>
    simp only [Client.perform, Client.drainCounted]
    split
    · exact .idle .refl
    split
    · exact (drainFailed_asks d).hooks fun d' h => h.imp id List.mem_of_mem_erase
    · exact (drainCounted_asks d _).hooks fun d' h => h.imp id List.mem_of_mem_erase
  | drainProgress canceled now streams forced => exact (drainProgress_asks canceled now streams forced).effect
  | checkLease now => exact (checkLease_asks now).effect
  | close reason abortFails => exact close_effect reason abortFails

end

/-! ## The staged configuration -/

/-- a candidate and its prepared configuration come together, and a call of Activate is about them -/
structure Paired (v : View) : Prop where
  pair : (v.candidate = none ∧ v.prepared = none) ∨ ∃ candidate p, v.candidate = some candidate ∧ v.prepared = some p ∧
    p.generation = candidate.generation ∧ p.contentHash = candidate.contentHash
  call : ∀ candidate p r, v.applying = some (.activate candidate p r) →
    v.candidate = some candidate ∧ v.prepared = some p ∧ r.generation = candidate.generation ∧
    r.contentHash = candidate.contentHash
  member : ∀ p, v.prepared = some p → p ∈ v.returned

section

variable {k : PayloadChecks} {c : Client} {op : ClientOp} {v : View} {candidate : Snapshot}

variable {p : PreparedConfig}

/-- the session still has the candidate a call of Activate is about -/
theorem Paired.isCandidate (h : Paired c.view) {r : Readiness}
    (hw : c.applying = some (.activate candidate p r)) : c.session.isCandidate candidate = true := by
  have hcandidate : c.session.candidate = some candidate := (h.call candidate p r hw).1
  simp [ClientSession.isCandidate, hcandidate]

theorem Effect.paired (he : Effect k c op v) (h : Paired c.view) : Paired v := by
  cases he with
  | idle | drains | hooks => exact ⟨h.pair, h.call, h.member⟩
  | @begins _ call free fits source =>
    refine ⟨h.pair, fun candidate p r hcall => ?_, h.member⟩
    cases hcall
    exact fits
  | drops waiting prepares move fresh one =>
    exact ⟨h.pair, nofun, fun p hp => List.mem_append_left _ (h.member p hp)⟩
  | stages waiting target opened free =>
    refine ⟨.inr ⟨_, _, rfl, rfl, rfl, rfl⟩, nofun, fun p hp => ?_⟩
    cases hp
    simp
  | fails | activates =>
    exact ⟨.inl ⟨rfl, rfl⟩, nofun, nofun⟩
  | failsLate | activatesLate => exact ⟨h.pair, nofun, h.member⟩
  | closes free =>
    refine ⟨.inl ⟨rfl, rfl⟩, fun candidate p r hcall => ?_, nofun⟩
    cases free.symm.trans hcall

/-! ## Where a configuration is -/

/-- exactly one of: activated, aborted, staged -/
def InOne (v : View) (p : PreparedConfig) : Prop :=
  (p ∈ v.activated ∧ p ∉ v.aborted ∧ v.prepared ≠ some p) ∨ (p ∉ v.activated ∧ p ∈ v.aborted ∧ v.prepared ≠ some p) ∨
    (p ∉ v.activated ∧ p ∉ v.aborted ∧ v.prepared = some p)

structure Settled (v : View) : Prop where
  ids : ∀ p ∈ v.returned, p.id < v.returned.length
  activated : ∀ p ∈ v.activated, p ∈ v.returned
  aborted : ∀ p ∈ v.aborted, p ∈ v.returned
  one : ∀ p ∈ v.returned, InOne v p
  closed : v.state = .closed → v.prepared = none
  welcomed : v.state ≠ .new

/-- the operation does not notice a timeout while a configuration is staged -/
def Prompt (k : PayloadChecks) (c : Client) (op : ClientOp) : Prop :=
    c.session.prepared.isSome = true → ¬ Notices k c op

theorem Settled.move {state : SessionState} (h : Settled c.view) (hop : Prompt k c op) (hm : StateMove k c op state) :
    (state = .closed → c.session.prepared = none) ∧ state ≠ .new := by
  refine ⟨fun hs => ?_, fun hs => h.welcomed (hm.new hs)⟩
  rcases hm.closed hs with hc | hn
  · exact h.closed hc
  · by_contra hp
    exact hop (Option.isSome_iff_ne_none.2 hp) hn

/-- the staged configuration has neither been activated nor aborted -/
theorem Settled.staged (h : Settled v) (hp : Paired v) (hstaged : v.prepared = some p) :
    p ∉ v.activated ∧ p ∉ v.aborted := by
  rcases h.one p (hp.member p hstaged) with ⟨_, _, hne⟩ | ⟨_, _, hne⟩ | ⟨h1, h2, _⟩
  · exact absurd hstaged hne
  · exact absurd hstaged hne
  · exact ⟨h1, h2⟩

/-- a configuration that is not the staged one has been activated or aborted -/
theorem Settled.gone (h : Settled v) (hp : p ∈ v.returned) (hne : v.prepared ≠ some p) :
    (p ∈ v.activated ∧ p ∉ v.aborted) ∨ (p ∉ v.activated ∧ p ∈ v.aborted) := by
  rcases h.one p hp with ⟨h1, h2, _⟩ | ⟨h1, h2, _⟩ | ⟨_, _, h3⟩
  · exact .inl ⟨h1, h2⟩
  · exact .inr ⟨h1, h2⟩
  · exact absurd h3 hne

/-- a configuration the applier returns now is a new one -/
theorem Settled.fresh (h : Settled v) (hv : Paired v) (hp : p.id = v.returned.length) :
    p ∉ v.returned ∧ p ∉ v.activated ∧ p ∉ v.aborted ∧ v.prepared ≠ some p := by
  have hnew : p ∉ v.returned := fun hm => absurd (h.ids p hm) (by omega)
  exact ⟨hnew, fun hm => hnew (h.activated p hm), fun hm => hnew (h.aborted p hm), fun hs => hnew (hv.member p hs)⟩

/-- the staged configuration is settled: it is now among the activated or the aborted ones, and nothing is staged -/
theorem Settled.settle (h : Settled v) (hv : Paired v) (hstaged : v.prepared = some p) {v' : View}
    (hreturned : v'.returned = v.returned) (hprepared : v'.prepared = none) (hstate : v'.state ≠ .new)
    (hmove : v'.activated = v.activated ++ [p] ∧ v'.aborted = v.aborted ∨
      v'.activated = v.activated ∧ v'.aborted = v.aborted ++ [p]) : Settled v' := by
  have hp := hv.member p hstaged
  have hsub {l : List PreparedConfig} (hl : ∀ q ∈ l, q ∈ v.returned) (q : PreparedConfig) (hq : q ∈ l ++ [p]) :
      q ∈ v.returned := by
    rcases mem_snoc.1 hq with hq | rfl
    · exact hl q hq
    · exact hp
  obtain ⟨hnact, hnabort⟩ := h.staged hv hstaged
  refine ⟨by rw [hreturned]; exact h.ids, ?_, ?_, ?_, fun _ => hprepared, hstate⟩
  · rw [hreturned]
    rcases hmove with ⟨ha, _⟩ | ⟨ha, _⟩
    · rw [ha]; exact hsub h.activated
    · rw [ha]; exact h.activated
  · rw [hreturned]
    rcases hmove with ⟨_, hb⟩ | ⟨_, hb⟩
    · rw [hb]; exact h.aborted
    · rw [hb]; exact hsub h.aborted
  · intro q hq
    rw [hreturned] at hq
    unfold InOne
    rw [hprepared]
    by_cases hqp : q = p
    · subst hqp
      rcases hmove with ⟨ha, hb⟩ | ⟨ha, hb⟩
      · exact .inl ⟨by simp [ha], by rw [hb]; exact hnabort, nofun⟩
      · exact .inr (.inl ⟨by rw [ha]; exact hnact, by simp [hb], nofun⟩)
    · have hgone := h.gone hq (fun hs => hqp (Option.some.inj (hs.symm.trans hstaged)))
      rcases hmove with ⟨ha, hb⟩ | ⟨ha, hb⟩
      all_goals
        rw [ha, hb, mem_snoc, or_iff_left hqp]
        exact hgone.imp (fun h => ⟨h.1, h.2, nofun⟩) fun h => .inl ⟨h.1, h.2, nofun⟩

theorem Effect.settled (he : Effect k c op v) (hv : Paired c.view) (h : Settled c.view) (hop : Prompt k c op) :
    Settled v := by
  cases he with
  | idle move | hooks move =>
    obtain ⟨hclosed, hnew⟩ := h.move hop move
    exact { h with closed := hclosed, welcomed := hnew }
  | drains free => exact { h with closed := nofun, welcomed := nofun }
  | begins free fits source => exact { h with }
  | @drops _ call state dropped waiting prepares move fresh one =>
    obtain ⟨hclosed, hnew⟩ := h.move hop move
    refine ⟨fun p hp => ?_, fun p hp => List.mem_append_left _ (h.activated p hp), fun p hp => ?_,
      fun p hp => ?_, hclosed, hnew⟩
    · simp only [List.length_append]
      rcases List.mem_append.1 hp with hp | hp
      · exact Nat.lt_add_right _ (h.ids p hp)
      · rw [fresh p hp]
        exact Nat.lt_add_of_pos_right (List.length_pos_of_mem hp)
    · rcases List.mem_append.1 hp with hp | hp
      · exact List.mem_append_left _ (h.aborted p hp)
      · exact List.mem_append_right _ hp
    · rcases List.mem_append.1 hp with hp | hp
      · have hold : p ∉ dropped := fun hd => absurd (h.ids p hp) (by rw [fresh p hd]; exact lt_irrefl _)
        simpa [InOne, hold, Client.view] using h.one p hp
      · obtain ⟨_, hact, _, hstaged⟩ := h.fresh hv (fresh p hp)
        exact .inr (.inl ⟨hact, List.mem_append_right _ hp, hstaged⟩)
  | @stages _ call candidate waiting target opened free =>
    have hnone : c.session.prepared = none := by
      rcases hv.pair with ⟨_, hp⟩ | ⟨_, _, hcand, hprep, _⟩
      · exact hp
      · rcases free with hf | hf
        · cases hf.symm.trans hcand
        · exact hf
    have hfresh := h.fresh hv (p := ⟨c.returned.length, candidate.generation, candidate.contentHash⟩) rfl
    refine ⟨fun p hp => ?_, fun p hp => List.mem_append_left _ (h.activated p hp),
      fun p hp => List.mem_append_left _ (h.aborted p hp), fun p hp => ?_, nofun, nofun⟩
    · simp only [List.length_append, List.length_singleton]
      rcases mem_snoc.1 hp with hp | rfl
      · exact Nat.lt_succ_of_lt (h.ids p hp)
      · exact Nat.lt_succ_self _
    · rcases mem_snoc.1 hp with hp | rfl
      · have hne : p ≠ ⟨c.returned.length, candidate.generation, candidate.contentHash⟩ := fun he => hfresh.1 (he ▸ hp)
        have hstaged : some (PreparedConfig.mk c.returned.length candidate.generation candidate.contentHash) ≠ some p :=
          fun he => hne (Option.some.inj he).symm
        rcases h.gone hp (by rw [show c.view.prepared = none from hnone]; nofun) with ⟨h1, h2⟩ | ⟨h1, h2⟩
        · exact .inl ⟨h1, h2, hstaged⟩
        · exact .inr (.inl ⟨h1, h2, hstaged⟩)
      · exact .inr (.inr ⟨hfresh.2.1, hfresh.2.2.1, rfl⟩)
  | @fails _ candidate p r state waiting matched opened =>
    exact h.settle hv (hv.call candidate p r waiting).2.1 rfl rfl opened.2 (.inr ⟨rfl, rfl⟩)
  | failsLate waiting unmatched => cases unmatched.symm.trans (hv.isCandidate waiting)
  | @activates _ _ candidate p r waiting matched =>
    exact h.settle hv (hv.call candidate p r waiting).2.1 rfl rfl nofun (.inl ⟨rfl, rfl⟩)
  | @activatesLate _ candidate p r state waiting refused move =>
    -- the call is about the staged configuration, so the session is open and has not timed out
    have hstaged : c.session.prepared = some p := (hv.call candidate p r waiting).2.1
    exfalso
    rcases refused with hr | hr | hr | hr
    · cases hr.symm.trans (hv.isCandidate waiting)
    · cases hstaged.symm.trans (h.closed hr)
    · exact h.welcomed hr
    · exact hop (by rw [hstaged]; rfl) hr
  | closes free =>
    cases hstaged : c.session.prepared with
    | some p => exact h.settle hv hstaged rfl rfl nofun (.inr ⟨rfl, rfl⟩)
    | none =>
      refine ⟨h.ids, h.activated, ?_, ?_, fun _ => rfl, nofun⟩
      · simpa [Client.view] using h.aborted
      · intro p hp
        simpa [InOne, Client.view, hstaged] using h.one p hp

/-! ## A timeout while a configuration is staged -/

/-- the operation that notices the timeout closes the session and leaves everything else -/
theorem notices_closes (hfree : c.applying = none) (hn : Notices k c op) :
    (c.step k op).session = { c.session with state := .closed, disconnectReason := some .heartbeatTimeout } ∧
      (c.step k op).applying = none := by
  obtain ⟨h1, h2, t, hchecks, ht⟩ := hn
  have herror : c.session.ensureActiveLocked t =
      .error ({ c.session with state := .closed, disconnectReason := some .heartbeatTimeout },
        codeError .heartbeatTimeout .heartbeatTimeout true) := by
    unfold ensureActiveLocked
    rw [if_neg h1, if_neg h2, if_pos ht]
  unfold Client.step
  cases op with
  | applySnapshot | applyDelta =>
    simp only [Client.checks, hfree, Option.isNone_none, Bool.true_and, Option.ite_none_right_eq_some] at hchecks
    obtain ⟨hvalid, hnow⟩ := hchecks
    cases hnow
    simp [Client.perform, Client.begin, hfree, beginSnapshot, beginDelta, hvalid, herror]
  | prepared | activated => simp [Client.checks, hfree] at hchecks
  | markReady now canceled edgeReady routeReady originReady =>
    simp only [Client.checks, hfree, Option.isNone_none, if_true] at hchecks
    cases hchecks
    simp [Client.perform, Client.markReady, hfree, beginReady, herror]
  | heartbeat now =>
    cases hchecks
    simp [Client.perform, Client.answer, heartbeat, herror, hfree]
  | acceptHeartbeatAck now a =>
    simp only [Client.checks, Option.ite_none_right_eq_some] at hchecks
    obtain ⟨hvalid, hnow⟩ := hchecks
    cases hnow
    simp [Client.perform, Client.answer, acceptHeartbeatAck, hvalid, herror, hfree]
  | handleDrain canceled now d =>
    simp only [Client.checks, Option.ite_none_right_eq_some, Bool.and_eq_true, Bool.not_eq_true'] at hchecks
    obtain ⟨⟨hcanceled, hvalid⟩, hnow⟩ := hchecks
    cases hnow
    simp [Client.perform, Client.handleDrain, beginDrain, hcanceled, hvalid, herror, hfree]
  | drainStopped | drainCounted | close => cases hchecks
  | drainProgress canceled now streams forced =>
    simp only [Client.checks, Option.ite_none_right_eq_some, Bool.and_eq_true, Bool.not_eq_true', decide_eq_true_eq]
      at hchecks
    obtain ⟨⟨hstreams, hcanceled⟩, hnow⟩ := hchecks
    cases hnow
    simp [Client.perform, Client.answer, drainProgress, hcanceled, not_lt.2 hstreams, herror, hfree]
  | checkLease now =>
    cases hchecks
    simp [Client.perform, Client.answer, checkLease, herror, hfree]

/-- Close of a closed session returns at once -/
theorem close_closed (hfree : c.applying = none) (hstate : c.session.state = .closed) (reason : DisconnectReason)
    (abortFails : Bool) : c.step k (.close reason abortFails) = { c with closeReturned := true } := by
  simp only [Client.step, Client.perform, Client.close, hfree, hstate, if_true]

end

/-- what the session promises about prepared configurations -/
def Client.clean (c : Client) : Prop :=
  (∀ p ∈ c.returned, InOne c.view p) ∧ (c.session.state = .closed → c.closeReturned = true → c.session.prepared = none)

/-- **Prepared configurations.** In every run in which no operation notices a heartbeat timeout while a
configuration is staged, every configuration the applier has returned was activated, or aborted, or is the staged
one, exactly one of them, and none is staged once the session is closed and Close has returned. The condition is
needed: an operation that does notice a timeout then, with no call of the applier under way, is followed by a Close
that leaves the configuration staged in a closed session. -/
theorem staged_settled (k : PayloadChecks) (identity : Binding) (capabilities : List String) (heartbeatIntervalMS : ℕ)
    (leaseExpiresAt start : Time) (ops : List ClientOp) :
    let c₀ : Client := { session := .welcomed identity capabilities heartbeatIntervalMS leaseExpiresAt start }
    let c := run (·.step k) c₀ ops
    Throughout (·.step k) c₀ (Prompt k) ops →
      c.clean ∧ ∀ op reason abortFails, c.applying = none → ¬ Prompt k c op →
        ¬ (run (·.step k) c₀ (ops ++ [op, .close reason abortFails])).clean := by
  intro c₀ c hops
  have hinv : Paired c.view ∧ Settled c.view := by
    refine throughout_inv (I := fun c => Paired c.view ∧ Settled c.view) (·.step k) c₀ ?_ (fun c op hop ih => ?_) hops
    · exact ⟨⟨.inl ⟨rfl, rfl⟩, nofun, nofun⟩,
        ⟨nofun, nofun, nofun, nofun, fun _ => rfl, nofun⟩⟩
    · exact ⟨(step_effect op).paired ih.1, (step_effect op).settled ih.1 ih.2 hop⟩
  refine ⟨⟨hinv.2.one, fun hclosed _ => hinv.2.closed hclosed⟩, fun op reason abortFails hfree hop hclean => ?_⟩
  unfold Prompt at hop
  rw [Classical.not_imp, not_not] at hop
  obtain ⟨hsession, happlying⟩ := notices_closes hfree hop.2
  -- the Close finds a closed session and returns at once
  have hclose : run (·.step k) c₀ (ops ++ [op, .close reason abortFails]) =
      { c.step k op with closeReturned := true } := by
    rw [show ops ++ [op, .close reason abortFails] = ops ++ [op] ++
      [.close reason abortFails] by simp, run_snoc, run_snoc]
    exact close_closed happlying (congrArg state hsession) reason abortFails
  have hstaged := hclean.2 (by rw [hclose]; exact congrArg state hsession) (by rw [hclose])
  rw [hclose] at hstaged
  have hprepared : c.session.prepared = none := by
    have := congrArg prepared hsession
    exact this.symm.trans hstaged
  rw [hprepared] at hop
  cases hop.1

def clientOne : Client := { session := .welcomed connectorOne [] 1000 1000000000000 10 }

/-- the first snapshot is applied -/
def stageOne : List ClientOp := [.applySnapshot 10 false ((snapshotOf 1).bind connectorOne),
    .prepared 10 { prepared := true }]

theorem stageOne_prompt : Throughout (·.step anyPayload) clientOne (Prompt anyPayload) stageOne := by
  have hempty : Throughout (·.step anyPayload) clientOne (Prompt anyPayload) [] := fun pre op h => absurd h (by simp)
  have hfirst : Throughout (·.step anyPayload) clientOne (Prompt anyPayload) ([] ++ [stageOne.head (by decide)]) :=
    (throughout_snoc _ _).2 ⟨hempty, nofun⟩
  exact (throughout_snoc _ _).2 ⟨hfirst, fun h => absurd h (by decide +kernel)⟩

theorem stageOne_settled : Throughout (·.step anyPayload) clientOne (Prompt anyPayload) stageOne ∧
    (run (·.step anyPayload) clientOne stageOne).returned.length = 1 ∧
      (run (·.step anyPayload) clientOne stageOne).clean :=
  ⟨stageOne_prompt, by decide +kernel, (staged_settled anyPayload connectorOne
    [] 1000 1000000000000 10 stageOne stageOne_prompt).1⟩

/-- CheckLease notices after three seconds that the heartbeat is overdue, and then Close does not abort -/
theorem lease_leaves_staged :
    ¬ (run (·.step anyPayload) clientOne
      (stageOne ++ [.checkLease 3000000000, .close .serverShutdown false])).clean := by
  intro h
  have hstaged := h.2 (by decide +kernel) (by decide +kernel)
  revert hstaged
  decide +kernel

end Paperboat.Connector
