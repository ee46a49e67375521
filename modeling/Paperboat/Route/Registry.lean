/-
The generation registry (`tunnel/internal/route/matcher.go`): route generations are
staged, marked ready and promoted; streams are admitted by the active generation and
keep the generation that admitted them alive while it drains.

The state is what the lock protects. Generations and leases are never freed: a pointer
is the number of the allocation. One operation is one call, with two exceptions that a
caller can see:
- ActivateGeneration returns when the generation it superseded has drained, its context
  is done or its timer has fired. A call that waits is in `calls` as the pair of the
  superseded and the promoted generation, and each outcome is an operation of its own
  (`drained`, `cancelled`, `timer`), so any operation may come in between.
- ApplyGeneration is StageGeneration, then discardPending or MarkGenerationReady and
  ActivateGeneration, each under the lock on its own, so a run may interleave them too
  (`applyGeneration_run`).
Closing a lease is an operation too: a caller, a cancelled request and a cancelled
generation all close it that way. Telemetry is left out: nothing here reads it back.
-/
import Paperboat.Core.Machine
import Paperboat.Route.Matching

namespace Paperboat.Route

open Text Machine

structure RouteMatch where
  rule : RouteRule
  host : String
  path : String
  generation : ℕ
deriving DecidableEq, Repr

/-- one server-owned route -/
structure RouteIdentity where
  accountID : String
  tunnelID : String
  routeID : String
deriving DecidableEq, Repr

structure GenerationState where
  generation : ℕ
  rules : List RouteRule
  ready : Bool := false
  accepting : Bool := false
  streams : ℕ := 0
  /-- the set of leases -/
  leases : List ℕ := []
  /-- the channel of that name is closed -/
  drained : Bool := false
  /-- the context of that name is cancelled -/
  cancelled : Bool := false
deriving DecidableEq, Repr

/-- a request admitted by the generation `state` -/
structure StreamLease where
  state : ℕ
  found : RouteMatch
  closed : Bool := false
deriving DecidableEq, Repr

instance : Inhabited GenerationState := ⟨{ generation := 0, rules := [] }⟩

instance : Inhabited StreamLease :=
  ⟨{ state := 0, found := ⟨{ id := "", kind := .helperHTTPSWSS }, "", "", 0⟩, closed := true }⟩

structure GenerationRegistry where
  /-- generations by pointer, allocated below `nextGeneration` -/
  generations : ℕ → GenerationState := fun _ => default
  nextGeneration : ℕ := 0
  /-- leases by pointer, allocated below `nextLease` -/
  leases : ℕ → StreamLease := fun _ => default
  nextLease : ℕ := 0
  active : Option ℕ := none
  pending : Option ℕ := none
  closed : Bool := false
  /-- the waiting calls of ActivateGeneration: superseded and promoted generation -/
  calls : List (ℕ × ℕ) := []

/-- what is fixed when a registry is made; the parameters of the standard and third-party tables come with it -/
structure Options where
  u : Unicode
  toASCII : String → Option String
  maximumRoutes : ℕ
  maximumStreams : ℕ

/-- what a call returns besides an error -/
inductive Outcome where
  | done
  /-- ActivateGeneration has promoted the generation and waits -/
  | waiting
  /-- the lease a request got -/
  | lease (l : ℕ)
  /-- there was no such call to go on with -/
  | idle
deriving DecidableEq, Repr

/-! ## Small steps under the lock -/

section

variable (g : GenerationRegistry)

def GenerationRegistry.update (p : ℕ) (f : GenerationState → GenerationState) : GenerationRegistry :=
  { g with generations := Function.update g.generations p (f (g.generations p)) }

/-- markDrained: closes the channel and cancels the context, once -/
def GenerationState.markDrained (s : GenerationState) : GenerationState := { s with drained := true, cancelled := true }

def GenerationState.cancel (s : GenerationState) : GenerationState := { s with cancelled := true }

def GenerationState.markReady (s : GenerationState) : GenerationState := { s with ready := true }

def GenerationRegistry.cancelPending : GenerationRegistry :=
  match g.pending with
  | some p => g.update p .cancel
  | none => g

/-- release: the generation forgets the lease; a superseded one is drained with its last -/
def GenerationState.release (s : GenerationState) (l : ℕ) : GenerationState :=
  let left := { s with leases := s.leases.erase l, streams := s.streams - 1 }
  if left.accepting = false ∧ left.streams = 0 then left.markDrained else left

/-- StreamLease.Close, once -/
def GenerationRegistry.closeLease (l : ℕ) : GenerationRegistry :=
  if l < g.nextLease ∧ (g.leases l).closed = false then
    { g.update (g.leases l).state (fun s => s.release l) with
      leases := Function.update g.leases l { g.leases l with closed := true } }
  else g

def GenerationRegistry.closeLeases (ls : List ℕ) : GenerationRegistry := ls.foldl GenerationRegistry.closeLease g

/-- the pending generation becomes the active one and the active one stops accepting -/
def GenerationRegistry.promote (next : ℕ) : GenerationRegistry :=
  let swapped := { g.update next (fun s => { s with accepting := true }) with active := some next, pending := none }
  match g.active with
  | some old => swapped.update old fun s => { s with accepting := false }
  | none => swapped

/-- a new pending generation takes the place of the one there may be -/
def GenerationRegistry.install (generation : ℕ) (rules : List RouteRule) : GenerationRegistry :=
  let h := g.cancelPending
  { h with
    generations := Function.update h.generations h.nextGeneration { generation := generation, rules := rules }
    nextGeneration := h.nextGeneration + 1, pending := some h.nextGeneration }

/-- the generation counts a new lease -/
def GenerationRegistry.addLease (p : ℕ) (m : RouteMatch) : GenerationRegistry :=
  { g.update p (fun s => { s with streams := s.streams + 1, leases := g.nextLease :: s.leases }) with
    leases := Function.update g.leases g.nextLease { state := p, found := m }, nextLease := g.nextLease + 1 }

/-- the number of the active generation -/
def GenerationRegistry.activeNumber : Option ℕ := g.active.map fun p => (g.generations p).generation

def GenerationRegistry.pendingNumber : Option ℕ := g.pending.map fun p => (g.generations p).generation

end

/-! ## Operations -/

/-- the switch of StageGeneration on the generation it holds already, active or pending -/
def stageAgainst (held : Option GenerationState) (generation : ℕ) (rules : List RouteRule) :
    Option (Except RouteError Outcome) :=
  match held with
  | none => none
  | some h =>
    if generation < h.generation then some (.error .generationStale)
    else if generation = h.generation then
      if h.rules = rules then some (.ok .done) else some (.error .generationConflict)
    else none

section

variable (o : Options) (g : GenerationRegistry)

def stageGeneration (generation : ℕ) (rules : List RouteRule) : GenerationRegistry × Except RouteError Outcome :=
  if generation = 0 then (g, .error .invalid)
  else
    match normalizeRules o.u o.toASCII generation rules o.maximumRoutes with
    | .error e => (g, .error e)
    | .ok normalized =>
      if g.closed then (g, .error .generationClosed)
      else
        match stageAgainst (g.active.map g.generations) generation normalized,
          stageAgainst (g.pending.map g.generations) generation normalized with
        | some r, _ => (g, r)
        | none, some r => (g, r)
        | none, none => (g.install generation normalized, .ok .done)

def markGenerationReady (generation : ℕ) : GenerationRegistry × Except RouteError Outcome :=
  if g.closed then (g, .error .generationClosed)
  else if g.activeNumber = some generation then (g, .ok .done)
  else
    match g.pending with
    | some p =>
      if (g.generations p).generation = generation then (g.update p .markReady, .ok .done)
      else if generation < (g.generations p).generation ∨ (∃ a ∈ g.activeNumber, generation ≤ a) then
        (g, .error .generationStale)
      else (g, .error .generationNotReady)
    | none =>
      if ∃ a ∈ g.activeNumber, generation ≤ a then (g, .error .generationStale) else (g, .error .generationNotReady)

/-- the part of ActivateGeneration before it waits -/
def activateGeneration (generation : ℕ) : GenerationRegistry × Except RouteError Outcome :=
  if g.closed then (g, .error .generationClosed)
  else if g.activeNumber = some generation ∧ g.pending = none then (g, .ok .done)
  else
    match g.pending with
    | some p =>
      if (g.generations p).generation = generation then
        if (g.generations p).ready = false then (g, .error .generationNotReady)
        else
          match g.active with
          | none => (g.promote p, .ok .done)
          | some old =>
            if (g.generations old).streams = 0 then ((g.promote p).update old .markDrained, .ok .done)
            else ({ g.promote p with calls := g.calls ++ [(old, p)] }, .ok .waiting)
      else if (∃ a ∈ g.activeNumber, generation < a) ∨ generation < (g.generations p).generation then
        (g, .error .generationStale)
      else (g, .error .generationNotReady)
    | none =>
      if ∃ a ∈ g.activeNumber, generation < a then (g, .error .generationStale) else (g, .error .generationNotReady)

/-- the waiting call goes on: the superseded generation has drained -/
def drainDone (call : ℕ × ℕ) : GenerationRegistry × Except RouteError Outcome :=
  if call ∈ g.calls ∧ (g.generations call.1).drained then ({ g with calls := g.calls.erase call }, .ok .done)
  else (g, .ok .idle)

/-- the waiting call goes on: its context is done -/
def drainCancelled (call : ℕ × ℕ) : GenerationRegistry × Except RouteError Outcome :=
  if call ∈ g.calls then ({ g.update call.1 .cancel with calls := g.calls.erase call }, .error .contextDone)
  else (g, .ok .idle)

/-- a stream admitted under `rule` is still authorized by `next`: the first rule of its ID is the same route to the same
connector with the same access policy and desired state -/
def streamSurvives (rule : RouteRule) (next : List RouteRule) : Bool :=
  match next.find? fun c => c.id = rule.id with
  | none => false
  | some c =>
    c.routeID == rule.routeID && c.accountID == rule.accountID && c.tunnelID == rule.tunnelID &&
      c.hostID == rule.hostID &&
      c.connectorID == rule.connectorID && c.machineIdentityThumbprint == rule.machineIdentityThumbprint &&
      c.accessMode == rule.accessMode && c.viewerPolicyGeneration == rule.viewerPolicyGeneration &&
      c.desiredState == rule.desiredState && c.kind == rule.kind && c.target == rule.target

/-- the leases of the superseded generation that the new rules no longer authorize -/
def forceDrained (old : ℕ) (next : List RouteRule) : List ℕ :=
  (g.generations old).leases.filter fun l => !streamSurvives (g.leases l).found.rule next

/-- the waiting call goes on: its timer has fired -/
def drainTimer (call : ℕ × ℕ) : GenerationRegistry × Except RouteError Outcome :=
  if call ∈ g.calls then
    let cancelled := forceDrained g call.1 (g.generations call.2).rules
    ({ g.closeLeases cancelled with calls := g.calls.erase call }, if cancelled = [] then .ok .done
      else .error .drainTimeout)
  else (g, .ok .idle)

def matchesRouteIdentity (rule : RouteRule) (identity : RouteIdentity) : Bool :=
  identity.routeID != "" && (if rule.routeID = "" then rule.id else rule.routeID) == identity.routeID &&
    rule.accountID == identity.accountID && rule.tunnelID == identity.tunnelID

/-- the leases of the generation that belong to the routes -/
def fenced (old : ℕ) (identities : List RouteIdentity) : List ℕ :=
  (g.generations old).leases.filter fun l => identities.any (matchesRouteIdentity (g.leases l).found.rule)

/-- ActivateGenerationFencedRoutes; `ctxDone` is that the context is done already -/
def activateGenerationFencedRoutes (ctxDone : Bool) (generation : ℕ) (identities : List RouteIdentity) :
    GenerationRegistry × Except RouteError Outcome :=
  if identities = [] then (g, .error .invalid)
  else if ctxDone then (g, .error .contextDone)
  else if g.closed then (g, .error .generationClosed)
  else if g.activeNumber = some generation ∧ g.pending = none then (g, .ok .done)
  else
    match g.pending with
    | none => (g, .error .generationNotReady)
    | some p =>
      if (g.generations p).generation ≠ generation ∨ (g.generations p).ready = false then
        (g, .error .generationNotReady)
      else if ∃ a ∈ g.activeNumber, generation ≤ a then (g, .error .generationStale)
      else
        match g.active with
        | none => (g.promote p, .ok .done)
        | some old =>
          let h := (g.promote p).closeLeases (fenced g old identities)
          (if (h.generations old).streams = 0 then h.update old .markDrained else h, .ok .done)

def discardPending (generation : ℕ) : GenerationRegistry :=
  match g.pending with
  | some p => if (g.generations p).generation = generation then { g.update p .cancel with pending := none } else g
  | none => g

/-- the generation that accepts requests -/
def GenerationRegistry.acceptor : Option ℕ :=
  match g.active with
  | some p => if (g.generations p).accepting then some p else none
  | none => none

/-- the rule for a request, and the generation it comes from -/
def findRule (host path : String) : Except RouteError (ℕ × RouteMatch) :=
  match normalizeMatchHost o.u o.toASCII host, normalizeRequestPath path with
  | .ok h, .ok q =>
    match g.acceptor with
    | none => .error .noMatch
    | some p =>
      match chooseRuleFrom (g.generations p).rules (some (newRuleIndex (g.generations p).rules)) h q with
      | .error e => .error e
      | .ok r => .ok (p, ⟨r, h, q, (g.generations p).generation⟩)
  | _, _ => .error .noMatch

/-- GenerationRegistry.Match -/
def matchRoute (host path : String) : Except RouteError RouteMatch := (findRule o g host path).map Prod.snd

/-- Acquire: the rule is chosen without the exclusive lock and the choice is repeated until the generation is still the
active one when the stream is counted, so it comes from the generation that admits the stream -/
def acquire (host path : String) : GenerationRegistry × Except RouteError Outcome :=
  match findRule o g host path with
  | .error e => (g, .error e)
  | .ok (p, m) =>
    if (g.generations p).streams ≥ o.maximumStreams then (g, .error .streamOverloaded)
    else (g.addLease p m, .ok (.lease g.nextLease))

def closeRegistry : GenerationRegistry :=
  if g.closed then g
  else
    let h := g.cancelPending
    match g.active with
    | some p => { h.update p .markDrained with closed := true }
    | none => { h with closed := true }

end

/-! ## Runs -/

inductive Op where
  | stage (generation : ℕ) (rules : List RouteRule)
  | markReady (generation : ℕ)
  | activate (generation : ℕ)
  | drained (call : ℕ × ℕ)
  | cancelled (call : ℕ × ℕ)
  | timer (call : ℕ × ℕ)
  | fence (ctxDone : Bool) (generation : ℕ) (identities : List RouteIdentity)
  | discard (generation : ℕ)
  | acquire (host path : String)
  | closeLease (l : ℕ)
  | close

/-- one operation: the new state and what the caller sees -/
def perform (o : Options) (g : GenerationRegistry) : Op → GenerationRegistry × Except RouteError Outcome
  | .stage n rules => stageGeneration o g n rules
  | .markReady n => markGenerationReady g n
  | .activate n => activateGeneration g n
  | .drained c => drainDone g c
  | .cancelled c => drainCancelled g c
  | .timer c => drainTimer g c
  | .fence d n ids => activateGenerationFencedRoutes g d n ids
  | .discard n => (discardPending g n, .ok .done)
  | .acquire host path => acquire o g host path
  | .closeLease l => (g.closeLease l, .ok .done)
  | .close => (closeRegistry g, .ok .done)

def step (o : Options) (g : GenerationRegistry) (op : Op) : GenerationRegistry := (perform o g op).1

/-- the registry after the operations -/
def after (o : Options) (ops : List Op) : GenerationRegistry := run (step o) {} ops

/-- ApplyGeneration when nothing comes in between: a nil callback is refused, a callback's error drops the pending
generation again -/
def applyGeneration (o : Options) (g : GenerationRegistry) (generation : ℕ) (rules : List RouteRule)
    (ready : Option (Except RouteError Unit)) : GenerationRegistry × Except RouteError Outcome :=
  match ready with
  | none => (g, .error .generationNotReady)
  | some answer =>
    match stageGeneration o g generation rules, answer with
    | (g, .error e), _ => (g, .error e)
    | (g, .ok _), .error e => (discardPending g generation, .error e)
    | (g, .ok _), .ok () =>
      match markGenerationReady g generation with
      | (g, .error e) => (g, .error e)
      | (g, .ok _) => activateGeneration g generation

/-- ApplyGeneration is a run of the operations it consists of -/
theorem applyGeneration_run (o : Options) (g : GenerationRegistry) (generation : ℕ) (rules : List RouteRule)
    (ready : Option (Except RouteError Unit)) :
    ∃ ops, (applyGeneration o g generation rules ready).1 = run (step o) g ops := by
  unfold applyGeneration
  cases ready with
  | none => exact ⟨[], rfl⟩
  | some answer =>
    cases hs : stageGeneration o g generation rules with
    | mk g₁ r =>
      have h₁ : g₁ = step o g (.stage generation rules) := by simp only [step, perform, hs]
      cases r with
      | error e => exact ⟨[.stage generation rules], h₁⟩
      | ok _ =>
        cases answer with
        | error e => exact ⟨[.stage generation rules, .discard generation], by rw [h₁]; rfl⟩
        | ok _ =>
          cases hm : markGenerationReady g₁ generation with
          | mk g₂ r =>
            have h₂ : g₂ = step o g₁ (.markReady generation) := by simp only [step, perform, hm]
            simp only [hm]
            cases r with
            | error e => exact ⟨[.stage generation rules, .markReady generation], by rw [h₂, h₁]; rfl⟩
            | ok _ =>
              exact ⟨[.stage generation rules, .markReady generation, .activate generation], by rw [h₂, h₁]; rfl⟩

end Paperboat.Route
