/-
The peer relay: which pairs of endpoints have a UDP relay allocation, and whose account
each is charged to.

A request is a control message of a connection of the relay that names two discovery
keys. AuthorizePair looks them up among the connections of the relay (`Relay.Server`)
and charges the account of the one named first. What a lease's Valid says at the moments
it is asked, whether the upstream server has an endpoint for the pair, and the message's
encryption and parsing are answers that come with the operation (`Control`), so that the
relay may change in between.

Results:
- `handleControl_granted`, `handleControl_refused`: what a request leaves;
- `bounded_step_iff`: an operation keeps the bounds exactly if it does not hand a live
  allocation over to an account that is full (`Charged`);
- `allocations_bounded_iff`: **the bounds**; in a run they hold at all times exactly if
  all operations are such.

Witnesses:
- `handed_over`: sixteen pairs named one way, a seventeenth named the other way and then
  again.

Premises:
- rates are exact numbers;
- forwarding and the counters of Snapshot are left out.
-/
import Paperboat.Relay.Server

namespace Paperboat.PeerRelay

open Table Relay

/-! ## Model -/

def maxAllocations : Nat := 128

def maxAccountAllocations : Nat := 16

inductive ControlError
  | relay (e : RelayError)
  | closed
  | upstream
deriving DecidableEq, Repr

/-- the connections the lease was made for, and the account it is charged to -/
structure PairLease where
  a : ConnID
  b : ConnID
  account : String
deriving DecidableEq, Repr

structure Allocation where
  lease : PairLease
  expires : ℤ
deriving DecidableEq, Repr

/-- a bucket of packets; it is full when it is first asked -/
structure Rate where
  last : Option ℤ := none
  packets : ℚ := 0
deriving DecidableEq, Repr

def Rate.filled (r : Rate) (now : ℤ) (perSecond burst : ℚ) : ℚ :=
  match r.last with
  | none => burst
  | some last => min burst (r.packets + (now - last : ℤ) / second * perSecond)

def Rate.allow (r : Rate) (now : ℤ) (perSecond burst : ℚ) : Rate × Bool :=
  if r.filled now perSecond burst < 1 then (⟨some now, r.filled now perSecond burst⟩, false)
  else (⟨some now, r.filled now perSecond burst - 1⟩, true)

/-- the pair of keys in whichever order -/
def sortedPair (a b : String) : String × String := if b < a then (b, a) else (a, b)

section Authorize

variable (env : Platform) (service : ServiceDescriptor) (relay : Relay.Server)

def serviceAllowedLocked (p : ConnID) (now : ℤ) : Bool :=
  relay.registered env p && (relay.conns p).grant.peerRelay == some service &&
    (!relay.draining || decide (now < relay.deadline))

/-- the discovery key of a connection; a staged carrier has its own -/
def discoOf (p : ConnID) : String :=
  if (relay.conns p).namespaceOf == "" then (relay.conns p).grant.discoPublicKey else (relay.conns p).generationDisco

/-- the connections in the namespace of `source` with this discovery key -/
def named (source : ConnID) (disco : String) : List ConnID :=
  (relay.peers.entries.map (·.2)).filter fun p =>
    (relay.conns p).namespaceOf == (relay.conns source).namespaceOf && discoOf relay p == disco

/-- `valid` is what validLocked says about the lease -/
def authorizePair (source : ConnID) (a b : String) (now : ℤ) (valid : Bool) : Except RelayError PairLease :=
  if relay.draining then .error .overload
  else if !validKey a || !validKey b || a == b || !serviceAllowedLocked env service relay source now then
    .error (.admission "")
  else match named relay source a, named relay source b with
    | [first], [second] =>
      if source != first && source != second then .error (.admission "")
      else if !valid then .error (.admission "")
      else .ok ⟨first, second, (relay.conns first).grant.accountID⟩
    | _, _ => .error (.admission "")

end Authorize

/-- a request: who sends it in which state of the relay, the keys it names once it is opened, and the answers it
gets: of validLocked, of Valid before the lock, of Valid for the allocation that is there, of the upstream server,
and of Valid again -/
structure Control where
  relay : Relay.Server
  source : ConnID
  clientDisco : Except RelayError (String × String)
  now : ℤ
  authorized : Bool
  expires : Option ℤ
  currentValid : Bool
  upstreamFails : Bool
  stillValid : Bool

structure Server where
  allocations : AList fun _ : String × String => Allocation := ∅
  accounts : AList fun _ : String => Rate := ∅
  closed : Bool := false

namespace Server

variable (env : Platform) (service : ServiceDescriptor) (s : Server)

/-- the part of a request before the lock: the pair, its lease and until when -/
def lease (r : Control) : Except ControlError ((String × String) × PairLease × ℤ) :=
  match r.clientDisco with
  | .error e => .error (.relay e)
  | .ok (a, b) =>
    match authorizePair env service r.relay r.source a b r.now r.authorized with
    | .error e => .error (.relay e)
    | .ok lease =>
      match r.expires with
      | none => .error (.relay (.admission ""))
      | some expires => .ok (sortedPair a b, lease, expires)

/-- does the account pay for the allocation -/
def pays (account : String) (a : Allocation) : ℕ := if a.lease.account = account then 1 else 0

/-- the allocations that are charged to the account -/
def charged (account : String) : ℕ := total (pays account) s.allocations

/-- an allocation whose lease is no longer valid is revoked -/
def dropInvalid (pair : String × String) (valid : Bool) : Server :=
  if valid then s else { s with allocations := s.allocations.erase pair }

/-- the account's bucket, after it was asked -/
def paced (account : String) (now : ℤ) : Rate × Bool := ((s.accounts.lookup account).getD {}).allow now 8 8

def pace (account : String) (now : ℤ) : Server :=
  { s with accounts := s.accounts.insert account (s.paced account now).1 }

/-- the part under the lock -/
def allocate (r : Control) (pair : String × String) (lease : PairLease) (expires : ℤ) :
    Server × Except ControlError Unit :=
  if s.closed then (s, .error .closed)
  else
    let t := s.dropInvalid pair r.currentValid
    if (t.allocations.lookup pair).isNone &&
        (maxAllocations ≤ t.allocations.entries.length || maxAccountAllocations ≤ t.charged lease.account) then
      (t, .error (.relay .overload))
    else if !(t.paced lease.account r.now).2 then (t.pace lease.account r.now, .error (.relay .overload))
    else if r.upstreamFails then (t.pace lease.account r.now, .error .upstream)
    else if !r.stillValid then (t.pace lease.account r.now, .error (.relay (.admission "")))
    else ({ t.pace lease.account r.now with allocations := t.allocations.insert pair ⟨lease, expires⟩ }, .ok ())

def handleControl (r : Control) : Server × Except ControlError Unit :=
  match lease env service r with
  | .error e => (s, .error e)
  | .ok (pair, lease, expires) => s.allocate r pair lease expires

/-- is the allocation still there after a tick: its lease is valid, and if that was renewed the upstream server goes
along -/
def maintained (valid : String × String → Option ℤ) (upstreamFails : String × String → Bool)
    (pair : String × String) : Bool :=
  match s.allocations.lookup pair, valid pair with
  | some a, some expiry => expiry == a.expires || !upstreamFails pair
  | _, _ => false

/-- one tick of maintain -/
def maintain (valid : String × String → Option ℤ) (upstreamFails : String × String → Bool) : Server :=
  let kept := keep (s.maintained valid upstreamFails) s.allocations
  let renewed := mapWith (fun pair a => { a with expires := (valid pair).getD a.expires }) kept
  { s with
    allocations := renewed
    accounts := keep (fun account => renewed.entries.any fun e => e.2.lease.account == account) s.accounts }

def close : Server := { s with closed := true }

end Server

/-- what can happen to the peer relay -/
inductive RelayOp
  | control (r : Control)
  | tick (valid : String × String → Option ℤ) (upstreamFails : String × String → Bool)
  | close

namespace Server

variable (env : Platform) (service : ServiceDescriptor)

def step (s : Server) : RelayOp → Server
  | .control r => (s.handleControl env service r).1
  | .tick valid upstreamFails => s.maintain valid upstreamFails
  | .close => s.close

/-- the relay after the operations -/
def after (ops : List RelayOp) : Server := Machine.run (step env service) {} ops

/-! ## The bounds -/

structure Bounded (s : Server) : Prop where
  allocations : s.allocations.entries.length ≤ maxAllocations
  accounts : ∀ account, s.charged account ≤ maxAccountAllocations

/-- a request that is granted for a pair whose allocation is live and charged to another account finds room in its
account -/
def Charged (s : Server) : RelayOp → Prop
  | .control r => ∀ pair lease expires old, Server.lease env service r = .ok (pair, lease, expires) → s.closed = false →
      r.currentValid = true → s.allocations.lookup pair = some old → old.lease.account ≠ lease.account →
      (s.paced lease.account r.now).2 = true → r.upstreamFails = false → r.stillValid = true →
      s.charged lease.account < maxAccountAllocations
  | _ => True

variable {env service} {s : Server}

/-- no allocation is new and none is charged to another account -/
structure Within (s t : Server) : Prop where
  allocations : t.allocations.entries.length ≤ s.allocations.entries.length
  accounts : ∀ account, t.charged account ≤ s.charged account

theorem Within.refl (s : Server) : Within s s := ⟨le_rfl, fun _ => le_rfl⟩

variable {t : Server}

theorem Bounded.within (h : s.Bounded) (ht : Within s t) : t.Bounded :=
  ⟨ht.allocations.trans h.allocations, fun account => (ht.accounts account).trans (h.accounts account)⟩

theorem within_dropInvalid (s : Server) (pair : String × String) (valid : Bool) :
    Within s (s.dropInvalid pair valid) := by
  unfold dropInvalid
  split_ifs
  · exact Within.refl s
  · refine ⟨?_, fun account => ?_⟩
    · rw [length_erase]
      omega
    · change total _ (s.allocations.erase pair) ≤ total _ s.allocations
      rw [← total_erase _ s.allocations pair]
      omega

theorem within_maintain (s : Server) (valid : String × String → Option ℤ) (upstreamFails : String × String → Bool) :
    Within s (s.maintain valid upstreamFails) := by
  have hle : ∀ w : Allocation → ℕ, (∀ a expires, w { a with expires := expires } = w a) →
      total w (s.maintain valid upstreamFails).allocations ≤ total w s.allocations := by
    intro w hw
    unfold maintain
    rw [total_mapWith fun _ a => hw a _]
    exact total_keep_le ..
  refine ⟨?_, fun account => hle _ fun _ _ => rfl⟩
  rw [← total_one, ← total_one]
  exact hle _ fun _ _ => rfl

variable (env service s) in
/-- the request passes every check -/
structure Granted (r : Control) (pair : String × String) (lease : PairLease) (expires : ℤ) : Prop where
  leased : Server.lease env service r = .ok (pair, lease, expires)
  opened : s.closed = false
  room : (s.dropInvalid pair r.currentValid).allocations.lookup pair = none →
    (s.dropInvalid pair r.currentValid).allocations.entries.length < maxAllocations ∧
      (s.dropInvalid pair r.currentValid).charged lease.account < maxAccountAllocations
  paced : (s.paced lease.account r.now).2 = true
  upstream : r.upstreamFails = false
  valid : r.stillValid = true

theorem paced_dropInvalid (s : Server) (pair : String × String) (valid : Bool) (account : String) (now : ℤ) :
    (s.dropInvalid pair valid).paced account now = s.paced account now := by
  unfold dropInvalid
  split_ifs <;> rfl

/-- the check of the counts -/
theorem room_iff (t : Server) (pair : String × String) (account : String) :
    ((t.allocations.lookup pair).isNone && (decide (maxAllocations ≤ t.allocations.entries.length) ||
      decide (maxAccountAllocations ≤ t.charged account))) = false ↔
    (t.allocations.lookup pair = none → t.allocations.entries.length < maxAllocations ∧
      t.charged account < maxAccountAllocations) := by
  cases t.allocations.lookup pair <;> simp

variable {pair : String × String}

/-- what a request leaves that passes -/
theorem handleControl_granted {r : Control} {lease : PairLease} {expires : ℤ}
    (h : s.Granted env service r pair lease expires) : (s.handleControl env service r).1.allocations =
      (s.dropInvalid pair r.currentValid).allocations.insert pair ⟨lease, expires⟩ := by
  have hroom := (room_iff (s.dropInvalid pair r.currentValid) pair lease.account).2 h.room
  unfold handleControl
  rw [h.leased]
  unfold allocate
  rw [h.opened]
  simp only [hroom, paced_dropInvalid, h.paced, h.upstream, h.valid, Bool.false_eq_true, if_false, Bool.not_true]

/-- and one that does not -/
theorem handleControl_refused {r : Control} (h : ∀ pair lease expires, ¬ s.Granted env service r pair lease expires) :
    Within s (s.handleControl env service r).1 := by
  unfold handleControl
  split
  · exact Within.refl s
  next pair lease expires hleased =>
    have hdropped := within_dropInvalid s pair r.currentValid
    have hpace : ∀ account, Within s ((s.dropInvalid pair r.currentValid).pace account r.now) :=
      fun _ => ⟨hdropped.allocations, hdropped.accounts⟩
    unfold allocate
    dsimp only
    split_ifs with hclosed hroom hpaced hupstream hvalid
    · exact Within.refl s
    · exact hdropped
    · exact hpace _
    · exact hpace _
    · exact hpace _
    · refine absurd ⟨hleased, by simpa using hclosed, ?_, ?_, by simpa using hupstream, by simpa using hvalid⟩
        (h pair lease expires)
      · simpa using hroom
      · rw [← paced_dropInvalid s pair r.currentValid]
        simpa using hpaced

/-- a new pair adds one allocation to the account of its lease -/
theorem bounded_insert_new {u : Server} {a : Allocation} (h : t.Bounded)
    (hu : u.allocations = t.allocations.insert pair a) (hnone : t.allocations.lookup pair = none)
    (hroom : t.allocations.entries.length < maxAllocations)
    (haccount : t.charged a.lease.account < maxAccountAllocations) :
    u.Bounded := by
  constructor
  · rw [hu, length_insert, hnone, if_neg (by simp)]
    omega
  · intro account
    have hinsert := total_insert (pays account) t.allocations pair a
    rw [hnone, Option.map_none, Option.getD_none, ← hu] at hinsert
    change u.charged account = t.charged account + pays account a at hinsert
    have hbefore := h.accounts account
    unfold pays at hinsert
    split_ifs at hinsert with hown
    · rw [hown] at haccount
      omega
    · omega

/-- a pair that is there keeps its allocation, which may be charged to another account from now on -/
theorem bounded_insert_iff {u : Server} {a old : Allocation} (h : t.Bounded)
    (hu : u.allocations = t.allocations.insert pair a) (hold : t.allocations.lookup pair = some old) :
    u.Bounded ↔ (old.lease.account ≠ a.lease.account → t.charged a.lease.account < maxAccountAllocations) := by
  have hlength : u.allocations.entries.length = t.allocations.entries.length := by
    rw [hu, length_insert, hold, Option.isSome_some, if_pos rfl, Nat.add_zero]
  have hcharged : ∀ account, u.charged account + pays account old = t.charged account + pays account a := by
    intro account
    have hinsert := total_insert (pays account) t.allocations pair a
    rwa [hold, Option.map_some, ← hu] at hinsert
  constructor
  · intro hbounded hne
    have hafter := hcharged a.lease.account
    have hle := hbounded.accounts a.lease.account
    rw [pays, pays, if_neg hne, if_pos rfl] at hafter
    omega
  · intro hroom
    refine ⟨hlength ▸ h.allocations, fun account => ?_⟩
    have hafter := hcharged account
    have hbefore := h.accounts account
    unfold pays at hafter
    by_cases hown : a.lease.account = account
    · subst hown
      by_cases hsame : old.lease.account = a.lease.account
      · rw [if_pos hsame, if_pos rfl] at hafter
        omega
      · have := hroom hsame
        rw [if_pos rfl] at hafter
        omega
    · rw [if_neg hown] at hafter
      omega

theorem lookup_dropInvalid {valid : Bool} {old : Allocation} :
    (s.dropInvalid pair valid).allocations.lookup pair = some old ↔ valid = true ∧
      s.allocations.lookup pair = some old := by
  cases valid with
  | true => exact ⟨fun h => ⟨rfl, h⟩, fun h => h.2⟩
  | false => simp [dropInvalid]

theorem bounded_control_iff (h : s.Bounded) (r : Control) :
    (s.step env service (.control r)).Bounded ↔ s.Charged env service (.control r) := by
  change (s.handleControl env service r).1.Bounded ↔ _
  by_cases hgranted : ∃ pair lease expires, s.Granted env service r pair lease expires
  · obtain ⟨pair, lease, expires, hg⟩ := hgranted
    have hinsert := handleControl_granted hg
    have hdropped := h.within (within_dropInvalid s pair r.currentValid)
    have hunique : ∀ {pair' lease' expires'}, Server.lease env service r = .ok (pair', lease', expires') →
        pair' = pair ∧ lease' = lease := by
      intro pair' lease' expires' hleased
      have heq := hleased.symm.trans hg.leased
      simp only [Except.ok.injEq, Prod.mk.injEq] at heq
      exact ⟨heq.1, heq.2.1⟩
    cases hfound : (s.dropInvalid pair r.currentValid).allocations.lookup pair with
    | none =>
      -- a new pair: both counts were checked
      obtain ⟨hroom, haccount⟩ := hg.room hfound
      refine iff_of_true (bounded_insert_new hdropped hinsert hfound hroom haccount) ?_
      intro pair' lease' expires' old hleased _ hcurrent hold
      obtain ⟨rfl, rfl⟩ := hunique hleased
      rw [lookup_dropInvalid.2 ⟨hcurrent, hold⟩] at hfound
      cases hfound
    | some old =>
      -- a pair that is there: the lease is replaced without a look at the counts
      obtain ⟨hcurrent, hold⟩ := lookup_dropInvalid.1 hfound
      rw [bounded_insert_iff hdropped hinsert hfound, hcurrent]
      constructor
      · intro hroom pair' lease' expires' old' hleased _ _ hold' hne _ _ _
        obtain ⟨rfl, rfl⟩ := hunique hleased
        cases hold.symm.trans hold'
        exact hroom hne
      · intro hcharged hne
        exact hcharged pair lease expires old hg.leased hg.opened hcurrent hold hne hg.paced hg.upstream hg.valid
  · simp only [not_exists] at hgranted
    refine iff_of_true (h.within (handleControl_refused hgranted)) ?_
    intro pair lease expires old hleased hopened hcurrent hold _ hpaced hupstream hvalid
    refine absurd ⟨hleased, hopened, fun hnone => ?_, hpaced, hupstream, hvalid⟩ (hgranted pair lease expires)
    rw [lookup_dropInvalid.2 ⟨hcurrent, hold⟩] at hnone
    cases hnone

/-- one operation -/
theorem bounded_step_iff (h : s.Bounded) (op : RelayOp) :
    (s.step env service op).Bounded ↔ s.Charged env service op := by
  cases op with
  | control r => exact bounded_control_iff h r
  | tick valid upstreamFails => exact iff_of_true (h.within (within_maintain s valid upstreamFails)) trivial
  | close => exact iff_of_true (h.within ⟨le_rfl, fun _ => le_rfl⟩) trivial

/-- **The bounds.** In a run at most `maxAllocations` pairs are allocated and at most `maxAccountAllocations` are
charged to any account, at all times, exactly if no live allocation is handed over to an account that has no room. -/
theorem allocations_bounded_iff (env : Platform) (service : ServiceDescriptor) (ops : List RelayOp) :
    (∀ pre, pre <+: ops → (after env service pre).Bounded) ↔
      Machine.Throughout (step env service) {} (Charged env service) ops :=
  Machine.always_iff_throughout (step env service) {} (I := Bounded) ⟨by decide, fun _ => by simp [charged, total]⟩
    (fun _ op h => bounded_step_iff h op) ops

/-! ## One account too full -/

def keyNumbered (c : Char) (n : Nat) : String :=
  String.ofList (c :: "BCDEFGHIJKLMNOPQRSTUVWXYZ".toList.getD n 'B' :: List.replicate 41 'A')

def peerRelay : ServiceDescriptor := ⟨keyNumbered 's' 0, keyNumbered 't' 0, "fd7a:115c:a1e0::1"⟩

def sharedScope (n : Nat) (direction : String) : Scope :=
    ⟨"machine_access", toString n, 1, "terminal", direction, 443, 1000⟩

def numberedPeer (n : Nat) (scope : Scope) : Peer := ⟨keyNumbered 'w' n, keyNumbered 'd' n, [scope]⟩

/-- endpoint 0 of account a shares a machine with each of seventeen endpoints of account b -/
def meshGrant (n : Nat) : Grant :=
  { grantFor (toString n) (keyNumbered 'w' n) 1 0 (if n = 0 then (List.range 17).map fun i => numberedPeer (i + 1)
        (sharedScope (i + 1) "dial") else [numberedPeer 0 (sharedScope n "accept")]) with
    accountID := if n = 0 then "a" else "b"
    discoPublicKey := keyNumbered 'd' n
    peerRelay := some peerRelay }

/-- all of them are connected -/
def mesh : Relay.Server where
  conns n := { key := some (keyNumbered 'w' n), grant := meshGrant n }
  peers := (List.range 18).foldl (fun peers n => peers.insert (keyNumbered 'w' n) n) ∅

/-- endpoint 0 asks for the pair, named in this order -/
def ask (first second : Nat) (at_ : ℤ) : RelayOp := .control
  { relay := mesh, source := 0, clientDisco := .ok (keyNumbered 'd' first, keyNumbered 'd' second),
    now := at_ * Relay.second, authorized := true, expires := some (60 * Relay.second), currentValid := true,
    upstreamFails := false, stillValid := true }

/-- sixteen pairs are charged to account a and one to b; named the other way round, that one is charged to a as well -/
theorem handed_over :
    let ops := (List.range 16).map (fun i => ask 0 (i + 1) i) ++ [ask 17 0 16, ask 0 17 17]
    (∀ n ∈ List.range 17, allowedAdmitted (meshGrant 0) (meshGrant (n + 1)) = true) ∧
      (after platform peerRelay ops).charged "a" = 17 ∧ ¬ (after platform peerRelay ops).Bounded := by
  refine ⟨by decide +kernel, by decide +kernel, fun h => ?_⟩
  exact absurd (h.accounts "a") (by decide +kernel)

end Server

end Paperboat.PeerRelay
