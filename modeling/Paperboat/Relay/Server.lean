/-
The relay server: connections, the table of registered peers, the fences of the
endpoints, and the operations on them, each of which happens under the server's lock.

A credential is authenticated (every part is verified, the parts are merged) and
admitted on a connection: the first time, or again while the connection lives.

Results:
- `authenticate_ok`, `authenticate_none`: what an admission leaves, and what it takes to
  pass;
- `authenticate_cases`: an authentication admits a grant of the credential, or leaves
  every registered connection and its grant alone;
- `revoke_cases`: a revocation is refused, finds the endpoint fenced, or closes the
  endpoint's connections.

Premises:
- reading a credential that breaks off, byte budgets and the packets themselves are left
  out;
- the relay-service leases, which hold on to a fence record, are left out too, so that a
  fence is its grant.
-/
import Paperboat.Core.Table
import Paperboat.Core.Machine
import Paperboat.Relay.Grant

namespace Paperboat.Relay

open Table Index

/-! ## Model -/

def maxConnections : Nat := 16384

abbrev ConnID := Nat

/-- the last peer the connection was found paired with, and both signed hashes at the time -/
structure PairMemo where
  peer : ConnID
  mine : String
  theirs : String
deriving DecidableEq, Repr

/-- `key` is `none` until the connection is admitted -/
structure PeerConn where
  key : Option String := none
  namespaceOf : String := ""
  generationDisco : String := ""
  grant : Grant := {}
  paired : Option PairMemo := none
deriving DecidableEq, Repr

/-- `peers` by route key; `fences` by endpoint -/
structure Server where
  connectionLimit : Nat := maxConnections
  conns : ConnID → PeerConn := fun _ => {}
  peers : AList fun _ : String => ConnID := ∅
  fences : AList fun _ : String => Grant := ∅
  quotaDenied : List String := []
  draining : Bool := false
  deadline : ℤ := 0

namespace Server

variable (env : Platform) (s : Server)

def accountShareLocked : Nat := max 1 (s.connectionLimit - s.connectionLimit / 10)

/-- a fence of a revocation has no key, and nothing is live for it -/
def liveGrantLocked (g : Grant) : Bool :=
  validKey g.wireGuardPublicKey && s.peers.entries.any fun e =>
    (s.conns e.2).key == some g.wireGuardPublicKey && grantID (s.conns e.2).grant == grantID g

/-- is the fence kept at this time -/
def fenceKept (now : ℤ) (id : String) (fence : Grant) : Bool :=
  unix now < fence.expiresAt || s.liveGrantLocked fence && grantID fence == id

/-- the fences that are still kept -/
def pruneFences (now : ℤ) : Server :=
  { s with fences := keep (fun id => (s.fences.lookup id).any (s.fenceKept now id)) s.fences }

/-- a further part of the grant the connection has -/
def merging (c : PeerConn) (g : Grant) : Bool :=
  c.key.isSome && c.grant.generation == g.generation && c.grant.signedHash != g.signedHash &&
    sameGrantIdentity c.grant g

/-- the fence is of a later generation -/
def olderThanFence (g : Grant) : Bool := (s.fences.lookup (grantID g)).any (g.generation < ·.generation)

variable (p : ConnID) (g : Grant)

/-- the fence is a grant of the same generation with another authority, and the grant is no further part of it -/
def fenceConflict (instant : ℤ) : Bool :=
  !merging (s.conns p) g && (s.fences.lookup (grantID g)).any fun fence => fence.accountID != "" &&
    g.generation == fence.generation && g.signedHash != fence.signedHash && !sameGrantAuthority instant fence g

def identityChanged : Bool :=
  (s.conns p).key.isSome && ((s.conns p).key != some g.wireGuardPublicKey ||
    (s.conns p).grant.accountID != g.accountID || (s.conns p).grant.endpointID != g.endpointID)

/-- the connection that has the route of the key, in the namespace of `p` -/
def owner : Option ConnID :=
  s.peers.lookup (env.routeKey g.wireGuardPublicKey (s.conns p).namespaceOf)

def routeOwned : Bool :=
  (s.owner env p g).any fun old => old != p && ((s.conns old).grant.accountID != g.accountID ||
    (s.conns old).grant.endpointID != g.endpointID || g.generation < (s.conns old).grant.generation)

/-- the connections of the account, without this one and the one it takes over from -/
def accountConnections : Nat :=
  (s.peers.entries.filter fun e => (s.conns e.2).grant.accountID == g.accountID && e.2 != p).length -
    if (s.owner env p g).any (· != p) then 1 else 0

def noRoom : Bool :=
  (s.conns p).key.isNone && (s.accountShareLocked ≤ s.accountConnections env p g ||
    maxConnections ≤ s.fences.entries.length && (s.fences.lookup (grantID g)).isNone)

/-- a further part is merged with the grant the connection has -/
def combined : Except RelayError Grant :=
  if merging (s.conns p) g then mergeGrants (s.conns p).grant g else .ok g

/-- the checks after the fences were pruned, and the grant to commit -/
def admitted (instant : ℤ) : Except RelayError Grant :=
  if s.olderThanFence g || s.fenceConflict p g instant then .error (.admission "fence")
  else if s.identityChanged p g then .error (.admission "connection identity changed")
  else if s.routeOwned env p g then .error (.admission "route owned by another grant")
  else if s.noRoom env p g then .error .overload
  else s.combined p g

/-- the connection has the grant, is registered, and its endpoint is fenced by it -/
def commit : Server :=
  { s with
    conns := Function.update s.conns p { s.conns p with key := some g.wireGuardPublicKey, grant := g }
    peers := s.peers.insert (env.routeKey g.wireGuardPublicKey (s.conns p).namespaceOf) p
    fences := s.fences.insert (grantID g) g }

def drained (now : ℤ) : Bool := s.draining && ((s.conns p).key.isNone || !decide (now < s.deadline))

def admits (now instant : ℤ) : Server × Option RelayError :=
  if s.drained p now then (s, some .overload)
  else if s.quotaDenied.contains g.accountID then (s, some .quota)
  else match (s.pruneFences now).admitted env p g instant with
    | .error e => (s.pruneFences now, some e)
    | .ok g => ((s.pruneFences now).commit env p g, none)

/-- the state of the loop over the parts: the merged grant, the hashes so far, and whether a part is expired -/
structure Parts where
  merged : Option Grant := none
  hashes : String := ""
  expired : Bool := false

/-- one part of a credential -/
def addPart (v : Verifier) (leaf : Certificate) (now : ℤ) (parts : Parts) (token : String) : Except RelayError Parts :=
  match v.verify env token leaf now with
  | .error .expired => .ok { parts with expired := true }
  | .error e => .error e
  | .ok grant =>
    if parts.expired then .ok parts
    else match parts.merged with
      | none => .ok { parts with merged := some grant, hashes := parts.hashes ++ grant.signedHash }
      | some merged =>
        if !sameGrantIdentity merged grant then .error (.admission "grant part identity")
        else (mergeGrants merged grant).map fun merged =>
          { parts with merged := some merged, hashes := parts.hashes ++ grant.signedHash }

/-- the whole credential: one grant, whose hash is that of the hashes if there are several parts -/
def credential (v : Verifier) (leaf : Certificate) (tokens : List String) (now : ℤ) : Except RelayError Grant :=
  match tokens.foldlM (addPart env v leaf now) {} with
  | .error e => .error e
  | .ok parts =>
    if parts.expired then .error .expired
    else match parts.merged with
      | none => .error .protocol
      | some merged => .ok (if tokens.length > 1 then { merged with signedHash := env.sha256 parts.hashes } else merged)

/-- a connection that is not admitted yet takes the namespace it asks for -/
def bindNamespace (p : ConnID) (ns disco : String) : Server :=
  if (s.conns p).key.isNone then
    { s with conns := Function.update s.conns p { s.conns p with namespaceOf := ns, generationDisco := disco } }
  else s

/-- a request that is refused before the credential is looked at -/
def malformed (p : ConnID) (ns disco : String) (tokens : List String) : Option RelayError :=
  if (ns == "") != (disco == "") then some .protocol
  else if tokens.isEmpty || tokens.length > maxGrantParts then some .protocol
  else if (s.conns p).key.isSome && ((s.conns p).namespaceOf != ns || (s.conns p).generationDisco != disco) then
    some (.admission "")
  else none

def authenticate (v : Verifier) (leaf : Certificate) (p : ConnID) (ns disco : String) (tokens : List String)
    (now instant : ℤ) : Server × Option RelayError :=
  match s.malformed p ns disco tokens with
  | some e => (s, some e)
  | none =>
    match credential env v leaf tokens now with
    | .error e => (s.bindNamespace p ns disco, some e)
    | .ok g => (s.bindNamespace p ns disco).admits env p g now instant

/-- without the registrations that `gone` names -/
def unregister (gone : PeerConn → Bool) : Server :=
  { s with peers := keep (fun route => (s.peers.lookup route).any fun p => !gone (s.conns p)) s.peers }

/-- the generation the endpoint is fenced at, 0 without a fence -/
def fenceGeneration (id : String) : Nat := ((s.fences.lookup id).map (·.generation)).getD 0

/-- the endpoint's connections are gone, and the fence of the revocation has a minute to live -/
def revoked (account endpoint : String) (minGeneration : Nat) (now : ℤ) : Server :=
  let fence : Grant := { generation := minGeneration, expiresAt := unix (now + 60 * second) }
  { s.unregister (fun c => c.grant.accountID == account && c.grant.endpointID == endpoint) with
    fences := s.fences.insert (account ++ "\x00" ++ endpoint) fence }

/-- the arguments of a revocation -/
def revocable (account endpoint : String) (minGeneration : Nat) : Bool :=
  !(account == "" || endpoint == "" || account.utf8ByteSize > 256 || endpoint.utf8ByteSize > 256 || minGeneration < 2)

def revoke (account endpoint : String) (minGeneration : Nat) (now : ℤ) : Server × Option RelayError :=
  if !revocable account endpoint minGeneration then (s, some (.admission ""))
  else if minGeneration ≤ s.fenceGeneration (account ++ "\x00" ++ endpoint) then (s, none)
  else if s.fenceGeneration (account ++ "\x00" ++ endpoint) == 0 && maxConnections ≤ s.fences.entries.length then
    (s, some .overload)
  else (s.revoked account endpoint minGeneration now, none)

def setQuotaDenied (accounts : List String) : Server × Option RelayError :=
  if accounts.length > maxConnections || accounts.any fun a => a == "" || a.utf8ByteSize > 256 then (s, some .protocol)
  else ({ s.unregister (fun c => accounts.contains c.grant.accountID) with quotaDenied := accounts }, none)

/-- the end of a connection -/
def disconnect (p : ConnID) : Server :=
  { s with peers := keep (fun route => s.peers.lookup route != some p) s.peers }

def drain (deadline : ℤ) : Server :=
  { s with draining := true, deadline := if !s.draining || deadline < s.deadline then deadline else s.deadline }

def close (now : ℤ) : Server := { s with draining := true, deadline := now }

/-- registered under its own route key -/
def registered (p : ConnID) : Bool :=
  (s.conns p).key.any fun k => s.peers.lookup (env.routeKey k (s.conns p).namespaceOf) == some p

/-- the part of the check before the memo -/
def reachableLocked (p q : ConnID) (now : ℤ) : Bool :=
  (s.conns p).namespaceOf == (s.conns q).namespaceOf && s.registered env p && s.registered env q &&
    !(s.draining && !decide (now < s.deadline))

/-- is the pair remembered under the hashes of the grants that are held -/
def remembered (p q : ConnID) : Bool :=
  (s.conns p).paired == some ⟨q, (s.conns p).grant.signedHash, (s.conns q).grant.signedHash⟩

def remember (p q : ConnID) : Server :=
  let memo : PairMemo := ⟨q, (s.conns p).grant.signedHash, (s.conns q).grant.signedHash⟩
  { s with conns := Function.update s.conns p { s.conns p with paired := some memo } }

def authorizedLocked (p q : ConnID) (now : ℤ) : Server × Bool :=
  if !s.reachableLocked env p q now then (s, false)
  else if s.remembered p q then (s, true)
  else if !allowedAdmitted (s.conns p).grant (s.conns q).grant then (s, false)
  else (s.remember p q, true)

end Server

/-- what can happen to a server -/
inductive RelayOp
  | authenticate (leaf : Certificate) (p : ConnID) (ns disco : String) (tokens : List String) (now instant : ℤ)
  | revoke (account endpoint : String) (minGeneration : Nat) (now : ℤ)
  | setQuotaDenied (accounts : List String)
  | disconnect (p : ConnID)
  | drain (deadline : ℤ)
  | close (now : ℤ)
  | authorized (p q : ConnID) (now : ℤ)

def Server.step (env : Platform) (v : Verifier) (s : Server) : RelayOp → Server
  | .authenticate leaf p ns disco tokens now instant => (s.authenticate env v leaf p ns disco tokens now instant).1
  | .revoke account endpoint minGeneration now => (s.revoke account endpoint minGeneration now).1
  | .setQuotaDenied accounts => (s.setQuotaDenied accounts).1
  | .disconnect p => s.disconnect p
  | .drain deadline => s.drain deadline
  | .close now => s.close now
  | .authorized p q now => (s.authorizedLocked env p q now).1

/-! ## What the operations do -/

namespace Server

variable {env : Platform} {v : Verifier} {s : Server} {p : ConnID} {g : Grant}

/-- the connections are registered as before, with the same grants, keys and memos, and an admitted one has its
namespace -/
structure SameConns (s s' : Server) : Prop where
  peers : s'.peers = s.peers
  grant : ∀ q, (s'.conns q).grant = (s.conns q).grant
  key : ∀ q, (s'.conns q).key = (s.conns q).key
  paired : ∀ q, (s'.conns q).paired = (s.conns q).paired
  namespaceOf : ∀ q, (s.conns q).key.isSome → (s'.conns q).namespaceOf = (s.conns q).namespaceOf

section

variable (s : Server)

theorem SameConns.refl : SameConns s s := ⟨rfl, fun _ => rfl, fun _ => rfl, fun _ => rfl, fun _ _ => rfl⟩

theorem sameConns_bindNamespace (p : ConnID) (ns disco : String) : SameConns s (s.bindNamespace p ns disco) := by
  unfold bindNamespace
  split_ifs with hkey
  · have hconns : ∀ q, (Function.update s.conns p { s.conns p with namespaceOf := ns, generationDisco := disco }) q =
        if q = p then { s.conns p with namespaceOf := ns, generationDisco := disco } else s.conns q :=
      fun q => Function.update_apply ..
    refine ⟨rfl, fun q => ?_, fun q => ?_, fun q => ?_, fun q hq => ?_⟩
    · simp only [hconns]; split_ifs with h <;> simp [h]
    · simp only [hconns]; split_ifs with h <;> simp [h]
    · simp only [hconns]; split_ifs with h <;> simp [h]
    · simp only [hconns]
      rw [if_neg]
      rintro rfl
      simp_all
  · exact SameConns.refl s

/-- the state in which a credential is checked -/
def checked (s : Server) (p : ConnID) (ns disco : String) (now : ℤ) : Server :=
  (s.bindNamespace p ns disco).pruneFences now

theorem sameConns_checked (p : ConnID) (ns disco : String) (now : ℤ) :
    SameConns s (s.checked p ns disco now) := { sameConns_bindNamespace s p ns disco with }

/-- the endpoint of the grant has a later fence that is kept -/
def Fenced (s : Server) (g : Grant) (now : ℤ) : Prop :=
  ∃ fence, s.fences.lookup (grantID g) = some fence ∧ g.generation < fence.generation ∧
    s.fenceKept now (grantID g) fence

theorem SameConns.fenceKept {s s' : Server} (h : SameConns s s') (now : ℤ) (id : String) (fence : Grant) :
    s'.fenceKept now id fence = s.fenceKept now id fence := by
  simp only [Server.fenceKept, liveGrantLocked, h.peers, h.key, h.grant]

theorem fenced_checked (p : ConnID) (ns disco : String) (g : Grant) (now : ℤ) :
    (s.checked p ns disco now).olderThanFence g = true ↔ s.Fenced g now := by
  have hfences : (s.bindNamespace p ns disco).fences = s.fences := by
    unfold bindNamespace
    split_ifs <;> rfl
  have hkept := (sameConns_bindNamespace s p ns disco).fenceKept now (grantID g)
  rw [olderThanFence, checked, pruneFences, lookup_keep, hfences, Fenced]
  cases s.fences.lookup (grantID g) with
  | none => simp
  | some fence =>
    rw [Option.any_some, hkept fence]
    by_cases h : s.fenceKept now (grantID g) fence <;> simp [h]

end

/-- every refusal but that of a later fence -/
def refusedOtherwise (env : Platform) (s : Server) (p : ConnID) (ns disco : String) (tokens : List String) (g : Grant)
    (now instant : ℤ) : Bool :=
  let t := s.checked p ns disco now
  (s.malformed p ns disco tokens).isSome || t.drained p now || t.quotaDenied.contains g.accountID ||
    t.fenceConflict p g instant || t.identityChanged p g || t.routeOwned env p g || t.noRoom env p g ||
    !(t.combined p g).isOk

/-- **Admission.** An authentication admits the credential's grant, or its merge with the grant the connection has,
when the endpoint has no later fence and there is no other refusal. -/
theorem authenticate_ok (leaf : Certificate) {ns disco : String} {tokens : List String} {now instant : ℤ}
    (hg : credential env v leaf tokens now = .ok g) (holder : (s.checked p ns disco now).olderThanFence g = false)
    (hother : s.refusedOtherwise env p ns disco tokens g now instant = false) :
    ∃ g', (s.checked p ns disco now).combined p g = .ok g' ∧
      s.authenticate env v leaf p ns disco tokens now instant = ((s.checked p ns disco now).commit env p g', none) := by
  simp only [refusedOtherwise, Bool.or_eq_false_iff, Bool.not_eq_false'] at hother
  obtain ⟨⟨⟨⟨⟨⟨⟨hmalformed, hdrained⟩, hquota⟩, hconflict⟩, hidentity⟩, hroute⟩, hroom⟩, hcombined⟩ := hother
  cases hmerged : (s.checked p ns disco now).combined p g with
  | error e => rw [hmerged] at hcombined; exact absurd hcombined (by simp [Except.isOk, Except.toBool])
  | ok g' =>
    refine ⟨g', rfl, ?_⟩
    have hnone : s.malformed p ns disco tokens = none := by simpa using hmalformed
    have hadmitted : (s.checked p ns disco now).admitted env p g instant = .ok g' := by
      simp [admitted, holder, hconflict, hidentity, hroute, hroom, hmerged]
    rw [authenticate, hnone, hg]
    change (s.bindNamespace p ns disco).admits env p g now instant = _
    rw [admits, if_neg, if_neg]
    · change (match (s.checked p ns disco now).admitted env p g instant with
        | .error e => (s.checked p ns disco now, some e)
        | .ok g => ((s.checked p ns disco now).commit env p g, none)) = _
      rw [hadmitted]
    · exact fun h => nomatch hquota.symm.trans h
    · exact fun h => nomatch hdrained.symm.trans h

section Authenticate

variable {leaf : Certificate} {ns disco : String} {tokens : List String} {now instant : ℤ}

/-- a refusal leaves the connections alone -/
theorem authenticate_error {e : RelayError} (h : (s.authenticate env v leaf p ns disco tokens now instant).2 = some e) :
    SameConns s (s.authenticate env v leaf p ns disco tokens now instant).1 := by
  unfold authenticate at h ⊢
  split at h
  · exact SameConns.refl s
  · split at h
    · exact sameConns_bindNamespace s p ns disco
    · unfold admits at h ⊢
      split_ifs at h ⊢
      · exact sameConns_bindNamespace s p ns disco
      · exact sameConns_bindNamespace s p ns disco
      · split at h
        · exact sameConns_checked s p ns disco now
        · cases h

/-- what an admission has passed -/
theorem authenticate_none (h : (s.authenticate env v leaf p ns disco tokens now instant).2 = none) :
    ∃ g, credential env v leaf tokens now = .ok g ∧ (s.checked p ns disco now).olderThanFence g = false ∧
      s.refusedOtherwise env p ns disco tokens g now instant = false := by
  unfold authenticate at h
  split at h
  · cases h
  next hmalformed =>
    split at h
    · cases h
    next g hg =>
      refine ⟨g, hg, ?_⟩
      unfold admits at h
      split_ifs at h with hdrained hquota
      change (match (s.checked p ns disco now).admitted env p g instant with
        | .error e => (s.checked p ns disco now, some e)
        | .ok g => ((s.checked p ns disco now).commit env p g, none)).2 = none at h
      split at h
      · cases h
      next g' hadmitted =>
        unfold admitted at hadmitted
        split_ifs at hadmitted with hfence hidentity hroute hroom
        rw [Bool.or_eq_true, not_or, Bool.not_eq_true] at hfence
        refine ⟨hfence.1, ?_⟩
        simp only [refusedOtherwise, hmalformed, hfence.2, hadmitted, Bool.eq_false_iff.2 hidentity,
          Bool.eq_false_iff.2 hroute, Bool.eq_false_iff.2 hroom]
        have hdrained' : (s.checked p ns disco now).drained p now = false := Bool.eq_false_iff.2 hdrained
        have hquota' : (s.checked p ns disco now).quotaDenied.contains g.accountID = false := Bool.eq_false_iff.2 hquota
        rw [hdrained', hquota']
        rfl

/-- an authentication is refused and leaves the connections alone, or admits -/
theorem authenticate_cases (env : Platform) (v : Verifier) (s : Server) (leaf : Certificate)
    (p : ConnID) (ns disco : String) (tokens : List String) (now instant : ℤ) :
    (∃ e, (s.authenticate env v leaf p ns disco tokens now instant).2 = some e ∧
      SameConns s (s.authenticate env v leaf p ns disco tokens now instant).1) ∨
    ∃ g g', credential env v leaf tokens now = .ok g ∧ (s.checked p ns disco now).olderThanFence g = false ∧
      s.refusedOtherwise env p ns disco tokens g now instant = false ∧
        (s.checked p ns disco now).combined p g = .ok g' ∧
      s.authenticate env v leaf p ns disco tokens now instant = ((s.checked p ns disco now).commit env p g', none) := by
  cases h : (s.authenticate env v leaf p ns disco tokens now instant).2 with
  | some e => exact .inl ⟨e, rfl, authenticate_error h⟩
  | none =>
    obtain ⟨g, hg, hfence, hother⟩ := authenticate_none h
    obtain ⟨g', hcombined, heq⟩ := authenticate_ok leaf hg hfence hother
    exact .inr ⟨g, g', hg, hfence, hother, hcombined, heq⟩

end Authenticate

/-- the committed grant is the credential's, as far as whose it is -/
theorem combined_ids {g' : Grant} (h : s.combined p g = .ok g') :
    g'.accountID = g.accountID ∧ g'.endpointID = g.endpointID ∧ g'.generation = g.generation ∧
      g'.signedHash = g.signedHash ∧ g'.wireGuardPublicKey = g.wireGuardPublicKey := by
  unfold combined at h
  split_ifs at h
  · exact mergeGrants_ids h
  · cases h
    exact ⟨rfl, rfl, rfl, rfl, rfl⟩

theorem commit_conns (s : Server) (p : ConnID) (g : Grant) (q : ConnID) : ((s.commit env p g).conns q) =
    if q = p then { s.conns p with key := some g.wireGuardPublicKey, grant := g } else s.conns q :=
  Function.update_apply ..

theorem lookup_commit (s : Server) (p : ConnID) (g : Grant) (route : String) : (s.commit env p g).peers.lookup route =
    if route = env.routeKey g.wireGuardPublicKey (s.conns p).namespaceOf then some p else s.peers.lookup route :=
  lookup_insert_if ..

/-- a registered connection has the grant -/
def Holds (s : Server) (g : Grant) : Prop := ∃ route p, s.peers.lookup route = some p ∧ (s.conns p).grant = g

theorem SameConns.holds {s s' : Server} (h : SameConns s s') (g : Grant) : s'.Holds g ↔ s.Holds g := by
  simp only [Holds, h.peers, h.grant]

theorem holds_commit (s : Server) (p : ConnID) (g : Grant) : (s.commit env p g).Holds g :=
  ⟨env.routeKey g.wireGuardPublicKey (s.conns p).namespaceOf, p, by rw [lookup_commit, if_pos rfl],
    by rw [commit_conns, if_pos rfl]⟩

theorem holds_of_commit {g' : Grant} (h : (s.commit env p g).Holds g') : g' = g ∨ s.Holds g' := by
  obtain ⟨route, q, hroute, hgrant⟩ := h
  rw [commit_conns] at hgrant
  split_ifs at hgrant with hq
  · exact .inl hgrant.symm
  · rw [lookup_commit] at hroute
    split_ifs at hroute with hr
    · exact absurd (Option.some.inj hroute).symm hq
    · exact .inr ⟨route, q, hroute, hgrant⟩

theorem remember_conns (s : Server) (p q x : ConnID) : ((s.remember p q).conns x) = if x = p then
    { s.conns p with paired := some ⟨q, (s.conns p).grant.signedHash, (s.conns q).grant.signedHash⟩ } else s.conns x :=
  Function.update_apply ..

theorem remember_grant (s : Server) (p q x : ConnID) : ((s.remember p q).conns x).grant = (s.conns x).grant := by
  rw [remember_conns]
  split_ifs with h
  · rw [h]
  · rfl

/-- a check of a pair remembers it if it is allowed, and changes nothing otherwise -/
theorem authorizedLocked_cases (env : Platform) (s : Server) (p q : ConnID) (now : ℤ) :
    (s.authorizedLocked env p q now).1 = s ∨ ((s.authorizedLocked env p q now).1 = s.remember p q ∧
      allowedAdmitted (s.conns p).grant (s.conns q).grant = true) := by
  unfold authorizedLocked
  split_ifs with _ _ hallowed
  · exact .inl rfl
  · exact .inl rfl
  · exact .inl rfl
  · exact .inr ⟨rfl, by simpa using hallowed⟩

theorem holds_authorizedLocked {q : ConnID} {now : ℤ} (h : (s.authorizedLocked env p q now).1.Holds g) : s.Holds g := by
  rcases authorizedLocked_cases env s p q now with heq | ⟨heq, -⟩
  · rwa [heq] at h
  · rw [heq] at h
    obtain ⟨route, x, hroute, hgrant⟩ := h
    exact ⟨route, x, hroute, by rw [← remember_grant s p q]; exact hgrant⟩

/-- fewer connections are registered -/
structure Fewer (s s' : Server) : Prop where
  conns : s'.conns = s.conns
  peers : ∀ route p, s'.peers.lookup route = some p → s.peers.lookup route = some p

theorem Fewer.holds {s s' : Server} (h : Fewer s s') {g : Grant} (hg : s'.Holds g) : s.Holds g := by
  obtain ⟨route, p, hroute, hgrant⟩ := hg
  exact ⟨route, p, h.peers route p hroute, by rw [← h.conns]; exact hgrant⟩

section

variable (s : Server)

theorem lookup_unregister (gone : PeerConn → Bool) (route : String) (p : ConnID) :
    (s.unregister gone).peers.lookup route = some p ↔ s.peers.lookup route = some p ∧ gone (s.conns p) = false := by
  rw [unregister, lookup_keep]
  cases s.peers.lookup route with
  | none => simp
  | some q =>
    simp only [Option.any_some, Bool.not_eq_true', Option.ite_none_right_eq_some, Option.some.injEq]
    constructor
    · rintro ⟨h, rfl⟩
      exact ⟨rfl, h⟩
    · rintro ⟨rfl, h⟩
      exact ⟨h, rfl⟩

theorem fewer_unregister (gone : PeerConn → Bool) : Fewer s (s.unregister gone) :=
  ⟨rfl, fun route p h => ((lookup_unregister s gone route p).1 h).1⟩

theorem fewer_disconnect (p : ConnID) : Fewer s (s.disconnect p) := by
  refine ⟨rfl, fun route q h => ?_⟩
  rw [disconnect, lookup_keep] at h
  split_ifs at h
  exact h

theorem fewer_setQuotaDenied (accounts : List String) : Fewer s (s.setQuotaDenied accounts).1 := by
  unfold setQuotaDenied
  split_ifs
  · exact ⟨rfl, fun _ _ h => h⟩
  · exact ⟨rfl, fun route p h => (fewer_unregister s fun c => accounts.contains c.grant.accountID).peers route p h⟩

theorem fewer_revoked (account endpoint : String) (minGeneration : Nat) (now : ℤ) :
    Fewer s (s.revoked account endpoint minGeneration now) :=
  ⟨rfl, fun route p h =>
    (fewer_unregister s fun c => c.grant.accountID == account && c.grant.endpointID == endpoint).peers route p h⟩

end

theorem holds_revoked {account endpoint : String} {minGeneration : Nat} {now : ℤ}
    (h : (s.revoked account endpoint minGeneration now).Holds g) :
    ¬ (g.accountID = account ∧ g.endpointID = endpoint) := by
  obtain ⟨route, p, hroute, rfl⟩ := h
  rintro ⟨haccount, hendpoint⟩
  have hstays := ((lookup_unregister s
      (fun c => c.grant.accountID == account && c.grant.endpointID == endpoint) route p).1 hroute).2
  change (s.conns p).grant.accountID = account at haccount
  change (s.conns p).grant.endpointID = endpoint at hendpoint
  simp [haccount, hendpoint] at hstays

/-- a revocation is refused, finds a fence of the generation or later, or leaves no connection of the endpoint -/
theorem revoke_cases (s : Server) (account endpoint : String) (minGeneration : Nat) (now : ℤ) :
    ((revocable account endpoint minGeneration = false ∨
      ¬ minGeneration ≤ s.fenceGeneration (account ++ "\x00" ++ endpoint)) ∧
      ∃ e, s.revoke account endpoint minGeneration now = (s, some e)) ∨
    (revocable account endpoint minGeneration = true ∧
      minGeneration ≤ s.fenceGeneration (account ++ "\x00" ++ endpoint) ∧
      s.revoke account endpoint minGeneration now = (s, none)) ∨
    (¬ minGeneration ≤ s.fenceGeneration (account ++ "\x00" ++ endpoint) ∧
      s.revoke account endpoint minGeneration now = (s.revoked account endpoint minGeneration now, none)) := by
  unfold revoke
  split_ifs with hargs hfence
  · exact .inl ⟨.inl (by simpa using hargs), _, rfl⟩
  · exact .inr (.inl ⟨by simpa using hargs, hfence, rfl⟩)
  · exact .inl ⟨.inr hfence, _, rfl⟩
  · exact .inr (.inr ⟨hfence, rfl⟩)

end Server

/-! ## A relay to run -/

/-- the keys of three endpoints -/
def keyP : String := "BAAAAAAAAAAAAAAAAAAAAAAAAAAAAAAAAAAAAAAAAAA"

def keyQ : String := "CAAAAAAAAAAAAAAAAAAAAAAAAAAAAAAAAAAAAAAAAAA"

def keyR : String := "DAAAAAAAAAAAAAAAAAAAAAAAAAAAAAAAAAAAAAAAAAA"

def carrierKey : String := "AAAAAAAAAAAAAAAAAAAAAAAAAAAAAAAAAAAAAAAAAAA"

def verifier : Verifier := ⟨"issuer", "node", "epoch", 1⟩

def leaf : Certificate := ⟨some carrierKey, 0, 3600 * second, true⟩

/-- a grant of account a for this relay -/
def grantFor (endpoint wireGuardPublicKey : String) (generation : Nat) (issuedAt : ℤ) (peers : List Peer) : Grant where
  version := 1
  issuer := "issuer"
  audience := "paperboat-relay"
  issuedAt := issuedAt
  expiresAt := issuedAt + 60
  generation := generation
  accountID := "a"
  endpointID := endpoint
  wireGuardPublicKey := wireGuardPublicKey
  certificateFingerprint := "0000000000000000000000000000000000000000000000000000000000000000"
  quicPublicKey := carrierKey
  nodeID := "node"
  nodeGeneration := 1
  processEpoch := "epoch"
  peers := peers

def networkScope (direction : String) : Scope := ⟨"machine_network", "n", 1, "connect", direction, 443, 1000⟩

def peerFor (wireGuardPublicKey direction : String) : Peer := ⟨wireGuardPublicKey, "", [networkScope direction]⟩

/-- the tokens that are signed: each is its own payload -/
def signedTokens : List (String × Grant) :=
  [("p1", grantFor "p" keyP 1 0 []), ("p1 late", grantFor "p" keyP 1 60 []), ("p5", grantFor "p" keyP 5 0 []),
   ("pq", grantFor "p" keyP 1 0 [peerFor keyQ "dial"]), ("pr", grantFor "p" keyP 1 0 [peerFor keyR "dial"]),
   ("qp", grantFor "q" keyQ 1 0 [peerFor keyP "accept"])]

/-- SHA-256 is as good as the identity here -/
def platform : Platform where
  decode token := (signedTokens.find? (·.1 == token)).map fun e => (e.1, e.2)
  sha256 := id
  validAddress _ := false
  routeKey key ns := if ns == "" then key else ns ++ key

/-- a credential of one or more tokens on the primary carrier, at a time -/
def present (p : ConnID) (tokens : List String) (now : ℤ) : RelayOp := .authenticate leaf p "" "" tokens now now

end Paperboat.Relay
