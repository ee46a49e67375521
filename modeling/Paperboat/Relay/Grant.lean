/-
The signed grants of the relay: what Verify accepts, how the parts of a credential are
merged, and which pairs of grants authorize each other.

Results:
- `mergeGrants_ids`: a merged grant keeps the identity, the generation and the signed
  hash of the part that was added;
- `allowedAdmitted_iff`: a pair is authorized by one scope of each side, found in the
  memberships or under the other's key;
- `allowedAdmitted_comm`: it does not matter which side is asked.

Premises:
- a token's signature and its JSON are one answer (`Platform.decode`: the signed payload
  and its claims), and so are the TLS state (`Certificate`) and SHA-256;
- a key is its text: ParseKey accepts one text for each key;
- the lookup indexes of a grant are left out, since they only find what the lists have;
- nil and empty lists are told apart where DeepEqual does.
-/
import Mathlib.Tactic

namespace Paperboat.Relay

/-! ## Model -/

/-- the typed refusals; the text is what the relay log gets -/
inductive RelayError
  | admission (reason : String)
  | protocol
  | overload
  | expired
  | quota
deriving DecidableEq, Repr

structure Scope where
  resourceKind : String
  resourceID : String
  resourceGeneration : Nat
  capability : String
  direction : String
  port : Nat
  expiresAt : ℤ
deriving DecidableEq, Repr

structure ServiceDescriptor where
  wireGuardPublicKey : String
  discoPublicKey : String
  virtualAddress : String
deriving DecidableEq, Repr

structure Peer where
  wireGuardPublicKey : String
  discoPublicKey : String
  scopes : List Scope
deriving DecidableEq, Repr

/-- `none` is the nil list -/
structure Grant where
  signedHash : String := ""
  version : ℤ := 0
  issuer : String := ""
  audience : String := ""
  issuedAt : ℤ := 0
  expiresAt : ℤ := 0
  generation : Nat := 0
  accountID : String := ""
  endpointID : String := ""
  wireGuardPublicKey : String := ""
  discoPublicKey : String := ""
  certificateFingerprint : String := ""
  quicPublicKey : String := ""
  nodeID : String := ""
  nodeGeneration : Nat := 0
  processEpoch : String := ""
  peers : List Peer := []
  peerRelay : Option ServiceDescriptor := none
  relayControlPeers : Option (List String) := none
  memberships : Option (List Scope) := none
deriving DecidableEq, Repr

namespace Grant

def controlPeers (g : Grant) : List String := g.relayControlPeers.getD []

def members (g : Grant) : List Scope := g.memberships.getD []

/-- the entry for the peer with this key -/
def peerEntry (g : Grant) (k : String) : Option Peer := g.peers.find? (·.wireGuardPublicKey == k)

end Grant

/-- time is in nanoseconds -/
def unix (now : ℤ) : ℤ := now / 1000000000

def second : ℤ := 1000000000

def maxClockSkew : ℤ := 60 * second

/-- base64.RawURLEncoding of 32 bytes, and of nothing else: the last character has two bits to spare -/
def canonical32 (s : String) : Bool :=
  let alphabet := "ABCDEFGHIJKLMNOPQRSTUVWXYZabcdefghijklmnopqrstuvwxyz0123456789-_".toList
  s.length == 43 && (s.toList.all alphabet.contains) &&
    (s.toList.getLast?.any fun c => (alphabet.findIdx (· == c)) % 4 == 0)

/-- ParseKey and ParseDiscoKey -/
def validKey (s : String) : Bool := canonical32 s && s.toList.any (· != 'A')

def hex64 (s : String) : Bool := s.length == 64 && s.toList.all "0123456789abcdef".toList.contains

def validScope (s : Scope) : Bool :=
  (s.resourceKind == "config_compare" && s.capability == "config_compare" ||
    s.resourceKind == "machine_network" && s.capability == "connect" ||
    s.resourceKind == "inspector" && s.capability == "inspector" ||
    s.resourceKind == "machine_access" &&
      ["terminal", "exec", "managed_ssh", "file_transfer", "private_access"].contains s.capability ||
    s.resourceKind == "codex_session" && s.capability == "codex") &&
  s.resourceID != "" && s.resourceID.utf8ByteSize ≤ 256 && s.resourceGeneration != 0 && s.port == 443 &&
  (s.direction == "dial" || s.direction == "accept") && decide (0 < s.expiresAt)

def maxGrantMemberships : Nat := 256

def maxGrantPeers : Nat := 64

def maxMergedPeers : Nat := 2048

def maxGrantParts : Nat := 32

def validMemberships (g : Grant) : Bool :=
  g.members.isEmpty ||
    g.members.length ≤ maxGrantMemberships && g.peers.isEmpty && g.controlPeers.isEmpty && g.members.all validScope &&
      decide g.members.Nodup

/-- what is outside the relay; `decode` has checked the header and the signature of a token of at most MaxControl bytes,
`validAddress` is netip's canonical form inside fd7a:115c:a1e0::/48 -/
structure Platform where
  decode : String → Option (String × Grant)
  sha256 : String → String
  validAddress : String → Bool
  routeKey : String → String → String

/-- the one certificate a client presents; `publicKey` is its Ed25519 key, if it is one -/
structure Certificate where
  publicKey : Option String
  notBefore : ℤ
  notAfter : ℤ
  signed : Bool

structure Verifier where
  issuer : String
  nodeID : String
  processEpoch : String
  nodeGeneration : Nat

def ServiceDescriptor.valid (env : Platform) (d : ServiceDescriptor) : Bool :=
  validKey d.wireGuardPublicKey && validKey d.discoPublicKey && env.validAddress d.virtualAddress

/-- one peer of a grant, apart from its scopes and from the peers before it -/
def validPeer (g : Grant) (p : Peer) : Bool :=
  validKey p.wireGuardPublicKey && p.wireGuardPublicKey != g.wireGuardPublicKey &&
    (p.discoPublicKey == "" || validKey p.discoPublicKey) &&
    (match g.peerRelay with
      | none => true
      | some relay => p.discoPublicKey != "" &&
          !(p.wireGuardPublicKey == relay.wireGuardPublicKey && p.discoPublicKey != relay.discoPublicKey)) &&
    !p.scopes.isEmpty && p.scopes.all validScope

/-- the lists of a grant -/
def validLists (env : Platform) (g : Grant) : Bool :=
  (g.discoPublicKey == "" || validKey g.discoPublicKey) &&
    (match g.peerRelay with
      | none => true
      | some relay => relay.valid env && g.discoPublicKey != "" && relay.wireGuardPublicKey != g.wireGuardPublicKey) &&
    (g.controlPeers.all fun k => validKey k && k != g.wireGuardPublicKey) && decide g.controlPeers.Nodup &&
    g.peers.all (validPeer g) && decide (g.peers.map (·.wireGuardPublicKey)).Nodup &&
    (g.peers.map (·.scopes.length)).sum ≤ 128 && validMemberships g

/-- the signed lifetime, in the int64 of the source -/
def validLifetime (g : Grant) (now : ℤ) : Bool :=
  g.issuedAt ≤ unix (now + maxClockSkew) && g.issuedAt < g.expiresAt &&
    (g.expiresAt - g.issuedAt).bmod (2 ^ 64) ≤ 60

def Certificate.valid (leaf : Certificate) (now : ℤ) : Bool :=
  leaf.notBefore ≤ now && now < leaf.notAfter && leaf.notAfter - leaf.notBefore ≤ 24 * 3600 * second + 60 * second &&
    leaf.signed

/-- Verify; the refusals in the order of the source -/
def Verifier.verify (v : Verifier) (env : Platform) (token : String) (leaf : Certificate) (now : ℤ) :
    Except RelayError Grant :=
  match env.decode token with
  | none => .error (.admission "")
  | some (payload, g) =>
    if g.version != 1 || g.issuer != v.issuer || g.audience != "paperboat-relay" then .error (.admission "grant issuer")
    else if g.nodeID != v.nodeID || g.nodeGeneration != v.nodeGeneration then .error (.admission "grant relay node")
    else if g.processEpoch != v.processEpoch then .error (.admission "grant relay process epoch")
    else if !(hex64 g.certificateFingerprint && canonical32 g.quicPublicKey) then .error
      (.admission "grant key encoding")
    else if leaf.publicKey != some g.quicPublicKey then .error (.admission "client certificate key differs from grant")
    else if !leaf.valid now then .error (.admission "client certificate validity")
    else if !validLifetime g now then .error (.admission "grant lifetime")
    else if g.generation == 0 || g.accountID == "" || g.endpointID == "" || g.accountID.utf8ByteSize > 256 ||
        g.endpointID.utf8ByteSize > 256 || g.peers.length > maxGrantPeers || g.controlPeers.length > maxGrantPeers then
      .error (.admission "grant identity")
    else if !(validKey g.wireGuardPublicKey && validLists env g) then .error (.admission "")
    else if g.expiresAt ≤ unix now then .error .expired
    else .ok { g with signedHash := env.sha256 payload }

def sameGrantIdentity (a b : Grant) : Bool :=
  a.issuer == b.issuer && a.generation == b.generation && a.accountID == b.accountID && a.endpointID == b.endpointID &&
    a.wireGuardPublicKey == b.wireGuardPublicKey && a.discoPublicKey == b.discoPublicKey &&
    a.certificateFingerprint == b.certificateFingerprint && a.quicPublicKey == b.quicPublicKey &&
      a.nodeID == b.nodeID && a.nodeGeneration == b.nodeGeneration && a.processEpoch == b.processEpoch

/-- the two memberships are one, apart from when they end -/
def Scope.sameMembership (s t : Scope) : Bool := { s with expiresAt := 0 } == { t with expiresAt := 0 }

/-- the last membership that is `m` keeps the later end, or `m` is added -/
def mergeMembership (out : List Scope) (m : Scope) : List Scope :=
  match out.reverse.findIdx? (·.sameMembership m) with
  | some i => (out.reverse.modify i fun s => { s with expiresAt := max s.expiresAt m.expiresAt }).reverse
  | none => out ++ [m]

def mergeMemberships (current next : List Scope) : List Scope := next.foldl mergeMembership current

/-- the entry under the peer's key is replaced, or the peer is added -/
def mergePeer (out : List Peer) (peer : Peer) : List Peer :=
  match out.findIdx? (·.wireGuardPublicKey == peer.wireGuardPublicKey) with
  | some i => out.set i peer
  | none => out ++ [peer]

def mergeControlPeer (out : Option (List String)) (peer : String) : Option (List String) :=
  if (out.getD []).contains peer then out else some (out.getD [] ++ [peer])

/-- the newer grant with the lists of both -/
def mergedGrant (current next : Grant) : Grant :=
  let memberships := mergeMemberships current.members next.members
  { next with
    peers := next.peers.foldl mergePeer current.peers
    relayControlPeers := next.controlPeers.foldl mergeControlPeer current.relayControlPeers
    peerRelay := next.peerRelay <|> current.peerRelay
    memberships := if memberships.isEmpty then next.memberships else some memberships
    expiresAt := max current.expiresAt next.expiresAt }

def mergeGrants (current next : Grant) : Except RelayError Grant :=
  if !current.members.isEmpty && next.peers.length + next.controlPeers.length > 0 ||
      !next.members.isEmpty && current.peers.length + current.controlPeers.length > 0 then .error (.admission "")
  else if (mergeMemberships current.members next.members).length > maxGrantMemberships then .error (.admission "")
  else if (mergedGrant current next).peers.length > maxMergedPeers ||
      (mergedGrant current next).controlPeers.length > maxMergedPeers then .error (.admission "")
  else .ok (mergedGrant current next)

/-- the same resource in opposite directions; the account's network pairs only its own endpoints -/
def Scope.reciprocal (sameAccount : Bool) (s t : Scope) : Bool :=
  (s.resourceKind != "machine_network" || sameAccount) && s.direction != t.direction &&
    s.resourceKind == t.resourceKind && s.resourceID == t.resourceID && s.capability == t.capability &&
    s.resourceGeneration == t.resourceGeneration && s.port == t.port

/-- what a grant has to say about another: its memberships, or its entry for the other's key -/
def Grant.scopesFor (g other : Grant) : List Scope :=
  if g.members.isEmpty then ((g.peerEntry other.wireGuardPublicKey).map (·.scopes)).getD [] else g.members

/-- the pairs of scopes that authorize the two to each other. The source has a loop for each combination of shapes;
all of them compare the scopes in question one by one. -/
def reciprocalScopes (a b : Grant) : List (Scope × Scope) :=
  (a.scopesFor b ×ˢ b.scopesFor a).filter fun p => p.1.reciprocal (a.accountID == b.accountID) p.2

def allowedAdmitted (a b : Grant) : Bool := !(reciprocalScopes a b).isEmpty

def grantID (g : Grant) : String := g.accountID ++ "\x00" ++ g.endpointID

/-- what is left of a grant's authority at a time, without its lifetimes -/
def normalize (instant : ℤ) (g : Grant) : Grant :=
  let live (peer : Peer) : Peer :=
    { peer with scopes := (peer.scopes.filter (unix instant < ·.expiresAt)).map fun s => { s with expiresAt := 0 } }
  { g with issuedAt := 0, expiresAt := 0, generation := 0, signedHash := "",
           peers := (g.peers.map live).filter fun peer => !peer.scopes.isEmpty }

def sameGrantAuthority (instant : ℤ) (a b : Grant) : Bool := normalize instant a == normalize instant b

/-! ## Facts -/

/-- **The identity of a merged grant.** -/
theorem mergeGrants_ids {current next merged : Grant} (h : mergeGrants current next = .ok merged) :
    merged.accountID = next.accountID ∧ merged.endpointID = next.endpointID ∧ merged.generation = next.generation ∧
      merged.signedHash = next.signedHash ∧ merged.wireGuardPublicKey = next.wireGuardPublicKey := by
  unfold mergeGrants at h
  split_ifs at h
  cases h
  exact ⟨rfl, rfl, rfl, rfl, rfl⟩

theorem allowedAdmitted_iff (a b : Grant) : allowedAdmitted a b = true ↔ ∃ s ∈ a.scopesFor b, ∃ t ∈ b.scopesFor a,
    s.reciprocal (a.accountID == b.accountID) t = true := by
  simp only [allowedAdmitted, reciprocalScopes, Bool.not_eq_true', List.isEmpty_eq_false_iff_exists_mem,
    List.mem_filter, Prod.exists, List.mem_product]
  constructor
  · rintro ⟨s, t, ⟨hs, ht⟩, h⟩
    exact ⟨s, hs, t, ht, h⟩
  · rintro ⟨s, hs, t, ht, h⟩
    exact ⟨s, t, ⟨hs, ht⟩, h⟩

theorem Scope.reciprocal_comm (sameAccount : Bool) (s t : Scope) :
    s.reciprocal sameAccount t = t.reciprocal sameAccount s := by
  rw [Bool.eq_iff_iff]
  simp only [Scope.reciprocal, Bool.and_eq_true, Bool.or_eq_true, bne_iff_ne, beq_iff_eq, ne_eq]
  constructor
  all_goals
    rintro ⟨⟨⟨⟨⟨⟨h1, h2⟩, h3⟩, h4⟩, h5⟩, h6⟩, h7⟩
    exact ⟨⟨⟨⟨⟨⟨h3 ▸ h1, fun h => h2 h.symm⟩, h3.symm⟩, h4.symm⟩, h5.symm⟩, h6.symm⟩, h7.symm⟩

theorem allowedAdmitted_comm (a b : Grant) : allowedAdmitted a b = allowedAdmitted b a := by
  have hswap : ∀ a b : Grant, allowedAdmitted a b = true → allowedAdmitted b a = true := by
    intro a b h
    obtain ⟨s, hs, t, ht, hst⟩ := (allowedAdmitted_iff a b).1 h
    refine (allowedAdmitted_iff b a).2 ⟨t, ht, s, hs, ?_⟩
    have haccount : (b.accountID == a.accountID) = (a.accountID == b.accountID) :=
      Bool.eq_iff_iff.2 (by rw [beq_iff_eq, beq_iff_eq]; exact eq_comm)
    rw [Scope.reciprocal_comm, haccount]
    exact hst
  exact Bool.eq_iff_iff.2 ⟨hswap a b, hswap b a⟩

end Paperboat.Relay
