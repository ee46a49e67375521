/-
The signed configuration of a peer network: what a token says, and the checks of
Authority.verify.

A token has three parts, the second is the document. base64, the strict JSON decoders,
hex, the address and key parsers, Ed25519 and SHA-256 are parameters (`Codec`). A
document just received is verified with the key its header names and must not be past
its expiry; one kept from before (`restored`) is taken without its signature and past
its expiry.

Results:
- `verify_document`: an accepted token is the document its configuration was read from,
  and the hash is of that document;
- `verify_restored`: a document accepted when it was received is accepted again when it
  is restored later.
-/
import Paperboat.Core.Text

namespace Paperboat.Tailnet

/-! ## Documents -/

structure NetworkBinding where
  accountID : String
  endpointID : String
  role : String
  machineID : String := ""
  endpointGeneration : ℕ
  machineGeneration : ℕ := 0
  keyGeneration : ℕ := 0
  wireGuardPublicKey : String := ""
  discoPublicKey : String := ""
  quicCertificateFingerprint : String
  quicPublicKey : String
  virtualAddress : String := ""
deriving DecidableEq, Repr

structure NetworkScope where
  resourceKind : String
  resourceID : String
  resourceGeneration : ℕ
  capability : String
  direction : String
  port : ℕ
  expiresAt : ℤ
deriving DecidableEq, Repr

structure NetworkPeer where
  identity : NetworkBinding
  scopes : List NetworkScope
  endpoints : List String := []
deriving DecidableEq, Repr

structure NetworkConfiguration where
  version : ℤ
  issuer : String
  audience : String
  issuedAt : ℤ
  expiresAt : ℤ
  generation : ℕ
  self : NetworkBinding
  peers : List NetworkPeer
deriving DecidableEq, Repr

structure Header where
  algorithm : String
  type : String
  keyID : String
deriving DecidableEq, Repr

/-- the decoders, and the digests `D` of documents -/
structure Codec (D : Type) where
  /-- the bytes of a canonical base64 text (raw, URL alphabet) -/
  base64 : String → Option (List UInt8)
  /-- the bytes of a canonical hex text -/
  hex : String → Option (List UInt8)
  header : List UInt8 → Option Header
  configuration : List UInt8 → Option NetworkConfiguration
  /-- ed25519.Verify, of a public key, a message and a signature -/
  signed : List UInt8 → String → List UInt8 → Bool
  sha256 : List UInt8 → D
  /-- publicKey: a WireGuard key -/
  publicKey : String → Bool
  /-- derpquic.ParseDiscoKey gives a key that is not zero -/
  discoKey : String → Bool
  /-- a canonical address of the network fd7a:115c:a1e0::/48 -/
  virtualAddress : String → Bool
  /-- a canonical address and port that reportableEndpoint allows -/
  endpoint : String → Bool
  /-- the public half of a private key, as base64 -/
  publicText : List UInt8 → String

structure AuthorityOptions where
  issuer : String
  self : NetworkBinding
deriving DecidableEq, Repr

def maxEndpoints : ℕ := 2048
def maxScopes : ℕ := 2 * maxEndpoints
def maxPeerBytes : ℕ := 2048
def maxConfigurationBytes : ℕ := maxEndpoints * maxPeerBytes + 16 * 1024
def maxPeerEndpoints : ℕ := 8
def networkPort : ℕ := 443
def maxGeneration : ℕ := 2 ^ 53 - 1
/-- derpquic.MaxClockSkew, in seconds -/
def maxClockSkew : ℤ := 60

/-! ## Checks -/

def validID (id : String) : Bool :=
  id.toList ≠ [] && decide (id.utf8ByteSize ≤ 256) &&
    id.toList.all fun c => c.isAlphanum || c ∈ "._:-".toList

/-- peernetwork.ValidScope -/
def validScope (kind capability : String) : Bool :=
  match kind with
  | "machine_access" => capability ∈ ["terminal", "exec", "managed_ssh", "file_transfer", "private_access", "inspector"]
  | "inspector" => capability ∈ ["inspector"]
  | "config_compare" => capability ∈ ["config_compare"]
  | "codex_session" => capability ∈ ["codex"]
  | _ => false

/-- a generation a document may carry -/
def generationOk (n : ℕ) : Bool := decide (0 < n) && decide (n ≤ maxGeneration)

section Verify

variable {D : Type} (codec : Codec D)

def validLocalBinding (b : NetworkBinding) : Bool :=
  validID b.accountID && validID b.endpointID && generationOk b.endpointGeneration &&
    (codec.hex b.quicCertificateFingerprint).map List.length == some 32 &&
    (codec.base64 b.quicPublicKey).map List.length == some 32 &&
    (b.role == "cli" && b.machineID == "" && b.machineGeneration == 0 ||
      b.role == "machine" && b.machineID == b.endpointID && generationOk b.machineGeneration)

def validBinding (b : NetworkBinding) : Bool :=
  validLocalBinding codec b && generationOk b.keyGeneration && codec.publicKey b.wireGuardPublicKey &&
    codec.discoKey b.discoPublicKey && codec.virtualAddress b.virtualAddress

def validPeerEndpoints (endpoints : List String) : Bool :=
  decide (endpoints.length ≤ maxPeerEndpoints) && endpoints.all codec.endpoint && decide endpoints.Nodup

/-- the identity of a document is the one pinned locally; its keys and address may be others -/
def sameIdentity (s want : NetworkBinding) : Bool :=
  s.accountID == want.accountID && s.endpointID == want.endpointID && s.role == want.role &&
    s.machineID == want.machineID &&
    s.endpointGeneration == want.endpointGeneration && s.machineGeneration == want.machineGeneration &&
    s.quicCertificateFingerprint == want.quicCertificateFingerprint && s.quicPublicKey == want.quicPublicKey

/-- one scope of a peer `b`, in a configuration for `s` -/
def validNetworkScope (s b : NetworkBinding) (scope : NetworkScope) : Bool :=
  let networkOnly := scope.resourceKind == "machine_network" && scope.capability == "connect" &&
      b.accountID == s.accountID
  let sessionRight := scope.resourceKind == "machine_access" && scope.direction == "accept" &&
      scope.capability != "private_access"
  (networkOnly || validScope scope.resourceKind scope.capability) && validID scope.resourceID &&
    (scope.resourceGeneration == 1 || sessionRight && generationOk scope.resourceGeneration) &&
      scope.port == networkPort &&
    decide (0 ≤ scope.expiresAt) && (scope.expiresAt != 0 || networkOnly || sessionRight) &&
    (scope.direction == "dial" || scope.direction == "accept") && (s.role != "cli" || scope.direction == "dial") &&
    (networkOnly || s.role != b.role && (s.role != "machine" || scope.direction == "accept"))

def scopeKey (scope : NetworkScope) : String × String × String := (scope.resourceID, scope.capability, scope.direction)

def validPeer (s : NetworkBinding) (p : NetworkPeer) : Bool :=
  validBinding codec p.identity && !(s.role == "cli" && p.identity.role == "cli") && p.scopes ≠ [] &&
    validPeerEndpoints codec p.endpoints && p.scopes.all (validNetworkScope s p.identity) &&
    decide (p.scopes.map scopeKey).Nodup

/-- the loop over the peers: no endpoint, address or key is named twice, and there are not too many scopes -/
def validPeers (s : NetworkBinding) (peers : List NetworkPeer) : Bool :=
  peers.all (validPeer codec s) &&
    decide ((s.endpointID :: peers.map (·.identity.endpointID)).Nodup) &&
    decide ((s.virtualAddress :: peers.map (·.identity.virtualAddress)).Nodup) &&
    decide ((s.wireGuardPublicKey :: peers.map (·.identity.wireGuardPublicKey)).Nodup) &&
    decide ((peers.map (·.scopes.length)).sum ≤ maxScopes)

inductive Error
  | authority
  | stale
  | expired
  | nothingToRestore
  /-- the context of the call is done -/
  | context
  /-- custody or the kept configuration cannot be read or written -/
  | store
  /-- the engine does not take the configuration -/
  | engine
deriving DecidableEq, Repr

/-- the fields of a configuration, whenever it was issued -/
def validConfiguration (options : AuthorityOptions) (now : ℤ) (cfg : NetworkConfiguration) : Bool :=
  cfg.version == 1 && cfg.issuer == options.issuer && cfg.audience == "paperboat-network" &&
    generationOk cfg.generation &&
    decide (0 < cfg.issuedAt) && decide (cfg.issuedAt ≤ now + maxClockSkew) && decide (cfg.issuedAt < cfg.expiresAt) &&
    validBinding codec cfg.self && decide (cfg.peers.length ≤ maxEndpoints)

/-- the document of a token: its second part -/
def Codec.document (token : String) : Option (List UInt8) :=
  match Text.split token '.' with
  | [_, body, _] => codec.base64 body
  | _ => none

/-- the header names a key, and with that key the signature holds -/
def Codec.signature (keys : String → Option (List UInt8)) (token : String) (h : Header) : Bool :=
  match Text.split token '.', keys h.keyID with
  | [header, body, sig], some pub =>
    pub.length == 32 && (codec.base64 sig).any fun sig => codec.signed pub (header ++ "." ++ body) sig
  | _, _ => false

/-- the header of a token, if its three parts are base64 and it is for a network configuration -/
def Codec.headerOf (token : String) : Option Header :=
  match Text.split token '.' with
  | [header, body, sig] => do
    let raw ← codec.base64 header
    let _ ← codec.base64 body
    let _ ← codec.base64 sig
    let h ← if raw.length ≤ 1024 then codec.header raw else none
    if h.algorithm == "EdDSA" && h.type == "paperboat-network-config+jwt" && validID h.keyID then some h else none
  | _ => none

/-- verify; `keys` are the signing keys that a lookup finds -/
def verify (options : AuthorityOptions) (keys : String → Option (List UInt8)) (token : String)
    (now : ℤ) (restored : Bool) : Except Error (NetworkConfiguration × D) :=
  if maxConfigurationBytes < token.utf8ByteSize then .error .authority
  else
    match codec.headerOf token, codec.document token with
    | some h, some body =>
      if !restored && !codec.signature keys token h then .error .authority
      else
        match codec.configuration body with
        | none => .error .authority
        | some cfg =>
          if !validConfiguration codec options now cfg then .error .authority
          else if decide (cfg.expiresAt ≤ now) && !restored then .error .expired
          else if !sameIdentity cfg.self options.self || !validPeers codec cfg.self cfg.peers then .error .authority
          else .ok (cfg, codec.sha256 body)
    | _, _ => .error .authority

/-! ## What is accepted -/

variable {codec} {options : AuthorityOptions} {keys : String → Option (List UInt8)} {token : String}
    {now : ℤ} {restored : Bool} {cfg : NetworkConfiguration} {hash : D}

variable (h : verify codec options keys token now restored = .ok (cfg, hash))
include h

/-- what an accepted token says and has passed -/
theorem verify_ok :
    token.utf8ByteSize ≤ maxConfigurationBytes ∧ (codec.headerOf token).isSome = true ∧
      (∃ body, codec.document token = some body ∧ codec.configuration body = some cfg ∧ hash = codec.sha256 body) ∧
      validConfiguration codec options now cfg = true ∧ sameIdentity cfg.self options.self = true ∧
      validPeers codec cfg.self cfg.peers = true := by
  unfold verify at h
  split_ifs at h with hsize
  split at h
  next hd body hheader hbody =>
    split_ifs at h
    split at h
    · cases h
    next cfg' hcfg =>
      split_ifs at h with hvalid hexpired hrest
      cases h
      simp only [Bool.not_eq_true', Bool.not_eq_false, Bool.or_eq_true, not_or] at hvalid hrest
      exact ⟨not_lt.1 hsize, by rw [hheader]; rfl, ⟨body, hbody, hcfg, rfl⟩, hvalid, hrest.1, hrest.2⟩
  · cases h

theorem verify_document :
    ∃ body, codec.document token = some body ∧ codec.configuration body = some cfg ∧ hash = codec.sha256 body :=
  (verify_ok h).2.2.1

theorem verify_generation : 0 < cfg.generation := by
  have hvalid := (verify_ok h).2.2.2.1
  simp only [validConfiguration, generationOk, Bool.and_eq_true, decide_eq_true_eq] at hvalid
  omega

/-- A document that was accepted is accepted again later, when it is restored: neither its expiry nor the signing
keys matter then. -/
theorem verify_restored {later : ℤ} (hlater : now ≤ later)
    (keys' : String → Option (List UInt8)) : verify codec options keys' token later true = .ok (cfg, hash) := by
  obtain ⟨hsize, hheader, ⟨body, hbody, hcfg, rfl⟩, hvalid, hself, hpeers⟩ := verify_ok h
  obtain ⟨hd, hhd⟩ := Option.isSome_iff_exists.1 hheader
  have hvalid' : validConfiguration codec options later cfg = true := by
    simp only [validConfiguration, Bool.and_eq_true, decide_eq_true_eq] at hvalid ⊢
    refine ⟨⟨⟨⟨hvalid.1.1.1.1, ?_⟩, hvalid.1.1.2⟩, hvalid.1.2⟩, hvalid.2⟩
    omega
  simp [verify, not_lt.2 hsize, hhd, hbody, hcfg, hvalid', hself, hpeers]

end Verify

end Paperboat.Tailnet
