/-
The authority of one endpoint on its peer network: custody, the configuration kept for a
restart, and the one installed.

Apply verifies a token, records its generation and hash in custody, keeps the token, and
installs it; updateMu is held over the last three, mu only over the install. A refusal
by the server empties what is kept and drops what is installed, under the same locks.
Restore loads the kept token and reads custody before it takes either lock, and installs
only if nothing is installed. Every access to custody or to the kept file may fail, also
after its write (`Access`). A step is one of these sections, so that the calls
interleave in any order the locks allow; a restart leaves custody, the kept token and
the record of what happened.

`history` is what happened, newest first. A call carries how long it was at the moments
that matter later: an Apply when it verified its token, a Restore when it loaded the
token and when it read custody.

Results:
- `update_cases`: custody never goes back, and at one generation it stays with one hash;
- `admit_ok`: what Apply records is the generation and hash of its document.
-/
import Paperboat.Core.Index
import Paperboat.Tailnet.Configuration

namespace Paperboat.Tailnet

/-! ## Custody -/

/-- config.PeerNetworkState; no hash is the empty text -/
structure PeerNetworkState (D : Type) where
  privateKey : List UInt8 := []
  pendingKey : List UInt8 := []
  keyGeneration : ℕ := 0
  generation : ℕ := 0
  configHash : Option D := none
  virtualAddress : String := ""
deriving DecidableEq

/-- how an access to the store goes -/
inductive Access
  | ok
  /-- nothing can be read -/
  | unavailable
  /-- the write fails, and changes nothing -/
  | unwritten
  /-- an error after the write -/
  | late
deriving DecidableEq, Repr

section Custody

variable {D : Type} [DecidableEq D]

def validPeerNetworkState (s : PeerNetworkState D) : Bool :=
  (s.privateKey.length == 0 || s.privateKey.length == 32) && (s.pendingKey.length == 0 || s.pendingKey.length == 32) &&
    (s.keyGeneration == 0) == (s.privateKey.length == 0) &&
    if s.generation = 0 then s.configHash.isNone else s.configHash.isSome && s.privateKey.length == 32

/-- UpdatePeerNetworkState -/
def updatePeerNetworkState {α : Type} (access : Access) (s : PeerNetworkState D)
    (update : PeerNetworkState D → Except Error (PeerNetworkState D × α)) : PeerNetworkState D × Except Error α :=
  if access = .unavailable then (s, .error .store)
  else
    match update s with
    | .error e => (s, .error e)
    | .ok (s', a) =>
      if !validPeerNetworkState s' || decide (s'.generation < s.generation) ||
          s'.generation == s.generation && s'.configHash != s.configHash then (s, .error .store)
      else if access = .late then (s', .error .store)
      -- what is already there is not written again
      else if access = .unwritten ∧ s' ≠ s then (s, .error .store)
      else (s', .ok a)

/-- privateKey: a clamped key -/
def privateKeyOk (raw : List UInt8) : Bool :=
  raw.length == 32 && raw.headD 0 &&& 7 == 0 && raw.getLastD 0 &&& 128 == 0 && raw.getLastD 0 &&& 64 != 0

def keyMatches (codec : Codec D) (cfg : NetworkConfiguration) (raw : List UInt8) : Bool :=
  privateKeyOk raw && codec.publicText raw == cfg.self.wireGuardPublicKey

/-- the update of custody by Apply, and the key it selects -/
def admits (codec : Codec D) (cfg : NetworkConfiguration) (hash : D) (s : PeerNetworkState D) :
    Except Error (PeerNetworkState D × List UInt8) :=
  if cfg.generation < s.generation then .error .stale
  else if cfg.generation = s.generation ∧ some hash ≠ s.configHash then .error .authority
  else if s.virtualAddress ≠ "" ∧ s.virtualAddress ≠ cfg.self.virtualAddress then .error .authority
  else if cfg.self.keyGeneration = s.keyGeneration ∧ keyMatches codec cfg s.privateKey then
    .ok ({ s with generation := cfg.generation, configHash := some hash, virtualAddress := cfg.self.virtualAddress },
      s.privateKey)
  else if cfg.self.keyGeneration = s.keyGeneration + 1 ∧ keyMatches codec cfg s.pendingKey then
    .ok ({ s with
      privateKey := s.pendingKey, pendingKey := [], keyGeneration := cfg.self.keyGeneration,
        generation := cfg.generation
      configHash := some hash, virtualAddress := cfg.self.virtualAddress }, s.pendingKey)
  else .error .authority

/-- the update of custody by PrepareKey; `fresh` is a new key -/
def stageKey (codec : Codec D) (rotate : Bool) (fresh : List UInt8) (s : PeerNetworkState D) :
    Except Error (PeerNetworkState D × String × ℕ) :=
  if maxGeneration ≤ s.keyGeneration then .error .authority
  else
    let staged := if s.pendingKey = [] then fresh else s.pendingKey
    let s' := if rotate ∨ s.privateKey = [] ∨ s.pendingKey ≠ [] then { s with pendingKey := staged } else s
    let raw := if rotate ∨ s.privateKey = [] ∨ s.pendingKey ≠ [] then staged else s.privateKey
    if privateKeyOk raw then .ok (s', codec.publicText raw, s.keyGeneration) else .error .authority

/-- custody is left as it is and the update failed, or it is what the callback made of it, not of an older
generation and at the same generation not of another hash -/
theorem update_cases {α : Type} (access : Access) (s : PeerNetworkState D)
    (update : PeerNetworkState D → Except Error (PeerNetworkState D × α)) :
    (∃ e, updatePeerNetworkState access s update = (s, .error e)) ∨
      ∃ s' a, update s = .ok (s', a) ∧ (updatePeerNetworkState access s update).1 = s' ∧ s.generation ≤ s'.generation ∧
        (s'.generation = s.generation → s'.configHash = s.configHash) := by
  unfold updatePeerNetworkState
  by_cases havailable : access = .unavailable
  · exact .inl ⟨_, if_pos havailable⟩
  rw [if_neg havailable]
  cases hupdate : update s with
  | error e => exact .inl ⟨e, rfl⟩
  | ok result =>
    obtain ⟨s', a⟩ := result
    dsimp only
    split_ifs with hback
    · exact .inl ⟨_, rfl⟩
    all_goals
      simp only [Bool.or_eq_true, decide_eq_true_eq, Bool.and_eq_true, beq_iff_eq, bne_iff_ne, not_or, not_and, not_not,
        not_lt] at hback
    · exact .inr ⟨s', a, rfl, rfl, hback.1.2, hback.2⟩
    · exact .inl ⟨_, rfl⟩
    · exact .inr ⟨s', a, rfl, rfl, hback.1.2, hback.2⟩

variable {s s' : PeerNetworkState D} {codec : Codec D}

theorem admit_ok {cfg : NetworkConfiguration} {hash : D} {key : List UInt8}
    (h : admits codec cfg hash s = .ok (s', key)) :
    s.generation ≤ cfg.generation ∧ (cfg.generation = s.generation → s.configHash = some hash) ∧
      s'.generation = cfg.generation ∧ s'.configHash = some hash := by
  unfold admits at h
  split_ifs at h with hstale hother haddress hkey hpending
  all_goals
    cases h
    refine ⟨not_lt.1 hstale, fun hgen => ?_, rfl, rfl⟩
    by_contra hne
    exact hother ⟨hgen, fun h => hne h.symm⟩

omit [DecidableEq D] in
theorem stageKey_ok {rotate : Bool} {fresh : List UInt8} {result : String × ℕ}
    (h : stageKey codec rotate fresh s = .ok (s', result)) :
    s'.generation = s.generation ∧ s'.configHash = s.configHash := by
  unfold stageKey at h
  dsimp only at h
  split_ifs at h <;> cases h <;> exact ⟨rfl, rfl⟩

end Custody

/-! ## Calls -/

inductive Event
  /-- an Apply succeeded: it installed the configuration of the token -/
  | applied (token : String) (cfg : NetworkConfiguration) (verifiedAt : ℕ)
  /-- a Restore installed -/
  | restored (token : String) (cfg : NetworkConfiguration)
  /-- a refusal emptied what was kept, without an error -/
  | refused
  /-- an Apply kept its token -/
  | kept
deriving DecidableEq, Repr

/-- where a call is -/
inductive Call (D : Type)
  /-- Apply waits for updateMu -/
  | verified (token : String) (cfg : NetworkConfiguration) (hash : D) (verifiedAt : ℕ)
  /-- Apply holds updateMu, after the update of custody -/
  | recorded (token : String) (cfg : NetworkConfiguration) (selected : Except Error (List UInt8)) (verifiedAt : ℕ)
  /-- Apply holds updateMu, after the token was kept -/
  | saved (token : String) (cfg : NetworkConfiguration) (selected : Except Error (List UInt8)) (verifiedAt : ℕ)
  /-- rejectRefusedAuthority holds updateMu, after the write of the empty token -/
  | emptied
  /-- Restore has the token, not yet custody -/
  | loaded (token : String) (loadedAt : ℕ)
  /-- Restore has checked the token against custody, and waits for the locks -/
  | read (token : String) (cfg : NetworkConfiguration) (loadedAt readAt : ℕ)
  | returned (error : Option Error)
deriving DecidableEq

/-- an Authority and its store -/
structure Node (D : Type) where
  custody : PeerNetworkState D := {}
  /-- the token kept for a restart -/
  kept : String := ""
  current : Option NetworkConfiguration := none
  closed : Bool := false
  updateMu : Option ℕ := none
  calls : AList fun _ : ℕ => Call D := ∅
  history : List Event := []

inductive Op
  /-- Apply of a token: `keys` are the signing keys a lookup finds, `done` says that the context is done -/
  | apply (i : ℕ) (token : String) (now : ℤ) (keys : String → Option (List UInt8)) (done : Bool)
  | applyCustody (i : ℕ) (access : Access)
  | applySave (i : ℕ) (access : Access)
  /-- `replaced`: the engine took the configuration -/
  | applyInstall (i : ℕ) (done : Bool) (now : ℤ) (replaced : Bool)
  /-- rejectRefusedAuthority of a refused request -/
  | refuseSave (i : ℕ) (access : Access)
  | refuseDrop (i : ℕ)
  | restoreLoad (i : ℕ) (ok : Bool)
  | restoreRead (i : ℕ) (ok : Bool) (now : ℤ)
  | restoreInstall (i : ℕ) (replaced : Bool)
  | prepareKey (i : ℕ) (rotate : Bool) (fresh : List UInt8) (access : Access)
  | close
  | restart

namespace Node

variable {D : Type}

variable (n : Node D) (i : ℕ)

def setCall (call : Call D) : Node D := { n with calls := n.calls.insert i call }

/-- the call returns, and its locks are released -/
def finish (error : Option Error) : Node D :=
  { n with calls := n.calls.insert i (.returned error), updateMu := if n.updateMu = some i then none else n.updateMu }

/-- SavePeerNetworkConfiguration -/
def save (token : String) (access : Access) : Node D :=
  if access = .ok ∨ access = .late then
    { n with kept := token, history := if token = "" then n.history else .kept :: n.history }
  else n

/-- the write of the empty token, by rejectRefusedAuthority -/
def revoke (access : Access) : Node D :=
  { n.save "" access with history := if access = .ok then .refused :: n.history else n.history }

/-- dropLocked -/
def drop : Node D := { n with current := none }

/-- installLocked; a configuration that the engine does not take is dropped again -/
def install (cfg : NetworkConfiguration) (event : Event) (replaced : Bool) : Node D :=
  if replaced then { n with current := some cfg, history := event :: n.history } else n.drop

def applyInstall (token : String) (cfg : NetworkConfiguration)
    (selected : Except Error (List UInt8)) (verifiedAt : ℕ) (done : Bool) (now : ℤ) (replaced : Bool) : Node D :=
  if n.closed then n.finish i (some .authority)
  else if done then n.finish i (some .context)
  else
    match selected with
    | .error .stale => n.finish i (some .stale)
    | .error e => n.drop.finish i (some e)
    | .ok _ =>
      if cfg.expiresAt ≤ now then n.finish i (some .expired)
      else (n.install cfg (.applied token cfg verifiedAt) replaced).finish i (if replaced then none else some .engine)

def restoreInstall (token : String) (cfg : NetworkConfiguration) (replaced : Bool) : Node D :=
  if n.closed then n.finish i (some .authority)
  else if n.current.isSome then n.finish i none
  else (n.install cfg (.restored token cfg) replaced).finish i (if replaced then none else some .engine)

section

variable (token : String) (cfg : NetworkConfiguration)

/-- Apply ends without installing, having dropped what was installed or not, or custody was written and it installs -/
theorem applyInstall_cases (selected : Except Error (List UInt8)) (verifiedAt : ℕ) (done : Bool) (now : ℤ)
    (replaced : Bool) :
    (∃ e, n.applyInstall i token cfg selected verifiedAt done now replaced = n.finish i (some e)) ∨
      (∃ e, n.applyInstall i token cfg selected verifiedAt done now replaced = n.drop.finish i (some e)) ∨
      ∃ key e, (selected = .ok key ∧ n.closed = false ∧ done = false ∧ now < cfg.expiresAt) ∧
        n.applyInstall i token cfg selected verifiedAt done now replaced =
          (n.install cfg (.applied token cfg verifiedAt) replaced).finish i e := by
  unfold applyInstall
  by_cases hclosed : n.closed = true
  · exact .inl ⟨_, if_pos hclosed⟩
  rw [if_neg hclosed]
  by_cases hdone : done = true
  · exact .inl ⟨_, if_pos hdone⟩
  rw [if_neg hdone]
  cases selected with
  | error e =>
    cases e with
    | stale => exact .inl ⟨_, rfl⟩
    | _ => exact .inr (.inl ⟨_, rfl⟩)
  | ok key =>
    by_cases hexpired : cfg.expiresAt ≤ now
    · exact .inl ⟨_, if_pos hexpired⟩
    · exact .inr (.inr ⟨key, _, ⟨rfl, by simpa using hclosed, by simpa using hdone, not_le.1 hexpired⟩,
        if_neg hexpired⟩)

/-- Restore ends without installing, or nothing was installed and it installs -/
theorem restoreInstall_cases (replaced : Bool) : (∃ e, n.restoreInstall i token cfg replaced = n.finish i e) ∨
      ∃ e, n.closed = false ∧ n.current = none ∧
        n.restoreInstall i token cfg replaced = (n.install cfg (.restored token cfg) replaced).finish i e := by
  unfold restoreInstall
  by_cases hclosed : n.closed = true
  · exact .inl ⟨_, if_pos hclosed⟩
  rw [if_neg hclosed]
  by_cases hcurrent : n.current.isSome = true
  · exact .inl ⟨_, if_pos hcurrent⟩
  · exact .inr ⟨_, Bool.eq_false_of_not_eq_true hclosed, Option.not_isSome_iff_eq_none.1 hcurrent, if_neg hcurrent⟩

end

variable [DecidableEq D] (codec : Codec D) (options : AuthorityOptions)

/-- the kept token is the document custody was last written for, with the key of custody -/
def restorable (custody : PeerNetworkState D) (cfg : NetworkConfiguration) (hash : D) : Bool :=
  some hash == custody.configHash && cfg.generation == custody.generation &&
    cfg.self.virtualAddress == custody.virtualAddress && cfg.self.keyGeneration == custody.keyGeneration &&
    keyMatches codec cfg custody.privateKey

def step (n : Node D) : Op → Node D
  | .apply i token now keys done =>
    if (n.calls.lookup i).isSome then n
    else if done then n.finish i (some .context)
    else
      match verify codec options keys token now false with
      | .error e => n.finish i (some e)
      | .ok (cfg, hash) => n.setCall i (.verified token cfg hash n.history.length)
  | .applyCustody i access =>
    match n.calls.lookup i with
    | some (.verified token cfg hash verifiedAt) =>
      if n.updateMu.isSome then n
      else if n.closed then n.finish i (some .authority)
      else
        let updated := updatePeerNetworkState access n.custody (admits codec cfg hash)
        ({ n with custody := updated.1, updateMu := some i } : Node D).setCall i
          (.recorded token cfg updated.2 verifiedAt)
    | _ => n
  | .applySave i access =>
    match n.calls.lookup i with
    | some (.recorded token cfg (.ok key) verifiedAt) =>
      (n.save token access).setCall i (.saved token cfg (.ok key) verifiedAt)
    | some (.recorded token cfg (.error e) verifiedAt) => n.setCall i (.saved token cfg (.error e) verifiedAt)
    | _ => n
  | .applyInstall i done now replaced =>
    match n.calls.lookup i with
    | some (.saved token cfg selected verifiedAt) =>
      n.applyInstall i token cfg selected verifiedAt done now replaced
    | _ => n
  | .refuseSave i access =>
    if (n.calls.lookup i).isSome || n.updateMu.isSome then n
    else ({ n.revoke access with updateMu := some i } : Node D).setCall i .emptied
  | .refuseDrop i =>
    match n.calls.lookup i with
    | some .emptied => n.drop.finish i (some .authority)
    | _ => n
  | .restoreLoad i ok =>
    if (n.calls.lookup i).isSome then n
    else if !ok || decide (maxConfigurationBytes < n.kept.utf8ByteSize) then n.finish i (some .store)
    else n.setCall i (.loaded n.kept n.history.length)
  | .restoreRead i ok now =>
    match n.calls.lookup i with
    | some (.loaded token loadedAt) =>
      if !ok then n.finish i (some .store)
      else if token = "" then n.finish i (some .nothingToRestore)
      else
        match verify codec options (fun _ => none) token now true with
        | .error _ => n.finish i (some .authority)
        | .ok (cfg, hash) =>
          if restorable codec n.custody cfg hash then n.setCall i (.read token cfg loadedAt n.history.length)
          else n.finish i (some .authority)
    | _ => n
  | .restoreInstall i replaced =>
    match n.calls.lookup i with
    | some (.read token cfg _ _) => if n.updateMu.isSome then n else n.restoreInstall i token cfg replaced
    | _ => n
  | .prepareKey i rotate fresh access =>
    if (n.calls.lookup i).isSome || n.updateMu.isSome then n
    else if n.closed then n.finish i (some .authority)
    else
      let updated := updatePeerNetworkState access n.custody (stageKey codec rotate fresh)
      ({ n with custody := updated.1 } : Node D).finish i
        (match updated.2 with
        | .ok _ => none
        | .error e => some e)
  | .close => if n.closed then n else { n.drop with closed := true }
  | .restart => { custody := n.custody, kept := n.kept, history := n.history }

end Node

end Paperboat.Tailnet
