/-
Peers that a newer configuration no longer lists. A peer under one of whose resources
something is still admitted keeps its path for a grace period (withdrawal.go), so that
what is installed is the current configuration and the peers still withdrawing.

The state is what Authority.mu guards: the current configuration, the count of
admissions of each resource, and the peers that are withdrawing. `tracks` has every
track that was handed out, by number, and whether it was released.

Results:
- `counted_run`: the counts are those of the open tracks;
- `kept_run`: a peer that is withdrawing was dropped while it held an open track, and
  held one within its grace at every cut since;
- `separate_iff`, `own_of_distinct`: the installed peers are told apart by a field
  exactly if the current ones, the withdrawing ones, and both together are; then the
  tables give each current peer its own entry;
- `installed_distinct_iff`: **the installed peers** are told apart by endpoint, address
  and key all along exactly if no configuration is applied that gives the address or the
  key of a peer that stays withdrawn to another.

Witnesses:
- `reused_address_shadowed`: the tables give the address to the peer that was withdrawn.

Premises:
- the direct contacts of the peers (carrierPeers) are left out;
- an installation that the engine refuses drops everything.
-/
import Paperboat.Core.Machine
import Paperboat.Core.Table
import Paperboat.Tailnet.Configuration

namespace Paperboat.Tailnet

open Table Index Machine

/-! ## Model -/

/-- api.AdmittedNetworkScope -/
structure ScopeRef where
  resourceKind : String
  resourceID : String
deriving DecidableEq, Repr

def NetworkScope.ref (scope : NetworkScope) : ScopeRef := ⟨scope.resourceKind, scope.resourceID⟩

structure WithdrawnPeer where
  peer : NetworkPeer
  until_ : ℤ
deriving DecidableEq, Repr

structure Track where
  ref : ScopeRef
  released : Bool
deriving DecidableEq, Repr

structure Peering where
  current : Option NetworkConfiguration := none
  admitted : AList fun _ : ScopeRef => ℕ := ∅
  withdrawing : AList fun _ : String => WithdrawnPeer := ∅
  tracks : List Track := []

/-- two seconds, in nanoseconds -/
def withdrawalGrace : ℤ := 2000000000

def maxAdmittedNetworkScopes : ℕ := 128

def scopeLive (scope : NetworkScope) (now : ℤ) : Bool := scope.expiresAt == 0 || decide (now < scope.expiresAt)

def NetworkConfiguration.lists (cfg : NetworkConfiguration) (id : String) : Bool :=
  cfg.peers.any (·.identity.endpointID == id)

/-- the kinds whose scopes admit native operations -/
def applicationKind (scope : NetworkScope) : Bool :=
    scope.resourceKind ∈ ["machine_access", "inspector", "config_compare"]

/-- the scope that a carrier is admitted by: the first live one of the personal network, or else the first live one
of an application; `seen` is when the loop looks at a scope -/
def backing (seen : NetworkScope → ℤ) : List NetworkScope → Option NetworkScope → Option NetworkScope
  | [], found => found
  | scope :: rest, found =>
    if !scopeLive scope (seen scope) then backing seen rest found
    else if scope.resourceKind == "machine_network" && scope.capability == "connect" then some scope
    else if applicationKind scope then backing seen rest (found <|> some scope)
    else backing seen rest found

namespace Peering

variable (s : Peering)

def holdsScopes (p : NetworkPeer) : Bool := p.scopes.any fun scope => decide (0 < (s.admitted.lookup scope.ref).getD 0)

/-- the peers of the current configuration that the next does not list and under which something is admitted -/
def dropped (next : NetworkConfiguration) : List NetworkPeer :=
  ((s.current.map (·.peers)).getD []).filter fun p => !next.lists p.identity.endpointID && s.holdsScopes p

/-- withdrawLocked; without a current configuration nothing is withdrawing -/
def withdraw (next : NetworkConfiguration) (now : ℤ) : AList fun _ : String => WithdrawnPeer :=
  if s.current.isNone then s.withdrawing
  else keep (fun id => !next.lists id) ((s.dropped next).foldl
    (fun t p => t.insert p.identity.endpointID ⟨p, now + withdrawalGrace⟩) s.withdrawing)

def install (cfg : NetworkConfiguration) (now : ℤ) : Peering :=
  { s with withdrawing := s.withdraw cfg now, current := some cfg }

def drop : Peering := { s with current := none, withdrawing := ∅ }

def currentPeers : List NetworkPeer := (s.current.map (·.peers)).getD []

def installedPeers : List NetworkPeer := s.currentPeers ++ s.withdrawing.entries.map fun e => e.2.peer

def cutWithdrawn (now : ℤ) : Peering :=
  { s with withdrawing := select (fun w => decide (now < w.until_) && s.holdsScopes w.peer) s.withdrawing }

def retainScope (scope : NetworkScope) : Peering :=
  if (s.admitted.lookup scope.ref).getD 0 == 0 && maxAdmittedNetworkScopes ≤ s.admitted.entries.length then s
  else { s with
    admitted := s.admitted.insert scope.ref ((s.admitted.lookup scope.ref).getD 0 + 1)
    tracks := s.tracks ++ [⟨scope.ref, false⟩] }

def trackAdmittedScope (peerID resourceID capability direction : String) (seen : NetworkScope → ℤ) : Peering :=
  let scopes := (s.currentPeers.filter (·.identity.endpointID == peerID)).flatMap (·.scopes)
  match scopes.find? fun scope => scope.resourceID == resourceID && scope.capability == capability &&
      scope.direction == direction && scopeLive scope (seen scope) && applicationKind scope with
  | some scope => s.retainScope scope
  | none => s

def trackAdmittedCarrier (peerID : String) (seen : NetworkScope → ℤ) : Peering :=
  match (s.currentPeers.find? (·.identity.endpointID == peerID)).bind fun p => backing seen p.scopes none with
  | some scope => s.retainScope scope
  | none => s

/-- the count of a track that is released goes down; the track is released once -/
def discount (i : ℕ) (ref : ScopeRef) : Peering :=
  { s with
    admitted :=
      if (s.admitted.lookup ref).getD 0 ≤ 1 then s.admitted.erase ref
      else s.admitted.insert ref ((s.admitted.lookup ref).getD 0 - 1)
    tracks := s.tracks.set i ⟨ref, true⟩ }

def release (i : ℕ) (now : ℤ) : Peering :=
  match s.tracks[i]? with
  | some ⟨ref, false⟩ =>
    if s.withdrawing.entries.isEmpty then s.discount i ref else (s.discount i ref).cutWithdrawn now
  | _ => s

/-- peersLocked: the address of each key, and who is admitted at each address -/
def tables (peers : List NetworkPeer) : (String → Option String) × (String → Option NetworkPeer) :=
  peers.foldl (fun t p => (Function.update t.1 p.identity.wireGuardPublicKey (some p.identity.virtualAddress),
    Function.update t.2 p.identity.virtualAddress (some p))) (fun _ => none, fun _ => none)

end Peering

section Runs

variable {D : Type} (codec : Codec D) (options : AuthorityOptions) (self : NetworkBinding)

/-- a configuration of the binding that verify accepted -/
abbrev Verified : Type := { cfg : NetworkConfiguration // cfg.self = self ∧
  ∃ keys token now hash, verify codec options keys token now false = .ok (cfg, hash) }

/-- the locked sections; `installed` is whether the engine takes the configuration, `drop` is an Apply whose custody
fails -/
inductive PathOp
  | apply (cfg : Verified codec options self) (installed : Bool) (now : ℤ)
  | drop
  | trackScope (peerID resourceID capability direction : String) (seen : NetworkScope → ℤ)
  | trackCarrier (peerID : String) (seen : NetworkScope → ℤ)
  | release (track : ℕ) (now : ℤ)
  | timer (now : ℤ)

variable {codec options self}

def Peering.step (s : Peering) : PathOp codec options self → Peering
  | .apply cfg true now => s.install cfg.1 now
  | .apply _ false _ => s.drop
  | .drop => s.drop
  | .trackScope peerID resourceID capability direction seen =>
    s.trackAdmittedScope peerID resourceID capability direction seen
  | .trackCarrier peerID seen => s.trackAdmittedCarrier peerID seen
  | .release track now => s.release track now
  | .timer now => s.cutWithdrawn now

namespace Peering

/-- the state after the operations, on a new authority -/
def after (ops : List (PathOp codec options self)) : Peering := run step {} ops

/-! ## What is asked -/

variable (s : Peering)

/-- the tracks of the resource that were not released -/
def openTracks (ref : ScopeRef) : ℕ := s.tracks.countP fun t => t.ref == ref && !t.released

def Counted : Prop := ∀ ref, (s.admitted.lookup ref).getD 0 = s.openTracks ref

/-- a track on one of the peer's resources is open -/
def Held (p : NetworkPeer) : Prop := ∃ scope ∈ p.scopes, 0 < s.openTracks scope.ref

/-- when the operation cuts the paths of withdrawn peers, if it does -/
def cutAt : PathOp codec options self → Option ℤ
  | .release i now => if (s.tracks[i]?).any (!·.released) && !s.withdrawing.entries.isEmpty then some now else none
  | .timer now => some now
  | _ => none

/-- the peer was dropped from the current configuration while it held an open track, and at every cut since it held
one and its grace had not passed -/
def Kept (ops : List (PathOp codec options self)) (w : WithdrawnPeer) : Prop :=
  ∃ before cfg now rest, ops = before ++ .apply cfg true now :: rest ∧ w.peer ∈ (after before).currentPeers ∧
    cfg.1.lists w.peer.identity.endpointID = false ∧ (after before).Held w.peer ∧ w.until_ = now + withdrawalGrace ∧
    ∀ mid op more t, rest = mid ++ op :: more → cutAt (after (before ++ .apply cfg true now :: mid)) op = some t →
      (after (before ++ .apply cfg true now :: mid ++ [op])).Held w.peer ∧ t < w.until_

/-- the peers differ in endpoint, address and key -/
def Distinct : Prop :=
  (s.installedPeers.map (·.identity.endpointID)).Nodup ∧ (s.installedPeers.map (·.identity.virtualAddress)).Nodup ∧
    (s.installedPeers.map (·.identity.wireGuardPublicKey)).Nodup

/-- the tables give every current peer its own entry -/
def Own : Prop := ∀ p ∈ s.currentPeers,
  (tables s.installedPeers).1 p.identity.wireGuardPublicKey = some p.identity.virtualAddress ∧
    (tables s.installedPeers).2 p.identity.virtualAddress = some p

/-- the peer stays withdrawn when the configuration is applied: it is withdrawing already, or dropped with something
admitted -/
def Stays (cfg : NetworkConfiguration) (p : NetworkPeer) : Prop :=
  s.current.isSome ∧ cfg.lists p.identity.endpointID = false ∧
    ((∃ id w, s.withdrawing.lookup id = some w ∧ w.peer = p) ∨ p ∈ s.currentPeers ∧ s.holdsScopes p = true)

/-- no listed peer has the address or the key of one that stays withdrawn -/
def Clear : PathOp codec options self → Prop
  | .apply cfg true _ => ∀ p, s.Stays cfg.1 p → ∀ q ∈ cfg.1.peers,
      q.identity.virtualAddress ≠ p.identity.virtualAddress ∧
        q.identity.wireGuardPublicKey ≠ p.identity.wireGuardPublicKey
  | _ => True

/-! ## The counts -/

variable {s}

theorem countP_set_open {tracks : List Track} {i : ℕ} {ref : ScopeRef} (h : tracks[i]? = some ⟨ref, false⟩)
    (r : ScopeRef) :
    (tracks.set i ⟨ref, true⟩).countP (fun t => t.ref == r && !t.released) =
      tracks.countP (fun t => t.ref == r && !t.released) - if ref = r then 1 else 0 := by
  obtain ⟨hi, hget⟩ := List.getElem?_eq_some_iff.1 h
  rw [List.countP_set hi, hget]
  by_cases hr : ref = r <;> simp [hr]

theorem counted_discount (h : s.Counted) {i : ℕ} {ref : ScopeRef} (htrack : s.tracks[i]? = some ⟨ref, false⟩) :
    (s.discount i ref).Counted := by
  intro r
  have hopen : (s.discount i ref).openTracks r = s.openTracks r - if ref = r then 1 else 0 := countP_set_open htrack r
  rw [hopen, ← h r]
  unfold discount
  by_cases hr : r = ref
  · subst hr
    rw [if_pos rfl]
    by_cases hlast : (s.admitted.lookup r).getD 0 ≤ 1
    · rw [if_pos hlast, AList.lookup_erase, Option.getD_none]
      omega
    · rw [if_neg hlast, AList.lookup_insert, Option.getD_some]
  · have hne : ref ≠ r := fun heq => hr heq.symm
    split_ifs <;> simp [AList.lookup_erase_ne hr, AList.lookup_insert_ne hr]

theorem counted_retain (h : s.Counted) (scope : NetworkScope) : (s.retainScope scope).Counted := by
  unfold retainScope
  split_ifs
  · exact h
  · intro r
    unfold openTracks
    have hr := h r
    unfold openTracks at hr
    by_cases heq : r = scope.ref
    · subst heq
      simp [← hr]
    · have hne : scope.ref ≠ r := fun h => heq h.symm
      simp [heq, hne, hr]

/-- only tracks and counts change, and the counts stay those of the open tracks -/
structure Counts (s t : Peering) : Prop where
  current : t.current = s.current
  withdrawing : t.withdrawing = s.withdrawing
  counted : s.Counted → t.Counted

theorem Counts.refl (s : Peering) : s.Counts s := ⟨rfl, rfl, fun h => h⟩

theorem Counts.retain (s : Peering) (scope : NetworkScope) : s.Counts (s.retainScope scope) := by
  refine ⟨?_, ?_, fun h => counted_retain h scope⟩
  all_goals
    unfold retainScope
    split_ifs <;> rfl

/-- a release does nothing, or releases an open track and cuts -/
theorem release_cases (s : Peering) (i : ℕ) (now : ℤ) :
    (s.release i now = s ∧ (s.tracks[i]?).any (!·.released) = false) ∨ ∃ ref, s.tracks[i]? = some ⟨ref, false⟩ ∧
      s.release i now =
        if s.withdrawing.entries.isEmpty then s.discount i ref else (s.discount i ref).cutWithdrawn now := by
  unfold release
  split
  next ref htrack => exact .inr ⟨ref, htrack, rfl⟩
  next hno =>
    refine .inl ⟨rfl, ?_⟩
    cases htrack : s.tracks[i]? with
    | none => rfl
    | some t =>
      obtain ⟨ref, released⟩ := t
      cases released with
      | false => exact absurd htrack (hno ref)
      | true => rfl

/-- what an operation comes to: a configuration is installed, everything is dropped, or the counts change, and paths
are cut where `cutAt` says so -/
inductive Effect (s : Peering) : PathOp codec options self → Peering → Prop
  | installs (cfg : Verified codec options self) (now : ℤ) : Effect s (.apply cfg true now) (s.install cfg.1 now)
  | drops (op : PathOp codec options self) : Effect s op s.drop
  | counts {op : PathOp codec options self} {t : Peering} (h : s.Counts t) (hno : s.cutAt op = none) : Effect s op t
  | cuts {op : PathOp codec options self} {t : Peering} (h : s.Counts t) {now : ℤ} (hat : s.cutAt op = some now) :
    Effect s op (t.cutWithdrawn now)

theorem step_effect (s : Peering) (op : PathOp codec options self) : s.Effect op (s.step op) := by
  cases op with
  | apply cfg installed now =>
    cases installed with
    | true => exact .installs cfg now
    | false => exact .drops _
  | drop => exact .drops _
  | trackScope p r c d seen =>
    refine .counts ?_ rfl
    change s.Counts (s.trackAdmittedScope p r c d seen)
    unfold trackAdmittedScope
    dsimp only
    split
    · exact .retain s _
    · exact .refl s
  | trackCarrier p seen =>
    refine .counts ?_ rfl
    change s.Counts (s.trackAdmittedCarrier p seen)
    unfold trackAdmittedCarrier
    split
    · exact .retain s _
    · exact .refl s
  | timer now => exact .cuts (.refl s) rfl
  | release i now =>
    change s.Effect _ (s.release i now)
    obtain ⟨heq, hopen⟩ | ⟨ref, hopen, heq⟩ := release_cases s i now
    · rw [heq]
      exact .counts (.refl s) (by simp [cutAt, hopen])
    · have hcounts : s.Counts (s.discount i ref) := ⟨rfl, rfl, fun h => counted_discount h hopen⟩
      rw [heq]
      split_ifs with hempty
      · exact .counts hcounts (by simp [cutAt, hempty])
      · exact .cuts hcounts (by simp [cutAt, hopen, hempty])

theorem counted_step (h : s.Counted) (op : PathOp codec options self) : (s.step op).Counted := by
  have heffect := step_effect s op
  generalize s.step op = t at heffect ⊢
  cases heffect with
  | installs | drops => exact h
  | counts hcounts | cuts hcounts => exact hcounts.counted h

variable (ops : List (PathOp codec options self))

theorem counted_run : (after ops).Counted :=
  run_inv step {} (I := fun _ s => s.Counted) (fun _ => rfl) (fun _ op h => counted_step h op) ops

theorem held_iff (h : s.Counted) (p : NetworkPeer) : s.holdsScopes p = true ↔ s.Held p := by
  simp only [holdsScopes, List.any_eq_true, decide_eq_true_eq, Held, h _]

/-! ## Peers that are withdrawing -/

variable {cfg : NetworkConfiguration} {now : ℤ} {id : String} {w : WithdrawnPeer}

variable {l : List NetworkPeer}

theorem lookup_foldl_insert_of_not_mem (t : AList fun _ : String => WithdrawnPeer) (ends : ℤ)
    (h : id ∉ l.map (·.identity.endpointID)) :
    (l.foldl (fun t p => t.insert p.identity.endpointID ⟨p, ends⟩) t).lookup id = t.lookup id := by
  induction l generalizing t with
  | nil => rfl
  | cons p l ih =>
    rw [List.map_cons, List.mem_cons, not_or] at h
    rw [List.foldl_cons, ih _ h.2, AList.lookup_insert_ne h.1]

variable {p : NetworkPeer}

theorem lookup_foldl_insert_of_mem (t : AList fun _ : String => WithdrawnPeer) (ends : ℤ)
    (hnodup : (l.map (·.identity.endpointID)).Nodup) (hp : p ∈ l) :
    (l.foldl (fun t p => t.insert p.identity.endpointID ⟨p, ends⟩) t).lookup p.identity.endpointID =
      some ⟨p, ends⟩ := by
  induction l generalizing t with
  | nil => cases hp
  | cons q l ih =>
    rw [List.map_cons, List.nodup_cons] at hnodup
    rw [List.foldl_cons]
    obtain rfl | hp := List.mem_cons.1 hp
    · rw [lookup_foldl_insert_of_not_mem _ _ hnodup.1, AList.lookup_insert]
    · exact ih _ hnodup.2 hp

theorem lookup_foldl_insert_cases {t : AList fun _ : String => WithdrawnPeer} {ends : ℤ}
    (h : (l.foldl (fun t p => t.insert p.identity.endpointID ⟨p, ends⟩) t).lookup id = some w) :
    t.lookup id = some w ∨ ∃ p ∈ l, p.identity.endpointID = id ∧ w = ⟨p, ends⟩ := by
  induction l generalizing t with
  | nil => exact .inl h
  | cons q l ih =>
    obtain h | ⟨p, hp, hid, hw⟩ := ih h
    · by_cases hq : id = q.identity.endpointID
      · rw [hq, AList.lookup_insert] at h
        exact .inr ⟨q, List.mem_cons_self, hq.symm, (Option.some.inj h).symm⟩
      · rw [AList.lookup_insert_ne hq] at h
        exact .inl h
    · exact .inr ⟨p, List.mem_cons_of_mem _ hp, hid, hw⟩

/-- who is withdrawing after a configuration was applied -/
theorem withdraw_cases (hcurrent : s.current.isSome = true) (h : (s.withdraw cfg now).lookup id = some w) :
    cfg.lists id = false ∧ (s.withdrawing.lookup id = some w ∨ w.peer.identity.endpointID = id ∧
      w.peer ∈ s.currentPeers ∧ s.holdsScopes w.peer = true ∧ w.until_ = now + withdrawalGrace) := by
  have hsome : ¬s.current.isNone = true := by simp [← Option.not_isSome, hcurrent]
  rw [withdraw, if_neg hsome, lookup_keep] at h
  split_ifs at h with hlisted
  refine ⟨by simpa using hlisted, ?_⟩
  obtain h | ⟨p, hp, hid, rfl⟩ := lookup_foldl_insert_cases h
  · exact .inl h
  · obtain ⟨hmem, hchecks⟩ := List.mem_filter.1 hp
    rw [Bool.and_eq_true] at hchecks
    exact .inr ⟨hid, hmem, hchecks.2, rfl⟩

theorem after_snoc (op : PathOp codec options self) :
    after (ops ++ [op]) = (after ops).step op := run_snoc step {} ops op

/-- a further operation that does not cut, or finds the peer within its grace and holding a track -/
theorem Kept.snoc {ops : List (PathOp codec options self)} (h : Kept ops w)
    (hcut : ∀ t, cutAt (after ops) op = some t → (after (ops ++ [op])).Held w.peer ∧ t < w.until_) :
      Kept (ops ++ [op]) w := by
  obtain ⟨before, cfg, now, rest, rfl, hpeer, hlisted, hheld, huntil, hcuts⟩ := h
  refine ⟨before, cfg, now, rest ++ [op], by simp, hpeer, hlisted, hheld, huntil, ?_⟩
  intro mid op' more t hsplit ht
  obtain ⟨-, rfl, rfl⟩ | ⟨more', -, rfl⟩ := snoc_split hsplit
  · have := hcut t ht
    simpa using this
  · exact hcuts mid op' more' t rfl ht

/-- what is withdrawing without a current configuration -/
def Idle (s : Peering) : Prop := s.current = none → s.withdrawing = ∅

/-- the counts decide what a cut keeps; it is applied to the state in which a release has been counted -/
theorem lookup_cut (s : Peering) (now : ℤ) (h : (s.cutWithdrawn now).withdrawing.lookup id = some w) :
    s.withdrawing.lookup id = some w ∧ now < w.until_ ∧ s.holdsScopes w.peer = true := by
  have hselect : ((s.withdrawing.lookup id).filter fun w => decide (now < w.until_) && s.holdsScopes w.peer) = some w :=
    (lookup_select _ _ _).symm.trans h
  obtain ⟨hlookup, hchecks⟩ := Option.filter_eq_some_iff.1 hselect
  simp only [Bool.and_eq_true, decide_eq_true_eq] at hchecks
  exact ⟨hlookup, hchecks⟩

theorem idle_step (h : s.Idle) (op : PathOp codec options self) : (s.step op).Idle := by
  have heffect := step_effect s op
  generalize s.step op = t at heffect ⊢
  cases heffect with
  | installs => exact fun hnone => absurd hnone (by simp [install])
  | drops => exact fun _ => rfl
  | counts hcounts => exact fun hnone => hcounts.withdrawing.trans (h (hcounts.current.symm.trans hnone))
  | cuts hcounts =>
    intro hnone
    unfold cutWithdrawn
    rw [hcounts.withdrawing, h (hcounts.current.symm.trans hnone)]
    rfl

theorem idle_run : (after ops).Idle :=
  run_inv step {} (I := fun _ s => s.Idle) (fun _ => rfl) (fun _ op h => idle_step h op) ops

theorem kept_step {ops : List (PathOp codec options self)}
    (h : ∀ id w, (after ops).withdrawing.lookup id = some w → Kept ops w) (op : PathOp codec options self) :
    ∀ id w, ((after ops).step op).withdrawing.lookup id = some w → Kept (ops ++ [op]) w := by
  intro id w hw
  have hcounted := counted_run ops
  have heffect := step_effect (after ops) op
  generalize ht : (after ops).step op = t at hw heffect
  cases heffect with
  | drops => exact absurd hw (by simp [drop])
  | installs cfg now =>
    change ((after ops).withdraw cfg.1 now).lookup id = some w at hw
    by_cases hcurrent : (after ops).current.isSome = true
    · obtain ⟨hlisted, hold | ⟨hid, hmem, hholds, huntil⟩⟩ := withdraw_cases hcurrent hw
      · exact (h id w hold).snoc fun t ht => absurd ht (by simp [cutAt])
      · refine ⟨ops, cfg, now, [], rfl, hmem, hid ▸ hlisted, (held_iff hcounted _).1 hholds, huntil, ?_⟩
        intro mid op' more t hsplit
        exact absurd hsplit (by simp)
    · have hnone : (after ops).current = none := by simpa using hcurrent
      rw [withdraw, if_pos (by simp [hnone]), idle_run ops hnone] at hw
      cases hw
  | counts hcounts hno =>
    rw [hcounts.withdrawing] at hw
    exact (h id w hw).snoc fun t ht => nomatch hno.symm.trans ht
  | cuts hcounts hat =>
    obtain ⟨hlookup, huntil, hholds⟩ := lookup_cut _ _ hw
    rw [hcounts.withdrawing] at hlookup
    refine (h id w hlookup).snoc fun t' ht' => ?_
    cases hat.symm.trans ht'
    refine ⟨?_, huntil⟩
    rw [after_snoc, ht]
    exact (held_iff (hcounts.counted hcounted) _).1 hholds

/-- **Withdrawing peers.** -/
theorem kept_run : ∀ id w, (after ops).withdrawing.lookup id = some w → Kept ops w :=
  run_inv step {} (I := fun ops s => ∀ id w, s.withdrawing.lookup id = some w → Kept ops w)
    nofun (fun _ op h => kept_step h op) ops

/-! ## Telling the installed peers apart -/

/-- by the field, the current peers, those withdrawing, and both together are told apart -/
structure Separate (f : NetworkPeer → String) (s : Peering) : Prop where
  within : (s.currentPeers.map f).Nodup
  across : ∀ p ∈ s.currentPeers, ∀ id w, s.withdrawing.lookup id = some w → f p ≠ f w.peer
  among : ∀ i j w w', s.withdrawing.lookup i = some w → s.withdrawing.lookup j = some w' → f w.peer = f w'.peer → i = j

theorem separate_iff (f : NetworkPeer → String) (s : Peering) : (s.installedPeers.map f).Nodup ↔ s.Separate f := by
  have hentries : s.withdrawing.entries.Nodup := s.withdrawing.nodupKeys.of_map _
  have hamong : ((s.withdrawing.entries.map fun e => e.2.peer).map f).Nodup ↔
      ∀ i j w w', s.withdrawing.lookup i = some w → s.withdrawing.lookup j = some w' →
        f w.peer = f w'.peer → i = j := by
    rw [List.map_map, List.nodup_map_iff_inj_on hentries]
    constructor
    · intro h i j w w' hi hj heq
      exact congrArg Sigma.fst (h _ (AList.mem_lookup_iff.1 hi) _ (AList.mem_lookup_iff.1 hj) heq)
    · intro h e he e' he' heq
      have hi := AList.mem_lookup_iff.2 he
      have hj := AList.mem_lookup_iff.2 he'
      have hkey := h _ _ _ _ hi hj heq
      rw [hkey] at hi
      exact Sigma.ext hkey (heq_of_eq (Option.some.inj (hi.symm.trans hj)))
  rw [installedPeers, List.map_append, List.nodup_append, hamong]
  constructor
  · intro h
    refine ⟨h.1, fun p hp id w hw heq => ?_, h.2.1⟩
    exact h.2.2 _ (List.mem_map_of_mem hp) _
      (List.mem_map_of_mem (List.mem_map.2 ⟨⟨id, w⟩, AList.mem_lookup_iff.1 hw, rfl⟩)) heq
  · intro h
    refine ⟨h.within, h.among, fun a ha b hb heq => ?_⟩
    obtain ⟨p, hp, rfl⟩ := List.mem_map.1 ha
    obtain ⟨q, hq, rfl⟩ := List.mem_map.1 hb
    obtain ⟨⟨id, w⟩, he, rfl⟩ := List.mem_map.1 hq
    exact h.across p hp id w (AList.mem_lookup_iff.2 he) heq

/-- a key that no later peer has keeps its entry -/
theorem tables_of_nodup {peers : List NetworkPeer} (haddress : (peers.map (·.identity.virtualAddress)).Nodup)
    (hkey : (peers.map (·.identity.wireGuardPublicKey)).Nodup) : ∀ p ∈ peers,
    (tables peers).1 p.identity.wireGuardPublicKey = some p.identity.virtualAddress ∧
      (tables peers).2 p.identity.virtualAddress = some p := by
  induction peers using List.reverseRecOn with
  | nil => nofun
  | append_singleton peers q ih =>
    rw [List.map_append, List.nodup_append] at haddress hkey
    intro p hp
    unfold tables
    rw [List.foldl_append]
    change Function.update (tables peers).1 q.identity.wireGuardPublicKey (some q.identity.virtualAddress)
        p.identity.wireGuardPublicKey = some p.identity.virtualAddress ∧
      Function.update (tables peers).2 q.identity.virtualAddress (some q) p.identity.virtualAddress = some p
    obtain hp | hp := List.mem_append.1 hp
    · have hneKey : p.identity.wireGuardPublicKey ≠ q.identity.wireGuardPublicKey :=
        hkey.2.2 _ (List.mem_map_of_mem hp) _ (List.mem_map_of_mem List.mem_cons_self)
      have hneAddress : p.identity.virtualAddress ≠ q.identity.virtualAddress :=
        haddress.2.2 _ (List.mem_map_of_mem hp) _ (List.mem_map_of_mem List.mem_cons_self)
      rw [Function.update_of_ne hneKey, Function.update_of_ne hneAddress]
      exact ih haddress.1 hkey.1 p hp
    · obtain rfl := List.mem_singleton.1 hp
      rw [Function.update_self, Function.update_self]
      exact ⟨rfl, rfl⟩

theorem own_of_distinct (h : s.Distinct) : s.Own :=
  fun p hp => tables_of_nodup h.2.1 h.2.2 p (List.mem_append_left _ hp)

/-- the three fields, and that a withdrawing peer is kept under its endpoint -/
structure Apart (s : Peering) : Prop where
  keyed : ∀ id w, s.withdrawing.lookup id = some w → w.peer.identity.endpointID = id
  endpoint : s.Separate (·.identity.endpointID)
  address : s.Separate (·.identity.virtualAddress)
  wireGuard : s.Separate (·.identity.wireGuardPublicKey)

theorem Apart.distinct (h : s.Apart) : s.Distinct :=
  ⟨(separate_iff _ s).2 h.endpoint, (separate_iff _ s).2 h.address, (separate_iff _ s).2 h.wireGuard⟩

variable {f : NetworkPeer → String} {s' : Peering}

/-- fewer peers that are withdrawing, with the same current ones or with none -/
theorem Separate.of_sub (h : s.Separate f) (hcurrent : s'.currentPeers = s.currentPeers)
    (hsub : ∀ id w, s'.withdrawing.lookup id = some w → s.withdrawing.lookup id = some w) : s'.Separate f where
  within := hcurrent ▸ h.within
  across p hp id w hw := h.across p (hcurrent ▸ hp) id w (hsub id w hw)
  among i j w w' hi hj := h.among i j w w' (hsub i w hi) (hsub j w' hj)

theorem Apart.of_sub (h : s.Apart) (hcurrent : s'.currentPeers = s.currentPeers)
    (hsub : ∀ id w, s'.withdrawing.lookup id = some w → s.withdrawing.lookup id = some w) : s'.Apart where
  keyed id w hw := h.keyed id w (hsub id w hw)
  endpoint := h.endpoint.of_sub hcurrent hsub
  address := h.address.of_sub hcurrent hsub
  wireGuard := h.wireGuard.of_sub hcurrent hsub

theorem Separate.none (hcurrent : s'.currentPeers = []) (hwithdrawing : s'.withdrawing = ∅) :
    s'.Separate f where
  within := by simp [hcurrent]
  across p hp := by simp [hcurrent] at hp
  among i j w w' hi := by simp [hwithdrawing] at hi

theorem apart_drop (s : Peering) : s.drop.Apart where
  keyed id w hw := absurd hw (by simp [drop])
  endpoint := Separate.none rfl rfl
  address := Separate.none rfl rfl
  wireGuard := Separate.none rfl rfl

/-- who is withdrawing after a configuration was applied stayed withdrawn, and was installed before -/
theorem withdraw_stays (h : s.Apart) (hidle : s.Idle) (hw : (s.withdraw cfg now).lookup id = some w) :
    s.Stays cfg w.peer ∧ w.peer.identity.endpointID = id ∧ cfg.lists id = false ∧ w.peer ∈ s.installedPeers := by
  by_cases hcurrent : s.current.isSome = true
  · obtain ⟨hlisted, hold | ⟨hid, hmem, hholds, -⟩⟩ := withdraw_cases hcurrent hw
    · have hid := h.keyed id w hold
      refine ⟨⟨hcurrent, hid ▸ hlisted, .inl ⟨id, w, hold, rfl⟩⟩, hid, hlisted, ?_⟩
      exact List.mem_append_right _ (List.mem_map.2 ⟨⟨id, w⟩, AList.mem_lookup_iff.1 hold, rfl⟩)
    · exact ⟨⟨hcurrent, hid ▸ hlisted, .inr ⟨hmem, hholds⟩⟩, hid, hlisted, List.mem_append_left _ hmem⟩
  · have hnone : s.current = none := by simpa using hcurrent
    rw [withdraw, if_pos (by simp [hnone]), hidle hnone] at hw
    cases hw

/-- who stays withdrawn is withdrawing after the configuration was applied -/
theorem stays_withdraw (h : s.Apart) (hp : s.Stays cfg p) (now : ℤ) :
    ∃ id w, (s.withdraw cfg now).lookup id = some w ∧ w.peer = p := by
  obtain ⟨hcurrent, hlisted, hcases⟩ := hp
  have hsome : ¬s.current.isNone = true := by simp [← Option.not_isSome, hcurrent]
  have hlookup : ∀ id, cfg.lists id = false → (s.withdraw cfg now).lookup id = ((s.dropped cfg).foldl
      (fun t p => t.insert p.identity.endpointID ⟨p, now + withdrawalGrace⟩) s.withdrawing).lookup id := by
    intro id hid
    rw [withdraw, if_neg hsome, lookup_keep, if_pos (by simp [hid])]
  have hnodup : ((s.dropped cfg).map (·.identity.endpointID)).Nodup :=
    h.endpoint.within.sublist (List.filter_sublist.map _)
  obtain ⟨id, w, hw, rfl⟩ | ⟨hmem, hholds⟩ := hcases
  · have hid := h.keyed id w hw
    refine ⟨id, w, ?_, rfl⟩
    rw [hlookup id (hid ▸ hlisted), lookup_foldl_insert_of_not_mem, hw]
    intro hin
    obtain ⟨q, hq, hqid⟩ := List.mem_map.1 hin
    exact h.endpoint.across q (List.mem_filter.1 hq).1 id w hw (hqid.trans hid.symm)
  · have hdropped : p ∈ s.dropped cfg := List.mem_filter.2 ⟨hmem, by simp [hlisted, hholds]⟩
    refine ⟨p.identity.endpointID, ⟨p, now + withdrawalGrace⟩, ?_, rfl⟩
    rw [hlookup _ hlisted]
    exact lookup_foldl_insert_of_mem _ _ hnodup hdropped

theorem Separate.install (h : s.Apart) (hidle : s.Idle) (hf : s.Separate f) (hwithin : (cfg.peers.map f).Nodup)
    (hacross : ∀ p, s.Stays cfg p → ∀ q ∈ cfg.peers, f q ≠ f p) : (s.install cfg now).Separate f where
  within := hwithin
  across q hq id w hw := hacross w.peer (withdraw_stays h hidle hw).1 q hq
  among i j w w' hi hj heq := by
    obtain ⟨-, hid, -, hmem⟩ := withdraw_stays h hidle hi
    obtain ⟨-, hid', -, hmem'⟩ := withdraw_stays h hidle hj
    rw [← hid, ← hid', List.inj_on_of_nodup_map ((separate_iff f s).2 hf) hmem hmem' heq]

theorem verified_nodup (cfg : Verified codec options self) : (cfg.1.peers.map (·.identity.endpointID)).Nodup ∧
    (cfg.1.peers.map (·.identity.virtualAddress)).Nodup ∧ (cfg.1.peers.map (·.identity.wireGuardPublicKey)).Nodup := by
  obtain ⟨cfg, -, keys, token, now, hash, hverify⟩ := cfg
  have hpeers := (verify_ok hverify).2.2.2.2.2
  simp only [validPeers, Bool.and_eq_true, decide_eq_true_eq, List.nodup_cons] at hpeers
  exact ⟨hpeers.1.1.1.2.2, hpeers.1.1.2.2, hpeers.1.2.2⟩

theorem apart_step (h : s.Apart) (hidle : s.Idle) (hclear : s.Clear op) : (s.step op).Apart := by
  have heffect := step_effect s op
  generalize s.step op = t at heffect ⊢
  cases heffect with
  | drops => exact apart_drop s
  | installs cfg now =>
    obtain ⟨hid, haddress, hkey⟩ := verified_nodup cfg
    refine ⟨fun id w hw => (withdraw_stays h hidle hw).2.1, h.endpoint.install h hidle hid ?_,
      h.address.install h hidle haddress fun p hp q hq => (hclear p hp q hq).1,
      h.wireGuard.install h hidle hkey fun p hp q hq => (hclear p hp q hq).2⟩
    intro p hp q hq heq
    have hlisted : cfg.1.lists p.identity.endpointID = true := List.any_eq_true.2 ⟨q, hq, by simpa using heq⟩
    cases hp.2.1.symm.trans hlisted
  | counts hcounts => exact h.of_sub (by simp [currentPeers, hcounts.current]) fun id w hw => hcounts.withdrawing ▸ hw
  | cuts hcounts =>
    exact h.of_sub (by simp [currentPeers, cutWithdrawn, hcounts.current]) fun id w hw =>
      hcounts.withdrawing ▸ (lookup_cut _ _ hw).1

/-- a listed peer with the address or the key of one that stays withdrawn is installed beside it -/
theorem clear_of_distinct (h : s.Apart) (hafter : (s.step op).Distinct) : s.Clear op := by
  cases op with
  | apply cfg installed now =>
    cases installed with
    | false => trivial
    | true =>
      intro p hp q hq
      obtain ⟨id, w, hw, rfl⟩ := stays_withdraw h hp now
      exact ⟨((separate_iff _ _).1 hafter.2.1).across q hq id w hw,
        ((separate_iff _ _).1 hafter.2.2).across q hq id w hw⟩
  | _ => trivial

/-- **The installed peers.** In a run with verified configurations of one binding, the counts are those of the open
tracks and the peers that are withdrawing were kept for them, at all times; and at all times the installed peers are
told apart and the tables give each current peer its own entry, exactly if every configuration that is applied is
clear of the peers that stay withdrawn. -/
theorem installed_distinct_iff {D : Type} (codec : Codec D) (options : AuthorityOptions) (self : NetworkBinding)
    (ops : List (PathOp codec options self)) :
    (∀ pre, pre <+: ops → (after pre).Counted ∧ (∀ id w, (after pre).withdrawing.lookup id = some w → Kept pre w) ∧
      (after pre).Distinct ∧ (after pre).Own) ↔ Throughout step {} Clear ops := by
  have hiff : (∀ pre, pre <+: ops → (after pre).Distinct) ↔ Throughout step {} Clear ops :=
    always_iff_throughout_of step {} (I := fun s => s.Apart ∧ s.Idle) ⟨apart_drop {}, fun _ => rfl⟩
      (fun _ h => h.1.distinct) (fun _ op h hclear => ⟨apart_step h.1 h.2 hclear, idle_step h.2 op⟩)
      (fun _ _ h hafter => clear_of_distinct h.1 hafter) ops
  rw [← hiff]
  constructor
  · intro h pre hpre
    exact (h pre hpre).2.2.1
  · intro h pre hpre
    exact ⟨counted_run pre, kept_run pre, h pre hpre, own_of_distinct (h pre hpre)⟩

end Peering

end Runs

/-! ## An address that is given to another peer -/

def cliBinding : NetworkBinding where
  accountID := "a"
  endpointID := "c"
  role := "cli"
  endpointGeneration := 1
  keyGeneration := 1
  wireGuardPublicKey := "wg"
  quicCertificateFingerprint := "0123456789abcdef0123456789abcdef"
  quicPublicKey := "0123456789abcdef0123456789abcdef"

/-- a machine that the client may open a terminal on -/
def terminalPeer (id key address : String) : NetworkPeer where
  identity :=
    { cliBinding with endpointID := id, machineID := id, role := "machine", machineGeneration := 1,
                      wireGuardPublicKey := key, virtualAddress := address }
  scopes := [⟨"machine_access", "r" ++ id, 1, "terminal", "dial", 443, 100⟩]

def peerConfiguration (generation : ℕ) (peers : List NetworkPeer) : NetworkConfiguration where
  version := 1
  issuer := "https://paperboat"
  audience := "paperboat-network"
  issuedAt := 1
  expiresAt := 100
  generation
  self := cliBinding
  peers

/-- texts stand for their own bytes, and the documents are "1" and "2" -/
def twoDocuments : Codec Unit where
  base64 := fun s => some (s.toList.map fun c => UInt8.ofNat c.toNat)
  hex := fun s => some (s.toList.map fun c => UInt8.ofNat c.toNat)
  header := fun _ => some ⟨"EdDSA", "paperboat-network-config+jwt", "k"⟩
  configuration := fun body =>
    if body = [49] then some (peerConfiguration 1 [terminalPeer "m" "km" "x"])
      else some (peerConfiguration 2 [terminalPeer "n" "kn" "x"])
  signed := fun _ _ _ => true
  sha256 := fun _ => ()
  publicKey := fun _ => true
  discoKey := fun _ => true
  virtualAddress := fun _ => true
  endpoint := fun _ => true
  publicText := fun _ => "wg"

def firstVerified : Verified twoDocuments ⟨"https://paperboat", cliBinding⟩ cliBinding :=
  ⟨peerConfiguration 1 [terminalPeer "m" "km" "x"], rfl, fun _ => some (List.replicate 32 0), "h.1.s",
    10, (), by decide +kernel⟩

def secondVerified : Verified twoDocuments ⟨"https://paperboat", cliBinding⟩ cliBinding :=
  ⟨peerConfiguration 2 [terminalPeer "n" "kn" "x"], rfl, fun _ => some (List.replicate 32 0), "h.2.s",
    10, (), by decide +kernel⟩

/-- a terminal is open on `m` when the next configuration gives its address to `n` -/
def reusedAddress : List (PathOp twoDocuments ⟨"https://paperboat", cliBinding⟩ cliBinding) :=
  [.apply firstVerified true 0, .trackScope "m" "rm" "terminal" "dial" (fun _ => 10), .apply secondVerified true 1]

/-- The table has `m` at the address of `n`. -/
theorem reused_address_shadowed :
    (Peering.after reusedAddress).installedPeers = [terminalPeer "n" "kn" "x", terminalPeer "m" "km" "x"] ∧
      (Peering.tables (Peering.after reusedAddress).installedPeers).2 "x" = some (terminalPeer "m" "km" "x") := by
  decide +kernel

end Paperboat.Tailnet
