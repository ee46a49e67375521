/-
What a connection's grant is after any number of parts: the sum of all parts of its
identity and generation that were admitted, in whatever order and however often.

`Tally` is a server together with the parts that each connection's grant is to be the
sum of, and the lookup index that each connection has: the source extends the lists and
the index of the grant in place, which `mergeIndexed` follows.

Results:
- `newest_mergeMemberships`, `SumOf.merge`: merging adds up;
- `mergeIndexed_eq`, `extendIndexed_agrees`: the merge through the index is the merge of
  the lists, and leaves an index that agrees with them;
- `sumOf_credential`: a credential is the sum of its verified parts;
- `Tally.adds_step_iff`: an operation keeps every connection's grant a sum exactly if it
  is no admission under the signed hash of the grant that is held, or one of a grant
  that has all that the other has (`Covers`);
- `Tally.parts_add_up_iff`: **adding up**; in a run every connection's grant is the sum
  of its parts, and its index agrees with it, at all times exactly if all operations are
  such.

Witnesses:
- `resent_part_replaces`: the last part, sent again, is all that is left.
-/
import Paperboat.Core.Keyed
import Paperboat.Relay.Server

namespace Paperboat.Relay

open Keyed Fold Server

/-! ## The sum of parts -/

/-- the latest end of a membership in a list; bottom if it is not there -/
noncomputable def newest (l : List Scope) (m : Scope) : WithBot ℤ :=
    ((l.filter (·.sameMembership m)).map (·.expiresAt)).maximum

/-- the entry of the last part that names the key -/
def lastEntry (parts : List Grant) (k : String) : Option Peer :=
  parts.foldl (fun found part => (part.peerEntry k).or found) none

/-- the grant adds up the parts -/
structure SumOf (parts : List Grant) (g : Grant) : Prop where
  peers : ∀ k, g.peerEntry k = lastEntry parts k
  control : ∀ k, k ∈ g.controlPeers ↔ ∃ part ∈ parts, k ∈ part.controlPeers
  memberships : ∀ m, newest g.members m = newest (parts.flatMap Grant.members) m
  expiresAt : (g.expiresAt : WithBot ℤ) = (parts.map (·.expiresAt)).maximum

/-- every peer is named once -/
def Grant.Distinct (g : Grant) : Prop := (g.peers.map (·.wireGuardPublicKey)).Nodup

variable {e : WithBot ℤ}

theorem maximum_le_iff {l : List ℤ} : l.maximum ≤ e ↔ ∀ a ∈ l, (a : WithBot ℤ) ≤ e := by
  induction l with
  | nil => simp
  | cons a l ih => simp [List.maximum_cons, ih]

theorem maximum_append (l l' : List ℤ) : (l ++ l').maximum = max l.maximum l'.maximum := by
  refine eq_of_forall_ge_iff fun e => ?_
  simp only [maximum_le_iff, max_le_iff, List.mem_append]
  exact ⟨fun h => ⟨fun a ha => h a (.inl ha), fun a ha => h a (.inr ha)⟩, fun h a ha => ha.elim (h.1 a) (h.2 a)⟩

theorem newest_le_iff {l : List Scope} {m : Scope} :
    newest l m ≤ e ↔ ∀ s ∈ l, s.sameMembership m = true → (s.expiresAt : WithBot ℤ) ≤ e := by
  rw [newest, maximum_le_iff]
  constructor
  · exact fun h s hs hm => h _ (List.mem_map.2 ⟨s, List.mem_filter.2 ⟨hs, hm⟩, rfl⟩)
  · intro h a ha
    obtain ⟨s, hs, rfl⟩ := List.mem_map.1 ha
    exact h s (List.mem_filter.1 hs).1 (List.mem_filter.1 hs).2

theorem newest_append (l l' : List Scope) (m : Scope) : newest (l ++ l') m = max (newest l m) (newest l' m) := by
  rw [newest, List.filter_append, List.map_append, maximum_append]
  rfl

theorem sameMembership_iff {s t : Scope} :
    s.sameMembership t = true ↔ { s with expiresAt := 0 } = { t with expiresAt := 0 } := by
  simp [Scope.sameMembership]

/-- the membership that is merged keeps the later end; all others stay -/
theorem newest_mergeMembership (out : List Scope) (x m : Scope) :
    newest (mergeMembership out x) m = max (newest out m) (newest [x] m) := by
  refine eq_of_forall_ge_iff fun e => ?_
  rw [max_le_iff]
  simp only [newest_le_iff, List.mem_singleton, forall_eq]
  unfold mergeMembership
  cases hfound : out.reverse.findIdx? (·.sameMembership x) with
  | none =>
    simp only [List.mem_append, List.mem_singleton]
    exact ⟨fun h => ⟨fun s hs => h s (.inl hs), h x (.inr rfl)⟩, fun h s hs => hs.elim (h.1 s) fun hx => hx ▸ h.2⟩
  | some i =>
    -- the last membership that is `x` is `y`, with `a` after and `b` before it
    obtain ⟨hi, hy, -⟩ := List.findIdx?_eq_some_iff_getElem.1 hfound
    obtain ⟨y, a, b, hsplit, hyi, hmodify⟩ : ∃ y a b, out.reverse = a ++ y :: b ∧ y.sameMembership x = true ∧
        out.reverse.modify i (fun s => { s with expiresAt := max s.expiresAt x.expiresAt }) =
          a ++ { y with expiresAt := max y.expiresAt x.expiresAt } :: b :=
      ⟨out.reverse[i], out.reverse.take i, out.reverse.drop (i + 1), by
        rw [← List.drop_eq_getElem_cons hi, List.take_append_drop], hy, by rw [List.modify_eq_take_cons_drop hi]⟩
    have hout : ∀ s, s ∈ out ↔ s ∈ a ∨ s = y ∨ s ∈ b := fun s => by
      rw [← List.mem_reverse, hsplit]
      simp
    have hsame : y.sameMembership m = x.sameMembership m := by
      rw [Bool.eq_iff_iff, sameMembership_iff, sameMembership_iff, sameMembership_iff.1 hyi]
    have hsame' : Scope.sameMembership { y with expiresAt := max y.expiresAt x.expiresAt } m = x.sameMembership m := by
      rw [← hsame]
      rfl
    simp only [hmodify, List.mem_reverse, List.mem_append, List.mem_cons, hout]
    constructor
    · intro h
      have hmax : x.sameMembership m = true → ((max y.expiresAt x.expiresAt : ℤ) : WithBot ℤ) ≤ e := fun hx =>
        h _ (.inr (.inl rfl)) (hsame'.trans hx)
      refine ⟨fun s hs hm => ?_, fun hx => (WithBot.coe_le_coe.2 (le_max_right _ _)).trans (hmax hx)⟩
      rcases hs with hs | rfl | hs
      · exact h s (.inl hs) hm
      · exact (WithBot.coe_le_coe.2 (le_max_left _ _)).trans (hmax (hsame.symm.trans hm))
      · exact h s (.inr (.inr hs)) hm
    · rintro ⟨hold, hx⟩ s hs hm
      rcases hs with hs | rfl | hs
      · exact hold s (.inl hs) hm
      · rw [hsame'] at hm
        have hy' := hold y (.inr (.inl rfl)) (hsame.trans hm)
        exact max_le hy' (hx hm)
      · exact hold s (.inr (.inr hs)) hm

theorem newest_mergeMemberships (current next : List Scope) (m : Scope) :
    newest (mergeMemberships current next) m = max (newest current m) (newest next m) := by
  unfold mergeMemberships
  induction next generalizing current with
  | nil => simp [newest]
  | cons x next ih =>
    rw [List.foldl_cons, ih, newest_mergeMembership, max_assoc, ← newest_append, List.singleton_append]

theorem peerEntry_eq (g : Grant) (k : String) : g.peerEntry k = entry (·.wireGuardPublicKey) g.peers k := rfl

theorem mergePeer_eq : mergePeer = upsert (·.wireGuardPublicKey) := by
  funext out peer
  exact (upsert_eq out peer).symm

theorem mem_mergeControlPeers (out : Option (List String)) (next : List String) (k : String) :
    k ∈ (next.foldl mergeControlPeer out).getD [] ↔ k ∈ out.getD [] ∨ k ∈ next := by
  induction next generalizing out with
  | nil => simp
  | cons peer next ih =>
    rw [List.foldl_cons, ih, List.mem_cons]
    have hpeer : k ∈ (mergeControlPeer out peer).getD [] ↔ k ∈ out.getD [] ∨ k = peer := by
      unfold mergeControlPeer
      split_ifs with hmem
      · constructor
        · exact .inl
        · rintro (hk | rfl)
          · exact hk
          · simpa using hmem
      · simp
    rw [hpeer, or_assoc]

theorem members_mergedGrant (current next : Grant) :
    (mergedGrant current next).members = mergeMemberships current.members next.members ∨
      ((mergedGrant current next).members = next.members ∧ mergeMemberships current.members next.members = []) := by
  unfold mergedGrant Grant.members
  dsimp only
  split_ifs with hempty
  · exact .inr ⟨rfl, List.isEmpty_iff.1 hempty⟩
  · exact .inl rfl

theorem mergeMemberships_eq_nil {current next : List Scope} (h : mergeMemberships current next = []) :
    current = [] ∧ next = [] := by
  have hadded : ∀ out m, mergeMembership out m ≠ [] := by
    intro out m
    unfold mergeMembership
    cases hfound : out.reverse.findIdx? (·.sameMembership m) with
    | none => simp
    | some i =>
      intro hnil
      have hout : out = [] := by simpa [List.modify_eq_nil_iff] using hnil
      simp [hout] at hfound
  rcases List.eq_nil_or_concat next with rfl | ⟨l, m, rfl⟩
  · exact ⟨h, rfl⟩
  · unfold mergeMemberships at h
    rw [List.concat_eq_append, List.foldl_append] at h
    exact absurd h (hadded _ m)

theorem newest_mergedGrant (current next : Grant) (m : Scope) :
    newest (mergedGrant current next).members m = max (newest current.members m) (newest next.members m) := by
  have hmerged := newest_mergeMemberships current.members next.members m
  rcases members_mergedGrant current next with heq | ⟨heq, hnil⟩
  · rw [heq, hmerged]
  · obtain ⟨hcurrent, hnext⟩ := mergeMemberships_eq_nil hnil
    rw [heq, hcurrent, hnext, max_self]

theorem lastEntry_append (parts more : List Grant) (k : String) :
    lastEntry (parts ++ more) k = (lastEntry more k).or (lastEntry parts k) := by
  unfold lastEntry
  rw [List.foldl_append]
  induction more using List.reverseRecOn with
  | nil => rfl
  | append_singleton more part ih =>
    rw [List.foldl_append, List.foldl_append, List.foldl_cons, List.foldl_nil, ih, List.foldl_cons, List.foldl_nil,
      Option.or_assoc]

theorem SumOf.single (g : Grant) : SumOf [g] g where
  peers k := by simp [lastEntry]
  control k := by simp
  memberships m := by simp
  expiresAt := by simp

variable {next current : Grant} {parts : List Grant}

/-- **Merging adds up.** -/
theorem SumOf.merge {more : List Grant} (h : SumOf parts current) (h' : SumOf more next)
    (hnext : next.Distinct) : SumOf (parts ++ more) (mergedGrant current next) where
  peers k := by
    rw [lastEntry_append, ← h.peers, ← h'.peers, peerEntry_eq, peerEntry_eq, peerEntry_eq]
    change entry _ (next.peers.foldl mergePeer current.peers) k = _
    rw [mergePeer_eq, find?_foldl_upsert, lastWith_eq_entry hnext]
  control k := by
    change k ∈ (next.controlPeers.foldl mergeControlPeer current.relayControlPeers).getD [] ↔ _
    rw [mem_mergeControlPeers]
    change k ∈ current.controlPeers ∨ k ∈ next.controlPeers ↔ _
    simp only [h.control, h'.control, List.mem_append, or_and_right, exists_or]
  memberships m := by
    rw [newest_mergedGrant, h.memberships, h'.memberships, List.flatMap_append, newest_append]
  expiresAt := by
    rw [List.map_append, maximum_append, ← h.expiresAt, ← h'.expiresAt]
    exact WithBot.coe_max _ _

theorem Grant.Distinct.merge (h : current.Distinct) : (mergedGrant current next).Distinct := by
  change ((next.peers.foldl mergePeer current.peers).map (·.wireGuardPublicKey)).Nodup
  rw [mergePeer_eq]
  exact nodup_foldl_upsert next.peers h

theorem mergeGrants_ok {merged : Grant} (h : mergeGrants current next = .ok merged) :
    merged = mergedGrant current next := by
  unfold mergeGrants at h
  split_ifs at h
  exact (Except.ok.inj h).symm

/-! ## The lookup index -/

structure MembershipKey where
  kind : String
  id : String
  capability : String
  generation : Nat
  port : Nat
deriving DecidableEq, Repr

def keyOf (s : Scope) : MembershipKey := ⟨s.resourceKind, s.resourceID, s.capability, s.resourceGeneration, s.port⟩

/-- places of the peers, the control peers, and the memberships by the hash of their keys -/
structure GrantIndex where
  peers : AList fun _ : String => Nat := ∅
  control : List String := []
  memberships : List (Nat × Nat) := []

section Index

variable (hash : MembershipKey → Nat)

/-- every membership's hash and place -/
def hashed (memberships : List Scope) : List (Nat × Nat) := memberships.zipIdx.map fun e => (hash (keyOf e.1), e.2)

def newMembershipIndex (memberships : List Scope) : List (Nat × Nat) :=
  (hashed hash memberships).insertionSort fun a b => a.1 ≤ b.1

def withIndex (g : Grant) : GrantIndex where
  peers := g.peers.zipIdx.foldl (fun places e => place places e.2 e.1.wireGuardPublicKey) ∅
  control := g.controlPeers.foldl addNew []
  memberships := newMembershipIndex hash g.members

/-- one peer of the next part -/
def indexPeer (s : List Peer × AList fun _ : String => Nat) (peer : Peer) : List Peer × AList fun _ : String => Nat :=
  match s.2.lookup peer.wireGuardPublicKey with
  | some i => (s.1.set i peer, s.2)
  | none => (s.1 ++ [peer], s.2.insert peer.wireGuardPublicKey s.1.length)

/-- one control peer of the next part -/
def indexControl (s : Option (List String) × List String) (peer : String) : Option (List String) × List String :=
  if s.2.contains peer then s else (some (s.1.getD [] ++ [peer]), s.2 ++ [peer])

/-- the lists and the index of the current grant, extended in place by the next part -/
def extendIndexed (current : Grant) (index : GrantIndex) (next : Grant) : Grant × GrantIndex :=
  let memberships := mergeMemberships current.members next.members
  let peers := next.peers.foldl indexPeer (current.peers, index.peers)
  let control := next.controlPeers.foldl indexControl (current.relayControlPeers, index.control)
  ({ next with
      peers := peers.1
      relayControlPeers := control.1
      peerRelay := next.peerRelay <|> current.peerRelay
      memberships := if memberships.isEmpty then next.memberships else some memberships
      expiresAt := max current.expiresAt next.expiresAt },
    { peers := peers.2
      control := control.2
      memberships := if memberships.isEmpty then index.memberships else newMembershipIndex hash memberships })

/-- mergeGrants as the source has it -/
def mergeIndexed (current : Grant) (index : GrantIndex) (next : Grant) : Except RelayError (Grant × GrantIndex) :=
  let addedPeers := dedup ((next.peers.map (·.wireGuardPublicKey)).filter fun k => (index.peers.lookup k).isNone)
  let addedControl := dedup (next.controlPeers.filter fun k => !index.control.contains k)
  if !current.members.isEmpty && next.peers.length + next.controlPeers.length > 0 ||
      !next.members.isEmpty && current.peers.length + current.controlPeers.length > 0 then .error (.admission "")
  else if (mergeMemberships current.members next.members).length > maxGrantMemberships then .error (.admission "")
  else if current.peers.length + addedPeers.length > maxMergedPeers ||
      current.controlPeers.length + addedControl.length > maxMergedPeers then .error (.admission "")
  else .ok (extendIndexed hash current index next)

/-- the index finds what the lists have -/
structure Agrees (g : Grant) (index : GrantIndex) : Prop where
  peers : Located index.peers (g.peers.map (·.wireGuardPublicKey))
  control : ∀ k, k ∈ index.control ↔ k ∈ g.controlPeers
  sorted : index.memberships.Pairwise fun a b => a.1 ≤ b.1
  memberships : index.memberships.Perm (hashed hash g.members)

variable {hash}

theorem newMembershipIndex_sorted (memberships : List Scope) :
    (newMembershipIndex hash memberships).Pairwise fun a b => a.1 ≤ b.1 :=
  haveI : Std.Total fun a b : Nat × Nat => a.1 ≤ b.1 := ⟨fun a b => Nat.le_total a.1 b.1⟩
  haveI : IsTrans (Nat × Nat) fun a b => a.1 ≤ b.1 := ⟨fun _ _ _ => Nat.le_trans⟩
  List.pairwise_insertionSort _ _

/-- the number of keys that are new -/
theorem length_foldl_addNew (keys next : List String) :
    (next.foldl addNew keys).length = keys.length + (dedup (next.filter fun k => k ∉ keys)).length := by
  rw [foldl_addNew, List.length_append]

/-- the loop over the peers replaces and adds them by key, and keeps up the places -/
theorem foldl_indexPeer {peers : List Peer} {places : AList fun _ : String => Nat} (next : List Peer)
    (h : Located places (peers.map (·.wireGuardPublicKey))) :
    (next.foldl indexPeer (peers, places)).1 = next.foldl mergePeer peers ∧
      Located (next.foldl indexPeer (peers, places)).2 ((next.foldl mergePeer peers).map (·.wireGuardPublicKey)) := by
  induction next generalizing peers places with
  | nil => exact ⟨rfl, h⟩
  | cons peer next ih =>
    have hfind : places.lookup peer.wireGuardPublicKey =
        peers.findIdx? fun b => b.wireGuardPublicKey == peer.wireGuardPublicKey := by
      rw [h]
      unfold List.idxOf?
      rw [List.findIdx?_map]
      rfl
    have hstep : indexPeer (peers, places) peer =
        (mergePeer peers peer, place places peers.length peer.wireGuardPublicKey) := by
      unfold indexPeer mergePeer place
      rw [hfind]
      cases peers.findIdx? fun b => b.wireGuardPublicKey == peer.wireGuardPublicKey <;> rfl
    have hkeys : (mergePeer peers peer).map (·.wireGuardPublicKey) =
        addNew (peers.map (·.wireGuardPublicKey)) peer.wireGuardPublicKey := by
      rw [mergePeer_eq]
      exact map_upsert peers peer
    have hlocated := located_add h peer.wireGuardPublicKey
    rw [List.length_map, ← hkeys] at hlocated
    rw [List.foldl_cons, hstep]
    exact ih hlocated

section

variable (out : Option (List String)) (next : List String)

/-- the loop over the control peers -/
theorem foldl_indexControl {seen : List String} (h : ∀ k, k ∈ seen ↔ k ∈ out.getD []) :
    (next.foldl indexControl (out, seen)).1 = next.foldl mergeControlPeer out ∧
      ∀ k, k ∈ (next.foldl indexControl (out, seen)).2 ↔ k ∈ (next.foldl mergeControlPeer out).getD [] := by
  induction next generalizing out seen with
  | nil => exact ⟨rfl, h⟩
  | cons peer next ih =>
    rw [List.foldl_cons, List.foldl_cons]
    have hmem : seen.contains peer = (out.getD []).contains peer := by
      rw [Bool.eq_iff_iff, List.contains_iff_mem, List.contains_iff_mem, h]
    unfold indexControl mergeControlPeer
    simp only [hmem]
    split_ifs with hpeer
    · exact ih out h
    · refine ih _ fun k => ?_
      simp [h k]

theorem mergeControlPeers_keys : (next.foldl mergeControlPeer out).getD [] = next.foldl addNew (out.getD []) := by
  induction next generalizing out with
  | nil => rfl
  | cons peer next ih =>
    rw [List.foldl_cons, List.foldl_cons, ih]
    congr 1
    unfold mergeControlPeer addNew
    simp only [List.contains_iff_mem]
    split_ifs <;> rfl

end

variable {index : GrantIndex}

section

variable (h : Agrees hash current index)
include h

variable (next : Grant)

/-- the loops through the index extend the lists as `mergedGrant` does -/
theorem extendIndexed_fst : (extendIndexed hash current index next).1 = mergedGrant current next := by
  unfold extendIndexed mergedGrant
  dsimp only
  rw [(foldl_indexPeer next.peers h.peers).1, (foldl_indexControl _ next.controlPeers h.control).1]

theorem extendIndexed_agrees :
    Agrees hash (mergedGrant current next) (extendIndexed hash current index next).2 where
  peers := (foldl_indexPeer next.peers h.peers).2
  control := (foldl_indexControl _ next.controlPeers h.control).2
  sorted := by
    unfold extendIndexed
    dsimp only
    split_ifs
    · exact h.sorted
    · exact newMembershipIndex_sorted _
  memberships := by
    unfold extendIndexed
    dsimp only
    split_ifs with hempty
    · -- neither grant has memberships
      obtain ⟨hcurrent, hnext⟩ := mergeMemberships_eq_nil (List.isEmpty_iff.1 hempty)
      have hperm := h.memberships
      rw [hcurrent] at hperm
      rcases members_mergedGrant current next with heq | ⟨heq, -⟩
      · rw [heq, List.isEmpty_iff.1 hempty]
        exact hperm
      · rw [heq, hnext]
        exact hperm
    · rcases members_mergedGrant current next with heq | ⟨_, hnil⟩
      · rw [heq]
        exact List.perm_insertionSort _ _
      · exact absurd (by rw [hnil]; rfl) hempty

/-- the counts of the source are the lengths of the merged lists -/
theorem length_mergedGrant_peers :
    current.peers.length +
      (dedup ((next.peers.map (·.wireGuardPublicKey)).filter fun k => (index.peers.lookup k).isNone)).length =
        (mergedGrant current next).peers.length := by
  have hnew : (fun k => (index.peers.lookup k).isNone) =
      fun k => decide (k ∉ current.peers.map (·.wireGuardPublicKey)) := by
    funext k
    rw [← Option.not_isSome, Bool.eq_iff_iff, Bool.not_eq_true', ← Bool.not_eq_true, h.peers.isSome, decide_eq_true_iff]
  have hlength : (next.peers.foldl mergePeer current.peers).length =
      ((next.peers.map (·.wireGuardPublicKey)).foldl addNew (current.peers.map (·.wireGuardPublicKey))).length := by
    rw [mergePeer_eq, ← map_foldl_upsert, List.length_map]
  change _ = (next.peers.foldl mergePeer current.peers).length
  rw [hnew, hlength, length_foldl_addNew, List.length_map]

theorem length_mergedGrant_control :
    current.controlPeers.length + (dedup (next.controlPeers.filter fun k => !index.control.contains k)).length =
      (mergedGrant current next).controlPeers.length := by
  have hnew : (fun k => !index.control.contains k) = fun k => decide (k ∉ current.controlPeers) := by
    funext k
    rw [Bool.eq_iff_iff, Bool.not_eq_true', ← Bool.not_eq_true, List.contains_iff_mem, h.control, decide_eq_true_iff]
  change _ = ((next.controlPeers.foldl mergeControlPeer current.relayControlPeers).getD []).length
  rw [hnew, mergeControlPeers_keys, length_foldl_addNew]
  rfl

/-- **The merge in place.** Through an index that agrees with the lists the merge is that of the lists. -/
theorem mergeIndexed_eq :
    mergeIndexed hash current index next =
      (mergeGrants current next).map fun merged => (merged, (extendIndexed hash current index next).2) := by
  unfold mergeIndexed mergeGrants
  dsimp only
  rw [length_mergedGrant_peers h, length_mergedGrant_control h]
  split_ifs
  · rfl
  · rfl
  · rfl
  · exact congrArg Except.ok (Prod.ext (extendIndexed_fst h next) rfl)

end

/-- the index that is built for a verified grant -/
theorem withIndex_agrees {g : Grant} (h : g.Distinct) : Agrees hash g (withIndex hash g) where
  peers := by
    have hplaces := located_append g.peers (show Located ∅ [] from fun k => by simp)
      (show ([] ++ g.peers.map Peer.wireGuardPublicKey).Nodup from h)
    rwa [List.nil_append] at hplaces
  control k := by
    change k ∈ g.controlPeers.foldl addNew [] ↔ _
    exact mem_dedup _ _
  sorted := newMembershipIndex_sorted _
  memberships := List.perm_insertionSort _ _

/-! ## A credential -/

/-- the grants of the tokens that verify -/
def verifiedParts (env : Platform) (v : Verifier) (leaf : Certificate) (tokens : List String) (now : ℤ) : List Grant :=
  tokens.filterMap fun token => (v.verify env token leaf now).toOption

variable (hash) in
/-- one more part, with the index that comes along -/
def addIndexed (merged : Option (Grant × GrantIndex)) (part : Grant) :
    Except RelayError (Option (Grant × GrantIndex)) :=
  match merged with
  | none => .ok (some (part, withIndex hash part))
  | some (merged, index) => (mergeIndexed hash merged index part).map some

variable (hash) in
/-- the grant of a credential and its index -/
def partsIndexed (parts : List Grant) : Except RelayError (Option (Grant × GrantIndex)) :=
  parts.foldlM (addIndexed hash) none

theorem verify_distinct {env : Platform} {v : Verifier} {leaf : Certificate} {token : String} {now : ℤ} {g : Grant}
    (h : v.verify env token leaf now = .ok g) : g.Distinct := by
  unfold Verifier.verify at h
  split at h
  · cases h
  · split_ifs at h with _ _ _ _ _ _ _ _ hlists
    cases h
    simp only [Bool.not_eq_true', Bool.and_eq_false_iff, not_or, Bool.not_eq_false, validLists,
      decide_eq_true_iff] at hlists
    exact hlists.2.1.1.2

variable (hash) in
/-- the loop over the tokens has added up the verified parts -/
structure Collected (parts : List Grant) (merged : Option Grant) : Prop where
  none : merged = none → parts = []
  some : ∀ m, merged = some m → SumOf parts m ∧ m.Distinct ∧
    ∃ index, partsIndexed hash parts = .ok (Option.some (m, index)) ∧ Agrees hash m index

section Credential

variable {env : Platform} {v : Verifier} {leaf : Certificate} {now : ℤ}

theorem Collected.add {merged : Grant} (h : Collected hash parts (Option.some merged)) {part merged' : Grant}
    (hpart : part.Distinct) (hmerge : mergeGrants merged part = .ok merged') :
    Collected hash (parts ++ [part]) (Option.some merged') := by
  obtain ⟨hsum, hdistinct, index, hindex, hagrees⟩ := h.some merged rfl
  obtain rfl := mergeGrants_ok hmerge
  refine ⟨nofun, fun m hm => ?_⟩
  cases hm
  refine ⟨hsum.merge (SumOf.single part) hpart, hdistinct.merge, (extendIndexed hash merged index part).2, ?_,
    extendIndexed_agrees hagrees part⟩
  rw [partsIndexed, List.foldlM_append]
  change (partsIndexed hash parts >>= _) = _
  rw [hindex]
  change ((mergeIndexed hash merged index part).map Option.some >>= fun s => pure s) = _
  rw [mergeIndexed_eq hagrees, hmerge]
  rfl

theorem collected_tokens (tokens : List String) {c : Parts}
    (h : tokens.foldlM (addPart env v leaf now) {} = .ok c) (hlive : c.expired = false) :
    Collected hash (verifiedParts env v leaf tokens now) c.merged := by
  induction tokens using List.reverseRecOn generalizing c with
  | nil =>
    cases h
    exact ⟨fun _ => rfl, nofun⟩
  | append_singleton tokens token ih =>
    rw [List.foldlM_append] at h
    cases hprev : tokens.foldlM (addPart env v leaf now) {} with
    | error e => rw [hprev] at h; exact absurd h (by simp [bind, Except.bind])
    | ok prev =>
      rw [hprev] at h
      have hadd : addPart env v leaf now prev token = .ok c := by
        change (addPart env v leaf now prev token >>= fun s => pure s) = _ at h
        rwa [bind_pure] at h
      unfold addPart at hadd
      have hsnoc : verifiedParts env v leaf (tokens ++ [token]) now =
          verifiedParts env v leaf tokens now ++ (v.verify env token leaf now).toOption.toList := by
        unfold verifiedParts
        rw [List.filterMap_append, List.filterMap_cons]
        cases (v.verify env token leaf now).toOption <;> rfl
      rw [hsnoc]
      cases hverify : v.verify env token leaf now with
      | error e =>
        rw [hverify] at hadd
        cases e with
        | expired =>
          cases hadd
          cases hlive
        | _ => cases hadd
      | ok part =>
        have hpart := verify_distinct hverify
        rw [hverify] at hadd
        split_ifs at hadd with hexpired
        · cases hadd
          exact absurd hlive (by simp [hexpired])
        · have hcollected := ih hprev (by simpa using hexpired)
          cases hmerged : prev.merged with
          | none =>
            rw [hmerged] at hadd hcollected
            cases hadd
            rw [hcollected.none rfl]
            refine ⟨nofun, fun m hm => ?_⟩
            cases hm
            exact ⟨SumOf.single part, hpart, withIndex hash part, rfl, withIndex_agrees hpart⟩
          | some merged =>
            rw [hmerged] at hadd hcollected
            dsimp only at hadd
            split_ifs at hadd
            cases hmerge : mergeGrants merged part with
            | error e => rw [hmerge] at hadd; exact absurd hadd (by simp [Except.map])
            | ok merged' =>
              rw [hmerge] at hadd
              cases hadd
              exact hcollected.add hpart hmerge

variable (hash) in
/-- **A credential adds up its parts**, and its index agrees with it. -/
theorem sumOf_credential {tokens : List String} {g : Grant} (h : credential env v leaf tokens now = .ok g) :
    SumOf (verifiedParts env v leaf tokens now) g ∧ g.Distinct ∧
      ∃ m index, partsIndexed hash (verifiedParts env v leaf tokens now) = .ok (Option.some (m, index)) ∧
        Agrees hash g index := by
  unfold credential at h
  split at h
  · cases h
  next c hc =>
    by_cases hexpired : c.expired = true
    · rw [if_pos hexpired] at h
      cases h
    · rw [if_neg hexpired] at h
      cases hm : c.merged with
      | none => rw [hm] at h; cases h
      | some m =>
        obtain ⟨hsum, hdistinct, index, hindex, hagrees⟩ :=
          (collected_tokens tokens hc (by simpa using hexpired)).some m hm
        rw [hm] at h
        cases h
        split_ifs
        · exact ⟨{ hsum with }, hdistinct, m, index, hindex, { hagrees with }⟩
        · exact ⟨hsum, hdistinct, m, index, hindex, hagrees⟩

end Credential

/-! ## Runs -/

/-- a server, the parts each connection's grant is to be the sum of, and the index each grant has -/
structure Tally where
  server : Server
  parts : ConnID → List Grant := fun _ => []
  index : ConnID → GrantIndex := fun _ => {}

namespace Tally

variable (hash) in
/-- the parts of the identity and generation the connection has, when the parts of a credential `g` are accepted -/
def partsAfter (t : Tally) (p : ConnID) (g : Grant) (parts : List Grant) : List Grant :=
  if (t.server.conns p).key.isSome && sameGrantIdentity (t.server.conns p).grant g then t.parts p ++ parts else parts

variable (hash) in
/-- the index of the grant that is committed -/
def indexAfter (t : Tally) (p : ConnID) (g : Grant) (parts : List Grant) : GrantIndex :=
  if merging (t.server.conns p) g then
    match mergeIndexed hash (t.server.conns p).grant (t.index p) g with
    | .ok merged => merged.2
    | .error _ => t.index p
  else
    match partsIndexed hash parts with
    | .ok (some merged) => merged.2
    | _ => {}

variable (hash) in
def step (env : Platform) (v : Verifier) (t : Tally) (op : RelayOp) : Tally :=
  let server := t.server.step env v op
  match op with
  | .authenticate leaf p ns disco tokens now instant =>
    match (t.server.authenticate env v leaf p ns disco tokens now instant).2, credential env v leaf tokens now with
    | none, .ok g =>
      let parts := verifiedParts env v leaf tokens now
      { server := server
        parts := Function.update t.parts p (t.partsAfter p g parts)
        index := Function.update t.index p (t.indexAfter hash p g parts) }
    | _, _ => { t with server := server }
  | _ => { t with server := server }

variable (hash) in
/-- every connection's grant is the sum of its parts, and its index agrees with it -/
def Adds (t : Tally) : Prop := ∀ p, (t.server.conns p).key.isSome →
  SumOf (t.parts p) (t.server.conns p).grant ∧ Agrees hash (t.server.conns p).grant (t.index p)

/-- `g` has all that `held` has -/
structure Covers (g held : Grant) : Prop where
  peers : ∀ k, (held.peerEntry k).isSome → (g.peerEntry k).isSome
  control : ∀ k ∈ held.controlPeers, k ∈ g.controlPeers
  memberships : ∀ m, newest held.members m ≤ newest g.members m
  expiresAt : held.expiresAt ≤ g.expiresAt

/-- a credential that is admitted under the signed hash of the grant that is held has all that the grant has -/
def Whole (env : Platform) (v : Verifier) (t : Tally) : RelayOp → Prop
  | .authenticate leaf p ns disco tokens now instant => ∀ g, credential env v leaf tokens now = .ok g →
      ¬ t.server.Fenced g now → t.server.refusedOtherwise env p ns disco tokens g now instant = false →
      (t.server.conns p).key.isSome → sameGrantIdentity (t.server.conns p).grant g = true →
      (t.server.conns p).grant.signedHash = g.signedHash → Covers g (t.server.conns p).grant
  | _ => True

/-- the grant that takes another's place is the sum of both exactly if it has all that the other had -/
theorem sumOf_replaced_iff {more : List Grant} {held g : Grant} (h : SumOf parts held) (h' : SumOf more g) :
    SumOf (parts ++ more) g ↔ Covers g held := by
  have hpeers : ∀ k, lastEntry (parts ++ more) k = (g.peerEntry k).or (held.peerEntry k) := fun k => by
    rw [lastEntry_append, h.peers, h'.peers]
  have hcontrol : ∀ k, (∃ part ∈ parts ++ more, k ∈ part.controlPeers) ↔ k ∈ held.controlPeers ∨
      k ∈ g.controlPeers := by
    intro k
    simp only [h.control, h'.control, List.mem_append, or_and_right, exists_or]
  have hmemberships : ∀ m, newest ((parts ++ more).flatMap Grant.members) m =
      max (newest held.members m) (newest g.members m) := fun m => by
    rw [List.flatMap_append, newest_append, h.memberships, h'.memberships]
  have hexpires : ((parts ++ more).map (·.expiresAt)).maximum = max (held.expiresAt : WithBot ℤ) g.expiresAt := by
    rw [List.map_append, maximum_append, ← h.expiresAt, ← h'.expiresAt]
  constructor
  · intro hsum
    refine ⟨fun k hk => ?_, fun k hk => ?_, fun m => ?_, ?_⟩
    · have hentry := hsum.peers k
      rw [hpeers] at hentry
      cases hg : g.peerEntry k with
      | some _ => rfl
      | none => rw [hg, Option.none_or] at hentry; rw [← hentry] at hk; exact hk
    · rw [hsum.control, hcontrol]
      exact .inl hk
    · rw [hsum.memberships, hmemberships]
      exact le_max_left _ _
    · have hend := hsum.expiresAt
      rw [hexpires, eq_comm, max_eq_right_iff] at hend
      exact WithBot.coe_le_coe.1 hend
  · intro hcovers
    refine ⟨fun k => ?_, fun k => ?_, fun m => ?_, ?_⟩
    · rw [hpeers]
      cases hg : g.peerEntry k with
      | some _ => rfl
      | none =>
        have hheld : held.peerEntry k = none := by
          by_contra hsome
          have := hcovers.peers k (Option.isSome_iff_ne_none.2 hsome)
          rw [hg] at this
          cases this
        rw [hheld, Option.none_or]
    · rw [hcontrol]
      exact ⟨.inr, fun hk => hk.elim (hcovers.control k) id⟩
    · rw [hmemberships, max_eq_right (hcovers.memberships m)]
    · rw [hexpires, max_eq_right (WithBot.coe_le_coe.2 hcovers.expiresAt)]

section Step

variable {env : Platform} {v : Verifier} {t : Tally}

variable (h : t.Adds hash)
include h

/-- nothing but an admission changes a grant -/
theorem Adds.of_same {t' : Tally} (hparts : t'.parts = t.parts) (hindex : t'.index = t.index)
    (hkey : ∀ q, (t'.server.conns q).key = (t.server.conns q).key)
    (hgrant : ∀ q, (t'.server.conns q).grant = (t.server.conns q).grant) : t'.Adds hash := by
  intro q hq
  rw [hkey] at hq
  rw [hparts, hindex, hgrant]
  exact h q hq

theorem adds_commit_iff {s : Server} {p : ConnID} {g : Grant} (hsame : SameConns t.server s) :
    Adds hash ⟨s.commit env p g, Function.update t.parts p parts, Function.update t.index p index⟩ ↔
      SumOf parts g ∧ Agrees hash g index := by
  constructor
  · intro hadds
    have hp := hadds p (by rw [commit_conns, if_pos rfl]; rfl)
    dsimp only at hp
    rwa [commit_conns, if_pos rfl, Function.update_self, Function.update_self] at hp
  · intro hp q hq
    dsimp only at hq ⊢
    rw [commit_conns] at hq ⊢
    by_cases hqp : q = p
    · subst hqp
      rw [if_pos rfl, Function.update_self, Function.update_self]
      exact hp
    · rw [if_neg hqp] at hq ⊢
      rw [hsame.key] at hq
      rw [Function.update_of_ne hqp, Function.update_of_ne hqp, hsame.grant]
      exact h q hq

theorem adds_authenticate_iff (leaf : Certificate) (p : ConnID) (ns disco : String)
    (tokens : List String) (now instant : ℤ) :
    (t.step hash env v (.authenticate leaf p ns disco tokens now instant)).Adds hash ↔
      t.Whole env v (.authenticate leaf p ns disco tokens now instant) := by
  rcases Server.authenticate_cases env v t.server leaf p ns disco tokens now instant with
    ⟨e, herror, hsame⟩ | ⟨g, g', hg, hfence, hother, hcombined, heq⟩
  · have hstep : t.step hash env v (.authenticate leaf p ns disco tokens now instant) =
        { t with server := (t.server.authenticate env v leaf p ns disco tokens now instant).1 } := by
      unfold step
      dsimp only
      rw [herror]
      rfl
    rw [hstep]
    refine iff_of_true (h.of_same rfl rfl hsame.key hsame.grant) fun g hg hfence hother _ _ _ => ?_
    rw [← Server.fenced_checked t.server p ns disco, Bool.not_eq_true] at hfence
    obtain ⟨_, _, heq⟩ := Server.authenticate_ok leaf hg hfence hother
    rw [heq] at herror
    cases herror
  · have hstep : t.step hash env v (.authenticate leaf p ns disco tokens now instant) =
        ⟨(t.server.checked p ns disco now).commit env p g',
          Function.update t.parts p (t.partsAfter p g (verifiedParts env v leaf tokens now)),
          Function.update t.index p (t.indexAfter hash p g (verifiedParts env v leaf tokens now))⟩ := by
      unfold step Server.step
      dsimp only
      rw [heq, hg]
    have hsame := Server.sameConns_checked t.server p ns disco now
    obtain ⟨hsum, hdistinct, m, index, hindex, hagrees⟩ := sumOf_credential hash hg
    rw [hstep, adds_commit_iff h hsame]
    have hmerging : Server.merging ((t.server.checked p ns disco now).conns p) g =
        Server.merging (t.server.conns p) g := by
      simp only [Server.merging, hsame.key, hsame.grant]
    unfold Server.combined at hcombined
    rw [hmerging, hsame.grant] at hcombined
    unfold partsAfter indexAfter
    by_cases hm : Server.merging (t.server.conns p) g = true
    · -- a further part of the grant that is held
      rw [if_pos hm] at hcombined
      obtain ⟨⟨⟨hkey, -⟩, hhash⟩, hidentity⟩ : (((t.server.conns p).key.isSome = true ∧ _) ∧
          (t.server.conns p).grant.signedHash ≠ g.signedHash) ∧
            sameGrantIdentity (t.server.conns p).grant g = true := by
        simpa only [Server.merging, Bool.and_eq_true, bne_iff_ne] using hm
      obtain ⟨hheld, hheldIndex⟩ := h p hkey
      refine iff_of_true ?_ fun g₁ hg₁ _ _ _ _ heqHash => ?_
      · rw [if_pos (by simp [hkey, hidentity]), if_pos hm, mergeIndexed_eq hheldIndex, hcombined]
        obtain rfl := mergeGrants_ok hcombined
        exact ⟨hheld.merge hsum hdistinct, extendIndexed_agrees hheldIndex g⟩
      · cases hg.symm.trans hg₁
        exact absurd heqHash hhash
    · rw [if_neg hm] at hcombined
      cases hcombined
      rw [if_neg hm, hindex]
      by_cases hheldBy : ((t.server.conns p).key.isSome && sameGrantIdentity (t.server.conns p).grant g) = true
      · -- the same identity, so the signed hash is that of the grant that is held
        rw [if_pos hheldBy]
        rw [Bool.and_eq_true] at hheldBy
        obtain ⟨hkey, hidentity⟩ := hheldBy
        have hhash : (t.server.conns p).grant.signedHash = g.signedHash := by
          by_contra hne
          refine hm ?_
          have hgeneration : (t.server.conns p).grant.generation = g.generation := by
            simp only [sameGrantIdentity, Bool.and_eq_true, beq_iff_eq] at hidentity
            tauto
          simp [Server.merging, hkey, hidentity, hne, hgeneration]
        rw [sumOf_replaced_iff (h p hkey).1 hsum]
        constructor
        · rintro ⟨hcovers, -⟩ g₁ hg₁ _ _ _ _ _
          cases hg.symm.trans hg₁
          exact hcovers
        · intro hwhole
          refine ⟨hwhole g hg ?_ hother hkey hidentity hhash, hagrees⟩
          rw [← Server.fenced_checked t.server p ns disco, hfence]
          simp
      · rw [if_neg hheldBy]
        refine iff_of_true ⟨hsum, hagrees⟩ fun g₁ hg₁ _ _ hkey hidentity _ => ?_
        cases hg.symm.trans hg₁
        exact absurd (by simp [hkey, hidentity]) hheldBy

/-- one operation -/
theorem adds_step_iff (op : RelayOp) : (t.step hash env v op).Adds hash ↔ t.Whole env v op := by
  cases op with
  | authenticate leaf p ns disco tokens now instant => exact adds_authenticate_iff h leaf p ns disco tokens now instant
  | revoke account endpoint minGeneration now =>
    have hconns : (t.server.revoke account endpoint minGeneration now).1.conns = t.server.conns := by
      rcases revoke_cases t.server account endpoint minGeneration now with ⟨-, e, heq⟩ | ⟨-, -, heq⟩ | ⟨-, heq⟩ <;>
        rw [heq]
      rfl
    exact iff_of_true (h.of_same rfl rfl (fun q => congrArg (fun c => (c q).key) hconns)
      fun q => congrArg (fun c => (c q).grant) hconns) trivial
  | setQuotaDenied accounts =>
    have hconns := (fewer_setQuotaDenied t.server accounts).conns
    exact iff_of_true (h.of_same rfl rfl (fun q => congrArg (fun c => (c q).key) hconns)
      fun q => congrArg (fun c => (c q).grant) hconns) trivial
  | disconnect | drain | close => exact iff_of_true (h.of_same rfl rfl (fun _ => rfl) fun _ => rfl) trivial
  | authorized p q now =>
    refine iff_of_true ?_ trivial
    rcases authorizedLocked_cases env t.server p q now with heq | ⟨heq, -⟩
    · exact h.of_same rfl rfl (fun x => congrArg (fun s => (s.conns x).key) heq)
        fun x => congrArg (fun s => (s.conns x).grant) heq
    · refine h.of_same rfl rfl (fun x => ?_) fun x => ?_
      · change ((t.server.authorizedLocked env p q now).1.conns x).key = _
        rw [heq, remember_conns]
        split_ifs with hx
        · rw [hx]
        · rfl
      · change ((t.server.authorizedLocked env p q now).1.conns x).grant = _
        rw [heq, remember_grant]

end Step

variable (hash) in
/-- the tally after the operations -/
def after (env : Platform) (v : Verifier) (limit : Nat) (ops : List RelayOp) : Tally :=
  Machine.run (step hash env v) { server := { connectionLimit := limit } } ops

/-- **Adding up.** In a run every connection's grant is at all times the sum of the parts that were accepted on it,
in whatever order and however often, with an index that agrees, exactly if no credential that is admitted under the
signed hash of the grant that is held has less than that grant. -/
theorem parts_add_up_iff (hash : MembershipKey → Nat) (env : Platform) (v : Verifier)
    (limit : Nat) (ops : List RelayOp) :
    (∀ pre, pre <+: ops → (after hash env v limit pre).Adds hash) ↔
      Machine.Throughout (step hash env v) { server := { connectionLimit := limit } } (Whole env v) ops :=
  Machine.always_iff_throughout (step hash env v) { server := { connectionLimit := limit } } (I := Adds hash)
    nofun (fun _ op h => adds_step_iff h op) ops

/-- the second part again: the first is forgotten -/
theorem resent_part_replaces :
    let ops := [present 1 ["pq"] second, present 1 ["pr"] second, present 1 ["pr"] second]
    let t := after (fun _ => 0) platform verifier 16 ops
    (t.parts 1).map (·.peers) = [[peerFor keyQ "dial"], [peerFor keyR "dial"], [peerFor keyR "dial"]] ∧
      (t.server.conns 1).grant.peers = [peerFor keyR "dial"] ∧ ¬ t.Adds (fun _ => 0) := by
  refine ⟨by decide +kernel, by decide +kernel, fun h => ?_⟩
  exact absurd ((h 1 (by decide +kernel)).1.peers keyQ) (by decide +kernel)

end Tally

end Index

end Paperboat.Relay
