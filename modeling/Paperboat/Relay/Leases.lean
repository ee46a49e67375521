/-
Pair leases of the relay service and the refresh of a grant. A lease holds on to the
fence records of its two endpoints, and an admission updates the record in place only if
it finds the authority unchanged. Here a record has a number, which it keeps as long as
it is updated in place.

A grant refreshes another when they differ in their times only (`Grant.timeless`).
sameGrantAuthority takes the end of a scope out of the comparison for the scopes of the
peers, but not for the memberships.

Results:
- `sameGrantAuthority_iff`: a refresh has the same authority exactly if its memberships
  end when they ended before;
- `allowedAdmitted_timeless`, `discoMatch_timeless`: whom a grant admits does not depend
  on its times;
- `refresh_keeps_iff`: **a refresh on another carrier** is no conflict and keeps the
  fence and every lease exactly if its memberships end when they ended before.

Witnesses:
- `peer_refresh_keeps`: a list of peers that is extended by a minute;
- `membership_refresh_refused`: a membership that is.
-/
import Paperboat.Relay.Server

namespace Paperboat.Relay

open Table Server Grant

/-! ## Model -/

/-- when the pair ends: with the last of its reciprocal scopes, and with either grant -/
def allowedPairExpiry (a b : Grant) (now : ℤ) : ℤ :=
  if a.expiresAt ≤ unix now || b.expiresAt ≤ unix now then 0
  else (reciprocalScopes a b).foldl (fun latest p =>
    if unix now < p.1.expiresAt && unix now < p.2.expiresAt then
      max latest (min (min p.1.expiresAt p.2.expiresAt) (min a.expiresAt b.expiresAt))
    else latest) 0

def allowed (a b : Grant) (now : ℤ) : Bool := unix now < allowedPairExpiry a b now

/-- a fence record: the key it is kept under, and its number -/
structure FenceRef where
  id : String
  record : Nat
deriving DecidableEq, Repr

/-- the records and the disco keys of both endpoints -/
structure PairLease where
  a : FenceRef
  b : FenceRef
  discoA : String
  discoB : String
deriving DecidableEq, Repr

/-- the server, the number of the record under each key, the next number, and the identity of the relay's own service -/
structure LeaseServer where
  server : Server
  record : String → Nat
  next : Nat
  service : Option ServiceDescriptor

/-- a grant with a list of peers binds the other's disco key; one with memberships names no peer -/
def discoMatch (g other : Grant) : Bool :=
  !g.members.isEmpty || (g.peerEntry other.wireGuardPublicKey).any (·.discoPublicKey == other.discoPublicKey)

namespace LeaseServer

variable (env : Platform) (w : LeaseServer)

/-- the grant of a record that is still the one under its key, and names the relay's own service -/
def current (f : FenceRef) : Option Grant :=
  (w.server.fences.lookup f.id).filter fun g =>
    w.record f.id == f.record && grantID g == f.id && g.peerRelay.isSome && g.peerRelay == w.service

/-- the end of the lease, while it is valid -/
def capabilityValidLocked (l : PairLease) (now : ℤ) : Option ℤ :=
  if w.server.draining && !decide (now < w.server.deadline) then none
  else match w.current l.a, w.current l.b with
    | some a, some b =>
      if allowed a b now && a.discoPublicKey == l.discoA && b.discoPublicKey == l.discoB && discoMatch a b &&
        discoMatch b a
      then
        let expires := allowedPairExpiry a b now * Relay.second
        some (if w.server.draining && w.server.deadline < expires then w.server.deadline else expires)
      else none
    | _, _ => none

/-- is the record of the endpoint updated in place -/
def recordKept (p : ConnID) (g : Grant) (now instant : ℤ) : Bool :=
  ((w.server.pruneFences now).fences.lookup (grantID g)).any fun fence =>
    merging (w.server.conns p) g || sameGrantAuthority instant fence g

/-- the admission with its record; the clock is read for the conflict (`instant`) and again for the record (`later`) -/
def admits (p : ConnID) (g : Grant) (now instant later : ℤ) : LeaseServer × Option RelayError :=
  match w.server.admits env p g now instant with
  | (s, some e) => ({ w with server := s }, some e)
  | (s, none) =>
    if w.recordKept p g now later then ({ w with server := s }, none)
    else ({ w with server := s, record := Function.update w.record (grantID g) w.next, next := w.next + 1 }, none)

end LeaseServer

/-! ## A grant without its times -/

def Scope.timeless (s : Scope) : Scope := { s with expiresAt := 0 }

def Peer.timeless (p : Peer) : Peer := { p with scopes := p.scopes.map Scope.timeless }

def Grant.timeless (g : Grant) : Grant :=
  { g with signedHash := "", issuedAt := 0, expiresAt := 0, peers := g.peers.map Peer.timeless,
           memberships := g.memberships.map (·.map Scope.timeless) }

/-- no scope of the grant has ended -/
def Grant.LiveAt (g : Grant) (now : ℤ) : Prop :=
  (∀ peer ∈ g.peers, ∀ s ∈ peer.scopes, unix now < s.expiresAt) ∧ ∀ s ∈ g.members, unix now < s.expiresAt

instance (g : Grant) (now : ℤ) : Decidable (g.LiveAt now) := by
  unfold LiveAt
  infer_instance

/-- `next` refreshes `first`: two verified grants that differ in their times only. Different grants have different
hashes. -/
structure Refreshes (first next : Grant) : Prop where
  same : first.timeless = next.timeless
  account : first.accountID ≠ ""
  hash : first.signedHash = next.signedHash → first = next

variable {g : Grant}

theorem normalize_live {instant : ℤ} (h : g.LiveAt instant) : normalize instant g =
    { g.timeless with generation := 0, memberships := g.memberships,
                      peers := g.timeless.peers.filter fun peer => !peer.scopes.isEmpty } := by
  have hpeers : (g.peers.map fun peer : Peer => { peer with
      scopes := (peer.scopes.filter (unix instant < ·.expiresAt)).map fun s => { s with expiresAt := 0 } }) =
      g.peers.map Peer.timeless := by
    apply List.map_congr_left
    intro peer hpeer
    have hall : (peer.scopes.filter fun s => decide (unix instant < s.expiresAt)) = peer.scopes :=
      List.filter_eq_self.2 fun s hs => decide_eq_true (h.1 peer hpeer s hs)
    rw [hall]
    rfl
  simp only [normalize, hpeers, timeless]

/-- **Same authority.** A refresh whose scopes are live has it exactly if the memberships did not move. -/
theorem sameGrantAuthority_iff {first next : Grant} {instant : ℤ} (h : Refreshes first next)
    (hfirst : first.LiveAt instant) (hnext : next.LiveAt instant) :
    sameGrantAuthority instant first next = true ↔ first.memberships = next.memberships := by
  unfold sameGrantAuthority
  rw [beq_iff_eq, normalize_live hfirst, normalize_live hnext, h.same]
  constructor
  · intro heq
    have hfield := congrArg memberships heq
    exact hfield
  · intro heq
    rw [heq]

theorem members_timeless (g : Grant) : g.timeless.members = g.members.map Scope.timeless := by
  unfold members timeless
  cases g.memberships <;> rfl

theorem peerEntry_timeless (g : Grant) (k : String) : g.timeless.peerEntry k = (g.peerEntry k).map Peer.timeless := by
  unfold peerEntry timeless
  rw [List.find?_map]
  rfl

theorem scopesFor_timeless (g other : Grant) :
    g.timeless.scopesFor other.timeless = (g.scopesFor other).map Scope.timeless := by
  have hkey : other.timeless.wireGuardPublicKey = other.wireGuardPublicKey := rfl
  unfold scopesFor
  rw [members_timeless, peerEntry_timeless, hkey, List.isEmpty_map]
  split_ifs
  · cases g.peerEntry other.wireGuardPublicKey <;> rfl
  · rfl

/-- whom a grant admits does not depend on its times -/
theorem allowedAdmitted_timeless (a b : Grant) : allowedAdmitted a.timeless b.timeless = allowedAdmitted a b := by
  rw [Bool.eq_iff_iff, allowedAdmitted_iff, allowedAdmitted_iff, scopesFor_timeless, scopesFor_timeless]
  constructor
  · intro h
    obtain ⟨_, hs, _, ht, hst⟩ := h
    obtain ⟨s, hs', rfl⟩ := List.mem_map.1 hs
    obtain ⟨t, ht', rfl⟩ := List.mem_map.1 ht
    exact ⟨s, hs', t, ht', hst⟩
  · intro h
    obtain ⟨s, hs, t, ht, hst⟩ := h
    exact ⟨s.timeless, List.mem_map_of_mem hs, t.timeless, List.mem_map_of_mem ht, hst⟩

theorem discoMatch_timeless (a b : Grant) : discoMatch a.timeless b.timeless = discoMatch a b := by
  unfold discoMatch
  have hkey : b.timeless.wireGuardPublicKey = b.wireGuardPublicKey := rfl
  rw [members_timeless, peerEntry_timeless, List.isEmpty_map, Option.any_map]
  rfl

/-! ## How long a pair is allowed -/

variable {a b : Grant}

theorem allowedPairExpiry_nil (now : ℤ) (h : reciprocalScopes a b = []) : allowedPairExpiry a b now = 0 := by
  unfold allowedPairExpiry
  rw [h]
  split_ifs <;> rfl

/-- a pair that is allowed has reciprocal scopes, and neither grant has ended -/
theorem allowed_admitted {now : ℤ} (hnow : 0 ≤ now) (h : allowed a b now = true) :
    unix now < a.expiresAt ∧ unix now < b.expiresAt ∧ allowedAdmitted a b = true := by
  have hunix : 0 ≤ unix now := Int.ediv_nonneg hnow (by decide)
  have hlt : unix now < allowedPairExpiry a b now := of_decide_eq_true h
  by_cases hend : a.expiresAt ≤ unix now ∨ b.expiresAt ≤ unix now
  · have hzero : allowedPairExpiry a b now = 0 := if_pos (by simpa using hend)
    omega
  · push Not at hend
    refine ⟨hend.1, hend.2, ?_⟩
    by_contra hnone
    have hnil : reciprocalScopes a b = [] := by simpa [allowedAdmitted] using hnone
    have hzero := allowedPairExpiry_nil now hnil
    omega

/-- the loop over the pairs keeps the largest end it has seen -/
theorem foldl_expiry_gt {bound ends : ℤ} (hends : bound < ends) (l : List (Scope × Scope))
    (hlive : ∀ p ∈ l, bound < p.1.expiresAt ∧ bound < p.2.expiresAt) (latest : ℤ) (h : l ≠ [] ∨ bound < latest) :
    bound < l.foldl (fun latest p =>
      if bound < p.1.expiresAt && bound < p.2.expiresAt then max latest (min (min p.1.expiresAt p.2.expiresAt) ends)
      else latest) latest := by
  induction l generalizing latest with
  | nil => exact h.resolve_left (fun hne => hne rfl)
  | cons p l ih =>
    obtain ⟨hfirst, hsecond⟩ := hlive p List.mem_cons_self
    have hpos : (decide (bound < p.1.expiresAt) && decide (bound < p.2.expiresAt)) = true := by simp [hfirst, hsecond]
    rw [List.foldl_cons, if_pos hpos]
    apply ih (fun q hq => hlive q (List.mem_cons_of_mem _ hq))
    exact .inr (lt_max_of_lt_right (lt_min (lt_min hfirst hsecond) hends))

theorem allowed_of_live {now : ℤ} (ha : unix now < a.expiresAt) (hb : unix now < b.expiresAt)
    (hlive : ∀ p ∈ reciprocalScopes a b, unix now < p.1.expiresAt ∧ unix now < p.2.expiresAt)
    (h : allowedAdmitted a b = true) : allowed a b now = true := by
  have hne : reciprocalScopes a b ≠ [] := by
    intro hnil
    rw [allowedAdmitted, hnil] at h
    cases h
  unfold allowed allowedPairExpiry
  rw [if_neg (by simpa using ⟨ha, hb⟩)]
  exact decide_eq_true (foldl_expiry_gt (lt_min ha hb) _ hlive 0 (.inl hne))

/-! ## What an admission does to the leases -/

namespace LeaseServer

variable {env : Platform} {w w' : LeaseServer} {p : ConnID} {first next : Grant} {now instant later : ℤ}

/-- at the time, the relay serves, and the grants of the lease and the scopes between them have not ended -/
structure Lasts (w : LeaseServer) (l : PairLease) (now : ℤ) : Prop where
  serving : w.server.draining = true → now < w.server.deadline
  scopes : ∀ a b, w.current l.a = some a → w.current l.b = some b → unix now < a.expiresAt ∧ unix now < b.expiresAt ∧
    ∀ p ∈ reciprocalScopes a b, unix now < p.1.expiresAt ∧ unix now < p.2.expiresAt

variable {f : FenceRef}

theorem current_spec (h : w.current f = some g) :
    w.server.fences.lookup f.id = some g ∧ w.record f.id = f.record ∧ grantID g = f.id ∧ g.peerRelay.isSome = true ∧
      g.peerRelay = w.service := by
  obtain ⟨hlookup, hchecks⟩ := Option.filter_eq_some_iff.1 h
  simp only [Bool.and_eq_true, beq_iff_eq] at hchecks
  obtain ⟨⟨⟨hrecord, hid⟩, hsome⟩, hservice⟩ := hchecks
  exact ⟨hlookup, hrecord, hid, hsome, hservice⟩

theorem current_of (hlookup : w.server.fences.lookup f.id = some g)
    (hrecord : w.record f.id = f.record) (hid : grantID g = f.id) (hsome : g.peerRelay.isSome = true)
    (hservice : g.peerRelay = w.service) : w.current f = some g :=
  Option.filter_eq_some_iff.2 ⟨hlookup, by simp [hrecord, hid, hsome, ← hservice]⟩

/-- a lease is valid while the relay serves, both records are current, and their grants match each other and the
lease -/
theorem valid_iff (l : PairLease) : (w.capabilityValidLocked l now).isSome = true ↔
    (w.server.draining = true → now < w.server.deadline) ∧ ∃ a b, w.current l.a = some a ∧ w.current l.b = some b ∧
      allowed a b now = true ∧ a.discoPublicKey = l.discoA ∧ b.discoPublicKey = l.discoB ∧ discoMatch a b = true ∧
      discoMatch b a = true := by
  unfold capabilityValidLocked
  by_cases hserving : w.server.draining = true → now < w.server.deadline
  · have hno : (w.server.draining && !decide (now < w.server.deadline)) ≠ true := by simpa using hserving
    rw [if_neg hno]
    cases ha : w.current l.a with
    | none => simp
    | some a =>
      cases hb : w.current l.b with
      | none => simp
      | some b =>
        by_cases hchecks : (allowed a b now && a.discoPublicKey == l.discoA && b.discoPublicKey == l.discoB &&
            discoMatch a b && discoMatch b a) = true
        · simp only [if_pos hchecks, Option.isSome_some, true_iff]
          simp only [Bool.and_eq_true, beq_iff_eq] at hchecks
          obtain ⟨⟨⟨⟨h1, h2⟩, h3⟩, h4⟩, h5⟩ := hchecks
          exact ⟨hserving, a, b, rfl, rfl, h1, h2, h3, h4, h5⟩
        · simp only [if_neg hchecks, Option.isSome_none, Bool.false_eq_true, false_iff]
          intro h
          obtain ⟨-, a', b', ha', hb', h1, h2, h3, h4, h5⟩ := h
          cases ha'
          cases hb'
          exact hchecks (by simp [h1, h2, h3, h4, h5])
  · have hyes : (w.server.draining && !decide (now < w.server.deadline)) = true := by simpa using hserving
    rw [if_pos hyes]
    simp only [Option.isSome_none, Bool.false_eq_true, false_iff]
    intro h
    exact hserving h.1

theorem combined_of_admitted {s : Server} {g' : Grant} (h : s.admitted env p g instant = .ok g') :
    s.combined p g = .ok g' := by
  unfold admitted at h
  split_ifs at h
  exact h

/-- what an admission without an error leaves, on a connection that has no other part of the grant -/
theorem admits_none (hcarrier : Server.merging (w.server.conns p) next = false)
    (h : w.admits env p next now instant later = (w', none)) :
    w'.server = (w.server.pruneFences now).commit env p next ∧ w'.service = w.service ∧
      w'.record = (if w.recordKept p next now later then w.record else Function.update w.record
        (grantID next) w.next) := by
  have hcombined : (w.server.pruneFences now).combined p next = .ok next := if_neg (by
    change Server.merging (w.server.conns p) next ≠ true
    rw [hcarrier]
    exact Bool.false_ne_true)
  cases hs : w.server.admits env p next now instant with
  | mk s e =>
    unfold admits at h
    rw [hs] at h
    cases e with
    | some e => cases congrArg Prod.snd h
    | none =>
      have hserver : s = (w.server.pruneFences now).commit env p next := by
        unfold Server.admits at hs
        split_ifs at hs
        · cases congrArg Prod.snd hs
        · cases congrArg Prod.snd hs
        · split at hs
          · cases congrArg Prod.snd hs
          · rename_i g' hadmitted
            cases hcombined.symm.trans (combined_of_admitted hadmitted)
            exact (congrArg Prod.fst hs).symm
      by_cases hkept : w.recordKept p next now later = true
      · simp only [if_pos hkept, Prod.mk.injEq, and_true] at h
        rw [if_pos hkept, ← h]
        exact ⟨hserver, rfl, rfl⟩
      · simp only [if_neg hkept, Prod.mk.injEq, and_true] at h
        rw [if_neg hkept, ← h]
        exact ⟨hserver, rfl, rfl⟩

/-- a record that is current and whose grant has not ended stays current, with a grant that differs in its times only -/
theorem current_kept (h : Refreshes first next)
    (hfenced : (w.server.pruneFences now).fences.lookup (grantID next) = some first)
    (hserver : w'.server = (w.server.pruneFences now).commit env p next) (hservice : w'.service = w.service)
    (hrecord : w'.record = w.record) (hg : w.current f = some g)
    (hlive : unix now < g.expiresAt) : ∃ g', w'.current f = some g' ∧ g'.timeless = g.timeless := by
  obtain ⟨hlookup, hnumber, hid, hsome, hown⟩ := current_spec hg
  have hpruned : (w.server.pruneFences now).fences.lookup f.id = some g := by
    have hkept : (w.server.fences.lookup f.id).any (w.server.fenceKept now f.id) = true := by
      simp [hlookup, fenceKept, hlive]
    exact (lookup_keep _ _ _).trans ((if_pos hkept).trans hlookup)
  by_cases hf : f.id = grantID next
  · have hfirst : g = first := Option.some.inj (hpruned.symm.trans (hf ▸ hfenced))
    have hrelay : next.timeless.peerRelay = first.timeless.peerRelay := by rw [h.same]
    change next.peerRelay = first.peerRelay at hrelay
    refine ⟨next, ?_, by rw [hfirst, h.same]⟩
    apply current_of
    · rw [hserver, hf]
      exact AList.lookup_insert _
    · rw [hrecord, hnumber]
    · exact hf.symm
    · rw [hrelay, ← hfirst]
      exact hsome
    · rw [hrelay, ← hfirst, hservice]
      exact hown
  · refine ⟨g, ?_, rfl⟩
    apply current_of _ (by rw [hrecord, hnumber]) hid hsome (by rw [hservice]; exact hown)
    rw [hserver]
    exact (AList.lookup_insert_ne hf).trans hpruned

/-- the leases that were valid are valid as long as they last -/
theorem valid_kept (hnow : 0 ≤ now) (h : Refreshes first next)
    (hfenced : (w.server.pruneFences now).fences.lookup (grantID next) = some first)
    (hserver : w'.server = (w.server.pruneFences now).commit env p next) (hservice : w'.service = w.service)
    (hrecord : w'.record = w.record) {l : PairLease} (hvalid : (w.capabilityValidLocked l now).isSome = true) {t : ℤ}
    (hlasts : w'.Lasts l t) : (w'.capabilityValidLocked l t).isSome = true := by
  obtain ⟨-, a, b, ha, hb, hallowed, hdiscoA, hdiscoB, hab, hba⟩ := (valid_iff l).1 hvalid
  obtain ⟨haend, hbend, hadmitted⟩ := allowed_admitted hnow hallowed
  obtain ⟨a', ha', hat⟩ := current_kept h hfenced hserver hservice hrecord ha haend
  obtain ⟨b', hb', hbt⟩ := current_kept h hfenced hserver hservice hrecord hb hbend
  obtain ⟨ha'end, hb'end, hscopes⟩ := hlasts.scopes a' b' ha' hb'
  have hdisco : ∀ {g g' : Grant}, g'.timeless = g.timeless → g'.discoPublicKey = g.discoPublicKey := by
    intro g g' heq
    have hfield := congrArg discoPublicKey heq
    exact hfield
  refine (valid_iff l).2 ⟨hlasts.serving, a', b', ha', hb', ?_, (hdisco hat).trans hdiscoA,
    (hdisco hbt).trans hdiscoB, ?_, ?_⟩
  · apply allowed_of_live ha'end hb'end hscopes
    rw [← allowedAdmitted_timeless, hat, hbt, allowedAdmitted_timeless]
    exact hadmitted
  · rw [← discoMatch_timeless, hat, hbt, discoMatch_timeless]
    exact hab
  · rw [← discoMatch_timeless, hat, hbt, discoMatch_timeless]
    exact hba

/-- the grant is no conflict, and an admission keeps the endpoint's record and every lease that was valid -/
def KeepsFence (env : Platform) (w : LeaseServer) (p : ConnID) (g : Grant) (now instant later : ℤ) : Prop :=
  (w.server.pruneFences now).fenceConflict p g instant = false ∧
    ∀ w', w.admits env p g now instant later = (w', none) → w'.record (grantID g) = w.record (grantID g) ∧
      ∀ l t, (w.capabilityValidLocked l now).isSome = true → w'.Lasts l t → (w'.capabilityValidLocked l t).isSome = true

/-- **A refresh on another carrier.** While `first` is fenced, a grant that differs from it in its times only, with
scopes that are live, is admitted on a carrier without a conflict, and keeps the fence and every lease that was
valid as long as the scopes last, exactly if the memberships end when they ended before. -/
theorem refresh_keeps_iff (env : Platform) (w : LeaseServer) (p : ConnID) (first next : Grant) (now instant later : ℤ)
    (hnow : 0 ≤ now) (h : Refreshes first next)
    (hfenced : (w.server.pruneFences now).fences.lookup (grantID next) = some first)
    (hcarrier : merging (w.server.conns p) next = false)
    (hlive : first.LiveAt instant ∧ next.LiveAt instant ∧ first.LiveAt later ∧ next.LiveAt later) :
    w.KeepsFence env p next now instant later ↔ first.memberships = next.memberships := by
  have hsame := sameGrantAuthority_iff h hlive.1 hlive.2.1
  have hlater := sameGrantAuthority_iff h hlive.2.2.1 hlive.2.2.2
  have hgeneration : next.timeless.generation = first.timeless.generation := by rw [h.same]
  change next.generation = first.generation at hgeneration
  have hconflict : (w.server.pruneFences now).fenceConflict p next instant =
      (next.signedHash != first.signedHash && !sameGrantAuthority instant first next) := by
    unfold fenceConflict
    have hconns : (w.server.pruneFences now).conns p = w.server.conns p := rfl
    have haccount : (first.accountID != "") = true := bne_iff_ne.2 h.account
    rw [hfenced, hconns, hcarrier]
    simp [haccount, hgeneration]
  constructor
  · intro hkeeps
    by_contra hne
    -- different memberships: the hashes differ, and the grant is taken for another of the same generation
    have hauthority : sameGrantAuthority instant first next = false := Bool.eq_false_iff.2 fun heq => hne (hsame.1 heq)
    have hhash : next.signedHash ≠ first.signedHash := fun heq => hne (by rw [h.hash heq.symm])
    have hno := hkeeps.1
    rw [hconflict, hauthority] at hno
    exact hhash (by simpa using hno)
  · intro hmemberships
    refine ⟨by rw [hconflict, hsame.2 hmemberships]; simp, ?_⟩
    intro w' hadmits
    obtain ⟨hserver, hservice, hrecord⟩ := admits_none hcarrier hadmits
    have hkept : w.recordKept p next now later = true := by
      simp [recordKept, hfenced, hlater.2 hmemberships]
    rw [if_pos hkept] at hrecord
    refine ⟨by rw [hrecord], ?_⟩
    intro l t hvalid hlasts
    exact valid_kept hnow h hfenced hserver hservice hrecord hvalid hlasts

/-! ## Instances -/

/-- one membership of the account's network -/
def member (direction : String) (expiresAt : ℤ) : Scope :=
    ⟨"machine_network", "network", 1, "connect", direction, 443, expiresAt⟩

/-- a grant of the endpoint with the memberships or the peers it is given -/
def endpointGrant (hash : String) (expiresAt : ℤ) (memberships : Option (List Scope)) (peers : List Peer) : Grant :=
  { signedHash := hash, expiresAt, generation := 1, accountID := "a", endpointID := "e", wireGuardPublicKey := "k",
    memberships, peers }

/-- a server on which the grant is fenced, and nothing else happened -/
def fencedBy (g : Grant) : LeaseServer :=
  { server := { fences := (∅ : AList fun _ : String => Grant).insert (grantID g) g }, record := fun _ => 0, next := 1,
    service := none }

/-- the relay with nothing around it -/
def bare : Platform := ⟨fun _ => none, id, fun _ => false, fun k _ => k⟩

/-- the network membership of a grant is extended from the 60th to the 120th second, and the second carrier is
refused -/
theorem membership_refresh_refused :
    Refreshes (endpointGrant "h1" 60 (some [member "dial" 60]) [])
      (endpointGrant "h2" 120 (some [member "dial" 120]) []) ∧
    (endpointGrant "h1" 60 (some [member "dial" 60]) []).LiveAt (30 * Relay.second) ∧
    ((fencedBy (endpointGrant "h1" 60 (some [member "dial" 60]) [])).admits bare 0
      (endpointGrant "h2" 120 (some [member "dial" 120]) []) (30 * Relay.second) (30 * Relay.second)
      (30 * Relay.second)).2 = some (.admission "fence") :=
  ⟨⟨by decide +kernel, by decide, by decide⟩, by decide +kernel, by decide +kernel⟩

/-- the same with a list of peers: the fence and the leases are kept -/
theorem peer_refresh_keeps :
    (fencedBy (endpointGrant "h1" 60 none [⟨"q", "", [member "dial" 60]⟩])).KeepsFence bare 0
      (endpointGrant "h2" 120 none [⟨"q", "", [member "dial" 120]⟩]) (30 * Relay.second) (30 * Relay.second)
      (31 * Relay.second) :=
  (refresh_keeps_iff bare _ 0 (endpointGrant "h1" 60 none [⟨"q", "", [member "dial" 60]⟩]) _ _ _ _ (by decide)
    ⟨by decide +kernel, by decide, by decide⟩ (by decide +kernel) (by decide) (by decide +kernel)).2 (by decide)

end LeaseServer

end Paperboat.Relay
