/-
The loops over the lookup index of a grant that find the scopes by which two grants
authorize each other. The index has the position of each peer's entry, and the
memberships ordered by the hash of their resource; a lookup is one binary search and a
walk over the entries with that hash.

The hash is any function, and entries with the same hash stand in any order. A grant
comes with an index that agrees with its lists (`IndexedGrant`), as the one that Verify
builds does (`verified`), and the one that mergeGrants extends (`extended`).

Results:
- `run_eq_filter`: the walk from the binary search on finds the entries with the hash;
- `membershipLoop_eq`: the loop that advances over the entries with one hash visits
  every membership once;
- `reciprocal_pairs_found`: **the indexed loops find the pairs** that comparing all
  candidates finds, each as often, and the other way round they find the same pairs
  swapped.
-/
import Mathlib.Data.Multiset.Bind
import Mathlib.Data.List.TakeWhile
import Paperboat.Core.Search
import Paperboat.Relay.Parts

namespace Paperboat.Relay

open Search

/-! ## Model -/

/-- the position of the first entry with a hash of at least `h` -/
def first (ix : List (ℕ × ℕ)) (h : ℕ) : ℕ := search ix.length fun i => (ix[i]?).all fun e => !decide (e.1 < h)

/-- the entries from a position on, as long as they have the hash -/
def runFrom (ix : List (ℕ × ℕ)) (start h : ℕ) : List (ℕ × ℕ) := (ix.drop start).takeWhile (·.1 == h)

/-- the memberships at the positions of the entries -/
def scopesAt (g : Grant) (l : List (ℕ × ℕ)) : List Scope := l.filterMap fun e => g.members[e.2]?

/-- `s` with each of the candidates that is the same resource in the other direction -/
def pairUp (sameAccount : Bool) (s : Scope) (candidates : List Scope) : List (Scope × Scope) :=
  if s.resourceKind == "machine_network" && !sameAccount then []
  else (candidates.filter fun t => s.direction != t.direction && keyOf s == keyOf t).map (Prod.mk s)

/-- the loop of reciprocalMemberships over the entries of `a` that are left: those with the hash of the first are
paired with the walk over `b` that starts where the search for the hash ended -/
def membershipLoop (a b : Grant) (bi : List (ℕ × ℕ)) : List (ℕ × ℕ) → List (Scope × Scope)
  | [] => []
  | e :: rest =>
    (scopesAt a ((e :: rest).takeWhile (·.1 == e.1))).flatMap (fun s =>
      pairUp (a.accountID == b.accountID) s (scopesAt b (runFrom bi (first bi e.1) e.1))) ++
      membershipLoop a b bi ((e :: rest).dropWhile (·.1 == e.1))
termination_by l => l.length
decreasing_by
  simp only [List.dropWhile_cons, beq_self_eq_true, if_true, List.length_cons]
  exact Nat.lt_succ_of_le (List.dropWhile_sublist _).length_le

variable {hash : MembershipKey → ℕ}

/-- a grant with its index -/
structure IndexedGrant (hash : MembershipKey → ℕ) where
  grant : Grant
  index : GrantIndex
  agrees : Agrees hash grant index

namespace IndexedGrant

/-- Verify builds the index of the grant -/
def verified {v : Verifier} {env : Platform} {token : String} {leaf : Certificate} {now : ℤ} {g : Grant}
    (h : v.verify env token leaf now = .ok g) : IndexedGrant hash :=
  ⟨g, withIndex hash g, withIndex_agrees (verify_distinct h)⟩

/-- mergeGrants extends the grant and its index by a further part -/
def extended (current next : IndexedGrant hash) : IndexedGrant hash :=
  ⟨mergedGrant current.grant next.grant, (extendIndexed hash current.grant current.index next.grant).2,
    extendIndexed_agrees current.agrees next.grant⟩

def peerEntry (g : IndexedGrant hash) (k : String) : Option Peer :=
  (g.index.peers.lookup k).bind fun i => g.grant.peers[i]?

/-- every membership whose key has the hash -/
def eachMembership (g : IndexedGrant hash) (h : ℕ) : List Scope :=
  scopesAt g.grant (runFrom g.index.memberships (first g.index.memberships h) h)

def reciprocalMemberships (a b : IndexedGrant hash) : List (Scope × Scope) :=
  membershipLoop a.grant b.grant b.index.memberships a.index.memberships

/-- `a` has a list of peers, `b` has memberships -/
def reciprocalMixed (a b : IndexedGrant hash) : List (Scope × Scope) :=
  match a.peerEntry b.grant.wireGuardPublicKey with
  | none => []
  | some p => p.scopes.flatMap fun s =>
      pairUp (a.grant.accountID == b.grant.accountID) s (b.eachMembership (hash (keyOf s)))

/-- the entries of both lists -/
def reciprocalPeers (a b : IndexedGrant hash) : List (Scope × Scope) :=
  match a.peerEntry b.grant.wireGuardPublicKey, b.peerEntry a.grant.wireGuardPublicKey with
  | some p, some q => p.scopes.flatMap fun s =>
      (q.scopes.filter fun t => s.reciprocal (a.grant.accountID == b.grant.accountID) t).map (Prod.mk s)
  | _, _ => []

/-- the pairs `match` is called for, in their order -/
def reciprocalScopes (a b : IndexedGrant hash) : List (Scope × Scope) :=
  if !a.grant.members.isEmpty && !b.grant.members.isEmpty then a.reciprocalMemberships b
  else if !a.grant.members.isEmpty then (b.reciprocalMixed a).map Prod.swap
  else if !b.grant.members.isEmpty then a.reciprocalMixed b
  else a.reciprocalPeers b

end IndexedGrant

/-! ## What the index finds -/

/-- in a sorted list with nothing below `h`, those with the hash `h` come first -/
theorem takeWhile_eq_filter {l : List (ℕ × ℕ)} {h : ℕ} (hsorted : l.Pairwise fun e f => e.1 ≤ f.1)
    (hlow : ∀ e ∈ l, h ≤ e.1) : l.takeWhile (·.1 == h) = l.filter (·.1 == h) := by
  induction l with
  | nil => rfl
  | cons e l ih =>
    obtain ⟨hhead, htail⟩ := List.pairwise_cons.1 hsorted
    by_cases he : e.1 = h
    · rw [List.takeWhile_cons_of_pos (by simpa using he), List.filter_cons_of_pos (by simpa using he),
        ih htail fun f hf => hlow f (List.mem_cons_of_mem _ hf)]
    · have hnone : l.filter (·.1 == h) = [] := by
        apply List.filter_eq_nil_iff.2
        intro f hf heq
        have hle := hhead f hf
        have hlow' := hlow e List.mem_cons_self
        have : f.1 = h := by simpa using heq
        omega
      rw [List.takeWhile_cons_of_neg (by simpa using he), List.filter_cons_of_neg (by simpa using he), hnone]

/-- the walk from the binary search on finds the entries with the hash -/
theorem run_eq_filter {ix : List (ℕ × ℕ)} (h : ℕ) (hsorted : ix.Pairwise fun e f => e.1 ≤ f.1) :
    runFrom ix (first ix h) h = ix.filter (·.1 == h) := by
  have hmono : ∀ i k (hi : i < ix.length) (hk : k < ix.length), i ≤ k → (ix[i]).1 ≤ (ix[k]).1 := by
    intro i k hi hk hik
    obtain rfl | hlt := Nat.eq_or_lt_of_le hik
    · exact le_rfl
    · exact List.pairwise_iff_getElem.1 hsorted i k hi hk hlt
  have hupward : Upward ix.length fun i => (ix[i]?).all fun e => !decide (e.1 < h) := by
    intro i k hik hk hi
    have hlen : i < ix.length := by omega
    have hle := hmono i k hlen hk hik
    simp only [List.getElem?_eq_getElem hlen, List.getElem?_eq_getElem hk, Option.all_some, Bool.not_eq_true',
      decide_eq_false_iff_not] at hi ⊢
    omega
  obtain ⟨hlength, hbelow, hat⟩ := search_spec ix.length _ hupward
  have htake : (ix.take (first ix h)).filter (·.1 == h) = [] := by
    apply List.filter_eq_nil_iff.2
    intro e he heq
    obtain ⟨i, hi, rfl⟩ := List.mem_iff_getElem.1 he
    rw [List.length_take] at hi
    have hlow := hbelow i (by unfold first at hi; omega)
    simp only [List.getElem?_eq_getElem (show i < ix.length by omega), Option.all_some, Bool.not_eq_false',
      decide_eq_true_eq] at hlow
    have : (ix[i]).1 = h := by simpa using heq
    omega
  have hdrop : ∀ e ∈ ix.drop (first ix h), h ≤ e.1 := by
    intro e he
    obtain ⟨i, hi, rfl⟩ := List.mem_iff_getElem.1 he
    rw [List.length_drop] at hi
    have hfirst : first ix h < ix.length := by omega
    have hhigh := hat hfirst
    change ((ix[first ix h]?).all fun e => !decide (e.1 < h)) = true at hhigh
    simp only [List.getElem?_eq_getElem hfirst, Option.all_some, Bool.not_eq_true', decide_eq_false_iff_not] at hhigh
    have hle := hmono (first ix h) (first ix h + i) hfirst (by omega) (by omega)
    rw [List.getElem_drop]
    omega
  have hsplit := List.filter_append (p := (·.1 == h)) (ix.take (first ix h)) (ix.drop (first ix h))
  rw [List.take_append_drop, htake] at hsplit
  rw [hsplit]
  exact takeWhile_eq_filter (hsorted.sublist (List.drop_sublist _ _)) hdrop

/-- the entries with a hash give the memberships whose key has it -/
theorem scopesAt_hashed_filter (g : Grant) (h : ℕ) :
    scopesAt g ((hashed hash g.members).filter (·.1 == h)) = g.members.filter fun t => hash (keyOf t) == h := by
  have hget : ∀ m ∈ g.members.zipIdx.filter (fun m => hash (keyOf m.1) == h), g.members[m.2]? = some m.1 := by
    intro m hm
    exact List.mem_zipIdx_iff_getElem?.1 (List.mem_filter.1 hm).1
  calc scopesAt g ((hashed hash g.members).filter (·.1 == h))
      = (g.members.zipIdx.filter fun m => hash (keyOf m.1) == h).filterMap fun m => g.members[m.2]? := by
        rw [scopesAt, hashed, List.filter_map, List.filterMap_map]
        rfl
    _ = (g.members.zipIdx.filter fun m => hash (keyOf m.1) == h).map Prod.fst := by
        rw [← List.filterMap_eq_map]
        exact List.filterMap_congr hget
    _ = g.members.filter fun t => hash (keyOf t) == h := by
        rw [show (fun m : Scope × ℕ => hash (keyOf m.1) == h) = (fun t => hash (keyOf t) == h) ∘ Prod.fst from rfl,
          ← List.filter_map, List.zipIdx_map_fst]

theorem scopesAt_hashed (hash : MembershipKey → ℕ) (g : Grant) : scopesAt g (hashed hash g.members) = g.members := by
  calc scopesAt g (hashed hash g.members) = g.members.zipIdx.filterMap fun m => g.members[m.2]? := by
        rw [scopesAt, hashed, List.filterMap_map]
        rfl
    _ = g.members.zipIdx.map Prod.fst := by
        rw [← List.filterMap_eq_map]
        exact List.filterMap_congr fun m hm => List.mem_zipIdx_iff_getElem?.1 hm
    _ = g.members := List.zipIdx_map_fst _ _

variable (sameAccount : Bool)

/-- the candidates that pair up with `s` -/
theorem pairUp_eq (s : Scope) (l : List Scope) :
    pairUp sameAccount s l = (l.filter fun t => s.reciprocal sameAccount t).map (Prod.mk s) := by
  have hkey : ∀ t, s.reciprocal sameAccount t =
      (!(s.resourceKind == "machine_network" && !sameAccount) &&
        (s.direction != t.direction && keyOf s == keyOf t)) := by
    intro t
    rw [Bool.eq_iff_iff]
    simp only [Scope.reciprocal, keyOf, Bool.and_eq_true, Bool.or_eq_true, bne_iff_ne, beq_iff_eq, ne_eq,
      Bool.not_eq_true', MembershipKey.mk.injEq, Bool.and_eq_false_iff, Bool.not_eq_false', beq_eq_false_iff_ne]
    tauto
  unfold pairUp
  simp only [hkey]
  cases s.resourceKind == "machine_network" && !sameAccount <;> simp

/-- a membership is paired with the same scopes whether all memberships are looked at or those with the hash of its
key -/
theorem pairUp_hash (hash : MembershipKey → ℕ) (sameAccount : Bool) (s : Scope) (l : List Scope) :
    pairUp sameAccount s (l.filter fun t => hash (keyOf t) == hash (keyOf s)) = pairUp sameAccount s l := by
  unfold pairUp
  rw [List.filter_filter]
  congr 3
  funext t
  by_cases hkey : keyOf s = keyOf t
  · simp [hkey]
  · simp [hkey]

theorem pairUp_perm (s : Scope) {l l' : List Scope} (h : l.Perm l') :
    (pairUp sameAccount s l).Perm (pairUp sameAccount s l') := by
  unfold pairUp
  split_ifs
  · exact .refl _
  · exact (h.filter _).map _

/-- what the walk over the index of `g` pairs with a scope, is what all of its memberships give -/
theorem pairUp_run (s : Scope) (g : IndexedGrant hash) :
    (pairUp sameAccount s (g.eachMembership (hash (keyOf s)))).Perm (pairUp sameAccount s g.grant.members) := by
  rw [IndexedGrant.eachMembership, run_eq_filter _ g.agrees.sorted, ← pairUp_hash hash sameAccount s g.grant.members,
    ← scopesAt_hashed_filter]
  exact pairUp_perm sameAccount s ((g.agrees.memberships.filter _).filterMap _)

/-- the loop over the entries with one hash after another visits each entry once -/
theorem membershipLoop_eq (a b : Grant) (bi l : List (ℕ × ℕ))
    (hl : ∀ e ∈ l, ∀ s, a.members[e.2]? = some s → hash (keyOf s) = e.1) :
    membershipLoop a b bi l = (scopesAt a l).flatMap fun s => pairUp (a.accountID == b.accountID) s
      (scopesAt b (runFrom bi (first bi (hash (keyOf s))) (hash (keyOf s)))) := by
  fun_induction membershipLoop a b bi l with
  | case1 => rfl
  | case2 e rest ih =>
    have hgroup : ∀ s ∈ scopesAt a ((e :: rest).takeWhile (·.1 == e.1)), hash (keyOf s) = e.1 := by
      intro s hs
      obtain ⟨f, hf, hfs⟩ := List.mem_filterMap.1 hs
      have hhash : f.1 = e.1 := by simpa using List.mem_takeWhile_imp hf
      rw [hl f ((List.takeWhile_sublist _).subset hf) s hfs, hhash]
    rw [ih fun f hf => hl f ((List.dropWhile_sublist _).subset hf)]
    have hsplit : scopesAt a (e :: rest) =
        scopesAt a ((e :: rest).takeWhile (·.1 == e.1)) ++ scopesAt a ((e :: rest).dropWhile (·.1 == e.1)) := by
      rw [scopesAt, scopesAt, scopesAt, ← List.filterMap_append, List.takeWhile_append_dropWhile]
    rw [hsplit, List.flatMap_append]
    congr 1
    apply List.flatMap_congr
    intro s hs
    rw [hgroup s hs]

theorem hash_of_mem (g : IndexedGrant hash) : ∀ e ∈ g.index.memberships, ∀ s, g.grant.members[e.2]? = some s →
    hash (keyOf s) = e.1 := by
  intro e he s hs
  obtain ⟨m, hm, rfl⟩ := List.mem_map.1 (g.agrees.memberships.mem_iff.1 he)
  have hget := List.mem_zipIdx_iff_getElem?.1 hm
  cases hget.symm.trans hs
  rfl

/-! ## All pairs -/

/-- comparing all candidates, one from each list -/
theorem product_filter (l l' : List Scope) :
    (l ×ˢ l').filter (fun p => p.1.reciprocal sameAccount p.2) = l.flatMap fun s => pairUp sameAccount s l' := by
  induction l with
  | nil => rfl
  | cons s l ih =>
    rw [List.product_cons, List.filter_append, ih, List.flatMap_cons, List.filter_map, pairUp_eq]
    rfl

theorem flatMap_perm {l : List Scope} {f f' : Scope → List (Scope × Scope)} (h : ∀ s ∈ l, (f s).Perm (f' s)) :
    (l.flatMap f).Perm (l.flatMap f') := by
  induction l with
  | nil => exact .refl _
  | cons s l ih =>
    exact (h s List.mem_cons_self).append (ih fun t ht => h t (List.mem_cons_of_mem _ ht))

/-- the other grant finds the same pairs, swapped -/
theorem reciprocalScopes_swap (a b : Grant) :
    ((Relay.reciprocalScopes a b).map Prod.swap).Perm (Relay.reciprocalScopes b a) := by
  have haccount : (b.accountID == a.accountID) = (a.accountID == b.accountID) := Bool.beq_comm
  have hswap : ((a.scopesFor b ×ˢ b.scopesFor a).map Prod.swap).Perm (b.scopesFor a ×ˢ a.scopesFor b) := by
    rw [← Multiset.coe_eq_coe, ← Multiset.map_coe, ← Multiset.coe_product, ← Multiset.coe_product]
    exact Multiset.map_swap_product _ _
  unfold Relay.reciprocalScopes
  refine .trans ?_ (hswap.filter _)
  rw [List.filter_map, haccount]
  apply List.Perm.of_eq
  congr 2
  funext p
  exact Scope.reciprocal_comm _ _ _

namespace IndexedGrant

theorem peerEntry_eq (g : IndexedGrant hash) (k : String) : g.peerEntry k = g.grant.peerEntry k := by
  have hfind : g.index.peers.lookup k = g.grant.peers.findIdx? (·.wireGuardPublicKey == k) := by
    rw [g.agrees.peers k, List.idxOf?, List.findIdx?_map]
    rfl
  rw [peerEntry, hfind, Grant.peerEntry, List.find?_eq_bind_findIdx?_getElem?]

variable (a b : IndexedGrant hash)

theorem reciprocalMemberships_perm : (a.reciprocalMemberships b).Perm
    (a.grant.members.flatMap fun s => pairUp (a.grant.accountID == b.grant.accountID) s b.grant.members) := by
  unfold reciprocalMemberships
  rw [membershipLoop_eq _ _ _ _ (hash_of_mem a)]
  have hperm : (scopesAt a.grant a.index.memberships).Perm a.grant.members := by
    have hentries := scopesAt_hashed hash a.grant
    exact (a.agrees.memberships.filterMap _).trans (.of_eq hentries)
  refine (hperm.flatMap_right _).trans (flatMap_perm ?_)
  intro s _
  exact pairUp_run _ s b

theorem reciprocalMixed_perm : (a.reciprocalMixed b).Perm
    ((((a.grant.peerEntry b.grant.wireGuardPublicKey).map (·.scopes)).getD []).flatMap fun s =>
      pairUp (a.grant.accountID == b.grant.accountID) s b.grant.members) := by
  unfold reciprocalMixed
  rw [peerEntry_eq]
  cases a.grant.peerEntry b.grant.wireGuardPublicKey with
  | none => exact .refl _
  | some p => exact flatMap_perm fun s _ => pairUp_run _ s b

theorem reciprocalPeers_eq : a.reciprocalPeers b =
    (((a.grant.peerEntry b.grant.wireGuardPublicKey).map (·.scopes)).getD []).flatMap fun s =>
      pairUp (a.grant.accountID == b.grant.accountID) s
        (((b.grant.peerEntry a.grant.wireGuardPublicKey).map (·.scopes)).getD []) := by
  unfold reciprocalPeers
  rw [peerEntry_eq, peerEntry_eq]
  cases a.grant.peerEntry b.grant.wireGuardPublicKey with
  | none => rfl
  | some p =>
    cases b.grant.peerEntry a.grant.wireGuardPublicKey with
    | none | some => simp [pairUp_eq]

/-- the loops find what comparing all candidates finds -/
theorem reciprocalScopes_perm : (a.reciprocalScopes b).Perm (Relay.reciprocalScopes a.grant b.grant) := by
  unfold IndexedGrant.reciprocalScopes
  cases ha : a.grant.members.isEmpty <;> cases hb : b.grant.members.isEmpty
  · refine (reciprocalMemberships_perm a b).trans (.of_eq ?_)
    simp only [Relay.reciprocalScopes, product_filter, Grant.scopesFor, ha, hb, Bool.false_eq_true, if_false]
  · refine ((reciprocalMixed_perm b a).map Prod.swap).trans (.trans (.of_eq ?_) (reciprocalScopes_swap b.grant a.grant))
    simp only [Relay.reciprocalScopes, product_filter, Grant.scopesFor, ha, hb, Bool.false_eq_true, if_false, if_true]
  · refine (reciprocalMixed_perm a b).trans (.of_eq ?_)
    simp only [Relay.reciprocalScopes, product_filter, Grant.scopesFor, ha, hb, Bool.false_eq_true, if_false, if_true]
  · apply List.Perm.of_eq
    refine (reciprocalPeers_eq a b).trans ?_
    simp only [Relay.reciprocalScopes, product_filter, Grant.scopesFor, ha, hb, if_true]

/-- **The indexed loops find the pairs.** Whatever the hash and the order of its collisions, the loops call `match`
for the pairs of candidates that are reciprocal, each as often as comparing all of them does; and asked from the
other side, for the same pairs swapped. -/
theorem reciprocal_pairs_found (hash : MembershipKey → ℕ) (a b : IndexedGrant hash) :
    (a.reciprocalScopes b).Perm (Relay.reciprocalScopes a.grant b.grant) ∧
      (b.reciprocalScopes a).Perm ((a.reciprocalScopes b).map Prod.swap) := by
  refine ⟨reciprocalScopes_perm a b, ?_⟩
  have hswap := reciprocalScopes_swap a.grant b.grant
  calc (b.reciprocalScopes a).Perm (Relay.reciprocalScopes b.grant a.grant) := reciprocalScopes_perm b a
    _ |>.Perm ((Relay.reciprocalScopes a.grant b.grant).map Prod.swap) := hswap.symm
    _ |>.Perm ((a.reciprocalScopes b).map Prod.swap) := ((reciprocalScopes_perm a b).map _).symm

end IndexedGrant

end Paperboat.Relay
