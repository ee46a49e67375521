/-
The remembered pair of a connection. authorizedLocked answers from the memo when both
signed hashes are those it was made under, and only otherwise compares the grants.

Results:
- `right_iff_sound`: the answers are right exactly if no memo of two connections that
  reach each other is wrong (`Sound`);
- `sound_step_iff`: an admission keeps the memos sound exactly if the grant it leaves
  still allows every pair that is remembered under the hash of the credential
  (`PairsKept`); every other operation does;
- `authorized_iff`: **pair authorization**; in a run the answers are right at all times
  exactly if every admission is such.

Witnesses:
- `first_pair_right`: two connections are first admitted;
- `resent_part_opens`: the last part is sent again, and takes the place of the merged
  grant under the same hash.
-/
import Paperboat.Relay.Server

namespace Paperboat.Relay

namespace Server

/-! ## What is asked of the answers -/

variable (env : Platform) (v : Verifier)

/-- after the operations, on a new server -/
def after (limit : Nat) (ops : List RelayOp) : Server := Machine.run (step env v) { connectionLimit := limit } ops

/-- both are registered, in one namespace, before the drain deadline, and their grants allow each other -/
def Right (s : Server) : Prop := ∀ p q now, (s.authorizedLocked env p q now).2 = true ↔
  s.reachableLocked env p q now = true ∧ allowedAdmitted (s.conns p).grant (s.conns q).grant = true

/-- no memo of two connections that reach each other is wrong -/
def Sound (s : Server) : Prop := ∀ p q, (s.conns p).namespaceOf = (s.conns q).namespaceOf → s.registered env p = true →
  s.registered env q = true → s.remembered p q = true → allowedAdmitted (s.conns p).grant (s.conns q).grant = true

/-- the pair is remembered by either side, with this hash for `p` -/
def Recalls (s : Server) (p q : ConnID) (hash : String) : Prop :=
  (s.conns p).paired = some ⟨q, hash, (s.conns q).grant.signedHash⟩ ∨
    (s.conns q).paired = some ⟨p, (s.conns q).grant.signedHash, hash⟩

/-- `q` is registered in the namespace, and keeps its route when the key is registered there -/
def Beside (s : Server) (q : ConnID) (ns key : String) : Prop :=
  s.registered env q = true ∧ (s.conns q).namespaceOf = ns ∧
    ∀ k, (s.conns q).key = some k → env.routeKey k ns ≠ env.routeKey key ns

/-- whoever is remembered under the hash of an admitted credential is still allowed by the grant that is left -/
def PairsKept (s : Server) : RelayOp → Prop
  | .authenticate leaf p ns disco tokens now instant => ∀ g g', credential env v leaf tokens now = .ok g →
      ¬ s.Fenced g now → s.refusedOtherwise env p ns disco tokens g now instant = false →
      (s.checked p ns disco now).combined p g = .ok g' →
        (∀ q, q ≠ p → s.Beside env q ns g.wireGuardPublicKey → s.Recalls p q g.signedHash →
          allowedAdmitted g' (s.conns q).grant = true) ∧
        ((s.conns p).paired = some ⟨p, g.signedHash, g.signedHash⟩ → allowedAdmitted g' g' = true)
  | _ => True

variable {env v} {s : Server}

theorem right_iff_sound : s.Right env ↔ s.Sound env := by
  constructor
  · intro h p q hns hp hq hmemo
    -- some moment before the deadline
    have hreach : s.reachableLocked env p q (s.deadline - 1) = true := by simp [reachableLocked, hns, hp, hq]
    refine ((h p q (s.deadline - 1)).1 ?_).2
    simp [authorizedLocked, hreach, hmemo]
  · intro h p q now
    by_cases hreach : s.reachableLocked env p q now = true
    · have hparts := hreach
      simp only [reachableLocked, Bool.and_eq_true, beq_iff_eq] at hparts
      by_cases hmemo : s.remembered p q = true
      · simp [authorizedLocked, hreach, hmemo, h p q hparts.1.1.1 hparts.1.1.2 hparts.1.2 hmemo]
      · by_cases hallowed : allowedAdmitted (s.conns p).grant (s.conns q).grant = true
        all_goals simp [authorizedLocked, hreach, hmemo, hallowed]
    · simp [authorizedLocked, hreach]

/-! ## Operations -/

theorem registered_iff {p : ConnID} : s.registered env p = true ↔
    ∃ k, (s.conns p).key = some k ∧ s.peers.lookup (env.routeKey k (s.conns p).namespaceOf) = some p := by
  simp [registered, Option.any_eq_true]

theorem registered_key {p : ConnID} (h : s.registered env p = true) : (s.conns p).key.isSome := by
  obtain ⟨k, hk, -⟩ := registered_iff.1 h
  simp [hk]

variable {s' : Server}

/-- fewer registrations keep the memos sound -/
theorem Sound.fewer (h : s.Sound env) (hs : Fewer s s') : s'.Sound env := by
  have hregistered : ∀ x, s'.registered env x = true → s.registered env x = true := by
    intro x hx
    obtain ⟨k, hk, hlookup⟩ := registered_iff.1 hx
    rw [hs.conns] at hk hlookup
    exact registered_iff.2 ⟨k, hk, hs.peers _ _ hlookup⟩
  intro p q hns hp hq hmemo
  simp only [remembered, hs.conns] at hns hmemo ⊢
  exact h p q hns (hregistered p hp) (hregistered q hq) hmemo

theorem SameConns.registered (hs : SameConns s s') (p : ConnID) : s'.registered env p = s.registered env p := by
  unfold Server.registered
  rw [hs.key, hs.peers]
  cases hkey : (s.conns p).key with
  | none => rfl
  | some k => rw [hs.namespaceOf p (by simp [hkey])]

theorem Sound.sameConns (h : s.Sound env) (hs : SameConns s s') : s'.Sound env := by
  intro p q hns hp hq hmemo
  rw [hs.registered] at hp hq
  rw [hs.namespaceOf p (registered_key hp), hs.namespaceOf q (registered_key hq)] at hns
  simp only [remembered, hs.paired, hs.grant] at hmemo ⊢
  exact h p q hns hp hq hmemo

/-- a check of a pair remembers what it has found -/
theorem Sound.authorizedLocked (h : s.Sound env) (p q : ConnID) (now : ℤ) :
    (s.authorizedLocked env p q now).1.Sound env := by
  rcases authorizedLocked_cases env s p q now with heq | ⟨heq, hallowed⟩
  · rwa [heq]
  · rw [heq]
    have hkey : ∀ x, ((s.remember p q).conns x).key = (s.conns x).key := by
      intro x; rw [remember_conns]; split_ifs with hx <;> simp [hx]
    have hns : ∀ x, ((s.remember p q).conns x).namespaceOf = (s.conns x).namespaceOf := by
      intro x; rw [remember_conns]; split_ifs with hx <;> simp [hx]
    have hregistered : ∀ x, (s.remember p q).registered env x = true → s.registered env x = true := by
      intro x hx
      obtain ⟨k, hk, hlookup⟩ := registered_iff.1 hx
      rw [hkey] at hk
      rw [hns] at hlookup
      exact registered_iff.2 ⟨k, hk, hlookup⟩
    intro x y hxy hx hy hmemo
    rw [hns, hns] at hxy
    simp only [remembered, remember_grant] at hmemo ⊢
    rw [remember_conns] at hmemo
    split_ifs at hmemo with hxp
    · subst hxp
      simp only [beq_iff_eq, Option.some.injEq, PairMemo.mk.injEq] at hmemo
      rw [← hmemo.1]
      exact hallowed
    · exact h x y hxy (hregistered x hx) (hregistered y hy) hmemo

section Admission

variable {p : ConnID} {ns : String} {g g' : Grant} {t : Server}

/-- whoever else is registered after an admission was so before, on another route -/
theorem registered_of_commit {x : ConnID} (hx : x ≠ p) (h : (t.commit env p g).registered env x = true) :
    t.registered env x = true ∧ ∀ k, (t.conns x).key = some k →
      env.routeKey k (t.conns x).namespaceOf ≠ env.routeKey g.wireGuardPublicKey (t.conns p).namespaceOf := by
  obtain ⟨k, hk, hlookup⟩ := registered_iff.1 h
  rw [commit_conns, if_neg hx] at hk hlookup
  rw [lookup_commit] at hlookup
  split_ifs at hlookup with hroute
  · exact absurd (Option.some.inj hlookup).symm hx
  · refine ⟨registered_iff.2 ⟨k, hk, hlookup⟩, fun k' hk' => ?_⟩
    cases hk.symm.trans hk'
    exact hroute

theorem registered_commit {x : ConnID} (hx : x ≠ p) (hns : (t.conns p).namespaceOf = ns) :
    ((t.commit env p g).registered env x = true ∧ (t.conns x).namespaceOf = ns) ↔
      t.Beside env x ns g.wireGuardPublicKey := by
  have hconn : (t.commit env p g).conns x = t.conns x := by rw [commit_conns, if_neg hx]
  constructor
  · rintro ⟨hregistered, hxns⟩
    obtain ⟨hbefore, hroute⟩ := registered_of_commit hx hregistered
    rw [hxns, hns] at hroute
    exact ⟨hbefore, hxns, hroute⟩
  · rintro ⟨hregistered, hxns, hroute⟩
    obtain ⟨k, hk, hlookup⟩ := registered_iff.1 hregistered
    refine ⟨registered_iff.2 ⟨k, by rw [hconn, hk], ?_⟩, hxns⟩
    rw [hconn, lookup_commit, hns, if_neg (by rw [hxns]; exact hroute k hk)]
    exact hlookup

theorem registered_commit_self : (t.commit env p g).registered env p = true := by
  refine registered_iff.2 ⟨g.wireGuardPublicKey, by rw [commit_conns, if_pos rfl], ?_⟩
  rw [commit_conns, if_pos rfl, lookup_commit, if_pos rfl]

/-- an admission keeps the memos sound exactly if the new grant allows the pairs that are remembered under its hash -/
theorem sound_commit_iff (h : t.Sound env) (hns : (t.conns p).namespaceOf = ns) :
    (t.commit env p g).Sound env ↔
      (∀ q, q ≠ p → t.Beside env q ns g.wireGuardPublicKey → t.Recalls p q g.signedHash →
        allowedAdmitted g (t.conns q).grant = true) ∧
      ((t.conns p).paired = some ⟨p, g.signedHash, g.signedHash⟩ → allowedAdmitted g g = true) := by
  have hself : (t.commit env p g).conns p = { t.conns p with key := some g.wireGuardPublicKey, grant := g } := by
    rw [commit_conns, if_pos rfl]
  have hother : ∀ {x}, x ≠ p → (t.commit env p g).conns x = t.conns x := fun hx => by rw [commit_conns, if_neg hx]
  constructor
  · intro hsound
    refine ⟨fun q hq hbeside hrecalls => ?_, fun hmemo => ?_⟩
    · obtain ⟨hregistered, hqns⟩ := (registered_commit hq hns).2 hbeside
      rcases hrecalls with hmemo | hmemo
      · have := hsound p q (by rw [hself, hother hq, hqns]; exact hns) registered_commit_self hregistered
          (by simp only [remembered, hself, hother hq, hmemo, BEq.rfl])
        rwa [hself, hother hq] at this
      · have := hsound q p (by rw [hself, hother hq, hqns]; exact hns.symm) hregistered registered_commit_self
          (by simp only [remembered, hself, hother hq, hmemo, BEq.rfl])
        rw [hself, hother hq, allowedAdmitted_comm] at this
        exact this
    · have := hsound p p rfl registered_commit_self registered_commit_self
        (by simp only [remembered, hself, hmemo, BEq.rfl])
      rwa [hself] at this
  · rintro ⟨hpairs, hpp⟩ x y hxy hx hy hmemo
    simp only [remembered, beq_iff_eq] at hmemo
    -- who of the two is the connection that was admitted
    by_cases hxp : x = p
    · subst hxp
      by_cases hyp : y = x
      · subst hyp
        rw [hself] at hmemo ⊢
        exact hpp hmemo
      · rw [hself, hother hyp] at hxy hmemo ⊢
        exact hpairs y hyp ((registered_commit hyp hns).1 ⟨hy, hxy.symm.trans hns⟩) (.inl hmemo)
    · by_cases hyp : y = p
      · subst hyp
        rw [hself, hother hxp] at hxy hmemo ⊢
        rw [allowedAdmitted_comm]
        exact hpairs x hxp ((registered_commit hxp hns).1 ⟨hx, hxy.trans hns⟩) (.inr hmemo)
      · have hregistered := (registered_of_commit hxp hx).1
        have hregistered' := (registered_of_commit hyp hy).1
        rw [hother hxp, hother hyp] at hxy hmemo ⊢
        exact h x y hxy hregistered hregistered' (by simp only [remembered, hmemo, BEq.rfl])

end Admission

/-- a credential is checked in the namespace it asks for -/
theorem checked_namespace {p : ConnID} {ns disco : String} (tokens : List String) {now : ℤ}
    (h : s.malformed p ns disco tokens = none) : ((s.checked p ns disco now).conns p).namespaceOf = ns := by
  unfold malformed at h
  split_ifs at h with h1 h2 h3
  change ((s.bindNamespace p ns disco).conns p).namespaceOf = ns
  unfold bindNamespace
  split_ifs with hkey
  · simp [Function.update_self]
  · simp only [Bool.and_eq_true, Bool.or_eq_true, bne_iff_ne, ne_eq, not_and, not_or, not_not] at h3
    exact (h3 (by simpa [Option.isNone_iff_eq_none, Option.isSome_iff_ne_none] using hkey)).1

theorem SameConns.beside {t : Server} (hs : SameConns s t) (q : ConnID) (ns key : String) :
    t.Beside env q ns key ↔ s.Beside env q ns key := by
  unfold Beside
  rw [hs.registered, hs.key]
  constructor
  · rintro ⟨hq, hns, hroute⟩
    exact ⟨hq, (hs.namespaceOf q (registered_key hq)).symm.trans hns, hroute⟩
  · rintro ⟨hq, hns, hroute⟩
    exact ⟨hq, (hs.namespaceOf q (registered_key hq)).trans hns, hroute⟩

theorem SameConns.recalls {t : Server} (hs : SameConns s t) (p q : ConnID) (hash : String) :
    t.Recalls p q hash ↔ s.Recalls p q hash := by
  simp only [Recalls, hs.paired, hs.grant]

theorem sound_authenticate_iff (h : s.Sound env) (leaf : Certificate) (p : ConnID) (ns disco : String)
    (tokens : List String) (now instant : ℤ) :
    (s.step env v (.authenticate leaf p ns disco tokens now instant)).Sound env ↔
      s.PairsKept env v (.authenticate leaf p ns disco tokens now instant) := by
  change (s.authenticate env v leaf p ns disco tokens now instant).1.Sound env ↔ _
  rcases authenticate_cases env v s leaf p ns disco tokens now instant with
    ⟨e, herror, hsame⟩ | ⟨g, g', hg, hfence, hother, hcombined, heq⟩
  · refine iff_of_true (h.sameConns hsame) fun g g' hg hfence hother _ => ?_
    rw [← fenced_checked s p ns disco, Bool.not_eq_true] at hfence
    obtain ⟨_, _, heq⟩ := authenticate_ok leaf hg hfence hother
    rw [heq] at herror
    cases herror
  · have hsame := sameConns_checked s p ns disco now
    have hns : ((s.checked p ns disco now).conns p).namespaceOf = ns := by
      refine checked_namespace tokens ?_
      simp only [refusedOtherwise, Bool.or_eq_false_iff] at hother
      simpa using hother.1.1.1.1.1.1.1
    obtain ⟨-, -, -, hhash, hkey⟩ := combined_ids hcombined
    rw [heq, sound_commit_iff (h.sameConns hsame) hns, hhash, hkey]
    simp only [hsame.beside, hsame.recalls, hsame.grant, hsame.paired]
    constructor
    · intro hkept g₁ g₂ hg₁ _ _ hcombined₁
      cases hg.symm.trans hg₁
      cases hcombined.symm.trans hcombined₁
      exact hkept
    · intro hkept
      refine hkept g g' hg ?_ hother hcombined
      rw [← fenced_checked s p ns disco, hfence]
      simp

/-- an authentication remembers nothing -/
theorem paired_authenticate (s : Server) (leaf : Certificate) (p : ConnID) (ns disco : String) (tokens : List String)
    (now instant : ℤ) (q : ConnID) :
    ((s.step env v (.authenticate leaf p ns disco tokens now instant)).conns q).paired = (s.conns q).paired := by
  change ((s.authenticate env v leaf p ns disco tokens now instant).1.conns q).paired = _
  rcases authenticate_cases env v s leaf p ns disco tokens now instant with ⟨e, -, hsame⟩ | ⟨_, _, _, _, _, _, heq⟩
  · exact hsame.paired q
  · rw [heq, commit_conns]
    split_ifs with hq
    · rw [hq]
      exact (sameConns_checked s p ns disco now).paired p
    · exact (sameConns_checked s p ns disco now).paired q

/-- one operation -/
theorem sound_step_iff (op : RelayOp) (h : s.Sound env) : (s.step env v op).Sound env ↔ s.PairsKept env v op := by
  cases op with
  | authenticate leaf p ns disco tokens now instant => exact sound_authenticate_iff h leaf p ns disco tokens now instant
  | revoke account endpoint minGeneration now =>
    refine iff_of_true ?_ trivial
    change (s.revoke account endpoint minGeneration now).1.Sound env
    rcases revoke_cases s account endpoint minGeneration now with ⟨-, e, heq⟩ | ⟨-, -, heq⟩ | ⟨-, heq⟩
    · rwa [heq]
    · rwa [heq]
    · rw [heq]
      exact h.fewer (fewer_revoked s account endpoint minGeneration now)
  | setQuotaDenied accounts => exact iff_of_true (h.fewer (fewer_setQuotaDenied s accounts)) trivial
  | disconnect p => exact iff_of_true (h.fewer (fewer_disconnect s p)) trivial
  | drain | close => exact iff_of_true (h.fewer ⟨rfl, fun _ _ hp => hp⟩) trivial
  | authorized p q now => exact iff_of_true (h.authorizedLocked p q now) trivial

/-- **Pair authorization.** In a run every answer of authorizedLocked, for any two connections at any time, is what
the grants say that the two hold, exactly if every admission leaves a grant that allows the pairs remembered under
its hash. -/
theorem authorized_iff (env : Platform) (v : Verifier) (limit : Nat) (ops : List RelayOp) :
    (∀ pre, pre <+: ops → (after env v limit pre).Right env) ↔
      Machine.Throughout (step env v) { connectionLimit := limit } (PairsKept env v) ops := by
  simp only [right_iff_sound]
  exact Machine.always_iff_throughout (step env v) { connectionLimit := limit } (I := Sound env)
    (fun p q _ _ _ hmemo => absurd hmemo (by simp [remembered])) (fun s op h => sound_step_iff op h) ops

/-- nothing is remembered when two connections are first admitted -/
theorem first_pair_right :
    ∀ pre, pre <+: [present 1 ["pq"] second, present 2 ["qp"] second, RelayOp.authorized 1 2 second] →
      (after platform verifier 16 pre).Right platform := by
  refine (authorized_iff platform verifier 16 _).2 ?_
  have hnew : ∀ s : Server, (∀ q, (s.conns q).paired = none) → ∀ p tokens now,
      s.PairsKept platform verifier (present p tokens now) := by
    intro s hs p tokens now g g' _ _ _ _
    refine ⟨fun q _ _ hrecalls => ?_, fun hmemo => absurd hmemo (by simp [hs p])⟩
    rcases hrecalls with hmemo | hmemo
    · exact absurd hmemo (by simp [hs p])
    · exact absurd hmemo (by simp [hs q])
  rw [show [present 1 ["pq"] second, present 2 ["qp"] second, RelayOp.authorized 1 2 second] =
    (([] ++ [present 1 ["pq"] second]) ++ [present 2 ["qp"] second]) ++ [RelayOp.authorized 1 2 second] from rfl,
    Machine.throughout_snoc, Machine.throughout_snoc, Machine.throughout_snoc]
  refine ⟨⟨⟨fun pre op h => absurd h (by simp), hnew _ (fun _ => rfl) _ _ _⟩, hnew _ (fun q => ?_) _ _ _⟩, trivial⟩
  exact paired_authenticate { connectionLimit := 16 } leaf 1 "" "" ["pq"] second second q

/-- the first part names q and the second r; after q was found paired the second part is sent again, takes the place
of both under the same hash, and the memo still answers for q -/
theorem resent_part_opens :
    let s := after platform verifier 16 [present 1 ["pq"] second, present 1 ["pr"] second, present 2 ["qp"] second,
      .authorized 1 2 second, present 1 ["pr"] second]
    (s.authorizedLocked platform 1 2 second).2 = true ∧
      allowedAdmitted (s.conns 1).grant (s.conns 2).grant = false := by
  decide +kernel

end Server

end Paperboat.Relay
