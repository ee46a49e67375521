/-
Revocation of an endpoint's grants on one relay. Revoke(account, endpoint, n) is to
close the endpoint's connections of a generation below n and to keep out their grants
from then on.

`Watched` is a server together with the revocations that have returned nil. In every
run, whatever the times of its operations:

Results:
- `clear_step_iff`: an operation leaves no connection of a revoked generation exactly if
  it is allowed (`Allows`): a revocation that finds a fence of its generation or later
  finds no older connection either, and a credential of a revoked generation meets a
  fence that is still kept, or another refusal;
- `revocation_iff`: **revocation**; it holds in a run exactly if all its operations are
  allowed.

Witnesses:
- `fenced_stays_out`: a revoked grant meets a fence that is kept;
- `older_carrier_stays`: a fence of a later carrier makes Revoke return early;
- `fence_expires`: a fence ends before the grants it is to keep out.
-/
import Paperboat.Relay.Server

namespace Paperboat.Relay

open Server

/-! ## Model -/

/-- Revoke(account, endpoint, minGeneration) -/
structure Revocation where
  account : String
  endpoint : String
  minGeneration : Nat
deriving DecidableEq, Repr

/-- the grant is one of those revoked -/
def Revocation.Covers (r : Revocation) (g : Grant) : Prop :=
  (g.accountID = r.account ∧ g.endpointID = r.endpoint) ∧ g.generation < r.minGeneration

/-- a server, and what has been revoked on it -/
structure Watched where
  server : Server
  revocations : List Revocation := []

namespace Watched

variable (env : Platform) (v : Verifier)

def step (m : Watched) : RelayOp → Watched
  | .revoke account endpoint minGeneration now =>
    let (server, error) := m.server.revoke account endpoint minGeneration now
    ⟨server, if error.isNone then ⟨account, endpoint, minGeneration⟩ :: m.revocations else m.revocations⟩
  | op => { m with server := m.server.step env v op }

/-- after the operations, on a new server -/
def after (limit : Nat) (ops : List RelayOp) : Watched :=
  Machine.run (step env v) ⟨{ connectionLimit := limit }, []⟩ ops

/-- no registered connection has a revoked grant -/
def Clear (m : Watched) : Prop := ∀ r ∈ m.revocations, ∀ g, m.server.Holds g → ¬ r.Covers g

/-- a credential with a revoked grant is not admitted -/
def Refuses (m : Watched) : RelayOp → Prop
  | .authenticate leaf p ns disco tokens now instant => ∀ g, credential env v leaf tokens now = .ok g →
      (∃ r ∈ m.revocations, r.Covers g) → (m.server.authenticate env v leaf p ns disco tokens now instant).2 ≠ none
  | _ => True

/-- the operations that keep to the revocations -/
def Allows (m : Watched) : RelayOp → Prop
  | .authenticate leaf p ns disco tokens now instant => ∀ g, credential env v leaf tokens now = .ok g →
      (∃ r ∈ m.revocations, r.Covers g) →
        m.server.Fenced g now ∨ m.server.refusedOtherwise env p ns disco tokens g now instant = true
  | .revoke account endpoint minGeneration _ => revocable account endpoint minGeneration = true →
      minGeneration ≤ m.server.fenceGeneration (account ++ "\x00" ++ endpoint) →
        ∀ g, m.server.Holds g → ¬ Revocation.Covers ⟨account, endpoint, minGeneration⟩ g
  | _ => True

end Watched

/-! ## Operations -/

namespace Watched

variable {env : Platform} {v : Verifier} {m : Watched}

/-- fewer grants are held, and nothing else is revoked -/
theorem Clear.of_holds {m' : Watched} (h : m.Clear) (hrevocations : m'.revocations = m.revocations)
    (hholds : ∀ g, m'.server.Holds g → m.server.Holds g) : m'.Clear :=
  fun r hr g hg => h r (hrevocations ▸ hr) g (hholds g hg)

/-- an admission keeps to the revocations if its grant does -/
theorem clear_commit_iff (h : m.Clear) {s : Server} (hs : SameConns m.server s) (p : ConnID) (g : Grant) :
    (⟨s.commit env p g, m.revocations⟩ : Watched).Clear ↔ ∀ r ∈ m.revocations, ¬ r.Covers g := by
  constructor
  · exact fun hclear r hr => hclear r hr g (holds_commit s p g)
  · intro hg r hr g' hheld
    rcases holds_of_commit hheld with rfl | hheld
    · exact hg r hr
    · exact h r hr g' ((hs.holds g').1 hheld)

theorem clear_authenticate_iff (h : m.Clear) (leaf : Certificate) (p : ConnID) (ns disco : String)
    (tokens : List String) (now instant : ℤ) :
    (m.step env v (.authenticate leaf p ns disco tokens now instant)).Clear ↔
      m.Allows env v (.authenticate leaf p ns disco tokens now instant) := by
  change (⟨(m.server.authenticate env v leaf p ns disco tokens now instant).1, m.revocations⟩ : Watched).Clear ↔ _
  rcases authenticate_cases env v m.server leaf p ns disco tokens now instant with
    ⟨e, herror, hsame⟩ | ⟨g, g', hg, hfence, hother, hcombined, heq⟩
  · -- a refusal: the fence, or another reason
    refine ⟨fun _ g hg _ => ?_, fun _ => h.of_holds rfl fun g => (hsame.holds g).1⟩
    by_contra hnone
    simp only [not_or, Bool.not_eq_true, ← fenced_checked m.server p ns disco] at hnone
    obtain ⟨_, _, heq⟩ := authenticate_ok leaf hg hnone.1 hnone.2
    rw [heq] at herror
    cases herror
  · obtain ⟨haccount, hendpoint, hgeneration, -, -⟩ := combined_ids hcombined
    have hcovers : ∀ r : Revocation, r.Covers g' ↔ r.Covers g := fun r => by
      simp only [Revocation.Covers, haccount, hendpoint, hgeneration]
    rw [heq, clear_commit_iff h (sameConns_checked m.server p ns disco now)]
    simp only [hcovers]
    constructor
    · rintro hclear g₁ hg₁ ⟨r, hr, hcover⟩
      cases hg.symm.trans hg₁
      exact absurd hcover (hclear r hr)
    · intro hallows r hr hcover
      rcases hallows g hg ⟨r, hr, hcover⟩ with hfenced | hrefused
      · rw [← fenced_checked m.server p ns disco, hfence] at hfenced
        cases hfenced
      · cases hother.symm.trans hrefused

theorem clear_revoke_iff (h : m.Clear) (account endpoint : String) (minGeneration : Nat) (now : ℤ) :
    (m.step env v (.revoke account endpoint minGeneration now)).Clear ↔
      m.Allows env v (.revoke account endpoint minGeneration now) := by
  simp only [step, Allows]
  rcases revoke_cases m.server account endpoint minGeneration now with
    ⟨hrefused, e, heq⟩ | ⟨hargs, hfence, heq⟩ | ⟨hfence, heq⟩
  · rw [heq]
    refine ⟨fun _ hargs hfence => ?_, fun _ => h⟩
    rcases hrefused with hargs' | hfence'
    · cases hargs'.symm.trans hargs
    · exact absurd hfence hfence'
  · rw [heq]
    constructor
    · exact fun hclear _ _ g hg => hclear _ List.mem_cons_self g hg
    · intro hallows r hr g hg
      rcases List.mem_cons.1 hr with rfl | hr
      · exact hallows hargs hfence g hg
      · exact h r hr g hg
  · rw [heq]
    refine ⟨fun _ _ hfence' => absurd hfence' hfence, fun _ r hr g hg => ?_⟩
    rcases List.mem_cons.1 hr with rfl | hr
    · exact fun hcovers => holds_revoked hg hcovers.1
    · exact h r hr g ((fewer_revoked m.server account endpoint minGeneration now).holds hg)

/-- one operation -/
theorem clear_step_iff (op : RelayOp) (h : m.Clear) : (m.step env v op).Clear ↔ m.Allows env v op := by
  cases op with
  | authenticate leaf p ns disco tokens now instant => exact clear_authenticate_iff h leaf p ns disco tokens now instant
  | revoke account endpoint minGeneration now => exact clear_revoke_iff h account endpoint minGeneration now
  | setQuotaDenied accounts =>
    exact iff_of_true (h.of_holds rfl fun g => (fewer_setQuotaDenied m.server accounts).holds) trivial
  | disconnect p => exact iff_of_true (h.of_holds rfl fun g => (fewer_disconnect m.server p).holds) trivial
  | drain | close => exact iff_of_true (h.of_holds rfl fun g hg => hg) trivial
  | authorized p q now => exact iff_of_true (h.of_holds rfl fun g => holds_authorizedLocked) trivial

/-- what is allowed is not an admission of a revoked grant -/
theorem Allows.refuses {op : RelayOp} (h : m.Allows env v op) : m.Refuses env v op := by
  cases op with
  | authenticate leaf p ns disco tokens now instant =>
    intro g hg hcovers hnone
    obtain ⟨g', hg', hfence, hother⟩ := authenticate_none hnone
    cases hg.symm.trans hg'
    rcases h g hg hcovers with hfenced | hrefused
    · rw [← fenced_checked m.server p ns disco, hfence] at hfenced
      cases hfenced
    · cases hother.symm.trans hrefused
  | revoke | setQuotaDenied | disconnect | drain | close | authorized => trivial

/-- **Revocation.** In a run no registered connection ever has a grant that was revoked, and no such grant is admitted,
exactly if every operation is one that keeps to the revocations. -/
theorem revocation_iff (env : Platform) (v : Verifier) (limit : Nat) (ops : List RelayOp) :
    ((∀ pre, pre <+: ops → (after env v limit pre).Clear) ∧
      Machine.Throughout (step env v) ⟨{ connectionLimit := limit }, []⟩ (Refuses env v) ops) ↔
    Machine.Throughout (step env v) ⟨{ connectionLimit := limit }, []⟩ (Allows env v) ops := by
  have halways := Machine.always_iff_throughout (step env v) ⟨{ connectionLimit := limit }, []⟩ (I := Clear)
    (P := Allows env v) nofun (fun m op h => clear_step_iff op h) ops
  constructor
  · exact fun h => halways.1 h.1
  · exact fun h => ⟨halways.2 h, fun pre op hpre => (h pre op hpre).refuses⟩

/-- a later carrier of the endpoint, in a namespace of its own, has raised the fence to 5; Revoke(a, p, 3) returns
nil and leaves the older carrier with its grant of generation 1 -/
theorem older_carrier_stays :
    let m := after platform verifier 16
      [present 1 ["p1"] second, .authenticate leaf 2 "n" "d" ["p5"] second second, .revoke "a" "p" 3 second]
    ⟨"a", "p", 3⟩ ∈ m.revocations ∧ m.server.peers.lookup keyP = some 1 ∧ (m.server.conns 1).grant.accountID = "a" ∧
      (m.server.conns 1).grant.endpointID = "p" ∧ (m.server.conns 1).grant.generation = 1 := by
  decide +kernel

/-- the fence of a revocation ends after a minute; a grant whose issuer's clock is a minute ahead is valid for longer -/
theorem fence_expires :
    let m := after platform verifier 16 [.revoke "a" "p" 3 0, present 1 ["p1 late"] (60 * second)]
    ⟨"a", "p", 3⟩ ∈ m.revocations ∧ m.server.peers.lookup keyP = some 1 ∧
      (m.server.conns 1).grant.generation = 1 := by
  decide +kernel

/-- while the fence is kept a grant of a revoked generation stays out -/
theorem fenced_stays_out :
    (∀ pre, pre <+: [RelayOp.revoke "a" "p" 3 0, present 1 ["p1"] (30 * second)] →
      (after platform verifier 16 pre).Clear) ∧
    (after platform verifier 16 [.revoke "a" "p" 3 0, present 1 ["p1"] (30 * second)]).revocations =
      [⟨"a", "p", 3⟩] := by
  refine ⟨((revocation_iff platform verifier 16 _).2 ?_).1, by decide +kernel⟩
  rw [show [RelayOp.revoke "a" "p" 3 0, present 1 ["p1"] (30 * second)] =
    ([] ++ [RelayOp.revoke "a" "p" 3 0]) ++ [present 1 ["p1"] (30 * second)] from rfl, Machine.throughout_snoc,
    Machine.throughout_snoc]
  refine ⟨⟨fun pre op h => absurd h (by simp), fun _ h => absurd h (by decide)⟩, fun g hg _ => .inl ?_⟩
  have hcredential : credential platform verifier leaf ["p1"] (30 * second) =
      .ok { grantFor "p" keyP 1 0 [] with signedHash := "p1" } := by decide +kernel
  cases hcredential.symm.trans hg
  exact ⟨{ generation := 3, expiresAt := 60 }, by decide +kernel, by decide, by decide +kernel⟩

end Watched

end Paperboat.Relay
