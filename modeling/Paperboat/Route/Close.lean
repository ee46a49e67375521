/-
Closing a generation registry.

Close marks the registry closed, which refuses every later generation, and cancels the
pending and the active one. Requests are admitted by the active generation, which stays
accepting, and a draining generation is not cancelled.

Results:
- `Effect.closed`, `closed_run`: a closed registry stays closed and keeps its active
  generation;
- `close_ends_requests_iff`: Close ends requests just if no generation is active.

Witnesses:
- `close_before_activation`: a generation is pending;
- `shop_close_serves`: a closed registry that serves, with a stream of a draining
  generation left.
-/
import Paperboat.Route.Drain

namespace Paperboat.Route

open Machine GenerationRegistry

def GenerationRegistry.hasActiveGeneration (g : GenerationRegistry) : Bool := g.acceptor.isSome

/-- the lease is closed, or will be by the goroutine that waits for the context of its generation -/
def GenerationRegistry.leaseCancelled (g : GenerationRegistry) (l : ℕ) : Bool :=
  (g.leases l).closed || (g.generations (g.leases l).state).cancelled

/-- nothing is admitted and each of the first `issued` leases is cancelled -/
structure Ended (o : Options) (issued : ℕ) (g : GenerationRegistry) : Prop where
  match_fails : ∀ host path, (matchRoute o g host path).isOk = false
  acquire_fails : ∀ host path, (acquire o g host path).2.isOk = false
  inactive : g.hasActiveGeneration = false
  cancelled : ∀ l < issued, g.leaseCancelled l = true

variable {o : Options} {g : GenerationRegistry}

theorem closeLeases_closed (ls : List ℕ) : (g.closeLeases ls).closed = g.closed := by
  refine closeLeases_keeps closed (fun g l => ?_) ls
  unfold closeLease
  split_ifs <;> rfl

/-- a closed registry stays closed, and nothing is promoted any more -/
theorem Effect.closed {h : GenerationRegistry} {op : Op} (he : Effect o g op h) (hg : g.closed = true) :
    h.closed = true ∧ h.active = g.active := by
  have hpromotes {n p : ℕ} (hp : Promotable g n p) : False := by
    have hopened := hp.opened
    rw [hg] at hopened
    cases hopened
  refine ⟨?_, he.active.resolve_right fun ⟨n, p, hp, _⟩ => hpromotes hp⟩
  cases he with
  | installs =>
    unfold install cancelPending
    split <;> exact hg
  | promotes hp | replaces hp | waits hp | fences _ hp => exact (hpromotes hp).elim
  | forces c => exact (closeLeases_closed _).trans hg
  | releases l => exact (closeLeases_closed [l]).trans hg
  | closes => rwa [closeRegistry, if_pos hg]
  | _ => exact hg

theorem closed_run {ops : List Op} (hclosed : (after o ops).closed = true) (more : List Op) :
    (after o (ops ++ more)).closed = true ∧ (after o (ops ++ more)).active = (after o ops).active := by
  induction more using List.reverseRecOn with
  | nil => rw [List.append_nil]; exact ⟨hclosed, rfl⟩
  | append_singleton more op ih =>
    have hstep := (step_effect o _ op).closed ih.1
    rw [← List.append_assoc, after_snoc]
    exact ⟨hstep.1, hstep.2.trans ih.2⟩

theorem closeRegistry_closed (g : GenerationRegistry) :
    (closeRegistry g).closed = true ∧ (closeRegistry g).active = g.active := by
  unfold closeRegistry
  split_ifs with hc
  · exact ⟨hc, rfl⟩
  · cases hp : g.active with
    | none | some => exact ⟨rfl, cancelPending_active.trans hp⟩

theorem nextLease_le (o : Options) (ops more : List Op) :
    (after o ops).nextLease ≤ (after o (ops ++ more)).nextLease := by
  induction more using List.reverseRecOn with
  | nil => rw [List.append_nil]
  | append_singleton more op ih =>
    rw [← List.append_assoc, after_snoc]
    exact ih.trans (step_effect o _ op).leases.nextLease

theorem ended_of_inactive {ops : List Op} (h : (after o ops).active = none) {issued : ℕ}
    (hissued : issued ≤ (after o ops).nextLease) : Ended o issued (after o ops) := by
  have hacceptor : (after o ops).acceptor = none := by rw [acceptor, h]
  have hfind (host path : String) : findRule o (after o ops) host path = .error .noMatch := by
    unfold findRule
    split
    · rw [hacceptor]
    · rfl
  refine ⟨fun host path => ?_, fun host path => ?_, ?_, fun l hl => ?_⟩
  · rw [matchRoute, hfind]
    rfl
  · rw [acquire, hfind]
    rfl
  · rw [hasActiveGeneration, hacceptor]
    rfl
  · -- an open lease belongs to a generation that was active, and then one still is
    by_contra hopen
    have hinv := after_inv o ops
    have hopen : ((after o ops).leases l).closed = false := by
      simp only [leaseCancelled, Bool.or_eq_true, not_or, Bool.not_eq_true] at hopen
      exact hopen.1
    obtain ⟨p, hp, _⟩ := hinv.slots.latest _ (hinv.was_of_open (hl.trans_le hissued) hopen)
    rw [h] at hp
    cases hp

/-- **Close.** In every run, after Close no request is ever admitted, no generation is active and every lease handed out
before is cancelled, just if no generation was active when it was called. -/
theorem close_ends_requests_iff (o : Options) (ops : List Op) :
    (∀ more, Ended o (after o ops).nextLease (after o (ops ++ [.close] ++ more))) ↔ (after o ops).active = none := by
  have hclose := closeRegistry_closed (after o ops)
  have hafter : after o (ops ++ [.close]) = closeRegistry (after o ops) := after_snoc o ops .close
  rw [← hafter] at hclose
  constructor
  · intro hall
    have hended := (hall []).inactive
    rw [List.append_nil] at hended
    cases hp : (after o ops).active with
    | none => rfl
    | some p =>
      have hactive := hclose.2.trans hp
      have haccepting := ((after_inv o (ops ++ [.close])).slots.accepting p).2 hactive
      rw [hasActiveGeneration, acceptor, hactive] at hended
      simp only [haccepting, if_true, Option.isSome_some] at hended
      cases hended
  · intro hnone more
    have hrun := closed_run hclose.1 more
    have hissued := (nextLease_le o ops [.close]).trans (nextLease_le o (ops ++ [.close]) more)
    exact ended_of_inactive (hrun.2.trans (hclose.2.trans hnone)) hissued

theorem close_before_activation :
    (after shop [.stage 1 [], .markReady 1]).active = none ∧
      ∀ more, Ended shop 0 (after shop ([.stage 1 [], .markReady 1] ++ [.close] ++ more)) :=
  ⟨by decide +kernel, (close_ends_requests_iff shop [.stage 1 [], .markReady 1]).2 (by decide +kernel)⟩

/-- generation 2 keeps the route: the stream of generation 1 survives the timer -/
def shopKept : List Op := shopBusy [shopRule "app" "" "a.app"] ++ [.activate 2, .timer (0, 1)]

/-- the closed registry matches and admits requests, and the stream of generation 1 is not cancelled -/
theorem shop_close_serves :
    ¬(∀ more, Ended shop (after shop shopKept).nextLease (after shop (shopKept ++ [.close] ++ more))) ∧
      (after shop (shopKept ++ [.close])).closed = true ∧
      (matchRoute shop (after shop (shopKept ++ [.close])) "a.app" "").isOk = true ∧
      (acquire shop (after shop (shopKept ++ [.close])) "a.app" "").2 = .ok (.lease 1) ∧
      (after shop (shopKept ++ [.close])).hasActiveGeneration = true ∧
      (after shop (shopKept ++ [.close])).leaseCancelled 0 = false := by
  have hserves : (after shop (shopKept ++ [.close])).closed = true ∧
      (matchRoute shop (after shop (shopKept ++ [.close])) "a.app" "").isOk = true ∧
      (acquire shop (after shop (shopKept ++ [.close])) "a.app" "").2 = .ok (.lease 1) ∧
      (after shop (shopKept ++ [.close])).hasActiveGeneration = true ∧
      (after shop (shopKept ++ [.close])).leaseCancelled 0 = false := by decide +kernel
  refine ⟨fun hall => ?_, hserves⟩
  have hinactive := (hall []).inactive
  cases hinactive

end Paperboat.Route
