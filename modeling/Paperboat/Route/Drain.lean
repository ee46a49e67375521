/-
Streams that outlive the generation that admitted them.

ActivateGenerationFencedRoutes and the drain timer of ActivateGeneration end streams of
the generation they supersede. A stream that survived an earlier change belongs to a
generation before that one, which neither looks at.

Results:
- `Effect.leases`: what one operation does to leases;
- `fence_ends_streams_iff`: a fence ends every stream on its routes just if those
  streams belong to the active generation;
- `timer_ends_streams_iff`: the drain leaves only streams the new rules authorize just
  if that holds already for those of the generations before the superseded one.

Witnesses:
- `shop_fence_ends_streams`, `shop_timer_ends_streams`: all streams are of the active
  generation;
- `shop_fence_leaves_stream`, `shop_timer_leaves_stream`: a stream of an earlier one is
  left.
-/
import Paperboat.Route.Lifecycle

namespace Paperboat.Route

open Machine GenerationRegistry

/-! ## Leases in one step -/

/-- leases keep their generation and match, and none is opened again -/
structure Kept (g h : GenerationRegistry) : Prop where
  nextLease : h.nextLease = g.nextLease
  state : ∀ l, (h.leases l).state = (g.leases l).state
  found : ∀ l, (h.leases l).found = (g.leases l).found
  closed : ∀ l, (h.leases l).closed = false → (g.leases l).closed = false

theorem Kept.refl (g : GenerationRegistry) : Kept g g := ⟨rfl, fun _ => rfl, fun _ => rfl, fun _ => id⟩

variable {g h : GenerationRegistry}

theorem Kept.trans {k : GenerationRegistry} (hgh : Kept g h) (hhk : Kept h k) : Kept g k :=
  ⟨hhk.1.trans hgh.1, fun l => (hhk.2 l).trans (hgh.2 l), fun l => (hhk.3 l).trans (hgh.3 l),
    fun l hl => hgh.4 l (hhk.4 l hl)⟩

/-- a registry with the same leases -/
theorem Kept.of_eq (hn : h.nextLease = g.nextLease) (hl : h.leases = g.leases) : Kept g h :=
  ⟨hn, fun l => by rw [hl], fun l => by rw [hl], fun l => by rw [hl]; exact id⟩

section

variable (g : GenerationRegistry)

theorem kept_closeLease (l : ℕ) : Kept g (g.closeLease l) := by
  unfold closeLease
  split_ifs
  · refine ⟨rfl, fun l' => ?_, fun l' => ?_, fun l' => ?_⟩
    all_goals
      by_cases hl : l' = l
      · subst hl; simp
      · simp [hl]
  · exact .refl g

theorem kept_closeLeases (ls : List ℕ) : Kept g (g.closeLeases ls) := by
  induction ls generalizing g with
  | nil => exact .refl g
  | cons l ls ih => exact (kept_closeLease g l).trans (ih (g.closeLease l))

/-- a lease that is closed with others is closed, and the rest stays as it was -/
theorem closed_closeLeases (ls : List ℕ) {l : ℕ} (hl : l < g.nextLease) :
    ((g.closeLeases ls).leases l).closed = false ↔ (g.leases l).closed = false ∧ l ∉ ls := by
  induction ls generalizing g with
  | nil => simp [closeLeases]
  | cons l' ls ih =>
    have hnext : (g.closeLease l').nextLease = g.nextLease := (kept_closeLease g l').1
    have hfirst : ((g.closeLease l').leases l).closed = false ↔ (g.leases l).closed = false ∧ l ≠ l' := by
      unfold closeLease
      split_ifs with hopen
      · by_cases hll : l = l'
        · subst hll; simp
        · simp [hll]
      · constructor
        · intro h
          exact ⟨h, fun hll => hopen ⟨hll ▸ hl, hll ▸ h⟩⟩
        · exact And.left
    have hrest := ih (g.closeLease l') (hnext ▸ hl)
    simp only [closeLeases, List.foldl_cons] at hrest ⊢
    rw [hrest, hfirst, List.mem_cons, not_or, and_assoc]

theorem kept_cancelPending : Kept g g.cancelPending := by
  unfold cancelPending
  split
  · exact .of_eq rfl rfl
  · exact .refl g

end

/-- leases after one step: those there were, and perhaps a new one of the active generation -/
structure LeaseStep (g h : GenerationRegistry) : Prop where
  nextLease : g.nextLease ≤ h.nextLease
  state : ∀ l < g.nextLease, (h.leases l).state = (g.leases l).state
  found : ∀ l < g.nextLease, (h.leases l).found = (g.leases l).found
  closed : ∀ l < g.nextLease, (h.leases l).closed = false → (g.leases l).closed = false
  new : ∀ l, g.nextLease ≤ l → l < h.nextLease → g.active = some (h.leases l).state

theorem Kept.step (hgh : Kept g h) : LeaseStep g h :=
  ⟨hgh.1.ge, fun l _ => hgh.2 l, fun l _ => hgh.3 l, fun l _ => hgh.4 l, fun l h1 h2 => by rw [hgh.1] at h2; omega⟩

theorem leaseStep_addLease {p : ℕ} (hp : g.active = some p) (m : RouteMatch) : LeaseStep g (g.addLease p m) := by
  unfold addLease
  refine ⟨Nat.le_succ _, fun l hl => ?_, fun l hl => ?_, fun l hl => ?_, fun l h1 h2 => ?_⟩
  · simp [hl.ne]
  · simp [hl.ne]
  · simp [hl.ne]
  · obtain rfl : l = g.nextLease := by
      have : l < g.nextLease + 1 := h2
      omega
    simp [hp]

theorem Effect.leases {o : Options} {op : Op} (he : Effect o g op h) : LeaseStep g h := by
  cases he with
  | nothing => exact (Kept.refl _).step
  | installs =>
    have hcancel := kept_cancelPending g
    exact Kept.step ⟨hcancel.1, hcancel.2, hcancel.3, hcancel.4⟩
  | promotes | replaces | waits => exact Kept.step (.of_eq (promote_leases _).1 (promote_leases _).2)
  | @fences _ p old ids =>
    have hkept : Kept g (fencedState g p old ids) :=
      (Kept.of_eq (promote_leases p).1 (promote_leases p).2).trans (kept_closeLeases _ _)
    split_ifs
    · exact Kept.step (hkept.trans (.of_eq rfl rfl))
    · exact hkept.step
  | forces c =>
    have hkept := kept_closeLeases g (forceDrained g c.1 (g.generations c.2).rules)
    exact Kept.step ⟨hkept.1, hkept.2, hkept.3, hkept.4⟩
  | admits m hp => exact leaseStep_addLease hp m
  | releases l => exact (kept_closeLease g l).step
  | closes =>
    unfold closeRegistry
    have hcancel := kept_cancelPending g
    split_ifs
    · exact (Kept.refl g).step
    · split
      all_goals exact Kept.step (hcancel.trans (.of_eq rfl rfl))
  | _ => exact Kept.step (.of_eq rfl rfl)

/-! ## What is left open -/

/-- every open lease of a generation numbered below `n` was admitted under a rule with `P` -/
def OpenBelow (g : GenerationRegistry) (n : ℕ) (P : RouteRule → Prop) : Prop :=
  ∀ l < g.nextLease, (g.leases l).closed = false → (g.generations (g.leases l).state).generation < n →
    P (g.leases l).found.rule

variable {was : ℕ → Prop}

/-- an open lease was admitted by a generation that has been active -/
theorem Inv.was_of_open {o : Options} (hg : Inv o was g) {l : ℕ}
    (hl : l < g.nextLease) (hopen : (g.leases l).closed = false) : was (g.leases l).state :=
  hg.was_of_mem ((hg.counted.mem _ l).2 ⟨hl, rfl, hopen⟩)

variable {o : Options}

variable {n : ℕ} {P : RouteRule → Prop}

section

variable {ops : List Op} {a : ℕ} (hbelow : OpenBelow (after o ops) n P)
  (ha : (after o ops).activeNumber = some a) (hn : n ≤ a)
include hbelow ha hn

/-- once the active number has reached `n`, no lease is admitted below it -/
theorem OpenBelow.step (op : Op) : OpenBelow (after o (ops ++ [op])) n P := by
  have hstep := (step_effect o (after o ops) op).leases
  have hinv := after_inv o ops
  obtain ⟨p, hp, rfl⟩ := Option.map_eq_some_iff.1 ha
  rw [← after_snoc] at hstep
  intro l hl hopen hlt
  rcases lt_or_ge l (after o ops).nextLease with hl' | hl'
  · have hopen' := hstep.closed l hl' hopen
    have hmade := hinv.slots.was_lt _ (hinv.was_of_open hl' hopen')
    rw [hstep.state l hl', (step_generation hmade).1] at hlt
    rw [hstep.found l hl']
    exact hbelow l hl' hopen' hlt
  · exfalso
    have hnew := hstep.new l hl' hl
    obtain rfl : p = _ := Option.some.inj (hp.symm.trans hnew)
    rw [(step_generation (hinv.slots.was_lt _ (hinv.slots.active _ hnew))).1] at hlt
    omega

theorem OpenBelow.run (more : List Op) : OpenBelow (after o (ops ++ more)) n P := by
  induction more using List.reverseRecOn with
  | nil => rwa [List.append_nil]
  | append_singleton more op ih =>
    obtain ⟨b, hb, hab⟩ := after_activeNumber ops more ha
    rw [← List.append_assoc]
    exact ih.step hb (hn.trans hab) op

end

/-! ## A fence -/

/-- the fence promotes a generation and returns without an error -/
def FencePromotes (o : Options) (ops : List Op) (ctxDone : Bool) (n : ℕ) (identities : List RouteIdentity) : Prop :=
  (perform o (after o ops) (.fence ctxDone n identities)).2 = .ok .done ∧
    (after o (ops ++ [.fence ctxDone n identities])).active ≠ (after o ops).active

/-- what a promoting fence does to leases: it closes those of the active generation that belong to its routes -/
theorem fence_effect (hg : Inv o was g) {d : Bool}
    {ids : List RouteIdentity} (hp : (step o g (.fence d n ids)).active ≠ g.active) :
    ∃ p, Promotable g n p ∧ (step o g (.fence d n ids)).active = some p ∧ Kept g (step o g (.fence d n ids)) ∧
      ∀ l < g.nextLease, ((step o g (.fence d n ids)).leases l).closed = false ↔
        (g.leases l).closed = false ∧ ¬(g.active = some (g.leases l).state ∧
          ∃ i ∈ ids, matchesRouteIdentity (g.leases l).found.rule i = true) := by
  simp only [step, perform] at hp ⊢
  rcases activateGenerationFencedRoutes_cases g d n ids with h | ⟨p, hable, ⟨ha, h⟩ | ⟨old, ha, h⟩⟩
  · exact absurd (by rw [h]) hp
  · rw [h]
    refine ⟨p, hable, promote_active p, .of_eq (promote_leases p).1 (promote_leases p).2, fun l _ => ?_⟩
    simp [ha]
  · have hactive := fencedState_active (g := g) p old ids
    have hkept : Kept g (fencedState g p old ids) :=
      (Kept.of_eq (promote_leases p).1 (promote_leases p).2).trans (kept_closeLeases _ _)
    have hfenced (l : ℕ) (hl : l < g.nextLease) : ((fencedState g p old ids).leases l).closed = false ↔
        (g.leases l).closed = false ∧ ¬(g.active = some (g.leases l).state ∧
          ∃ i ∈ ids, matchesRouteIdentity (g.leases l).found.rule i = true) := by
      rw [fencedState, closed_closeLeases _ _ ((promote_leases p).1.symm ▸ hl), (promote_leases p).2]
      refine and_congr_right fun hopen => not_congr ?_
      rw [fenced, List.mem_filter, hg.counted.mem, ha, List.any_eq_true, Option.some.injEq, eq_comm (a := old)]
      simp only [hl, hopen, true_and, and_true]
    rw [h]
    split_ifs
    · exact ⟨p, hable, hactive, hkept.trans (.of_eq rfl rfl), hfenced⟩
    · exact ⟨p, hable, hactive, hkept, hfenced⟩

/-- **Fences.** In every run, a fence that promotes its generation ends every stream on its routes that an earlier
generation admitted, and none comes back, just if each of those streams belongs to the generation active before the
fence. A stream that survived an earlier change does not. -/
theorem fence_ends_streams_iff (o : Options) (ops : List Op) (ctxDone : Bool) (n : ℕ) (identities : List RouteIdentity)
    (hfence : FencePromotes o ops ctxDone n identities) :
    (∀ more, OpenBelow (after o (ops ++ [.fence ctxDone n identities] ++ more)) n
      fun rule => ∀ i ∈ identities, matchesRouteIdentity rule i = false) ↔
    ∀ l < (after o ops).nextLease, ((after o ops).leases l).closed = false →
      (∃ i ∈ identities, matchesRouteIdentity ((after o ops).leases l).found.rule i = true) →
        (after o ops).active = some ((after o ops).leases l).state := by
  have hinv := after_inv o ops
  have hactive := hfence.2
  rw [after_snoc] at hactive
  obtain ⟨p, hable, hp, hkept, hclosed⟩ := fence_effect hinv hactive
  rw [← after_snoc] at hp hkept hclosed
  have hgen {q : ℕ} (hq : q < (after o ops).nextGeneration) :=
    (@step_generation o ops (.fence ctxDone n identities) q hq).1
  obtain ⟨hplt, hpnew⟩ := hinv.slots.pending p hable.pending
  constructor
  · -- a lease of an older generation stays open and is below the promoted number
    intro hall l hl hopen hmatch
    by_contra hne
    obtain ⟨i, hi, hmatch⟩ := hmatch
    have hbelow := hall []
    rw [List.append_nil] at hbelow
    have hwas := hinv.was_of_open hl hopen
    have hlt : ((after o (ops ++ [.fence ctxDone n identities])).generations
        ((after o (ops ++ [.fence ctxDone n identities])).leases l).state).generation < n := by
      rw [hkept.state l, hgen (hinv.slots.was_lt _ hwas), ← hable.generation]
      exact (hpnew _ hwas).2
    have hfalse := hbelow l (hkept.nextLease ▸ hl) ((hclosed l hl).2 ⟨hopen, fun h => hne h.1⟩) hlt i hi
    rw [hkept.found l, hmatch] at hfalse
    cases hfalse
  · intro hcond more
    have hnumber : (after o (ops ++ [.fence ctxDone n identities])).activeNumber = some n := by
      rw [activeNumber, hp, Option.map_some, hgen hplt, hable.generation]
    have hbelow : OpenBelow (after o (ops ++ [.fence ctxDone n identities])) n
        fun rule => ∀ i ∈ identities, matchesRouteIdentity rule i = false := by
      intro l hl hopen _ i hi
      rw [hkept.nextLease] at hl
      obtain ⟨hopen', hnot⟩ := (hclosed l hl).1 hopen
      rw [hkept.found l, ← Bool.not_eq_true]
      intro hmatch
      exact hnot ⟨hcond l hl hopen' ⟨i, hi, hmatch⟩, i, hi, hmatch⟩
    exact hbelow.run hnumber le_rfl more

/-- a request is served under generation 1 and generation 2 is ready -/
def shopBusy (rules : List RouteRule) : List Op :=
  [.stage 1 [shopRule "app" "" "a.app"], .markReady 1, .activate 1, .acquire "a.app" "", .stage 2 rules, .markReady 2]

theorem shop_fence_ends_streams : FencePromotes shop (shopBusy []) false 2 [⟨"", "", "app"⟩] ∧
    ∀ more, OpenBelow (after shop (shopBusy [] ++ [.fence false 2 [⟨"", "", "app"⟩]] ++ more)) 2
      fun rule => ∀ i ∈ [⟨"", "", "app"⟩], matchesRouteIdentity rule i = false := by
  have hfence : FencePromotes shop (shopBusy []) false 2 [⟨"", "", "app"⟩] := ⟨by decide +kernel, by decide +kernel⟩
  exact ⟨hfence, (fence_ends_streams_iff shop _ false 2 _ hfence).2 (by decide +kernel)⟩

/-- generation 2 keeps the route and was promoted by a fence for another one; generation 3 is ready -/
def shopFencedTwice : List Op :=
  shopBusy [shopRule "app" "" "a.app"] ++ [.fence false 2 [⟨"", "", "other"⟩], .stage 3 [], .markReady 3]

/-- the stream of generation 1 outlives the fence for its route -/
theorem shop_fence_leaves_stream : FencePromotes shop shopFencedTwice false 3 [⟨"", "", "app"⟩] ∧
    ¬OpenBelow (after shop (shopFencedTwice ++ [.fence false 3 [⟨"", "", "app"⟩]])) 3
      fun rule => ∀ i ∈ [⟨"", "", "app"⟩], matchesRouteIdentity rule i = false := by
  refine ⟨⟨by decide +kernel, by decide +kernel⟩, fun h => ?_⟩
  have hmatch := h 0 (by decide +kernel) (by decide +kernel) (by decide +kernel) _ (List.mem_singleton_self _)
  revert hmatch
  decide +kernel

/-! ## The drain timer -/

/-- what the timer of a waiting call does: it closes the leases of the superseded generation that the new rules
refuse -/
theorem timer_effect (hg : Inv o was g) {c : ℕ × ℕ} (hc : c ∈ g.calls) :
    Kept g (step o g (.timer c)) ∧ (step o g (.timer c)).active = g.active ∧
      ∀ l < g.nextLease, ((step o g (.timer c)).leases l).closed = false ↔
        (g.leases l).closed = false ∧ ¬((g.leases l).state = c.1 ∧
          streamSurvives (g.leases l).found.rule (g.generations c.2).rules = false) := by
  simp only [step, perform, drainTimer, if_pos hc]
  have hkept := kept_closeLeases g (forceDrained g c.1 (g.generations c.2).rules)
  refine ⟨⟨hkept.1, hkept.2, hkept.3, hkept.4⟩, closeLeases_active _, fun l hl => ?_⟩
  rw [closed_closeLeases _ _ hl]
  refine and_congr_right fun hopen => not_congr ?_
  rw [forceDrained, List.mem_filter, hg.counted.mem, Bool.not_eq_true']
  simp only [hl, hopen, true_and, and_true]

/-- **Drains.** In every run, when the timer of a waiting call of ActivateGeneration has fired, every stream left from a
generation before the promoted one is authorized by the new rules, then and later, just if the streams of generations
before the superseded one were so already. -/
theorem timer_ends_streams_iff (o : Options) (ops : List Op) (c : ℕ × ℕ) (hc : c ∈ (after o ops).calls) :
    (∀ more, OpenBelow (after o (ops ++ [.timer c] ++ more)) ((after o ops).generations c.2).generation
      fun rule => streamSurvives rule ((after o ops).generations c.2).rules = true) ↔
    OpenBelow (after o ops) ((after o ops).generations c.1).generation
      fun rule => streamSurvives rule ((after o ops).generations c.2).rules = true := by
  have hinv := after_inv o ops
  obtain ⟨hkept, hactive, hclosed⟩ := timer_effect hinv hc
  rw [← after_snoc] at hkept hactive hclosed
  obtain ⟨hold, hnew, hlt, hbetween⟩ := hinv.slots.calls c hc
  have hgen {q : ℕ} (hq : q < (after o ops).nextGeneration) := (@step_generation o ops (.timer c) q hq).1
  have horder := hinv.slots.order c.1 c.2 hold hnew hlt
  constructor
  · intro hall l hl hopen hbelow
    have hall := hall []
    rw [List.append_nil] at hall
    have hwas := hinv.was_of_open hl hopen
    rw [← hkept.found l]
    refine hall l (hkept.nextLease ▸ hl) ((hclosed l hl).2 ⟨hopen, fun h => ?_⟩) ?_
    · rw [h.1] at hbelow
      exact hbelow.false
    · rw [hkept.state l, hgen (hinv.slots.was_lt _ hwas)]
      exact hbelow.trans horder
  · intro hcond more
    obtain ⟨p, hp, hle⟩ := hinv.slots.latest c.2 hnew
    have hnumber : (after o (ops ++ [.timer c])).activeNumber = some ((after o ops).generations p).generation := by
      rw [activeNumber, hactive, hp, Option.map_some, hgen (hinv.slots.was_lt _ (hinv.slots.active p hp))]
    have hreached : ((after o ops).generations c.2).generation ≤ ((after o ops).generations p).generation := by
      rcases hle.lt_or_eq with hlt | heq
      · exact (hinv.slots.order c.2 p hnew (hinv.slots.active p hp) hlt).le
      · rw [heq]
    have hbelow : OpenBelow (after o (ops ++ [.timer c])) ((after o ops).generations c.2).generation
        fun rule => streamSurvives rule ((after o ops).generations c.2).rules = true := by
      intro l hl hopen hnum
      rw [hkept.nextLease] at hl
      obtain ⟨hopen', hnot⟩ := (hclosed l hl).1 hopen
      have hwas := hinv.was_of_open hl hopen'
      rw [hkept.state l, hgen (hinv.slots.was_lt _ hwas)] at hnum
      rw [hkept.found l]
      by_cases heq : ((after o ops).leases l).state = c.1
      · rw [← Bool.not_eq_false]
        exact fun h => hnot ⟨heq, h⟩
      · -- no generation was active between the two of the call
        refine hcond l hl hopen' (hinv.slots.order _ _ hwas hold ?_)
        have hpast : ((after o ops).leases l).state < c.2 := by
          rcases lt_trichotomy ((after o ops).leases l).state c.2 with h | h | h
          · exact h
          · rw [h] at hnum; exact absurd hnum (lt_irrefl _)
          · exact absurd (hinv.slots.order _ _ hnew hwas h) hnum.not_gt
        exact lt_of_le_of_ne (hbetween _ hwas hpast) heq
    exact hbelow.run hnumber hreached more

theorem shop_timer_ends_streams : (0, 1) ∈ (after shop (shopBusy [] ++ [.activate 2])).calls ∧
    ∀ more, OpenBelow (after shop (shopBusy [] ++ [.activate 2] ++ [.timer (0, 1)] ++ more)) 2
      fun rule => streamSurvives rule [] = true := by
  have hcall : (0, 1) ∈ (after shop (shopBusy [] ++ [.activate 2])).calls := by decide +kernel
  have hends := (timer_ends_streams_iff shop _ (0, 1) hcall).2 fun l hl _ hlt => ?_
  · exact ⟨hcall, hends⟩
  · revert hlt
    revert l
    decide +kernel

/-- generation 2 keeps the route: the stream of generation 1 survives, another comes, and generation 3 has no route -/
def shopDrainedTwice : List Op :=
  shopBusy [shopRule "app" "" "a.app"] ++
    [.activate 2, .timer (0, 1), .acquire "a.app" "", .stage 3 [], .markReady 3, .activate 3]

/-- the stream of generation 1 outlives the drain for a generation without its route -/
theorem shop_timer_leaves_stream : (1, 2) ∈ (after shop shopDrainedTwice).calls ∧
    ((after shop shopDrainedTwice).generations 2).generation = 3 ∧
      ((after shop shopDrainedTwice).generations 2).rules = [] ∧
    ¬OpenBelow (after shop (shopDrainedTwice ++ [.timer (1, 2)])) 3 fun rule => streamSurvives rule [] = true := by
  refine ⟨by decide +kernel, by decide +kernel, by decide +kernel, fun h => ?_⟩
  have hsurvives := h 0 (by decide +kernel) (by decide +kernel) (by decide +kernel)
  revert hsurvives
  decide +kernel

end Paperboat.Route
