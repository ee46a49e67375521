/-
The life of route generations in every run of the registry.

Results:
- `Effect`, `step_effect`: what each operation can do;
- `Effect.inv`, `after_inv`: every step keeps the invariant, so it holds in every run;
- `History`: every generation was staged, every ready one was marked so;
- `registry_lifecycle`: what that says about the active generation, the pending one, the
  streams and the drains.

Witnesses:
- `shopRun_lifecycle`: two generations, and a stream of the first.
-/
import Paperboat.Route.Admission
import Paperboat.Route.Invariant

namespace Paperboat.Route

open Machine GenerationRegistry GenerationState

section

variable {o : Options} {was : ℕ → Prop} {g h : GenerationRegistry}

/-! ## What an operation can do -/

variable (o g)

/-- the pending generation is ready to take over under the number -/
structure Promotable (n p : ℕ) : Prop where
  opened : g.closed = false
  pending : g.pending = some p
  generation : (g.generations p).generation = n
  ready : (g.generations p).ready = true

/-- the state after a fence that supersedes `old` -/
def fencedState (p old : ℕ) (identities : List RouteIdentity) : GenerationRegistry :=
  (g.promote p).closeLeases (fenced g old identities)

inductive Effect (op : Op) : GenerationRegistry → Prop
  | nothing : Effect op g
  | installs {n : ℕ} {rules result : List RouteRule} (hop : op = .stage n rules)
    (hresult : normalizeRules o.u o.toASCII n rules o.maximumRoutes = .ok result)
    (hn : ∀ p, g.active = some p → (g.generations p).generation < n)
    (h : perform o g op = (g.install n result, .ok .done)) : Effect op (g.install n result)
  | marks {n p : ℕ} (hop : op = .markReady n) (hp : g.pending = some p) (hn : (g.generations p).generation = n)
    (h : perform o g op = (g.update p .markReady, .ok .done)) : Effect op (g.update p .markReady)
  | promotes {n p : ℕ} (hp : Promotable g n p) (ha : g.active = none) : Effect op (g.promote p)
  | replaces {n p old : ℕ} (hp : Promotable g n p) (ha : g.active = some old) (hs : (g.generations old).streams = 0) :
    Effect op ((g.promote p).update old .markDrained)
  | waits {n p old : ℕ} (hp : Promotable g n p) (ha : g.active = some old) (hs : (g.generations old).streams ≠ 0) :
    Effect op { g.promote p with calls := g.calls ++ [(old, p)] }
  | fences {n p old : ℕ} (ids : List RouteIdentity) (hp : Promotable g n p) (ha : g.active = some old) :
    Effect op (if ((fencedState g p old ids).generations old).streams = 0 then
      (fencedState g p old ids).update old .markDrained else fencedState g p old ids)
  | returns (c : ℕ × ℕ) : Effect op { g with calls := g.calls.erase c }
  | cancels (c : ℕ × ℕ) : Effect op { g.update c.1 .cancel with calls := g.calls.erase c }
  | forces (c : ℕ × ℕ) :
    Effect op { g.closeLeases (forceDrained g c.1 (g.generations c.2).rules) with calls := g.calls.erase c }
  | discards (p : ℕ) : Effect op { g.update p .cancel with pending := none }
  | admits {p : ℕ} (m : RouteMatch) (hp : g.active = some p) (hs : (g.generations p).streams < o.maximumStreams) :
    Effect op (g.addLease p m)
  | releases (l : ℕ) : Effect op (g.closeLease l)
  | closes : Effect op (closeRegistry g)

theorem stageGeneration_effect (n : ℕ) (rules : List RouteRule) :
    Effect o g (.stage n rules) (stageGeneration o g n rules).1 := by
  generalize hr : stageGeneration o g n rules = r
  have hperform : perform o g (.stage n rules) = r := hr
  unfold stageGeneration at hr
  cases hresult : normalizeRules o.u o.toASCII n rules o.maximumRoutes with
  | error e =>
    simp only [hresult] at hr
    split_ifs at hr <;> exact hr ▸ .nothing
  | ok result =>
    simp only [hresult] at hr
    split_ifs at hr
    any_goals exact hr ▸ .nothing
    split at hr
    any_goals exact hr ▸ .nothing
    rename_i hs _
    subst hr
    refine .installs rfl hresult (fun p hp => ?_) hperform
    rw [hp] at hs
    simp only [stageAgainst, Option.map_some] at hs
    split_ifs at hs
    omega

theorem markGenerationReady_effect (n : ℕ) : Effect o g (.markReady n) (markGenerationReady g n).1 := by
  generalize hr : markGenerationReady g n = r
  have hperform : perform o g (.markReady n) = r := hr
  unfold markGenerationReady at hr
  cases hp : g.pending with
  | none =>
    simp only [hp] at hr
    split_ifs at hr <;> exact hr ▸ .nothing
  | some p =>
    simp only [hp] at hr
    split_ifs at hr with _ _ hn
    any_goals exact hr ▸ .nothing
    subst hr
    exact .marks rfl hp hn hperform

theorem activateGeneration_effect (n : ℕ) : Effect o g (.activate n) (activateGeneration g n).1 := by
  generalize hr : activateGeneration g n = r
  unfold activateGeneration at hr
  cases hp : g.pending with
  | none =>
    simp only [hp] at hr
    split_ifs at hr <;> exact hr ▸ .nothing
  | some p =>
    simp only [hp] at hr
    split_ifs at hr with hc _ hn hready
    any_goals exact hr ▸ .nothing
    have hable : Promotable g n p := ⟨by simpa using hc, hp, hn, by simpa using hready⟩
    cases ha : g.active with
    | none =>
      rw [ha] at hr
      exact hr ▸ .promotes hable ha
    | some old =>
      simp only [ha] at hr
      split_ifs at hr with hs
      · exact hr ▸ .replaces hable ha hs
      · exact hr ▸ .waits hable ha hs

theorem activateGenerationFencedRoutes_cases (ctxDone : Bool) (n : ℕ) (identities : List RouteIdentity) :
    (activateGenerationFencedRoutes g ctxDone n identities).1 = g ∨ ∃ p, Promotable g n p ∧
      ((g.active = none ∧ activateGenerationFencedRoutes g ctxDone n identities = (g.promote p, .ok .done)) ∨
      ∃ old, g.active = some old ∧ activateGenerationFencedRoutes g ctxDone n identities =
        (if ((fencedState g p old identities).generations old).streams = 0 then
          (fencedState g p old identities).update old .markDrained else fencedState g p old identities,
            .ok .done)) := by
  generalize hr : activateGenerationFencedRoutes g ctxDone n identities = r
  unfold activateGenerationFencedRoutes at hr
  cases hp : g.pending with
  | none =>
    simp only [hp] at hr
    split_ifs at hr <;> exact .inl (hr ▸ rfl)
  | some p =>
    simp only [hp] at hr
    split_ifs at hr with _ _ hc _ hn
    any_goals exact .inl (hr ▸ rfl)
    rw [not_or, not_not] at hn
    refine .inr ⟨p, ⟨by simpa using hc, hp, hn.1, by simpa using hn.2⟩, ?_⟩
    cases ha : g.active with
    | none =>
      rw [ha] at hr
      exact .inl ⟨rfl, hr.symm⟩
    | some old =>
      rw [ha] at hr
      exact .inr ⟨old, rfl, hr.symm⟩

theorem acquire_effect (host path : String) : Effect o g (.acquire host path) (acquire o g host path).1 := by
  unfold acquire
  cases hf : findRule o g host path with
  | error e => exact .nothing
  | ok found =>
    obtain ⟨p, m⟩ := found
    dsimp only
    split_ifs with hs
    · exact .nothing
    · refine .admits m ?_ (by omega)
      unfold findRule at hf
      split at hf
      · split at hf
        · cases hf
        · rename_i q hq
          split at hf
          · cases hf
          · obtain ⟨rfl, _⟩ := Prod.mk.inj (Except.ok.inj hf)
            unfold acceptor at hq
            split at hq
            · rename_i r hr
              split_ifs at hq
              rw [hr, hq]
            · cases hq
      · cases hf

/-- **What one operation can do.** -/
theorem step_effect (op : Op) : Effect o g op (step o g op) := by
  unfold step
  cases op with
  | stage n rules => exact stageGeneration_effect o g n rules
  | markReady n => exact markGenerationReady_effect o g n
  | activate n => exact activateGeneration_effect o g n
  | drained c =>
    simp only [perform, drainDone]
    split_ifs
    · exact .returns c
    · exact .nothing
  | cancelled c =>
    simp only [perform, drainCancelled]
    split_ifs
    · exact .cancels c
    · exact .nothing
  | timer c =>
    simp only [perform, drainTimer]
    by_cases hc : c ∈ g.calls
    · rw [if_pos hc]
      exact .forces c
    · rw [if_neg hc]
      exact .nothing
  | fence d n ids =>
    simp only [perform]
    rcases activateGenerationFencedRoutes_cases g d n ids with h | ⟨p, hp, ⟨ha, h⟩ | ⟨old, ha, h⟩⟩ <;> rw [h]
    · exact .nothing
    · exact .promotes hp ha
    · exact .fences ids hp ha
  | discard n =>
    simp only [perform, discardPending]
    split
    · split_ifs
      · exact .discards _
      · exact .nothing
    · exact .nothing
  | acquire host path => exact acquire_effect o g host path
  | closeLease l => exact .releases l
  | close => exact .closes

variable {o g}

/-! ## Every step keeps the invariant -/

/-- nothing new has become active -/
theorem Inv.keep (hg : Inv o was g) : Inv o (fun p => was p ∨ g.active = some p) g := by
  have hsame : (fun p => was p ∨ g.active = some p) = was := by
    funext p
    exact propext ⟨fun h => h.elim id (hg.slots.active p), .inl⟩
  rw [hsame]
  exact hg

/-- the generation has become active -/
theorem Inv.became {p : ℕ} (hg : Inv o (fun q => was q ∨ q = p) g) (ha : g.active = some p) :
    Inv o (fun q => was q ∨ g.active = some q) g := by
  have hsame : (fun q => was q ∨ g.active = some q) = fun q => was q ∨ q = p := by
    funext q
    rw [ha, Option.some.injEq, eq_comm (a := p)]
  rw [hsame]
  exact hg

/-- a new pending generation has a number above all that have been active -/
theorem Slots.above (hg : Slots was g) {n : ℕ} (hn : ∀ p, g.active = some p → (g.generations p).generation < n) (q : ℕ)
    (hq : was q) : (g.generations q).generation < n := by
  obtain ⟨p, hp, hle⟩ := hg.latest q hq
  rcases hle.lt_or_eq with hlt | rfl
  · exact (hg.order q p hq (hg.active p hp) hlt).trans (hn p hp)
  · exact hn q hp

/-- promotion that leaves no call waiting -/
theorem Inv.promote_quiet (hg : Inv o was g) {n p : ℕ} (hp : Promotable g n p)
    (hstreams : ∀ q, g.active = some q → (g.generations q).streams ≠ 0) :
    Inv o (fun q => was q ∨ q = p) (g.promote p) :=
  @Inv.promote o was g p (g.promote p).calls hg hp.pending hp.opened hstreams fun c hc => .inl (by simpa using hc)

theorem fencedState_active (p old : ℕ) (identities : List RouteIdentity) :
    (fencedState g p old identities).active = some p := by
  rw [fencedState, closeLeases_active, promote_active]

theorem Inv.fence (hg : Inv o was g) {n p old : ℕ} (hp : Promotable g n p) (ha : g.active = some old)
    (ids : List RouteIdentity) : Inv o (fun q => was q ∨ q = p)
      (if ((fencedState g p old ids).generations old).streams = 0 then (fencedState g p old ids).update old .markDrained
        else fencedState g p old ids) := by
  have hold : was old := hg.slots.active old ha
  have hne : (some p : Option ℕ) ≠ some old := fun h => by
    have := ((hg.slots.pending p hp.pending).2 old hold).1
    rw [Option.some.inj h] at this
    omega
  by_cases hs : (g.generations old).streams = 0
  · have hempty : fenced g old ids = [] := by
      rw [fenced, (hg.streams_eq_zero old).1 hs, List.filter_nil]
    have hstate : fencedState g p old ids = g.promote p := by rw [fencedState, hempty]; rfl
    rw [hstate, promote_generations]
    simp only [hs, if_true]
    exact hg.promote_drained hp.pending ha hs
  · have hclosed : Inv o (fun q => was q ∨ q = p) (fencedState g p old ids) := by
      refine (hg.promote_quiet hp fun q hq => ?_).closeLeases _
      obtain rfl : old = q := Option.some.inj (ha.symm.trans hq)
      exact hs
    split_ifs with hzero
    · exact hclosed.markDrained (.inl hold) (fencedState_active p old ids ▸ hne) hzero
    · exact hclosed

variable {op : Op}

/-- **One step.** Every operation keeps the invariant; what is active afterwards joins the generations that have
been. -/
theorem Effect.inv (he : Effect o g op h) (hg : Inv o was g) : Inv o (fun p => was p ∨ h.active = some p) h := by
  cases he with
  | nothing => exact hg.keep
  | installs _ _ hn _ => exact (hg.install _ (hg.slots.above hn)).keep
  | @marks _ p _ _ _ _ =>
    exact (hg.update p .markReady (fun _ => rfl) (fun _ => rfl) (fun _ => rfl) (fun _ => rfl) fun _ => rfl).keep
  | promotes hp ha =>
    refine (hg.promote_quiet hp fun q hq => ?_).became (promote_active _)
    rw [ha] at hq
    cases hq
  | replaces hp ha hs => exact (hg.promote_drained hp.pending ha hs).became (promote_active _)
  | waits hp ha hs =>
    refine (hg.promote hp.pending hp.opened (fun q hq => ?_) fun c hc => ?_).became (promote_active _)
    · cases ha.symm.trans hq
      exact hs
    · rcases mem_snoc.1 hc with hc | rfl
      · exact .inl hc
      · exact .inr ⟨ha, rfl⟩
  | fences ids hp ha =>
    refine (hg.fence hp ha ids).became ?_
    split_ifs <;> exact fencedState_active _ _ ids
  | returns c => exact (hg.eraseCall c).keep
  | cancels c => exact ((hg.cancel c.1).eraseCall c).keep
  | forces c =>
    have hclosed := hg.closeLeases (forceDrained g c.1 (g.generations c.2).rules)
    have hcalls := closeLeases_keeps (g := g) calls (fun g l => (closeLease_slots g l).2.2.2)
      (forceDrained g c.1 (g.generations c.2).rules)
    exact (hcalls ▸ hclosed.eraseCall c).keep
  | discards p => exact (hg.cancel p).dropPending.keep
  | admits m hp hs => exact (hg.addLease hp hs m).keep
  | releases l => exact (hg.closeLease l).keep
  | closes => exact hg.close.keep

/-! ## What a generation is made of -/

/-- what a generation is, apart from its streams -/
def GenerationState.contents (s : GenerationState) : ℕ × List RouteRule × Bool := (s.generation, s.rules, s.ready)

/-- the same generations, whatever became of their streams -/
structure SameContents (g h : GenerationRegistry) : Prop where
  nextGeneration : h.nextGeneration = g.nextGeneration
  contents : ∀ p, (h.generations p).contents = (g.generations p).contents

theorem SameContents.refl (g : GenerationRegistry) : SameContents g g := ⟨rfl, fun _ => rfl⟩

theorem SameContents.trans {k : GenerationRegistry} (hgh : SameContents g h) (hhk : SameContents h k) :
    SameContents g k :=
  ⟨hhk.1.trans hgh.1, fun p => (hhk.2 p).trans (hgh.2 p)⟩

variable (g : GenerationRegistry)

theorem sameContents_update (p : ℕ) (f : GenerationState → GenerationState)
    (hf : ∀ s, (f s).contents = s.contents) : SameContents g (g.update p f) := ⟨rfl, update_keeps _ f hf p⟩

theorem sameContents_promote (p : ℕ) : SameContents g (g.promote p) :=
  ⟨(promote_slots p).2.1, fun q => by rw [promote_generations]; rfl⟩

theorem sameContents_closeLeases (ls : List ℕ) : SameContents g (g.closeLeases ls) := by
  refine ⟨closeLeases_keeps nextGeneration (fun g l => (closeLease_slots g l).2.2.1) ls, fun p => ?_⟩
  refine closeLeases_keeps (fun g => (g.generations p).contents) (fun g l => ?_) ls
  exact closeLease_keeps contents (fun s l => by rw [release_eq]; rfl) l p

theorem sameContents_addLease (p : ℕ) (m : RouteMatch) : SameContents g (g.addLease p m) := by
  refine ⟨rfl, fun q => ?_⟩
  simp only [addLease, generations_update]
  split_ifs <;> rfl

theorem sameContents_cancelPending : SameContents g g.cancelPending := by
  unfold cancelPending
  split
  · exact sameContents_update g _ .cancel fun _ => rfl
  · exact .refl g

variable {g}

/-- only StageGeneration makes a generation and only MarkGenerationReady changes what one is made of -/
theorem Effect.contents (he : Effect o g op h) : SameContents g h ∨
      (∃ n rules result, op = .stage n rules ∧ perform o g op = (g.install n result, .ok .done)) ∨
      ∃ n p, op = .markReady n ∧ g.pending = some p ∧ (g.generations p).generation = n ∧
        perform o g op = (g.update p .markReady, .ok .done) := by
  cases he with
  | nothing => exact .inl (.refl _)
  | installs hop _ _ h => exact .inr (.inl ⟨_, _, _, hop, h⟩)
  | marks hop hp hn h => exact .inr (.inr ⟨_, _, hop, hp, hn, h⟩)
  | @promotes _ p => exact .inl (sameContents_promote g p)
  | @replaces _ p old =>
    exact .inl ((sameContents_promote g p).trans (sameContents_update _ old .markDrained fun _ => rfl))
  | @waits _ p => exact .inl ⟨(promote_slots p).2.1, (sameContents_promote g p).2⟩
  | @fences _ p old ids =>
    have hfenced : SameContents g (fencedState g p old ids) :=
      (sameContents_promote g p).trans (sameContents_closeLeases _ _)
    split_ifs
    · exact .inl (hfenced.trans (sameContents_update _ old .markDrained fun _ => rfl))
    · exact .inl hfenced
  | returns c => exact .inl ⟨rfl, fun _ => rfl⟩
  | cancels c => exact .inl ⟨rfl, (sameContents_update g c.1 .cancel fun _ => rfl).2⟩
  | forces c => exact .inl ⟨(sameContents_closeLeases g _).1, (sameContents_closeLeases g _).2⟩
  | discards p => exact .inl ⟨rfl, (sameContents_update g p .cancel fun _ => rfl).2⟩
  | @admits p m => exact .inl (sameContents_addLease g p m)
  | releases l => exact .inl (sameContents_closeLeases g [l])
  | closes =>
    left
    unfold closeRegistry
    have hc := sameContents_cancelPending g
    split_ifs
    · exact .refl g
    · split
      · exact ⟨hc.1, (hc.trans (sameContents_update _ _ .markDrained fun _ => rfl)).2⟩
      · exact ⟨hc.1, hc.2⟩

/-- only a ready pending generation becomes the active one -/
theorem Effect.active (he : Effect o g op h) : h.active = g.active ∨ ∃ n p, Promotable g n p ∧ h.active = some p := by
  cases he with
  | installs => exact .inl cancelPending_active
  | promotes hp | replaces hp | waits hp => exact .inr ⟨_, _, hp, promote_active _⟩
  | fences ids hp =>
    refine .inr ⟨_, _, hp, ?_⟩
    split_ifs <;> exact fencedState_active _ _ ids
  | forces c => exact .inl (closeLeases_active _)
  | releases l => exact .inl (closeLease_slots g l).1
  | closes =>
    left
    unfold closeRegistry
    split_ifs
    · rfl
    · split <;> exact cancelPending_active
  | _ => exact .inl rfl

end

/-! ## Runs -/

section

variable (o : Options)

/-- the generation is the active one at some point of the run -/
def Activated (ops : List Op) (p : ℕ) : Prop := Sometime (fun pre => (after o pre).active = some p) ops

/-- the generation has been the active one and no longer is -/
def Superseded (ops : List Op) (p : ℕ) : Prop := Activated o ops p ∧ (after o ops).active ≠ some p

theorem after_snoc (ops : List Op) (op : Op) : after o (ops ++ [op]) = step o (after o ops) op := run_snoc _ _ ops op

theorem activated_snoc (ops : List Op) (op : Op) :
    Activated o (ops ++ [op]) = fun p => Activated o ops p ∨ (step o (after o ops) op).active = some p := by
  funext p
  rw [← after_snoc]
  exact propext sometime_snoc

/-- **Every run.** The invariant holds, for the generations that have been active in the run. -/
theorem after_inv (ops : List Op) : Inv o (Activated o ops) (after o ops) := by
  refine run_inv (I := fun ops g => Inv o (Activated o ops) g) (step o) {} ?_ (fun ops op ih => ?_) ops
  · have hnone (p : ℕ) : ¬Activated o [] p := by
      rintro ⟨pre, hpre, hp⟩
      rw [List.prefix_nil.1 hpre] at hp
      cases hp
    refine ⟨⟨fun p hp => absurd hp (hnone p), fun p hp => ?_, fun p hp => absurd hp (hnone p),
      fun p _ hp => absurd hp (hnone p), fun p => ?_, fun p hp => ?_, fun c hc => ?_⟩,
      ⟨fun p => rfl, fun p => List.nodup_nil, fun p l => ?_, fun p => Nat.zero_le _⟩,
      ⟨fun p _ => ⟨rfl, rfl⟩, fun p hp => ?_, fun p hp => absurd hp (hnone p)⟩⟩
    · cases hp
    · exact iff_of_false Bool.false_ne_true nofun
    · cases hp
    · cases hc
    · exact iff_of_false List.not_mem_nil fun h => Nat.not_lt_zero l h.1
    · cases hp
  · rw [activated_snoc]
    exact (step_effect o _ op).inv ih

/-- StageGeneration made the generation, under the number -/
def Staged (ops : List Op) (n p : ℕ) : Prop :=
  ∃ pre rules, pre ++ [.stage n rules] <+: ops ∧ (perform o (after o pre) (.stage n rules)).2 = .ok .done ∧
    (after o pre).nextGeneration = p ∧ (after o (pre ++ [.stage n rules])).pending = some p

/-- MarkGenerationReady accepted the number while the generation was pending -/
def MarkedReady (ops : List Op) (n p : ℕ) : Prop :=
  ∃ pre, pre ++ [.markReady n] <+: ops ∧ (perform o (after o pre) (.markReady n)).2 = .ok .done ∧
    (after o pre).pending = some p

structure History (ops : List Op) (g : GenerationRegistry) : Prop where
  staged : ∀ p, p < g.nextGeneration → Staged o ops (g.generations p).generation p
  ready : ∀ p, (g.generations p).ready = true → MarkedReady o ops (g.generations p).generation p

variable {o}

variable {ops more : List Op}

theorem Staged.mono {n p : ℕ} (h : Staged o ops n p) (hmore : ops <+: more) : Staged o more n p := by
  obtain ⟨pre, rules, hpre, hrest⟩ := h
  exact ⟨pre, rules, hpre.trans hmore, hrest⟩

theorem MarkedReady.mono {n p : ℕ} (h : MarkedReady o ops n p) (hmore : ops <+: more) : MarkedReady o more n p := by
  obtain ⟨pre, hpre, hrest⟩ := h
  exact ⟨pre, hpre.trans hmore, hrest⟩

variable {g : GenerationRegistry}

/-- a step other than StageGeneration and MarkGenerationReady adds nothing to the history -/
theorem History.same {h : GenerationRegistry} (hg : History o ops g) (hmore : ops <+: more)
    (hsame : SameContents g h) : History o more h := by
  have hcontents (p : ℕ) : (h.generations p).generation = (g.generations p).generation ∧
      (h.generations p).ready = (g.generations p).ready := by
    have := hsame.contents p
    simp only [contents, Prod.mk.injEq] at this
    exact ⟨this.1, this.2.2⟩
  refine ⟨fun p hp => ?_, fun p hp => ?_⟩
  · rw [(hcontents p).1]
    exact (hg.staged p (hsame.nextGeneration ▸ hp)).mono hmore
  · rw [(hcontents p).1]
    exact (hg.ready p ((hcontents p).2 ▸ hp)).mono hmore

theorem after_history (ops : List Op) : History o ops (after o ops) := by
  refine run_inv (I := fun ops g => History o ops g) (step o) {} ?_ (fun ops op ih => ?_) ops
  · refine ⟨fun p hp => ?_, fun p hp => ?_⟩
    · exact absurd hp (Nat.not_lt_zero p)
    · cases hp
  have hmore : ops <+: ops ++ [op] := List.prefix_append _ _
  have hnow := after_snoc o ops op
  change History o ops (after o ops) at ih
  change History o (ops ++ [op]) (step o (after o ops) op)
  generalize hg : after o ops = g at ih hnow ⊢
  rcases (step_effect o g op).contents with hsame | ⟨n, rules, result, rfl, hperform⟩ | ⟨n, p, rfl, hp, hn, hperform⟩
  · exact ih.same hmore hsame
  · -- the new generation is the one this operation staged
    have hcancel := ih.same (List.prefix_refl ops) (sameContents_cancelPending g)
    have hnext := (sameContents_cancelPending g).nextGeneration
    have hstep : step o g (.stage n rules) = g.install n result := by rw [step, hperform]
    have hstaged : Staged o (ops ++ [.stage n rules]) n g.cancelPending.nextGeneration := by
      refine ⟨ops, rules, List.prefix_refl _, by rw [hg, hperform], by rw [hg, hnext], ?_⟩
      rw [hnow, hstep]
      rfl
    rw [hstep]
    unfold install
    refine ⟨fun p hp => ?_, fun p hp => ?_⟩
    · by_cases hpn : p = g.cancelPending.nextGeneration
      · subst hpn
        simpa only [Function.update_self] using hstaged
      · simp only [Function.update_of_ne hpn]
        exact (hcancel.staged p (by have : p < g.cancelPending.nextGeneration + 1 := hp; omega)).mono hmore
    · by_cases hpn : p = g.cancelPending.nextGeneration
      · subst hpn
        simp only [Function.update_self, Bool.false_eq_true] at hp
      · simp only [Function.update_of_ne hpn] at hp ⊢
        exact (hcancel.ready p hp).mono hmore
  · -- the pending generation is the one this operation marked
    have hstep : step o g (.markReady n) = g.update p .markReady := by rw [step, hperform]
    have hready : MarkedReady o (ops ++ [.markReady n]) n p :=
      ⟨ops, List.prefix_refl _, by rw [hg, hperform], by rw [hg, hp]⟩
    have hgen (q : ℕ) : ((g.update p .markReady).generations q).generation = (g.generations q).generation :=
      update_keeps generation .markReady (fun _ => rfl) p q
    rw [hstep]
    refine ⟨fun q hq => ?_, fun q hq => ?_⟩
    · rw [hgen]
      exact (ih.staged q hq).mono hmore
    · rw [hgen]
      by_cases hqp : q = p
      · subst hqp
        rw [hn]
        exact hready
      · rw [generations_update, if_neg hqp] at hq
        exact (ih.ready q hq).mono hmore

/-! ## The lifecycle -/

/-- the open leases of a generation, by the leases themselves -/
def openLeases (g : GenerationRegistry) (p : ℕ) : List ℕ :=
  (List.range g.nextLease).filter fun l => (g.leases l).state = p ∧ (g.leases l).closed = false

/-- the set a generation keeps is the set of its open leases -/
theorem Counted.perm (hg : Counted o g) (p : ℕ) : (g.generations p).leases.Perm (openLeases g p) := by
  refine (List.perm_ext_iff_of_nodup (hg.nodup p) ?_).2 fun l => ?_
  · exact List.nodup_range.filter _
  · simp [hg.mem, openLeases]

/-- the number and the rules of a generation that has been made never change -/
theorem step_generation {op : Op} {p : ℕ} (hp : p < (after o ops).nextGeneration) :
    ((after o (ops ++ [op])).generations p).generation = ((after o ops).generations p).generation ∧
      ((after o (ops ++ [op])).generations p).rules = ((after o ops).generations p).rules := by
  have hcontents {s t : GenerationState} (h : s.contents = t.contents) :
      s.generation = t.generation ∧ s.rules = t.rules :=
    ⟨congrArg Prod.fst h, congrArg (fun c => c.2.1) h⟩
  rw [after_snoc]
  rcases (step_effect o (after o ops) op).contents with hsame | ⟨n, rules, result, rfl, h⟩ | ⟨n, q, rfl, _, _, h⟩
  · exact hcontents (hsame.contents p)
  · have hcancel := sameContents_cancelPending (after o ops)
    have hne : p ≠ (after o ops).cancelPending.nextGeneration := by
      rw [hcancel.nextGeneration]
      exact hp.ne
    rw [step, h]
    simp only [install, Function.update_of_ne hne]
    exact hcontents (hcancel.contents p)
  · rw [step, h]
    exact ⟨update_keeps generation .markReady (fun _ => rfl) q p,
      update_keeps rules .markReady (fun _ => rfl) q p⟩

/-- the active number does not decrease in one step -/
theorem step_activeNumber (ops : List Op) (op : Op) {a : ℕ} (ha : (after o ops).activeNumber = some a) :
    ∃ b, (after o (ops ++ [op])).activeNumber = some b ∧ a ≤ b := by
  obtain ⟨p, hp, rfl⟩ := Option.map_eq_some_iff.1 ha
  have hbefore := after_inv o ops
  have hafter := after_inv o (ops ++ [op])
  have hwas : Activated o ops p := hbefore.slots.active p hp
  have hwas' : Activated o (ops ++ [op]) p := by
    rw [activated_snoc]
    exact .inl hwas
  obtain ⟨q, hq, hle⟩ := hafter.slots.latest p hwas'
  refine ⟨_, Option.map_eq_some_iff.2 ⟨q, hq, rfl⟩, ?_⟩
  rw [← (@step_generation o ops op p (hbefore.slots.was_lt p hwas)).1]
  rcases hle.lt_or_eq with hlt | rfl
  · exact (hafter.slots.order p q hwas' (hafter.slots.active q hq) hlt).le
  · exact le_rfl

theorem after_activeNumber (ops more : List Op) {a : ℕ} (ha : (after o ops).activeNumber = some a) :
    ∃ b, (after o (ops ++ more)).activeNumber = some b ∧ a ≤ b := by
  induction more using List.reverseRecOn with
  | nil => exact ⟨a, by rwa [List.append_nil], le_rfl⟩
  | append_singleton more op ih =>
    obtain ⟨b, hb, hab⟩ := ih
    obtain ⟨c, hc, hbc⟩ := step_activeNumber (ops ++ more) op hb
    exact ⟨c, by rwa [← List.append_assoc], hab.trans hbc⟩

variable (o)

/-- **Lifecycle.** In every run: the active number never decreases, and the active generation changes only to the
pending one, which was staged and marked ready; the pending number is above the active one; the streams of a
generation are its open leases, within the maximum; and a superseded generation is drained just when it has no open
lease. -/
theorem registry_lifecycle (ops : List Op) :
    (∀ more a, (after o ops).activeNumber = some a →
      ∃ b, (after o (ops ++ more)).activeNumber = some b ∧ a ≤ b) ∧
    (∀ op p, (after o (ops ++ [op])).active = some p → (after o ops).active ≠ some p →
      (after o ops).pending = some p ∧ ((after o ops).generations p).ready = true ∧
        Staged o ops ((after o ops).generations p).generation p ∧
        MarkedReady o ops ((after o ops).generations p).generation p) ∧
    (∀ n a, (after o ops).pendingNumber = some n → (after o ops).activeNumber = some a → a < n) ∧
    (∀ p, ((after o ops).generations p).streams = (openLeases (after o ops) p).length ∧
      ((after o ops).generations p).streams ≤ o.maximumStreams) ∧
    ∀ p, Superseded o ops p →
      (((after o ops).generations p).drained = true ↔ openLeases (after o ops) p = []) := by
  have hinv := after_inv o ops
  have hhistory := after_history (o := o) ops
  refine ⟨fun more a => after_activeNumber ops more, fun op p hp hne => ?_, fun n a hn ha => ?_, fun p => ⟨?_, ?_⟩,
    fun p hp => ?_⟩
  · rw [after_snoc] at hp
    rcases (step_effect o (after o ops) op).active with h | ⟨n, q, hq, h⟩
    · exact absurd (h ▸ hp) hne
    · obtain rfl : q = p := Option.some.inj (h.symm.trans hp)
      have hlt := (hinv.slots.pending q hq.pending).1
      exact ⟨hq.pending, hq.ready, hhistory.staged q hlt, hhistory.ready q hq.ready⟩
  · obtain ⟨p, hp, rfl⟩ := Option.map_eq_some_iff.1 hn
    obtain ⟨q, hq, rfl⟩ := Option.map_eq_some_iff.1 ha
    exact ((hinv.slots.pending p hp).2 q (hinv.slots.active q hq)).2
  · rw [hinv.counted.streams, (hinv.counted.perm p).length_eq]
  · exact hinv.counted.bounded p
  · rw [hinv.drains.superseded p hp.1 hp.2]
    constructor
    · intro h
      exact List.perm_nil.1 (h ▸ (hinv.counted.perm p).symm)
    · intro h
      exact List.perm_nil.1 (h ▸ hinv.counted.perm p)

/-- the shop replaces its only rule while a request is served, which then ends -/
def shopRun : List Op :=
  [.stage 1 [shopRule "app" "" "a.app"], .markReady 1, .activate 1, .acquire "a.app" "", .stage 2 [],
    .markReady 2, .activate 2, .closeLease 0]

theorem shopRun_lifecycle :
    (∃ b, (after shop (shopRun ++ [.close])).activeNumber = some b ∧ 2 ≤ b) ∧
    Staged shop (shopRun.take 6) 2 1 ∧ MarkedReady shop (shopRun.take 6) 2 1 ∧
    Superseded shop shopRun 0 ∧ ((after shop shopRun).generations 0).drained = true := by
  obtain ⟨hnumber, _, _, _, hdrained⟩ := registry_lifecycle shop shopRun
  obtain ⟨_, hactive, _⟩ := registry_lifecycle shop (shopRun.take 6)
  obtain ⟨_, _, hstaged, hready⟩ := hactive (.activate 2) 1 (by decide +kernel) (by decide +kernel)
  have hgeneration : ((after shop (shopRun.take 6)).generations 1).generation = 2 := by decide +kernel
  have hsuperseded : Superseded shop shopRun 0 :=
    ⟨⟨shopRun.take 3, List.take_prefix _ _, by decide +kernel⟩, by decide +kernel⟩
  exact ⟨hnumber [.close] 2 (by decide +kernel), hgeneration ▸ hstaged, hgeneration ▸ hready, hsuperseded,
    (hdrained 0 hsuperseded).2 (by decide +kernel)⟩

end

end Paperboat.Route
