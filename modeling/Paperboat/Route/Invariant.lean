/-
The invariant of the generation registry, and the small steps under the lock that keep
it.

A generation that has been active at some point is known from the run only: a superseded
generation and a pending one that was dropped look alike in the state. The invariant
therefore has that set, `was`, as a parameter.

Results:
- `Slots`: active and pending generation, their numbers, and the waiting calls;
- `Counted`: streams, leases and the maximum;
- `Drains`: which generations are drained.

Each part has a `congr` lemma that says what it reads, so a small step is checked
against the parts it touches.
-/
import Paperboat.Route.Registry

namespace Paperboat.Route

open GenerationRegistry GenerationState

/-! ## The parts of the invariant -/

structure Slots (was : ℕ → Prop) (g : GenerationRegistry) : Prop where
  was_lt : ∀ p, was p → p < g.nextGeneration
  active : ∀ p, g.active = some p → was p
  latest : ∀ q, was q → ∃ p, g.active = some p ∧ q ≤ p
  order : ∀ p q, was p → was q → p < q → (g.generations p).generation < (g.generations q).generation
  accepting : ∀ p, (g.generations p).accepting = true ↔ g.active = some p
  pending : ∀ p, g.pending = some p → p < g.nextGeneration ∧
    ∀ q, was q → q < p ∧ (g.generations q).generation < (g.generations p).generation
  /-- a waiting call is between two successive active generations -/
  calls : ∀ c ∈ g.calls, was c.1 ∧ was c.2 ∧ c.1 < c.2 ∧ ∀ p, was p → p < c.2 → p ≤ c.1

structure Counted (o : Options) (g : GenerationRegistry) : Prop where
  streams : ∀ p, (g.generations p).streams = (g.generations p).leases.length
  nodup : ∀ p, (g.generations p).leases.Nodup
  mem : ∀ p l, l ∈ (g.generations p).leases ↔ l < g.nextLease ∧ (g.leases l).state = p ∧ (g.leases l).closed = false
  bounded : ∀ p, (g.generations p).streams ≤ o.maximumStreams

structure Drains (was : ℕ → Prop) (g : GenerationRegistry) : Prop where
  fresh : ∀ p, ¬was p → (g.generations p).leases = [] ∧ (g.generations p).drained = false
  active : ∀ p, g.active = some p → g.closed = false → (g.generations p).drained = false
  superseded : ∀ p, was p → g.active ≠ some p → ((g.generations p).drained = true ↔ (g.generations p).leases = [])

structure Inv (o : Options) (was : ℕ → Prop) (g : GenerationRegistry) : Prop where
  slots : Slots was g
  counted : Counted o g
  drains : Drains was g

/-! ## Small steps -/

section

variable {o : Options} {was : ℕ → Prop} {g h : GenerationRegistry}

theorem generations_update (p q : ℕ) (f : GenerationState → GenerationState) :
    (g.update p f).generations q = if q = p then f (g.generations q) else g.generations q := by
  by_cases hq : q = p
  · subst hq; simp [update]
  · simp [update, hq]

section

variable (p : ℕ) (f : GenerationState → GenerationState)

@[simp] theorem update_active : (g.update p f).active = g.active := rfl

@[simp] theorem update_nextLease : (g.update p f).nextLease = g.nextLease := rfl

@[simp] theorem update_calls : (g.update p f).calls = g.calls := rfl

end

variable {β : Type}

/-- a field the function keeps is kept by the update -/
theorem update_keeps (field : GenerationState → β) (f : GenerationState → GenerationState)
    (hf : ∀ s, field (f s) = field s) (p q : ℕ) : field ((g.update p f).generations q) = field (g.generations q) := by
  rw [generations_update]
  split_ifs
  · exact hf _
  · rfl

/-- releasing a lease drains a generation that no longer accepts and has no other stream -/
theorem release_eq (s : GenerationState) (l : ℕ) :
    s.release l = { s with
      leases := s.leases.erase l, streams := s.streams - 1
      drained := s.drained || (!s.accepting && s.streams - 1 == 0)
      cancelled := s.cancelled || (!s.accepting && s.streams - 1 == 0) } := by
  unfold release markDrained
  dsimp only
  split_ifs with h
  · simp [h]
  · cases hacc : s.accepting <;> simp_all

/-! ## What each part reads -/

theorem Slots.congr (hg : Slots was g) (ha : h.active = g.active) (hp : h.pending = g.pending)
    (hn : h.nextGeneration = g.nextGeneration) (hc : ∀ c ∈ h.calls, c ∈ g.calls)
    (hgen : ∀ p, (h.generations p).generation = (g.generations p).generation)
    (hacc : ∀ p, (h.generations p).accepting = (g.generations p).accepting) : Slots was h where
  was_lt p hw := hn ▸ hg.was_lt p hw
  active p hp' := hg.active p (ha ▸ hp')
  latest q hq := ha ▸ hg.latest q hq
  order p q hp' hq hlt := by rw [hgen, hgen]; exact hg.order p q hp' hq hlt
  accepting p := by rw [hacc, ha]; exact hg.accepting p
  pending p hp' := by
    rw [hn]
    simp only [hgen]
    exact hg.pending p (hp ▸ hp')
  calls c hc' := hg.calls c (hc c hc')

theorem Counted.congr (hg : Counted o g) (hl : h.leases = g.leases) (hn : h.nextLease = g.nextLease)
    (hs : ∀ p, (h.generations p).streams = (g.generations p).streams)
    (hls : ∀ p, (h.generations p).leases = (g.generations p).leases) : Counted o h where
  streams p := by rw [hs, hls]; exact hg.streams p
  nodup p := by rw [hls]; exact hg.nodup p
  mem p l := by rw [hls, hl, hn]; exact hg.mem p l
  bounded p := by rw [hs]; exact hg.bounded p

variable {f : GenerationState → GenerationState}

theorem Slots.update (hg : Slots was g) (p : ℕ) (hgen : ∀ s, (f s).generation = s.generation)
    (hacc : ∀ s, (f s).accepting = s.accepting) : Slots was (g.update p f) :=
  hg.congr rfl rfl rfl (fun _ hc => hc) (update_keeps _ f hgen p) (update_keeps _ f hacc p)

theorem Counted.update (hg : Counted o g) (p : ℕ) (hs : ∀ s, (f s).streams = s.streams)
    (hls : ∀ s, (f s).leases = s.leases) : Counted o (g.update p f) :=
  hg.congr rfl rfl (update_keeps _ f hs p) (update_keeps _ f hls p)

theorem Drains.congr (hg : Drains was g) (ha : h.active = g.active) (hc : h.closed = false → g.closed = false)
    (hls : ∀ p, (h.generations p).leases = (g.generations p).leases)
    (hd : ∀ p, (h.generations p).drained = (g.generations p).drained) : Drains was h where
  fresh p hw := by rw [hls, hd]; exact hg.fresh p hw
  active p hp hclosed := by rw [hd]; exact hg.active p (ha ▸ hp) (hc hclosed)
  superseded p hw hp := by rw [hls, hd]; exact hg.superseded p hw (ha ▸ hp)

theorem Counted.closeLease (hg : Counted o g) (l : ℕ) : Counted o (g.closeLease l) := by
  by_cases hl : l < g.nextLease ∧ (g.leases l).closed = false
  · obtain ⟨hlt, hopen⟩ := hl
    have hmem : l ∈ (g.generations (g.leases l).state).leases := (hg.mem _ l).2 ⟨hlt, rfl, hopen⟩
    rw [GenerationRegistry.closeLease, if_pos ⟨hlt, hopen⟩]
    refine ⟨fun p => ?_, fun p => ?_, fun p l' => ?_, fun p => ?_⟩
    · simp only [generations_update]
      split_ifs with hp
      · rw [release_eq]
        rw [hg.streams, hp, List.length_erase_of_mem hmem]
      · exact hg.streams p
    · simp only [generations_update]
      split_ifs with hp
      · rw [release_eq]
        exact (hg.nodup p).erase l
      · exact hg.nodup p
    · simp only [generations_update]
      split_ifs with hp
      · rw [release_eq]
        rw [(hg.nodup p).mem_erase_iff, hg.mem]
        by_cases hne : l' = l
        · subst hne; simp
        · simp [hne]
      · rw [hg.mem]
        by_cases hne : l' = l
        · subst hne; simp [Ne.symm hp]
        · simp [hne]
    · simp only [generations_update]
      split_ifs with hp
      · rw [release_eq]
        exact (Nat.sub_le _ _).trans (hg.bounded p)
      · exact hg.bounded p
  · rw [GenerationRegistry.closeLease, if_neg hl]
    exact hg

/-- closing a lease changes streams, leases and drains only -/
theorem closeLease_keeps (field : GenerationState → β)
    (hf : ∀ s l, field (release s l) = field s) (l p : ℕ) :
    field ((g.closeLease l).generations p) = field (g.generations p) := by
  unfold closeLease
  split_ifs
  · exact update_keeps field _ (fun s => hf s l) _ p
  · rfl

/-- what the registry keeps when a lease closes, it keeps when several do -/
theorem closeLeases_keeps (field : GenerationRegistry → β)
    (hf : ∀ (g : GenerationRegistry) (l : ℕ), field (g.closeLease l) = field g) (ls : List ℕ) :
    field (g.closeLeases ls) = field g := by
  induction ls generalizing g with
  | nil => rfl
  | cons l ls ih => exact ih.trans (hf g l)

@[simp] theorem closeLease_slots (g : GenerationRegistry) (l : ℕ) : (g.closeLease l).active = g.active ∧
    (g.closeLease l).pending = g.pending ∧ (g.closeLease l).nextGeneration = g.nextGeneration ∧
    (g.closeLease l).calls = g.calls := by
  unfold closeLease
  split_ifs <;> exact ⟨rfl, rfl, rfl, rfl⟩

@[simp] theorem closeLeases_active (ls : List ℕ) : (g.closeLeases ls).active = g.active :=
  closeLeases_keeps active (fun g l => (closeLease_slots g l).1) ls

theorem Slots.closeLease (hg : Slots was g) (l : ℕ) : Slots was (g.closeLease l) := by
  refine hg.congr (by simp) (by simp) (by simp) (fun c hc => by simpa using hc) ?_ ?_
  · exact closeLease_keeps GenerationState.generation (fun s l => by rw [release_eq]) l
  · exact closeLease_keeps GenerationState.accepting (fun s l => by rw [release_eq]) l

section

variable (hg : Inv o was g)
include hg

/-- an update that keeps what the invariant reads -/
theorem Inv.update (p : ℕ) (f : GenerationState → GenerationState)
    (hgen : ∀ s, (f s).generation = s.generation) (hacc : ∀ s, (f s).accepting = s.accepting)
    (hs : ∀ s, (f s).streams = s.streams) (hls : ∀ s, (f s).leases = s.leases) (hd : ∀ s, (f s).drained = s.drained) :
    Inv o was (g.update p f) where
  slots := hg.slots.update p hgen hacc
  counted := hg.counted.update p hs hls
  drains := hg.drains.congr rfl id (update_keeps _ f hls p) (update_keeps _ f hd p)

theorem Inv.cancel (p : ℕ) : Inv o was (g.update p .cancel) :=
  hg.update p .cancel (fun _ => rfl) (fun _ => rfl) (fun _ => rfl) (fun _ => rfl) (fun _ => rfl)

omit hg in
theorem cancelPending_active : g.cancelPending.active = g.active := by
  unfold cancelPending
  split <;> rfl

theorem Inv.cancelPending : Inv o was g.cancelPending := by
  unfold GenerationRegistry.cancelPending
  split
  · exact hg.cancel _
  · exact hg

/-- a call of ActivateGeneration that returns -/
theorem Inv.eraseCall (c : ℕ × ℕ) : Inv o was { g with calls := g.calls.erase c } where
  slots := { hg.slots with calls := fun c hc => hg.slots.calls c (List.mem_of_mem_erase hc) }
  counted := { hg.counted with }
  drains := { hg.drains with }

/-- an open lease is held by a generation that has been active -/
theorem Inv.was_of_mem {p l : ℕ} (hl : l ∈ (g.generations p).leases) : was p := by
  by_contra hw
  rw [(hg.drains.fresh p hw).1] at hl
  cases hl

theorem Inv.streams_eq_zero (p : ℕ) : (g.generations p).streams = 0 ↔ (g.generations p).leases = [] := by
  rw [hg.counted.streams, List.length_eq_zero_iff]

/-! ## Closing leases -/

theorem Inv.closeLease (l : ℕ) : Inv o was (g.closeLease l) := by
  refine ⟨hg.slots.closeLease l, hg.counted.closeLease l, ?_⟩
  by_cases hl : l < g.nextLease ∧ (g.leases l).closed = false
  · obtain ⟨hlt, hopen⟩ := hl
    have hmem : l ∈ (g.generations (g.leases l).state).leases := (hg.counted.mem _ l).2 ⟨hlt, rfl, hopen⟩
    have hwas := hg.was_of_mem hmem
    rw [GenerationRegistry.closeLease, if_pos ⟨hlt, hopen⟩]
    refine ⟨fun p hw => ?_, fun p hp hc => ?_, fun p hw hp => ?_⟩
    · have hne : p ≠ (g.leases l).state := fun h => hw (h ▸ hwas)
      simp only [generations_update, if_neg hne]
      exact hg.drains.fresh p hw
    · simp only [generations_update]
      split_ifs
      · have hacc := (hg.slots.accepting p).2 hp
        rw [release_eq]
        simp only [hg.drains.active p hp hc, hacc, Bool.not_true, Bool.false_and, Bool.or_false]
      · exact hg.drains.active p hp hc
    · simp only [generations_update]
      split_ifs with heq
      · -- the generation had the lease, so it was not drained, and it is now if that was its last one
        have hacc : (g.generations p).accepting = false := by
          rw [Bool.eq_false_iff]
          exact fun h => hp ((hg.slots.accepting p).1 h)
        have hdr : (g.generations p).drained = false := by
          rw [Bool.eq_false_iff]
          intro h
          rw [← heq, (hg.drains.superseded p hw hp).1 h] at hmem
          cases hmem
        rw [release_eq]
        simp only [hacc, hdr, hg.counted.streams, Bool.not_false, Bool.true_and, Bool.false_or, beq_iff_eq]
        rw [← List.length_eq_zero_iff, List.length_erase_of_mem (heq ▸ hmem)]
      · exact hg.drains.superseded p hw hp
  · rw [GenerationRegistry.closeLease, if_neg hl]
    exact hg.drains

theorem Inv.closeLeases (ls : List ℕ) : Inv o was (g.closeLeases ls) := by
  induction ls generalizing g with
  | nil => exact hg
  | cons l ls ih => exact ih (hg.closeLease l)

/-! ## Admission -/

theorem Inv.addLease {p : ℕ} (hp : g.active = some p)
    (hmax : (g.generations p).streams < o.maximumStreams) (m : RouteMatch) : Inv o was (g.addLease p m) := by
  have hwas := hg.slots.active p hp
  have hnew (q : ℕ) : g.nextLease ∉ (g.generations q).leases := fun h => by
    have := ((hg.counted.mem q _).1 h).1
    omega
  unfold GenerationRegistry.addLease
  refine ⟨?_, ⟨fun q => ?_, fun q => ?_, fun q l => ?_, fun q => ?_⟩,
    ⟨fun q hq => ?_, fun q hq hc => ?_, fun q hq ha => ?_⟩⟩
  · refine hg.slots.congr rfl rfl rfl (fun _ hc => hc) (fun q => ?_) fun q => ?_
    all_goals
      simp only [generations_update]
      split_ifs <;> rfl
  · simp only [generations_update]
    split_ifs
    · exact congrArg (· + 1) (hg.counted.streams q)
    · exact hg.counted.streams q
  · simp only [generations_update]
    split_ifs
    · exact List.nodup_cons.2 ⟨hnew q, hg.counted.nodup q⟩
    · exact hg.counted.nodup q
  · have hlt : l ≠ g.nextLease → (l < g.nextLease + 1 ↔ l < g.nextLease) := by omega
    simp only [generations_update]
    by_cases hl : l = g.nextLease
    · subst hl
      split_ifs with hq
      · simp [hq]
      · simpa [Ne.symm hq] using hnew q
    · split_ifs with hq
      all_goals simp [hl, hg.counted.mem, hlt hl]
  · simp only [generations_update]
    split_ifs with hq
    · subst hq; exact hmax
    · exact hg.counted.bounded q
  · have hne : q ≠ p := fun h => hq (h ▸ hwas)
    simp only [generations_update, if_neg hne]
    exact hg.drains.fresh q hq
  · simp only [generations_update]
    split_ifs
    all_goals exact hg.drains.active q hq hc
  · have hne : q ≠ p := fun h => ha (h ▸ hp)
    simp only [generations_update, if_neg hne]
    exact hg.drains.superseded q hq ha

/-! ## The pending generation -/

/-- a generation above all numbers so far becomes the pending one -/
theorem Inv.install {n : ℕ} (rules : List RouteRule)
    (hn : ∀ q, was q → (g.generations q).generation < n) : Inv o was (g.install n rules) := by
  unfold GenerationRegistry.install
  have hh := hg.cancelPending
  have hgen (q : ℕ) : (g.cancelPending.generations q).generation = (g.generations q).generation := by
    unfold GenerationRegistry.cancelPending
    split
    · exact update_keeps generation .cancel (fun _ => rfl) _ q
    · rfl
  simp only [← hgen] at hn
  generalize g.cancelPending = h at hh hn
  have hne (q : ℕ) : was q → q ≠ h.nextGeneration := fun hw => (hh.slots.was_lt q hw).ne
  have hfresh : ¬was h.nextGeneration := fun hw => hne _ hw rfl
  have hempty := (hh.drains.fresh _ hfresh).1
  have hsame {β : Type} (field : GenerationState → β) {new : GenerationState}
      (hnew : field new = field (h.generations h.nextGeneration)) (p : ℕ) :
      field (Function.update h.generations h.nextGeneration new p) = field (h.generations p) := by
    by_cases hp : p = h.nextGeneration
    · rw [hp, Function.update_self, hnew]
    · rw [Function.update_of_ne hp]
  refine ⟨⟨fun p hp => ?_, hh.slots.active, hh.slots.latest, fun p q hp hq => ?_, fun p => ?_, fun p hp => ?_,
    hh.slots.calls⟩, ?_, ?_⟩
  · exact (hh.slots.was_lt p hp).trans (Nat.lt_succ_self _)
  · simp only [Function.update_of_ne (hne p hp), Function.update_of_ne (hne q hq)]
    exact hh.slots.order p q hp hq
  · by_cases hp : p = h.nextGeneration
    · subst hp
      simp only [Function.update_self]
      exact iff_of_false Bool.false_ne_true fun ha => hfresh (hh.slots.active _ ha)
    · simp only [Function.update_of_ne hp]
      exact hh.slots.accepting p
  · cases hp
    refine ⟨Nat.lt_succ_self _, fun q hq => ⟨hh.slots.was_lt q hq, ?_⟩⟩
    simp only [Function.update_of_ne (hne q hq), Function.update_self]
    exact hn q hq
  · exact hh.counted.congr rfl rfl (hsame streams ((hh.streams_eq_zero _).2 hempty).symm)
      (hsame leases hempty.symm)
  · exact hh.drains.congr rfl id (hsame leases hempty.symm)
      (hsame drained (hh.drains.fresh _ hfresh).2.symm)

theorem Inv.dropPending : Inv o was { g with pending := none } where
  slots := { hg.slots with pending := nofun }
  counted := { hg.counted with }
  drains := { hg.drains with }

theorem Inv.close : Inv o was (closeRegistry g) := by
  unfold closeRegistry
  split_ifs with hclosed
  · exact hg
  · have hh := hg.cancelPending
    rw [← cancelPending_active]
    split
    · rename_i p hp
      have hslots := hh.slots.update p (f := .markDrained) (fun _ => rfl) fun _ => rfl
      have hcounted := hh.counted.update p (f := .markDrained) (fun _ => rfl) fun _ => rfl
      refine ⟨{ hslots with }, { hcounted with }, ⟨fun q hq => ?_, nofun, fun q hq hne => ?_⟩⟩
      · have hne : q ≠ p := fun h => hq (h ▸ hh.slots.active p hp)
        simp only [generations_update, if_neg hne]
        exact hh.drains.fresh q hq
      · have hqp : q ≠ p := fun h => hne (h ▸ hp)
        simp only [generations_update, if_neg hqp]
        exact hh.drains.superseded q hq hne
    · exact ⟨{ hh.slots with }, { hh.counted with }, { hh.drains with active := nofun }⟩

end

/-! ## Promotion -/

variable (p : ℕ)

@[simp] theorem promote_active : (g.promote p).active = some p := by
  unfold promote
  cases g.active <;> rfl

@[simp] theorem promote_slots : (g.promote p).pending = none ∧ (g.promote p).nextGeneration = g.nextGeneration ∧
    (g.promote p).calls = g.calls := by
  unfold promote
  cases g.active <;> exact ⟨rfl, rfl, rfl⟩

@[simp] theorem promote_leases : (g.promote p).nextLease = g.nextLease ∧ (g.promote p).leases = g.leases := by
  unfold promote
  cases g.active <;> exact ⟨rfl, rfl⟩

/-- promotion changes which generation accepts, and nothing else of a generation -/
theorem promote_generations (p q : ℕ) : (g.promote p).generations q = { g.generations q with
    accepting := if g.active = some q then false else if q = p then true else (g.generations q).accepting } := by
  unfold promote
  cases g.active with
  | none =>
    rw [generations_update]
    split_ifs <;> simp_all
  | some old =>
    simp only [generations_update, Option.some.injEq, eq_comm (a := old)]
    split_ifs <;> rfl

variable {p : ℕ} {calls : List (ℕ × ℕ)}

/-- promotion with whatever call it leaves waiting -/
theorem Slots.promote (hg : Slots was g) (hp : g.pending = some p)
    (hcalls : ∀ c ∈ calls, c ∈ g.calls ∨ (g.active = some c.1 ∧ c.2 = p)) :
    Slots (fun q => was q ∨ q = p) { g.promote p with calls := calls } := by
  obtain ⟨hlt, hnew⟩ := hg.pending p hp
  have hlatest (q : ℕ) (hq : was q ∨ q = p) : q ≤ p := by
    rcases hq with hq | rfl
    · exact (hnew q hq).1.le
    · exact le_rfl
  refine ⟨fun q hq => ?_, fun q hq => ?_, fun q hq => ?_, fun q r hq hr hqr => ?_, fun q => ?_,
    fun q hq => ?_, fun c hc => ?_⟩
  · simp only [promote_slots]
    exact (hlatest q hq).trans_lt hlt
  · simp only [promote_active, Option.some.injEq] at hq
    exact .inr hq.symm
  · exact ⟨p, promote_active p, hlatest q hq⟩
  · simp only [promote_generations]
    rcases hr with hr | rfl
    · have hq' : was q := hq.resolve_right fun h => by have := (hnew r hr).1; omega
      exact hg.order q r hq' hr hqr
    · exact (hnew q (hq.resolve_right hqr.ne)).2
  · simp only [promote_generations, promote_active, Option.some.injEq]
    by_cases ha : g.active = some q
    · have := (hnew q (hg.active q ha)).1
      simp only [ha, if_true, Bool.false_eq_true, false_iff]
      omega
    · split_ifs with hqp
      · exact iff_of_true rfl hqp.symm
      · exact iff_of_false (fun h => ha ((hg.accepting q).1 h)) (Ne.symm hqp)
  · simp only [promote_slots, reduceCtorEq] at hq
  · rcases hcalls c hc with hc | ⟨hold, hc2⟩
    · obtain ⟨h1, h2, h3, h4⟩ := hg.calls c hc
      refine ⟨.inl h1, .inl h2, h3, fun q hq hlt => h4 q (hq.resolve_right ?_) hlt⟩
      have := (hnew _ h2).1
      omega
    · have hwas := hg.active _ hold
      refine ⟨.inl hwas, .inr hc2, hc2 ▸ (hnew _ hwas).1, fun q hq hlt => ?_⟩
      obtain ⟨a, ha, hle⟩ := hg.latest q (hq.resolve_right (hc2 ▸ hlt).ne)
      rw [hold] at ha
      exact Option.some.inj ha ▸ hle

theorem Counted.promote (hg : Counted o g) (p : ℕ) : Counted o (g.promote p) :=
  hg.congr (promote_leases p).2 (promote_leases p).1 (fun q => by rw [promote_generations]) fun q => by
    rw [promote_generations]

variable (hg : Inv o was g)
include hg

/-- a promotion drains well when the superseded generation is drained just if it has no lease -/
theorem Inv.drains_promote (hp : g.pending = some p) (ha : h.active = some p)
    (hls : ∀ q, (h.generations q).leases = (g.generations q).leases)
    (hd : ∀ q, g.active ≠ some q → (h.generations q).drained = (g.generations q).drained)
    (hold : ∀ q, g.active = some q → ((h.generations q).drained = true ↔ (g.generations q).leases = [])) :
    Drains (fun q => was q ∨ q = p) h := by
  obtain ⟨_, hnew⟩ := hg.slots.pending p hp
  have hfresh : ¬was p := fun hw => (hnew p hw).1.false
  have hne (q : ℕ) (hq : ¬was q) : g.active ≠ some q := fun h => hq (hg.slots.active q h)
  refine ⟨fun q hq => ?_, fun q hq _ => ?_, fun q hq hqp => ?_⟩
  · have hq' : ¬was q := fun h => hq (.inl h)
    rw [hls, hd q (hne q hq')]
    exact hg.drains.fresh q hq'
  · obtain rfl : p = q := Option.some.inj (ha.symm.trans hq)
    rw [hd p (hne p hfresh)]
    exact (hg.drains.fresh p hfresh).2
  · have hq' : was q := hq.resolve_right fun h => hqp (h ▸ ha)
    rw [hls]
    by_cases hact : g.active = some q
    · exact hold q hact
    · rw [hd q hact]
      exact hg.drains.superseded q hq' hact

/-- the superseded generation still has streams, or there is none -/
theorem Inv.promote (hp : g.pending = some p) (hopen : g.closed = false)
    (hstreams : ∀ q, g.active = some q → (g.generations q).streams ≠ 0)
    (hcalls : ∀ c ∈ calls, c ∈ g.calls ∨ (g.active = some c.1 ∧ c.2 = p)) :
    Inv o (fun q => was q ∨ q = p) { g.promote p with calls := calls } where
  slots := hg.slots.promote hp hcalls
  counted := { hg.counted.promote p with }
  drains := by
    refine hg.drains_promote hp (promote_active p) (fun q => ?_) (fun q _ => ?_) fun q hq => ?_
    · rw [promote_generations]
    · rw [promote_generations]
    · rw [promote_generations]
      refine iff_of_false (by simp [hg.drains.active q hq hopen]) fun h => hstreams q hq ?_
      exact (hg.streams_eq_zero q).2 h

/-- the superseded generation has no stream and is drained at once -/
theorem Inv.promote_drained {p old : ℕ} (hp : g.pending = some p) (ha : g.active = some old)
    (hstreams : (g.generations old).streams = 0) :
    Inv o (fun q => was q ∨ q = p) ((g.promote p).update old .markDrained) where
  slots := by
    have hslots : Slots (fun q => was q ∨ q = p) { g.promote p with calls := g.calls } :=
      hg.slots.promote hp fun c hc => .inl hc
    exact (hslots.update old (f := .markDrained) (fun _ => rfl) fun _ => rfl).congr rfl rfl rfl
      (fun c hc => by simpa using hc) (fun _ => rfl) fun _ => rfl
  counted := (hg.counted.promote p).update old (fun _ => rfl) fun _ => rfl
  drains := by
    refine hg.drains_promote hp (promote_active p) (fun q => ?_) (fun q hq => ?_) fun q hq => ?_
    · rw [generations_update, promote_generations]
      split_ifs <;> rfl
    · have hne : q ≠ old := fun h => hq (h ▸ ha)
      rw [generations_update, if_neg hne, promote_generations]
    · obtain rfl : old = q := Option.some.inj (ha.symm.trans hq)
      rw [generations_update, if_pos rfl]
      exact iff_of_true rfl ((hg.streams_eq_zero old).1 hstreams)

/-- a superseded generation without a lease is drained already -/
theorem Inv.markDrained (hw : was p) (ha : g.active ≠ some p)
    (hstreams : (g.generations p).streams = 0) : Inv o was (g.update p .markDrained) := by
  have hempty := (hg.streams_eq_zero p).1 hstreams
  have hdrained := (hg.drains.superseded p hw ha).2 hempty
  refine ⟨hg.slots.update p (fun _ => rfl) fun _ => rfl, hg.counted.update p (fun _ => rfl) fun _ => rfl,
    hg.drains.congr rfl id (update_keeps leases .markDrained (fun _ => rfl) p) fun q => ?_⟩
  rw [generations_update]
  split_ifs with hq
  · rw [hq, hdrained]; rfl
  · rfl

end

end Paperboat.Route
