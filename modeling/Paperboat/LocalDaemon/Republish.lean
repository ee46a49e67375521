/-
Publishing the same snapshot again (localapi/snapshot.go): the store keeps a copy of
what it was given, and compares with reflect.DeepEqual, which tells nil from empty lists
and two forms of one time apart.

Modelled: cloneSnapshot, SnapshotStore.Publish, SnapshotStore.Update with its callback,
and the channels of the watchers. Of Validate only the parts that matter here are
spelled out; the rest is a check of the plain content.

Results:
- `Snapshot.plain`: a snapshot with its lists element by element and its times as
  instants;
- `Snapshot.Canonical`: no list that cloneSnapshot copies is empty without being nil;
  every stored snapshot is so;
- `republish_iff`: publishing or updating with the same plain content changes nothing
  exactly when the snapshot is canonical and its times and tags have the form of the
  stored ones; publishing twice, exactly when it is canonical.

Witnesses:
- `idle_republished`: a canonical snapshot;
- `empty_health_not_same`: an empty list that is not nil.
-/
import Paperboat.LocalDaemon.Status

namespace Paperboat.LocalDaemon.Stored

/-! ## Model -/

/-- an instant, and how it is written: the zone and the clock reading -/
@[ext] structure Time where
  instant : ℤ
  form : ℕ
deriving DecidableEq

/-- nil, or the elements -/
abbrev Slice (α : Type) := Option (List α)

/-- append([]T(nil), s...) -/
def Slice.copy {α : Type} : Slice α → Slice α
  | some [] => none
  | s => s

structure HealthItem where
  code : String
  severity : String
  title : String
  brokenSince : Option Time
  recovery : String
  etag : String
deriving DecidableEq

/-- `fields` are the strings, numbers and flags of a machine -/
structure MachineStatus (R : Type) where
  fields : R
  tags : Slice String
  lastObservedAt : Option Time
  transportConsumers : Slice TransportConsumer
  sshHostKeys : Slice String
  health : Slice HealthItem
deriving DecidableEq

structure Snapshot (R : Type) where
  schema : String
  generation : ℕ
  observedAt : Time
  daemonState : String
  daemonVersion : String
  health : Slice HealthItem
  machines : Slice (MachineStatus R)
  sshDomain : String
deriving DecidableEq

variable {R : Type}

/-- the tags are not copied -/
def cloneMachine (m : MachineStatus R) : MachineStatus R :=
  { m with health := m.health.copy, transportConsumers := m.transportConsumers.copy, sshHostKeys := m.sshHostKeys.copy }

def cloneSnapshot (s : Snapshot R) : Snapshot R :=
  { s with health := s.health.copy, machines := s.machines.copy.map (List.map cloneMachine) }

def Time.plain (t : Time) : Time := { t with form := 0 }

def HealthItem.plain (h : HealthItem) : HealthItem := { h with brokenSince := h.brokenSince.map Time.plain }

def MachineStatus.plain (m : MachineStatus R) : MachineStatus R :=
  { m with
    tags := some (m.tags.getD [])
    lastObservedAt := m.lastObservedAt.map Time.plain
    transportConsumers := some (m.transportConsumers.getD [])
    sshHostKeys := some (m.sshHostKeys.getD [])
    health := some ((m.health.getD []).map HealthItem.plain) }

/-- lists element by element, and times as instants -/
def Snapshot.plain (s : Snapshot R) : Snapshot R :=
  { s with
    observedAt := s.observedAt.plain
    health := some ((s.health.getD []).map HealthItem.plain)
    machines := some ((s.machines.getD []).map MachineStatus.plain) }

def snapshotSchemaV1 : String := "paperboat.status/v1"

/-- Validate; `content` is what it checks of the rest -/
def Snapshot.valid (content : Snapshot R → Bool) (s : Snapshot R) : Bool :=
  s.schema == snapshotSchemaV1 && s.generation != 0 && s.observedAt.instant != 0 && content s.plain

/-- no list that is copied is empty without being nil -/
structure Snapshot.Canonical (s : Snapshot R) : Prop where
  health : s.health ≠ some []
  machines : s.machines ≠ some []
  machine : ∀ m ∈ s.machines.getD [], m.health ≠ some [] ∧ m.transportConsumers ≠ some [] ∧ m.sshHostKeys ≠ some []

theorem Slice.copy_ne {α : Type} (s : Slice α) : s.copy ≠ some [] := by
  unfold copy
  split
  · simp
  · assumption

open Slice

theorem canonical_clone (s : Snapshot R) : (cloneSnapshot s).Canonical := by
  refine ⟨copy_ne _, ?_, ?_⟩
  · intro h
    obtain ⟨l, hl, hnil⟩ := Option.map_eq_some_iff.1 h
    exact copy_ne _ (hl.trans (congrArg some (List.map_eq_nil_iff.1 hnil)))
  · intro m hm
    have hclone : ∃ m', cloneMachine m' = m := by
      change m ∈ (s.machines.copy.map (List.map cloneMachine)).getD [] at hm
      cases hs : s.machines.copy with
      | none => simp [hs] at hm
      | some l =>
        rw [hs] at hm
        obtain ⟨m', -, h⟩ := List.mem_map.1 hm
        exact ⟨m', h⟩
    obtain ⟨m', rfl⟩ := hclone
    exact ⟨copy_ne _, copy_ne _, copy_ne _⟩

theorem Slice.getD_copy {α : Type} (s : Slice α) : s.copy.getD [] = s.getD [] := by
  unfold copy
  split <;> rfl

theorem plain_clone (s : Snapshot R) : (cloneSnapshot s).plain = s.plain := by
  have hmachine : ∀ m : MachineStatus R, (cloneMachine m).plain = m.plain := by
    intro m
    simp only [MachineStatus.plain, cloneMachine, getD_copy]
  have hmachines : (s.machines.copy.map (List.map cloneMachine)).getD [] = (s.machines.getD []).map cloneMachine := by
    rw [← getD_copy s.machines]
    cases s.machines.copy <;> rfl
  simp only [Snapshot.plain, cloneSnapshot, getD_copy, hmachines, List.map_map, Function.comp_def, hmachine]

theorem valid_congr {content : Snapshot R → Bool} {x y : Snapshot R} (h : x.plain = y.plain) :
    x.valid content = y.valid content := by
  have hfields := h
  simp only [Snapshot.plain, Snapshot.mk.injEq, Time.plain, Time.mk.injEq] at hfields
  rw [Snapshot.valid, Snapshot.valid, h, hfields.1, hfields.2.1, hfields.2.2.1.1]

/-- the current snapshot is a copy of a valid one; a watcher is its channel, with room for one snapshot -/
structure SnapshotStore (content : Snapshot R → Bool) where
  current : Option (Snapshot R)
  watchers : List (Option (Snapshot R))
  stored : ∀ c, current = some c → c.Canonical ∧ c.valid content = true

inductive Failure
  | invalidResponse
  | invalidConfig
  | staleGeneration
  | generationExhausted
  | callback
deriving DecidableEq

namespace SnapshotStore

variable {content : Snapshot R → Bool}

/-- a copy is kept, and every channel is emptied and given one -/
def put (s : SnapshotStore content) (snapshot : Snapshot R) (h : snapshot.valid content = true) :
    SnapshotStore content where
  current := some (cloneSnapshot snapshot)
  watchers := s.watchers.map fun _ => some (cloneSnapshot snapshot)
  stored := by
    intro c hc
    cases hc
    exact ⟨canonical_clone snapshot, (valid_congr (plain_clone snapshot)).trans h⟩

variable [DecidableEq R] (s : SnapshotStore content)

def publish (snapshot : Snapshot R) : SnapshotStore content × Except Failure Bool :=
  if h : snapshot.valid content = true then
    match s.current with
    | none => (s.put snapshot h, .ok true)
    | some current =>
      if snapshot.generation < current.generation then (s, .error .staleGeneration)
      else if snapshot.generation = current.generation then
        (s, if snapshot = current then .ok false else .error .staleGeneration)
      else (s.put snapshot h, .ok true)
  else (s, .error .invalidResponse)

def semanticSnapshotEqual (left right : Snapshot R) : Bool :=
  { left with generation := 0, observedAt := ⟨0, 0⟩ } = { right with generation := 0, observedAt := ⟨0, 0⟩ }

/-- `utc` is the form of a time in UTC -/
def update (observedAt : Time) (utc : ℕ) (callback : Option (Snapshot R) → Except Failure (Snapshot R)) :
    SnapshotStore content × Except Failure Bool :=
  if observedAt.instant = 0 then (s, .error .invalidConfig)
  else
    match callback (s.current.map cloneSnapshot) with
    | .error e => (s, .error e)
    | .ok desired =>
      let desired :=
        { desired with schema := snapshotSchemaV1, observedAt := ⟨observedAt.instant, utc⟩, generation := 1 }
      let store (desired : Snapshot R) : SnapshotStore content × Except Failure Bool :=
        if h : desired.valid content = true then (s.put desired h, .ok true) else (s, .error .invalidResponse)
      match s.current with
      | none => store desired
      | some current =>
        if semanticSnapshotEqual current desired then (s, .ok false)
        else if current.generation = maxGeneration then (s, .error .generationExhausted)
        else store { desired with generation := current.generation + 1 }

end SnapshotStore

/-! ## What the comparison sees -/

/-- the form of a health item's time -/
def HealthItem.form (h : HealthItem) : Option ℕ := h.brokenSince.map Time.form

/-- whether the tags are nil, and the forms of a machine's times -/
def MachineStatus.forms (m : MachineStatus R) : Bool × Option ℕ × List (Option ℕ) :=
  (m.tags.isSome, m.lastObservedAt.map Time.form, (m.health.getD []).map HealthItem.form)

def Snapshot.forms (s : Snapshot R) : List (Option ℕ) × List (Bool × Option ℕ × List (Option ℕ)) :=
  ((s.health.getD []).map HealthItem.form, (s.machines.getD []).map MachineStatus.forms)

theorem eq_of_maps {α β γ : Type} {f : α → β} {g : α → γ} {l l' : List α}
    (h : ∀ a ∈ l, ∀ b ∈ l', f a = f b → g a = g b → a = b) (hf : l.map f = l'.map f)
    (hg : l.map g = l'.map g) : l = l' := by
  induction l generalizing l' with
  | nil => exact (List.map_eq_nil_iff.1 hf.symm).symm
  | cons a l ih =>
    cases l' with
    | nil => cases hf
    | cons b l' =>
      simp only [List.map_cons, List.cons.injEq] at hf hg
      rw [h a List.mem_cons_self b List.mem_cons_self hf.1 hg.1,
        ih (fun a ha b hb => h a (List.mem_cons_of_mem _ ha) b (List.mem_cons_of_mem _ hb)) hf.2 hg.2]

theorem Slice.eq_of_elements {α : Type} {s t : Slice α} (hs : s ≠ some []) (ht : t ≠ some [])
    (h : s.getD [] = t.getD []) : s = t := by
  cases s <;> cases t <;> simp_all

theorem time_eq {a b : Option Time} (hp : a.map Time.plain = b.map Time.plain)
    (hf : a.map Time.form = b.map Time.form) : a = b := by
  cases a <;> cases b <;> simp_all [Time.plain, Time.ext_iff]

theorem health_eq {s t : Slice HealthItem} (hs : s ≠ some []) (ht : t ≠ some [])
    (hp : (s.getD []).map HealthItem.plain = (t.getD []).map HealthItem.plain)
    (hf : (s.getD []).map HealthItem.form = (t.getD []).map HealthItem.form) : s = t := by
  apply eq_of_elements hs ht
  apply eq_of_maps _ hp hf
  intro a _ b _ hp hf
  simp only [HealthItem.plain, HealthItem.mk.injEq] at hp
  have := time_eq hp.2.2.2.1 hf
  cases a
  cases b
  simp_all

/-- with the same plain content, the lists are equal exactly when the copy of the first leaves them, and the forms
agree. -/
theorem alike_iff {x c : Snapshot R} (hc : c.Canonical) (hplain : x.plain = c.plain) :
    x.Canonical ∧ x.forms = c.forms ↔ x.health = c.health ∧ x.machines = c.machines := by
  simp only [Snapshot.plain, Snapshot.mk.injEq, Option.some.injEq] at hplain
  constructor
  · intro ⟨hx, hforms⟩
    simp only [Snapshot.forms, Prod.mk.injEq] at hforms
    refine ⟨health_eq hx.health hc.health hplain.2.2.2.2.2.1 hforms.1, eq_of_elements hx.machines hc.machines ?_⟩
    apply eq_of_maps _ hplain.2.2.2.2.2.2.1 hforms.2
    intro a ha b hb hp hf
    simp only [MachineStatus.plain, MachineStatus.mk.injEq, Option.some.injEq] at hp
    simp only [MachineStatus.forms, Prod.mk.injEq] at hf
    obtain ⟨hah, hac, hak⟩ := hx.machine a ha
    obtain ⟨hbh, hbc, hbk⟩ := hc.machine b hb
    have htags : a.tags = b.tags := by
      cases ht : a.tags <;> cases ht' : b.tags <;> simp_all
    have htime := time_eq hp.2.2.1 hf.2.1
    have hconsumers := eq_of_elements hac hbc hp.2.2.2.1
    have hkeys := eq_of_elements hak hbk hp.2.2.2.2.1
    have hhealth := health_eq hah hbh hp.2.2.2.2.2 hf.2.2
    cases a
    cases b
    simp_all
  · intro ⟨hhealth, hmachines⟩
    refine ⟨⟨hhealth ▸ hc.health, hmachines ▸ hc.machines, hmachines ▸ hc.machine⟩, ?_⟩
    rw [Snapshot.forms, Snapshot.forms, hhealth, hmachines]

theorem clone_eq_iff (s : Snapshot R) : s = cloneSnapshot s ↔ s.Canonical := by
  have hcopy : ∀ {α : Type} {l : Slice α}, l ≠ some [] → l.copy = l := by
    intro α l h
    unfold copy
    split
    · exact absurd rfl h
    · rfl
  refine ⟨fun h => h ▸ canonical_clone s, fun h => ?_⟩
  have hmachines : s.machines.map (List.map cloneMachine) = s.machines := by
    cases hm : s.machines with
    | none => rfl
    | some l =>
      refine congrArg some ((List.map_congr_left fun m hmem => ?_).trans (List.map_id l))
      obtain ⟨hh, hk, hs⟩ := h.machine m (by rw [hm]; exact hmem)
      rw [cloneMachine, hcopy hh, hcopy hk, hcopy hs]
      rfl
  rw [cloneSnapshot, hcopy h.health, hcopy h.machines, hmachines]

section Run

open SnapshotStore

variable [DecidableEq R] {content : Snapshot R → Bool} (s : SnapshotStore content)

variable {s} {c x : Snapshot R} in
/-- with the current generation, only the current snapshot itself changes nothing -/
theorem publish_eq_iff (hcurrent : s.current = some c) (hvalid : x.valid content = true)
    (hgeneration : x.generation = c.generation) :
    s.publish x = (s, .ok false) ↔ x = c := by
  rw [publish, dif_pos hvalid, hcurrent]
  dsimp only
  rw [if_pos hgeneration]
  by_cases h : x = c
  · simp [h]
  · simp [h]

variable {s} in
/-- what was published is what a second publication is compared with -/
theorem publish_again_iff {y : Snapshot R} {s' : SnapshotStore content} (hput : s.publish y = (s', .ok true)) :
    s'.publish y = (s', .ok false) ↔ y.Canonical := by
  unfold publish at hput
  split_ifs at hput with hy
  · have hs : s' = s.put y hy := by
      split at hput
      · exact (Prod.mk.inj hput).1.symm
      · split_ifs at hput
        all_goals obtain ⟨rfl, hanswer⟩ := Prod.mk.inj hput
        · cases hanswer
        · cases hanswer
        · cases hanswer
        · rfl
    subst hs
    exact (publish_eq_iff (c := cloneSnapshot y) rfl hy rfl).trans (clone_eq_iff y)
  · cases (Prod.mk.inj hput).2

/-- **Publishing the same content again.** -/
theorem republish_iff :
    (∀ c x, s.current = some c → x.plain = c.plain →
      (s.publish x = (s, .ok false) ↔ (x.Canonical ∧ x.forms = c.forms) ∧ x.observedAt.form = c.observedAt.form) ∧
      ∀ (observedAt : Time) utc, observedAt.instant ≠ 0 →
        (s.update observedAt utc (fun _ => .ok x) = (s, .ok false) ↔ x.Canonical ∧ x.forms = c.forms)) ∧
    ∀ y s', s.publish y = (s', .ok true) → (s'.publish y = (s', .ok false) ↔ y.Canonical) := by
  refine ⟨fun c x hcurrent hplain => ?_, fun y s' hput => publish_again_iff hput⟩
  obtain ⟨hc, hvalid⟩ := s.stored c hcurrent
  have hfields := hplain
  simp only [Snapshot.plain, Snapshot.mk.injEq, Time.plain, Time.mk.injEq, Option.some.injEq] at hfields
  obtain ⟨hschema, hgeneration, ⟨hinstant, -⟩, hstate, hversion, -, -, hdomain⟩ := hfields
  rw [alike_iff hc hplain]
  refine ⟨?_, fun observedAt utc hclock => ?_⟩
  · rw [publish_eq_iff hcurrent ((valid_congr hplain).trans hvalid) hgeneration]
    cases x
    cases c
    simp_all [Time.ext_iff]
    tauto
  · have hv1 : c.schema = snapshotSchemaV1 := by
      simp only [Snapshot.valid, Bool.and_eq_true, beq_iff_eq] at hvalid
      exact hvalid.1.1.1
    have hsemantic : ∀ observedAt,
        semanticSnapshotEqual c { x with schema := snapshotSchemaV1, observedAt, generation := 1 } = true ↔
        x.health = c.health ∧ x.machines = c.machines := by
      intro observedAt
      simp [semanticSnapshotEqual, hv1, hstate, hversion, hdomain]
      tauto
    rw [← hsemantic ⟨observedAt.instant, utc⟩, SnapshotStore.update, if_neg hclock, hcurrent]
    dsimp only
    split_ifs with h <;> simp [h]

/-- a snapshot with one machine, whose health is in the list -/
def idle (health : Slice HealthItem) : Snapshot Unit :=
  ⟨snapshotSchemaV1, 1, ⟨1, 0⟩, "ready", "1", none, some [⟨(), some ["work"], some ⟨1, 0⟩, none, none, health⟩], ""⟩

/-- a store that was given the snapshot, with a watcher -/
def given (health : Slice HealthItem) : SnapshotStore fun _ : Snapshot Unit => true :=
  put ⟨none, [none], fun _ h => nomatch h⟩ (idle health) rfl

theorem idle_republished : (given none).publish (idle none) = (given none, .ok false) ∧
    (given none).update ⟨2, 0⟩ 0 (fun _ => .ok (idle none)) = (given none, .ok false) := by
  have h := (republish_iff (given none)).1 (idle none) (idle none) rfl rfl
  have hc : (idle none).Canonical := ⟨by decide, by decide, by decide⟩
  exact ⟨h.1.2 ⟨⟨hc, rfl⟩, rfl⟩, (h.2 ⟨2, 0⟩ 0 (by decide)).2 ⟨hc, rfl⟩⟩

/-- an empty list that is not nil: the second publication is stale, and every update makes a generation and wakes
the watcher -/
theorem empty_health_not_same : ((given (some [])).publish (idle (some []))).2 = .error .staleGeneration ∧
    ((given (some [])).update ⟨2, 0⟩ 0 fun _ => .ok (idle (some []))).2 = .ok true := by
  decide

end Run

end Paperboat.LocalDaemon.Stored
