/-
Runs of a deterministic machine: a state and a step for each operation, in whatever
order the operations come.

Results:
- `run_snoc`: a run grows at its end;
- `run_inv`: what holds at the start and is preserved by every step holds after every
  run;
- `sometime_snoc`: what held at some point of a longer run held before, or holds now;
- `happens_snoc`: an operation of a longer run was performed before, or is performed
  now;
- `throughout_inv`: an invariant that only the operations of a kind preserve holds after
  every run of such operations;
- `always_iff_throughout`: an invariant that a step keeps exactly when it is of a kind
  holds all along exactly in the runs of such operations;
- `always_iff_throughout_of`, `always_iff_throughout_when`: so does a property that an
  invariant implies, in all runs or in those of operations of another kind;
- `throughout_iff_of`: two kinds of operations that an invariant makes the same;
- `throughout_iff_allowed`: whether every operation of a run is of a decidable kind can
  be computed.
-/
import Mathlib.Tactic

namespace Paperboat.Machine

variable {σ ι : Type} (step : σ → ι → σ) (init : σ)

/-- the state after the operations -/
def run (ops : List ι) : σ := ops.foldl step init

theorem run_snoc (ops : List ι) (op : ι) : run step init (ops ++ [op]) = step (run step init ops) op := by
  simp [run, List.foldl_append]

theorem run_append (ops more : List ι) : run step init (ops ++ more) = run step (run step init ops) more :=
  List.foldl_append

/-- an invariant may look at the operations so far -/
theorem run_inv {I : List ι → σ → Prop} (h0 : I [] init)
    (hstep : ∀ ops op, I ops (run step init ops) → I (ops ++ [op]) (step (run step init ops) op)) (ops : List ι) :
    I ops (run step init ops) := by
  induction ops using List.reverseRecOn with
  | nil => exact h0
  | append_singleton ops op ih =>
    rw [run_snoc]
    exact hstep ops op ih

theorem mem_snoc {a b : ι} {l : List ι} : a ∈ l ++ [b] ↔ a ∈ l ∨ a = b := by simp

/-- where a list that grew at its end is split -/
theorem snoc_split {a b : ι} {l pre post : List ι} (h : l ++ [b] = pre ++ a :: post) :
    post = [] ∧ l = pre ∧ b = a ∨ ∃ rest, post = rest ++ [b] ∧ l = pre ++ a :: rest := by
  rcases List.eq_nil_or_concat' post with rfl | ⟨rest, c, rfl⟩
  · exact .inl ⟨rfl, List.append_singleton_inj.1 h⟩
  · rw [← List.cons_append, ← List.append_assoc] at h
    obtain ⟨rfl, rfl⟩ := List.append_singleton_inj.1 h
    exact .inr ⟨rest, rfl, rfl⟩

/-- `P` holds after some first part of the operations -/
def Sometime (P : List ι → Prop) (ops : List ι) : Prop := ∃ pre, pre <+: ops ∧ P pre

variable {ops : List ι} {op : ι}

theorem sometime_snoc {P : List ι → Prop} : Sometime P (ops ++ [op]) ↔ Sometime P ops ∨ P (ops ++ [op]) := by
  constructor
  · rintro ⟨pre, hpre, hP⟩
    rcases List.prefix_concat_iff.1 hpre with h | h
    · exact .inr (h ▸ hP)
    · exact .inl ⟨pre, h, hP⟩
  · rintro (⟨pre, hpre, hP⟩ | hP)
    · exact ⟨pre, hpre.trans (List.prefix_append _ _), hP⟩
    · exact ⟨_, List.prefix_rfl, hP⟩

/-- an operation is performed for which `P` holds, given the operations before it -/
def Happens (P : List ι → ι → Prop) (ops : List ι) : Prop := ∃ pre op, pre ++ [op] <+: ops ∧ P pre op

theorem happens_snoc {P : List ι → ι → Prop} : Happens P (ops ++ [op]) ↔ Happens P ops ∨ P ops op := by
  constructor
  · rintro ⟨pre, op', hpre, hP⟩
    rcases List.prefix_concat_iff.1 hpre with h | h
    · obtain ⟨rfl, rfl⟩ := List.append_singleton_inj.1 h
      exact .inr hP
    · exact .inl ⟨pre, op', h, hP⟩
  · rintro (⟨pre, op', hpre, hP⟩ | hP)
    · exact ⟨pre, op', hpre.trans (List.prefix_append _ _), hP⟩
    · exact ⟨ops, op, List.prefix_rfl, hP⟩

/-- every operation is performed in a state in which `P` allows it -/
def Throughout (P : σ → ι → Prop) (ops : List ι) : Prop := ∀ pre op, pre ++ [op] <+: ops → P (run step init pre) op

variable {P : σ → ι → Prop}

theorem throughout_snoc :
    Throughout step init P (ops ++ [op]) ↔ Throughout step init P ops ∧ P (run step init ops) op := by
  constructor
  · intro h
    exact ⟨fun pre op' hpre => h pre op' (hpre.trans (List.prefix_append _ _)), h ops op List.prefix_rfl⟩
  · rintro ⟨h, hop⟩ pre op' hpre
    rcases List.prefix_concat_iff.1 hpre with heq | hpre
    · obtain ⟨rfl, rfl⟩ := List.append_singleton_inj.1 heq
      exact hop
    · exact h pre op' hpre

variable {I : σ → Prop}

theorem throughout_inv (h0 : I init) (hstep : ∀ s op, P s op → I s → I (step s op))
    (hops : Throughout step init P ops) : I (run step init ops) := by
  induction ops using List.reverseRecOn with
  | nil => exact h0
  | append_singleton ops op ih =>
    obtain ⟨hpre, hop⟩ := (throughout_snoc step init).1 hops
    rw [run_snoc]
    exact hstep _ op hop (ih hpre)

variable {Q : σ → Prop}

/-- a property that an invariant implies holds all along, in runs of operations of a kind `A`, exactly if `P` allows
every operation, when the invariant is kept by what is allowed, and nothing else keeps the property -/
theorem always_iff_throughout_when {A : σ → ι → Prop} (h0 : I init) (hI : ∀ s, I s → Q s)
    (hkeep : ∀ s op, I s → A s op → P s op → I (step s op)) (hexact : ∀ s op, I s → A s op → Q (step s op) → P s op)
    (hA : Throughout step init A ops) : (∀ pre, pre <+: ops → Q (run step init pre)) ↔ Throughout step init P ops := by
  constructor
  · intro h
    have hinv : ∀ pre, pre <+: ops → I (run step init pre) := by
      intro pre
      induction pre using List.reverseRecOn with
      | nil => exact fun _ => h0
      | append_singleton pre op ih =>
        intro hpre
        have hbefore := ih ((List.prefix_append pre [op]).trans hpre)
        have hafter := h _ hpre
        have hop := hA pre op hpre
        rw [run_snoc] at hafter ⊢
        exact hkeep _ op hbefore hop (hexact _ op hbefore hop hafter)
    intro pre op hpre
    have hafter := h _ hpre
    rw [run_snoc] at hafter
    exact hexact _ op (hinv pre ((List.prefix_append pre [op]).trans hpre)) (hA pre op hpre) hafter
  · intro h pre hpre
    have hboth : Throughout step init (fun s op => A s op ∧ P s op) pre := fun pre' op hpre' =>
      ⟨hA pre' op (hpre'.trans hpre), h pre' op (hpre'.trans hpre)⟩
    exact hI _ (throughout_inv step init h0 (fun s op hop hs => hkeep s op hs hop.1 hop.2) hboth)

/-- the same for runs of any operations -/
theorem always_iff_throughout_of (h0 : I init) (hI : ∀ s, I s → Q s)
    (hkeep : ∀ s op, I s → P s op → I (step s op)) (hexact : ∀ s op, I s → Q (step s op) → P s op) (ops : List ι) :
    (∀ pre, pre <+: ops → Q (run step init pre)) ↔ Throughout step init P ops := by
  have htrue : Throughout step init (fun _ _ => True) ops := fun _ _ _ => trivial
  exact always_iff_throughout_when step init h0 hI (fun s op hs _ => hkeep s op hs)
    (fun s op hs _ => hexact s op hs) htrue

/-- the same for what an operation keeps exactly when `P` allows it -/
theorem always_iff_throughout (h0 : I init) (hstep : ∀ s op, I s → (I (step s op) ↔ P s op)) (ops : List ι) :
    (∀ pre, pre <+: ops → I (run step init pre)) ↔ Throughout step init P ops :=
  always_iff_throughout_of step init h0 (fun _ hs => hs) (fun s op hs => (hstep s op hs).2)
    (fun s op hs => (hstep s op hs).1) ops

/-- two kinds of operations that are the same while an invariant holds, which they preserve -/
theorem throughout_iff_of {Q : σ → ι → Prop} (h0 : I init) (hiff : ∀ s op, I s → (P s op ↔ Q s op))
    (hkeep : ∀ s op, I s → Q s op → I (step s op)) : Throughout step init P ops ↔ Throughout step init Q ops := by
  induction ops using List.reverseRecOn with
  | nil => exact ⟨fun _ pre op h => absurd h (by simp), fun _ pre op h => absurd h (by simp)⟩
  | append_singleton ops op ih =>
    rw [throughout_snoc, throughout_snoc, ih]
    apply and_congr_right
    intro hops
    exact hiff _ op (throughout_inv step init h0 (fun s op hop hs => hkeep s op hs hop) hops)

theorem throughout_cons : Throughout step init P (op :: ops) ↔ P init op ∧ Throughout step (step init op) P ops := by
  constructor
  · intro h
    refine ⟨h [] op (by simp), fun pre op' hpre => ?_⟩
    exact h (op :: pre) op' (List.cons_prefix_cons.2 ⟨rfl, hpre⟩)
  · rintro ⟨hop, h⟩ pre op' hpre
    cases pre with
    | nil =>
      rw [List.nil_append, List.cons_prefix_cons] at hpre
      rw [hpre.1]
      exact hop
    | cons a pre =>
      obtain ⟨rfl, hrest⟩ := List.cons_prefix_cons.1 hpre
      exact h pre op' hrest

/-- every operation is allowed in the state it is performed in, by a test -/
def allowed (P : σ → ι → Bool) : σ → List ι → Bool
  | _, [] => true
  | s, op :: ops => P s op && allowed P (step s op) ops

theorem throughout_iff_allowed {P : σ → ι → Bool} :
    Throughout step init (fun s op => P s op = true) ops ↔ allowed step P init ops = true := by
  induction ops generalizing init with
  | nil => exact ⟨fun _ => rfl, fun _ pre op h => absurd h (by simp)⟩
  | cons op ops ih =>
    rw [allowed, Bool.and_eq_true, ← ih, throughout_cons]

end Paperboat.Machine
