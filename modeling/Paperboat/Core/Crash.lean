/-
Computations that write to a store which outlives them, and that may be stopped after
any of their writes.

A `Process` gives the stores after its writes, in order, and how it ends: with an answer
or with an error. What a stopped process leaves is the store it began with or one of
those.

Results:
- `Keeps`: an invariant of the store that every write keeps, and so what holds wherever
  the process is stopped (`Keeps.stopped`);
- `Ends`: what holds of the answer, or of the error, and of the store at the end, from a
  precondition;
- both go through a program step by step (`Keeps.bind`, `Ends.bind`, `Ends.forEach`).
-/
import Mathlib.Tactic

namespace Paperboat.Crash

variable {σ ε α β : Type}

/-- a computation over a store: the stores after its writes, in order, and how it ends -/
def Process (σ ε α : Type) : Type := σ → List σ × Except ε α

/-- the store the writes leave -/
def left (s : σ) (writes : List σ) : σ := writes.getLastD s

theorem left_append (s : σ) (l l' : List σ) : left s (l ++ l') = left (left s l) l' := by
  unfold left
  cases l'.getLast? <;> simp

theorem left_mem (s : σ) (l : List σ) : left s l = s ∨ left s l ∈ l := by
  cases l with
  | nil => exact .inl rfl
  | cons a l => exact .inr (by rw [left, List.getLastD_cons]; exact List.getLastD_mem_cons)

namespace Process

/-- the first computation, then the second on what it answers and on the store it leaves -/
def bind (m : Process σ ε α) (f : α → Process σ ε β) : Process σ ε β := fun s =>
  match m s with
  | (writes, .error e) => (writes, .error e)
  | (writes, .ok a) => (writes ++ (f a (left s writes)).1, (f a (left s writes)).2)

instance : Monad (Process σ ε) where
  pure a := fun _ => ([], .ok a)
  bind := bind

/-- look at the store -/
def look : Process σ ε σ := fun s => ([], .ok s)

/-- one write, which happens as a whole or not at all -/
def write (f : σ → σ) : Process σ ε Unit := fun s => ([f s], .ok ())

def fail (e : ε) : Process σ ε α := fun _ => ([], .error e)

/-- the computation, with its error changed -/
def mapError (g : ε → ε) (m : Process σ ε α) : Process σ ε α := fun s => ((m s).1, (m s).2.mapError g)

/-- the loop over a list -/
def forEach (l : List β) (f : β → Process σ ε Unit) : Process σ ε Unit :=
  match l with
  | [] => pure ()
  | x :: l => do f x; forEach l f

/-- what is left when the process is stopped after `n` writes, or ends before -/
def stopped (m : Process σ ε α) (n : Nat) (s : σ) : σ := left s ((m s).1.take n)

theorem pure_bind (a : α) (f : α → Process σ ε β) : (pure a >>= f) = f a := rfl

theorem fail_bind (e : ε) (f : α → Process σ ε β) : (fail e >>= f) = fail e := rfl

theorem look_bind (f : σ → Process σ ε β) (s : σ) : (look >>= f) s = f s s := rfl

variable {f : α → Process σ ε β} {m : Process σ ε α}

theorem bind_error {s : σ} {l : List σ} {e : ε} (h : m s = (l, .error e)) : (m >>= f) s = (l, .error e) := by
  change Process.bind m f s = _
  rw [Process.bind, h]

/-- an answer of two steps is an answer of the second to an answer of the first -/
theorem bind_ok {s : σ} {b : β} (h : ((m >>= f) s).2 = .ok b) :
    ∃ a, (m s).2 = .ok a ∧ (f a (left s (m s).1)).2 = .ok b := by
  change (Process.bind m f s).2 = .ok b at h
  unfold Process.bind at h
  generalize m s = r at h ⊢
  obtain ⟨writes, result⟩ := r
  cases result with
  | error e => cases h
  | ok a => exact ⟨a, rfl, h⟩

end Process

open Process

variable {m : Process σ ε α} {f : α → Process σ ε β}

/-! ## invariants of every write -/

/-- every write keeps `I` -/
def Keeps (I : σ → Prop) (m : Process σ ε α) : Prop := ∀ s, I s → ∀ s' ∈ (m s).1, I s'

section Keeps

variable {I : σ → Prop}

theorem Keeps.left (h : Keeps I m) {s : σ} (hs : I s) : I (left s (m s).1) := by
  rcases left_mem s (m s).1 with heq | hmem
  · rwa [heq]
  · exact h s hs _ hmem

theorem Keeps.stopped (h : Keeps I m) {s : σ} (hs : I s) (n : Nat) : I (m.stopped n s) := by
  rcases left_mem s ((m s).1.take n) with heq | hmem
  · rwa [Process.stopped, heq]
  · exact h s hs _ (List.mem_of_mem_take hmem)

theorem keeps_pure (a : α) : Keeps I (pure a : Process σ ε α) := nofun

theorem keeps_fail (e : ε) : Keeps I (fail e : Process σ ε α) := nofun

theorem keeps_write {g : σ → σ} (h : ∀ s, I s → I (g s)) : Keeps I (write g : Process σ ε Unit) := by
  intro s hs s' hs'
  rw [List.mem_singleton.1 hs']
  exact h s hs

theorem Keeps.mapError (h : Keeps I m) (g : ε → ε) : Keeps I (m.mapError g) := h

/-- the second step keeps the invariant for the answers that the first can give -/
theorem Keeps.bind_of {A : α → Prop} (hm : Keeps I m) (hA : ∀ s a, (m s).2 = .ok a → A a)
    (hf : ∀ a, A a → Keeps I (f a)) : Keeps I (m >>= f) := by
  intro s hs s' hs'
  change s' ∈ (Process.bind m f s).1 at hs'
  unfold Process.bind at hs'
  have hall := hm s hs
  have hleft := hm.left hs
  have hanswer := hA s
  generalize m s = r at hs' hall hleft hanswer
  obtain ⟨writes, result⟩ := r
  cases result with
  | error e => exact hall s' hs'
  | ok a =>
    rcases List.mem_append.1 hs' with h | h
    · exact hall s' h
    · exact hf a (hanswer a rfl) _ hleft s' h

theorem Keeps.bind (hm : Keeps I m) (hf : ∀ a, Keeps I (f a)) : Keeps I (m >>= f) :=
  hm.bind_of (A := fun _ => True) (fun _ _ _ => trivial) fun a _ => hf a

theorem keeps_look_bind {g : σ → Process σ ε β} (h : ∀ s, I s → Keeps I (g s)) : Keeps I (look >>= g) :=
  fun s hs => h s hs s hs

theorem keeps_ite {p : Prop} [Decidable p] {m' : Process σ ε α} (h : p → Keeps I m) (h' : ¬ p → Keeps I m') :
    Keeps I (if p then m else m') := by
  split_ifs with hp
  · exact h hp
  · exact h' hp

theorem keeps_forEach {l : List β} {g : β → Process σ ε Unit} (h : ∀ x ∈ l, Keeps I (g x)) : Keeps I (forEach l g) := by
  induction l with
  | nil => exact keeps_pure ()
  | cons x l ih => exact (h x List.mem_cons_self).bind fun _ => ih fun y hy => h y (List.mem_cons_of_mem x hy)

end Keeps

/-! ## how a process ends -/

/-- from a store with `P` the process answers with `Q` or fails with `E` -/
def Ends (P : σ → Prop) (m : Process σ ε α) (Q : α → σ → Prop) (E : ε → Prop) : Prop :=
  ∀ s, P s → (∀ a, (m s).2 = .ok a → Q a (left s (m s).1)) ∧ ∀ e, (m s).2 = .error e → E e

section Ends

variable {P : σ → Prop} {Q : α → σ → Prop} {R : β → σ → Prop} {E : ε → Prop}

theorem ends_pure {a : α} (h : ∀ s, P s → Q a s) : Ends P (pure a : Process σ ε α) Q E :=
  fun s hs => ⟨fun _ ha => (Except.ok.inj ha) ▸ h s hs, fun _ he => absurd he (by simp [pure])⟩

theorem ends_fail {e : ε} (h : ∀ s, P s → E e) : Ends P (fail e : Process σ ε α) Q E :=
  fun s hs => ⟨fun _ ha => absurd ha (by simp [fail]), fun _ he => (Except.error.inj he) ▸ h s hs⟩

theorem ends_write {g : σ → σ} {Q : Unit → σ → Prop} (h : ∀ s, P s → Q () (g s)) :
    Ends P (write g : Process σ ε Unit) Q E :=
  fun s hs => ⟨fun _ _ => h s hs, fun _ he => absurd he (by simp [write])⟩

theorem Ends.bind (hm : Ends P m Q E) (hf : ∀ a, Ends (Q a) (f a) R E) : Ends P (m >>= f) R E := by
  intro s hs
  change (∀ b, (Process.bind m f s).2 = .ok b → R b (left s (Process.bind m f s).1)) ∧
    ∀ e, (Process.bind m f s).2 = .error e → E e
  have hs := hm s hs
  unfold Process.bind
  generalize m s = r at hs
  obtain ⟨writes, result⟩ := r
  cases result with
  | error e => exact ⟨nofun, fun e' he => hs.2 e' (congrArg Except.error (Except.error.inj he))⟩
  | ok a =>
    have hnext := hf a _ (hs.1 a rfl)
    rw [left_append]
    exact hnext

theorem ends_look_bind {g : σ → Process σ ε β} (h : ∀ s, P s → Ends (· = s) (g s) R E) : Ends P (look >>= g) R E :=
  fun s hs => h s hs s rfl

theorem Ends.mono {P' : σ → Prop} {Q' : α → σ → Prop} (h : Ends P m Q E) (hP : ∀ s, P' s → P s)
    (hQ : ∀ a s, Q a s → Q' a s) : Ends P' m Q' E :=
  fun s hs => ⟨fun a ha => hQ a _ ((h s (hP s hs)).1 a ha), (h s (hP s hs)).2⟩

theorem Ends.mapError (h : Ends P m Q E) {g : ε → ε} (hg : ∀ e, E e → E (g e)) : Ends P (m.mapError g) Q E := by
  intro s hs
  obtain ⟨hok, herror⟩ := h s hs
  unfold Process.mapError
  generalize m s = r at hok herror ⊢
  obtain ⟨writes, result⟩ := r
  cases result with
  | error e => exact ⟨fun a ha => absurd ha (by simp [Except.mapError]), fun e' he =>
      Except.error.inj he ▸ hg e (herror e rfl)⟩
  | ok a => exact ⟨hok, fun e he => absurd he (by simp [Except.mapError])⟩

theorem ends_ite {p : Prop} [Decidable p] {m' : Process σ ε α} (h : p → Ends P m Q E) (h' : ¬ p → Ends P m' Q E) :
    Ends P (if p then m else m') Q E := by
  split_ifs with hp
  · exact h hp
  · exact h' hp

theorem ends_forEach {l : List β} {g : β → Process σ ε Unit} (h : ∀ x ∈ l, Ends P (g x) (fun _ => P) E) :
    Ends P (forEach l g) (fun _ => P) E := by
  induction l with
  | nil => exact ends_pure fun _ hs => hs
  | cons x l ih => exact (h x List.mem_cons_self).bind fun _ => ih fun y hy => h y (List.mem_cons_of_mem x hy)

end Ends

end Paperboat.Crash
