/-
A fence against work: whoever raised it may promise that nothing runs until the fence is
taken down.

`Change` lists what may happen to the fence, to the work and to the promises;
`Change.held` says that it keeps every promise.
-/
import Mathlib.Tactic

namespace Paperboat.Fence

variable {τ ω : Type} [DecidableEq τ] [DecidableEq ω]

/-- who has the fence, the work that runs, and those who were promised that none runs and none is let in -/
structure View (τ ω : Type) where
  fence : Option τ
  running : List ω
  promised : List τ

/-- every promise is kept -/
def View.Held (v : View τ ω) : Prop := ∀ t ∈ v.promised, v.fence = some t ∧ v.running = []

inductive Change (v : View τ ω) : View τ ω → Prop
  | raise (t : τ) (h : v.fence = none) : Change v { v with fence := some t }
  | promise (t : τ) (h : v.fence = some t) (hidle : v.running = []) : Change v { v with promised := t :: v.promised }
  /-- the fence is given up before it was promised to anybody -/
  | lower (t : τ) (h : v.fence = some t) (hfree : t ∉ v.promised) : Change v { v with fence := none }
  /-- the end of a promise, and perhaps of the fence if it is the same -/
  | close (t : τ) (f : Option τ) (h : f = v.fence ∨ v.fence = some t) :
    Change v { v with fence := f, promised := v.promised.filter (· ≠ t) }
  | admits (w : ω) (h : v.fence = none) : Change v { v with running := w :: v.running }
  /-- work that joins other work -/
  | join (w : ω) (h : v.running ≠ []) : Change v { v with running := w :: v.running }
  | release (w : ω) : Change v { v with running := v.running.erase w }

/-- where `e` stands for nobody -/
theorem Change.raised {e s t : τ} (hs : s = e) (ht : t ≠ e) {running : List ω} {promised : List τ} :
    Change ⟨if s = e then none else some s, running, promised⟩ ⟨if t = e then none else some t, running, promised⟩ := by
  rw [if_pos hs, if_neg ht]
  exact .raise t rfl

theorem Change.held {v v' : View τ ω} (h : Change v v') (hheld : v.Held) : v'.Held := by
  have hnobody : v.fence = none → ∀ t, t ∉ v.promised := fun hnone t ht => by
    rw [(hheld t ht).1] at hnone
    cases hnone
  intro u hu
  cases h with
  | raise t h | admits w h => exact absurd hu (hnobody h u)
  | promise t h hidle =>
    rcases List.mem_cons.1 hu with rfl | hu
    · exact ⟨h, hidle⟩
    · exact hheld u hu
  | lower t h hfree =>
    have hfence := (hheld u hu).1
    rw [h] at hfence
    exact absurd (Option.some.inj hfence ▸ hu) hfree
  | close t f h =>
    obtain ⟨hmem, hne⟩ := List.mem_filter.1 hu
    obtain ⟨hfence, hidle⟩ := hheld u hmem
    have hother : v.fence ≠ some t := fun heq => by
      rw [hfence] at heq
      exact (of_decide_eq_true hne) (Option.some.inj heq)
    exact ⟨(h.resolve_right hother).trans hfence, hidle⟩
  | join w h => exact absurd (hheld u hu).2 h
  | release w =>
    obtain ⟨hfence, hidle⟩ := hheld u hu
    exact ⟨hfence, by simp [hidle]⟩

end Paperboat.Fence
