/-
The loop that keeps the greatest of a list and gives up on a tie with it.

The loop stops at the first element that ties with the best so far, even when a greater
one follows. On a list whose keys differ it never stops (`greatest_ne_tie`) and finds
the one element greater than all others (`greatest_eq_one`).
-/
import Mathlib.Tactic

namespace Paperboat.Greatest

variable {α κ : Type} [LinearOrder κ] (key : α → κ)

inductive Choice (α : Type) where
  | none
  | tie
  | one (a : α)

/-- one round: a greater element replaces the best, an equal one is a tie -/
def Choice.add (c : Choice α) (a : α) : Choice α :=
  match c with
  | .none => .one a
  | .tie => .tie
  | .one b => if key b < key a then .one a else if key a < key b then .one b else .tie

def greatest (l : List α) : Choice α := l.foldl (Choice.add key) .none

/-- what the loop has found after the elements of `l` -/
def Choice.Of (l : List α) : Choice α → Prop
  | .none => l = []
  | .tie => False
  | .one a => a ∈ l ∧ ∀ b ∈ l, b ≠ a → key b < key a

variable {l : List α}

/-- one round on keys not seen before -/
theorem add_of {c : Choice α} {a : α} (hnew : key a ∉ l.map key) (hc : c.Of key l) :
    (c.add key a).Of key (l ++ [a]) := by
  cases c with
  | none =>
    rw [show l = [] from hc]
    exact ⟨List.mem_singleton_self a, fun b hb hne => absurd (List.mem_singleton.1 hb) hne⟩
  | tie => exact hc
  | one b =>
    obtain ⟨hb, hmax⟩ := hc
    have hne : key b ≠ key a := fun h => hnew (h ▸ List.mem_map_of_mem hb)
    simp only [Choice.add]
    split_ifs with h1 h2
    · refine ⟨by simp, fun x hx hxa => ?_⟩
      rcases List.mem_append.1 hx with hx | hx
      · by_cases hxb : x = b
        · exact hxb ▸ h1
        · exact (hmax x hx hxb).trans h1
      · exact absurd (List.mem_singleton.1 hx) hxa
    · refine ⟨List.mem_append_left _ hb, fun x hx hxb => ?_⟩
      rcases List.mem_append.1 hx with hx | hx
      · exact hmax x hx hxb
      · rw [List.mem_singleton.1 hx]; exact h2
    · exact absurd (le_antisymm (not_lt.1 h2) (not_lt.1 h1)) hne

/-- the whole loop, by induction from the end of the list -/
theorem greatest_of (hn : (l.map key).Nodup) : (greatest key l).Of key l := by
  induction l using List.reverseRecOn with
  | nil => rfl
  | append_singleton l a ih =>
    rw [List.map_append, List.nodup_append] at hn
    obtain ⟨hl, _, hdis⟩ := hn
    rw [greatest, List.foldl_append]
    exact add_of key (fun hmem => hdis _ hmem _ (by simp) rfl) (ih hl)

theorem greatest_ne_tie (hn : (l.map key).Nodup) : greatest key l ≠ .tie := by
  intro h
  have := greatest_of key hn
  rw [h] at this
  exact this

theorem greatest_eq_none (hn : (l.map key).Nodup) : greatest key l = .none ↔ l = [] := by
  constructor
  · intro h
    have := greatest_of key hn
    rw [h] at this
    exact this
  · rintro rfl; rfl

theorem greatest_eq_one (hn : (l.map key).Nodup) {a : α} :
    greatest key l = .one a ↔ a ∈ l ∧ ∀ b ∈ l, b ≠ a → key b < key a := by
  have hof := greatest_of key hn
  constructor
  · intro h
    rw [h] at hof
    exact hof
  · rintro ⟨ha, hmax⟩
    cases hg : greatest key l with
    | none => rw [hg] at hof; rw [show l = [] from hof] at ha; cases ha
    | tie => rw [hg] at hof; exact hof.elim
    | one b =>
      rw [hg] at hof
      by_cases hab : a = b
      · rw [hab]
      · exact absurd ((hof.2 a ha hab).trans (hmax b hof.1 (Ne.symm hab))) (lt_irrefl _)

end Paperboat.Greatest
