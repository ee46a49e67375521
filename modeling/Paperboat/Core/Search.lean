/-
Binary search and sorted tables, over any linearly ordered key.

`search n f` is the loop of Go's `sort.Search`: on a predicate that stays true once true
it returns the least index below `n` at which `f` holds, or `n` (`search_spec`).
`sortedFind` looks a key up in a list sorted by that key with one such search; on a
strictly sorted list it finds exactly the entry with the key (`sortedFind_eq_some`).
`sortBy` sorts by key; entries with distinct keys come out strictly sorted
(`sortBy_strict`), and the order in which they were given does not show (`sortBy_perm`).
What comes after the last of the first entries is the rest of the list
(`filter_after_take`).
-/
import Mathlib.Tactic
import Mathlib.Data.List.Sort
import Mathlib.Data.List.Lex

namespace Paperboat.Search

/-! ## The search loop -/

/-- the loop of sort.Search on `[i, j)`; each round halves the interval, `fuel` bounds the rounds -/
def searchLoop (f : ℕ → Bool) : ℕ → ℕ → ℕ → ℕ
  | 0, i, _ => i
  | fuel + 1, i, j =>
    if i < j then
      if f ((i + j) / 2) then searchLoop f fuel i ((i + j) / 2) else searchLoop f fuel ((i + j) / 2 + 1) j
    else i

/-- sort.Search -/
def search (n : ℕ) (f : ℕ → Bool) : ℕ := searchLoop f n 0 n

/-- `f` stays true once true, below `n` -/
def Upward (n : ℕ) (f : ℕ → Bool) : Prop := ∀ i k, i ≤ k → k < n → f i = true → f k = true

/-- the loop invariant: nothing below `i` satisfies `f`, and `j` is the end or satisfies it -/
theorem searchLoop_spec (n : ℕ) (f : ℕ → Bool) (hf : Upward n f) :
    ∀ fuel i j, i ≤ j → j ≤ n → j ≤ i + fuel → (∀ k < i, f k = false) → (j < n → f j = true) →
      searchLoop f fuel i j ≤ n ∧ (∀ k < searchLoop f fuel i j, f k = false) ∧
        (searchLoop f fuel i j < n → f (searchLoop f fuel i j) = true) := by
  intro fuel
  induction fuel with
  | zero =>
    intro i j hij hjn hfuel hlow hhigh
    have : i = j := by omega
    subst this
    exact ⟨hjn, hlow, hhigh⟩
  | succ fuel ih =>
    intro i j hij hjn hfuel hlow hhigh
    simp only [searchLoop]
    by_cases hlt : i < j
    · rw [if_pos hlt]
      by_cases hm : f ((i + j) / 2) = true
      · rw [if_pos hm]
        exact ih i ((i + j) / 2) (by omega) (by omega) (by omega) hlow (fun _ => hm)
      · rw [if_neg hm]
        refine ih ((i + j) / 2 + 1) j (by omega) hjn (by omega) (fun k hk => ?_) hhigh
        by_contra hk'
        exact hm (hf k _ (by omega) (by omega) (by simpa using hk'))
    · rw [if_neg hlt]
      have : i = j := by omega
      subst this
      exact ⟨hjn, hlow, hhigh⟩

theorem search_spec (n : ℕ) (f : ℕ → Bool) (hf : Upward n f) :
    search n f ≤ n ∧ (∀ k < search n f, f k = false) ∧ (search n f < n → f (search n f) = true) :=
  searchLoop_spec n f hf n 0 n (Nat.zero_le n) le_rfl (by omega) (by simp) (fun h => absurd h (lt_irrefl n))

/-! ## Sorted tables -/

section Table

variable {α κ : Type} [LinearOrder κ] (key : α → κ)

/-- the list sorted by key -/
def sortBy (l : List α) : List α := l.insertionSort fun a b => key a ≤ key b

/-- the entry with key `k`, by binary search in a list sorted by key -/
def sortedFind (l : List α) (k : κ) : Option α :=
  match l[search l.length fun i => (l[i]?).all fun a => !decide (key a < k)]? with
  | some a => if key a = k then some a else none
  | none => none

/-- strictly sorted by key: at most one entry per key -/
def Strict (l : List α) : Prop := l.Pairwise fun a b => key a < key b

variable {key}

variable {l : List α}

theorem upward_of_strict (hl : Strict key l) (k : κ) :
    Upward l.length fun i => (l[i]?).all fun a => !decide (key a < k) := by
  intro i j hij hj hi
  have hi' : i < l.length := by omega
  simp only [List.getElem?_eq_getElem hj, List.getElem?_eq_getElem hi', Option.all_some, Bool.not_eq_true',
    decide_eq_false_iff_not, not_lt] at hi ⊢
  rcases Nat.lt_or_eq_of_le hij with h | rfl
  · exact hi.trans (List.pairwise_iff_getElem.1 hl i j hi' hj h).le
  · exact hi

variable {a : α} {k : κ}

theorem sortedFind_mem (h : sortedFind key l k = some a) : a ∈ l ∧ key a = k := by
  unfold sortedFind at h
  split at h
  · rename_i b hb
    split_ifs at h with hk
    cases h
    exact ⟨List.mem_of_getElem? hb, hk⟩
  · cases h

/-- **Lookup in a sorted table.** Binary search in a strictly sorted list returns the entry with the key, and returns
nothing when there is none. -/
theorem sortedFind_eq_some (hl : Strict key l) : sortedFind key l k = some a ↔ a ∈ l ∧ key a = k := by
  refine ⟨sortedFind_mem, ?_⟩
  rintro ⟨ha, rfl⟩
  obtain ⟨j, hj, rfl⟩ := List.getElem_of_mem ha
  obtain ⟨hle, hlow, hhigh⟩ := search_spec l.length _ (upward_of_strict hl (key l[j]))
  set i := search l.length fun i => (l[i]?).all fun a => !decide (key a < key l[j]) with hi
  -- the search stops at `j`: everything before is smaller, `j` itself is not
  have hij : i = j := by
    rcases lt_trichotomy i j with h | h | h
    · have hi' : i < l.length := by omega
      have := hhigh hi'
      simp only [List.getElem?_eq_getElem hi', Option.all_some, Bool.not_eq_true', decide_eq_false_iff_not,
        not_lt] at this
      exact absurd (List.pairwise_iff_getElem.1 hl i j hi' hj h) (not_lt.2 this)
    · exact h
    · have := hlow j h
      simp [List.getElem?_eq_getElem hj] at this
  unfold sortedFind
  rw [← hi, hij, List.getElem?_eq_getElem hj]
  simp

theorem sortedFind_eq_none (hl : Strict key l) : sortedFind key l k = none ↔ ∀ a ∈ l, key a ≠ k := by
  constructor
  · intro h a ha hk
    rw [(sortedFind_eq_some hl).2 ⟨ha, hk⟩] at h
    cases h
  · intro h
    cases hf : sortedFind key l k with
    | none => rfl
    | some a => exact absurd (sortedFind_mem hf).2 (h a (sortedFind_mem hf).1)

theorem mem_sortBy : a ∈ sortBy key l ↔ a ∈ l := List.mem_insertionSort _

theorem sortBy_strict (h : (l.map key).Nodup) : Strict key (sortBy key l) := by
  have hsorted : (sortBy key l).Pairwise fun a b => key a ≤ key b := by
    exact List.pairwise_insertionSort _ l
  have hnodup : ((sortBy key l).map key).Nodup :=
    (((List.perm_insertionSort _ l).map key).nodup_iff).2 h
  have hne : (sortBy key l).Pairwise fun a b => key a ≠ key b := List.pairwise_map.1 hnodup
  exact (hsorted.and hne).imp fun h => lt_of_le_of_ne h.1 h.2

variable {l₁ l₂ : List α}

/-- two strictly sorted lists with the same entries are equal -/
theorem strict_ext (h₁ : Strict key l₁) (h₂ : Strict key l₂) (h : ∀ a, a ∈ l₁ ↔ a ∈ l₂) : l₁ = l₂ := by
  have n₁ : l₁.Nodup := h₁.imp fun h e => absurd (e ▸ h) (lt_irrefl _)
  have n₂ : l₂.Nodup := h₂.imp fun h e => absurd (e ▸ h) (lt_irrefl _)
  refine ((List.perm_ext_iff_of_nodup n₁ n₂).2 h).eq_of_pairwise ?_ h₁ h₂
  intro a b _ _ hab hba
  exact absurd (hab.trans hba) (lt_irrefl _)

/-- **The order of the entries does not show**: permuted lists with distinct keys sort to the same list -/
theorem sortBy_perm (h : (l₁.map key).Nodup) (hp : l₁.Perm l₂) : sortBy key l₁ = sortBy key l₂ := by
  refine strict_ext (sortBy_strict h) (sortBy_strict ((hp.map key).nodup_iff.1 h)) fun a => ?_
  rw [mem_sortBy, mem_sortBy, hp.mem_iff]

/-- what comes after the last of the first entries of a strictly sorted list -/
theorem filter_after_take (hl : Strict key l) {n : ℕ} {x : α} (hx : (l.take n).getLast? = some x) :
    l.filter (fun a => decide (key x < key a)) = l.drop n := by
  have hpair : (l.take n ++ l.drop n).Pairwise fun a b => key a < key b := by rw [List.take_append_drop]; exact hl
  obtain ⟨htake, -, hcross⟩ := List.pairwise_append.1 hpair
  have hfirst : (l.take n).filter (fun a => decide (key x < key a)) = [] := by
    apply List.filter_eq_nil_iff.2
    intro a ha hlt
    obtain ⟨front, hfront⟩ := List.getLast?_eq_some_iff.1 hx
    rw [hfront] at htake ha
    obtain ha | ha := List.mem_append.1 ha
    · have hax := (List.pairwise_append.1 htake).2.2 a ha x (by simp)
      exact absurd (of_decide_eq_true hlt) (not_lt.2 hax.le)
    · obtain rfl := List.mem_singleton.1 ha
      exact absurd (of_decide_eq_true hlt) (lt_irrefl _)
  have hrest : (l.drop n).filter (fun a => decide (key x < key a)) = l.drop n :=
    List.filter_eq_self.2 fun a ha => decide_eq_true (hcross x (List.mem_of_getLast? hx) a ha)
  calc l.filter (fun a => decide (key x < key a))
      = (l.take n ++ l.drop n).filter (fun a => decide (key x < key a)) := by rw [List.take_append_drop]
    _ = l.drop n := by rw [List.filter_append, hfirst, hrest, List.nil_append]

end Table

end Paperboat.Search
