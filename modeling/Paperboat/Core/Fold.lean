/-
Rules for left folds: what a loop over a list establishes.

Results:
- `foldl_or`, `foldl_zipIdx_or`: when every round adds one fact and forgets none, the
  loop ends with the facts of all rounds.
- `foldl_inv`: what every round preserves holds at the end (the run lemma of a step
  function).
- `flatten_mapIdx_eq_nil`: a loop that appends at each index appends nothing exactly
  when no round does.
- `addNew`, `dedup`: the "append unless seen" loop keeps exactly the members
  (`mem_dedup`), each once (`dedup_nodup`).
- `lookup_eq_some`: lookup in a list with distinct keys is membership.
- `lastWith_eq_some`: so is what a map filled in a loop keeps.
-/
import Mathlib.Tactic

namespace Paperboat.Fold

variable {α β : Type}

variable (Q : β → Prop)

/-- a loop whose rounds each add the fact `P a` and keep the others -/
theorem foldl_or (P : α → Prop) (f : β → α → β) (h : ∀ b a, Q (f b a) ↔ Q b ∨ P a) (l : List α) (b : β) :
    Q (l.foldl f b) ↔ Q b ∨ ∃ a ∈ l, P a := by
  induction l generalizing b with
  | nil => simp
  | cons a l ih =>
    rw [List.foldl_cons, ih, h]
    simp [or_assoc]

/-- what every round preserves holds at the end of the loop -/
theorem foldl_inv (f : β → α → β) (l : List α) (h : ∀ b, ∀ a ∈ l, Q b → Q (f b a)) (b : β) (hb : Q b) :
    Q (l.foldl f b) := by
  induction l generalizing b with
  | nil => exact hb
  | cons a l ih =>
    exact ih (fun b' a' ha' => h b' a' (List.mem_cons_of_mem a ha')) _ (h b a List.mem_cons_self hb)

/-- the same with the index at hand: the facts do not depend on it -/
theorem foldl_zipIdx_or (P : α → Prop) (f : β → α × ℕ → β) (l : List α)
    (h : ∀ b, ∀ p ∈ l.zipIdx, Q (f b p) ↔ Q b ∨ P p.1) (b : β) : Q (l.zipIdx.foldl f b) ↔ Q b ∨ ∃ a ∈ l, P a := by
  have hfold : ∀ ps : List (α × ℕ), (∀ p ∈ ps, p ∈ l.zipIdx) → ∀ b, Q (ps.foldl f b) ↔ Q b ∨ ∃ p ∈ ps, P p.1 := by
    intro ps
    induction ps with
    | nil => simp
    | cons p ps ih =>
      intro hl b
      rw [List.foldl_cons, ih (fun q hq => hl q (List.mem_cons_of_mem p hq)), h b p (hl p List.mem_cons_self)]
      simp [or_assoc]
  rw [hfold _ fun _ hp => hp]
  refine or_congr_right ⟨?_, ?_⟩
  · rintro ⟨p, hp, hP⟩
    exact ⟨p.1, List.fst_mem_of_mem_zipIdx hp, hP⟩
  · rintro ⟨a, ha, hP⟩
    obtain ⟨i, hi, rfl⟩ := List.getElem_of_mem ha
    exact ⟨(l[i], i), List.mk_mem_zipIdx_iff_getElem?.2 (List.getElem?_eq_getElem hi), hP⟩

/-- a loop that appends to a list at each index appends nothing exactly when no round does -/
theorem flatten_mapIdx_eq_nil {γ : Type} (f : ℕ → α → List γ) (l : List α) (P : α → Prop)
    (h : ∀ i, ∀ a ∈ l, f i a = [] ↔ P a) : (l.mapIdx f).flatten = [] ↔ ∀ a ∈ l, P a := by
  rw [List.flatten_eq_nil_iff]
  constructor
  · intro hnil a ha
    obtain ⟨i, hi, rfl⟩ := List.getElem_of_mem ha
    exact (h i _ ha).1 (hnil _ (List.mem_mapIdx.2 ⟨i, hi, rfl⟩))
  · intro hP es hes
    obtain ⟨i, hi, rfl⟩ := List.mem_mapIdx.1 hes
    exact (h i _ (List.getElem_mem hi)).2 (hP _ (List.getElem_mem hi))

/-! ## Append unless seen -/

variable [DecidableEq α]

def addNew (out : List α) (a : α) : List α := if a ∈ out then out else out ++ [a]

/-- the members of `l`, each once, at its first place -/
def dedup (l : List α) : List α := l.foldl addNew []

theorem mem_addNew (out : List α) (a b : α) : b ∈ addNew out a ↔ b ∈ out ∨ b = a := by
  unfold addNew
  split_ifs with h
  · constructor
    · exact .inl
    · rintro (hb | rfl)
      · exact hb
      · exact h
  · simp

theorem mem_dedup (l : List α) (b : α) : b ∈ dedup l ↔ b ∈ l := by
  have := foldl_or (fun out : List α => b ∈ out) (fun a => b = a) addNew (fun out a => mem_addNew out a b) l []
  simpa [dedup] using this

theorem dedup_nodup (l : List α) : (dedup l).Nodup := by
  refine foldl_inv List.Nodup addNew l (fun out a _ hout => ?_) [] List.nodup_nil
  unfold addNew
  split_ifs with h
  · exact hout
  · exact hout.append (List.nodup_singleton a) (by simpa using h)

/-- adding to a list adds what is not there yet, each once -/
theorem foldl_addNew (out l : List α) : l.foldl addNew out = out ++ dedup (l.filter fun a => a ∉ out) := by
  induction l using List.reverseRecOn with
  | nil => simp [dedup]
  | append_singleton l a ih =>
    have hdedup : ∀ l : List α, dedup (l ++ [a]) = addNew (dedup l) a := fun l => by
      rw [dedup, List.foldl_append, List.foldl_cons, List.foldl_nil, ← dedup]
    rw [List.foldl_append, List.foldl_cons, List.foldl_nil, ih, List.filter_append]
    by_cases ha : a ∈ out
    · rw [addNew]
      simp [ha]
    · rw [show [a].filter (fun a => a ∉ out) = [a] by simp [ha], hdedup]
      unfold addNew
      by_cases hd : a ∈ dedup (l.filter fun a => a ∉ out)
      · rw [if_pos (List.mem_append_right _ hd), if_pos hd]
      · rw [if_neg (by simp only [List.mem_append, not_or]; exact ⟨ha, hd⟩), if_neg hd, List.append_assoc]

/-! ## Lists of entries with distinct keys -/

theorem lookup_eq_some {l : List (α × β)} (hn : (l.map Prod.fst).Nodup) {k : α} {v : β} :
    l.lookup k = some v ↔ (k, v) ∈ l := by
  induction l with
  | nil => simp
  | cons p l ih =>
    obtain ⟨k', v'⟩ := p
    simp only [List.map_cons, List.nodup_cons, List.mem_map, not_exists, not_and] at hn
    by_cases hk : k = k'
    · subst hk
      rw [List.lookup_cons_self]
      simp only [Option.some.injEq, List.mem_cons, Prod.mk.injEq, true_and]
      constructor
      · exact fun h => .inl h.symm
      · rintro (h | h)
        · exact h.symm
        · exact absurd rfl (hn.1 (k, v) h)
    · have hkb : (k == k') = false := beq_eq_false_iff_ne.2 hk
      rw [List.lookup_cons, hkb, ih hn.2]
      simp [hk]

/-! ## The last write to a key -/

/-- the value a map filled in list order keeps for `k`: the last one written -/
def lastWith {κ : Type} [DecidableEq κ] (key : β → κ) (l : List β) (k : κ) : Option β :=
  (l.filter fun a => key a = k).getLast?

variable {l : List β} {κ : Type} {k : κ}

theorem lastWith_mem [DecidableEq κ] {key : β → κ} {a : β} (h : lastWith key l k = some a) : a ∈ l ∧ key a = k := by
  have := List.mem_of_getLast? h
  simpa using this

theorem lastWith_eq_some [DecidableEq κ] {key : β → κ} (hn : (l.map key).Nodup) {a : β} :
    lastWith key l k = some a ↔ a ∈ l ∧ key a = k := by
  refine ⟨lastWith_mem, ?_⟩
  rintro ⟨ha, hk⟩
  have hmem : a ∈ l.filter fun a => key a = k := by simp [ha, hk]
  obtain ⟨b, hb⟩ := Option.ne_none_iff_exists'.1 fun hnone =>
    List.ne_nil_of_mem hmem (List.getLast?_eq_none_iff.1 hnone)
  obtain ⟨hbl, hbk⟩ := lastWith_mem hb
  exact hb.trans (congrArg some (List.inj_on_of_nodup_map hn hbl ha (hbk.trans hk.symm)))

theorem lastWith_isSome [DecidableEq κ] {key : β → κ} : (lastWith key l k).isSome = true ↔ ∃ a ∈ l, key a = k := by
  unfold lastWith
  simp

end Paperboat.Fold
