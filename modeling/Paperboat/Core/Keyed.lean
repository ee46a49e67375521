/-
Lists whose entries have a key, kept in the order in which the keys first came: an entry
takes the place of the one with its key, or is added at the end.

Results:
- `find?_upsert`, `mem_upsert`, `find?_foldl_upsert`: what the list has under a key
  afterwards; the last entry written wins;
- `map_upsert`, `map_foldl_upsert`: the keys only grow, and each stands once;
- `Located`: a table of the places of the keys, and `located_add`, `located_append`,
  which keep it up when keys are added.
-/
import Paperboat.Core.Fold
import Paperboat.Core.Index

namespace Paperboat.Keyed

open Fold Index

variable {α κ : Type} [DecidableEq κ] (key : α → κ)

/-- the entry under the key of `a` is replaced by `a`, or `a` is added -/
def upsert : List α → α → List α
  | [], a => [a]
  | b :: l, a => if key b = key a then a :: l else b :: upsert l a

/-- the entry under a key -/
def entry (l : List α) (k : κ) : Option α := l.find? fun a => key a == k

variable {key}

theorem upsert_eq (l : List α) (a : α) : upsert key l a =
    match l.findIdx? fun b => key b == key a with
    | some i => l.set i a
    | none => l ++ [a] := by
  induction l with
  | nil => rfl
  | cons b l ih =>
    rw [upsert, List.findIdx?_cons]
    by_cases hb : key b = key a
    · simp [hb]
    · rw [if_neg hb, ih, show (key b == key a) = false from beq_eq_false_iff_ne.2 hb]
      cases l.findIdx? fun b => key b == key a <;> simp

theorem entry_cons (b : α) (l : List α) (k : κ) :
    entry key (b :: l) k = if key b = k then some b else entry key l k := by
  unfold entry
  by_cases hb : key b = k <;> simp [hb]

theorem find?_upsert (l : List α) (a : α) (k : κ) :
    entry key (upsert key l a) k = if key a = k then some a else entry key l k := by
  induction l with
  | nil => simp [upsert, entry_cons]
  | cons b l ih =>
    rw [upsert]
    by_cases hb : key b = key a
    · rw [if_pos hb, entry_cons, entry_cons, hb]
      split_ifs <;> rfl
    · rw [if_neg hb, entry_cons, entry_cons, ih]
      split_ifs with h1 h2
      · exact absurd (h1.trans h2.symm) hb
      · rfl
      · rfl
      · rfl

variable {l : List α}

/-- with distinct keys the others stay -/
theorem mem_upsert (h : (l.map key).Nodup) (a b : α) : b ∈ upsert key l a ↔ b = a ∨ b ∈ l ∧ key b ≠ key a := by
  induction l with
  | nil => simp [upsert]
  | cons c l ih =>
    rw [List.map_cons, List.nodup_cons] at h
    rw [upsert]
    by_cases hc : key c = key a
    · rw [if_pos hc, List.mem_cons, List.mem_cons]
      have hothers : ∀ d ∈ l, key d ≠ key a := fun d hd hda => h.1 (List.mem_map.2 ⟨d, hd, hda.trans hc.symm⟩)
      constructor
      · rintro (rfl | hb)
        · exact .inl rfl
        · exact .inr ⟨.inr hb, hothers b hb⟩
      · rintro (rfl | ⟨rfl | hb, hne⟩)
        · exact .inl rfl
        · exact absurd hc hne
        · exact .inr hb
    · rw [if_neg hc, List.mem_cons, ih h.2, List.mem_cons]
      constructor
      · rintro (rfl | rfl | ⟨hb, hne⟩)
        · exact .inr ⟨.inl rfl, hc⟩
        · exact .inl rfl
        · exact .inr ⟨.inr hb, hne⟩
      · rintro (rfl | ⟨rfl | hb, hne⟩)
        · exact .inr (.inl rfl)
        · exact .inl rfl
        · exact .inr (.inr ⟨hb, hne⟩)

theorem map_upsert (l : List α) (a : α) : (upsert key l a).map key = addNew (l.map key) (key a) := by
  induction l with
  | nil => simp [upsert, addNew]
  | cons b l ih =>
    rw [upsert]
    by_cases hb : key b = key a
    · simp [hb, addNew]
    · rw [if_neg hb, List.map_cons, ih]
      unfold addNew
      by_cases ha : key a ∈ l.map key
      · rw [if_pos ha, if_pos (by simp [ha]), List.map_cons]
      · rw [if_neg ha, if_neg (by simpa [Ne.symm hb] using ha), List.map_cons, List.cons_append]

theorem map_foldl_upsert (l next : List α) :
    (next.foldl (upsert key) l).map key = (next.map key).foldl addNew (l.map key) := by
  induction next generalizing l with
  | nil => rfl
  | cons a next ih => rw [List.foldl_cons, ih, map_upsert, List.map_cons, List.foldl_cons]

theorem nodup_foldl_upsert (next : List α) (h : (l.map key).Nodup) : ((next.foldl (upsert key) l).map key).Nodup := by
  rw [map_foldl_upsert]
  refine foldl_inv List.Nodup addNew _ (fun out a _ hout => ?_) _ h
  unfold addNew
  split_ifs with ha
  · exact hout
  · exact hout.append (List.nodup_singleton a) (by simpa using ha)

/-- the last entry written under a key, or what was there -/
theorem find?_foldl_upsert (l next : List α) (k : κ) :
    entry key (next.foldl (upsert key) l) k = (lastWith key next k).or (entry key l k) := by
  induction next using List.reverseRecOn with
  | nil => rfl
  | append_singleton next a ih =>
    rw [List.foldl_append, List.foldl_cons, List.foldl_nil, find?_upsert, ih]
    by_cases ha : key a = k
    all_goals simp [ha, lastWith, List.filter_append]

/-- with distinct keys the last entry is the only one -/
theorem lastWith_eq_entry (h : (l.map key).Nodup) (k : κ) : lastWith key l k = entry key l k := by
  cases he : entry key l k with
  | some a =>
    have ha := List.mem_of_find?_eq_some he
    have hk := List.find?_some he
    exact (lastWith_eq_some h).2 ⟨ha, by simpa using hk⟩
  | none =>
    rw [entry, List.find?_eq_none] at he
    by_contra hne
    obtain ⟨a, ha⟩ := Option.ne_none_iff_exists'.1 hne
    obtain ⟨hmem, hk⟩ := lastWith_mem ha
    exact he a hmem (by simp [hk])

/-! ## Places -/

/-- the table has the place of every key -/
def Located (places : AList fun _ : κ => Nat) (keys : List κ) : Prop := ∀ k, places.lookup k = keys.idxOf? k

/-- a new key takes the place at the end -/
def place (places : AList fun _ : κ => Nat) (n : Nat) (k : κ) : AList fun _ : κ => Nat :=
  if (places.lookup k).isSome then places else places.insert k n

variable {places : AList fun _ : κ => Nat} {keys : List κ}

theorem Located.isSome (h : Located places keys) (k : κ) : (places.lookup k).isSome = true ↔ k ∈ keys := by
  rw [h k, List.isSome_idxOf?]

theorem located_add (h : Located places keys) (k : κ) : Located (place places keys.length k) (addNew keys k) := by
  intro k'
  unfold place addNew
  by_cases hk : k ∈ keys
  · rw [if_pos ((h.isSome k).2 hk), if_pos hk, h k']
  · rw [if_neg fun hsome => hk ((h.isSome k).1 hsome), if_neg hk, lookup_insert_if, h k']
    unfold List.idxOf?
    by_cases hk' : k' = k
    · subst hk'
      have hnone : keys.findIdx? (· == k') = none := List.idxOf?_eq_none_iff.2 hk
      simp [hnone, List.findIdx?_cons]
    · simp [hk', List.findIdx?_cons, Ne.symm hk']

/-- the places of distinct keys, filled in one by one -/
theorem located_append (l : List α) (h : Located places keys) (hnodup : (keys ++ l.map key).Nodup) :
    Located ((l.zipIdx keys.length).foldl (fun places e => place places e.2 (key e.1)) places) (keys ++ l.map key) := by
  induction l generalizing places keys with
  | nil => simpa using h
  | cons a l ih =>
    have hnew : key a ∉ keys := fun hmem => List.disjoint_of_nodup_append hnodup hmem (by simp)
    have hadd : addNew keys (key a) = keys ++ [key a] := if_neg hnew
    have hlocated := located_add h (key a)
    rw [hadd] at hlocated
    have hsplit : keys ++ (a :: l).map key = (keys ++ [key a]) ++ l.map key := by simp
    rw [hsplit] at hnodup ⊢
    have hrest := ih hlocated hnodup
    rw [List.length_append] at hrest
    exact hrest

end Paperboat.Keyed
