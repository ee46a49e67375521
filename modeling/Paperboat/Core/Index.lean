/-
A table of records with an index on one of their fields: a second table that gives, for
each value of the field, the identifier of the record that has it.

`Indexed` says that the index is the inverse of the field. The rules are for an empty
table, for a record that is removed (`Indexed.erase`) and for one that is written under
an identifier, new or not (`Indexed.insert`).
-/
import Mathlib.Data.List.AList
import Mathlib.Tactic.Common

namespace Paperboat.Index

variable {ι κ ρ : Type} [DecidableEq ι] [DecidableEq κ]

theorem lookup_insert_if {β : Type} (s : AList fun _ : ι => β) (i j : ι) (b : β) :
    (s.insert i b).lookup j = if j = i then some b else s.lookup j := by
  split_ifs with h
  · rw [h, AList.lookup_insert]
  · exact AList.lookup_insert_ne h

theorem lookup_erase_if {β : Type} (s : AList fun _ : ι => β) (i j : ι) :
    (s.erase i).lookup j = if j = i then none else s.lookup j := by
  split_ifs with h
  · rw [h, AList.lookup_erase]
  · exact AList.lookup_erase_ne h

/-- what holds of every record of a table, and of one that is written -/
theorem forall_insert {β : Type} {P : ι → β → Prop} {s : AList fun _ : ι => β} {i : ι} {b : β}
    (h : ∀ j x, s.lookup j = some x → P j x) (hb : P i b) : ∀ j x, (s.insert i b).lookup j = some x → P j x := by
  intro j x hx
  rw [lookup_insert_if] at hx
  split_ifs at hx with hj
  · cases hx
    exact hj ▸ hb
  · exact h j x hx

variable {key : ρ → κ} {records : AList fun _ : ι => ρ} {owners : AList fun _ : κ => ι}

variable (key records owners) in
/-- the owner of `k` is the identifier whose record has the key `k` -/
def Indexed : Prop := ∀ k i, owners.lookup k = some i ↔ ∃ r, records.lookup i = some r ∧ key r = k

theorem Indexed.empty : Indexed key (∅ : AList fun _ : ι => ρ) ∅ := by
  intro k i
  simp

variable (h : Indexed key records owners)
include h

variable {i : ι}

theorem Indexed.owner {r : ρ} (hr : records.lookup i = some r) :
    owners.lookup (key r) = some i := (h _ i).2 ⟨r, hr, rfl⟩

/-- no other record has the key of a record -/
theorem Indexed.unique {i j : ι} {r t : ρ} (hr : records.lookup i = some r)
    (ht : records.lookup j = some t) (hkey : key r = key t) : i = j := by
  have hi := h.owner hr
  rw [hkey, h.owner ht] at hi
  exact (Option.some.inj hi).symm

theorem Indexed.erase {r : ρ} (hr : records.lookup i = some r) :
    Indexed key (records.erase i) (owners.erase (key r)) := by
  intro k j
  rw [lookup_erase_if, lookup_erase_if]
  by_cases hj : j = i
  · subst hj
    by_cases hk : k = key r
    · simp [hk]
    · simp only [hk, if_false, if_true, h k j, hr]
      constructor
      · rintro ⟨t, ht, hkey⟩
        cases ht
        exact absurd hkey.symm hk
      · rintro ⟨t, ht, _⟩
        cases ht
  · split_ifs with hk
    · simp only [false_iff, not_exists, not_and]
      intro t ht hkey
      exact hj (h.unique ht hr (hkey.trans hk))
    · exact h k j

/-- a record is written under an identifier that has none, with a key nobody owns -/
theorem Indexed.insert_new (r : ρ) (hi : records.lookup i = none)
    (hfree : owners.lookup (key r) = none) : Indexed key (records.insert i r) (owners.insert (key r) i) := by
  intro k j
  rw [lookup_insert_if, lookup_insert_if]
  by_cases hk : k = key r
  · subst hk
    simp only [if_true, Option.some.injEq]
    constructor
    · rintro rfl
      exact ⟨r, by simp, rfl⟩
    · rintro ⟨t, ht, hkey⟩
      split_ifs at ht with hj
      · exact hj.symm
      · rw [← hkey, h.owner ht] at hfree
        cases hfree
  · simp only [hk, if_false, h k j]
    by_cases hj : j = i
    · subst hj
      simp only [hi, if_true, reduceCtorEq, false_and, exists_false, false_iff, Option.some.injEq, exists_eq_left']
      exact fun hkey => hk hkey.symm
    · simp only [hj, if_false]

/-- a record takes the place of another under its identifier; the old key is free before the new one is taken -/
theorem Indexed.replace {old : ρ} (r : ρ) (hold : records.lookup i = some old)
    (hfree : ∀ j, owners.lookup (key r) = some j → j = i) :
    Indexed key (records.insert i r) ((owners.erase (key old)).insert (key r) i) := by
  have herased := h.erase hold
  have hfree' : (owners.erase (key old)).lookup (key r) = none := by
    rw [lookup_erase_if]
    split_ifs with hk
    · rfl
    · cases howner : owners.lookup (key r) with
      | none => rfl
      | some j =>
        obtain ⟨t, ht, hkey⟩ := (h _ _).1 howner
        rw [hfree j howner, hold] at ht
        cases ht
        exact absurd hkey.symm hk
  have hnew := herased.insert_new r (AList.lookup_erase i records) hfree'
  intro k j
  rw [hnew k j, lookup_insert_if, lookup_insert_if, lookup_erase_if]
  split_ifs <;> rfl

end Paperboat.Index
