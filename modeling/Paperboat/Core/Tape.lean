/-
A tape of items numbered one after another, and readers that follow it.

`Has t n data`: from number `n` on the tape carries `data`. A reader starts somewhere on
the tape and is then handed pieces of it. A piece is taken, or only shown, and later
confirmed up to a number; a reader may also be moved forward (a jump, with its reason).
`Follows` says that nothing else happens: every piece starts where the reader is and
carries what is on the tape there.

Results:
- `Has.append`, `Has.take`, `Has.drop`, `Has.extend`: pieces of a tape;
- `Follows.extend`: a tape that grows is still followed;
- `Follows.held`: what a reader holds since its last jump is the tape from there up to
  its position, each item once;
- `Follows.holds`: so the item it holds at a number is the one on the tape.
-/
import Mathlib.Tactic

namespace Paperboat

variable {α ρ : Type}

/-- the items from number `origin` on -/
structure Tape (α : Type) where
  origin : ℕ
  content : List α

namespace Tape

variable {t : Tape α} {n k : ℕ} {data data' : List α}

/-- the number of the next item -/
def stop (t : Tape α) : ℕ := t.origin + t.content.length

/-- more items are recorded -/
def extend (t : Tape α) (more : List α) : Tape α := { t with content := t.content ++ more }

/-- the tape carries `data` from number `n` on -/
def Has (t : Tape α) (n : ℕ) (data : List α) : Prop :=
  ∃ pre post, t.content = pre ++ data ++ post ∧ n = t.origin + pre.length

theorem has_nil (hlow : t.origin ≤ n) (hhigh : n ≤ t.stop) : t.Has n [] := by
  unfold stop at hhigh
  refine ⟨t.content.take (n - t.origin), t.content.drop (n - t.origin), by simp, ?_⟩
  rw [List.length_take]
  omega

variable (h : t.Has n data)
include h

theorem Has.extend (more : List α) : (t.extend more).Has n data := by
  obtain ⟨pre, post, hcontent, hn⟩ := h
  exact ⟨pre, post ++ more, by simp [Tape.extend, hcontent], hn⟩

theorem Has.take (k : ℕ) : t.Has n (data.take k) := by
  obtain ⟨pre, post, hcontent, hn⟩ := h
  refine ⟨pre, data.drop k ++ post, ?_, hn⟩
  rw [hcontent, ← List.append_assoc, List.append_assoc pre (data.take k), List.take_append_drop]

theorem Has.drop (hk : k ≤ data.length) : t.Has (n + k) (data.drop k) := by
  obtain ⟨pre, post, hcontent, rfl⟩ := h
  refine ⟨pre ++ data.take k, post, ?_, ?_⟩
  · rw [hcontent, List.append_assoc pre (data.take k), List.take_append_drop]
  · rw [List.length_append, List.length_take]
    omega

/-- two pieces in a row are one piece: a tape carries one thing at a number -/
theorem Has.append (h' : t.Has (n + data.length) data') : t.Has n (data ++ data') := by
  obtain ⟨pre, post, hcontent, rfl⟩ := h
  obtain ⟨pre', post', hcontent', hlength⟩ := h'
  have hpre : pre ++ data = pre' := by
    rw [hcontent, List.append_assoc pre'] at hcontent'
    exact List.append_inj_left hcontent' (by rw [List.length_append]; omega)
  exact ⟨pre, post', by rw [hcontent', ← hpre, List.append_assoc pre], rfl⟩

end Tape

/-! ## Readers -/

/-- what a reader of a tape goes through -/
inductive Reading (α ρ : Type) where
  /-- it begins at `n` and is handed `data`, which it may confirm later -/
  | started (n : ℕ) (data : List α)
  /-- it takes the piece at `n` -/
  | took (n : ℕ) (data : List α)
  /-- it is handed the piece at `n`, which it may confirm later -/
  | shown (n : ℕ) (data : List α)
  /-- it confirms everything before `n` -/
  | confirmed (n : ℕ)
  /-- it is moved to `n` -/
  | jumped (reason : ρ) (n : ℕ)
  deriving DecidableEq, Repr

namespace Reading

/-- where a reader is, from what it went through, latest first -/
def position : List (Reading α ρ) → ℕ
  | [] => 0
  | started n _ :: _ => n
  | took n data :: _ => n + data.length
  | shown .. :: rest => position rest
  | confirmed n :: _ => n
  | jumped _ n :: _ => n

/-- what a reader was handed beyond its position -/
def ahead : List (Reading α ρ) → List α
  | [] => []
  | started _ data :: _ => data
  | took _ data :: rest => (ahead rest).drop data.length
  | shown _ data :: rest => if data.length ≤ (ahead rest).length then ahead rest else data
  | confirmed n :: rest => (ahead rest).drop (n - position rest)
  | jumped .. :: _ => []

/-- where the reader began or last jumped to, and what it took or confirmed since; one that confirms what it was
never handed has jumped of its own -/
def held : List (Reading α ρ) → ℕ × List α
  | [] => (0, [])
  | started n _ :: _ => (n, [])
  | took _ data :: rest => ((held rest).1, (held rest).2 ++ data)
  | shown .. :: rest => held rest
  | confirmed n :: rest =>
    if n ≤ position rest + (ahead rest).length then
      ((held rest).1, (held rest).2 ++ (ahead rest).take (n - position rest))
    else (n, [])
  | jumped _ n :: _ => (n, [])

/-- what may happen next to a reader that went through `rest` -/
def Legal (t : Tape α) (rest : List (Reading α ρ)) : Reading α ρ → Prop
  | started n data => rest = [] ∧ t.Has n data
  | took n data => rest ≠ [] ∧ n = position rest ∧ t.Has n data
  | shown n data => rest ≠ [] ∧ n = position rest ∧ t.Has n data
  | confirmed n => rest ≠ [] ∧ position rest < n ∧ t.Has n []
  | jumped _ n => rest ≠ [] ∧ position rest ≤ n ∧ t.Has n []

/-- every reading was legal when it happened -/
def Follows (t : Tape α) : List (Reading α ρ) → Prop
  | [] => True
  | r :: rest => Legal t rest r ∧ Follows t rest

variable {t : Tape α} {rs rest : List (Reading α ρ)} {r : Reading α ρ}

theorem Legal.extend (h : Legal t rest r) (more : List α) : Legal (t.extend more) rest r := by
  cases r with
  | started n data => exact ⟨h.1, h.2.extend more⟩
  | took | shown | confirmed | jumped => exact ⟨h.1, h.2.1, h.2.2.extend more⟩

theorem Follows.extend (h : Follows t rs) (more : List α) : Follows (t.extend more) rs := by
  induction rs with
  | nil => trivial
  | cons r rest ih => exact ⟨h.1.extend more, ih h.2⟩

/-- what a reader was handed ahead is what the tape carries at its position -/
theorem Follows.ahead (h : Follows t rs) (hne : rs ≠ []) : t.Has (position rs) (ahead rs) := by
  induction rs with
  | nil => exact absurd rfl hne
  | cons r rest ih =>
    obtain ⟨hlegal, hrest⟩ := h
    cases r with
    | started n data => exact hlegal.2
    | took n data =>
      obtain ⟨hrestne, rfl, hhas⟩ := hlegal
      have hahead := ih hrest hrestne
      change t.Has _ ((Reading.ahead rest).drop data.length)
      by_cases hlen : data.length ≤ (Reading.ahead rest).length
      · exact hahead.drop hlen
      · rw [List.drop_of_length_le (by omega)]
        simpa [position] using hhas.drop le_rfl
    | shown n data =>
      obtain ⟨hrestne, rfl, hhas⟩ := hlegal
      change t.Has _ (if data.length ≤ (Reading.ahead rest).length then Reading.ahead rest else data)
      split_ifs
      · exact ih hrest hrestne
      · exact hhas
    | confirmed n =>
      obtain ⟨hrestne, hlt, hhas⟩ := hlegal
      change t.Has n ((Reading.ahead rest).drop (n - position rest))
      by_cases hlen : n - position rest ≤ (Reading.ahead rest).length
      · have := (ih hrest hrestne).drop hlen
        rwa [Nat.add_sub_cancel' hlt.le] at this
      · rwa [List.drop_of_length_le (by omega)]
    | jumped reason n => exact hlegal.2.2

/-- **Nothing lost, nothing twice.** What a reader holds since it began or last jumped is the tape from there up to its
position. -/
theorem Follows.held (h : Follows t rs) (hne : rs ≠ []) :
    t.Has (held rs).1 (held rs).2 ∧ (held rs).1 + (held rs).2.length = position rs := by
  induction rs with
  | nil => exact absurd rfl hne
  | cons r rest ih =>
    obtain ⟨hlegal, hrest⟩ := h
    cases r with
    | started n data => exact ⟨by simpa [Reading.held] using hlegal.2.take 0, rfl⟩
    | took n data =>
      obtain ⟨hrestne, rfl, hhas⟩ := hlegal
      obtain ⟨hheld, hlength⟩ := ih hrest hrestne
      refine ⟨hheld.append (by rwa [hlength]), ?_⟩
      simp only [Reading.held, position, List.length_append]
      omega
    | shown n data => exact ih hrest hlegal.1
    | confirmed n =>
      obtain ⟨hrestne, hlt, hhas⟩ := hlegal
      obtain ⟨hheld, hlength⟩ := ih hrest hrestne
      simp only [Reading.held, position]
      split_ifs with hle
      · refine ⟨hheld.append (by rw [hlength]; exact (hrest.ahead hrestne).take _), ?_⟩
        rw [List.length_append, List.length_take]
        omega
      · exact ⟨hhas, rfl⟩
    | jumped reason n => exact ⟨hlegal.2.2, rfl⟩

/-- the item that a reader holds at number `k` -/
def holds (rs : List (Reading α ρ)) (k : ℕ) : Option α :=
  if (held rs).1 ≤ k then (held rs).2[k - (held rs).1]? else none

theorem Follows.holds (h : Follows t rs) {k : ℕ} {x : α} (hx : Reading.holds rs k = some x) :
    t.content[k - t.origin]? = some x := by
  unfold Reading.holds at hx
  split_ifs at hx with hk
  by_cases hne : rs = []
  · simp [hne, Reading.held] at hx
  · obtain ⟨⟨pre, post, hcontent, hn⟩, -⟩ := h.held hne
    have hlt := (List.getElem?_eq_some_iff.1 hx).1
    have hplace : k - t.origin = pre.length + (k - (Reading.held rs).1) := by omega
    rw [hcontent, hplace, List.append_assoc, List.getElem?_append_right (Nat.le_add_right _ _), Nat.add_sub_cancel_left,
      List.getElem?_append_left hlt, hx]

end Reading

end Paperboat
