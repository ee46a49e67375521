/-
The monthly windows in which a subscription's bandwidth is counted
(billing/workspace_usage.go, subscriptionUsageMonth).

A `Time` is a UTC date with a clock, ordered as dates and clocks are; the source reads
nothing else of a time.

Results:
- `anchor_strictMono`: a later month has a later boundary, whatever the lengths of the
  months between;
- `window_spec`: the window is the one month between two boundaries that has the
  instant;
- `usage_months_tile`: **the windows of a subscription tile the time line**, from its
  start, on its day and clock.

Premises:
- time.Date does what it is documented to do: a month out of range moves the year, and
  day 0 is the last day of the month before.
-/
import Mathlib.Tactic
import Mathlib.Data.Prod.Lex

namespace Paperboat.Billing

/-! ## Dates -/

def leapYear (year : ℤ) : Bool := year % 4 == 0 && (year % 100 != 0 || year % 400 == 0)

/-- the number of days of a month from 1 to 12 -/
def daysIn (year : ℤ) (month : ℕ) : ℕ :=
  match month with
  | 2 => if leapYear year then 29 else 28
  | 4 | 6 | 9 | 11 => 30
  | _ => 31

theorem daysIn_pos (year : ℤ) (month : ℕ) : 1 ≤ daysIn year month := by
  unfold daysIn
  split
  · split_ifs <;> decide
  all_goals decide

def nanosecondsPerDay : ℕ := 24 * 60 * 60 * 1000000000

/-- a time in UTC; `clock` is Hour, Minute, Second and Nanosecond together -/
@[ext] structure Time where
  year : ℤ
  month : ℕ
  day : ℕ
  clock : ℕ
  month_mem : 1 ≤ month ∧ month ≤ 12
  day_mem : 1 ≤ day ∧ day ≤ daysIn year month
  clock_lt : clock < nanosecondsPerDay
deriving DecidableEq

namespace Time

/-- months, counted from the start of year 0 -/
def index (t : Time) : ℤ := 12 * t.year + (t.month - 1)

def key (t : Time) : ℤ ×ₗ ℕ ×ₗ ℕ := toLex (t.index, toLex (t.day, t.clock))

theorem key_injective : Function.Injective key := by
  intro s t h
  have hparts := Prod.ext_iff.1 (toLex.injective h)
  have hindex : s.index = t.index := hparts.1
  have hrest := Prod.ext_iff.1 (toLex.injective hparts.2)
  obtain ⟨hs, hs'⟩ := s.month_mem
  obtain ⟨ht, ht'⟩ := t.month_mem
  unfold index at hindex
  apply Time.ext
  · omega
  · omega
  · exact hrest.1
  · exact hrest.2

/-- earlier dates come first, and on one day earlier clocks -/
instance : LinearOrder Time := LinearOrder.lift' key key_injective

theorem lt_of_index_lt {s t : Time} (h : s.index < t.index) : s < t := Prod.Lex.toLex_lt_toLex.2 (.inl h)

end Time

/-- the year and month that time.Date makes of a month out of range -/
def normalizeMonth (year month : ℤ) : ℤ × ℕ := (year + (month - 1) / 12, ((month - 1) % 12).toNat + 1)

theorem normalizeMonth_mem (year month : ℤ) :
    1 ≤ (normalizeMonth year month).2 ∧ (normalizeMonth year month).2 ≤ 12 := by
  simp only [normalizeMonth]
  omega

theorem normalizeMonth_index (year month : ℤ) :
    12 * (normalizeMonth year month).1 + ((normalizeMonth year month).2 - 1 : ℤ) = 12 * year + (month - 1) := by
  simp only [normalizeMonth]
  omega

/-! ## The windows -/

/-- the boundary `offset` months from the start: its day and clock, or the last day of a shorter month -/
def anchor (start : Time) (offset : ℤ) : Time :=
  let month := normalizeMonth start.year (start.month + offset)
  let lastDay := daysIn month.1 month.2
  { year := month.1, month := month.2, day := min start.day lastDay, clock := start.clock
    month_mem := normalizeMonth_mem _ _
    day_mem := ⟨le_min start.day_mem.1 (daysIn_pos _ _), min_le_right _ _⟩
    clock_lt := start.clock_lt }

def subscriptionUsageMonth (start at_ : Time) : Time × Time :=
  let months := (at_.year - start.year) * 12 + ((at_.month : ℤ) - start.month)
  let months := if at_ < anchor start months then months - 1 else months
  (anchor start months, anchor start (months + 1))

variable (start : Time)

theorem anchor_index (offset : ℤ) : (anchor start offset).index = start.index + offset := by
  have h := normalizeMonth_index start.year (start.month + offset)
  simp only [Time.index, anchor]
  omega

/-- the start is the boundary of its own month -/
theorem anchor_zero : anchor start 0 = start := by
  have hindex := anchor_index start 0
  obtain ⟨hmonth, hmonth'⟩ := start.month_mem
  obtain ⟨hanchor, hanchor'⟩ := (anchor start 0).month_mem
  simp only [Time.index] at hindex
  have hyear : (anchor start 0).year = start.year := by omega
  have hmonth'' : (anchor start 0).month = start.month := by omega
  have hday : (anchor start 0).day = min start.day (daysIn (anchor start 0).year (anchor start 0).month) := rfl
  rw [hyear, hmonth'', min_eq_left start.day_mem.2] at hday
  exact Time.ext hyear hmonth'' hday rfl

theorem anchor_strictMono : StrictMono (anchor start) := by
  intro i j hij
  apply Time.lt_of_index_lt
  rw [anchor_index, anchor_index]
  omega

/-- **One month.** The window is between two boundaries that follow one another, and has the instant. -/
theorem window_spec (t : Time) : ∃ i, subscriptionUsageMonth start t = (anchor start i, anchor start (i + 1)) ∧
    anchor start i ≤ t ∧ t < anchor start (i + 1) := by
  set months := (t.year - start.year) * 12 + ((t.month : ℤ) - start.month) with hmonths
  have hindex : start.index + months = t.index := by
    simp only [Time.index, hmonths]
    ring
  by_cases h : t < anchor start months
  · refine ⟨months - 1, ?_, ?_, ?_⟩
    · simp only [subscriptionUsageMonth, ← hmonths, if_pos h]
    · apply le_of_lt
      apply Time.lt_of_index_lt
      rw [anchor_index]
      omega
    · rw [Int.sub_add_cancel]
      exact h
  · refine ⟨months, ?_, not_lt.1 h, ?_⟩
    · simp only [subscriptionUsageMonth, ← hmonths, if_neg h]
    · apply Time.lt_of_index_lt
      rw [anchor_index]
      omega

/-- an instant is between two boundaries that follow one another only once -/
theorem between_unique {t : Time} {i j : ℤ} (hi : anchor start i ≤ t ∧ t < anchor start (i + 1))
    (hj : anchor start j ≤ t ∧ t < anchor start (j + 1)) : i = j := by
  have hij := (anchor_strictMono start).lt_iff_lt.1 (hi.1.trans_lt hj.2)
  have hji := (anchor_strictMono start).lt_iff_lt.1 (hj.1.trans_lt hi.2)
  omega

/-- the window of a boundary starts there -/
theorem window_anchor (i : ℤ) : subscriptionUsageMonth start (anchor start i) =
    (anchor start i, anchor start (i + 1)) := by
  obtain ⟨j, hwindow, hbetween⟩ := window_spec start (anchor start i)
  have hi : anchor start i ≤ anchor start i ∧ anchor start i < anchor start (i + 1) :=
    ⟨le_rfl, anchor_strictMono start (by omega)⟩
  rw [hwindow, between_unique start hbetween hi]

/-- **The windows tile the time line.** For every start and any two instants: the window of an instant contains it;
two windows are the same or have no instant in common; the end of a window is the start of the next one, and its
start the end of the one before; the window of the start begins there; and both boundaries have the start's clock
and its day, or the last day of their month. -/
theorem usage_months_tile (s t : Time) :
    (let w := subscriptionUsageMonth start t
     w.1 ≤ t ∧ t < w.2 ∧
     (subscriptionUsageMonth start w.2).1 = w.2 ∧ (∃ u, u < w.1 ∧ (subscriptionUsageMonth start u).2 = w.1) ∧
     ∀ b, b = w.1 ∨ b = w.2 → b.clock = start.clock ∧ b.day = min start.day (daysIn b.year b.month)) ∧
    (subscriptionUsageMonth start s = subscriptionUsageMonth start t ∨
      ∀ u, ¬(((subscriptionUsageMonth start s).1 ≤ u ∧ u < (subscriptionUsageMonth start s).2) ∧
        (subscriptionUsageMonth start t).1 ≤ u ∧ u < (subscriptionUsageMonth start t).2)) ∧
    (subscriptionUsageMonth start start).1 = start := by
  obtain ⟨i, hs, -, -⟩ := window_spec start s
  obtain ⟨j, ht, hle, hlt⟩ := window_spec start t
  rw [hs, ht]
  refine ⟨⟨hle, hlt, ?_, ?_, ?_⟩, ?_, ?_⟩
  · rw [window_anchor]
  · refine ⟨anchor start (j - 1), anchor_strictMono start (by omega), ?_⟩
    rw [window_anchor, Int.sub_add_cancel]
  · intro b hb
    obtain rfl | rfl := hb <;> exact ⟨rfl, rfl⟩
  · by_cases hij : i = j
    · exact .inl (by rw [hij])
    · refine .inr fun u hu => hij ?_
      exact between_unique start hu.1 hu.2
  · have hzero := window_anchor start 0
    rw [anchor_zero] at hzero
    rw [hzero]

/-- a subscription of 31 January, in February of a leap year and in March -/
example :
    let start : Time := ⟨2023, 1, 31, 7, by decide, by decide, by decide⟩
    let t : Time := ⟨2024, 3, 5, 0, by decide, by decide, by decide⟩
    ((subscriptionUsageMonth start t).1.day, (subscriptionUsageMonth start t).2.day) = (29, 31) := by decide

end Paperboat.Billing
