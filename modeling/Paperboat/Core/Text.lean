/-
Text functions of the Go standard library on code points, as the modelled packages use
them (`strings.Cut`, `strings.CutPrefix`, `strings.TrimSuffix`, ...), with the equations
the proofs about names and hosts rest on.

A Go string is a Lean `String`. Everything is defined through `String.toList`, so it
evaluates and its laws are laws about lists:
- `cutList_eq_some`, `cutList_none`: what a cut separates, and when there is nothing to
  cut;
- `cut_sep`: a text without the separator rune, followed by it, is cut exactly there;
- `cutPrefix_eq_some`: a text starts with a leading part exactly when it is that part
  followed by the rest.

The two Unicode tables the packages consult (`unicode.ToLower`, the `%q` verb) are the
parameter `Unicode`: every result holds for any tables with the stated law.
-/
import Mathlib.Tactic
import Mathlib.Data.String.Basic

namespace Paperboat.Text

/-! ## Cutting -/

/-- the parts of `l` around the first occurrence of `sep` -/
def cutList (sep : List Char) : List Char → Option (List Char × List Char)
  | [] => if sep = [] then some ([], []) else none
  | c :: cs =>
    if sep <+: c :: cs then some ([], (c :: cs).drop sep.length)
    else (cutList sep cs).map fun p => (c :: p.1, p.2)

/-- strings.Cut -/
def cut (s sep : String) : String × String × Bool :=
  match cutList sep.toList s.toList with
  | some (a, b) => (String.ofList a, String.ofList b, true)
  | none => (s, "", false)

/-- strings.HasPrefix -/
def hasPrefix (s p : String) : Bool := p.toList <+: s.toList

/-- strings.HasSuffix -/
def hasSuffix (s p : String) : Bool := p.toList <:+ s.toList

/-- strings.CutPrefix -/
def cutPrefix (s p : String) : Option String :=
  if hasPrefix s p then some (String.ofList (s.toList.drop p.toList.length)) else none

/-- strings.TrimPrefix -/
def trimPrefix (s p : String) : String := (cutPrefix s p).getD s

/-- strings.TrimSuffix -/
def trimSuffix (s p : String) : String :=
  if hasSuffix s p then String.ofList (s.toList.take (s.toList.length - p.toList.length)) else s

/-- strings.CutSuffix -/
def cutSuffix (s p : String) : Option String := if hasSuffix s p then some (trimSuffix s p) else none

/-- strings.Contains -/
def contains (s sub : String) : Bool := (cutList sub.toList s.toList).isSome

/-- strings.ContainsAny -/
def containsAny (s chars : String) : Bool := s.toList.any fun c => c ∈ chars.toList

/-- strings.Count of a one-rune separator -/
def count (s : String) (c : Char) : ℕ := s.toList.count c

/-- strings.Split at a one-rune separator -/
def split (s : String) (c : Char) : List String := (s.toList.splitOn c).map String.ofList

/-- unicode.IsSpace -/
def isSpace (c : Char) : Bool :=
  c ∈ ['\t', '\n', '\x0b', '\x0c', '\r', ' ', '\u0085', '\u00a0', '\u1680', '\u2028', '\u2029', '\u202f', '\u205f',
    '\u3000'] || ('\u2000' ≤ c && c ≤ '\u200a')

/-- strings.TrimSpace -/
def trimSpace (s : String) : String :=
  String.ofList (((s.toList.dropWhile isSpace).reverse.dropWhile isSpace).reverse)

theorem cutList_eq_some (sep : List Char) : ∀ (l a b : List Char), cutList sep l = some (a, b) → l = a ++ sep ++ b
  | [], a, b, h => by
    simp only [cutList] at h
    split_ifs at h with hs
    simp only [Option.some.injEq, Prod.mk.injEq] at h
    simp [hs, ← h.1, ← h.2]
  | c :: cs, a, b, h => by
    simp only [cutList] at h
    split_ifs at h with hs
    · simp only [Option.some.injEq, Prod.mk.injEq] at h
      obtain ⟨t, ht⟩ := hs
      rw [← h.1, ← h.2, ← ht, List.drop_left]
      rfl
    · obtain ⟨⟨a', b'⟩, hp, he⟩ := Option.map_eq_some_iff.1 h
      simp only [Prod.mk.injEq] at he
      have := cutList_eq_some sep cs a' b' hp
      rw [← he.1, ← he.2, this]
      rfl

/-- a one-rune cut finds nothing exactly when the rune does not occur -/
theorem cutList_none (c : Char) (l : List Char) : cutList [c] l = none ↔ c ∉ l := by
  induction l with
  | nil => simp [cutList]
  | cons d l ih =>
    simp only [cutList]
    by_cases h : c = d
    · subst h; simp [List.prefix_cons_iff]
    · have hn : ¬ [c] <+: d :: l := by
        rintro ⟨t, ht⟩
        simp only [List.cons_append, List.cons.injEq] at ht
        exact h ht.1
      rw [if_neg hn, Option.map_eq_none_iff, ih]
      simp [h]

theorem cutList_mid (c : Char) (a b : List Char) (h : c ∉ a) : cutList [c] (a ++ c :: b) = some (a, b) := by
  induction a with
  | nil => simp [cutList]
  | cons d a ih =>
    have hd : c ≠ d := fun e => h (by simp [e])
    have hn : ¬ [c] <+: (d :: a) ++ c :: b := by
      rintro ⟨t, ht⟩
      simp only [List.cons_append, List.cons.injEq] at ht
      exact hd ht.1
    rw [List.cons_append] at hn
    rw [List.cons_append, cutList, if_neg hn, ih (fun e => h (List.mem_cons_of_mem d e))]
    rfl

/-- the first part of a one-rune cut does not hold the rune -/
theorem cutList_left (c : Char) : ∀ (l a b : List Char), cutList [c] l = some (a, b) → c ∉ a
  | [], a, b, h => by simp [cutList] at h
  | d :: l, a, b, h => by
    simp only [cutList] at h
    split_ifs at h with hs
    · simp only [Option.some.injEq, Prod.mk.injEq] at h
      rw [← h.1]; simp
    · obtain ⟨⟨a', b'⟩, hp, he⟩ := Option.map_eq_some_iff.1 h
      simp only [Prod.mk.injEq] at he
      have hd : c ≠ d := by
        rintro rfl; exact hs ⟨l, rfl⟩
      rw [← he.1, List.mem_cons, not_or]
      exact ⟨hd, cutList_left c l a' b' hp⟩

variable {c : Char}

/-- a separator of one rune cuts a text that does not hold it from what follows -/
theorem cut_sep {sep : String} (hs : sep.toList = [c]) (a b : String) (h : c ∉ a.toList) :
    cut (a ++ sep ++ b) sep = (a, b, true) := by
  unfold cut
  simp only [String.toList_append, hs, List.append_assoc, List.singleton_append]
  rw [cutList_mid c _ _ h]
  simp

theorem cut_none {sep : String} (hs : sep.toList = [c]) (a : String) (h : c ∉ a.toList) :
    cut a sep = (a, "", false) := by
  unfold cut
  rw [hs, (cutList_none c _).2 h]

variable {sep s a b : String}

/-- a one-rune cut that found its separator: the text is the two parts around it, and the first part does not hold
it -/
theorem cut_true (hs : sep.toList = [c]) (h : cut s sep = (a, b, true)) : s = a ++ sep ++ b ∧ c ∉ a.toList := by
  unfold cut at h
  rw [hs] at h
  cases hc : cutList [c] s.toList with
  | none => rw [hc] at h; simp at h
  | some p =>
    rw [hc] at h
    simp only [Prod.mk.injEq, and_true] at h
    rw [← h.1, ← h.2]
    refine ⟨String.toList_inj.1 ?_, by simpa using cutList_left c _ _ _ hc⟩
    simpa [hs] using cutList_eq_some [c] _ _ _ hc

theorem cut_false (hs : sep.toList = [c]) (h : cut s sep = (a, b, false)) : a = s ∧ b = "" ∧ c ∉ s.toList := by
  unfold cut at h
  rw [hs] at h
  cases hc : cutList [c] s.toList with
  | some p => rw [hc] at h; simp at h
  | none =>
    rw [hc] at h
    simp only [Prod.mk.injEq, and_true] at h
    exact ⟨h.1.symm, h.2.symm, (cutList_none c _).1 hc⟩

/-! ## Leading and trailing parts -/

theorem hasPrefix_iff (s p : String) : hasPrefix s p = true ↔ ∃ t, s = p ++ t := by
  simp only [hasPrefix, decide_eq_true_eq]
  constructor
  · rintro ⟨t, ht⟩
    exact ⟨String.ofList t, String.toList_inj.1 (by simp [ht])⟩
  · rintro ⟨t, rfl⟩
    exact ⟨t.toList, by simp⟩

@[simp] theorem cutPrefix_append (p t : String) : cutPrefix (p ++ t) p = some t := by
  have : hasPrefix (p ++ t) p = true := (hasPrefix_iff _ _).2 ⟨t, rfl⟩
  simp [cutPrefix, this]

theorem cutPrefix_eq_some {s p t : String} : cutPrefix s p = some t ↔ s = p ++ t := by
  constructor
  · intro h
    unfold cutPrefix at h
    split_ifs at h with hp
    obtain ⟨t', rfl⟩ := (hasPrefix_iff _ _).1 hp
    simp at h
    rw [h]
  · rintro rfl; exact cutPrefix_append p t

theorem hasSuffix_iff (s p : String) : hasSuffix s p = true ↔ ∃ t, s = t ++ p := by
  simp only [hasSuffix, decide_eq_true_eq]
  constructor
  · rintro ⟨t, ht⟩
    exact ⟨String.ofList t, String.toList_inj.1 (by simp [ht])⟩
  · rintro ⟨t, rfl⟩
    exact ⟨t.toList, by simp⟩

@[simp] theorem trimSuffix_append (t p : String) : trimSuffix (t ++ p) p = t := by
  have : hasSuffix (t ++ p) p = true := (hasSuffix_iff _ _).2 ⟨t, rfl⟩
  simp [trimSuffix, this]

theorem contains_iff {sub : String} (hs : sub.toList = [c]) (s : String) : contains s sub = true ↔ c ∈ s.toList := by
  unfold contains
  rw [hs, Option.isSome_iff_ne_none, ne_eq, cutList_none, not_not]

/-! ## The Unicode tables -/

/-- the tables behind `unicode.ToLower` and the `%q` verb. Lower-casing a lower-case rune leaves it. -/
structure Unicode where
  lower : Char → Char
  quote : String → String
  lower_lower : ∀ c, lower (lower c) = lower c

/-- strings.ToLower -/
def toLower (u : Unicode) (s : String) : String := String.ofList (s.toList.map u.lower)

/-- the tables on ASCII text without quotes, backslashes or control runes -/
def ascii : Unicode where
  lower := fun c => if 'A' ≤ c ∧ c ≤ 'Z' then Char.ofNat (c.toNat + 32) else c
  quote := fun s => "\"" ++ s ++ "\""
  lower_lower := by
    intro c
    by_cases h : 'A' ≤ c ∧ c ≤ 'Z'
    · have h1 : 65 ≤ c.toNat := h.1
      have h2 : c.toNat ≤ 90 := h.2
      rw [← Char.ofNat_toNat c]
      generalize c.toNat = n at h1 h2
      interval_cases n <;> decide
    · simp [h]

end Paperboat.Text
