/-
The JSON texts of Go's encoding/json. Values are printed as Marshal prints them: no
blanks, HTML characters and line separators escaped, object members in the order given.

Results:
- `natDecimal_injective`: a number is read back from its digits.
-/
import Mathlib.Tactic

namespace Paperboat.Json

/-! ## Characters -/

def hexDigits : List Char := "0123456789abcdef".toList

def hexDigit (n : ℕ) : Char := hexDigits.getD n '0'

/-- the two-character escapes -/
def shortEscape (c : Char) : Option Char :=
  if c = '"' then some '"' else if c = '\\' then some '\\' else if c = '\x08' then some 'b'
    else if c = '\x0c' then some 'f'
  else if c = '\n' then some 'n' else if c = '\r' then some 'r' else if c = '\t' then some 't' else none

/-- the other control characters, the HTML characters and the line separators are written \uXXXX -/
def hexEscaped (c : Char) : Bool :=
  c.toNat < 32 || c == '<' || c == '>' || c == '&' || c.toNat == 0x2028 || c.toNat == 0x2029

def hexCode (n : ℕ) : List Char :=
  [hexDigit (n / 4096), hexDigit (n / 256 % 16), hexDigit (n / 16 % 16), hexDigit (n % 16)]

def escape (c : Char) : List Char :=
  match shortEscape c with
  | some t => ['\\', t]
  | none => if hexEscaped c then '\\' :: 'u' :: hexCode c.toNat else [c]

def quoteTail (s : List Char) : List Char := s.flatMap escape ++ ['"']

def quote (s : String) : List Char := '"' :: quoteTail s.toList

/-! ## Numbers -/

def digitChar (n : ℕ) : Char := "0123456789".toList.getD n '0'

def natDecimal (n : ℕ) : List Char := if n = 0 then ['0'] else (Nat.digits 10 n).reverse.map digitChar

/-- strconv.Itoa -/
def decimal (n : Int) : List Char := if n < 0 then '-' :: natDecimal n.natAbs else natDecimal n.natAbs

/-- the digit a character stands for -/
def digitVal (c : Char) : ℕ := c.toNat - 48

theorem digitVal_digitChar {a : ℕ} (ha : a < 10) : digitVal (digitChar a) = a := by
  have hall : ∀ a < 10, digitVal (digitChar a) = a := by decide
  exact hall a ha

theorem digitChar_isDigit {a : ℕ} (ha : a < 10) : (digitChar a).isDigit = true := by
  have hall : ∀ a < 10, (digitChar a).isDigit = true := by decide
  exact hall a ha

theorem natDecimal_isDigit (n : ℕ) : ∀ c ∈ natDecimal n, c.isDigit = true := by
  intro c hc
  unfold natDecimal at hc
  split_ifs at hc
  · rw [List.mem_singleton.1 hc]; decide
  · obtain ⟨a, ha, rfl⟩ := List.mem_map.1 hc
    exact digitChar_isDigit (Nat.digits_lt_base (by norm_num) (List.mem_reverse.1 ha))

theorem natDecimal_ne_nil (n : ℕ) : natDecimal n ≠ [] := by
  unfold natDecimal
  split_ifs with h
  · simp
  · simp [Nat.digits_eq_nil_iff_eq_zero, h]

/-- reading the digits back gives the number -/
theorem ofDigits_natDecimal (n : ℕ) : Nat.ofDigits 10 ((natDecimal n).reverse.map digitVal) = n := by
  unfold natDecimal
  split_ifs with h
  · rw [h]; decide
  · simp only [List.map_reverse, List.reverse_reverse, List.map_map]
    have hid : (Nat.digits 10 n).map (digitVal ∘ digitChar) = Nat.digits 10 n := by
      refine (List.map_congr_left fun a ha => ?_).trans (List.map_id _)
      exact digitVal_digitChar (Nat.digits_lt_base (by norm_num) ha)
    rw [hid, Nat.ofDigits_digits]

theorem natDecimal_injective : Function.Injective natDecimal := by
  intro m n h
  rw [← ofDigits_natDecimal m, h, ofDigits_natDecimal]

/-! ## Values -/

inductive Value where
  | null
  | bool (b : Bool)
  | num (n : Int)
  | str (s : String)
  | arr (l : List Value)
  | obj (l : List (String × Value))

mutual

def encode : Value → List Char
  | .null => "null".toList
  | .bool true => "true".toList
  | .bool false => "false".toList
  | .num n => decimal n
  | .str s => quote s
  | .arr [] => ['[', ']']
  | .arr (v :: vs) => '[' :: (encode v ++ encodeElements vs)
  | .obj [] => ['\x7b', '\x7d']
  | .obj ((k, v) :: ms) => '\x7b' :: (quote k ++ ':' :: (encode v ++ encodeMembers ms))

/-- the elements after the first, and the end of the array -/
def encodeElements : List Value → List Char
  | [] => [']']
  | v :: vs => ',' :: (encode v ++ encodeElements vs)

/-- the members after the first, and the end of the object -/
def encodeMembers : List (String × Value) → List Char
  | [] => ['\x7d']
  | (k, v) :: ms => ',' :: (quote k ++ ':' :: (encode v ++ encodeMembers ms))

end

end Paperboat.Json
