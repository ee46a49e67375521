/-
Network addresses of the Go standard library on code points: net.SplitHostPort and
net.ParseIP (netip.ParseAddr without a zone), as far as the modelled packages ask: the
host of an address with a port, and whether a text is an IP address.
-/
import Paperboat.Core.Text

namespace Paperboat.Net

open Text

/-! ## Host and port -/

/-- the parts around the last colon -/
def cutLast (l : List Char) : Option (List Char × List Char) :=
  (cutList [':'] l.reverse).map fun p => (p.2.reverse, p.1.reverse)

/-- net.SplitHostPort; none is any of its errors -/
def splitHostPort (s : String) : Option (String × String) :=
  match cutLast s.toList with
  | none => none
  | some (before, port) =>
    match before with
    | '[' :: rest =>
      -- the first "]" stands right before the last colon
      match cutList [']'] rest with
      | some (host, []) =>
        if '[' ∈ rest ++ port ∨ ']' ∈ port then none else some (String.ofList host, String.ofList port)
      | _ => none
    | _ =>
      if ':' ∈ before ∨ '[' ∈ before ++ port ∨ ']' ∈ before ++ port then none
      else some (String.ofList before, String.ofList port)

/-! ## IP addresses -/

def octetValue (cs : List Char) : ℕ := cs.foldl (fun n c => 10 * n + (c.toNat - 48)) 0

/-- one decimal field: digits, no leading zero, at most 255 -/
def octet (cs : List Char) : Bool :=
  cs ≠ [] && cs.all Char.isDigit && (cs.length == 1 || cs.head? != some '0') &&
    decide (octetValue cs ≤ 255)

/-- four decimal fields -/
def isIPv4 (cs : List Char) : Bool := (cs.splitOn '.').length == 4 && (cs.splitOn '.').all octet

def isHex (c : Char) : Bool := c.isDigit || ('a' ≤ c && c ≤ 'f') || ('A' ≤ c && c ≤ 'F')

/-- the loop over the fields of an IPv6 address from byte `i` on, with what is left of the text and whether "::" was
seen; `fuel` is the number of fields still possible -/
def ipv6Fields : ℕ → ℕ → Bool → List Char → Bool
  | 0, _, _, _ => false
  | fuel + 1, i, ellipsis, s =>
    let field := s.takeWhile isHex
    let rest := s.drop field.length
    if field = [] ∨ field.length > 4 then false
    else
      match rest with
      | '.' :: _ =>
        -- the last two fields may be written as an IPv4 address
        if (!ellipsis && i != 12) || i + 4 > 16 then false
        else isIPv4 s && (if i + 4 < 16 then ellipsis else !ellipsis)
      | [] => if i + 2 < 16 then ellipsis else !ellipsis
      | ':' :: ':' :: [] => !ellipsis && decide (i + 2 < 16)
      | ':' :: ':' :: more => !ellipsis && decide (i + 2 < 16) && ipv6Fields fuel (i + 2) true more
      | ':' :: c :: more => decide (i + 2 < 16) && ipv6Fields fuel (i + 2) ellipsis (c :: more)
      | _ => false

/-- netip.ParseAddr for a text with a colon before any dot; a zone is refused -/
def isIPv6 (cs : List Char) : Bool :=
  if '%' ∈ cs then false
  else
    match cs with
    | ':' :: ':' :: [] => true
    | ':' :: ':' :: rest => ipv6Fields 8 0 true rest
    | _ => ipv6Fields 8 0 false cs

/-- net.ParseIP(s) != nil -/
def parseIP (s : String) : Bool :=
  match s.toList.find? fun c => c = '.' ∨ c = ':' ∨ c = '%' with
  | some '.' => isIPv4 s.toList
  | some ':' => isIPv6 s.toList
  | _ => false

example : parseIP "10.0.0.1" = true ∧ parseIP "10.0.0.01" = false ∧ parseIP "::ffff:1.2.3.4" = true ∧
    parseIP "1:2:3:4:5:6:7::" = true ∧ parseIP "1:2:3:4:5:6:7::8" = false ∧ parseIP "edge.example.test" = false := by
  decide

example : splitHostPort "edge.example.test:443" = some ("edge.example.test", "443") ∧
    splitHostPort "[::1]:80" = some ("::1", "80") ∧ splitHostPort "::1" = none ∧
      splitHostPort "edge" = none := by decide

end Paperboat.Net
