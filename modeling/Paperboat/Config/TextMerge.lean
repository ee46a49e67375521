/-
The three-way text merge of config sync (merge.go). `lineEdits` finds what one side
changed in the common base: it trims the lines that both texts begin and end with, runs
a shortest-edit search over the lines between (a frontier per round, kept in a trace)
and reads the edits back from the trace. `mergeRegularText` groups the line edits of
both sides where they overlap or meet; a group that only one side has is taken over, a
group of both sides only if they agree.

Texts are byte lists, offsets are byte offsets, as in the code. A frontier is a function
from diagonals to how far they got, the trace lists the frontiers newest first. All
scans spend from one work budget, and a merge answers with a text or refuses.

Premises:
- the context is not cancelled.
-/
import Mathlib.Tactic

namespace Paperboat.Config

/-- a computation that spends from a budget and may refuse -/
abbrev Budgeted (ε α : Type) : Type := StateT Nat (Except ε) α

/-- pay for `n` units of work, or refuse with `e` -/
def spend {ε : Type} (e : ε) (n : Nat) : Budgeted ε Unit := fun b => if n > b then .error e else .ok ((), b - n)

/-- refuse, whatever is left -/
def refuse {ε α : Type} (e : ε) : Budgeted ε α := fun _ => .error e

abbrev Bytes := List UInt8

/-- why a merge is refused; the code has one error for all of them (ErrTextMergeConflict) -/
inductive Refusal
  | unfit
  | tooLarge
  | work
  | overlap
deriving DecidableEq, Repr

/-- a computation that spends from the merge budget -/
abbrev Merging := Budgeted Refusal

/-- mergeBudget.spend -/
def pay (n : Nat) : Merging Unit := spend .work n

/-- half-open byte offsets in the common base, and what takes their place -/
structure TextEdit where
  start : Nat
  stop : Nat
  value : Bytes
deriving DecidableEq, Repr

/-- value[i:j] -/
def slice (value : Bytes) (i j : Nat) : Bytes := (value.take j).drop i

/-! ## Lines -/

def newline : UInt8 := 10

def nextLine (value : Bytes) (start : Nat) : Nat :=
  match (value.drop start).idxOf? newline with
  | some n => start + n + 1
  | none => value.length

/-- bytes.LastIndexByte -/
def lastIndexByte (value : Bytes) (b : UInt8) : Option Nat :=
  (value.reverse.idxOf? b).map fun i => value.length - 1 - i

def previousLine (value : Bytes) (start stop : Nat) : Nat :=
  let stop := if value[stop - 1]? = some newline then stop - 1 else stop
  start + match lastIndexByte (slice value start stop) newline with
    | some i => i + 1
    | none => 0

/-- the loop of lineOffsets; the fuel is at least the number of bytes left, so the loop ends by its own test -/
def offsetsFrom (value : Bytes) : Nat → Nat → List Nat → Merging (List Nat)
  | 0, _, offsets => pure offsets
  | fuel + 1, pos, offsets =>
    if pos < value.length then do
      pay 1
      offsetsFrom value fuel (nextLine value pos) (offsets ++ [nextLine value pos])
    else pure offsets

def lineOffsets (value : Bytes) : Merging (List Nat) := offsetsFrom value value.length 0 [0]

/-- the first loop of lineEdits: the lines both texts begin with -/
def commonStart (base side : Bytes) : Nat → Nat → Merging Nat
  | 0, start => pure start
  | fuel + 1, start =>
    if start < base.length ∧ start < side.length then do
      pay 1
      if slice base start (nextLine base start) ≠ slice side start (nextLine side start) then pure start
      else commonStart base side fuel (nextLine base start)
    else pure start

/-- the second loop: the lines both texts end with -/
def commonEnd (base side : Bytes) (start : Nat) : Nat → Nat → Nat → Merging (Nat × Nat)
  | 0, baseEnd, sideEnd => pure (baseEnd, sideEnd)
  | fuel + 1, baseEnd, sideEnd =>
    if start < baseEnd ∧ start < sideEnd then do
      pay 1
      let x := previousLine base start baseEnd
      let y := previousLine side start sideEnd
      if slice base x baseEnd ≠ slice side y sideEnd then pure (baseEnd, sideEnd)
      else commonEnd base side start fuel x y
    else pure (baseEnd, sideEnd)

/-! ## The search -/

section Search

variable (same : Nat → Nat → Bool) (n m : Nat)

/-- the innermost loop: follow diagonal `k` from `x` while both texts have the same line -/
def follow (k : ℤ) : Nat → Nat → Merging Nat
  | 0, x => pure x
  | fuel + 1, x =>
    if x < n ∧ (x : ℤ) - k < m then do
      pay 1
      if same x ((x : ℤ) - k).toNat then follow k fuel (x + 1) else pure x
    else pure x

/-- where round `d` enters diagonal `k`: below the neighbour above it or right of the neighbour below it -/
def enter (d : ℕ) (prev : ℤ → ℕ) (k : ℤ) : ℕ :=
  if k = -d ∨ (k ≠ d ∧ prev (k - 1) < prev (k + 1)) then prev (k + 1) else prev (k - 1) + 1

/-- the diagonals of round `d` from `k` on, `todo` of them; whether the end of both texts was reached -/
def roundFrom (d : Nat) (prev : ℤ → Nat) : Nat → ℤ → (ℤ → Nat) → Merging (Bool × (ℤ → Nat))
  | 0, _, front => pure (false, front)
  | todo + 1, k, front => do
    pay 1
    let x := if d > 0 then enter d prev k else 0
    let x ← follow same n m k (n - x) x
    let front := Function.update front k x
    if n ≤ x ∧ (m : ℤ) ≤ (x : ℤ) - k then pure (true, front)
    else roundFrom d prev todo (k + 2) front

/-- the rounds from `d` on, `todo` of them -/
def search : Nat → Nat → List (ℤ → Nat) → Merging (List (ℤ → Nat))
  | 0, _, _ => refuse .overlap
  | todo + 1, d, trace => do
    pay (2 * d + 1)
    let (done, front) ← roundFrom same n m d (trace.headD fun _ => 0) (d + 1) (-d) fun _ => 0
    if done then pure (front :: trace) else search todo (d + 1) (front :: trace)

end Search

/-! ## From the trace to edits -/

/-- diffStep: '=' with a count, '-' and '+' -/
inductive DiffStep
  | keep (count : Nat)
  | delete
  | insert
deriving DecidableEq, Repr

/-- go back along a diagonal to `px` or `py` -/
def rewind (px : Nat) (py : ℤ) : Nat → Nat → Nat → Merging (Nat × Nat × Nat)
  | 0, y, matched => pure (0, y, matched)
  | x + 1, y, matched =>
    if px < x + 1 ∧ py < (y : ℤ) then do
      pay 1
      rewind px py x (y - 1) (matched + 1)
    else pure (x + 1, y, matched)

/-- the first loop of editsFromTrace, on the frontiers before the last one; the code lists the steps backwards and reads
the list from its end -/
def stepsBack : List (ℤ → Nat) → Nat → Nat → List DiffStep → Merging (List DiffStep)
  | [], x, _, steps => pure (if x > 0 then .keep x :: steps else steps)
  | prev :: rest, x, y, steps => do
    pay 1
    let d := rest.length + 1
    let k : ℤ := (x : ℤ) - y
    let previousK := if k = -d ∨ (k ≠ d ∧ prev (k - 1) < prev (k + 1)) then k + 1 else k - 1
    let px := prev previousK
    let (x, y, matched) ← rewind px ((px : ℤ) - previousK) x y 0
    let steps := if matched > 0 then .keep matched :: steps else steps
    if x = px then stepsBack rest x (y - 1) (.insert :: steps)
    else stepsBack rest (x - 1) y (.delete :: steps)

/-- the variables of the second loop; `pending` is (editBase, editSide), or none for -1 -/
structure Collected where
  edits : List TextEdit := []
  basePos : Nat := 0
  sidePos : Nat := 0
  pending : Option (Nat × Nat) := none

/-- where the lines of the two trimmed texts start, and the side they are edits to -/
structure Trimmed where
  a : List Nat
  b : List Nat
  start : Nat
  side : Bytes

def Trimmed.baseAt (t : Trimmed) (i : Nat) : Nat := t.start + t.a.getD i 0

def Trimmed.sideAt (t : Trimmed) (j : Nat) : Nat := t.start + t.b.getD j 0

def Collected.flush (t : Trimmed) (s : Collected) : Collected :=
  match s.pending with
  | none => s
  | some (editBase, editSide) =>
    { s with
      edits := s.edits ++ [⟨t.baseAt editBase, t.baseAt s.basePos,
        slice t.side (t.sideAt editSide) (t.sideAt s.sidePos)⟩]
      pending := none }

def Collected.step (t : Trimmed) (s : Collected) : DiffStep → Merging Collected
  | .keep count => do
    pay 1
    let s := s.flush t
    pure { s with basePos := s.basePos + count, sidePos := s.sidePos + count }
  | .delete => do
    pay 1
    pure { s with pending := s.pending.or (some (s.basePos, s.sidePos)), basePos := s.basePos + 1 }
  | .insert => do
    pay 1
    pure { s with pending := s.pending.or (some (s.basePos, s.sidePos)), sidePos := s.sidePos + 1 }

def editsFromTrace (trace : List (ℤ → Nat)) (t : Trimmed) : Merging (List TextEdit) := do
  let steps ← stepsBack trace.tail (t.a.length - 1) (t.b.length - 1) []
  let s ← steps.foldlM (Collected.step t) {}
  pure (s.flush t).edits

/-- the lines at `x` and `y` of the two trimmed texts are the same -/
def Trimmed.same (t : Trimmed) (base : Bytes) (x y : Nat) : Bool :=
  slice base (t.baseAt x) (t.baseAt (x + 1)) == slice t.side (t.sideAt y) (t.sideAt (y + 1))

def lineEdits (base side : Bytes) : Merging (List TextEdit) := do
  let start ← commonStart base side base.length 0
  let (baseEnd, sideEnd) ← commonEnd base side start base.length base.length side.length
  if start = baseEnd ∨ start = sideEnd then
    if start = baseEnd ∧ start = sideEnd then pure []
    else pure [⟨start, baseEnd, slice side start sideEnd⟩]
  else do
    let a ← lineOffsets (slice base start baseEnd)
    let b ← lineOffsets (slice side start sideEnd)
    let t : Trimmed := ⟨a, b, start, side⟩
    let trace ← search (t.same base) (a.length - 1) (b.length - 1) (a.length - 1 + (b.length - 1) + 1) 0 []
    editsFromTrace trace t

/-! ## Groups of edits -/

/-- the variables of the grouping loop; `stop` is the code's end -/
structure EditGroup where
  left : List TextEdit
  right : List TextEdit
  stop : Nat
  endInsertion : Bool
  a : List TextEdit
  b : List TextEdit

/-- the edit that comes next, and whether it is the left side's (useLeft) -/
def nextEdit : List TextEdit → List TextEdit → Option (Bool × TextEdit)
  | [], [] => none
  | l :: _, [] => some (true, l)
  | [], r :: _ => some (false, r)
  | l :: _, r :: _ => if l.start ≤ r.start then some (true, l) else some (false, r)

/-- the edit joins the group -/
def EditGroup.join (g : EditGroup) (useLeft : Bool) (next : TextEdit) : EditGroup :=
  let stop := if next.stop > g.stop then next.stop else g.stop
  let endInsertion := if next.stop > g.stop then false else g.endInsertion
  let endInsertion := if next.start = stop ∧ next.stop = stop then true else endInsertion
  if useLeft then { g with left := g.left.tail, a := g.a ++ [next], stop, endInsertion }
  else { g with right := g.right.tail, b := g.b ++ [next], stop, endInsertion }

/-- one turn of the grouping loop, or nothing where it ends -/
def EditGroup.next (g : EditGroup) : Option EditGroup :=
  match nextEdit g.left g.right with
  | none => none
  | some (useLeft, next) =>
    if next.start > g.stop ∨ next.start = g.stop ∧ next.stop > next.start ∧ g.endInsertion = false then none
    else some (g.join useLeft next)

/-- the grouping loop; the fuel is the number of edits left -/
def grow : Nat → EditGroup → Merging EditGroup
  | 0, g => pure g
  | fuel + 1, g =>
    match g.next with
    | none => pure g
    | some g' => do
      pay 1
      grow fuel g'

/-- where the next group starts -/
def groupStart (base : Bytes) (left right : List TextEdit) : Nat :=
  let start := match left with
    | [] => base.length
    | l :: _ => l.start
  match right with
  | [] => start
  | r :: _ => if r.start < start then r.start else start

/-! ## The merge -/

/-- utf8.Valid; the fuel is the number of bytes -/
def validUTF8 : Nat → Bytes → Bool
  | _, [] => true
  | 0, _ => false
  | fuel + 1, value =>
    match value.toByteArray.utf8DecodeChar? 0 with
    | none => false
    | some c => validUTF8 fuel (value.drop c.utf8Size)

def mergeText (value : Bytes) : Bool := validUTF8 value.length value && !value.contains 0

/-- boundedMergeBuffer.Write -/
def write (limit : ℤ) (out value : Bytes) : Merging Bytes :=
  if (value.length : ℤ) > limit - out.length then refuse .tooLarge else pure (out ++ value)

/-- the loop of renderEdits -/
def renderFrom (base : Bytes) (maxBytes : ℤ) : List TextEdit → Nat → Bytes → Merging (Nat × Bytes)
  | [], start, out => pure (start, out)
  | e :: edits, start, out => do
    pay 1
    let out ← write maxBytes out (slice base start e.start)
    let out ← write maxBytes out e.value
    renderFrom base maxBytes edits e.stop out

def renderEdits (base : Bytes) (start stop : Nat) (edits : List TextEdit) (maxBytes : ℤ) : Merging Bytes := do
  let (start, out) ← renderFrom base maxBytes edits start []
  write maxBytes out (slice base start stop)

/-- what takes the place of base[start:stop] -/
def combine (base : Bytes) (maxBytes : ℤ) (start stop : Nat) (a b : List TextEdit) : Merging Bytes :=
  if a = [] then renderEdits base start stop b maxBytes
  else do
    let value ← renderEdits base start stop a maxBytes
    if b = [] then pure value
    else do
      let other ← renderEdits base start stop b maxBytes
      if value ≠ other then refuse .overlap else pure value

/-- the outer loop; the fuel is the number of edits left -/
def mergeLoop (base : Bytes) (maxBytes : ℤ) : Nat → List TextEdit → List TextEdit → Nat → Bytes → Merging Bytes
  | 0, _, _, position, output => write maxBytes output (base.drop position)
  | fuel + 1, left, right, position, output =>
    if left = [] ∧ right = [] then write maxBytes output (base.drop position)
    else do
      pay 1
      let start := groupStart base left right
      let g ← grow (left.length + right.length) ⟨left, right, start, true, [], []⟩
      let output ← write maxBytes output (slice base position start)
      let value ← combine base maxBytes start g.stop g.a g.b
      let output ← write maxBytes output value
      mergeLoop base maxBytes fuel g.left g.right g.stop output

/-- the part of mergeRegularText that spends from the budget -/
def mergeEdits (base localText remote : Bytes) (maxBytes : ℤ) : Merging Bytes := do
  let left ← lineEdits base localText
  let right ← lineEdits base remote
  mergeLoop base maxBytes (left.length + right.length) left right 0 []

/-- mergeRegularText with a work limit -/
def mergeUnder (work : Nat) (base localText remote : Bytes) (maxBytes : ℤ) : Except Refusal Bytes :=
  if maxBytes < 1 ∨ (base.length : ℤ) > maxBytes ∨ (localText.length : ℤ) > maxBytes ∨ (remote.length : ℤ) > maxBytes ∨
      mergeText base = false ∨ mergeText localText = false ∨ mergeText remote = false then .error .unfit
  else if localText = remote ∨ base = remote then .ok localText
  else if base = localText then .ok remote
  else ((mergeEdits base localText remote maxBytes).run work).map Prod.fst

def mergeWorkLimit : Nat := 2 ^ 20

def mergeRegularText (base localText remote : Bytes) (maxBytes : ℤ) : Except Refusal Bytes :=
  mergeUnder mergeWorkLimit base localText remote maxBytes

end Paperboat.Config
