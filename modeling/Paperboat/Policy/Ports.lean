/-
Port ranges of the workspace policy (`shared/policy/policy.go`,
`shared/policy/compile.go`): inclusive ranges, the merge that sorts and joins them, and
the subtraction of one list from another.

A list of ranges stands for the set of ports it contains. The results say what the two
functions do to that set, and that they build the one list that stands for it:
- `contains_mergePorts`: merging keeps the set;
- `contains_subtractPorts`: subtraction is set difference;
- `mergePorts_canonical`, `subtractPorts_canonical`, `canonical_unique`: both give a
  canonical list, and a set has only one;
- `mergePorts_valid`, `subtractPorts_valid`: ranges of ports 1 to 65535 stay ranges of
  ports 1 to 65535, so a non-empty list contains a port (`exists_contains`).

Go's `int` is a Lean `Int`: every port is at most 65535, so the additions of one do not
overflow.
-/
import Paperboat.Core.Fold
import Paperboat.Core.Json
import Paperboat.Core.Search

namespace Paperboat.Policy

open Fold Search

/-- an inclusive range; in a policy file a number (5432) or a text ("8000-8100") -/
structure PortRange where
  fromPort : Int
  toPort : Int
deriving DecidableEq, Repr

/-- "22" or "1024-65535" -/
def PortRange.text (p : PortRange) : String :=
  if p.fromPort = p.toPort then String.ofList (Json.decimal p.fromPort)
  else String.ofList (Json.decimal p.fromPort) ++ "-" ++ String.ofList (Json.decimal p.toPort)

def PortRange.contains (p : PortRange) (port : Int) : Bool := port ≥ p.fromPort && port ≤ p.toPort

/-- what Parse and UnmarshalJSON accept: ports 1 to 65535, the lower one first -/
structure PortRange.Valid (p : PortRange) : Prop where
  low : 1 ≤ p.fromPort
  order : p.fromPort ≤ p.toPort
  high : p.toPort ≤ 65535

instance (p : PortRange) : Decidable p.Valid :=
  decidable_of_iff (1 ≤ p.fromPort ∧ p.fromPort ≤ p.toPort ∧ p.toPort ≤ 65535)
    ⟨fun h => ⟨h.1, h.2.1, h.2.2⟩, fun h => ⟨h.low, h.order, h.high⟩⟩

def portsContain (ps : List PortRange) (port : Int) : Bool := ps.any fun p => p.contains port

/-- every port -/
def allPorts : List PortRange := [⟨1, 65535⟩]

/-- the ports private_access covers when a rule names none -/
def defaultPrivatePorts : PortRange := ⟨1024, 65535⟩

/-- the loop of mergePorts over the sorted rest; `last` is the range still open at the end of the output -/
def mergeInto (last : PortRange) : List PortRange → List PortRange
  | [] => [last]
  | p :: ps =>
    if p.fromPort ≤ last.toPort + 1 then mergeInto ⟨last.fromPort, max last.toPort p.toPort⟩ ps
    else last :: mergeInto p ps

open PortRange

/-- sorts and joins overlapping or adjacent ranges -/
def mergePorts (ps : List PortRange) : List PortRange :=
  match sortBy fromPort ps with
  | [] => []
  | p :: ps => mergeInto p ps

/-- what is left of the range `p` without the range `d` -/
def subtractRange (d p : PortRange) : List PortRange :=
  if d.toPort < p.fromPort ∨ d.fromPort > p.toPort then [p]
  else
    (if p.fromPort < d.fromPort then [⟨p.fromPort, d.fromPort - 1⟩] else []) ++
      (if p.toPort > d.toPort then [⟨d.toPort + 1, p.toPort⟩] else [])

def subtractPorts (a b : List PortRange) : List PortRange :=
  (mergePorts b).foldl (fun out d => out.flatMap (subtractRange d)) (mergePorts a)

/-! ## The set of ports -/

theorem contains_iff (p : PortRange) (n : Int) : p.contains n = true ↔ p.fromPort ≤ n ∧ n ≤ p.toPort := by
  simp [contains]

variable (ps : List PortRange)

theorem portsContain_iff (n : Int) : portsContain ps n = true ↔ ∃ p ∈ ps, p.fromPort ≤ n ∧ n ≤ p.toPort := by
  simp [portsContain, contains_iff]

@[simp] theorem portsContain_nil (n : Int) : portsContain [] n = false := rfl

@[simp] theorem portsContain_cons (p : PortRange) (ps : List PortRange) (n : Int) :
    portsContain (p :: ps) n = (p.contains n || portsContain ps n) := rfl

@[simp] theorem portsContain_append (a b : List PortRange) (n : Int) :
    portsContain (a ++ b) n = (portsContain a n || portsContain b n) := by
  simp [portsContain]

theorem portsContain_flatMap {α : Type} (l : List α) (f : α → List PortRange) (n : Int) :
    portsContain (l.flatMap f) n = true ↔ ∃ a ∈ l, portsContain (f a) n = true := by
  simp only [portsContain_iff, List.mem_flatMap]
  constructor
  · rintro ⟨p, ⟨a, ha, hp⟩, h⟩; exact ⟨a, ha, p, hp, h⟩
  · rintro ⟨a, ha, p, hp, h⟩; exact ⟨p, ⟨a, ha, hp⟩, h⟩

theorem join_sorted {last p : PortRange} {ps : List PortRange} {n : Int}
    (hs : (last :: p :: ps).Pairwise fun a b => a.fromPort ≤ b.fromPort) :
    (mk last.fromPort n :: ps).Pairwise fun a b => a.fromPort ≤ b.fromPort := by
  obtain ⟨hhead, htail⟩ := List.pairwise_cons.1 hs
  exact List.pairwise_cons.2 ⟨fun q hq => hhead q (List.mem_cons_of_mem p hq), (List.pairwise_cons.1 htail).2⟩

/-- joining the open range with the rest keeps the set, as long as the rest starts no earlier -/
theorem portsContain_mergeInto (last : PortRange) (ps : List PortRange) (n : Int)
    (hs : (last :: ps).Pairwise fun a b => a.fromPort ≤ b.fromPort) :
    portsContain (mergeInto last ps) n = (last.contains n || portsContain ps n) := by
  induction ps generalizing last with
  | nil => simp [mergeInto]
  | cons p ps ih =>
    obtain ⟨hhead, htail⟩ := List.pairwise_cons.1 hs
    have hp : last.fromPort ≤ p.fromPort := hhead p List.mem_cons_self
    simp only [mergeInto]
    split_ifs with hjoin
    · rw [ih _ (join_sorted hs), portsContain_cons, ← Bool.or_assoc]
      congr 1
      rw [Bool.eq_iff_iff]
      simp only [Bool.or_eq_true, contains_iff]
      omega
    · rw [portsContain_cons, ih p htail, portsContain_cons]

theorem sortBy_from_sorted : (sortBy fromPort ps).Pairwise fun a b => a.fromPort ≤ b.fromPort := by
  exact List.pairwise_insertionSort _ ps

/-- **Merging keeps the set of ports.** -/
theorem contains_mergePorts (n : Int) : portsContain (mergePorts ps) n = portsContain ps n := by
  have hmem : portsContain (sortBy fromPort ps) n = portsContain ps n := by
    rw [Bool.eq_iff_iff, portsContain_iff, portsContain_iff]
    simp only [mem_sortBy]
  have hs := sortBy_from_sorted ps
  rw [← hmem]
  unfold mergePorts
  cases h : sortBy fromPort ps with
  | nil => rfl
  | cons p qs =>
    rw [h] at hs
    exact portsContain_mergeInto p qs n hs

theorem portsContain_subtractRange (d p : PortRange) (n : Int) :
    portsContain (subtractRange d p) n = (p.contains n && !d.contains n) := by
  rw [Bool.eq_iff_iff]
  simp only [Bool.and_eq_true, Bool.not_eq_true', Bool.eq_false_iff, ne_eq, contains_iff]
  unfold subtractRange
  split_ifs <;> simp [contains_iff] <;> omega

/-- **Subtraction is set difference.** -/
theorem contains_subtractPorts (a b : List PortRange) (n : Int) :
    portsContain (subtractPorts a b) n = (portsContain a n && !portsContain b n) := by
  have hfold : ∀ (ds out : List PortRange),
      portsContain (ds.foldl (fun out d => out.flatMap (subtractRange d)) out) n =
        (portsContain out n && !portsContain ds n) := by
    intro ds
    induction ds with
    | nil => simp
    | cons d ds ih =>
      intro out
      have hstep : portsContain (out.flatMap (subtractRange d)) n = (portsContain out n && !d.contains n) := by
        rw [Bool.eq_iff_iff, portsContain_flatMap]
        simp only [portsContain_subtractRange, Bool.and_eq_true]
        simp only [portsContain, List.any_eq_true]
        constructor
        · rintro ⟨p, hp, h1, h2⟩; exact ⟨⟨p, hp, h1⟩, h2⟩
        · rintro ⟨⟨p, hp, h1⟩, h2⟩; exact ⟨p, hp, h1, h2⟩
      rw [List.foldl_cons, ih, hstep, portsContain_cons, Bool.not_or, Bool.and_assoc]
  unfold subtractPorts
  rw [hfold, contains_mergePorts, contains_mergePorts]

/-! ## Canonical lists -/

/-- sorted ranges, none empty, with at least one port free between a range and the next -/
structure Canonical (ps : List PortRange) : Prop where
  order : ∀ p ∈ ps, p.fromPort ≤ p.toPort
  gap : ps.Pairwise fun p q => p.toPort + 1 < q.fromPort

variable {ps : List PortRange}

theorem mergeInto_canonical (last : PortRange) (ps : List PortRange)
    (hs : (last :: ps).Pairwise fun a b => a.fromPort ≤ b.fromPort)
    (ho : ∀ p ∈ last :: ps, p.fromPort ≤ p.toPort) : Canonical (mergeInto last ps) := by
  induction ps generalizing last with
  | nil => exact ⟨ho, List.pairwise_singleton _ _⟩
  | cons p ps ih =>
    obtain ⟨hhead, htail⟩ := List.pairwise_cons.1 hs
    obtain ⟨hl, hps⟩ := List.forall_mem_cons.1 ho
    simp only [mergeInto]
    split_ifs with hjoin
    · exact ih _ (join_sorted hs) (List.forall_mem_cons.2 ⟨le_max_of_le_left hl, (List.forall_mem_cons.1 hps).2⟩)
    · have hc := ih p htail hps
      refine ⟨List.forall_mem_cons.2 ⟨hl, hc.order⟩, List.pairwise_cons.2 ⟨fun q hq => ?_, hc.gap⟩⟩
      -- the first port of `q` is a port of `p :: ps`, where no range starts before `p`
      have hq' : portsContain (p :: ps) q.fromPort = true := by
        rw [portsContain_cons, ← portsContain_mergeInto p ps _ htail, portsContain_iff]
        exact ⟨q, hq, le_rfl, hc.order q hq⟩
      obtain ⟨r, hr, hrq, _⟩ := (portsContain_iff _ _).1 hq'
      have hpr : p.fromPort ≤ r.fromPort := by
        rcases List.mem_cons.1 hr with rfl | hr
        · exact le_rfl
        · exact (List.pairwise_cons.1 htail).1 r hr
      omega

/-- **Merging gives a canonical list.** -/
theorem mergePorts_canonical (h : ∀ p ∈ ps, p.fromPort ≤ p.toPort) : Canonical (mergePorts ps) := by
  have hs := sortBy_from_sorted ps
  have ho : ∀ p ∈ sortBy fromPort ps, p.fromPort ≤ p.toPort := fun p hp => h p (mem_sortBy.1 hp)
  unfold mergePorts
  cases hsort : sortBy fromPort ps with
  | nil => exact ⟨nofun, .nil⟩
  | cons q qs =>
    rw [hsort] at hs ho
    exact mergeInto_canonical q qs hs ho

/-- what is left of a range lies in it -/
theorem subtractRange_within {d p q : PortRange} (h : p.fromPort ≤ p.toPort) (hq : q ∈ subtractRange d p) :
    p.fromPort ≤ q.fromPort ∧ q.fromPort ≤ q.toPort ∧ q.toPort ≤ p.toPort := by
  unfold subtractRange at hq
  split_ifs at hq <;> simp at hq
  · subst hq; omega
  · rcases hq with rfl | rfl <;> simp only <;> omega
  all_goals subst hq; simp only; omega

variable {a : List PortRange}

theorem flatMap_order (d : PortRange) (h : ∀ p ∈ ps, p.fromPort ≤ p.toPort) :
    ∀ q ∈ ps.flatMap (subtractRange d), q.fromPort ≤ q.toPort := by
  intro q hq
  obtain ⟨p, hp, hpq⟩ := List.mem_flatMap.1 hq
  exact (subtractRange_within (h p hp) hpq).2.1

/-- cutting one range out of every range keeps the gaps, and leaves one where the range was -/
theorem subtractRange_canonical {d : PortRange} (hd : d.fromPort ≤ d.toPort) (h : Canonical ps) :
    Canonical (ps.flatMap (subtractRange d)) := by
  refine ⟨flatMap_order d h.order, List.pairwise_flatMap.2 ⟨fun p hp => ?_, ?_⟩⟩
  · unfold subtractRange
    split_ifs <;> simp
    omega
  · refine h.gap.imp_of_mem fun {p p'} hp hp' hgap q hq q' hq' => ?_
    have := subtractRange_within (h.order p hp) hq
    have := subtractRange_within (h.order p' hp') hq'
    omega

/-- **Subtraction gives a canonical list.** -/
theorem subtractPorts_canonical {b : List PortRange} (ha : ∀ p ∈ a, p.fromPort ≤ p.toPort)
    (hb : ∀ p ∈ b, p.fromPort ≤ p.toPort) : Canonical (subtractPorts a b) :=
  foldl_inv Canonical _ _ (fun _ d hd hc => subtractRange_canonical ((mergePorts_canonical hb).order d hd) hc) _
    (mergePorts_canonical ha)

/-- two ranges of a canonical list are the same or have a port between them -/
theorem Canonical.apart {p q : PortRange} (h : Canonical ps) (hp : p ∈ ps) (hq : q ∈ ps) :
    p = q ∨ p.toPort + 1 < q.fromPort ∨ q.toPort + 1 < p.fromPort := by
  let R := fun p q : PortRange => p.toPort + 1 < q.fromPort ∨ q.toPort + 1 < p.fromPort
  have : Std.Symm R := ⟨fun _ _ => Or.symm⟩
  have hR : ps.Pairwise R := h.gap.imp Or.inl
  exact or_iff_not_imp_left.2 (hR.forall hp hq)

theorem canonical_subset {b : List PortRange} (ha : Canonical a) (hb : Canonical b)
    (h : ∀ n, portsContain a n = portsContain b n) : a ⊆ b := by
  intro p hp
  have hset : ∀ n, (∃ q ∈ a, q.fromPort ≤ n ∧ n ≤ q.toPort) ↔ ∃ q ∈ b, q.fromPort ≤ n ∧ n ≤ q.toPort := fun n => by
    rw [← portsContain_iff, ← portsContain_iff, h]
  have hpo := ha.order p hp
  obtain ⟨q, hq, hqp, hpq⟩ := (hset p.fromPort).1 ⟨p, hp, le_rfl, hpo⟩
  -- the port next to a range lies in no range of its list
  have hfrom : p.fromPort ≤ q.fromPort := by
    by_contra hlt
    obtain ⟨r, hr, hrp⟩ := (hset (p.fromPort - 1)).2 ⟨q, hq, by omega⟩
    rcases ha.apart hp hr with rfl | hpr | hpr <;> omega
  have hto : q.toPort ≤ p.toPort := by
    by_contra hlt
    obtain ⟨r, hr, hrp⟩ := (hset (p.toPort + 1)).2 ⟨q, hq, by omega⟩
    rcases ha.apart hp hr with rfl | hpr | hpr <;> omega
  have hto' : p.toPort ≤ q.toPort := by
    by_contra hlt
    obtain ⟨r, hr, hrq⟩ := (hset (q.toPort + 1)).1 ⟨p, hp, by omega⟩
    rcases hb.apart hq hr with rfl | hqr | hqr <;> omega
  obtain rfl : p = q := by
    cases p
    cases q
    congr 1
    · exact le_antisymm hfrom hqp
    · exact le_antisymm hto' hto
  exact hq

/-- **One list for each set of ports.** -/
theorem canonical_unique {b : List PortRange} (ha : Canonical a) (hb : Canonical b)
    (h : ∀ n, portsContain a n = portsContain b n) : a = b := by
  have hstrict : ∀ {l : List PortRange}, Canonical l → Strict fromPort l := fun hl =>
    hl.gap.imp_of_mem fun {p q} hp _ hgap => by
      have := hl.order p hp
      omega
  have hab := canonical_subset ha hb h
  have hba := canonical_subset hb ha fun n => (h n).symm
  exact strict_ext (hstrict ha) (hstrict hb) fun p => ⟨@hab p, @hba p⟩

/-! ## Valid ranges stay valid -/

/-- ranges that are not empty are valid when their ports are ports of valid ranges -/
theorem valid_of_contains {out : List PortRange} (ho : ∀ p ∈ out, p.fromPort ≤ p.toPort)
    (hc : ∀ n, portsContain out n = true → portsContain ps n = true) (h : ∀ p ∈ ps, p.Valid) : ∀ p ∈ out, p.Valid := by
  intro p hp
  have hin : ∀ n, p.fromPort ≤ n → n ≤ p.toPort → ∃ q ∈ ps, q.fromPort ≤ n ∧ n ≤ q.toPort := fun n h1 h2 =>
    (portsContain_iff _ _).1 (hc n ((portsContain_iff _ _).2 ⟨p, hp, h1, h2⟩))
  obtain ⟨q, hq, hlow, _⟩ := hin p.fromPort le_rfl (ho p hp)
  obtain ⟨r, hr, _, hhigh⟩ := hin p.toPort (ho p hp) le_rfl
  exact ⟨(h q hq).low.trans hlow, ho p hp, hhigh.trans (h r hr).high⟩

theorem mergePorts_valid (h : ∀ p ∈ ps, p.Valid) : ∀ p ∈ mergePorts ps, p.Valid :=
  valid_of_contains (mergePorts_canonical fun p hp => (h p hp).order).order
    (fun n hn => (contains_mergePorts ps n).symm.trans hn) h

theorem subtractPorts_valid (b : List PortRange) (h : ∀ p ∈ a, p.Valid) : ∀ p ∈ subtractPorts a b, p.Valid := by
  have ho : ∀ p ∈ subtractPorts a b, p.fromPort ≤ p.toPort :=
    foldl_inv (fun out : List PortRange => ∀ p ∈ out, p.fromPort ≤ p.toPort) _ _ (fun _ d _ => flatMap_order d) _
      (mergePorts_canonical fun p hp => (h p hp).order).order
  refine valid_of_contains ho (fun n hn => ?_) h
  rw [contains_subtractPorts, Bool.and_eq_true] at hn
  exact hn.1

/-- a non-empty list of valid ranges contains a port -/
theorem exists_contains (hne : ps ≠ []) (h : ∀ p ∈ ps, p.Valid) :
    ∃ n, 1 ≤ n ∧ n ≤ 65535 ∧ portsContain ps n = true := by
  obtain ⟨p, qs, rfl⟩ := List.exists_cons_of_ne_nil hne
  obtain ⟨h1, h2, h3⟩ := h p List.mem_cons_self
  exact ⟨p.fromPort, h1, h2.trans h3, (portsContain_iff _ _).2 ⟨p, List.mem_cons_self, le_rfl, h2⟩⟩

theorem allPorts_contains {n : Int} (h1 : 1 ≤ n) (h2 : n ≤ 65535) : portsContain allPorts n = true :=
  (portsContain_iff _ _).2 ⟨⟨1, 65535⟩, by simp [allPorts], h1, h2⟩

theorem allPorts_valid : ∀ p ∈ allPorts, p.Valid := by decide

theorem defaultPrivatePorts_valid : ∀ p ∈ [defaultPrivatePorts], p.Valid := by decide

end Paperboat.Policy
