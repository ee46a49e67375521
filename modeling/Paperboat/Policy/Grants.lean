/-
Compiled permissions (`shared/policy/compile.go`): a grant per account, target and
action, the builder that collects them while the rules are expanded, the sorted list,
its lookup by binary search, and the subtraction of denied access.

The builder holds at most one grant per key (a field), so its sorted list is strictly
sorted and `findGrant` is lookup:
- `covers_add`: adding gives one key, with its ports, and changes no other;
- `covers_addAll`: one rule gives every combination of its accounts, targets and
  actions.
-/
import Paperboat.Policy.Inventory

namespace Paperboat.Policy

open Search Fold

/-- an account may perform an action on a target; `ports` only for private_access -/
structure Grant where
  account : String
  target : Target
  action : String
  ports : List PortRange
  /-- the indexes of the rules that give it -/
  rules : List ℕ
deriving DecidableEq, Repr

/-- account, target, action -/
abbrev GrantKey := String × Target × String

def Grant.grantKey (g : Grant) : GrantKey := (g.account, g.target, g.action)

/-- the texts grants are ordered by -/
def sortKey (k : GrantKey) : List String := [k.1, k.2.1.kind.name, k.2.1.id, k.2.2]

def Grant.sortKey (g : Grant) : List String := Policy.sortKey g.grantKey

def grantLess (a b : Grant) : Bool := a.sortKey < b.sortKey

open Grant

/-- the grants collected so far, at most one per key -/
structure Builder where
  grants : List Grant
  nodup : (grants.map grantKey).Nodup

def newBuilder : Builder := ⟨[], List.nodup_nil⟩

/-- one more rule gives the grant: its index once, and for private_access its ports -/
def Grant.extend (g : Grant) (ports : List PortRange) (rule : ℕ) : Grant :=
  { g with
    rules := if rule ∈ g.rules then g.rules else (g.rules ++ [rule]).insertionSort (· ≤ ·)
    ports := if g.action = actionPrivateAccess then mergePorts (g.ports ++ ports) else g.ports }

@[simp] theorem extend_grantKey (g : Grant) (ports : List PortRange) (rule : ℕ) :
    (g.extend ports rule).grantKey = g.grantKey := rfl

theorem extend_keys (gs : List Grant) (k : GrantKey) (ports : List PortRange) (rule : ℕ) :
    (gs.map fun g => if g.grantKey = k then g.extend ports rule else g).map grantKey = gs.map grantKey := by
  rw [List.map_map]
  refine List.map_congr_left fun g _ => ?_
  simp only [Function.comp_apply]
  split_ifs <;> simp

variable {gs : List Grant} {g : Grant}

theorem new_key_nodup (hn : (gs.map grantKey).Nodup)
    (h : g.grantKey ∉ gs.map grantKey) : ((gs ++ [g]).map grantKey).Nodup := by
  rw [List.map_append, List.map_singleton]
  refine hn.append (List.nodup_singleton _) fun k hk hg => ?_
  rw [List.mem_singleton] at hg
  exact h (hg ▸ hk)

def Builder.add (b : Builder) (account : String) (t : Target) (action : String) (ports : List PortRange) (rule : ℕ) :
    Builder :=
  if h : (account, t, action) ∈ b.grants.map grantKey then
    ⟨b.grants.map fun g => if g.grantKey = (account, t, action) then g.extend ports rule else g,
      (extend_keys _ _ _ _).symm ▸ b.nodup⟩
  else
    ⟨b.grants ++ [extend ⟨account, t, action, [], []⟩ ports rule], new_key_nodup b.nodup h⟩

/-- every combination of accounts, targets and actions, for one rule -/
def Builder.addAll (b : Builder) (accounts : List String) (targets : List Target) (actions : List String)
    (ports : List PortRange) (rule : ℕ) : Builder :=
  accounts.foldl (fun b a => targets.foldl
    (fun b t => actions.foldl (fun b action => b.add a t action ports rule) b) b) b

def Builder.list (b : Builder) : List Grant := sortBy Grant.sortKey b.grants

def findGrant (gs : List Grant) (account : String) (t : Target) (action : String) : Option Grant :=
  sortedFind Grant.sortKey gs (sortKey (account, t, action))

/-- removes denied access from allowed access: a whole grant, or for private_access the denied ports -/
def subtract (allows denies : List Grant) : List Grant :=
  allows.filterMap fun g =>
    match findGrant denies g.account g.target g.action with
    | none => some g
    | some d =>
      if g.action ≠ actionPrivateAccess then none
      else if subtractPorts g.ports d.ports ≠ [] then some { g with ports := subtractPorts g.ports d.ports } else none

/-! ## Lookup in the sorted list -/

theorem TargetKind.name_injective : Function.Injective TargetKind.name := by
  intro a b h
  cases a <;> cases b <;> first | rfl | exact absurd h (by decide)

theorem sortKey_injective : Function.Injective sortKey := by
  rintro ⟨a, ⟨k, i⟩, act⟩ ⟨a', ⟨k', i'⟩, act'⟩ h
  simp only [sortKey, List.cons.injEq, and_true] at h
  obtain ⟨rfl, hk, rfl, rfl⟩ := h
  rw [TargetKind.name_injective hk]

theorem list_strict (b : Builder) : Strict Grant.sortKey b.list := by
  refine sortBy_strict ?_
  have : b.grants.map Grant.sortKey = (b.grants.map Grant.grantKey).map sortKey := by
    rw [List.map_map]; rfl
  rw [this]
  exact b.nodup.map sortKey_injective

variable {b : Builder}

theorem mem_list : g ∈ b.list ↔ g ∈ b.grants := mem_sortBy

variable {action : String}

theorem findGrant_eq_some (hs : Strict Grant.sortKey gs) {a : String} {t : Target}
    : findGrant gs a t action = some g ↔ g ∈ gs ∧ g.grantKey = (a, t, action) := by
  unfold findGrant
  rw [sortedFind_eq_some hs]
  exact and_congr_right fun _ => sortKey_injective.eq_iff

theorem findGrant_eq_none (hs : Strict Grant.sortKey gs) {a : String} {t : Target} :
    findGrant gs a t action = none ↔ ∀ g ∈ gs, g.grantKey ≠ (a, t, action) := by
  unfold findGrant
  rw [sortedFind_eq_none hs]
  exact forall₂_congr fun g _ => not_congr sortKey_injective.eq_iff

/-! ## What the builder holds -/

/-- the grant is for the key and, for private_access, has the port -/
def Grant.Covers (g : Grant) (k : GrantKey) (n : Int) : Prop :=
  g.grantKey = k ∧ (k.2.2 = actionPrivateAccess → portsContain g.ports n = true)

def Builder.Covers (b : Builder) (k : GrantKey) (n : Int) : Prop := ∃ g ∈ b.grants, g.Covers k n

variable {ports : List PortRange} {k : GrantKey} {n : Int}

theorem extend_covers {rule : ℕ} : (g.extend ports rule).Covers k n ↔
    g.Covers k n ∨ g.grantKey = k ∧ (k.2.2 = actionPrivateAccess → portsContain ports n = true) := by
  unfold Covers
  rw [extend_grantKey, ← and_or_left]
  refine and_congr_right fun hk => ?_
  have haction : g.action = k.2.2 := congrArg (fun k : GrantKey => k.2.2) hk
  by_cases ha : k.2.2 = actionPrivateAccess
  · simp [extend, haction, ha, contains_mergePorts, portsContain_append]
  · simp [ha]

/-- adding gives one key, with its ports, and changes no other -/
theorem covers_add (b : Builder) (a : String) (t : Target) (action : String) (rule : ℕ) :
    (b.add a t action ports rule).Covers k n ↔
      b.Covers k n ∨ k = (a, t, action) ∧ (k.2.2 = actionPrivateAccess → portsContain ports n = true) := by
  unfold Builder.Covers Builder.add
  split_ifs with h
  · have hone : ∀ g : Grant,
        (if g.grantKey = (a, t, action) then g.extend ports rule else g).Covers k n ↔ g.Covers k n ∨
        g.grantKey = k ∧ k = (a, t, action) ∧ (k.2.2 = actionPrivateAccess → portsContain ports n = true) := by
      intro g
      split_ifs with hg
      · rw [extend_covers, ← hg]
        exact or_congr_right (and_congr_right fun hk => by simp [hk])
      · exact ⟨.inl, fun h => h.resolve_right fun h => hg (h.1.trans h.2.1)⟩
    simp only [List.mem_map, exists_exists_and_eq_and, hone, and_or_left, exists_or]
    refine or_congr_right ⟨fun ⟨g, _, _, hk⟩ => hk, fun hk => ?_⟩
    obtain ⟨g, hg, hgk⟩ := List.mem_map.1 h
    exact ⟨g, hg, hgk.trans hk.1.symm, hk⟩
  · simp only [List.mem_append, List.mem_singleton, or_and_right, exists_or, exists_eq_left, extend_covers]
    refine or_congr_right ⟨?_, fun h => .inr ⟨h.1.symm, h.2⟩⟩
    rintro (⟨hk, hn⟩ | ⟨hk, hn⟩)
    · exact ⟨hk.symm, fun ha => by simpa using hn ha⟩
    · exact ⟨hk.symm, hn⟩

/-- one rule gives every combination of its accounts, targets and actions -/
theorem covers_addAll (b : Builder) (accounts : List String) (targets : List Target)
    (actions : List String) (rule : ℕ) :
    (b.addAll accounts targets actions ports rule).Covers k n ↔ b.Covers k n ∨
      (k.1 ∈ accounts ∧ k.2.1 ∈ targets ∧ k.2.2 ∈ actions) ∧
        (k.2.2 = actionPrivateAccess → portsContain ports n = true) := by
  set R := k.2.2 = actionPrivateAccess → portsContain ports n = true
  unfold Builder.addAll
  rw [foldl_or (fun b : Builder => b.Covers k n) fun a => ∃ t ∈ targets, ∃ action ∈ actions, k = (a, t, action) ∧ R]
  · obtain ⟨a, t, action⟩ := k
    simp [and_assoc]
  · intro b a
    refine foldl_or (fun b : Builder => b.Covers k n) (fun t => ∃ action ∈ actions, k = (a, t, action) ∧
      R) _ (fun b t => ?_) targets b
    exact foldl_or (fun b : Builder => b.Covers k n) (fun action => k = (a, t, action) ∧ R) _
      (fun b action => covers_add b a t action rule) actions b

/-- every grant's ports are valid ranges -/
def Builder.PortsValid (b : Builder) : Prop := ∀ g ∈ b.grants, ∀ p ∈ g.ports, p.Valid

section

variable {P : List PortRange → Prop} (h0 : P []) (hP : ∀ ps, P ps → P (mergePorts (ps ++ ports)))

include h0 hP

/-- what merging keeps holds of the ports of every grant -/
theorem add_ports (hb : ∀ g ∈ b.grants, P g.ports) (a : String) (t : Target) (action : String) (rule : ℕ) :
    ∀ g ∈ (b.add a t action ports rule).grants, P g.ports := by
  have hext : ∀ g : Grant, P g.ports → P (g.extend ports rule).ports := by
    intro g hg
    simp only [extend]
    split_ifs
    · exact hP g.ports hg
    · exact hg
  intro g hg
  unfold Builder.add at hg
  split_ifs at hg
  · obtain ⟨g', hg', rfl⟩ := List.mem_map.1 hg
    split_ifs
    · exact hext g' (hb g' hg')
    · exact hb g' hg'
  · rcases List.mem_append.1 hg with h | h
    · exact hb g h
    · rw [List.mem_singleton] at h
      subst h
      exact hext _ h0

theorem addAll_ports (hb : ∀ g ∈ b.grants, P g.ports) (accounts : List String) (targets : List Target)
    (actions : List String) (rule : ℕ) : ∀ g ∈ (b.addAll accounts targets actions ports rule).grants, P g.ports := by
  refine foldl_inv (fun b : Builder => ∀ g ∈ b.grants, P g.ports) _ accounts (fun b a _ hb => ?_) b hb
  refine foldl_inv (fun b : Builder => ∀ g ∈ b.grants, P g.ports) _ targets (fun b t _ hb => ?_) b hb
  exact foldl_inv (fun b : Builder => ∀ g ∈ b.grants, P g.ports) _ actions
    (fun b action _ hb => add_ports h0 hP hb a t action rule) b hb

end

end Paperboat.Policy
