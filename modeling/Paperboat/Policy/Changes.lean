/-
The access-change review (`shared/policy/diff.go`): the grants a save adds, removes or
changes. A save without changes is stored without asking
(`server/internal/teams/policy_store.go`, savePolicyTx).

`Changes` compares the enforced grants target by target, while `Decide` on a preview or
tunnel also reads the rules of the machine it runs on.

Results:
- `changesFrom_eq_nil`: no changes means equal keys and equal ports, grant by grant;
- `enforced_gives`: an enforced grant is what allow rules give and deny rules leave, on
  that very target;
- `decide_gives`: the answer on a target, from what the rules give and deny on it and on
  its machine;
- `no_changes_iff`: when two policies show no changes, their answers are the same
  exactly when none is hidden (`Hidden`);
- `equal_ports`: merged and subtracted ports are canonical, so grants with the same
  ports hold equal lists;
- `listed_real_iff`: when everything `WhatCan` lists for a member, and every enforced
  grant, is access `Decide` gives.

Witnesses:
- `previewDenied_hidden`, `previewDenied_no_changes`: a deny rule on the machine of a
  preview is no change;
- `previewPolicy_real`, `previewDenied_listed`: the list without that rule, and with it;
- `equal_ports_split`: ports with one taken out.
-/
import Paperboat.Policy.Decide

namespace Paperboat.Policy

open Text Search Fold

/-! ## Access in policy-file names -/

/-- one effective permission, for explain answers and the access-change review -/
structure Access where
  subject : String
  target : String
  action : String
  ports : String := ""
  reason : Reason
  rules : List String
deriving DecidableEq, Repr

inductive ChangeKind where
  | gained
  | lost
deriving DecidableEq, Repr

/-- one access gained or lost by a policy change -/
structure Change where
  change : ChangeKind
  access : Access
deriving DecidableEq, Repr

def portsLabel (ps : List PortRange) : String := ",".intercalate (ps.map PortRange.text)

def Compiled.access (u : Unicode) (c : Compiled) (g : Grant) : Access :=
  { subject := c.x.userLabel u g.account, target := c.x.targetLabel u g.target, action := g.action
    ports := if g.action = actionPrivateAccess then portsLabel g.ports else ""
    reason := .rule, rules := rulePaths [g] }

/-- drops the grants the owner guardrail gives anyway -/
def Compiled.unowned (c : Compiled) (gs : List Grant) : List Grant :=
  gs.filter fun g => !c.owns g.account g.target g.action

section

variable (u : Unicode) (before after : Compiled)

def lost (g : Grant) : Change := ⟨.lost, before.access u g⟩

def gained (g : Grant) : Change := ⟨.gained, after.access u g⟩

/-- the loop over the grants of `after` while one of `before` is at hand; `next` goes on with the rest of `before` -/
def changesAt (b : Grant) (next : List Grant → List Change) : List Grant → List Change
  | [] => lost u before b :: next []
  | a :: as =>
    if grantLess b a then lost u before b :: next (a :: as)
    else if grantLess a b then gained u after a :: changesAt b next as
    else (if b.ports ≠ a.ports then [lost u before b, gained u after a] else []) ++ next as

def changesFrom : List Grant → List Grant → List Change
  | [] => fun as => as.map (gained u after)
  | b :: bs => changesAt u before after b (changesFrom bs)

/-- the enforced access that differs: grants added, removed, or with other ports -/
def changes : List Change :=
  changesFrom u before after (before.unowned before.enforced) (after.unowned after.enforced)

/-! ## No changes -/

/-- nothing is reported only for lists of the same keys with the same ports -/
theorem changesFrom_eq_nil {bs as : List Grant} (h : changesFrom u before after bs as = []) :
    List.Forall₂ (fun b a => b.grantKey = a.grantKey ∧ b.ports = a.ports) bs as := by
  induction bs generalizing as with
  | nil =>
    simp only [changesFrom, List.map_eq_nil_iff] at h
    subst h
    exact .nil
  | cons b bs ih =>
    simp only [changesFrom] at h
    cases as with
    | nil => simp [changesAt] at h
    | cons a as =>
      simp only [changesAt] at h
      split_ifs at h with h1 h2 h3
      · simp at h
      · simp only [grantLess, decide_eq_true_eq, not_lt] at h1 h2
        exact .cons ⟨sortKey_injective (le_antisymm h2 h1), by simpa using h3⟩ (ih (by simpa using h))

end

theorem exists_forall₂ {R : Grant → Grant → Prop} {P : Grant → Prop} (hP : ∀ b a, R b a → (P b ↔ P a))
    {bs as : List Grant} (h : List.Forall₂ R bs as) : (∃ b ∈ bs, P b) ↔ ∃ a ∈ as, P a := by
  induction h with
  | nil => simp
  | cons hr _ ih => simp [hP _ _ hr, ih]

/-! ## What the grants give -/

section

variable {allows denies : List Grant} (hs : Strict Grant.sortKey denies)

theorem mem_subtract {g' : Grant} : g' ∈ subtract allows denies ↔ ∃ g ∈ allows,
    (findGrant denies g.account g.target g.action = none ∧ g' = g) ∨
      ∃ dg, findGrant denies g.account g.target g.action = some dg ∧ g.action = actionPrivateAccess ∧
        subtractPorts g.ports dg.ports ≠ [] ∧ g' = { g with ports := subtractPorts g.ports dg.ports } := by
  unfold subtract
  rw [List.mem_filterMap]
  refine exists_congr fun g => and_congr_right fun _ => ?_
  cases findGrant denies g.account g.target g.action with
  | none =>
    simp only [Option.some.injEq, true_and, reduceCtorEq, false_and, exists_false, or_false]
    exact eq_comm
  | some dg =>
    simp only [ne_eq, ite_not, reduceCtorEq, false_and, Option.some.injEq, exists_eq_left', false_or]
    split_ifs with h1 h2
    · simp [h2]
    · simp only [h1, h2, not_false_eq_true, true_and, Option.some.injEq]
      exact eq_comm
    · simp [h1]

include hs

/-- access is left exactly when it is allowed and not denied: a whole grant, or a port of private access -/
theorem covers_subtract {k : GrantKey} {n : Int} : (∃ g ∈ subtract allows denies, g.Covers k n) ↔
    (∃ g ∈ allows, g.Covers k n) ∧ ¬ ∃ g ∈ denies, g.Covers k n := by
  simp only [mem_subtract]
  constructor
  · rintro ⟨g', ⟨g, hg, ⟨hnone, rfl⟩ | ⟨dg, hdg, hpa, _, rfl⟩⟩, hk, hn⟩
    · refine ⟨⟨g', hg, hk, hn⟩, ?_⟩
      rintro ⟨dg, hdg, hdk, _⟩
      exact (findGrant_eq_none hs).1 hnone dg hdg (hdk.trans hk.symm)
    · have ha : k.2.2 = actionPrivateAccess := hk ▸ hpa
      have hports := hn ha
      rw [contains_subtractPorts, Bool.and_eq_true] at hports
      refine ⟨⟨g, hg, hk, fun _ => hports.1⟩, ?_⟩
      rintro ⟨dg', hdg', hdk', hn'⟩
      have := (findGrant_eq_some hs).2 ⟨hdg', hdk'.trans hk.symm⟩
      rw [hdg, Option.some.injEq] at this
      rw [this, hn' ha] at hports
      cases hports.2
  · rintro ⟨⟨g, hg, hk, hn⟩, hno⟩
    cases hf : findGrant denies g.account g.target g.action with
    | none => exact ⟨g, ⟨g, hg, .inl ⟨hf, rfl⟩⟩, hk, hn⟩
    | some dg =>
      obtain ⟨hdg, hdk⟩ := (findGrant_eq_some hs).1 hf
      -- the deny is for the key, so that only other ports are denied
      obtain ⟨ha, hd⟩ := Classical.not_imp.1 fun h => hno ⟨dg, hdg, hdk.trans hk, h⟩
      have hn' : portsContain (subtractPorts g.ports dg.ports) n = true := by
        rw [contains_subtractPorts, hn ha, Bool.eq_false_iff.2 hd]
        rfl
      have hne : subtractPorts g.ports dg.ports ≠ [] := by
        intro hnil; rw [hnil] at hn'; simp at hn'
      exact ⟨_, ⟨g, hg, .inr ⟨dg, hf, (congrArg (fun k : GrantKey => k.2.2) hk).trans ha, hne, rfl⟩⟩, hk, fun _ => hn'⟩

end

/-- the rules on this very target give the access: allowed, not denied and, for private_access, switched on -/
def Gives (u : Unicode) (d : Document) (inv : Inventory) (k : GrantKey) (n : Int) : Prop :=
  Says u d inv false k n ∧ ¬ Says u d inv true k n ∧ (k.2.2 = actionPrivateAccess → PrivateAccessOn d inv)

section

variable {u : Unicode} {d : Document} {inv : Inventory} {c : Compiled} (hM : Means u d inv c)

include hM

/-- **Grants.** The enforced grants of a key are what the rules on it give. -/
theorem enforced_gives {k : GrantKey} {n : Int} : (∃ g ∈ c.enforced, g.Covers k n) ↔ Gives u d inv k n := by
  have hgrants : (∃ g ∈ c.grants, g.Covers k n) ↔ Says u d inv false k n ∧ ¬ Says u d inv true k n := by
    rw [hM.grants_eq, covers_subtract (hM.strict true), hM.covers, hM.covers]
  unfold Compiled.enforced Gives
  rw [← and_assoc, ← hgrants]
  split_ifs with hon
  · simp [(allowPrivateAccess_iff hM).1 hon]
  · have hoff : ¬ PrivateAccessOn d inv := fun h => hon ((allowPrivateAccess_iff hM).2 h)
    simp only [hoff, imp_false, List.mem_filter, decide_eq_true_eq]
    constructor
    · rintro ⟨g, ⟨hg, ha⟩, hk⟩
      exact ⟨⟨g, hg, hk⟩, hk.1 ▸ ha⟩
    · rintro ⟨⟨g, hg, hk⟩, ha⟩
      exact ⟨g, ⟨hg, by rw [← hk.1] at ha; exact ha⟩, hk⟩

/-- the answer on a target: given on it and not denied on its machine, or given on the machine and not denied on it -/
theorem decide_gives {account : String} (hm : ∃ m ∈ inv.members, m.accountID = account) (t : Target) (action : String)
    {port : Int} (h0 : port ≠ 0) : (c.decide account t action port).allowed = true ↔ c.owns account t action = true ∨
      match (newIndex u inv).resourceOf t with
      | none => Gives u d inv (account, t, action) port
      | some res =>
        (Gives u d inv (account, t, action) port ∧
          ¬ Says u d inv true (account, ⟨.machine, res.machineID⟩, action) port) ∨
        (Gives u d inv (account, ⟨.machine, res.machineID⟩, action) port ∧
          ¬ Says u d inv true (account, t, action) port) := by
  rw [decide_answers hM hm t action h0]
  refine or_congr_right ?_
  unfold Answers Gives
  cases (newIndex u inv).resourceOf t with
  | none => simp
  | some res =>
    simp only [Option.some.injEq, exists_eq_left']
    tauto

end

/-! ## Equal ports -/

/-- the ports of every grant, of the allow rules, of the deny rules or left of both, are a canonical list -/
theorem compile_canonical {u : Unicode} {d : Document} {inv : Inventory} {limits : Limits} {g : Grant}
    (hg : g ∈ (compile u d inv limits).1.allows ++ (compile u d inv limits).1.denies ++
      (compile u d inv limits).1.grants) :
    Canonical g.ports := by
  by_cases herr : (compile u d inv limits).2 = []
  · have hM := compile_means herr
    rw [compile_eq herr] at hM hg
    have hside : ∀ deny, ∀ g ∈ (compiled u d inv).side deny, Canonical g.ports := by
      intro deny g hg
      have hg' : g ∈ ((documentBuilders u d inv).side deny).grants := by cases deny <;> exact mem_list.1 hg
      exact documentBuilders_ports ((compile_errors u d inv limits).1 herr) (P := Canonical) ⟨nofun, .nil⟩
        (fun _ _ hps hqs => mergePorts_canonical (List.forall_mem_append.2 ⟨hps.order, fun q hq => (hqs q hq).order⟩))
        deny g hg'
    rcases List.mem_append.1 hg with hg | hg
    · exact (List.mem_append.1 hg).elim (hside false g) (hside true g)
    · rw [hM.grants_eq] at hg
      obtain ⟨ga, hga, ⟨_, rfl⟩ | ⟨dg, hdg, _, _, rfl⟩⟩ := mem_subtract.1 hg
      · exact hside false _ hga
      · exact subtractPorts_canonical (hside false ga hga).order
          (hside true dg ((findGrant_eq_some (hM.strict true)).1 hdg).1).order
  · unfold compile at herr hg
    split_ifs at herr hg
    · simp at hg
    · exact absurd rfl herr

/-- **Equal ports.** Merging keeps the set of ports and subtraction is set difference, both as a canonical list; so two
grants with the same set of ports have the equal lists the review compares. -/
theorem equal_ports :
    (∀ a : List PortRange, (∀ p ∈ a, p.fromPort ≤ p.toPort) →
      (∀ n, portsContain (mergePorts a) n = portsContain a n) ∧ Canonical (mergePorts a)) ∧
    (∀ a b : List PortRange, (∀ p ∈ a, p.fromPort ≤ p.toPort) → (∀ p ∈ b, p.fromPort ≤ p.toPort) →
      (∀ n, portsContain (subtractPorts a b) n = (portsContain a n && !portsContain b n)) ∧
        Canonical (subtractPorts a b)) ∧
    ∀ (u : Unicode) (d d' : Document) (inv inv' : Inventory) (limits limits' : Limits),
      let c := (compile u d inv limits).1
      let c' := (compile u d' inv' limits').1
      ∀ g ∈ c.allows ++ c.denies ++ c.grants, ∀ g' ∈ c'.allows ++ c'.denies ++ c'.grants,
        (∀ n, portsContain g.ports n = portsContain g'.ports n) → g.ports = g'.ports :=
  ⟨fun a ha => ⟨contains_mergePorts a, mergePorts_canonical ha⟩,
    fun a b ha hb => ⟨contains_subtractPorts a b, subtractPorts_canonical ha hb⟩,
    fun _ _ _ _ _ _ _ _ hg _ hg' hsame => canonical_unique (compile_canonical hg) (compile_canonical hg') hsame⟩

/-- bob's private access, with the default ports written in two parts -/
def splitPolicy : Document :=
  { smallPolicy with
    rules := [⟨["user:bob@x.io"], ["machine:db1"], some ["private_access"], none,
      some [⟨2048, 65535⟩, ⟨1024, 2047⟩], ""⟩]
    ports_valid := by decide }

/-- ports 22 to 30, whole and without port 25, and the one list of bob's ports in both policies -/
theorem equal_ports_split : Canonical (mergePorts [⟨26, 30⟩, ⟨22, 25⟩]) ∧
    Canonical (subtractPorts [⟨22, 30⟩] [⟨25, 25⟩]) ∧
    [defaultPrivatePorts] = mergePorts [⟨2048, 65535⟩, ⟨1024, 2047⟩] :=
  ⟨(equal_ports.1 _ (by decide)).2, (equal_ports.2.1 _ _ (by decide) (by decide)).2,
    equal_ports.2.2 ascii smallPolicy splitPolicy smallTeam smallTeam {} {}
      ⟨"a2", ⟨.machine, "m1"⟩, "private_access", [defaultPrivatePorts], [0]⟩ (by decide +kernel)
      ⟨"a2", ⟨.machine, "m1"⟩, "private_access", mergePorts [⟨2048, 65535⟩, ⟨1024, 2047⟩], [0]⟩ (by decide +kernel)
      fun _ => rfl⟩

/-! ## What the review does not see -/

/-- a difference between two policies on a preview or tunnel `t` running on the machine `m` that no grant shows -/
inductive Hidden (u : Unicode) (before after : Document) (inv : Inventory) (account : String) (t m : Target)
    (action : String) (n : Int) (ownsMachine : Bool) : Prop where
  /-- the account has access of its own on `t`, and a deny on the machine came or went -/
  | machineDeny (hg : Gives u before inv (account, t, action) n)
      (hd : ¬ (Says u before inv true (account, m, action) n ↔ Says u after inv true (account, m, action) n))
  /-- the account has access through the machine, and a deny on `t` itself came or went -/
  | ownDeny (hb : Gives u before inv (account, m, action) n) (ha : Gives u after inv (account, m, action) n)
      (hd : ¬ (Says u before inv true (account, t, action) n ↔ Says u after inv true (account, t, action) n))
  /-- the account owns the machine, so its grants there are not compared, and what they give on `t` differs -/
  | owned (ho : ownsMachine = true) (hg : ¬ Gives u before inv (account, t, action) n)
      (hd : ¬ (Gives u before inv (account, m, action) n ∧ ¬ Says u before inv true (account, t, action) n ↔
        Gives u after inv (account, m, action) n ∧ ¬ Says u after inv true (account, t, action) n))

/-- two answers on a resource, from what is given (`g`) and denied (`d`) on it (`t`) and on its machine (`m`): with
equal access on the resource, and on a machine that is not owned, they differ in one of the three hidden ways only -/
theorem inherited_iff {gt gt' gm gm' dt dt' dm dm' o : Prop} (hgt : gt ↔ gt') (hgm : ¬ o → (gm ↔ gm'))
    (ht : gt → ¬ dt) (ht' : gt' → ¬ dt') (hm : gm → ¬ dm) (hm' : gm' → ¬ dm') :
    ((gt ∧ ¬ dm ∨ gm ∧ ¬ dt) ↔ (gt' ∧ ¬ dm' ∨ gm' ∧ ¬ dt')) ↔
      ¬ (gt ∧ ¬ (dm ↔ dm') ∨ gm ∧ gm' ∧ ¬ (dt ↔ dt') ∨ o ∧ ¬ gt ∧ ¬ (gm ∧ ¬ dt ↔ gm' ∧ ¬ dt')) := by
  by_cases hg : gt
  · -- access of its own: the answer is that the machine does not deny it
    have hg' := hgt.1 hg
    have hl : (gt ∧ ¬ dm ∨ gm ∧ ¬ dt) ↔ ¬ dm := ⟨fun h => h.elim And.right fun h => hm h.1, fun h => .inl ⟨hg, h⟩⟩
    have hr : (gt' ∧ ¬ dm' ∨ gm' ∧ ¬ dt') ↔
        ¬ dm' := ⟨fun h => h.elim And.right fun h => hm' h.1, fun h => .inl ⟨hg', h⟩⟩
    rw [hl, hr]
    simp only [hg, ht hg, ht' hg', not_true_eq_false, true_and, and_false, or_false, not_not, false_and]
    exact not_iff_not
  · -- no access of its own: the answer is what the machine gives and the resource does not deny
    have hg' : ¬ gt' := fun h => hg (hgt.2 h)
    simp only [hg, hg', false_and, false_or, not_false_eq_true, true_and]
    have hboth : (gm ∧ ¬ dt ↔ gm' ∧ ¬ dt') → ¬ (gm ∧ gm' ∧ ¬ (dt ↔ dt')) := by
      rintro h ⟨h1, h2, hd⟩
      simp only [h1, h2, true_and] at h
      exact hd (not_iff_not.1 h)
    by_cases ho : o
    · simp only [ho, true_and]
      exact ⟨fun h => not_or.2 ⟨hboth h, not_not.2 h⟩, fun h => not_not.1 (not_or.1 h).2⟩
    · simp only [ho, false_and, or_false]
      refine ⟨hboth, fun h => ?_⟩
      by_cases h1 : gm
      · have h2 := (hgm ho).1 h1
        simp only [h1, h2, true_and, not_not] at h ⊢
        exact not_iff_not.2 h
      · have h2 : ¬ gm' := fun h' => h1 ((hgm ho).2 h')
        simp only [h1, h2, false_and]

section

variable {u : Unicode} {before after : Document} {inv : Inventory} {cb ca : Compiled} (hb : Means u before inv cb)
  (ha : Means u after inv ca)

include hb ha

theorem owns_eq (account : String) (t : Target) (action : String) :
    ca.owns account t action = cb.owns account t action := by
  unfold Compiled.owns
  rw [ha.x_eq.trans hb.x_eq.symm]

/-- what is not owned is given alike -/
theorem gives_of_no_changes (hno : changes u cb ca = []) {k : GrantKey}
    (ho : cb.owns k.1 k.2.1 k.2.2 = false) (n : Int) :
    Gives u before inv k n ↔ Gives u after inv k n := by
  have hmem : ∀ c : Compiled, c.owns k.1 k.2.1 k.2.2 = false →
      ((∃ g ∈ c.unowned c.enforced, g.Covers k n) ↔ ∃ g ∈ c.enforced, g.Covers k n) := by
    intro c hc
    refine exists_congr fun g => ⟨fun h => ⟨(List.mem_filter.1 h.1).1, h.2⟩,
      fun h => ⟨List.mem_filter.2 ⟨h.1, ?_⟩, h.2⟩⟩
    obtain ⟨_, rfl, _⟩ := h
    simpa [Grant.grantKey] using hc
  rw [← enforced_gives hb, ← enforced_gives ha, ← hmem cb ho, ← hmem ca ((owns_eq hb ha _ _ _).trans ho)]
  exact exists_forall₂ (fun b a h => by rw [Grant.Covers, Grant.Covers, h.1, h.2]) (changesFrom_eq_nil u cb ca hno)

/-- at one port, a request on what is not owned is answered alike exactly when nothing is hidden -/
theorem decide_eq_iff_not_hidden (hno : changes u cb ca = []) {account : String}
    (hm : ∃ m ∈ inv.members, m.accountID = account) {t : Target} {action : String} {n : Int}
      (h0 : n ≠ 0) {res : Resource}
    (hres : (newIndex u inv).resourceOf t = some res) (ho : cb.owns account t action = false) :
    (cb.decide account t action n).allowed = (ca.decide account t action n).allowed ↔
      ¬ Hidden u before after inv account t ⟨.machine, res.machineID⟩ action n
        (cb.owns account ⟨.machine, res.machineID⟩ action) := by
  rw [Bool.eq_iff_iff, decide_gives hb hm t action h0, decide_gives ha hm t action h0, owns_eq hb ha, ho, hres]
  simp only [Bool.false_eq_true, false_or]
  rw [inherited_iff (o := cb.owns account ⟨.machine, res.machineID⟩ action = true)
    (gives_of_no_changes hb ha hno (k := (account, t, action)) ho n)
    (fun hom => gives_of_no_changes hb ha hno (k := (account, ⟨.machine, res.machineID⟩, action))
      (Bool.eq_false_iff.2 hom) n) (fun h => h.2.1) (fun h => h.2.1) (fun h => h.2.1) (fun h => h.2.1)]
  refine not_congr ⟨?_, ?_⟩
  · rintro (⟨hg, hd⟩ | ⟨hgb, hga, hd⟩ | ⟨hom, hg, hd⟩)
    · exact .machineDeny hg hd
    · exact .ownDeny hgb hga hd
    · exact .owned hom hg hd
  · rintro (⟨hg, hd⟩ | ⟨hgb, hga, hd⟩ | ⟨hom, hg, hd⟩)
    · exact .inl ⟨hg, hd⟩
    · exact .inr (.inl ⟨hgb, hga, hd⟩)
    · exact .inr (.inr ⟨hom, hg, hd⟩)

end

/-- **What a save without changes may still change.** When the review of two policies shows no changes, every request of
a member is answered alike exactly when nothing is hidden on a preview or tunnel the member does not own. -/
theorem no_changes_iff (u : Unicode) (before after : Document) (inv : Inventory) (limits limits' : Limits)
    (hb : (compile u before inv limits).2 = []) (ha : (compile u after inv limits').2 = [])
    (hno : changes u (compile u before inv limits).1 (compile u after inv limits').1 = []) :
    (∀ account, (∃ m ∈ inv.members, m.accountID = account) → ∀ t action port, 0 ≤ port → port ≤ 65535 →
      ((compile u before inv limits).1.decide account t action port).allowed =
        ((compile u after inv limits').1.decide account t action port).allowed) ↔
    ∀ account, (∃ m ∈ inv.members, m.accountID = account) → ∀ t action res n, 1 ≤ n → n ≤ 65535 →
      (newIndex u inv).resourceOf t = some res → (compile u before inv limits).1.owns account t action = false →
      ¬ Hidden u before after inv account t ⟨.machine, res.machineID⟩ action n
        ((compile u before inv limits).1.owns account ⟨.machine, res.machineID⟩ action) := by
  have hMb := compile_means hb
  have hMa := compile_means ha
  constructor
  · intro hsame account hm t action res n h1 h2 hres ho
    exact (decide_eq_iff_not_hidden hMb hMa hno hm (by omega) hres ho).1 (hsame account hm t action n (by omega) h2)
  · intro hvis account hm t action
    -- one port first; port 0 asks for some port
    have hport : ∀ n, 1 ≤ n → n ≤ 65535 → ((compile u before inv limits).1.decide account t action n).allowed =
        ((compile u after inv limits').1.decide account t action n).allowed := by
      intro n h1 h2
      cases ho : (compile u before inv limits).1.owns account t action with
      | true =>
        rw [Bool.eq_iff_iff, decide_gives hMb hm t action (by omega), decide_gives hMa hm t action (by omega),
          owns_eq hMb hMa, ho]
        simp
      | false =>
        cases hres : (newIndex u inv).resourceOf t with
        | none =>
          rw [Bool.eq_iff_iff, decide_gives hMb hm t action (by omega), decide_gives hMa hm t action (by omega),
            owns_eq hMb hMa, hres]
          exact or_congr_right (gives_of_no_changes hMb hMa hno (k := (account, t, action)) ho n)
        | some res =>
          exact (decide_eq_iff_not_hidden hMb hMa hno hm (by omega) hres ho).2
            (hvis account hm t action res n h1 h2 hres ho)
    intro port h1 h2
    by_cases h0 : port = 0
    · rw [h0, Bool.eq_iff_iff, decide_any hMb hm, decide_any hMa hm]
      exact exists_congr fun p => and_congr_right fun h1 => and_congr_right fun h2 => by rw [hport p h1 h2]
    · exact hport port (by omega) h2

/-- bob may inspect the preview -/
def previewPolicy : Document :=
  { allowPrivateAccess := none, groups := [], tags := []
    rules := [⟨["user:bob@x.io"], ["preview:web"], some ["inspect"], none, none, ""⟩]
    tests := [], groups_nodup := List.nodup_nil, tags_nodup := List.nodup_nil, ports_valid := by decide }

/-- the same with inspection denied on the machine the preview runs on -/
def previewDenied : Document :=
  { previewPolicy with
    rules := previewPolicy.rules ++ [⟨["user:bob@x.io"], ["machine:db1"], none, some ["inspect"], none, ""⟩]
    ports_valid := by decide }

/-- the review finds something hidden between the two -/
theorem previewDenied_hidden : ¬ ∀ account, (∃ m ∈ smallTeam.members, m.accountID = account) → ∀ t action res n,
    1 ≤ n → n ≤ 65535 → (newIndex ascii smallTeam).resourceOf t = some res →
    (compile ascii previewPolicy smallTeam {}).1.owns account t action = false →
    ¬ Hidden ascii previewPolicy previewDenied smallTeam account t ⟨.machine, res.machineID⟩ action n
      ((compile ascii previewPolicy smallTeam {}).1.owns account ⟨.machine, res.machineID⟩ action) := fun h =>
  absurd ((no_changes_iff ascii previewPolicy previewDenied smallTeam {} {} (by decide +kernel) (by decide +kernel)
    (by decide +kernel)).2 h "a2" (by decide) ⟨.preview, "p1"⟩ "inspect" 1 (by norm_num) (by norm_num))
      (by decide +kernel)

/-- adding the deny shows no changes, yet bob can no longer inspect the preview -/
theorem previewDenied_no_changes :
    (compile ascii previewPolicy smallTeam {}).2 = [] ∧ (compile ascii previewDenied smallTeam {}).2 = [] ∧
    changes ascii (compile ascii previewPolicy smallTeam {}).1 (compile ascii previewDenied smallTeam {}).1 = [] ∧
    ((compile ascii previewPolicy smallTeam {}).1.decide "a2" ⟨.preview, "p1"⟩ "inspect" 0).allowed = true ∧
    ((compile ascii previewDenied smallTeam {}).1.decide "a2" ⟨.preview, "p1"⟩ "inspect" 0).allowed = false := by
  decide +kernel

/-! ## What a member may do -/

/-- a line of WhatCan: owner access to a machine, or an enforced grant -/
inductive Line where
  | owned (t : Target) (action : String)
  | granted (g : Grant)

/-- the loops of WhatCan: owner access on the own machines, then the enforced grants -/
def Compiled.lines (c : Compiled) (account : String) : List Line :=
  (c.x.inv.machines.flatMap fun m =>
    (machineActions.filter (c.owns account ⟨.machine, m.id⟩)).map (.owned ⟨.machine, m.id⟩)) ++
    (c.enforced.filter (·.account = account)).map .granted

/-- a line in policy-file names -/
def Compiled.label (u : Unicode) (c : Compiled) (account : String) : Line → Access
  | .owned t action =>
    { subject := c.x.userLabel u account, target := c.x.targetLabel u t, action := action,
      reason := .owner, rules := [] }
  | .granted g => c.access u g

def Compiled.whatCan (u : Unicode) (c : Compiled) (account : String) : List Access :=
    (c.lines account).map (c.label u account)

/-- Decide gives the access a line lists; a grant of private_access lists its ports -/
def Compiled.Real (c : Compiled) (account : String) : Line → Prop
  | .owned t action => ∀ port, (c.decide account t action port).allowed = true
  | .granted g => ∀ port, (g.action = actionPrivateAccess → 1 ≤ port ∧ portsContain g.ports port = true) →
    (c.decide account g.target g.action port).allowed = true

section

variable {u : Unicode} {d : Document} {inv : Inventory} {c : Compiled} (hM : Means u d inv c)
    {account : String} {g : Grant} {port : Int}

include hM

variable (hm : ∃ m ∈ inv.members, m.accountID = account)

include hm

/-- a grant is real when its target is owned, or its machine denies nothing of it -/
theorem real_granted (hg : g ∈ c.enforced) (hacc : g.account = account)
    (hclear : ∀ res n, (newIndex u inv).resourceOf g.target = some res →
      c.owns account g.target g.action = false → 1 ≤ n →
      Gives u d inv (account, g.target, g.action) n →
        ¬ Says u d inv true (account, ⟨.machine, res.machineID⟩, g.action) n) :
    c.Real account (.granted g) := by
  have hone : ∀ p, 1 ≤ p → (g.action = actionPrivateAccess → portsContain g.ports p = true) →
      (c.decide account g.target g.action p).allowed = true := by
    intro p hp hport
    have hgives : Gives u d inv (account, g.target, g.action) p := hacc ▸ (enforced_gives hM).1 ⟨g, hg, rfl, hport⟩
    rw [decide_gives hM hm _ _ (by omega)]
    cases ho : c.owns account g.target g.action with
    | true => exact .inl rfl
    | false =>
      refine .inr ?_
      split
      · exact hgives
      · rename_i res hres
        exact .inl ⟨hgives, hclear res p hres ho hp hgives⟩
  intro port hport
  by_cases ha : g.action = actionPrivateAccess
  · exact hone port (hport ha).1 fun _ => (hport ha).2
  · -- the port is not looked at
    have h := hone 1 le_rfl fun hpa => absurd hpa ha
    rw [decide_owner_or_rules hM hm, ruleDecision_other ha] at h ⊢
    exact h

end

/-- **What is listed is real** exactly when no deny rule on the machine a preview or tunnel runs on takes away what the
rules on the preview or tunnel itself give to a member who does not own it. -/
theorem listed_real_iff (u : Unicode) (d : Document) (inv : Inventory) (limits : Limits)
    (h : (compile u d inv limits).2 = []) (account : String) (hm : ∃ m ∈ inv.members, m.accountID = account) :
    (List.Forall₂ (fun a line => (compile u d inv limits).1.label u account line = a ∧
        (compile u d inv limits).1.Real account line)
      ((compile u d inv limits).1.whatCan u account) ((compile u d inv limits).1.lines account) ∧
    ∀ g ∈ (compile u d inv limits).1.enforced, g.account = account →
      (compile u d inv limits).1.Real account (.granted g)) ↔
    ∀ t action res n, (newIndex u inv).resourceOf t = some res →
      (compile u d inv limits).1.owns account t action = false →
      1 ≤ n → Gives u d inv (account, t, action) n →
        ¬ Says u d inv true (account, ⟨.machine, res.machineID⟩, action) n := by
  have hM := compile_means h
  generalize (compile u d inv limits).1 = c at hM
  constructor
  · intro ⟨_, hreal⟩ t action res n hres ho hn hgives hdeny
    obtain ⟨g, hg, hkey, hport⟩ := (enforced_gives hM).2 hgives
    obtain ⟨rfl, rfl, rfl⟩ : g.account = account ∧ g.target = t ∧
      g.action = action := by simpa [Grant.grantKey] using hkey
    have hallowed := hreal g hg rfl n fun ha => ⟨hn, hport ha⟩
    rw [decide_gives hM hm _ _ (by omega), ho, hres] at hallowed
    rcases hallowed with hown | ⟨_, hclear⟩ | ⟨hmachine, _⟩
    · cases hown
    · exact hclear hdeny
    · exact hmachine.2.1 hdeny
  · intro hclear
    have hgranted : ∀ g ∈ c.enforced, g.account = account → c.Real account (.granted g) := fun g hg hacc =>
      real_granted hM hm hg hacc fun res n hres ho => hclear _ _ res n hres ho
    refine ⟨List.forall₂_map_left_iff.2 (List.forall₂_same.2 fun line hline => ⟨rfl, ?_⟩), hgranted⟩
    rcases List.mem_append.1 hline with hline | hline
    · obtain ⟨m, _, hline⟩ := List.mem_flatMap.1 hline
      obtain ⟨action, haction, rfl⟩ := List.mem_map.1 hline
      exact fun port => (decide_owner_or_rules hM hm _ _ port).2 (.inl (List.mem_filter.1 haction).2)
    · obtain ⟨g, hg, rfl⟩ := List.mem_map.1 hline
      rw [List.mem_filter, decide_eq_true_eq] at hg
      exact hgranted g hg.1 hg.2

/-- before the machine's deny rule the preview is listed for bob and real -/
theorem previewPolicy_real : (compile ascii previewPolicy smallTeam {}).1.Real "a2"
    (.granted ⟨"a2", ⟨.preview, "p1"⟩, "inspect", [], [0]⟩) := by
  refine ((listed_real_iff ascii previewPolicy smallTeam {} (by decide +kernel) "a2" (by decide)).2 ?_).2 _
    (by decide +kernel) rfl
  rintro t action res n _ _ _ _ ⟨r, hr, hd, _⟩
  simp [previewPolicy, Rule.actions] at hr hd
  subst hr
  simp at hd

/-- with it bob's list still has the preview, which Decide denies -/
theorem previewDenied_listed : (compile ascii previewDenied smallTeam {}).2 = [] ∧
    (compile ascii previewDenied smallTeam {}).1.whatCan ascii "a2" =
      [⟨"user:bob@x.io", "preview:web", "inspect", "", .rule, ["/rules/0"]⟩] ∧
    ((compile ascii previewDenied smallTeam {}).1.decide "a2" ⟨.preview, "p1"⟩ "inspect" 0).allowed = false := by
  decide +kernel

end Paperboat.Policy
