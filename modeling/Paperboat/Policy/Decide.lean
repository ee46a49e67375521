/-
Access decisions (`shared/policy/eval.go`): the owner guardrail, the grants that answer
a request, and `Decide`.

`Rule.Matches` says in the file's own terms when a rule answers a request.

Results:
- `ruleDecision_other`, `ruleDecision_port`, `ruleDecision_any`: what `Decide` answers,
  from the matching grants alone;
- `matching_covers`: binary search, port merging and inheritance from the machine find
  exactly the grants on the target and on the machine it runs on;
- `decide_answers`: the same in terms of the rules on the target and on its machine;
- `decide_iff_matches`: a request is allowed exactly when the owner guardrail holds, or
  an allow rule matches and no deny rule does; port 0 asks for some port; the order of
  the rules does not matter.

Witnesses:
- `smallPolicy_inspect`: a preview, through the rule on its machine.
-/
import Paperboat.Policy.Meaning

namespace Paperboat.Policy

open Text Search Fold

inductive Reason where
  | owner
  | rule
  | deniedByRule
  | noRule
  | portNotAllowed
  | privateAccessOff
  | outsideTokenScope
  | unknownSubject
deriving DecidableEq, Repr

/-- the answer to one access question; `rules` are the JSON Pointers of the rules that decided -/
structure Decision where
  allowed : Bool
  reason : Reason
  rules : List String := []
deriving DecidableEq, Repr

/-- Grants without private_access when the team switch is off: what the server stores and checks -/
def Compiled.enforced (c : Compiled) : List Grant :=
  if c.allowPrivateAccess then c.grants else c.grants.filter fun g => g.action ≠ actionPrivateAccess

/-- the actions of the request inspector -/
def inspector (action : String) : Bool := action == actionInspect || action == actionReplay

/-- the preview or tunnel a target is, if the inventory has it -/
def Index.resourceOf (x : Index) (t : Target) : Option Resource :=
  match t.kind.resource? with
  | some _ => x.resourceIDs (t.kind.name ++ ":" ++ t.id)
  | none => none

/-- the owner guardrail, which no rule can take away -/
def Compiled.owns (c : Compiled) (account : String) (t : Target) (action : String) : Bool :=
  match t.kind with
  | .machine =>
    match c.x.byMachineID t.id with
    | some m => m.personalOwner == account && (!c.x.inv.team || inspector action)
    | none => false
  | .env =>
    match c.x.byAccount account with
    | some m => m.role == "owner" && (action == actionENVRead || action == actionENVWrite)
    | none => false
  | .preview | .tunnel =>
    match c.x.resourceOf t with
    | some r =>
      -- a machine that is not in the inventory has no owner
      let owner := ((c.x.byMachineID r.machineID).map Machine.personalOwner).getD ""
      inspector action && (r.owner == account || (owner != "" && owner == account))
    | none => false

/-- the grants that answer a request: the target's own, and for a preview or tunnel that of the machine it runs on -/
def Compiled.matching (c : Compiled) (gs : List Grant) (account : String) (t : Target) (action : String) : List Grant :=
  (findGrant gs account t action).toList ++
    match c.x.resourceOf t with
    | some r => (findGrant gs account ⟨.machine, r.machineID⟩ action).toList
    | none => []

def ports (gs : List Grant) : List PortRange := mergePorts (gs.flatMap Grant.ports)

/-- slices.Sort and slices.Compact of the rule indexes, as JSON Pointers -/
def rulePaths (gs : List Grant) : List String :=
  (dedup ((gs.flatMap Grant.rules).insertionSort (· ≤ ·))).map fun i => pointer "/rules" [toString i]

/-- the rules' part of Decide: an explicit deny, then an allow, else denied -/
def ruleDecision (allowPrivateAccess : Bool) (allows denies : List Grant) (action : String) (port : Int) : Decision :=
  if denies ≠ [] ∧ (action ≠ actionPrivateAccess ∨ (port ≠ 0 ∧ portsContain (ports denies) port = true)) then
    ⟨false, .deniedByRule, rulePaths denies⟩
  else if allows = [] then ⟨false, .noRule, []⟩
  else if action = actionPrivateAccess then
    let opened := subtractPorts (ports allows) (ports denies)
    if !allowPrivateAccess then ⟨false, .privateAccessOff, rulePaths allows⟩
    else if opened = [] then ⟨false, .deniedByRule, rulePaths denies⟩
    else if port ≠ 0 ∧ portsContain opened port = false then ⟨false, .portNotAllowed, rulePaths allows⟩
    else ⟨true, .rule, rulePaths allows⟩
  else ⟨true, .rule, rulePaths allows⟩

/-- owner guardrail, then the rules; port 0 asks whether any port is allowed -/
def Compiled.decide (c : Compiled) (account : String) (t : Target) (action : String) (port : Int) : Decision :=
  if (c.x.byAccount account).isNone then ⟨false, .unknownSubject, []⟩
  else if c.owns account t action then ⟨true, .owner, []⟩
  else
    ruleDecision c.allowPrivateAccess (c.matching c.allows account t action) (c.matching c.denies account t action)
      action port

/-- a request made with an API token: the token acts as its creator, and its scope must cover the request -/
def Compiled.decideToken (c : Compiled) (token creator : String) (t : Target) (action : String)
    (port : Int) : Decision :=
  let d := c.decide creator t action port
  match c.scopes token with
  | none => d
  | some scope =>
    if !d.allowed then d
    else
      let found := c.matching scope "" t action
      if found = [] ∨ (action = actionPrivateAccess ∧ port ≠ 0 ∧ portsContain (ports found) port = false) then
        ⟨false, .outsideTokenScope, []⟩
      else d

/-! ## What decides -/

@[simp] theorem ports_nil : ports [] = [] := rfl

theorem contains_ports {gs : List Grant} {n : Int} :
    portsContain (ports gs) n = true ↔ ∃ g ∈ gs, portsContain g.ports n = true := by
  rw [ports, contains_mergePorts, portsContain_flatMap]

theorem ports_valid {gs : List Grant} (h : ∀ g ∈ gs, ∀ p ∈ g.ports, p.Valid) : ∀ p ∈ ports gs, p.Valid := by
  refine mergePorts_valid fun p hp => ?_
  obtain ⟨g, hg, hp⟩ := List.mem_flatMap.1 hp
  exact h g hg p hp

theorem subtractPorts_eq_nil {a b : List PortRange} (h : ∀ p ∈ a, p.Valid) :
    subtractPorts a b = [] ↔ ∀ n, portsContain a n = true → portsContain b n = true := by
  constructor
  · intro hnil n hn
    have := contains_subtractPorts a b n
    rw [hnil, hn] at this
    simpa using this.symm
  · intro hall
    by_contra hne
    obtain ⟨n, _, _, hn⟩ := exists_contains hne (subtractPorts_valid b h)
    rw [contains_subtractPorts, Bool.and_eq_true] at hn
    rw [hall n hn.1] at hn
    cases hn.2

variable {allows denies : List Grant} {sw : Bool}

theorem ruleDecision_other {action : String} (ha : action ≠ actionPrivateAccess)
    (port : Int) : (ruleDecision sw allows denies action port).allowed = true ↔ allows ≠ [] ∧ denies = [] := by
  unfold ruleDecision
  simp only [ha, ne_eq, not_false_eq_true, true_or, and_true, if_false]
  split_ifs with h1 h2
  · simp [h2]
  · simp [h1, h2]
  · simp [h1]

variable {port : Int}

/-- one port is open when it is allowed, not denied, and the switch is on -/
theorem ruleDecision_port (hv : ∀ g ∈ allows, ∀ p ∈ g.ports, p.Valid) (h0 : port ≠ 0) :
    (ruleDecision sw allows denies actionPrivateAccess port).allowed = true ↔
      sw = true ∧ portsContain (ports allows) port = true ∧ portsContain (ports denies) port = false := by
  have hnil := subtractPorts_eq_nil (b := ports denies) (ports_valid hv)
  have hsub := contains_subtractPorts (ports allows) (ports denies) port
  unfold ruleDecision
  simp only [ne_eq, not_true_eq_false, false_or, if_true, h0, not_false_eq_true, true_and]
  split_ifs with h1 h2 h3 h4 h5
  · simp [h1.2]
  · simp [h2]
  · simp only [Bool.not_eq_true'] at h3; simp [h3]
  · simp only [false_iff, not_and]
    intro _ hn
    simp [hnil.1 h4 port hn]
  · rw [hsub, Bool.and_eq_false_iff, Bool.not_eq_false'] at h5
    rcases h5 with h5 | h5 <;> simp [h5]
  · rw [hsub, Bool.and_eq_false_iff, Bool.not_eq_false', not_or] at h5
    simp only [Bool.not_eq_true', Bool.not_eq_false, Bool.not_eq_true] at h3 h5
    simp [h3, h5.1, h5.2]

/-- port 0 asks for some open port -/
theorem ruleDecision_any (hv : ∀ g ∈ allows, ∀ p ∈ g.ports, p.Valid) :
    (ruleDecision sw allows denies actionPrivateAccess 0).allowed = true ↔
      ∃ n, 1 ≤ n ∧ n ≤ 65535 ∧ (ruleDecision sw allows denies actionPrivateAccess n).allowed = true := by
  have hrange : ∀ n, portsContain (ports allows) n = true → 1 ≤ n ∧ n ≤ 65535 := by
    intro n hn
    obtain ⟨p, hp, h1, h2⟩ := (portsContain_iff _ _).1 hn
    have := ports_valid hv p hp
    exact ⟨this.low.trans h1, h2.trans this.high⟩
  have hport : (∃ n, 1 ≤ n ∧ n ≤ 65535 ∧ (ruleDecision sw allows denies actionPrivateAccess n).allowed = true) ↔
      sw = true ∧ ∃ n, portsContain (ports allows) n = true ∧ portsContain (ports denies) n = false := by
    constructor
    · rintro ⟨n, h1, _, h⟩
      obtain ⟨hsw, hn⟩ := (ruleDecision_port hv (by omega)).1 h
      exact ⟨hsw, n, hn⟩
    · rintro ⟨hsw, n, hn⟩
      obtain ⟨h1, h2⟩ := hrange n hn.1
      exact ⟨n, h1, h2, (ruleDecision_port hv (by omega)).2 ⟨hsw, hn⟩⟩
  have hnil := subtractPorts_eq_nil (b := ports denies) (ports_valid hv)
  rw [hport]
  unfold ruleDecision
  simp only [ne_eq, not_true_eq_false, false_or, if_true, false_and, and_false, if_false]
  split_ifs with h1 h2 h3
  · simp [h1]
  · simp only [Bool.not_eq_true'] at h2; simp [h2]
  · simp only [false_iff, not_and, not_exists]
    intro _ n hn
    simp [hnil.1 h3 n hn]
  · rw [hnil] at h3
    push Not at h3
    obtain ⟨n, hn, hd⟩ := h3
    simp only [Bool.not_eq_true', Bool.not_eq_false] at h2
    simp only [true_iff]
    exact ⟨h2, n, hn, by simpa using hd⟩

/-! ## What matches -/

section

variable {c : Compiled} {gs : List Grant} (hs : Strict Grant.sortKey gs) (account : String)
    (t : Target) (action : String)

include hs

theorem mem_matching (g : Grant) : g ∈ c.matching gs account t action ↔
    g ∈ gs ∧ (g.grantKey = (account, t, action) ∨
      ∃ r, c.x.resourceOf t = some r ∧ g.grantKey = (account, ⟨.machine, r.machineID⟩, action)) := by
  unfold Compiled.matching
  cases hr : c.x.resourceOf t with
  | none => simp [findGrant_eq_some hs]
  | some r =>
    simp only [List.mem_append, Option.mem_toList, findGrant_eq_some hs, Option.some.injEq, exists_eq_left']
    exact and_or_left.symm

/-- the grants on the target and on the machine it runs on -/
theorem matching_covers (n : Int) :
    (∃ g ∈ c.matching gs account t action, action = actionPrivateAccess → portsContain g.ports n = true) ↔
      (∃ g ∈ gs, g.Covers (account, t, action) n) ∨
        ∃ r, c.x.resourceOf t = some r ∧ ∃ g ∈ gs, g.Covers (account, ⟨.machine, r.machineID⟩, action) n := by
  simp only [mem_matching hs]
  constructor
  · rintro ⟨g, ⟨hg, h | ⟨r, hr, h⟩⟩, hn⟩
    · exact .inl ⟨g, hg, h, hn⟩
    · exact .inr ⟨r, hr, g, hg, h, hn⟩
  · rintro (⟨g, hg, h, hn⟩ | ⟨r, hr, g, hg, h, hn⟩)
    · exact ⟨g, ⟨hg, .inl h⟩, hn⟩
    · exact ⟨g, ⟨hg, .inr ⟨r, hr, h⟩⟩, hn⟩

end

/-! ## Rules that match a request -/

/-- the target of a request, or the machine a preview or tunnel of the inventory runs on -/
def Concerns (inv : Inventory) (t t' : Target) : Prop :=
  t' = t ∨ ∃ r ∈ inv.resources, r.kind.target = t.kind ∧ r.id = t.id ∧ t' = ⟨.machine, r.machineID⟩

/-- the rule is about the request: one of its subjects, targets and actions -/
structure Rule.About (u : Unicode) (d : Document) (inv : Inventory) (r : Rule) (account : String) (t : Target)
    (action : String) : Prop where
  subject : ∃ e ∈ r.src, NamesAccount u (newIndex u inv) d e account
  object : ∃ e ∈ r.dst, ∃ t', Concerns inv t t' ∧ NamesTarget u (newIndex u inv) d e t'
  lists : action ∈ expandActions r.actions.1

/-- private access is on: always in a personal workspace, by the team's switch in a team -/
def PrivateAccessOn (d : Document) (inv : Inventory) : Prop := inv.team = true → d.allowPrivateAccess = some true

/-- the rule matches the request: it is about it and, for private_access, at the port while the switch is on -/
def Rule.Matches (u : Unicode) (d : Document) (inv : Inventory) (r : Rule) (account : String) (t : Target)
    (action : String) (port : Int) : Prop :=
  r.About u d inv account t action ∧
    (action = actionPrivateAccess → portsContain r.portsOf port = true ∧ PrivateAccessOn d inv)

/-- the policy allows the request: an allow rule matches and no deny rule does -/
def RulesAllow (u : Unicode) (d : Document) (inv : Inventory) (account : String) (t : Target) (action : String)
    (port : Int) : Prop :=
  (∃ r ∈ d.rules, r.actions.2 = false ∧ r.Matches u d inv account t action port) ∧
    ¬ ∃ r ∈ d.rules, r.actions.2 = true ∧ r.Matches u d inv account t action port

theorem kind_colon_injective {k : TargetKind} {k' : ResourceKind} {i i' : String}
    (h : k'.name ++ ":" ++ i' = k.name ++ ":" ++ i) : k'.target = k ∧ i' = i := by
  have h1 : cut (k'.name ++ ":" ++ i') ":" = (k'.name, i', true) := cut_kind (by cases k' <;> decide) i'
  have h2 : cut (k.name ++ ":" ++ i) ":" = (k.name, i, true) := cut_kind (by cases k <;> decide) i
  rw [h, h2, Prod.mk.injEq, Prod.mk.injEq] at h1
  refine ⟨?_, h1.2.1.symm⟩
  have hname := h1.1
  cases k <;> cases k' <;> first | rfl | exact absurd hname (by decide)

/-- the index finds a preview or tunnel by its kind and ID -/
def FindsResource (u : Unicode) (inv : Inventory) (t : Target) : Prop :=
  ∀ r, (newIndex u inv).resourceOf t = some r ↔ r ∈ inv.resources ∧ r.kind.target = t.kind ∧ r.id = t.id

theorem findsResource_machine (u : Unicode) (inv : Inventory) (id : String) : FindsResource u inv ⟨.machine, id⟩ := by
  intro r
  simp only [Index.resourceOf, TargetKind.resource?, reduceCtorEq, false_iff, not_and]
  intro _ h
  cases hk : r.kind <;> rw [hk] at h <;> cases h

variable {inv : Inventory} {u : Unicode}

theorem findsResource (hres : (inv.resources.map Resource.idKey).Nodup) (t : Target) : FindsResource u inv t := by
  intro r
  have hkind : r.kind.target = t.kind → t.kind.resource? = some r.kind ∧ t.kind.name = r.kind.name := by
    intro h; rw [← h]; cases r.kind <;> exact ⟨rfl, rfl⟩
  unfold Index.resourceOf
  cases hk : t.kind.resource? with
  | none =>
    simp only [reduceCtorEq, false_iff, not_and]
    intro _ h
    rw [(hkind h).1] at hk
    simp at hk
  | some k =>
    simp only [newIndex]
    rw [lastWith_eq_some hres]
    refine and_congr_right fun _ => ⟨kind_colon_injective, ?_⟩
    rintro ⟨h1, h2⟩
    rw [Resource.idKey, (hkind h1).2, h2]

/-! ## The compiled lists answer as the rules do -/

/-- a rule of the kind is about the target or the machine it runs on -/
def Answers (u : Unicode) (d : Document) (inv : Inventory) (deny : Bool) (account : String)
    (t : Target) (action : String) (n : Int) : Prop :=
  Says u d inv deny (account, t, action) n ∨
    ∃ res, (newIndex u inv).resourceOf t = some res ∧ Says u d inv deny (account, ⟨.machine, res.machineID⟩, action) n

section

variable {u : Unicode} {d : Document} {inv : Inventory} {c : Compiled} (hM : Means u d inv c)

include hM

theorem allowPrivateAccess_iff : c.allowPrivateAccess = true ↔ PrivateAccessOn d inv := by
  rw [hM.switch]
  unfold PrivateAccessOn
  cases inv.team <;> simp

variable (deny : Bool)

variable (account : String) (t : Target)

theorem matching_answers (action : String) (n : Int) :
    (∃ g ∈ c.matching (c.side deny) account t action, action = actionPrivateAccess → portsContain g.ports n = true) ↔
      Answers u d inv deny account t action n := by
  rw [matching_covers (hM.strict deny), hM.x_eq]
  simp only [hM.covers, Answers]

theorem matching_valid (action : String) : ∀ g ∈ c.matching c.allows account t action, ∀ p ∈ g.ports, p.Valid := by
  intro g hg
  exact hM.valid false g ((mem_matching (hM.strict false) account t action g).1 hg).1

variable {account : String} (hm : ∃ m ∈ inv.members, m.accountID = account) (t : Target) (action : String)
include hm

theorem decide_owner_or_rules (port : Int) :
    (c.decide account t action port).allowed = true ↔ c.owns account t action = true ∨
      (ruleDecision c.allowPrivateAccess (c.matching c.allows account t action) (c.matching c.denies account t action)
        action port).allowed = true := by
  have hsome : (c.x.byAccount account).isNone = false := by
    rw [← Option.not_isSome, hM.x_eq, Bool.not_eq_false']
    exact lastWith_isSome.2 hm
  unfold Compiled.decide
  rw [hsome]
  cases c.owns account t action <;> simp

/-- at one port the answer is the owner's, or that of the rules on the target and its machine -/
theorem decide_answers (h0 : port ≠ 0) :
    (c.decide account t action port).allowed = true ↔ c.owns account t action = true ∨
      (Answers u d inv false account t action port ∧ ¬ Answers u d inv true account t action port ∧
        (action = actionPrivateAccess → PrivateAccessOn d inv)) := by
  rw [decide_owner_or_rules hM hm, ← matching_answers hM false, ← matching_answers hM true, ← allowPrivateAccess_iff hM]
  refine or_congr_right ?_
  by_cases ha : action = actionPrivateAccess
  · subst ha
    rw [ruleDecision_port (matching_valid hM account t _) h0, ← Bool.not_eq_true, contains_ports, contains_ports]
    simp only [forall_true_left]
    exact ⟨fun h => ⟨h.2.1, h.2.2, h.1⟩, fun h => ⟨h.2.2, h.1, h.2.1⟩⟩
  · rw [ruleDecision_other ha]
    simp [ha, Compiled.side, List.eq_nil_iff_forall_not_mem]

/-- port 0 asks whether some port is allowed -/
theorem decide_any : (c.decide account t action 0).allowed = true ↔
    ∃ p, 1 ≤ p ∧ p ≤ 65535 ∧ (c.decide account t action p).allowed = true := by
  simp only [decide_owner_or_rules hM hm]
  cases c.owns account t action with
  | true => simpa using ⟨1, by norm_num, by norm_num⟩
  | false =>
    simp only [Bool.false_eq_true, false_or]
    by_cases ha : action = actionPrivateAccess
    · subst ha; exact ruleDecision_any (matching_valid hM account t _)
    · simp only [ruleDecision_other ha]
      exact ⟨fun h => ⟨1, by norm_num, by norm_num, h⟩, fun ⟨_, _, _, h⟩ => h⟩

end

section

variable {u : Unicode} {d : Document} {inv : Inventory} {t : Target} (hres : FindsResource u inv t)

include hres

theorem about_iff (r : Rule) (account action : String) :
    r.About u d inv account t action ↔ r.Names u (newIndex u inv) d (account, t, action) ∨
      ∃ res, (newIndex u inv).resourceOf t = some res ∧
        r.Names u (newIndex u inv) d (account, ⟨.machine, res.machineID⟩, action) := by
  constructor
  · rintro ⟨hs, ⟨e, he, t', rfl | ⟨res, hr, hk, hi, rfl⟩, hn⟩, hl⟩
    · exact .inl ⟨hs, ⟨e, he, hn⟩, hl⟩
    · exact .inr ⟨res, (hres res).2 ⟨hr, hk, hi⟩, hs, ⟨e, he, hn⟩, hl⟩
  · rintro (⟨hs, ⟨e, he, hn⟩, hl⟩ | ⟨res, hr, hs, ⟨e, he, hn⟩, hl⟩)
    · exact ⟨hs, ⟨e, he, t, .inl rfl, hn⟩, hl⟩
    · obtain ⟨hr, hk, hi⟩ := (hres res).1 hr
      exact ⟨hs, ⟨e, he, _, .inr ⟨res, hr, hk, hi, rfl⟩, hn⟩, hl⟩

theorem answers_iff (deny : Bool) (account action : String) (n : Int) : Answers u d inv deny account t action n ↔
    ∃ r ∈ d.rules, r.actions.2 = deny ∧ r.About u d inv account t action ∧
      (action = actionPrivateAccess → portsContain r.portsOf n = true) := by
  simp only [about_iff hres, Answers, Says]
  constructor
  · rintro (⟨r, hr, hd, hn, hp⟩ | ⟨res, hres, r, hr, hd, hn, hp⟩)
    · exact ⟨r, hr, hd, .inl hn, hp⟩
    · exact ⟨r, hr, hd, .inr ⟨res, hres, hn⟩, hp⟩
  · rintro ⟨r, hr, hd, hn | ⟨res, hres, hn⟩, hp⟩
    · exact .inl ⟨r, hr, hd, hn, hp⟩
    · exact .inr ⟨res, hres, r, hr, hd, hn, hp⟩

theorem rulesAllow_iff (account action : String) (n : Int) : RulesAllow u d inv account t action n ↔
    Answers u d inv false account t action n ∧ ¬ Answers u d inv true account t action n ∧
      (action = actionPrivateAccess → PrivateAccessOn d inv) := by
  rw [answers_iff hres, answers_iff hres]
  constructor
  · rintro ⟨⟨r, hr, hd, hab, hp⟩, hno⟩
    refine ⟨⟨r, hr, hd, hab, fun ha => (hp ha).1⟩, ?_, fun ha => (hp ha).2⟩
    rintro ⟨r', hr', hd', hab', hp'⟩
    exact hno ⟨r', hr', hd', hab', fun ha => ⟨hp' ha, (hp ha).2⟩⟩
  · rintro ⟨⟨r, hr, hd, hab, hp⟩, hno, hon⟩
    exact ⟨⟨r, hr, hd, hab, fun ha => ⟨hp ha, hon ha⟩⟩,
      fun ⟨r', hr', hd', hab', hp'⟩ => hno ⟨r', hr', hd', hab', fun ha => (hp' ha).1⟩⟩

/-- at one port the answer is the owner's, or what the rules say -/
theorem decide_port {c : Compiled} (hM : Means u d inv c) {account : String}
    (hm : ∃ m ∈ inv.members, m.accountID = account) (action : String) (h0 : port ≠ 0) :
    (c.decide account t action port).allowed = true ↔
      c.owns account t action = true ∨ RulesAllow u d inv account t action port := by
  rw [decide_answers hM hm t action h0, rulesAllow_iff hres]

end

/-! ## The order of the rules -/

theorem overLimit_eq_nil {path what : String} {n : ℕ} {max : Int} :
    overLimit path n max what = [] ↔ (max > 0 → (n : Int) ≤ max) := by
  simp [overLimit]

variable {rs : List Rule}

theorem checkLimits_perm (d : Document) (hp : rs.Perm d.rules) (l : Limits) :
    checkLimits (d.withRules rs fun _ hr => hp.subset hr) l = [] ↔ checkLimits d l = [] := by
  have hrules : ∀ rules : List Rule, (rules.mapIdx fun i r =>
      overLimit (pointer "/rules" [toString i, "src"]) r.src.length l.maxEntriesPerList "entries" ++
        overLimit (pointer "/rules" [toString i, "dst"]) r.dst.length l.maxEntriesPerList "entries").flatten = [] ↔
      ∀ r ∈ rules, (l.maxEntriesPerList > 0 → (r.src.length : Int) ≤ l.maxEntriesPerList) ∧
        (l.maxEntriesPerList > 0 → (r.dst.length : Int) ≤ l.maxEntriesPerList) := by
    intro rules
    refine flatten_mapIdx_eq_nil _ rules _ fun i r _ => ?_
    rw [List.append_eq_nil_iff, overLimit_eq_nil, overLimit_eq_nil]
  simp only [checkLimits, Document.withRules, List.append_eq_nil_iff, overLimit_eq_nil, hrules,
    hp.length_eq, hp.mem_iff]

theorem documentOk_perm {d : Document} {limits : Limits} (h : DocumentOk u d inv limits)
    (hp : rs.Perm d.rules) : DocumentOk u (d.withRules rs fun _ hr => hp.subset hr) inv limits :=
  ⟨(checkLimits_perm d hp limits).2 h.limits, h.groups, h.tags, h.switch, fun r hr => h.rules r (hp.subset hr)⟩

theorem rulesAllow_perm {d : Document} (hp : rs.Perm d.rules)
    (account : String) (t : Target) (action : String) (port : Int) :
    RulesAllow u (d.withRules rs fun _ hr => hp.subset hr) inv account t action port ↔
      RulesAllow u d inv account t action port := by
  have habout : ∀ r : Rule, r.Matches u (d.withRules rs fun _ hr => hp.subset hr) inv account t action port ↔
      r.Matches u d inv account t action port := fun r =>
    and_congr_left fun _ => ⟨fun h => ⟨h.subject, h.object, h.lists⟩, fun h => ⟨h.subject, h.object, h.lists⟩⟩
  unfold RulesAllow
  simp only [habout, show (d.withRules rs fun _ hr => hp.subset hr).rules = rs from rfl, hp.mem_iff]

/-- **Decisions are the rules.** For a document that compiles, a member's request at a port is allowed exactly when the
owner guardrail holds, or an allow rule matches it and no deny rule does; port 0 asks for some port of 1 to 65535; and
the rules in any other order compile as well and give the same answers. -/
theorem decide_iff_matches (u : Unicode) (d : Document) (inv : Inventory) (limits : Limits)
    (hres : (inv.resources.map Resource.idKey).Nodup) (h : (compile u d inv limits).2 = [])
    (account : String) (hm : ∃ m ∈ inv.members, m.accountID = account) (t : Target) (action : String) :
    (∀ p, 1 ≤ p → p ≤ 65535 → (((compile u d inv limits).1.decide account t action p).allowed = true ↔
      (compile u d inv limits).1.owns account t action = true ∨ RulesAllow u d inv account t action p)) ∧
    (((compile u d inv limits).1.decide account t action 0).allowed = true ↔
      ∃ p, 1 ≤ p ∧ p ≤ 65535 ∧ ((compile u d inv limits).1.decide account t action p).allowed = true) ∧
    (∀ rs (hp : rs.Perm d.rules), (compile u (d.withRules rs fun _ hr => hp.subset hr) inv limits).2 = [] ∧
      ∀ port, ((compile u (d.withRules rs fun _ hr => hp.subset hr) inv limits).1.decide account
        t action port).allowed =
        ((compile u d inv limits).1.decide account t action port).allowed) := by
  have hM := compile_means h
  refine ⟨fun p h1 _ => decide_port (findsResource hres t) hM hm action (by omega), decide_any hM hm t action,
    fun rs hp => ?_⟩
  have h' := (compile_errors u _ inv limits).2 (documentOk_perm ((compile_errors u d inv limits).1 h) hp)
  have hM' := compile_means h'
  refine ⟨h', ?_⟩
  -- the owner guardrail reads the index only, and the rules are read as a set
  have howns : (compile u (d.withRules rs fun _ hr => hp.subset hr) inv limits).1.owns account t action =
      (compile u d inv limits).1.owns account t action := by
    unfold Compiled.owns; rw [hM.x_eq, hM'.x_eq]
  have hport : ∀ p ≠ 0, (((compile u (d.withRules rs fun _ hr => hp.subset hr) inv limits).1.decide account t action
      p).allowed = true ↔ ((compile u d inv limits).1.decide account t action p).allowed = true) := by
    intro p h0
    rw [decide_port (findsResource hres t) hM' hm action h0, decide_port (findsResource hres t) hM hm action h0,
      howns, rulesAllow_perm hp]
  intro port
  rw [Bool.eq_iff_iff]
  by_cases h0 : port = 0
  · rw [h0, decide_any hM' hm, decide_any hM hm]
    exact exists_congr fun p => and_congr_right fun h1 => and_congr_right fun _ => hport p (by omega)
  · exact hport port h0

/-- a team of two with one shared machine and a preview on it -/
def smallTeam : Inventory :=
  { team := true, teamID := "t1"
    members := [⟨"a1", "ann@x.io", "owner"⟩, ⟨"a2", "bob@x.io", "member"⟩]
    machines := [{ id := "m1", aliasName := "db1" }]
    resources := [⟨.preview, "p1", "web", "m1", "a1"⟩], tokens := [] }

/-- developers may do everything on the machine, but bob may not open its terminal -/
def smallPolicy : Document :=
  { allowPrivateAccess := some true, groups := [("group:dev", ["user:bob@x.io"])], tags := []
    rules := [⟨["group:dev"], ["machine:db1"], some ["*"], none, none, ""⟩,
      ⟨["user:bob@x.io"], ["machine:*"], none, some ["terminal"], none, ""⟩]
    tests := [], groups_nodup := by decide, tags_nodup := by decide, ports_valid := by decide }

/-- bob inspects the preview through the rule on its machine -/
theorem smallPolicy_inspect : RulesAllow ascii smallPolicy smallTeam "a2" ⟨.preview, "p1"⟩ "inspect" 22 :=
  (((decide_iff_matches ascii smallPolicy smallTeam {} (by decide) (by decide +kernel) "a2" (by decide) ⟨.preview, "p1"⟩
    "inspect").1 22 (by norm_num) (by norm_num)).1 (by decide +kernel)).resolve_left (by decide +kernel)

end Paperboat.Policy
