/-
What a policy document means, rule by rule, and that the compiled lists hold exactly
that.

`Rule.Names` says which accounts, targets and actions a rule is about, `Rule.portsOf`
which ports, `RuleOk` and `DocumentOk` that everything written resolves. The compiler is
connected to them by:
- `expandRule_errors`: a rule reports nothing exactly when `RuleOk` holds, wherever it
  stands in the file;
- `mem_accounts`, `mem_targets`, `mem_actions`: the lists a rule expands to are what its
  entries name;
- `compileErrors_eq_nil`: a document compiles exactly when `DocumentOk` holds;
- `compile_means`: the compiled allow and deny lists hold exactly what the rules of that
  kind say (`Means`).
-/
import Paperboat.Policy.Names

namespace Paperboat.Policy

open Text Search Fold

section

variable (u : Unicode) (x : Index) (d : Document)

/-! ## Rules -/

variable (groups tags : List (String × List String))

/-- every entry of a rule resolves, and its lists fit together -/
structure RuleOk (r : Rule) : Prop where
  src_ne : r.src ≠ []
  dst_ne : r.dst ≠ []
  actions_ne : r.actions.1 ≠ []
  src : ∀ e ∈ r.src, ∃ as, subjectEntry u x groups e = .ok as
  dst : ∀ e ∈ r.dst, ∃ ts, targetEntry u x tags e = .ok ts
  family : ∀ e ∈ r.dst, ∃ o, mixedEntry (ruleFamily r.dst) e = .ok o
  actions : ∀ a ∈ r.actions.1, ∃ as, actionEntry u (ruleFamily r.dst) a = .ok as
  ports : ∀ ps, r.ports = some ps →
    (ruleActions u (ruleFamily r.dst) "" r.actions.1).2 = [actionPrivateAccess] ∧ ps ≠ []

/-- what a rule expands to, wherever it stands -/
def expanded (r : Rule) : Expanded := (expandRule u x groups tags "" r).2

theorem expandRule_snd (p : String) (r : Rule) : (expandRule u x groups tags p r).2 = expanded u x groups tags r := by
  simp only [expanded, expandRule, rulePorts]
  cases r.ports <;> rfl

theorem rulePorts_errors (p : String) (actions : List String) (ports : Option (List PortRange)) (deny : Bool) :
    (rulePorts p actions ports deny).1 = [] ↔ ∀ ps, ports = some ps → actions = [actionPrivateAccess] ∧ ps ≠ [] := by
  cases ports with
  | none => simp [rulePorts]
  | some ps =>
    simp only [rulePorts, List.append_eq_nil_iff, ite_eq_right_iff, reduceCtorEq, imp_false, not_not,
      Option.some.injEq, forall_eq', ne_eq]

/-- **A rule's errors do not depend on where it stands.** -/
theorem expandRule_errors (p : String) (r : Rule) :
    (expandRule u x groups tags p r).1 = [] ↔ RuleOk u x groups tags r := by
  simp only [expandRule, ruleSubjects, ruleTargets, List.append_eq_nil_iff, entryErrors_eq_nil, rulePorts_errors,
    emptyErrors, List.flatMap_cons, List.flatMap_nil, ite_eq_right_iff, reduceCtorEq, imp_false]
  constructor
  · rintro ⟨⟨⟨⟨⟨hs, hd, ha, _⟩, hsrc⟩, hdst, hmix⟩, hact⟩, hports⟩
    exact ⟨hs, hd, ha, hsrc, hdst, hmix, (entryErrors_eq_nil _ _ _).1 hact, hports⟩
  · intro h
    exact ⟨⟨⟨⟨⟨h.src_ne, h.dst_ne, h.actions_ne, trivial⟩, h.src⟩, h.dst, h.family⟩,
      (entryErrors_eq_nil _ _ _).2 h.actions⟩, h.ports⟩

/-- the rule's own ports: without ports an allow covers 1024 and above, a deny every port -/
def Rule.portsOf (r : Rule) : List PortRange :=
  match r.ports with
  | some ps => ps
  | none => if r.actions.2 then allPorts else [defaultPrivatePorts]

/-- the rule is about the account, this very target and the action -/
structure Rule.Names (r : Rule) (k : GrantKey) : Prop where
  account : ∃ e ∈ r.src, NamesAccount u x d e k.1
  target : ∃ e ∈ r.dst, NamesTarget u x d e k.2.1
  action : k.2.2 ∈ expandActions r.actions.1

variable {groups tags}

theorem ruleFamily_ne_none {r : Rule} (h : RuleOk u x groups tags r) : ruleFamily r.dst ≠ none := by
  obtain ⟨e, rest, he⟩ := List.exists_cons_of_ne_nil h.dst_ne
  obtain ⟨ts, hts⟩ := h.dst e (by simp [he])
  have hfam : targetFamily e ≠ none := by
    intro hnone
    unfold targetFamily at hnone
    unfold targetEntry at hts
    split_ifs at hnone with h1 h2 h3
    simp only [not_or] at h1 h2
    simp [h1.1, h1.2, h2.1, h2.2, h3] at hts
  obtain ⟨f, hf⟩ := Option.ne_none_iff_exists'.1 hfam
  simp [ruleFamily, he, hf]

theorem portsContain_expanded (r : Rule) (n : Int) :
    portsContain (expanded u x groups tags r).ports n = portsContain r.portsOf n := by
  simp only [expanded, expandRule, rulePorts, Rule.portsOf]
  cases r.ports with
  | none => rfl
  | some ps => exact contains_mergePorts ps n

section

variable {u x d} {r : Rule}

theorem mem_accounts (hg : GroupsOk u x d.groups) (h : RuleOk u x (compileGroups u x d.groups).2 tags r) (a : String) :
    a ∈ (expanded u x (compileGroups u x d.groups).2 tags r).accounts ↔ ∃ e ∈ r.src, NamesAccount u x d e a := by
  simp only [expanded, expandRule, ruleSubjects, mem_entries]
  refine exists_congr fun e => and_congr_right fun he => ?_
  obtain ⟨as, has⟩ := h.src e he
  simp [has, subjectEntry_names u x d hg has a]

theorem mem_targets (ht : TagsOk u x d.tags) (h : RuleOk u x groups (compileTags u x d.tags).2 r) (t : Target) :
    t ∈ (expanded u x groups (compileTags u x d.tags).2 r).targets ↔ ∃ e ∈ r.dst, NamesTarget u x d e t := by
  simp only [expanded, expandRule, ruleTargets, mem_entries]
  refine exists_congr fun e => and_congr_right fun he => ?_
  obtain ⟨ts, hts⟩ := h.dst e he
  simp [hts, targetEntry_names u x d ht hts t]

theorem mem_actions (h : RuleOk u x groups tags r) (a : String) :
    a ∈ (expanded u x groups tags r).actions ↔ a ∈ expandActions r.actions.1 := by
  simp only [expanded, expandRule, ruleActions, List.mem_insertionSort, mem_entries]
  rw [expandActions, List.mem_flatMap]
  refine exists_congr fun e => and_congr_right fun he => ?_
  obtain ⟨as, has⟩ := h.actions e he
  have := actionEntry_names u (ruleFamily_ne_none u x h) has a
  simpa [has, expandActions] using this

/-- **Expansion is meaning.** The lists a rule expands to are what its entries name. -/
theorem mem_expanded (hg : GroupsOk u x d.groups) (ht : TagsOk u x d.tags)
    (h : RuleOk u x (compileGroups u x d.groups).2 (compileTags u x d.tags).2 r) (k : GrantKey) :
    (k.1 ∈ (expanded u x (compileGroups u x d.groups).2 (compileTags u x d.tags).2 r).accounts ∧
      k.2.1 ∈ (expanded u x (compileGroups u x d.groups).2 (compileTags u x d.tags).2 r).targets ∧
      k.2.2 ∈ (expanded u x (compileGroups u x d.groups).2 (compileTags u x d.tags).2 r).actions) ↔
    r.Names u x d k := by
  rw [mem_accounts hg h, mem_targets ht h, mem_actions h]
  exact ⟨fun h => ⟨h.1, h.2.1, h.2.2⟩, fun h => ⟨h.account, h.target, h.action⟩⟩

end

/-! ## All rules -/

/-- the builder a rule's grants go to -/
def Builders.side (bs : Builders) (deny : Bool) : Builder := if deny then bs.deny else bs.allow

theorem side_addRule (bs : Builders) (e : Expanded) (idx : ℕ) (deny : Bool) :
    (bs.addRule e idx).side deny =
      if e.deny = deny then (bs.side deny).addAll e.accounts e.targets e.actions e.ports idx else bs.side deny := by
  unfold Builders.addRule Builders.side
  cases e.deny <;> cases deny <;> simp

variable (groups tags : List (String × List String))

variable (i : ℕ) (rs : List Rule) (bs : Builders)

theorem compileRules_errors : (compileRules u x groups tags i rs bs).1 = [] ↔ ∀ r ∈ rs, RuleOk u x groups tags r := by
  induction rs generalizing i bs with
  | nil => simp [compileRules]
  | cons r rs ih =>
    simp only [compileRules, compileRule, List.append_eq_nil_iff, expandRule_errors, ih,
      List.mem_cons, forall_eq_or_imp]

/-- rules without errors are added one after the other -/
theorem compileRules_foldl (h : ∀ r ∈ rs, RuleOk u x groups tags r) : (compileRules u x groups tags i rs bs).2 =
      (rs.zipIdx i).foldl (fun bs p => bs.addRule (expanded u x groups tags p.1) p.2) bs := by
  induction rs generalizing i bs with
  | nil => rfl
  | cons r rs ih =>
    have hr : (expandRule u x groups tags (pointer "/rules" [toString i]) r).1 = [] :=
      (expandRule_errors u x groups tags _ r).2 (h r List.mem_cons_self)
    simp only [compileRules, compileRule, if_pos hr, expandRule_snd, List.zipIdx_cons, List.foldl_cons]
    exact ih _ _ fun r' hr' => h r' (List.mem_cons_of_mem r hr')

end

/-! ## The document -/

/-- everything a document writes resolves against the inventory, within the limits -/
structure DocumentOk (u : Unicode) (d : Document) (inv : Inventory) (limits : Limits) : Prop where
  limits : checkLimits d limits = []
  groups : GroupsOk u (newIndex u inv) d.groups
  tags : TagsOk u (newIndex u inv) d.tags
  switch : d.allowPrivateAccess.isSome = true → inv.team = true
  rules : ∀ r ∈ d.rules, RuleOk u (newIndex u inv) (compileGroups u (newIndex u inv) d.groups).2
    (compileTags u (newIndex u inv) d.tags).2 r

section

variable (u : Unicode) (d : Document) (inv : Inventory) (limits : Limits)

theorem compileErrors_eq_nil : compileErrors u d inv limits = [] ↔ DocumentOk u d inv limits := by
  simp only [compileErrors, List.append_eq_nil_iff, compileGroups_errors, compileTags_errors, compileRules_errors,
    ite_eq_right_iff, reduceCtorEq, imp_false, not_and, Bool.not_eq_true', Bool.not_eq_false]
  constructor
  · rintro ⟨⟨⟨⟨hl, hg⟩, ht⟩, hs⟩, hr⟩
    exact ⟨hl, hg, ht, hs, hr⟩
  · intro h
    exact ⟨⟨⟨⟨h.limits, h.groups⟩, h.tags⟩, h.switch⟩, h.rules⟩

/-- a document compiles exactly when everything it writes resolves -/
theorem compile_errors : (compile u d inv limits).2 = [] ↔ DocumentOk u d inv limits := by
  rw [← compileErrors_eq_nil]
  unfold compile
  split_ifs with h
  · simp [sorted_eq_nil]
  · simpa using h

end

/-- the list of the rules of one kind -/
def Compiled.side (c : Compiled) (deny : Bool) : List Grant := if deny then c.denies else c.allows

/-- a rule of the kind is about this very account, target and action and, for private_access, the port -/
def Says (u : Unicode) (d : Document) (inv : Inventory) (deny : Bool) (k : GrantKey) (n : Int) : Prop :=
  ∃ r ∈ d.rules, r.actions.2 = deny ∧ r.Names u (newIndex u inv) d k ∧
    (k.2.2 = actionPrivateAccess → portsContain r.portsOf n = true)

/-- `c` holds what the rules of `d` say about the inventory `inv` -/
structure Means (u : Unicode) (d : Document) (inv : Inventory) (c : Compiled) : Prop where
  x_eq : c.x = newIndex u inv
  switch : c.allowPrivateAccess = (!inv.team || d.allowPrivateAccess == some true)
  strict : ∀ deny, Strict Grant.sortKey (c.side deny)
  covers : ∀ deny k n, (∃ g ∈ c.side deny, g.Covers k n) ↔ Says u d inv deny k n
  valid : ∀ deny, ∀ g ∈ c.side deny, ∀ p ∈ g.ports, p.Valid
  grants_eq : c.grants = subtract (c.side false) (c.side true)

theorem portsOf_valid {r : Rule} (h : r.PortsValid) : ∀ p ∈ r.portsOf, p.Valid := by
  unfold Rule.portsOf
  unfold Rule.PortsValid at h
  cases hp : r.ports with
  | some ps => rw [hp] at h; exact h
  | none =>
    split_ifs
    · exact allPorts_valid
    · simpa using defaultPrivatePorts_valid

theorem expanded_ports_valid (u : Unicode) (x : Index) (groups tags : List (String × List String)) {r : Rule}
    (h : r.PortsValid) : ∀ p ∈ (expanded u x groups tags r).ports, p.Valid := by
  have := portsOf_valid h
  unfold Rule.portsOf at this
  simp only [expanded, expandRule, rulePorts]
  cases hp : r.ports with
  | some ps => rw [hp] at this; exact mergePorts_valid this
  | none => rw [hp] at this; exact this

theorem compile_eq {u : Unicode} {d : Document} {inv : Inventory} {limits : Limits}
    (h : (compile u d inv limits).2 = []) : (compile u d inv limits).1 = compiled u d inv := by
  have hok := (compile_errors u d inv limits).1 h
  unfold compile
  rw [if_neg (by simpa using (compileErrors_eq_nil u d inv limits).2 hok)]

section

variable {u : Unicode} {d : Document} {inv : Inventory} {limits : Limits} (hok : DocumentOk u d inv limits)

include hok

/-- the builders collect the rules one after the other -/
theorem documentBuilders_eq : documentBuilders u d inv =
    d.rules.zipIdx.foldl (fun bs p => bs.addRule
      (expanded u (newIndex u inv) (compileGroups u (newIndex u inv) d.groups).2
      (compileTags u (newIndex u inv) d.tags).2 p.1) p.2) ⟨newBuilder, newBuilder⟩ :=
  compileRules_foldl u _ _ _ 0 d.rules _ hok.rules

theorem covers_documentBuilders (deny : Bool) (k : GrantKey) (n : Int) :
    ((documentBuilders u d inv).side deny).Covers k n ↔ Says u d inv deny k n := by
  rw [documentBuilders_eq hok, foldl_zipIdx_or (fun bs : Builders => (bs.side deny).Covers k n)
    (fun r => r.actions.2 = deny ∧
    r.Names u (newIndex u inv) d k ∧ (k.2.2 = actionPrivateAccess → portsContain r.portsOf n = true))]
  · have : ¬ (Builders.side ⟨newBuilder, newBuilder⟩ deny).Covers k n := by
      cases deny <;> simp [Builders.side, Builder.Covers, newBuilder]
    simp [this, Says]
  · intro bs p hp
    have hr := hok.rules p.1 (List.fst_mem_of_mem_zipIdx hp)
    rw [side_addRule]
    split_ifs with hd
    · rw [covers_addAll, mem_expanded hok.groups hok.tags hr k, portsContain_expanded]
      exact or_congr_right ⟨fun hn => ⟨hd, hn⟩, fun hn => hn.2⟩
    · exact ⟨.inl, fun hn => hn.resolve_right fun hp => hd hp.1⟩

/-- what merging with valid ranges keeps holds of the ports of every grant -/
theorem documentBuilders_ports {P : List PortRange → Prop} (h0 : P [])
    (hP : ∀ ps qs : List PortRange, P ps → (∀ q ∈ qs, q.Valid) → P (mergePorts (ps ++ qs))) (deny : Bool) :
    ∀ g ∈ ((documentBuilders u d inv).side deny).grants, P g.ports := by
  rw [documentBuilders_eq hok]
  refine foldl_inv (fun bs : Builders => ∀ g ∈ (bs.side deny).grants, P g.ports) _ _ (fun bs p hp hb => ?_) _ ?_
  · rw [side_addRule]
    split_ifs
    · exact addAll_ports h0 (fun ps h => hP ps _ h
        (expanded_ports_valid u _ _ _ (d.ports_valid p.1 (List.fst_mem_of_mem_zipIdx hp)))) hb _ _ _ _
    · exact hb
  · cases deny <;> nofun

theorem documentBuilders_valid (deny : Bool) : ((documentBuilders u d inv).side deny).PortsValid :=
  documentBuilders_ports hok (P := fun ps => ∀ p ∈ ps, p.Valid) nofun
    (fun _ _ hps hqs => mergePorts_valid (List.forall_mem_append.2 ⟨hps, hqs⟩)) deny

/-- **The compiled lists are the rules.** -/
theorem compiled_means : Means u d inv (compiled u d inv) := by
  have hside : ∀ deny, (compiled u d inv).side deny = ((documentBuilders u d inv).side deny).list := by
    intro deny; cases deny <;> rfl
  refine ⟨rfl, rfl, fun deny => ?_, fun deny k n => ?_, fun deny g hg => ?_, rfl⟩
  · rw [hside]; exact list_strict _
  · simp only [hside, mem_list]
    exact covers_documentBuilders hok deny k n
  · rw [hside, mem_list] at hg; exact documentBuilders_valid hok deny g hg

end

theorem compile_means {u : Unicode} {d : Document} {inv : Inventory} {limits : Limits}
    (h : (compile u d inv limits).2 = []) : Means u d inv (compile u d inv limits).1 := by
  rw [compile_eq h]
  exact compiled_means ((compile_errors u d inv limits).1 h)

end Paperboat.Policy
