/-
API token scopes (`shared/policy/rows.go` ScopeRows, `shared/policy/compile.go`
compileScope, `server/internal/apitokens/store.go`, migration 133): the scope of a token
is compiled into grants, which `DecideToken` reads, and stored as rows, which
`api_token_scope_allows` reads.

The two give an entry without ports different defaults: the grants cover ports 1024 to
65535, the rows every port.

Results:
- `expandScope_errors`: a scope entry is checked as an allow rule for everybody;
- `covers_scopeBuilder`: the compiled grants hold what the entries cover, with the ports
  of an allow rule;
- `scopeAllows_iff`: the stored rows hold the same, with every port where an entry
  writes none;
- `decideToken_agrees_iff`: for exactly which requests the two answers agree.

Witnesses:
- `scopedToken_agrees`, `scopedToken_disagrees`: an entry without ports, asked for port
  8080 and for port 22.
-/
import Paperboat.Policy.Enforcement

namespace Paperboat.Policy

open Text Search Fold ScopeEntry

/-! ## Rows of a scope -/

/-- the scope entry as an allow rule for everybody -/
def ScopeEntry.asRule (e : ScopeEntry) : Rule := ⟨["*"], e.dst, some e.allow, none, e.ports, ""⟩

/-- the rule whose rows enforce an entry: without ports, every port -/
def ScopeEntry.enforcedRule (e : ScopeEntry) : Rule := { e.asRule with ports := some (e.ports.getD allPorts) }

/-- a row of a scope has no subject of its own -/
def Row.ofToken (r : Row) : Row := { r with subjectKind := .token, subjectID := "" }

/-- the enforcement form of a scope -/
def Compiled.scopeRows (u : Unicode) (c : Compiled) (scope : List ScopeEntry) : List Row × List Error :=
  if c.validateScope u scope ≠ [] then ([], c.validateScope u scope)
  else ((scope.mapIdx fun i e => (symbolicRows u c.x i e.enforcedRule).map Row.ofToken).flatten, [])

/-- one row of api_token_scope_rules -/
structure ScopeRule where
  entry : ℕ
  targetKind : RowTarget
  targetID : String
  action : String
  ports : PortRange
deriving DecidableEq, Repr

/-- one row per port range -/
def storeScope (rows : List Row) : List ScopeRule :=
  rows.flatMap fun r => r.ports.map fun p => ⟨r.rule, r.targetKind, r.targetID, r.action, p⟩

/-- a row of api_tokens with its scope rules; no scope for a token that may do all its creator may -/
structure TokenRow where
  revoked : Bool
  expired : Bool
  scope : Option (List ScopeRule)

/-- the SQL function; no port asks for any -/
def apiTokenScopeAllows (t : TokenRow) (tags : List (String × String)) (machine capability : String)
    (port : Option Int) : Bool :=
  !t.revoked && !t.expired &&
    match t.scope with
    | none => true
    | some rules => rules.any fun r =>
        r.action == capability && port.all r.ports.contains && targetCovers tags r.targetKind r.targetID machine

/-- a live token with the rows of a scope -/
def liveToken (rows : List Row) : TokenRow := ⟨false, false, some (storeScope rows)⟩

/-! ## The compiled scope -/

section

variable (u : Unicode) (x : Index) (groups tags : List (String × List String))

theorem expandScope_errors (p : String) (e : ScopeEntry) :
    (expandScope u x tags p e).1 = [] ↔ RuleOk u x groups tags e.asRule := by
  simp only [expandScope, ruleTargets, List.append_eq_nil_iff, entryErrors_eq_nil, rulePorts_errors, ite_eq_right_iff,
    reduceCtorEq, imp_false, not_or]
  constructor
  · rintro ⟨⟨⟨⟨hd, ha⟩, hdst, hmix⟩, hact⟩, hports⟩
    exact ⟨by simp [asRule], hd, ha, by simp [asRule, subjectEntry], hdst, hmix,
      (entryErrors_eq_nil _ _ _).1 hact, hports⟩
  · intro h
    exact ⟨⟨⟨⟨h.dst_ne, h.actions_ne⟩, h.dst, h.family⟩, (entryErrors_eq_nil _ _ _).2 h.actions⟩, h.ports⟩

theorem compileScopeEntries_errors (i : ℕ) (scope : List ScopeEntry) (b : Builder) :
    (compileScopeEntries u x tags i scope b).1 = [] ↔ ∀ e ∈ scope, RuleOk u x groups tags e.asRule := by
  induction scope generalizing i b with
  | nil => simp [compileScopeEntries]
  | cons e scope ih =>
    simp only [compileScopeEntries, List.append_eq_nil_iff, expandScope_errors u x groups, ih, List.mem_cons,
      forall_eq_or_imp]

theorem expandScope_snd (p : String) (e : ScopeEntry) : (expandScope u x tags p e).2 =
    ⟨false, [""], (expanded u x groups tags e.asRule).targets, (expanded u x groups tags e.asRule).actions,
      (expanded u x groups tags e.asRule).ports⟩ := by
  obtain ⟨dst, allow, ports⟩ := e
  cases ports <;> rfl

/-- the grants of an entry: its targets and actions, for the empty account -/
def addScopeEntry (b : Builder) (e : ScopeEntry) (i : ℕ) : Builder :=
  b.addAll [""] (expanded u x groups tags e.asRule).targets (expanded u x groups tags e.asRule).actions
    (expanded u x groups tags e.asRule).ports i

theorem compileScopeEntries_foldl (i : ℕ) (scope : List ScopeEntry) (b : Builder)
    (h : ∀ e ∈ scope, RuleOk u x groups tags e.asRule) :
    (compileScopeEntries u x tags i scope b).2 =
      (scope.zipIdx i).foldl (fun b p => addScopeEntry u x groups tags b p.1 p.2) b := by
  induction scope generalizing i b with
  | nil => rfl
  | cons e scope ih =>
    have he := (expandScope_errors u x groups tags (pointer "" [toString i]) e).2 (h e List.mem_cons_self)
    simp only [compileScopeEntries, if_pos he, expandScope_snd u x groups, List.zipIdx_cons, List.foldl_cons]
    exact ih _ _ fun e' he' => h e' (List.mem_cons_of_mem e he')

end

/-! ## What a scope covers -/

/-- the entry covers the target and the action, at some port -/
structure ScopeEntry.Covers (u : Unicode) (d : Document) (inv : Inventory) (e : ScopeEntry)
    (t : Target) (action : String) : Prop where
  target : ∃ s ∈ e.dst, NamesTarget u (newIndex u inv) d s t
  action : action ∈ expandActions e.allow

/-- every entry of the scope resolves -/
def ScopeOk (u : Unicode) (d : Document) (inv : Inventory) (scope : List ScopeEntry) : Prop :=
  ∀ e ∈ scope, RuleOk u (newIndex u inv) (compileGroups u (newIndex u inv) d.groups).2
    (compileTags u (newIndex u inv) d.tags).2 e.asRule

section

variable {u : Unicode} {d : Document} {inv : Inventory} {limits : Limits} {scope : List ScopeEntry}

theorem validateScope_ok (h : (compiled u d inv).validateScope u scope = []) : ScopeOk u d inv scope := by
  simp only [Compiled.validateScope, compileScope, sorted_eq_nil, List.append_eq_nil_iff] at h
  exact (compileScopeEntries_errors u _ _ _ 0 scope newBuilder).1 h.2

/-- the builder of a scope -/
def scopeBuilder (u : Unicode) (d : Document) (inv : Inventory) (scope : List ScopeEntry) : Builder :=
  (compileScopeEntries u (newIndex u inv) (compileTags u (newIndex u inv) d.tags).2 0 scope newBuilder).2

theorem mem_storeScope (rows : List Row) (P : ScopeRule → Prop) :
    (∃ r ∈ storeScope rows, P r) ↔
      ∃ r ∈ rows, ∃ p ∈ r.ports, P ⟨r.rule, r.targetKind, r.targetID, r.action, p⟩ := by
  simp only [storeScope, List.mem_flatMap, List.mem_map]
  constructor
  · rintro ⟨_, ⟨r, hr, p, hp, rfl⟩, h⟩; exact ⟨r, hr, p, hp, h⟩
  · rintro ⟨r, hr, p, hp, h⟩; exact ⟨_, ⟨r, hr, p, hp, rfl⟩, h⟩

variable (hok : DocumentOk u d inv limits) (hs : ScopeOk u d inv scope)

include hok hs

theorem covers_scopeBuilder (t : Target) (action : String) (n : Int) :
    (scopeBuilder u d inv scope).Covers ("", t, action) n ↔ ∃ e ∈ scope, e.Covers u d inv t action ∧
      (action = actionPrivateAccess → portsContain e.asRule.portsOf n = true) := by
  rw [scopeBuilder, compileScopeEntries_foldl u _ _ _ 0 scope _ hs,
    foldl_zipIdx_or (fun b : Builder => b.Covers ("", t, action) n) (fun e => e.Covers u d inv t action ∧
      (action = actionPrivateAccess → portsContain e.asRule.portsOf n = true))]
  · simp [Builder.Covers, newBuilder]
  · intro b p hp
    have he := hs p.1 (List.fst_mem_of_mem_zipIdx hp)
    rw [addScopeEntry, covers_addAll, mem_targets hok.tags he, mem_actions he, portsContain_expanded]
    exact or_congr_right ⟨fun h => ⟨⟨h.1.2.1, h.1.2.2⟩, h.2⟩,
      fun h => ⟨⟨List.mem_singleton_self _, h.1.target, h.1.action⟩, h.2⟩⟩

variable {p : Int}

/-- the explain path: a scoped token's request is allowed when an entry covers it, with the ports of an allow rule -/
theorem decideToken_iff {token creator machine action : String} (h0 : p ≠ 0)
    (hscope : (compiled u d inv).scopes token = some (scopeBuilder u d inv scope).list)
    (hd : ((compiled u d inv).decide creator ⟨.machine, machine⟩ action p).allowed = true) :
    ((compiled u d inv).decideToken token creator ⟨.machine, machine⟩ action p).allowed = true ↔
      ∃ e ∈ scope, e.Covers u d inv ⟨.machine, machine⟩ action ∧
        (action = actionPrivateAccess → portsContain e.asRule.portsOf p = true) := by
  have hfound : (∃ g ∈ (compiled u d inv).matching (scopeBuilder u d inv scope).list "" ⟨.machine, machine⟩ action,
      action = actionPrivateAccess → portsContain g.ports p = true) ↔ ∃ e ∈ scope,
        e.Covers u d inv ⟨.machine, machine⟩ action ∧
        (action = actionPrivateAccess → portsContain e.asRule.portsOf p = true) := by
    rw [matching_covers (list_strict _), or_iff_left]
    · simp only [mem_list]
      exact covers_scopeBuilder hok hs _ _ p
    · rintro ⟨r, hr, _⟩
      simp [Index.resourceOf, TargetKind.resource?] at hr
  rw [← hfound]
  unfold Compiled.decideToken
  simp only [hscope, hd, Bool.not_true, Bool.false_eq_true, if_false]
  by_cases ha : action = actionPrivateAccess
  · subst ha
    simp only [h0, ne_eq, not_false_eq_true, true_and, forall_true_left]
    rw [← contains_ports]
    split_ifs with hout
    · rcases hout with hnil | hno
      · rw [hnil]; simp
      · simp [hno]
    · rw [not_or] at hout
      simp [hd, hout.2]
  · simp only [ha, false_and, or_false, false_implies, and_true]
    split_ifs with hout
    · simp [hout]
    · simpa [hd] using List.exists_mem_of_ne_nil _ hout

omit hs in
/-- a request `Decide` allows is about a machine of the inventory -/
theorem decide_machine {account machine action : String} (h0 : p ≠ 0)
    (hd : ((compiled u d inv).decide account ⟨.machine, machine⟩ action p).allowed = true) :
    ∃ m ∈ inv.machines, m.id = machine := by
  have hM := compiled_means hok
  by_cases hm : ∃ m ∈ inv.members, m.accountID = account
  · rcases (decide_port (findsResource_machine u inv machine) hM hm action h0).1 hd with ho | ⟨⟨r, _, _, hab, _⟩, _⟩
    · simp only [Compiled.owns] at ho
      cases hby : (compiled u d inv).x.byMachineID machine with
      | none => rw [hby] at ho; simp at ho
      | some m => exact ⟨m, lastWith_mem hby⟩
    · obtain ⟨e, _, ht⟩ := ((about_machine r account machine action).1 hab).target
      exact namesTarget_machine u d ht
  · have hnone : ((compiled u d inv).x.byAccount account).isNone = true := by
      rw [← Option.not_isSome, Bool.not_eq_true', Bool.eq_false_iff]
      exact fun h => hm (lastWith_isSome.1 h)
    unfold Compiled.decide at hd
    rw [hnone] at hd
    simp at hd

/-- the enforcement path: the same with every port where an entry writes none -/
theorem scopeAllows_iff {machine action : String} (h1 : 1 ≤ p) (h2 : p ≤ 65535)
    (hv : (compiled u d inv).validateScope u scope = []) (hmach : ∃ m ∈ inv.machines, m.id = machine) :
    apiTokenScopeAllows (liveToken ((compiled u d inv).scopeRows u scope).1)
      (memberRows (compiled u d inv).tags) machine
      action (some p) = true ↔
      ∃ e ∈ scope, e.Covers u d inv ⟨.machine, machine⟩ action ∧
        (action = actionPrivateAccess → portsContain (e.ports.getD allPorts) p = true) := by
  have hn : SameNames u d inv inv := ⟨fun _ _ => rfl, fun _ _ _ => rfl⟩
  have hports : ∀ e : ScopeEntry, (∃ q ∈ (if action = actionPrivateAccess then rowPorts e.enforcedRule else allPorts),
      q.contains p = true) ↔ (action = actionPrivateAccess → portsContain (e.ports.getD allPorts) p = true) := by
    intro e
    have hrow : portsContain (rowPorts e.enforcedRule) p = portsContain (e.ports.getD allPorts) p :=
      contains_mergePorts _ p
    split_ifs with hc
    · rw [← hrow]; simp [hc, portsContain]
    · have := allPorts_contains h1 h2
      simpa [hc, portsContain] using this
  have hrows : ((compiled u d inv).scopeRows u scope).1 =
      (scope.mapIdx fun i e => (symbolicRows u (newIndex u inv) i e.enforcedRule).map Row.ofToken).flatten := by
    simp only [Compiled.scopeRows, hv, ne_eq, not_true_eq_false, if_false]; rfl
  simp only [apiTokenScopeAllows, liveToken, Bool.not_false, Bool.true_and, List.any_eq_true, Bool.and_eq_true,
    beq_iff_eq, Option.all_some]
  rw [mem_storeScope, hrows]
  simp only [List.mem_flatten, List.mem_mapIdx, symbolicRows, List.map_flatMap, List.map_map]
  constructor
  · rintro ⟨row, ⟨_, ⟨i, hi, rfl⟩, hrow⟩, q, hq, ⟨hact, hp⟩, htgt⟩
    simp only [List.mem_flatMap, List.mem_map, Function.comp_apply] at hrow
    obtain ⟨s, _, e, he, a, ha, rfl⟩ := hrow
    obtain ⟨ts, hts⟩ := (hs _ (List.getElem_mem hi)).dst e he
    have ht := (target_covers hok hok hn hts (fun _ => rfl) hmach).1 htgt
    have hact' : a = action := hact
    subst hact'
    exact ⟨scope[i], List.getElem_mem hi, ⟨⟨e, he, ht⟩, ha⟩, (hports scope[i]).1 ⟨q, hq, hp⟩⟩
  · rintro ⟨e, he, ⟨⟨s, hs', ht⟩, ha⟩, hp⟩
    obtain ⟨q, hq, hqp⟩ := (hports e).2 hp
    obtain ⟨ts, hts⟩ := (hs e he).dst s hs'
    obtain ⟨i, hi, rfl⟩ := List.getElem_of_mem he
    refine ⟨Row.ofToken ⟨i, false, .all, "", (symbolicTarget u (newIndex u inv) s).1,
      (symbolicTarget u (newIndex u inv) s).2, action,
        if action = actionPrivateAccess then rowPorts scope[i].enforcedRule
        else allPorts⟩, ⟨_, ⟨i, hi, rfl⟩, ?_⟩, q, hq, ⟨rfl, hqp⟩,
          (target_covers hok hok hn hts (fun _ => rfl) hmach).2 ht⟩
    simp only [List.mem_flatMap, List.mem_map, Function.comp_apply]
    exact ⟨"*", by simp [enforcedRule, asRule], s, hs', action, ha, rfl⟩

end

/-- **When the two checks of a scope agree.** For a token whose scope was accepted and a request its creator may make,
`DecideToken` and the stored rows give the same answer exactly when the request is not for a privileged port that only
an entry without ports covers. -/
theorem decideToken_agrees_iff (u : Unicode) (d : Document) (inv : Inventory) (limits : Limits)
    (h : (compile u d inv limits).2 = []) (token : Token) (htok : lastWith Token.id inv.tokens token.id = some token)
    (hv : (compile u d inv limits).1.validateScope u token.scope = []) (creator machine action : String) (p : Int)
    (h1 : 1 ≤ p) (h2 : p ≤ 65535)
    (hd : ((compile u d inv limits).1.decide creator ⟨.machine, machine⟩ action p).allowed = true) :
    (((compile u d inv limits).1.decideToken token.id creator ⟨.machine, machine⟩ action p).allowed = true ↔
      apiTokenScopeAllows (liveToken ((compile u d inv limits).1.scopeRows u token.scope).1)
        (memberRows (compile u d inv limits).1.tags) machine action (some p) = true) ↔
    (action = actionPrivateAccess → p < 1024 →
      (∃ e ∈ token.scope, e.ports = none ∧ e.Covers u d inv ⟨.machine, machine⟩ action) →
      ∃ e ∈ token.scope, ∃ ps, e.ports = some ps ∧ e.Covers u d inv ⟨.machine, machine⟩ action ∧
        portsContain ps p = true) := by
  have hok := (compile_errors u d inv limits).1 h
  rw [compile_eq h] at hv hd ⊢
  have hs := validateScope_ok hv
  have hscope : (compiled u d inv).scopes token.id = some (scopeBuilder u d inv token.scope).list := by
    show (lastWith Token.id inv.tokens token.id).map _ = _
    rw [htok]; rfl
  rw [decideToken_iff hok hs (by omega) hscope hd,
    scopeAllows_iff hok hs h1 h2 hv (decide_machine hok (by omega) hd)]
  have hsome : ∀ (e : ScopeEntry) ps, e.ports = some ps →
      e.asRule.portsOf = ps ∧ e.ports.getD allPorts = ps := by
    intro e ps he
    simp [asRule, Rule.portsOf, he]
  have hnone : ∀ e : ScopeEntry, e.ports = none → e.asRule.portsOf = [defaultPrivatePorts] ∧
      e.ports.getD allPorts = allPorts := by
    intro e he
    simp [asRule, Rule.portsOf, Rule.actions, he]
  have hdef : portsContain [defaultPrivatePorts] p = true ↔ 1024 ≤ p := by
    simp [portsContain, PortRange.contains, defaultPrivatePorts, h2]
  have hall := allPorts_contains h1 h2
  by_cases ha : action = actionPrivateAccess
  · simp only [ha, forall_true_left]
    constructor
    · -- agreement gives an entry whose own ports hold a privileged port
      rintro hagree hp ⟨e, he, hen, hcov⟩
      obtain ⟨e', he', hcov', hp'⟩ := hagree.2 ⟨e, he, hcov, by rw [(hnone e hen).2]; exact hall⟩
      cases hports : e'.ports with
      | none =>
        rw [(hnone e' hports).1, hdef] at hp'
        omega
      | some ps =>
        rw [(hsome e' ps hports).1] at hp'
        exact ⟨e', he', ps, hports, hcov', hp'⟩
    · intro hcond
      constructor
      · rintro ⟨e, he, hcov, hp⟩
        refine ⟨e, he, hcov, ?_⟩
        cases hports : e.ports with
        | none => exact hall
        | some ps =>
          rw [(hsome e ps hports).1] at hp
          exact hp
      · rintro ⟨e, he, hcov, hp⟩
        cases hports : e.ports with
        | some ps =>
          refine ⟨e, he, hcov, ?_⟩
          rw [(hsome e ps hports).1]
          rwa [hports] at hp
        | none =>
          by_cases hlow : p < 1024
          · obtain ⟨e', he', ps, hps, hcov', hp'⟩ := hcond hlow ⟨e, he, hports, hcov⟩
            exact ⟨e', he', hcov', by rwa [(hsome e' ps hps).1]⟩
          · exact ⟨e, he, hcov, by rw [(hnone e hports).1, hdef]; omega⟩
  · simp [ha]

/-- a token for private access to the shared machine, written without ports -/
def scopedToken : Token := ⟨"k1", "a2", [⟨["machine:db1"], ["private_access"], none⟩]⟩

def tokenTeam : Inventory := { smallTeam with tokens := [scopedToken] }

/-- everybody may reach the machine's ports 22 and 8080 -/
def portsPolicy : Document :=
  { allowPrivateAccess := some true, groups := [], tags := []
    rules := [⟨["*"], ["machine:db1"], some ["private_access"], none, some [⟨22, 22⟩, ⟨8080, 8080⟩], ""⟩]
    tests := [], groups_nodup := List.nodup_nil, tags_nodup := List.nodup_nil, ports_valid := by decide }

/-- both checks let the token reach port 8080 -/
theorem scopedToken_agrees :
    ((compile ascii portsPolicy tokenTeam {}).1.decideToken "k1" "a2"
      ⟨.machine, "m1"⟩ "private_access" 8080).allowed = true ↔
      apiTokenScopeAllows (liveToken ((compile ascii portsPolicy tokenTeam {}).1.scopeRows ascii scopedToken.scope).1)
        (memberRows (compile ascii portsPolicy tokenTeam {}).1.tags) "m1" "private_access" (some 8080) = true :=
  (decideToken_agrees_iff ascii portsPolicy tokenTeam {} (by decide +kernel) scopedToken (by decide +kernel)
    (by decide +kernel) "a2" "m1" "private_access" 8080 (by norm_num) (by norm_num) (by decide +kernel)).2
    fun _ hlow => absurd hlow (by norm_num)

/-- at port 22, which its creator may reach, the stored rows let the token through and `DecideToken` does not -/
theorem scopedToken_disagrees :
    (compile ascii portsPolicy tokenTeam {}).2 = [] ∧
    (compile ascii portsPolicy tokenTeam {}).1.validateScope ascii scopedToken.scope = [] ∧
    ((compile ascii portsPolicy tokenTeam {}).1.decide "a2" ⟨.machine, "m1"⟩ "private_access" 22).allowed = true ∧
    ¬ (((compile ascii portsPolicy tokenTeam {}).1.decideToken "k1" "a2"
      ⟨.machine, "m1"⟩ "private_access" 22).allowed = true ↔
      apiTokenScopeAllows (liveToken ((compile ascii portsPolicy tokenTeam {}).1.scopeRows ascii scopedToken.scope).1)
        (memberRows (compile ascii portsPolicy tokenTeam {}).1.tags) "m1" "private_access" (some 22) = true) := by
  decide +kernel

end Paperboat.Policy
