/-
Enforcement in the database (`server/internal/teams/policy_store.go`, migrations 128 and
148): the rows a saved policy writes, and the SQL functions
`workspace_policy_rule_ports` and `workspace_policy_ports` that resolve them per request
against the members of the team at that time.

An int4multirange is its list of ranges (`range_agg` is `mergePorts`, minus is
`subtractPorts`).

Results:
- `subject_matches`, `target_covers`: a stored row matches an account and a machine
  exactly when the written entry names them in the inventory of the request;
- `mem_matchingRows`: the rows that match a request are those of the rules about it;
- `stored_rows_decide`: rows stored for one inventory answer, over every inventory in
  which the written names still mean the same, as `Decide` does on a policy compiled
  afresh.

Witnesses:
- `grownTeam_exec`: rows stored before the team grew.
-/
import Paperboat.Policy.Decide

namespace Paperboat.Policy

open Text Search Fold

/-! ## Tables -/

/-- one row of workspace_policy_rules: a symbolic row with one of its port ranges -/
structure RuleRow where
  rule : ℕ
  deny : Bool
  subjectKind : SubjectKind
  subjectID : String
  targetKind : RowTarget
  targetID : String
  action : String
  ports : PortRange
deriving DecidableEq, Repr

/-- the tables of one policy, and its allow_private_access column -/
structure PolicyTables where
  rules : List RuleRow
  /-- group_name, account_id -/
  groups : List (String × String)
  /-- tag, machine_id -/
  tags : List (String × String)
  allowPrivateAccess : Bool

/-- one row per port range -/
def Row.ruleRows (r : Row) : List RuleRow :=
  r.ports.map fun p => ⟨r.rule, r.deny, r.subjectKind, r.subjectID, r.targetKind, r.targetID, r.action, p⟩

/-- a name with each of its members; a second insert of one pair does nothing -/
def memberRows (table : List (String × List String)) : List (String × String) :=
  dedup (table.flatMap fun g => g.2.map fun m => (g.1, m))

/-- replaces the enforcement rows of a policy -/
def storeRows (s : Stored) : PolicyTables :=
  ⟨s.rows.flatMap Row.ruleRows, memberRows s.groups, memberRows s.tags, s.allowPrivateAccess⟩

/-! ## The SQL functions -/

/-- actor_role: the role of each active membership of the actor -/
def actorRoles (inv : Inventory) (actor : String) : List String :=
  (inv.members.filter fun m => m.accountID = actor).map Member.role

/-- the target test of a row on a machine -/
def targetCovers (tags : List (String × String)) (kind : RowTarget) (id machine : String) : Bool :=
  match kind with
  | .allMachines => true
  | .one .machine => id == machine
  | .tag => tags.contains (id, machine)
  | _ => false

/-- the subject test of a row for an actor with a role -/
def subjectMatches (groups : List (String × String)) (kind : SubjectKind) (id actor role : String) : Bool :=
  match kind with
  | .all => true
  | .account => id == actor
  | .role => id == "member" || id == role || (id == "admin" && role == "owner")
  | .group => groups.contains (id, actor)
  | .token => false

/-- targeted: one branch per kind of target -/
def targeted (tb : PolicyTables) (machine capability : String) : List RuleRow :=
  let rows := tb.rules.filter fun r => r.action = capability
  (rows.filter fun r => r.targetKind = .one .machine && targetCovers tb.tags r.targetKind r.targetID machine) ++
    (rows.filter fun r => r.targetKind = .allMachines) ++
    (rows.filter fun r => r.targetKind = .tag && targetCovers tb.tags r.targetKind r.targetID machine)

/-- matching: every targeted row with every role of the actor -/
def matchingRows (tb : PolicyTables) (inv : Inventory) (actor machine capability : String) : List RuleRow :=
  (targeted tb machine capability).flatMap fun r =>
    ((actorRoles inv actor).filter fun role => subjectMatches tb.groups r.subjectKind r.subjectID actor role).map
      fun _ => r

def workspacePolicyRulePorts (tb : PolicyTables) (inv : Inventory) (actor machine capability : String) :
    List PortRange :=
  let rows := matchingRows tb inv actor machine capability
  subtractPorts (mergePorts ((rows.filter fun r => !r.deny).map RuleRow.ports))
    (mergePorts ((rows.filter fun r => r.deny).map RuleRow.ports))

/-- the same with the team switch: no private_access while allow_private_access is false -/
def workspacePolicyPorts (tb : PolicyTables) (inv : Inventory) (actor machine capability : String) : List PortRange :=
  if capability = actionPrivateAccess ∧ tb.allowPrivateAccess = false then []
  else workspacePolicyRulePorts tb inv actor machine capability

/-! ## Which rows match -/

theorem mem_memberRows (table : List (String × List String)) (name m : String) :
    (name, m) ∈ memberRows table ↔ ∃ ms, (name, ms) ∈ table ∧ m ∈ ms := by
  unfold memberRows
  simp only [mem_dedup, List.mem_flatMap, List.mem_map, Prod.mk.injEq, Prod.exists]
  constructor
  · rintro ⟨n, ms, hg, m', hm, rfl, rfl⟩; exact ⟨ms, hg, hm⟩
  · rintro ⟨ms, hg, hm⟩; exact ⟨name, ms, hg, m, hm, rfl, rfl⟩

variable (tb : PolicyTables)

theorem mem_targeted (machine capability : String) (r : RuleRow) :
    r ∈ targeted tb machine capability ↔
      r ∈ tb.rules ∧ r.action = capability ∧ targetCovers tb.tags r.targetKind r.targetID machine = true := by
  unfold targeted
  simp only [List.mem_append, List.mem_filter, decide_eq_true_eq, Bool.and_eq_true]
  constructor
  · rintro ((⟨⟨hr, ha⟩, _, hc⟩ | ⟨⟨hr, ha⟩, hk⟩) | ⟨⟨hr, ha⟩, _, hc⟩)
    · exact ⟨hr, ha, hc⟩
    · exact ⟨hr, ha, by rw [hk]; rfl⟩
    · exact ⟨hr, ha, hc⟩
  · rintro ⟨hr, ha, hc⟩
    cases hk : r.targetKind with
    | allMachines => exact .inl (.inr ⟨⟨hr, ha⟩, rfl⟩)
    | tag => exact .inr ⟨⟨hr, ha⟩, rfl, hk ▸ hc⟩
    | zero => rw [hk] at hc; exact absurd hc (by simp [targetCovers])
    | one k =>
      cases k with
      | machine => exact .inl (.inl ⟨⟨hr, ha⟩, rfl, hk ▸ hc⟩)
      | _ => rw [hk] at hc; exact absurd hc (by simp [targetCovers])

section

variable (inv : Inventory) (actor machine capability : String)

theorem mem_matchingRows (r : RuleRow) : r ∈ matchingRows tb inv actor machine capability ↔
      r ∈ tb.rules ∧ r.action = capability ∧ targetCovers tb.tags r.targetKind r.targetID machine = true ∧
        ∃ role ∈ actorRoles inv actor, subjectMatches tb.groups r.subjectKind r.subjectID actor role = true := by
  unfold matchingRows
  simp only [List.mem_flatMap, mem_targeted, List.mem_map, List.mem_filter]
  constructor
  · rintro ⟨r', ⟨hr, ha, hc⟩, role, ⟨hrole, hm⟩, rfl⟩; exact ⟨hr, ha, hc, role, hrole, hm⟩
  · rintro ⟨hr, ha, hc, role, hrole, hm⟩; exact ⟨r, ⟨hr, ha, hc⟩, role, ⟨hrole, hm⟩, rfl⟩

/-- a port is open when some allow row that matches holds it and no deny row does -/
theorem portsContain_rulePorts (n : Int) :
    portsContain (workspacePolicyRulePorts tb inv actor machine capability) n = true ↔
      (∃ r ∈ matchingRows tb inv actor machine capability, r.deny = false ∧ r.ports.contains n = true) ∧
      ¬ ∃ r ∈ matchingRows tb inv actor machine capability, r.deny = true ∧ r.ports.contains n = true := by
  have hside : ∀ b : Bool, portsContain (((matchingRows tb inv actor machine capability).filter
      fun r => r.deny == b).map RuleRow.ports) n = true ↔
      ∃ r ∈ matchingRows tb inv actor machine capability, r.deny = b ∧ r.ports.contains n = true := by
    intro b
    simp only [portsContain, List.any_map, List.any_filter, List.any_eq_true, Function.comp_apply, Bool.and_eq_true,
      beq_iff_eq]
  have h0 := hside false
  have h1 := hside true
  simp only [beq_false, beq_true] at h0 h1
  unfold workspacePolicyRulePorts
  rw [contains_subtractPorts, contains_mergePorts, contains_mergePorts, Bool.and_eq_true, Bool.not_eq_true', h0,
    ← Bool.not_eq_true, h1]

end

/-! ## Names that still mean the same -/

/-- the subjects a document writes: src entries and the entries of groups -/
def Document.subjects (d : Document) : List String := d.rules.flatMap Rule.src ++ d.groups.flatMap Prod.snd

/-- the targets a document writes: dst entries and the entries of tags -/
def Document.targets (d : Document) : List String := d.rules.flatMap Rule.dst ++ d.tags.flatMap Prod.snd

/-- every name the document writes resolves to the same ID in both inventories -/
structure SameNames (u : Unicode) (d : Document) (inv inv' : Inventory) : Prop where
  user : ∀ e ∈ d.subjects, (newIndex u inv).user u e = (newIndex u inv').user u e
  target : ∀ e ∈ d.targets, e ≠ "machine:*" → (newIndex u inv).target u e = (newIndex u inv').target u e

section

variable {e : String} {u : Unicode} {d : Document} {inv inv' : Inventory} {limits limits' : Limits}

/-- the stored rows of named lists hold what the entries resolve to -/
theorem mem_namedRows {nameOk : String → Bool} {entry : String → Except Problem String} {path what a : String}
    {lists : List (String × List String)} (hok : NamedOk nameOk entry lists) :
    (e, a) ∈ memberRows (compileNamed nameOk entry path what lists).2 ↔
      ∃ es, (e, es) ∈ lists ∧ a ∈ entryValues entry es := by
  rw [mem_memberRows]
  constructor
  · rintro ⟨ms, hm, ha⟩
    obtain ⟨es, hes, rfl⟩ := (mem_compileNamed hok).1 hm
    exact ⟨es, hes, ha⟩
  · rintro ⟨es, hes, ha⟩
    exact ⟨_, (mem_compileNamed hok).2 ⟨es, hes, rfl⟩, ha⟩

theorem mem_groupRows (hok : GroupsOk u (newIndex u inv) d.groups) (e a : String) :
    (e, a) ∈ memberRows (compileGroups u (newIndex u inv) d.groups).2 ↔
      ∃ es, (e, es) ∈ d.groups ∧ ∃ s ∈ es, (newIndex u inv).user u s = some a :=
  (mem_namedRows hok).trans (exists_congr fun _ => and_congr_right fun _ => mem_group_entries u _)

theorem mem_tagRows (hok : TagsOk u (newIndex u inv) d.tags) (e id : String) :
    (e, id) ∈ memberRows (compileTags u (newIndex u inv) d.tags).2 ↔
      ∃ es, (e, es) ∈ d.tags ∧ ∃ s ∈ es, (newIndex u inv).target u s = some ⟨.machine, id⟩ := by
  refine (mem_namedRows hok).trans (exists_congr fun es => and_congr_right fun hes => ?_)
  rw [← mem_tag_entries u _ (hok _ hes).2]
  simp

theorem mem_actorRoles (inv : Inventory) (actor role : String) :
    role ∈ actorRoles inv actor ↔ ∃ m ∈ inv.members, m.accountID = actor ∧ m.role = role := by
  simp [actorRoles, and_assoc]

theorem mem_ruleRows (x : Index) (i : ℕ) (rs : List Rule) (row : Row) :
    row ∈ ruleRows u x i rs ↔ ∃ p ∈ rs.zipIdx i, row ∈ symbolicRows u x p.2 p.1 := by
  induction rs generalizing i with
  | nil => simp [ruleRows]
  | cons r rs ih => simp [ruleRows, ih]

theorem exists_ruleRow (x : Index) (P : RuleRow → Prop) (hP : ∀ row i, P row ↔ P { row with rule := i }) :
    (∃ row ∈ (sortRows (ruleRows u x 0 d.rules)).flatMap Row.ruleRows, P row) ↔
      ∃ r ∈ d.rules, ∃ s ∈ r.src, ∃ e ∈ r.dst, ∃ a ∈ expandActions r.actions.1,
        ∃ p ∈ (if a = actionPrivateAccess then rowPorts r else allPorts),
          P ⟨0, r.actions.2, (symbolicSubject u x s).1, (symbolicSubject u x s).2, (symbolicTarget u x e).1,
            (symbolicTarget u x e).2, a, p⟩ := by
  simp only [List.mem_flatMap, sortRows, List.mem_insertionSort, mem_ruleRows, symbolicRows, List.mem_map, Row.ruleRows]
  constructor
  · rintro ⟨row, ⟨_, ⟨q, hq, s, hs, e, he, a, ha, rfl⟩, p, hp, rfl⟩, h⟩
    exact ⟨q.1, List.fst_mem_of_mem_zipIdx hq, s, hs, e, he, a, ha, p, hp, (hP _ 0).1 h⟩
  · rintro ⟨r, hr, s, hs, e, he, a, ha, p, hp, h⟩
    obtain ⟨i, hi, rfl⟩ := List.getElem_of_mem hr
    refine ⟨_, ⟨_, ⟨(d.rules[i], i), ?_, s, hs, e, he, a, ha, rfl⟩, p, hp, rfl⟩, (hP _ i).1 h⟩
    exact List.mk_mem_zipIdx_iff_getElem?.2 (List.getElem?_eq_getElem hi)

variable (hok : DocumentOk u d inv limits) (hok' : DocumentOk u d inv' limits') (hn : SameNames u d inv inv')
  {r : Rule} (hr : r ∈ d.rules)

include hok hok' hn hr

/-- the subject of a stored row matches the members its entry names now -/
theorem subject_matches {actor : String} (he : e ∈ r.src) (hm : ∃ m ∈ inv'.members, m.accountID = actor) :
    (∃ role ∈ actorRoles inv' actor, subjectMatches (memberRows (compileGroups u (newIndex u inv) d.groups).2)
      (symbolicSubject u (newIndex u inv) e).1 (symbolicSubject u (newIndex u inv) e).2 actor role = true) ↔
    NamesAccount u (newIndex u inv') d e actor := by
  obtain ⟨as, has⟩ := (hok'.rules r hr).src e he
  obtain ⟨m, hmem, hacc⟩ := hm
  have hrole : ∃ role, role ∈ actorRoles inv' actor := ⟨m.role, (mem_actorRoles _ _ _).2 ⟨m, hmem, hacc, rfl⟩⟩
  have hsame := hn.user e (List.mem_append_left _ (List.mem_flatMap.2 ⟨r, hr, he⟩))
  rw [← subjectEntry_names u _ d hok'.groups has actor]
  cases (subjectEntry_ok u _).1 has with
  | all hstar has =>
    subst has
    obtain ⟨role, hrole⟩ := hrole
    simp only [hstar, symbolicSubject, if_true, subjectMatches, and_true]
    exact ⟨fun _ => List.mem_map.2 ⟨m, hmem, hacc⟩, fun _ => ⟨role, hrole⟩⟩
  | user a hu has =>
    subst has
    have hk := user_kind u _ hu
    have hne := ne_star hk (by decide)
    obtain ⟨role, hrole⟩ := hrole
    simp only [symbolicSubject, if_neg hne, if_pos hk, hsame, hu, Option.getD_some, subjectMatches, beq_iff_eq,
      List.mem_singleton]
    exact ⟨fun ⟨_, _, h⟩ => h.symm, fun h => ⟨role, hrole, h.symm⟩⟩
  | group hk hl =>
    have hne := ne_star hk (by decide)
    obtain ⟨es, hes, rfl⟩ := (lookup_compileNamed d.groups_nodup hok'.groups).1 hl
    obtain ⟨role, hrole⟩ := hrole
    simp only [symbolicSubject, if_neg hne, hk, show ("group" : String) ≠ "user" by decide, if_false, if_true,
      subjectMatches, List.contains_iff_mem, mem_groupRows hok.groups, mem_group_entries]
    have hsame := fun s hs => hn.user s (List.mem_append_right _ (List.mem_flatMap.2 ⟨_, hes, hs⟩))
    constructor
    · rintro ⟨_, _, es', hes', s, hs, hu⟩
      obtain rfl : es = es' := congrArg Prod.snd (List.inj_on_of_nodup_map d.groups_nodup hes hes' rfl)
      exact ⟨s, hs, (hsame s hs).symm.trans hu⟩
    · rintro ⟨s, hs, hu⟩
      exact ⟨role, hrole, es, hes, s, hs, (hsame s hs).trans hu⟩
  | role name he _ has =>
    subst has he
    have hne := ne_star (k := "role") (congrArg Prod.fst (cut_role name)) (by decide)
    simp only [symbolicSubject, if_neg hne, cut_role, show ("role" : String) ≠ "user" by decide,
      show ("role" : String) ≠ "group" by decide, if_false, subjectMatches, List.mem_map, List.mem_filter,
      mem_actorRoles]
    constructor
    · rintro ⟨_, ⟨m', hm', ha, rfl⟩, h⟩; exact ⟨m', ⟨hm', h⟩, ha⟩
    · rintro ⟨m', ⟨hm', h⟩, ha⟩; exact ⟨_, ⟨m', hm', ha, rfl⟩, h⟩

omit hr in
/-- the target of a stored row covers the machines its entry names now -/
theorem target_covers {machine : String} {ts : List Target}
    (hts : targetEntry u (newIndex u inv') (compileTags u (newIndex u inv') d.tags).2 e = .ok ts)
    (hsame : e ≠ "machine:*" → (newIndex u inv).target u e = (newIndex u inv').target u e)
    (hmach : ∃ m ∈ inv'.machines, m.id = machine) :
    targetCovers (memberRows (compileTags u (newIndex u inv) d.tags).2) (symbolicTarget u (newIndex u inv) e).1
      (symbolicTarget u (newIndex u inv) e).2 machine = true ↔
        NamesTarget u (newIndex u inv') d e ⟨.machine, machine⟩ := by
  rw [← targetEntry_names u _ d hok'.tags hts]
  cases targetEntry_form u _ hts with
  | all he hts =>
    subst hts
    obtain ⟨m, hm, rfl⟩ := hmach
    simp only [he, symbolicTarget, if_true, targetCovers, List.mem_map, true_iff]
    exact ⟨m, hm, rfl⟩
  | tag hk ids hl hts =>
    subst hts
    obtain ⟨es, hes, rfl⟩ := (lookup_compileNamed d.tags_nodup hok'.tags).1 hl
    have hne : e ≠ "machine:*" := by rintro rfl; rw [cut_all] at hk; exact absurd hk (by decide)
    have hpre : hasPrefix e "tag:" = true := by
      obtain ⟨name, rfl⟩ := nameOk_eq (hok'.tags _ hes).1
      exact (hasPrefix_iff _ _).2 ⟨name, rfl⟩
    simp only [symbolicTarget, if_neg hne, hpre, if_true, targetCovers, List.contains_iff_mem, mem_tagRows hok.tags]
    rw [mem_tag_entries u _ (hok'.tags _ hes).2]
    -- an entry of a tag is never machine:*
    have hstar : ∀ s ∈ es, s ≠ "machine:*" := by
      rintro s hs rfl
      obtain ⟨id, hid⟩ := (hok'.tags _ hes).2 _ hs
      unfold tagEntry at hid
      rw [show ("machine:*" : String) = "machine:" ++ "*" from rfl, cutPrefix_append] at hid
      simp at hid
    have hsame := fun s hs => hn.target s (List.mem_append_right _ (List.mem_flatMap.2 ⟨_, hes, hs⟩)) (hstar s hs)
    constructor
    · rintro ⟨es', hes', s, hs, ht⟩
      obtain rfl : es = es' := congrArg Prod.snd (List.inj_on_of_nodup_map d.tags_nodup hes hes' rfl)
      exact ⟨s, hs, (hsame s hs).symm.trans ht⟩
    · rintro ⟨s, hs, ht⟩
      exact ⟨es, hes, s, hs, (hsame s hs).trans ht⟩
  | one he t ht hts =>
    subst hts
    have hpre : hasPrefix e "tag:" = false := by
      rw [Bool.eq_false_iff]
      intro h
      obtain ⟨name, rfl⟩ := (hasPrefix_iff _ _).1 h
      rw [target_tag u _ (by rw [cut_tag])] at ht
      cases ht
    simp only [symbolicTarget, if_neg he, hpre, hsame he, ht, List.mem_singleton, Bool.false_eq_true, if_false]
    obtain ⟨kind, id⟩ := t
    cases kind with
    | machine =>
      simp only [targetCovers, beq_iff_eq, Target.mk.injEq, true_and]
      exact eq_comm
    | _ => simp [targetCovers]

/-! ## Rows and rules -/

omit hr in
/-- the rows that match a request at a port are those of the rules about it -/
theorem exists_matchingRow {actor machine capability : String} (hm : ∃ m ∈ inv'.members, m.accountID = actor)
    (hmach : ∃ m ∈ inv'.machines, m.id = machine) (deny : Bool) {n : Int} (h1 : 1 ≤ n) (h2 : n ≤ 65535) :
    (∃ row ∈ matchingRows (storeRows (compiled u d inv).store) inv' actor machine capability,
      row.deny = deny ∧ row.ports.contains n = true) ↔
    ∃ r ∈ d.rules, r.actions.2 = deny ∧ r.Names u (newIndex u inv') d (actor, ⟨.machine, machine⟩, capability) ∧
      (capability = actionPrivateAccess → portsContain r.portsOf n = true) := by
  have hports : ∀ r : Rule, (∃ p ∈ (if capability = actionPrivateAccess then rowPorts r else allPorts),
      p.contains n = true) ↔ (capability = actionPrivateAccess → portsContain r.portsOf n = true) := by
    intro r
    have hrow : portsContain (rowPorts r) n = portsContain r.portsOf n := by
      unfold rowPorts Rule.portsOf
      cases r.ports with
      | none => rfl
      | some ps => exact contains_mergePorts ps n
    split_ifs with hc
    · rw [← hrow]; simp [hc, portsContain]
    · have := allPorts_contains h1 h2
      simpa [hc, portsContain] using this
  have hrows : (storeRows (compiled u d inv).store).rules =
      (sortRows (ruleRows u (newIndex u inv) 0 d.rules)).flatMap Row.ruleRows := rfl
  simp only [mem_matchingRows, hrows, and_assoc]
  rw [exists_ruleRow _ _ fun row i => Iff.rfl]
  refine exists_congr fun r => and_congr_right fun hr => ?_
  have htarget := fun e he => hn.target e (List.mem_append_left _ (List.mem_flatMap.2 ⟨r, hr, he⟩))
  constructor
  · rintro ⟨s, hs, e, he, a, ha, p, hp, rfl, htgt, hsub, hd, hn'⟩
    obtain ⟨ts, hts⟩ := (hok'.rules r hr).dst e he
    refine ⟨hd, ⟨⟨s, hs, (subject_matches hok hok' hn hr hs hm).1 hsub⟩, ⟨e, he, ?_⟩, ha⟩, (hports r).1 ⟨p, hp, hn'⟩⟩
    exact (target_covers hok hok' hn hts (htarget e he) hmach).1 htgt
  · rintro ⟨hd, ⟨⟨s, hs, hsub⟩, ⟨e, he, htgt⟩, ha⟩, hp⟩
    obtain ⟨ts, hts⟩ := (hok'.rules r hr).dst e he
    obtain ⟨p, hp, hn'⟩ := (hports r).2 hp
    refine ⟨s, hs, e, he, capability, ha, p, hp, rfl, ?_, (subject_matches hok hok' hn hr hs hm).2 hsub, hd, hn'⟩
    exact (target_covers hok hok' hn hts (htarget e he) hmach).2 htgt

end

/-- on a machine, a rule about the request names the machine -/
theorem about_machine {u : Unicode} {inv : Inventory} (r : Rule) (account machine action : String) :
    r.About u d inv account ⟨.machine, machine⟩ action ↔
      r.Names u (newIndex u inv) d (account, ⟨.machine, machine⟩, action) := by
  rw [about_iff (findsResource_machine u inv machine)]
  simp [Index.resourceOf, TargetKind.resource?]

/-- in a team, no capability of a machine comes from owning it -/
theorem owns_capability {c : Compiled} (hteam : c.x.inv.team = true) (account machine : String) {capability : String}
    (hc : capability ∈ machineCapabilities) : c.owns account ⟨.machine, machine⟩ capability = false := by
  have hins : inspector capability = false := by
    have : ∀ a ∈ machineCapabilities, inspector a = false := by decide
    exact this capability hc
  unfold Compiled.owns
  simp only [hteam, hins]
  cases c.x.byMachineID machine <;> simp

/-- **Stored rows need no recompilation.** The rows a team's policy stored against `inv` answer every request of a
member on a machine of `inv'` as the policy compiled against `inv'` does, whatever joined in between, while the names
it writes mean the same. -/
theorem stored_rows_decide (u : Unicode) (d : Document) (inv inv' : Inventory) (limits limits' : Limits)
    (hteam : inv.team = true) (hteam' : inv'.team = true) (h : (compile u d inv limits).2 = [])
    (h' : (compile u d inv' limits').2 = []) (hn : SameNames u d inv inv') (actor machine capability : String)
    (hm : ∃ m ∈ inv'.members, m.accountID = actor) (hmach : ∃ m ∈ inv'.machines, m.id = machine)
    (hc : capability ∈ machineCapabilities) (p : Int) (h1 : 1 ≤ p) (h2 : p ≤ 65535) :
    portsContain (workspacePolicyPorts (storeRows (compile u d inv limits).1.store) inv' actor machine capability) p =
      true ↔ ((compile u d inv' limits').1.decide actor ⟨.machine, machine⟩ capability p).allowed = true := by
  have hok := (compile_errors u d inv limits).1 h
  have hok' := (compile_errors u d inv' limits').1 h'
  have hM := compile_means h'
  have hsw : (compiled u d inv).store.allowPrivateAccess = true ↔ PrivateAccessOn d inv' := by
    simp [compiled, Compiled.store, hteam, PrivateAccessOn, hteam']
  have hrules : portsContain (workspacePolicyRulePorts
      (storeRows (compiled u d inv).store) inv' actor machine capability)
      p = true ↔ (∃ r ∈ d.rules, r.actions.2 = false ∧ r.About u d inv' actor ⟨.machine, machine⟩ capability ∧
        (capability = actionPrivateAccess → portsContain r.portsOf p = true)) ∧
      ¬ ∃ r ∈ d.rules, r.actions.2 = true ∧ r.About u d inv' actor ⟨.machine, machine⟩ capability ∧
        (capability = actionPrivateAccess → portsContain r.portsOf p = true) := by
    simp only [about_machine]
    rw [portsContain_rulePorts, exists_matchingRow hok hok' hn hm hmach false h1 h2,
      exists_matchingRow hok hok' hn hm hmach true h1 h2]
  rw [decide_port (findsResource_machine u inv' machine) hM hm capability (by omega),
    owns_capability (by rw [hM.x_eq]; exact hteam') actor machine hc, compile_eq h]
  simp only [Bool.false_eq_true, false_or]
  unfold workspacePolicyPorts RulesAllow Rule.Matches
  split_ifs with hoff
  · -- the switch is off: neither side lets private_access through
    have hnot : ¬ PrivateAccessOn d inv' := fun hon => Bool.eq_false_iff.1 hoff.2 (hsw.2 hon)
    simp [hoff.1, hnot]
  · rw [hrules]
    have hon : capability = actionPrivateAccess → PrivateAccessOn d inv' := fun hpa => by
      rw [← hsw]
      by_contra hne
      exact hoff ⟨hpa, Bool.eq_false_iff.2 hne⟩
    have himp : ∀ r : Rule, (capability = actionPrivateAccess → portsContain r.portsOf p = true) ↔
        (capability = actionPrivateAccess → portsContain r.portsOf p = true ∧ PrivateAccessOn d inv') := fun r =>
      ⟨fun h hpa => ⟨h hpa, hon hpa⟩, fun h hpa => (h hpa).1⟩
    simp only [himp]

/-- the small team after a third member joined and a second machine was shared -/
def grownTeam : Inventory :=
  { smallTeam with
    members := smallTeam.members ++ [⟨"a3", "eve@x.io", "admin"⟩]
    machines := smallTeam.machines ++ [{ id := "m2", aliasName := "db2", personalOwner := "a3" }] }

/-- the rows stored before the team grew let bob run commands on the first machine, as the policy does -/
theorem grownTeam_exec :
    portsContain (workspacePolicyPorts (storeRows (compile ascii smallPolicy smallTeam {}).1.store) grownTeam "a2" "m1"
      "exec") 22 = true ∧
    ((compile ascii smallPolicy grownTeam {}).1.decide "a2" ⟨.machine, "m1"⟩ "exec" 22).allowed = true := by
  have hrows : portsContain (workspacePolicyPorts
      (storeRows (compile ascii smallPolicy smallTeam {}).1.store) grownTeam "a2"
      "m1" "exec") 22 = true := by decide +kernel
  refine ⟨hrows, (stored_rows_decide ascii smallPolicy smallTeam grownTeam {} {} rfl rfl (by decide +kernel)
    (by decide +kernel) ⟨by decide +kernel, by decide +kernel⟩ "a2" "m1" "exec" (by decide) (by decide)
    (by decide) 22 (by norm_num) (by norm_num)).1 hrows⟩

end Paperboat.Policy
