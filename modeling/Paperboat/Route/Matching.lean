/-
Matching a request against a generation's rules
(`tunnel/internal/route/matching_rules.go`) and the conflicts a generation is checked
for when it is staged (`normalizeRules` in `tunnel/internal/route/matcher.go`).

At request time the rules the index lists for a host are folded over, and a rule that
ties with the best so far is an error. At stage time pairs of rules are compared on
representative hosts. Both are connected to one order: `rank`, which belongs to the rule
alone.

Results:
- `indexed_eq_scan`: the index chooses like a scan of all rules.
-/
import Paperboat.Core.Greatest
import Paperboat.Core.Search
import Paperboat.Route.Rules

namespace Paperboat.Route

open Text Search Greatest

/-! ## Request time -/

def routeAccepting (r : RouteRule) : Bool := r.desiredState ∉ ["disabled", "deleted", "expired", "removed"]

/-- host class, labels of the wildcard suffix, and whether the rule matches the host -/
def hostMatch (r : RouteRule) (host : String) : ℕ × ℕ × Bool :=
  if r.matchType = matchExact ∨ r.matchType = matchManagedExact then (3, 0, host == r.hostname)
  else if r.matchType = matchOneLabelWildcard then
    if host = r.wildcardSuffix ∨ !hasSuffix host ("." ++ r.wildcardSuffix) then (0, 0, false)
    else
      let label := trimSuffix host ("." ++ r.wildcardSuffix)
      if label = "" ∨ contains label "." then (0, 0, false) else (2, count r.wildcardSuffix '.' + 1, true)
  else if r.matchType = matchCatchAll then
    -- a tunnel's catch-all is scoped to its own name and ranks like an exact match on it
    if r.hostname ≠ "" then (3, 0, r.hostname == host) else (1, 0, true)
  else (0, 0, false)

def pathMatches (pathPrefix path : String) : Bool :=
  pathPrefix == "/" || path == pathPrefix || hasPrefix path (pathPrefix ++ "/")

structure RouteCandidate where
  rule : RouteRule
  hostClass : ℕ
  suffixLabels : ℕ

def compareInt (left right : ℕ) : Int := if left < right then -1 else if left > right then 1 else 0

def compareCandidates (left right : RouteCandidate) : Int :=
  if left.hostClass ≠ right.hostClass then compareInt left.hostClass right.hostClass
  else if left.suffixLabels ≠ right.suffixLabels then compareInt left.suffixLabels right.suffixLabels
  else if left.rule.pathPrefix.utf8ByteSize ≠ right.rule.pathPrefix.utf8ByteSize then
    compareInt left.rule.pathPrefix.utf8ByteSize right.rule.pathPrefix.utf8ByteSize
  else if left.rule.priority ≠ right.rule.priority then
    -- lower priority numbers are preferred
    if left.rule.priority < right.rule.priority then 1 else -1
  else 0

/-- positions of the rules that can match a host, by the rule's own name -/
structure RuleIndex where
  byHost : String → List ℕ
  bySuffix : String → List ℕ
  always : List ℕ

/-- the positions of the rules with a property -/
def positions (rules : List RouteRule) (p : RouteRule → Bool) : List ℕ :=
    (rules.zipIdx.filter fun q => p q.1).map Prod.snd

/-- exact rules and named catch-alls are found by hostname -/
def byName (r : RouteRule) : Bool :=
  r.matchType == matchExact || r.matchType == matchManagedExact || (r.matchType == matchCatchAll && r.hostname != "")

def newRuleIndex (rules : List RouteRule) : RuleIndex where
  byHost host := positions rules fun r => byName r && r.hostname == host
  bySuffix suffix := positions rules fun r => !byName r && r.matchType == matchOneLabelWildcard &&
    r.wildcardSuffix == suffix
  always := positions rules fun r => !byName r && r.matchType != matchOneLabelWildcard && r.matchType == matchCatchAll

/-- the positions of the rules that can match the host, in rule order -/
def RuleIndex.candidates (x : RuleIndex) (host : String) : List ℕ :=
  (x.byHost host ++ (if (cut host ".").2.2 then x.bySuffix (cut host ".").2.1 else []) ++
    x.always).insertionSort (· ≤ ·)

/-- the loop of chooseRuleFrom: the best candidate so far, and the rules left -/
def chooseLoop (host path : String) : Option RouteCandidate → List RouteRule → Except RouteError RouteRule
  | none, [] => .error .noMatch
  | some best, [] => .ok best.rule
  | best, r :: rs =>
    if routeAccepting r = false then chooseLoop host path best rs
    else if (hostMatch r host).2.2 = false ∨ pathMatches r.pathPrefix path = false then chooseLoop host path best rs
    else
      let candidate : RouteCandidate := ⟨r, (hostMatch r host).1, (hostMatch r host).2.1⟩
      match best with
      | none => chooseLoop host path (some candidate) rs
      | some b =>
        if compareCandidates candidate b > 0 then chooseLoop host path (some candidate) rs
        else if compareCandidates candidate b = 0 then .error .matchConflict
        else chooseLoop host path (some b) rs

/-- among the rules, or only among those the index lists for the host, in rule order -/
def chooseRuleFrom (rules : List RouteRule) (index : Option RuleIndex) (host path : String) :
    Except RouteError RouteRule :=
  match index with
  | none => chooseLoop host path none rules
  | some x => chooseLoop host path none ((x.candidates host).filterMap fun i => rules[i]?)

def chooseRule (rules : List RouteRule) (host path : String) : Except RouteError RouteRule :=
    chooseRuleFrom rules none host path

/-! ## Stage time -/

def isExactMatchType (matchType : String) : Bool := matchType == matchExact || matchType == matchManagedExact

def exactFallsUnderWildcard (host suffix : String) : Bool :=
  if host = suffix ∨ !hasSuffix host ("." ++ suffix) then false else !contains (trimSuffix host ("." ++ suffix)) "."

/-- a catch-all without a hostname matches every name; a tunnel's overlaps only rules that can match its own -/
def catchAllHostsOverlap (a b : RouteRule) : Bool :=
  let left := if a.matchType ≠ matchCatchAll then b else a
  let right := if a.matchType ≠ matchCatchAll then a else b
  if left.hostname = "" then true
  else if right.matchType = matchCatchAll then right.hostname == "" || right.hostname == left.hostname
  else (hostMatch right left.hostname).2.2

def hostsOverlap (left right : RouteRule) : Bool :=
  if left.matchType = matchCatchAll ∨ right.matchType = matchCatchAll then catchAllHostsOverlap left right
  else if isExactMatchType left.matchType ∧ isExactMatchType right.matchType then left.hostname == right.hostname
  else if left.matchType = matchOneLabelWildcard ∧ right.matchType = matchOneLabelWildcard then
    left.wildcardSuffix == right.wildcardSuffix
  else if isExactMatchType left.matchType ∧ right.matchType = matchOneLabelWildcard then
    exactFallsUnderWildcard left.hostname right.wildcardSuffix
  else if isExactMatchType right.matchType ∧ left.matchType = matchOneLabelWildcard then
    exactFallsUnderWildcard right.hostname left.wildcardSuffix
  else false

def rulesOverlap (left right : RouteRule) : Bool :=
  hostsOverlap left right && (pathMatches left.pathPrefix right.pathPrefix ||
    pathMatches right.pathPrefix left.pathPrefix)

/-- the host a rule is compared on -/
def overlapHost (r : RouteRule) : String :=
  if r.matchType = matchExact ∨ r.matchType = matchManagedExact then r.hostname
  else if r.matchType = matchOneLabelWildcard then "edge." ++ r.wildcardSuffix
  else if r.matchType = matchCatchAll ∧ r.hostname ≠ "" then r.hostname
  else "edge.example.test"

def overlapCandidate (r : RouteRule) : RouteCandidate :=
  ⟨r, (hostMatch r (overlapHost r)).1, (hostMatch r (overlapHost r)).2.1⟩

/-- two rules overlap and neither comes first -/
def conflicting (left right : RouteRule) : Bool :=
  rulesOverlap left right && compareCandidates (overlapCandidate left) (overlapCandidate right) == 0

/-- the loop over all pairs -/
def anyConflict : List RouteRule → Bool
  | [] => false
  | r :: rs => rs.any (conflicting r) || anyConflict rs

section

variable (u : Unicode) (toASCII : String → Option String) (generation : ℕ)

/-- one round of the loop: `done` are the rules normalized before -/
def addRule (done : List RouteRule) (r : RouteRule) : Except RouteError (List RouteRule) :=
  match normalizeRule u toASCII generation r with
  | .error e => .error e
  | .ok n => if n.id ∈ done.map RouteRule.id then .error .matchConflict else .ok (done ++ [n])

def normalizeEach (done rules : List RouteRule) : Except RouteError (List RouteRule) :=
  rules.foldlM (addRule u toASCII generation) done

def normalizeRules (rules : List RouteRule) (maximum : ℕ) : Except RouteError (List RouteRule) :=
  if rules.length > maximum then .error .invalid
  else
    match normalizeEach u toASCII generation [] rules with
    | .error e => .error e
    | .ok result =>
      if anyConflict (sortBy RouteRule.id result) then .error .matchConflict else .ok (sortBy RouteRule.id result)

end

/-! ## The order of the rules -/

/-- host class and suffix labels, which belong to the rule whatever host it matches -/
def hostClass (r : RouteRule) : ℕ × ℕ :=
  if byName r then (3, 0)
  else if r.matchType = matchOneLabelWildcard then (2, count r.wildcardSuffix '.' + 1)
  else if r.matchType = matchCatchAll then (1, 0)
  else (0, 0)

/-- host class, suffix labels, length of the path, lower priority number: the lexicographic order -/
abbrev Rank := ℕ ×ₗ ℕ ×ₗ ℕ ×ₗ Intᵒᵈ

def RouteCandidate.rank (c : RouteCandidate) : Rank :=
  toLex (c.hostClass, toLex (c.suffixLabels, toLex (c.rule.pathPrefix.utf8ByteSize, OrderDual.toDual c.rule.priority)))

def rank (r : RouteRule) : Rank := RouteCandidate.rank ⟨r, (hostClass r).1, (hostClass r).2⟩

/-- the three kinds of names a rule can be found by exclude each other -/
theorem matchType_cases (r : RouteRule) :
    (byName r = true ∧ r.matchType ≠ matchOneLabelWildcard) ∨
      (byName r = false ∧ r.matchType = matchOneLabelWildcard) ∨
      (byName r = false ∧ r.matchType = matchCatchAll ∧ r.hostname = "") ∨
      (byName r = false ∧ r.matchType ≠ matchExact ∧ r.matchType ≠ matchManagedExact ∧
        r.matchType ≠ matchOneLabelWildcard ∧ r.matchType ≠ matchCatchAll) := by
  unfold byName
  by_cases h1 : r.matchType = matchExact
  · simp [h1, matchExact, matchOneLabelWildcard]
  by_cases h2 : r.matchType = matchManagedExact
  · simp [h2, matchManagedExact, matchOneLabelWildcard]
  by_cases h3 : r.matchType = matchOneLabelWildcard
  · simp [h3, matchExact, matchManagedExact, matchOneLabelWildcard, matchCatchAll]
  by_cases h4 : r.matchType = matchCatchAll
  · by_cases h5 : r.hostname = "" <;> simp [h4, h5, matchExact, matchManagedExact, matchOneLabelWildcard, matchCatchAll]
  · simp [h1, h2, h3, h4]

variable {r : RouteRule}

theorem hostMatch_byName (h : byName r = true) (host : String) : hostMatch r host = (3, 0, host == r.hostname) := by
  simp only [byName, Bool.or_eq_true, Bool.and_eq_true, beq_iff_eq, bne_iff_ne, ne_eq] at h
  unfold hostMatch
  rcases h with (h | h) | ⟨h, hn⟩
  · simp [h]
  · simp [h]
  · simp [h, hn, matchExact, matchManagedExact, matchOneLabelWildcard, matchCatchAll, Bool.beq_comm]

theorem hostMatch_catchAll (h : r.matchType = matchCatchAll) (hn : r.hostname = "") (host : String) :
    hostMatch r host = (1, 0, true) := by
  simp [hostMatch, h, hn, matchExact, matchManagedExact, matchOneLabelWildcard, matchCatchAll]

theorem dot_toList : ("." : String).toList = ['.'] := rfl

/-- a one-label wildcard matches one non-empty label in front of its suffix -/
theorem hostMatch_wildcard (h : r.matchType = matchOneLabelWildcard) (host : String) :
    ((hostMatch r host).2.2 = true ↔ ∃ label, label ≠ "" ∧ '.' ∉ label.toList ∧
      host = label ++ "." ++ r.wildcardSuffix) ∧
      ((hostMatch r host).2.2 = true →
        ((hostMatch r host).1, (hostMatch r host).2.1) = (2, count r.wildcardSuffix '.' + 1)) := by
  have hdot : ∀ t : String, contains t "." = true ↔ '.' ∈ t.toList := fun t => contains_iff dot_toList t
  simp only [hostMatch, h, matchExact, matchManagedExact, matchOneLabelWildcard, matchCatchAll]
  simp only [String.reduceEq, or_self, if_false, if_true]
  split_ifs with h1 h2
  · refine ⟨⟨nofun, ?_⟩, nofun⟩
    rintro ⟨label, hne, hdl, rfl⟩
    rcases h1 with h1 | h1
    · have := congrArg (fun t : String => t.toList.length) h1
      simp at this
      omega
    · have : hasSuffix (label ++ "." ++ r.wildcardSuffix) ("." ++ r.wildcardSuffix) = true :=
        (hasSuffix_iff _ _).2 ⟨label, by rw [String.append_assoc]⟩
      rw [this] at h1; simp at h1
  · refine ⟨⟨nofun, ?_⟩, nofun⟩
    rintro ⟨label, hne, hdl, rfl⟩
    rw [String.append_assoc, trimSuffix_append, hdot] at h2
    exact (h2.elim hne hdl).elim
  · refine ⟨⟨fun _ => ?_, fun _ => rfl⟩, fun _ => rfl⟩
    simp only [not_or, Bool.not_eq_true', Bool.not_eq_false] at h1 h2
    obtain ⟨label, rfl⟩ := (hasSuffix_iff _ _).1 h1.2
    rw [trimSuffix_append, hdot] at h2
    exact ⟨label, h2.1, h2.2, (String.append_assoc ..).symm⟩

variable {host : String}

/-- a host a rule matches is matched with the rule's own class -/
theorem hostMatch_class (h : (hostMatch r host).2.2 = true) :
    ((hostMatch r host).1, (hostMatch r host).2.1) = hostClass r := by
  rcases matchType_cases r with ⟨hb, hw⟩ | ⟨hb, hw⟩ | ⟨hb, hc, hn⟩ | ⟨hb, h1, h2, h3, h4⟩
  · simp [hostMatch_byName hb, hostClass, hb]
  · rw [(hostMatch_wildcard hw host).2 h]
    simp [hostClass, hb, hw]
  · simp [hostMatch_catchAll hc hn, hostClass, hb, hc, matchCatchAll, matchOneLabelWildcard]
  · simp [hostMatch, h1, h2, h3, h4] at h

theorem compareInt_pos (a b : ℕ) : compareInt a b > 0 ↔ b < a := by
  unfold compareInt
  split_ifs with h1 h2 <;> simp <;> omega

theorem compareInt_ne_zero {a b : ℕ} (h : a ≠ b) : compareInt a b ≠ 0 := by
  unfold compareInt
  split_ifs with h1 h2
  · simp
  · simp
  · omega

/-- the comparison is the order of the ranks -/
theorem compareCandidates_pos (left right : RouteCandidate) :
    compareCandidates left right > 0 ↔ right.rank < left.rank := by
  unfold compareCandidates RouteCandidate.rank
  simp only [Prod.Lex.toLex_lt_toLex]
  split_ifs with h1 h2 h3 h4 h5
  · rw [compareInt_pos]
    exact ⟨.inl, fun h => h.resolve_right fun h => h1 h.1.symm⟩
  · rw [compareInt_pos]
    simp only [not_not] at h1
    simp only [h1, lt_irrefl, true_and, false_or]
    exact ⟨.inl, fun h => h.resolve_right fun h => h2 h.1.symm⟩
  · rw [compareInt_pos]
    simp only [not_not] at h1 h2
    simp only [h1, h2, lt_irrefl, true_and, false_or]
    exact ⟨.inl, fun h => h.resolve_right fun h => h3 h.1.symm⟩
  · simp only [not_not] at h1 h2 h3
    simp [h1, h2, h3, h5]
  · simp only [not_not] at h1 h2 h3
    simp [h1, h2, h3, h5]
  · simp only [not_not] at h1 h2 h3 h4
    simp [h1, h2, h3, h4]

theorem compareCandidates_eq_zero (left right : RouteCandidate) :
    compareCandidates left right = 0 ↔ left.rank = right.rank := by
  unfold compareCandidates RouteCandidate.rank
  split_ifs with h1 h2 h3 h4 h5
  · simp [compareInt_ne_zero h1, h1]
  · simp [compareInt_ne_zero h2, h2]
  · simp [compareInt_ne_zero h3, h3]
  · simp [h4]
  · simp [h4]
  · simp only [not_not] at h1 h2 h3 h4
    simp [h1, h2, h3, h4]

/-! ## Choosing a rule -/

/-- the rule accepts requests and matches this one -/
def eligible (host path : String) (r : RouteRule) : Bool :=
  routeAccepting r && (hostMatch r host).2.2 && pathMatches r.pathPrefix path

def Choice.result : Choice RouteRule → Except RouteError RouteRule
  | .none => .error .noMatch
  | .tie => .error .matchConflict
  | .one r => .ok r

theorem foldl_tie (l : List RouteRule) : l.foldl (Choice.add rank) .tie = .tie := by
  induction l with
  | nil => rfl
  | cons r rs ih => exact ih

/-- the loop keeps the greatest eligible rule, whatever it starts from -/
theorem chooseLoop_eq (host path : String) (rules : List RouteRule) (best : Option RouteCandidate)
    (hbest : ∀ b ∈ best, (b.hostClass, b.suffixLabels) = hostClass b.rule) :
    chooseLoop host path best rules = Choice.result ((rules.filter (eligible host path)).foldl (Choice.add rank)
      (best.elim .none fun b => .one b.rule)) := by
  induction rules generalizing best with
  | nil => cases best <;> rfl
  | cons r rs ih =>
    by_cases he : eligible host path r = true
    · have he' := he
      simp only [eligible, Bool.and_eq_true] at he'
      obtain ⟨⟨ha, hm⟩, hp⟩ := he'
      have hclass := hostMatch_class hm
      have hcand : ∀ b ∈ some (⟨r, (hostMatch r host).1, (hostMatch r host).2.1⟩ : RouteCandidate),
          (b.hostClass, b.suffixLabels) = hostClass b.rule := by
        rintro b ⟨⟩; exact hclass
      have hrank : RouteCandidate.rank ⟨r, (hostMatch r host).1, (hostMatch r host).2.1⟩ = rank r := by
        unfold rank
        rw [← hclass]
      rw [List.filter_cons_of_pos he, List.foldl_cons]
      cases best with
      | none =>
        simp only [chooseLoop, ha, hm, hp, Bool.true_eq_false, if_false, or_self]
        exact ih _ hcand
      | some b =>
        have hb : b.rank = rank b.rule := by
          have hb := hbest b rfl
          unfold rank
          rw [← hb]
        simp only [chooseLoop, ha, hm, hp, Bool.true_eq_false, if_false, or_self, compareCandidates_pos,
          compareCandidates_eq_zero, hrank, hb, Option.elim_some, Choice.add]
        split_ifs with h1 h2 h3 h3
        · exact ih _ hcand
        · exact absurd h3 (h2 ▸ lt_irrefl _)
        · rw [foldl_tie]; rfl
        · exact ih _ hbest
        · exact absurd (le_antisymm (not_lt.1 h1) (not_lt.1 h3)) h2
    · have hskip : chooseLoop host path best (r :: rs) = chooseLoop host path best rs := by
        simp only [eligible, Bool.and_eq_true, not_and_or, Bool.not_eq_true] at he
        cases best <;> rcases he with (ha | hm) | hp <;> simp [chooseLoop, *]
      rw [hskip, List.filter_cons_of_neg he]
      exact ih best hbest

/-! ## The index -/

theorem positions_sorted (rules : List RouteRule) (p : RouteRule → Bool) : (positions rules p).Pairwise (· < ·) := by
  have hsub : ((rules.zipIdx.filter fun q => p q.1).map Prod.snd).Sublist (rules.zipIdx.map Prod.snd) :=
    List.filter_sublist.map Prod.snd
  refine List.Pairwise.sublist hsub ?_
  rw [List.zipIdx_map_snd]
  exact List.pairwise_lt_range' 1

variable {rules : List RouteRule}

theorem mem_positions {p : RouteRule → Bool} {i : ℕ} :
    i ∈ positions rules p ↔ ∃ r, rules[i]? = some r ∧ p r = true := by
  simp only [positions, List.mem_map, List.mem_filter, Prod.exists, List.mk_mem_zipIdx_iff_getElem?]
  constructor
  · rintro ⟨r, j, ⟨hr, hp⟩, rfl⟩; exact ⟨r, hr, hp⟩
  · rintro ⟨r, hr, hp⟩; exact ⟨r, i, ⟨hr, hp⟩, rfl⟩

section

variable (rules : List RouteRule)

/-- the rules at the positions of a property are the rules with it, in order -/
theorem positions_rules (p : RouteRule → Bool) :
    ((positions rules p).filterMap fun i => rules[i]?) = rules.filter p := by
  have hgen : ∀ (l : List (RouteRule × ℕ)), (∀ q ∈ l, rules[q.2]? = some q.1) →
      ((l.filter fun q => p q.1).map Prod.snd).filterMap (fun i => rules[i]?) = (l.map Prod.fst).filter p := by
    intro l hl
    induction l with
    | nil => rfl
    | cons q l ih =>
      have hq := hl q List.mem_cons_self
      have ih := ih fun q' hq' => hl q' (List.mem_cons_of_mem q hq')
      rw [List.filter_cons, List.map_cons, List.filter_cons]
      split_ifs with hp
      · rw [List.map_cons, List.filterMap_cons_some hq, ih]
      · exact ih
  have := hgen rules.zipIdx fun q hq => List.mk_mem_zipIdx_iff_getElem?.1 hq
  rwa [List.zipIdx_map_fst] at this

/-- the index lists the rule for the host -/
def listed (host : String) (r : RouteRule) : Bool :=
  if byName r then r.hostname == host
  else if r.matchType = matchOneLabelWildcard then (cut host ".").2.2 && r.wildcardSuffix == (cut host ".").2.1
  else r.matchType == matchCatchAll

theorem positions_nodup (p : RouteRule → Bool) : (positions rules p).Nodup :=
  (positions_sorted rules p).imp fun h => Nat.ne_of_lt h

theorem positions_disjoint {p q : RouteRule → Bool} (h : ∀ r, p r = true → q r = false) :
    List.Disjoint (positions rules p) (positions rules q) := by
  intro i hp hq
  obtain ⟨r, hr, hpr⟩ := mem_positions.1 hp
  obtain ⟨r', hr', hqr⟩ := mem_positions.1 hq
  rw [hr, Option.some.injEq] at hr'
  rw [← hr', h r hpr] at hqr
  cases hqr

/-- the positions of the three maps for a host, before they are sorted -/
theorem mem_found (host : String) (i : ℕ) :
    i ∈ (newRuleIndex rules).byHost host ++
      (if (cut host ".").2.2 then (newRuleIndex rules).bySuffix (cut host ".").2.1 else []) ++
        (newRuleIndex rules).always ↔
    i ∈ positions rules (listed host) := by
  simp only [newRuleIndex, List.mem_append, List.mem_ite_nil_right, mem_positions]
  cases hr : rules[i]? with
  | none => simp
  | some r =>
    simp only [Option.some.injEq, exists_eq_left', listed]
    rcases matchType_cases r with ⟨hb, hw⟩ | ⟨hb, hw⟩ | ⟨hb, hc, hn⟩ | ⟨hb, h1, h2, h3, h4⟩
    · simp [hb]
    · simp [hb, hw, matchOneLabelWildcard, matchCatchAll]
    · simp [hb, hc, matchOneLabelWildcard, matchCatchAll]
    · simp [hb, h3, h4]

theorem found_nodup (host : String) :
    ((newRuleIndex rules).byHost host ++
      (if (cut host ".").2.2 then (newRuleIndex rules).bySuffix (cut host ".").2.1 else []) ++
        (newRuleIndex rules).always).Nodup := by
  have hname : ∀ p : RouteRule → Bool, List.Disjoint (positions rules fun r => byName r && r.hostname == host)
      (positions rules fun r => !byName r && p r) := by
    intro p
    refine positions_disjoint rules fun r h => ?_
    rw [Bool.and_eq_true] at h
    simp [h.1]
  have hsuffix : List.Disjoint
      (positions rules fun r => !byName r && r.matchType == matchOneLabelWildcard &&
        r.wildcardSuffix == (cut host ".").2.1)
      (positions rules fun r => !byName r && r.matchType != matchOneLabelWildcard && r.matchType == matchCatchAll) := by
    refine positions_disjoint rules fun r h => ?_
    simp only [Bool.and_eq_true] at h
    simp [bne, h.1.2]
  simp only [Bool.and_assoc] at hsuffix
  simp only [newRuleIndex, Bool.and_assoc]
  split_ifs
  · refine ((positions_nodup _ _).append (positions_nodup _ _) (hname _)).append (positions_nodup _ _) ?_
    exact List.disjoint_append_left.2 ⟨hname _, hsuffix⟩
  · rw [List.append_nil]
    exact (positions_nodup _ _).append (positions_nodup _ _) (hname _)

/-- the candidates of a host are the listed rules, in rule order -/
theorem candidates_rules (host : String) :
    (((newRuleIndex rules).candidates host).filterMap fun i => rules[i]?) = rules.filter (listed host) := by
  have hperm := (List.perm_ext_iff_of_nodup (found_nodup rules host) (positions_nodup rules (listed host))).2
    (mem_found rules host)
  have heq : (newRuleIndex rules).candidates host = positions rules (listed host) :=
    List.Perm.eq_of_pairwise (fun a b _ _ hab hba => le_antisymm hab hba) (List.pairwise_insertionSort _ _)
      ((positions_sorted _ _).imp fun h => Nat.le_of_lt h) ((List.perm_insertionSort _ _).trans hperm)
  rw [heq, positions_rules]

theorem listed_of_match (h : (hostMatch r host).2.2 = true) : listed host r = true := by
  unfold listed
  rcases matchType_cases r with ⟨hb, hw⟩ | ⟨hb, hw⟩ | ⟨hb, hc, hn⟩ | ⟨hb, h1, h2, h3, h4⟩
  · rw [hostMatch_byName hb] at h
    simpa [hb, Bool.beq_comm] using h
  · obtain ⟨label, _, hdot, rfl⟩ := (hostMatch_wildcard hw host).1.1 h
    simp [hb, hw, cut_sep dot_toList label r.wildcardSuffix hdot]
  · simp [hb, hc, matchCatchAll, matchOneLabelWildcard]
  · simp [hostMatch, h1, h2, h3, h4] at h

/-- with the index the greatest eligible rule is chosen -/
theorem chooseRuleFrom_eq (host path : String) :
    chooseRuleFrom rules (some (newRuleIndex rules)) host path =
      Choice.result (greatest rank (rules.filter (eligible host path))) := by
  have hfilter : (rules.filter (listed host)).filter (eligible host path) = rules.filter (eligible host path) := by
    rw [List.filter_filter]
    refine List.filter_congr fun r _ => ?_
    cases he : eligible host path r with
    | false => rfl
    | true =>
      simp only [eligible, Bool.and_eq_true] at he
      rw [listed_of_match he.1.2]; rfl
  rw [chooseRuleFrom, candidates_rules, chooseLoop_eq _ _ _ none (by simp), hfilter]
  rfl

/-- **The index chooses like the full scan**, on any rules: the same rule or the same error. -/
theorem indexed_eq_scan (host path : String) :
    chooseRuleFrom rules (some (newRuleIndex rules)) host path = chooseRule rules host path := by
  rw [chooseRuleFrom_eq, chooseRule, chooseRuleFrom, chooseLoop_eq _ _ _ none (by simp)]
  rfl

end

/-! ## Conflicts -/

/-- both rules match the host and the path, and neither comes first; whether they accept requests is left aside -/
def Tie (l r : RouteRule) (host path : String) : Prop :=
  (hostMatch l host).2.2 = true ∧ (hostMatch r host).2.2 = true ∧ pathMatches l.pathPrefix path = true ∧
    pathMatches r.pathPrefix path = true ∧ rank l = rank r

/-- the host a rule is compared on gives the rule's own class -/
theorem overlapHost_class (r : RouteRule) :
    ((hostMatch r (overlapHost r)).1, (hostMatch r (overlapHost r)).2.1) = hostClass r := by
  rcases matchType_cases r with ⟨hb, _⟩ | ⟨_, hw⟩ | ⟨hb, hc, hn⟩ | ⟨hb, h1, h2, h3, h4⟩
  · simp [hostMatch_byName hb, hostClass, hb]
  · refine hostMatch_class ((hostMatch_wildcard hw _).1.2 ⟨"edge", by decide, by decide, ?_⟩)
    simp only [overlapHost, hw, matchExact, matchManagedExact, matchOneLabelWildcard]
    rfl
  · simp [hostMatch_catchAll hc hn, hostClass, hb, hc, matchOneLabelWildcard, matchCatchAll]
  · simp [hostMatch, hostClass, hb, h1, h2, h3, h4]

theorem byName_iff : byName r = true ↔
    (isExactMatchType r.matchType = true ∧ r.matchType ≠ matchCatchAll) ∨
      (r.matchType = matchCatchAll ∧ r.hostname ≠ "") := by
  simp only [byName, isExactMatchType, Bool.or_eq_true, Bool.and_eq_true, beq_iff_eq, bne_iff_ne, ne_eq]
  refine or_congr_left ⟨fun h => ⟨h, ?_⟩, And.left⟩
  rcases h with h | h <;> rw [h] <;> decide

variable {l : RouteRule}

/-- rules found by name overlap when the names are one -/
theorem hostsOverlap_byName (hl : byName l = true) (hr : byName r = true) :
    hostsOverlap l r = (l.hostname == r.hostname) := by
  unfold hostsOverlap catchAllHostsOverlap
  rcases byName_iff.1 hl with ⟨hle, hlc⟩ | ⟨hlc, hln⟩
  · rcases byName_iff.1 hr with ⟨hre, hrc⟩ | ⟨hrc, hrn⟩
    · simp only [hlc, hrc, hle, hre, or_self, if_false, and_self, if_true]
    · simp only [hlc, hrc, hrn, or_true, ne_eq, not_false_eq_true, if_true, if_false, hostMatch_byName hl]
      exact Bool.beq_comm
  · rcases byName_iff.1 hr with ⟨_, hrc⟩ | ⟨hrc, hrn⟩
    · simp only [hlc, hrc, hln, true_or, ne_eq, not_true_eq_false, if_true, if_false, hostMatch_byName hr]
    · simp only [hlc, hrc, hln, or_self, ne_eq, not_true_eq_false, if_true, if_false]
      simp [hrn, Bool.beq_comm]

/-- rules of one class are found in one way -/
theorem hostClass_cases (h : hostClass l = hostClass r) :
    (byName l = true ∧ byName r = true) ∨
      (l.matchType = matchOneLabelWildcard ∧ r.matchType = matchOneLabelWildcard) ∨
      (l.matchType = matchCatchAll ∧ l.hostname = "" ∧ r.matchType = matchCatchAll ∧ r.hostname = "") ∨
      ∀ q ∈ [l, r], q.matchType ≠ matchExact ∧ q.matchType ≠ matchManagedExact ∧ q.matchType ≠ matchOneLabelWildcard ∧
        q.matchType ≠ matchCatchAll := by
  rcases matchType_cases l with ⟨hb, hw⟩ | ⟨hb, hw⟩ | ⟨hb, hc, hn⟩ | ⟨hb, hl⟩ <;>
    rcases matchType_cases r with ⟨hb', hw'⟩ | ⟨hb', hw'⟩ | ⟨hb', hc', hn'⟩ | ⟨hb', hr⟩
  case inl.inl => exact .inl ⟨hb, hb'⟩
  case inr.inl.inr.inl => exact .inr (.inl ⟨hw, hw'⟩)
  case inr.inr.inl.inr.inr.inl => exact .inr (.inr (.inl ⟨hc, hn, hc', hn'⟩))
  case inr.inr.inr.inr.inr.inr => exact .inr (.inr (.inr (by simp [hl, hr])))
  all_goals simp_all [hostClass, matchOneLabelWildcard, matchCatchAll]

/-- **One ambiguity relation.** Rules of one host class overlap exactly when some host matches both. -/
theorem hostsOverlap_iff (hclass : hostClass l = hostClass r) :
    hostsOverlap l r = true ↔ ∃ host, (hostMatch l host).2.2 = true ∧ (hostMatch r host).2.2 = true := by
  rcases hostClass_cases hclass with ⟨hl, hr⟩ | ⟨hl, hr⟩ | ⟨hl, hln, hr, hrn⟩ | hother
  · simp only [hostsOverlap_byName hl hr, hostMatch_byName hl, hostMatch_byName hr, beq_iff_eq]
    exact ⟨fun h => ⟨l.hostname, rfl, h⟩, fun ⟨host, h1, h2⟩ => h1 ▸ h2⟩
  · have hover : hostsOverlap l r = (l.wildcardSuffix == r.wildcardSuffix) := by
      simp [hostsOverlap, isExactMatchType, hl, hr, matchExact, matchManagedExact, matchOneLabelWildcard, matchCatchAll]
    rw [hover, beq_iff_eq]
    constructor
    · intro h
      have hedge : ∃ label, label ≠ "" ∧ '.' ∉ label.toList ∧ "edge." ++ l.wildcardSuffix = label ++
          "." ++ l.wildcardSuffix :=
        ⟨"edge", by decide, by decide, rfl⟩
      exact ⟨"edge." ++ l.wildcardSuffix, (hostMatch_wildcard hl _).1.2 hedge,
        (hostMatch_wildcard hr _).1.2 (h ▸ hedge)⟩
    · rintro ⟨host, h1, h2⟩
      -- the suffix is what follows the first "." of the host
      obtain ⟨label, _, hdot, rfl⟩ := (hostMatch_wildcard hl _).1.1 h1
      obtain ⟨label', _, hdot', heq⟩ := (hostMatch_wildcard hr _).1.1 h2
      have hcut := cut_sep dot_toList label l.wildcardSuffix hdot
      rw [heq, cut_sep dot_toList label' r.wildcardSuffix hdot', Prod.mk.injEq, Prod.mk.injEq] at hcut
      exact hcut.2.1.symm
  · simp only [hostMatch_catchAll hl hln, hostMatch_catchAll hr hrn]
    simp [hostsOverlap, catchAllHostsOverlap, hl, hln]
  · obtain ⟨h1, h2, h3, h4⟩ := hother l (by simp)
    obtain ⟨h1', h2', h3', h4'⟩ := hother r (by simp)
    simp [hostsOverlap, hostMatch, isExactMatchType, h1, h2, h3, h4, h3', h4']

variable {path : String}

/-- two leading parts of one text with one length are one part -/
theorem append_left_eq {a b x y : String} (h : a ++ x = b ++ y) (hlen : a.utf8ByteSize = b.utf8ByteSize) : a = b := by
  have hl := congrArg String.toList h
  simp only [String.toList_append] at hl
  have hempty : ∀ {s t : String} {c : List Char}, s.toList = t.toList ++ c →
      s.utf8ByteSize = t.utf8ByteSize → s = t := by
    intro s t c hs hsize
    have hst : s = t ++ String.ofList c := String.toList_inj.1 (by simpa using hs)
    rw [hst, String.utf8ByteSize_append] at hsize
    have : String.ofList c = "" := String.utf8ByteSize_eq_zero_iff.1 (by omega)
    rw [hst, this, String.append_empty]
  rcases List.append_eq_append_iff.1 hl with ⟨c, hc, _⟩ | ⟨c, hc, _⟩
  · exact (hempty hc hlen.symm).symm
  · exact hempty hc hlen

/-- paths of one length that match one request are one path -/
theorem pathMatches_same {p q : String} (hp : pathMatches p path = true) (hq : pathMatches q path = true)
    (hlen : p.utf8ByteSize = q.utf8ByteSize) : pathMatches p q = true ∨ pathMatches q p = true := by
  simp only [pathMatches, Bool.or_eq_true, beq_iff_eq] at hp hq ⊢
  have hpre : ∀ {t : String}, path = t ∨ hasPrefix path (t ++ "/") = true → ∃ rest, path = t ++ rest := by
    rintro t (rfl | h)
    · exact ⟨"", (String.append_empty).symm⟩
    · obtain ⟨rest, rfl⟩ := (hasPrefix_iff _ _).1 h
      exact ⟨"/" ++ rest, by rw [String.append_assoc]⟩
  by_cases hp1 : p = "/"
  · exact .inl (.inl (.inl hp1))
  by_cases hq1 : q = "/"
  · exact .inr (.inl (.inl hq1))
  simp only [hp1, hq1, false_or] at hp hq
  obtain ⟨x, hx⟩ := hpre hp
  obtain ⟨y, hy⟩ := hpre hq
  exact .inl (.inl (.inr (append_left_eq (hy.symm.trans hx) hlen.symm)))

/-- a path that overlaps another matches a request both match -/
theorem pathMatches_self (p : String) : pathMatches p p = true := by simp [pathMatches]

theorem rank_eq_iff : rank l = rank r ↔ hostClass l = hostClass r ∧
    l.pathPrefix.utf8ByteSize = r.pathPrefix.utf8ByteSize ∧ l.priority = r.priority := by
  simp only [rank, RouteCandidate.rank, EmbeddingLike.apply_eq_iff_eq, Prod.ext_iff]
  tauto

theorem overlapCandidate_rank (r : RouteRule) : (overlapCandidate r).rank = rank r := by
  unfold rank overlapCandidate
  rw [← overlapHost_class]

/-- a tie on a request is a conflict when the rules are staged -/
theorem conflicting_of_tie (h : Tie l r host path) : conflicting l r = true := by
  obtain ⟨hl, hr, hlp, hrp, hrank⟩ := h
  obtain ⟨hclass, hlen, _⟩ := rank_eq_iff.1 hrank
  have hhosts := (hostsOverlap_iff hclass).2 ⟨host, hl, hr⟩
  have hpaths := pathMatches_same hlp hrp hlen
  have hcompare : compareCandidates (overlapCandidate l) (overlapCandidate r) = 0 := by
    rw [compareCandidates_eq_zero, overlapCandidate_rank, overlapCandidate_rank]
    exact hrank
  simp [conflicting, rulesOverlap, hhosts, hpaths, hcompare]

/-- a conflict when the rules are staged is a tie on some request -/
theorem tie_of_conflicting (h : conflicting l r = true) : ∃ host path, Tie l r host path := by
  simp only [conflicting, rulesOverlap, Bool.and_eq_true, Bool.or_eq_true, beq_iff_eq] at h
  obtain ⟨⟨hhosts, hpaths⟩, hcompare⟩ := h
  rw [compareCandidates_eq_zero, overlapCandidate_rank, overlapCandidate_rank] at hcompare
  obtain ⟨host, hl, hr⟩ := (hostsOverlap_iff (rank_eq_iff.1 hcompare).1).1 hhosts
  rcases hpaths with hp | hp
  · exact ⟨host, r.pathPrefix, hl, hr, hp, pathMatches_self _, hcompare⟩
  · exact ⟨host, l.pathPrefix, hl, hr, pathMatches_self _, hp, hcompare⟩

/-- no two rules conflict -/
theorem anyConflict_eq_false : anyConflict rules = false ↔ rules.Pairwise fun l r => conflicting l r = false := by
  induction rules with
  | nil => simp [anyConflict]
  | cons r rs ih => simp [anyConflict, ih]

/-- the eligible rules of a generation without conflicts have distinct ranks -/
theorem ranks_nodup (h : anyConflict rules = false) (host path : String) :
    ((rules.filter (eligible host path)).map rank).Nodup := by
  have hpair := (anyConflict_eq_false.1 h).sublist (List.filter_sublist (p := eligible host path))
  refine List.pairwise_map.2 (hpair.imp_of_mem fun {l r} hl hr hno hrank => ?_)
  have hl := (List.mem_filter.1 hl).2
  have hr := (List.mem_filter.1 hr).2
  simp only [eligible, Bool.and_eq_true] at hl hr
  rw [conflicting_of_tie ⟨hl.1.2, hr.1.2, hl.2, hr.2, hrank⟩] at hno
  cases hno

/-! ## Staged rules -/

section

variable (u : Unicode) (toASCII : String → Option String) (generation : ℕ)

theorem normalizeRule_id {n : RouteRule} (h : normalizeRule u toASCII generation r = .ok n) : n.id = r.id := by
  obtain ⟨_, _, _, _, _, rfl⟩ := normalizeRule_eq u toASCII h
  rfl

theorem addRule_ok {done done' : List RouteRule} : addRule u toASCII generation done r = .ok done' ↔
    ∃ n, normalizeRule u toASCII generation r = .ok n ∧ n.id ∉ done.map RouteRule.id ∧ done' = done ++ [n] := by
  unfold addRule
  cases normalizeRule u toASCII generation r with
  | error e => simp
  | ok n =>
    simp only [Except.ok.injEq, exists_eq_left']
    split_ifs with h
    · simp [h]
    · simp only [Except.ok.injEq, h, not_false_eq_true, true_and]
      exact eq_comm

variable {result : List RouteRule}

/-- the loop ends without an error when every rule is valid and no ID comes twice -/
theorem normalizeEach_ok {done : List RouteRule} :
    normalizeEach u toASCII generation done rules = .ok result ↔
      ∃ ns, List.Forall₂ (fun r n => normalizeRule u toASCII generation r = .ok n) rules ns ∧ result = done ++ ns ∧
        (ns.map RouteRule.id).Nodup ∧ ∀ n ∈ ns, n.id ∉ done.map RouteRule.id := by
  induction rules generalizing done with
  | nil =>
    simp only [normalizeEach, List.foldlM_nil, List.forall₂_nil_left_iff, exists_eq_left, List.append_nil, List.map_nil,
      List.nodup_nil, List.not_mem_nil, false_implies, implies_true, and_true]
    exact ⟨fun h => (Except.ok.inj h).symm, fun h => congrArg Except.ok h.symm⟩
  | cons r rs ih =>
    have hbind : normalizeEach u toASCII generation done (r :: rs) = .ok result ↔
        ∃ done', addRule u toASCII generation done r = .ok done' ∧
          normalizeEach u toASCII generation done' rs = .ok result := by
      unfold normalizeEach
      rw [List.foldlM_cons]
      cases addRule u toASCII generation done r with
      | error | ok => simp [bind, Except.bind]
    rw [hbind]
    simp only [addRule_ok, ih]
    constructor
    · rintro ⟨_, ⟨n, hn, hseen, rfl⟩, ns, hns, rfl, hnd, hall⟩
      refine ⟨n :: ns, .cons hn hns, by simp, ?_, ?_⟩
      · rw [List.map_cons, List.nodup_cons]
        refine ⟨fun hmem => ?_, hnd⟩
        obtain ⟨n', hn', hid⟩ := List.mem_map.1 hmem
        exact hall n' hn' (by simp [hid])
      · intro n' hn'
        rcases List.mem_cons.1 hn' with rfl | hn'
        · exact hseen
        · exact fun hmem => hall n' hn' (by rw [List.map_append]; exact List.mem_append_left _ hmem)
    · rintro ⟨_, hns, rfl, hnd, hall⟩
      cases hns with
      | @cons _ n _ ns hn hns =>
        rw [List.map_cons, List.nodup_cons] at hnd
        refine ⟨_, ⟨n, hn, hall n List.mem_cons_self, rfl⟩, ns, hns, by simp, hnd.2, fun n' hn' hmem => ?_⟩
        rw [List.map_append, List.mem_append] at hmem
        rcases hmem with hmem | hmem
        · exact hall n' (List.mem_cons_of_mem n hn') hmem
        · simp only [List.map_cons, List.map_nil, List.mem_singleton] at hmem
          exact hnd.1 (List.mem_map.2 ⟨n', hn', hmem⟩)

variable {maximum : ℕ}

/-- the rules StageGeneration accepts: each normalized, IDs distinct, in the order of the IDs, no two in conflict -/
theorem normalizeRules_ok (h : normalizeRules u toASCII generation rules maximum = .ok result) :
    rules.length ≤ maximum ∧ ∃ ns, List.Forall₂ (fun r n => normalizeRule u toASCII generation r = .ok n) rules ns ∧
      (ns.map RouteRule.id).Nodup ∧ result = sortBy RouteRule.id ns ∧ anyConflict result = false := by
  unfold normalizeRules at h
  split_ifs at h with hlen
  refine ⟨not_lt.1 hlen, ?_⟩
  cases he : normalizeEach u toASCII generation [] rules with
  | error e => rw [he] at h; cases h
  | ok ns =>
    rw [he] at h
    simp only at h
    split_ifs at h with hc
    obtain ⟨_, hns, rfl, hnd, _⟩ := (normalizeEach_ok u toASCII generation).1 he
    rw [← Except.ok.inj h]
    exact ⟨_, hns, hnd, by simp, by simpa using hc⟩

/-- **The order of the staged rules does not matter.** -/
theorem normalizeRules_perm {rules' : List RouteRule} (hp : rules'.Perm rules)
    (h : normalizeRules u toASCII generation rules maximum = .ok result) :
    normalizeRules u toASCII generation rules' maximum = .ok result := by
  obtain ⟨hlen, ns, hns, hnd, hresult, hc⟩ := normalizeRules_ok u toASCII generation h
  obtain ⟨ns', hns', hpn⟩ := List.perm_comp_forall₂ hp hns
  have hnd' : (ns'.map RouteRule.id).Nodup := (hpn.map RouteRule.id).nodup_iff.2 hnd
  have heach : normalizeEach u toASCII generation [] rules' = .ok ns' :=
    (normalizeEach_ok u toASCII generation).2 ⟨ns', hns', by simp, hnd', by simp⟩
  have hsort : sortBy RouteRule.id ns' = result := (sortBy_perm hnd' hpn).trans hresult.symm
  unfold normalizeRules
  rw [if_neg (by rw [hp.length_eq]; omega), heach]
  simp only [hsort, hc, Bool.false_eq_true, if_false]

/-- **Conflicts are ties.** Rules that are valid one by one and have distinct IDs are refused as ambiguous only when
two of them tie on some request. -/
theorem tie_of_matchConflict
    (hvalid : ∀ r ∈ rules, ∃ n, normalizeRule u toASCII generation r = .ok n) (hid : (rules.map RouteRule.id).Nodup)
    (h : normalizeRules u toASCII generation rules maximum = .error .matchConflict) :
    ∃ l ∈ rules, ∃ r ∈ rules, l.id ≠ r.id ∧ ∃ nl nr, normalizeRule u toASCII generation l = .ok nl ∧
      normalizeRule u toASCII generation r = .ok nr ∧ ∃ host path, Tie nl nr host path := by
  obtain ⟨ns, hns⟩ : ∃ ns, List.Forall₂ (fun r n => normalizeRule u toASCII generation r = .ok n) rules ns := by
    clear h hid
    induction rules with
    | nil => exact ⟨[], .nil⟩
    | cons r rs ih =>
      obtain ⟨n, hn⟩ := hvalid r List.mem_cons_self
      obtain ⟨ns, hns⟩ := ih fun r' hr' => hvalid r' (List.mem_cons_of_mem r hr')
      exact ⟨n :: ns, .cons hn hns⟩
  have hids : ns.map RouteRule.id = rules.map RouteRule.id := by
    clear h hid hvalid
    induction hns with
    | nil => rfl
    | cons hn _ ih => rw [List.map_cons, List.map_cons, ih, normalizeRule_id u toASCII generation hn]
  have hnd : (ns.map RouteRule.id).Nodup := hids ▸ hid
  have heach : normalizeEach u toASCII generation [] rules = .ok ns :=
    (normalizeEach_ok u toASCII generation).2 ⟨ns, hns, by simp, hnd, by simp⟩
  have hconflict : anyConflict (sortBy RouteRule.id ns) = true := by
    unfold normalizeRules at h
    rw [heach] at h
    split_ifs at h with hlen
    · simp at h
    · simp only at h
      split_ifs at h with hc
      exact hc
  -- two normalized rules with different IDs conflict, or the pairs would all pass
  have hpair : ∃ nl ∈ ns, ∃ nr ∈ ns, nl.id ≠ nr.id ∧ conflicting nl nr = true := by
    by_contra hno
    push Not at hno
    have hsorted : ((sortBy RouteRule.id ns).map RouteRule.id).Nodup :=
      ((List.perm_insertionSort _ _).map RouteRule.id).nodup_iff.2 hnd
    have : anyConflict (sortBy RouteRule.id ns) = false := by
      refine anyConflict_eq_false.2 ((List.pairwise_map.1 hsorted).imp_of_mem fun {a b} ha hb hne => ?_)
      exact Bool.eq_false_iff.2 (hno a (mem_sortBy.1 ha) b (mem_sortBy.1 hb) hne)
    rw [this] at hconflict
    cases hconflict
  obtain ⟨nl, hnl, nr, hnr, hne, hc⟩ := hpair
  have hback : ∀ n ∈ ns, ∃ r ∈ rules, normalizeRule u toASCII generation r = .ok n := by
    clear h hid hvalid hids hnd heach hconflict hnl hnr
    induction hns with
    | nil => simp
    | cons hn _ ih =>
      intro n hn'
      rcases List.mem_cons.1 hn' with rfl | hn'
      · exact ⟨_, List.mem_cons_self, hn⟩
      · obtain ⟨r, hr, hrn⟩ := ih n hn'
        exact ⟨r, List.mem_cons_of_mem _ hr, hrn⟩
  obtain ⟨l, hl, hnl⟩ := hback nl hnl
  obtain ⟨r, hr, hnr⟩ := hback nr hnr
  refine ⟨l, hl, r, hr, ?_, nl, nr, hnl, hnr, tie_of_conflicting hc⟩
  rw [← normalizeRule_id u toASCII generation hnl, ← normalizeRule_id u toASCII generation hnr]
  exact hne

end

end Paperboat.Route
