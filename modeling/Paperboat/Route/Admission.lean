/-
Which rule admits a request: Match on a generation whose rules StageGeneration accepted.

Results:
- `stageGeneration_accepts`: what is accepted has been normalized without an error;
- `matchRoute_eq`: Match is the greatest eligible rule of the accepting generation;
- `match_greatest`: on accepted rules that is one rule, the same in whatever order the
  rules were staged, and rules are refused as ambiguous only for a tie on some request.

Witnesses:
- `shop_match_greatest`: a shop with three rules.
-/
import Paperboat.Route.Registry

namespace Paperboat.Route

open Text Greatest

/-- what StageGeneration answers about the generation it holds says nothing about ambiguity -/
theorem stageAgainst_ne_conflict (held : Option GenerationState) (n : ℕ) (rules : List RouteRule) :
    stageAgainst held n rules ≠ some (.error .matchConflict) := by
  unfold stageAgainst
  cases held with
  | none => simp
  | some s => dsimp only; split_ifs <;> simp

variable {g : GenerationRegistry} {o : Options} {rules : List RouteRule} {n : ℕ}

/-- rules that cannot be normalized are refused with the same error -/
theorem stageGeneration_error {e : RouteError}
    (hn : n ≠ 0) (hr : normalizeRules o.u o.toASCII n rules o.maximumRoutes = .error e) :
    stageGeneration o g n rules = (g, .error e) := by
  simp only [stageGeneration, if_neg hn, hr]

/-- a rule list StageGeneration accepts has been normalized -/
theorem stageGeneration_accepts (h : (stageGeneration o g n rules).2 = .ok .done) :
    ∃ result, normalizeRules o.u o.toASCII n rules o.maximumRoutes = .ok result := by
  have hn : n ≠ 0 := by
    rintro rfl
    simp [stageGeneration] at h
  cases hr : normalizeRules o.u o.toASCII n rules o.maximumRoutes with
  | error e => rw [stageGeneration_error hn hr] at h; cases h
  | ok result => exact ⟨result, rfl⟩

/-- StageGeneration calls rules ambiguous where normalizing them does -/
theorem stageGeneration_conflict (h : (stageGeneration o g n rules).2 = .error .matchConflict) :
    normalizeRules o.u o.toASCII n rules o.maximumRoutes = .error .matchConflict := by
  have hn : n ≠ 0 := by
    rintro rfl
    simp [stageGeneration] at h
  cases hr : normalizeRules o.u o.toASCII n rules o.maximumRoutes with
  | error e =>
    rw [stageGeneration_error hn hr] at h
    exact congrArg _ (Except.error.inj h)
  | ok result =>
    exfalso
    simp only [stageGeneration, if_neg hn, hr] at h
    split_ifs at h
    · cases h
    · split at h
      · rename_i hs
        exact stageAgainst_ne_conflict _ n result (hs.trans (congrArg some h))
      · rename_i hs
        exact stageAgainst_ne_conflict _ n result (hs.trans (congrArg some h))
      · cases h

section

variable {o : Options} {g : GenerationRegistry} {p : ℕ} (hp : g.acceptor = some p) {host path h q : String}
  (hh : normalizeMatchHost o.u o.toASCII host = .ok h) (hq : normalizeRequestPath path = .ok q)

include hp hh hq

/-- Match is the greatest eligible rule of the accepting generation -/
theorem matchRoute_eq : matchRoute o g host path =
    (Choice.result (greatest rank ((g.generations p).rules.filter (eligible h q)))).map
      fun r => ⟨r, h, q, (g.generations p).generation⟩ := by
  unfold matchRoute findRule
  rw [hh, hq, hp]
  simp only [chooseRuleFrom_eq]
  cases greatest rank ((g.generations p).rules.filter (eligible h q)) <;> rfl

variable (hc : anyConflict (g.generations p).rules = false)

include hc

theorem matchRoute_error {e : RouteError} (he : matchRoute o g host path = .error e) : e = .noMatch := by
  rw [matchRoute_eq hp hh hq] at he
  have htie := greatest_ne_tie rank (ranks_nodup hc h q)
  cases hg : greatest rank ((g.generations p).rules.filter (eligible h q)) with
  | none => rw [hg] at he; exact (Except.error.inj he).symm
  | tie => exact absurd hg htie
  | one r => rw [hg] at he; cases he

theorem matchRoute_noMatch : matchRoute o g host path = .error .noMatch ↔
    ∀ r ∈ (g.generations p).rules, eligible h q r = false := by
  have htie := greatest_ne_tie rank (ranks_nodup hc h q)
  have hnone := greatest_eq_none rank (ranks_nodup hc h q)
  rw [matchRoute_eq hp hh hq]
  cases hg : greatest rank ((g.generations p).rules.filter (eligible h q)) with
  | none => simpa [Choice.result, Except.map] using hnone.1 hg
  | tie => exact absurd hg htie
  | one r =>
    rw [hg] at hnone
    simpa [Choice.result, Except.map] using hnone

theorem matchRoute_ok {m : RouteMatch} : matchRoute o g host path = .ok m ↔
    (m.host = h ∧ m.path = q ∧ m.generation = (g.generations p).generation) ∧
      m.rule ∈ (g.generations p).rules ∧ eligible h q m.rule = true ∧
        ∀ r ∈ (g.generations p).rules, eligible h q r = true → r ≠ m.rule → rank r < rank m.rule := by
  have hone := @greatest_eq_one _ _ _ rank _ (ranks_nodup hc h q) m.rule
  simp only [List.mem_filter, and_imp] at hone
  have hresult : matchRoute o g host path = .ok m ↔
      (m.host = h ∧ m.path = q ∧ m.generation = (g.generations p).generation) ∧
        greatest rank ((g.generations p).rules.filter (eligible h q)) = .one m.rule := by
    rw [matchRoute_eq hp hh hq]
    cases greatest rank ((g.generations p).rules.filter (eligible h q)) with
    | none | tie => simp [Choice.result, Except.map]
    | one r =>
      obtain ⟨rule, mh, mq, n⟩ := m
      simp only [Choice.result, Except.map, Except.ok.injEq, RouteMatch.mk.injEq, Choice.one.injEq]
      constructor
      · rintro ⟨rfl, rfl, rfl, rfl⟩; exact ⟨⟨rfl, rfl, rfl⟩, rfl⟩
      · rintro ⟨⟨rfl, rfl, rfl⟩, rfl⟩; exact ⟨rfl, rfl, rfl, rfl⟩
  rw [hresult, hone, and_assoc (a := m.rule ∈ _)]

end

/-- **Matching is unambiguous.** On a generation whose rules StageGeneration accepted, Match finds the one eligible rule
that is greatest by host class, suffix labels, path length and lower priority number, or none; the order of the staged
rules does not matter; and rules that are valid one by one are refused as ambiguous only for a tie on some request. -/
theorem match_greatest (o : Options) (n : ℕ) (rules : List RouteRule) :
    (∀ g₀, (stageGeneration o g₀ n rules).2 = .ok .done →
      ∃ result, normalizeRules o.u o.toASCII n rules o.maximumRoutes = .ok result ∧
        (∀ rules', rules'.Perm rules → stageGeneration o g₀ n rules' = stageGeneration o g₀ n rules) ∧
        ∀ (g : GenerationRegistry) (p : ℕ), g.acceptor = some p → (g.generations p).rules = result →
          ∀ host path h q, normalizeMatchHost o.u o.toASCII host = .ok h → normalizeRequestPath path = .ok q →
            (∀ e, matchRoute o g host path = .error e → e = .noMatch) ∧
            (matchRoute o g host path = .error .noMatch ↔ ∀ r ∈ result, eligible h q r = false) ∧
            ∀ m, matchRoute o g host path = .ok m ↔
              (m.host = h ∧ m.path = q ∧ m.generation = (g.generations p).generation) ∧
                m.rule ∈ result ∧ eligible h q m.rule = true ∧
                  ∀ r ∈ result, eligible h q r = true → r ≠ m.rule → rank r < rank m.rule) ∧
    ((∀ r ∈ rules, ∃ nr, normalizeRule o.u o.toASCII n r = .ok nr) → (rules.map RouteRule.id).Nodup →
      ∀ g₀, (stageGeneration o g₀ n rules).2 = .error .matchConflict →
        ∃ l ∈ rules, ∃ r ∈ rules, l.id ≠ r.id ∧ ∃ nl nr, normalizeRule o.u o.toASCII n l = .ok nl ∧
          normalizeRule o.u o.toASCII n r = .ok nr ∧ ∃ host path, Tie nl nr host path) := by
  refine ⟨fun g₀ hstage => ?_, fun hvalid hid g₀ hconflict =>
    tie_of_matchConflict o.u o.toASCII n hvalid hid (stageGeneration_conflict hconflict)⟩
  obtain ⟨result, hresult⟩ := stageGeneration_accepts hstage
  obtain ⟨_, _, _, _, _, hc⟩ := normalizeRules_ok o.u o.toASCII n hresult
  refine ⟨result, hresult, fun rules' hp => ?_, ?_⟩
  · unfold stageGeneration
    rw [normalizeRules_perm o.u o.toASCII n hp hresult, hresult]
  rintro g p hp rfl host path h q hh hq
  exact ⟨fun e => matchRoute_error hp hh hq hc, matchRoute_noMatch hp hh hq hc, fun m => matchRoute_ok hp hh hq hc⟩

/-! A shop with three rules, and one with two rules for the same host. -/

def shop : Options := ⟨ascii, some, 4, 2⟩

/-- a tunnel's rule for a host -/
def shopRule (id matchType hostname : String) : RouteRule :=
  { id := id, kind := .tunnelHTTPSWSS, matchType := matchType, hostname := hostname, target := "binding" }

def shopRules : List RouteRule :=
  [shopRule "all" "catch_all" "", shopRule "any" "one_label_wildcard" "*.example.com",
    shopRule "app" "" "app.example.com"]

def shopServing : GenerationRegistry := after shop [.stage 1 shopRules, .markReady 1, .activate 1]

def shopTwins : List RouteRule := [shopRule "one" "" "app.example.com", shopRule "two" "exact" "App.example.com."]

theorem shop_match_greatest :
    (∃ m, matchRoute shop shopServing "App.Example.com:443" "/cart/" = .ok m ∧ m.rule.id = "app" ∧
      ∀ r ∈ (shopServing.generations 0).rules, eligible "app.example.com" "/cart" r = true →
        r ≠ m.rule → rank r < rank m.rule) ∧
    ∃ l ∈ shopTwins, ∃ r ∈ shopTwins, l.id ≠ r.id ∧ ∃ nl nr, normalizeRule ascii some 1 l = .ok nl ∧
      normalizeRule ascii some 1 r = .ok nr ∧ ∃ host path, Tie nl nr host path := by
  constructor
  · obtain ⟨result, hresult, _, hmatch⟩ := (match_greatest shop 1 shopRules).1 {} (by decide +kernel)
    have hrules : (shopServing.generations 0).rules = result := by
      have : normalizeRules ascii some 1 shopRules 4 = .ok (shopServing.generations 0).rules := by decide +kernel
      exact Except.ok.inj (this.symm.trans hresult)
    obtain ⟨_, _, hok⟩ := hmatch shopServing 0
      (by decide +kernel) hrules "App.Example.com:443" "/cart/" "app.example.com"
      "/cart" (by decide +kernel) (by decide +kernel)
    have hid : (matchRoute shop shopServing "App.Example.com:443" "/cart/").map (·.rule.id) =
        .ok "app" := by decide +kernel
    cases hm : matchRoute shop shopServing "App.Example.com:443" "/cart/" with
    | error e => rw [hm] at hid; cases hid
    | ok m =>
      rw [hm] at hid
      obtain ⟨_, _, _, hgreatest⟩ := (hok m).1 hm
      exact ⟨m, rfl, Except.ok.inj hid, hrules ▸ hgreatest⟩
  · refine (match_greatest shop 1 shopTwins).2 (fun r hr => ?_) (by decide +kernel) {} (by decide +kernel)
    have hvalid : ∀ r ∈ shopTwins, (normalizeRule ascii some 1 r).toOption.isSome := by decide +kernel
    have := hvalid r hr
    cases hn : normalizeRule ascii some 1 r with
    | error e => rw [hn] at this; cases this
    | ok nr => exact ⟨nr, hn⟩

end Paperboat.Route
