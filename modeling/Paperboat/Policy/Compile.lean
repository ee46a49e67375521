/-
Compilation of a policy against an inventory (`shared/policy/compile.go`,
`shared/policy/rules.go`): every name is checked and resolved, and every rule is
expanded into grants.

Each list entry either resolves or reports one problem (a code and a text); its place in
the file is added by the caller. So the value of a rule does not depend on where it
stands, and `Compile` reports nothing exactly when every entry of every list resolves
(`compile_errors`).
-/
import Paperboat.Policy.Grants
import Paperboat.Policy.Rows

namespace Paperboat.Policy

open Text Search Fold

/-- an error code and its text, before the path is known -/
abbrev Problem := String × String

/-- the error of each entry that has a problem, at its index under `p` -/
def entryErrors {α β : Type} (f : α → Except Problem β) (p : String) (l : List α) : List Error :=
  (l.mapIdx fun i a =>
    match f a with
    | .error q => [⟨pointer p [toString i], q.1, q.2⟩]
    | .ok _ => []).flatten

/-- what the entries without a problem resolve to -/
def entryValues {α β : Type} (f : α → Except Problem β) (l : List α) : List β := l.filterMap fun a => (f a).toOption

/-- the errors of named lists of entries, and what the lists with a good name resolve to -/
def compileNamed (nameOk : String → Bool) (entry : String → Except Problem String) (path what : String)
    (lists : List (String × List String)) : List Error × List (String × List String) :=
  (lists.flatMap fun l =>
      if nameOk l.1 then entryErrors entry (pointer path [l.1]) l.2
      else [⟨pointer path [l.1], "invalid_name", what ++ " (lowercase letters, digits, '.', '_', '-')"⟩],
    (lists.filter fun l => nameOk l.1).map fun l => (l.1, entryValues entry l.2))

section

variable (u : Unicode) (x : Index)

def resolveUser (e what : String) : Except Problem String :=
  if !hasPrefix e "user:" then .error ("invalid_subject", what ++ ", not " ++ u.quote e)
  else
    match x.user u e with
    | some a => .ok a
    | none => .error ("unknown_user", u.quote (trimPrefix e "user:") ++ " is not a member of this workspace")

/-- the problem of an unknown or ambiguous machine name -/
def machineError (name : String) (e : NameError) : Problem :=
  match e with
  | .unknownMachine => (e.code, "machine " ++ u.quote name ++ " is not in this workspace")
  | .ambiguousMachine =>
    (e.code, "two machines are called " ++ u.quote name ++ "; write machine:<owner email>/" ++ name)

/-! ## Groups and tags -/

def groupEntry (e : String) : Except Problem String := resolveUser u x e "a group holds user:<email> entries"

def groupNameOk (name : String) : Bool := (cutPrefix name "group:").any validName

def compileGroups (groups : List (String × List String)) : List Error × List (String × List String) :=
  compileNamed groupNameOk (groupEntry u x) "/groups" "a group is named group:<name>" groups

def tagEntry (e : String) : Except Problem String :=
  match cutPrefix e "machine:" with
  | some name =>
    if name = "*" then .error ("not_allowed_in_tag", "a tag holds machine:<alias> entries, not " ++ u.quote e)
    else
      match x.machine u name with
      | .ok m => .ok m.id
      | .error ne => .error (machineError u name ne)
  | none => .error ("not_allowed_in_tag", "a tag holds machine:<alias> entries, not " ++ u.quote e)

def tagNameOk (name : String) : Bool := (cutPrefix name "tag:").any validName

def compileTags (tags : List (String × List String)) : List Error × List (String × List String) :=
  compileNamed tagNameOk (tagEntry u x) "/tags" "a tag is named tag:<name>" tags

/-! ## One rule -/

variable (groups tags : List (String × List String))

/-- the accounts one src entry names -/
def subjectEntry (e : String) : Except Problem (List String) :=
  if e = "*" then .ok (x.inv.members.map Member.accountID)
  else if (cut e ":").1 = "user" then (resolveUser u x e "").map fun a => [a]
  else if (cut e ":").1 = "group" then
    match groups.lookup e with
    | some members => .ok members
    | none => .error ("unknown_group", "group " ++ u.quote e ++ " is not defined in \"groups\"")
  else if (cut e ":").1 = "role" then
    if (cut e ":").2.1 ∈ roles then
      .ok ((x.inv.members.filter fun m => roleMatches (cut e ":").2.1 m.role).map Member.accountID)
    else .error ("unknown_role",
      "roles are role:owner, role:admin (owners and admins), role:billing, role:auditor and role:member (everyone)")
  else .error ("invalid_subject", u.quote e ++
    " is not a subject; use user:<email>, group:<name>, role:<owner|admin|billing|auditor|member> or *")

def ruleSubjects (p : String) (src : List String) : List Error × List String :=
  (entryErrors (subjectEntry u x groups) p src, dedup (entryValues (subjectEntry u x groups) src).flatten)

/-- every dst of a rule must be of one family -/
inductive Family where
  | machine
  | resource
  | env
deriving DecidableEq, Repr

/-- the family of a dst entry; none for what is not a target -/
def targetFamily (e : String) : Option Family :=
  if (cut e ":").1 = "machine" ∨ (cut e ":").1 = "tag" then some .machine
  else if (cut e ":").1 = "preview" ∨ (cut e ":").1 = "tunnel" then some .resource
  else if (cut e ":").1 = "env" then some .env
  else none

/-- a preview or tunnel by name -/
def resourceEntry (kind : ResourceKind) (e : String) : Except Problem (List Target) :=
  match x.resources e with
  | some r => .ok [⟨kind.target, r.id⟩]
  | none => .error ("unknown_" ++ kind.name, kind.name ++ " " ++ u.quote (cut e ":").2.1 ++ " is not in this workspace")

/-- the targets one dst entry names -/
def targetEntry (e : String) : Except Problem (List Target) :=
  if (cut e ":").1 = "machine" then
    if (cut e ":").2.1 = "*" then .ok (x.inv.machines.map fun m => ⟨.machine, m.id⟩)
    else
      match x.machine u (cut e ":").2.1 with
      | .ok m => .ok [⟨.machine, m.id⟩]
      | .error ne => .error (machineError u (cut e ":").2.1 ne)
  else if (cut e ":").1 = "tag" then
    match tags.lookup e with
    | some ids => .ok (ids.map fun id => ⟨.machine, id⟩)
    | none => .error ("unknown_tag", "tag " ++ u.quote e ++ " is not defined in \"tags\"")
  else if (cut e ":").1 = "preview" then resourceEntry u x .preview e
  else if (cut e ":").1 = "tunnel" then resourceEntry u x .tunnel e
  else if (cut e ":").1 = "env" then
    if !x.inv.team then .error ("team_only", "env:team exists only in a team workspace")
    else if (cut e ":").2.1 ≠ "team" then .error ("unknown_env_scope", "the ENV target is env:team")
    else .ok [⟨.env, x.inv.teamID⟩]
  else .error ("invalid_target", u.quote e ++
    " is not a target; use machine:<alias>, machine:*, tag:<name>, preview:<name>, tunnel:<name> or env:team")

/-- a rule's family: that of its first target -/
def ruleFamily (dst : List String) : Option Family := (dst.filterMap targetFamily).head?

/-- an entry of another family than the rule's first target -/
def mixedEntry (family : Option Family) (e : String) : Except Problem Unit :=
  if targetFamily e = none ∨ targetFamily e = family then .ok ()
  else .error ("mixed_targets",
    "one rule's dst must be all machines/tags, all previews/tunnels, or env:team; split it into two rules")

def ruleTargets (p : String) (dst : List String) : List Error × List Target :=
  (entryErrors (targetEntry u x tags) p dst ++ entryErrors (mixedEntry (ruleFamily dst)) p dst,
    dedup (entryValues (targetEntry u x tags) dst).flatten)

/-- the actions that apply to a family -/
def familyActions : Option Family → List String
  | some .machine => machineActions
  | some .resource => resourceActions
  | some .env => envActions
  | none => []

def actionEntry (family : Option Family) (a : String) : Except Problem (List String) :=
  if a = "*" ∧ family = some .machine then .ok machineActions
  else if a ∈ familyActions family then .ok [a]
  -- dst already failed; the action cannot be checked against it
  else if family = none then .ok []
  else if a ∈ machineActions ∨ a ∈ envActions ∨ a = "*" then
    .error ("action_not_for_target",
      u.quote a ++ " does not apply to these targets; they allow: " ++ ", ".intercalate (familyActions family))
  else .error ("unknown_action", "unknown action " ++ u.quote a ++ "; actions are " ++
    ", ".intercalate machineActions ++ ", " ++ ", ".intercalate envActions)

/-- slices.Sort and slices.Compact: each action once, in order -/
def ruleActions (family : Option Family) (p : String) (list : List String) : List Error × List String :=
  (entryErrors (actionEntry u family) p list,
    (dedup (entryValues (actionEntry u family) list).flatten).insertionSort (· ≤ ·))

/-- without ports an allow covers ports 1024 and above, a deny every port -/
def rulePorts (p : String) (actions : List String) (ports : Option (List PortRange)) (deny : Bool) :
    List Error × List PortRange :=
  match ports with
  | none => ([], if deny then allPorts else [defaultPrivatePorts])
  | some ps =>
    ((if actions ≠ [actionPrivateAccess] then
        [⟨pointer p ["ports"], "ports_need_private_access",
          "ports apply only when the actions are exactly [\"private_access\"]"⟩]
      else []) ++
      (if ps = [] then
        [⟨pointer p ["ports"], "empty", "\"ports\" must list at least one port; leave it out for the default"⟩]
      else []),
      mergePorts ps)

def emptyErrors (u : Unicode) (p : String) (fields : List (String × List String)) : List Error :=
  fields.flatMap fun f =>
    if f.2 = [] then [⟨pointer p [f.1], "empty", u.quote f.1 ++ " must list at least one entry"⟩] else []

/-- what a rule without errors says -/
structure Expanded where
  deny : Bool
  accounts : List String
  targets : List Target
  actions : List String
  ports : List PortRange

/-- the checks of compileRule: the rule's errors, and what it expands to -/
def expandRule (p : String) (r : Rule) : List Error × Expanded :=
  let field := if r.actions.2 then "deny" else "allow"
  let subjects := ruleSubjects u x groups (pointer p ["src"]) r.src
  let targets := ruleTargets u x tags (pointer p ["dst"]) r.dst
  let actions := ruleActions u (ruleFamily r.dst) (pointer p [field]) r.actions.1
  let ports := rulePorts p actions.2 r.ports r.actions.2
  (emptyErrors u p [("src", r.src), ("dst", r.dst), (field, r.actions.1)] ++ subjects.1 ++
    targets.1 ++ actions.1 ++ ports.1, ⟨r.actions.2, subjects.2, targets.2, actions.2, ports.2⟩)

/-- the allow and the deny builder -/
structure Builders where
  allow : Builder
  deny : Builder

def Builders.addRule (bs : Builders) (e : Expanded) (idx : ℕ) : Builders :=
  if e.deny then { bs with deny := bs.deny.addAll e.accounts e.targets e.actions e.ports idx }
  else { bs with allow := bs.allow.addAll e.accounts e.targets e.actions e.ports idx }

/-- checks one rule and adds its grants to allow or deny -/
def compileRule (idx : ℕ) (r : Rule) (bs : Builders) : List Error × Builders :=
  let e := expandRule u x groups tags (pointer "/rules" [toString idx]) r
  (e.1, if e.1 = [] then bs.addRule e.2 idx else bs)

/-- all rules, from index `i` on -/
def compileRules : ℕ → List Rule → Builders → List Error × Builders
  | _, [], bs => ([], bs)
  | i, r :: rs, bs =>
    let out := compileRule u x groups tags i r bs
    let rest := compileRules (i + 1) rs out.2
    (out.1 ++ rest.1, rest.2)

/-- the symbolic rows of all rules, from index `i` on -/
def ruleRows : ℕ → List Rule → List Row
  | _, [] => []
  | i, r :: rs => symbolicRows u x i r ++ ruleRows (i + 1) rs

/-! ## Token scopes -/

/-- one scope entry: its errors, and what it expands to -/
def expandScope (p : String) (s : ScopeEntry) : List Error × Expanded :=
  let targets := ruleTargets u x tags (pointer p ["dst"]) s.dst
  let actions := ruleActions u (ruleFamily s.dst) (pointer p ["allow"]) s.allow
  let ports := rulePorts p actions.2 s.ports false
  ((if s.dst = [] ∨ s.allow = [] then [⟨p, "empty", "a scope entry needs dst and allow"⟩] else []) ++ targets.1 ++
      actions.1 ++ ports.1,
    ⟨false, [""], targets.2, actions.2, ports.2⟩)

def compileScopeEntries : ℕ → List ScopeEntry → Builder → List Error × Builder
  | _, [], b => ([], b)
  | i, s :: ss, b =>
    let e := expandScope u x tags (pointer "" [toString i]) s
    let rest := compileScopeEntries (i + 1) ss
      (if e.1 = [] then b.addAll e.2.accounts e.2.targets e.2.actions e.2.ports i else b)
    (e.1 ++ rest.1, rest.2)

def compileScope (scope : List ScopeEntry) : List Grant × List Error :=
  let out := compileScopeEntries u x tags 0 scope newBuilder
  (out.2.list, Error.sorted ((if scope = [] then
    [⟨"", "empty", "a scope lists at least one \x7bdst, allow\x7d entry; leave the scope out for full access"⟩]
    else []) ++ out.1))

end

/-! ## The whole document -/

/-- a validated policy expanded against one inventory -/
structure Compiled where
  /-- what the allow and deny rules say, before one is taken from the other -/
  allows : List Grant
  denies : List Grant
  /-- allows minus denies: the access the policy gives -/
  grants : List Grant
  allowPrivateAccess : Bool
  /-- each scoped API token's scope by token ID, with the account empty -/
  scopes : String → Option (List Grant)
  x : Index
  tags : List (String × List String)
  groups : List (String × List String)
  rows : List Row

def overLimit (path : String) (n : ℕ) (max : Int) (what : String) : List Error :=
  if max > 0 ∧ (n : Int) > max then
    [⟨path, "limit", toString n ++ " " ++ what ++ "; the limit is " ++ toString max⟩]
  else []

def checkLimits (d : Document) (l : Limits) : List Error :=
  overLimit "/rules" d.rules.length l.maxRules "rules" ++ overLimit "/tags" d.tags.length l.maxTags "tags" ++
    overLimit "/groups" d.groups.length l.maxGroups "groups" ++ overLimit "/tests" d.tests.length l.maxTests "tests" ++
    (d.groups.flatMap fun g => overLimit (pointer "/groups" [g.1]) g.2.length l.maxEntriesPerList "entries") ++
    (d.tags.flatMap fun t => overLimit (pointer "/tags" [t.1]) t.2.length l.maxEntriesPerList "entries") ++
    (d.rules.mapIdx fun i r =>
      overLimit (pointer "/rules" [toString i, "src"]) r.src.length l.maxEntriesPerList "entries" ++
        overLimit (pointer "/rules" [toString i, "dst"]) r.dst.length l.maxEntriesPerList "entries").flatten

/-- everything Compile checks, in the order it checks it -/
def compileErrors (u : Unicode) (d : Document) (inv : Inventory) (limits : Limits) : List Error :=
  let x := newIndex u inv
  checkLimits d limits ++ (compileGroups u x d.groups).1 ++ (compileTags u x d.tags).1 ++
    (if d.allowPrivateAccess.isSome ∧ !inv.team then
      [⟨"/allow_private_access", "team_only",
        "allow_private_access is a team setting; in a personal workspace it is always on"⟩]
    else []) ++
    (compileRules u x (compileGroups u x d.groups).2 (compileTags u x d.tags).2 0 d.rules ⟨newBuilder, newBuilder⟩).1

def compileScopes (u : Unicode) (x : Index) (tags : List (String × List String)) (id : String) : Option (List Grant) :=
  (lastWith Token.id x.inv.tokens id).map fun t => (compileScope u x tags t.scope).1

/-- the two builders after every rule -/
def documentBuilders (u : Unicode) (d : Document) (inv : Inventory) : Builders :=
  let x := newIndex u inv
  (compileRules u x (compileGroups u x d.groups).2 (compileTags u x d.tags).2 0 d.rules ⟨newBuilder, newBuilder⟩).2

/-- the compiled form of a document without errors -/
def compiled (u : Unicode) (d : Document) (inv : Inventory) : Compiled :=
  let x := newIndex u inv
  let tags := (compileTags u x d.tags).2
  let bs := documentBuilders u d inv
  { allows := bs.allow.list, denies := bs.deny.list, grants := subtract bs.allow.list bs.deny.list,
    allowPrivateAccess := !inv.team || d.allowPrivateAccess == some true,
    scopes := compileScopes u x tags, x := x, tags := tags, groups := (compileGroups u x d.groups).2,
    rows := sortRows (ruleRows u x 0 d.rules) }

/-- checks every name in `d` against `inv` and the limits, then expands the rules and the token scopes -/
def compile (u : Unicode) (d : Document) (inv : Inventory) (limits : Limits) : Compiled × List Error :=
  if compileErrors u d inv limits ≠ [] then
    ({ allows := [], denies := [], grants := [], allowPrivateAccess := false, scopes := fun _ => none,
       x := newIndex u inv, tags := [], groups := [], rows := [] }, Error.sorted (compileErrors u d inv limits))
  else (compiled u d inv, [])

def Compiled.validateScope (u : Unicode) (c : Compiled) (scope : List ScopeEntry) : List Error :=
  (compileScope u c.x c.tags scope).2

def Compiled.store (c : Compiled) : Stored := ⟨c.rows, c.groups, c.tags, c.allowPrivateAccess⟩

end Paperboat.Policy
