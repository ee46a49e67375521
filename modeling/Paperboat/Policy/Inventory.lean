/-
The inventory a policy is compiled against and its index by the names a policy file uses
(`shared/policy/inventory.go`).

A map the index fills in a loop keeps the last write to a key: it is a lookup of the
last entry with that key (`lastWith`). Names resolve through the index: `user:<email>`
ignoring case, `machine:<alias>` or `machine:<owner email>/<alias>`, `preview:<name>`,
`tunnel:<name>`, `env:team`.
-/
import Paperboat.Policy.Document

namespace Paperboat.Policy

open Text Fold

structure Member where
  accountID : String
  email : String
  /-- owner, admin, billing, auditor or member -/
  role : String
deriving DecidableEq, Repr

structure Machine where
  id : String
  aliasName : String
  /-- the account that owns a personal machine; empty for a team-owned one -/
  personalOwner : String := ""
deriving DecidableEq, Repr

inductive ResourceKind where
  | preview
  | tunnel
deriving DecidableEq, Repr

/-- a preview or tunnel, the target of inspect and replay -/
structure Resource where
  kind : ResourceKind
  id : String
  name : String
  machineID : String
  owner : String
deriving DecidableEq, Repr

/-- one part of an API token's scope, in the policy file's names -/
structure ScopeEntry where
  dst : List String
  allow : List String
  ports : Option (List PortRange)
deriving DecidableEq, Repr

/-- an API token with a scope; it acts as the member who created it -/
structure Token where
  id : String
  creator : String
  scope : List ScopeEntry
deriving DecidableEq, Repr

structure Inventory where
  /-- false for a personal workspace -/
  team : Bool
  teamID : String
  members : List Member
  machines : List Machine
  resources : List Resource
  tokens : List Token
deriving DecidableEq, Repr

inductive TargetKind where
  | machine
  | preview
  | tunnel
  | env
deriving DecidableEq, Repr

/-- what an access question is about -/
structure Target where
  kind : TargetKind
  id : String
deriving DecidableEq, Repr

def ResourceKind.name : ResourceKind → String
  | .preview => "preview"
  | .tunnel => "tunnel"

def ResourceKind.target : ResourceKind → TargetKind
  | .preview => .preview
  | .tunnel => .tunnel

def TargetKind.name : TargetKind → String
  | .machine => "machine"
  | .preview => "preview"
  | .tunnel => "tunnel"
  | .env => "env"

/-- the kind of a preview or tunnel target -/
def TargetKind.resource? : TargetKind → Option ResourceKind
  | .preview => some .preview
  | .tunnel => some .tunnel
  | _ => none

/-- the inventory keyed by the names a policy file uses -/
structure Index where
  inv : Inventory
  byEmail : String → Option Member
  byAccount : String → Option Member
  /-- alias and owner-email/alias -/
  byName : String → List Machine
  byMachineID : String → Option Machine
  /-- "preview:<name>" / "tunnel:<name>" -/
  resources : String → Option Resource
  /-- "preview:<id>" / "tunnel:<id>" -/
  resourceIDs : String → Option Resource

/-- "<owner email>/<alias>" for a personal machine whose owner is a member, else "" -/
def qualifiedIn (u : Unicode) (byAccount : String → Option Member) (m : Machine) : String :=
  match byAccount m.personalOwner with
  | some o => if m.personalOwner ≠ "" then toLower u o.email ++ "/" ++ m.aliasName else ""
  | none => ""

/-- the key of a resource's name: its ID stands in for an empty name -/
def Resource.nameKey (r : Resource) : String := r.kind.name ++ ":" ++ (if r.name = "" then r.id else r.name)

def Resource.idKey (r : Resource) : String := r.kind.name ++ ":" ++ r.id

def newIndex (u : Unicode) (inv : Inventory) : Index :=
  let byAccount := lastWith Member.accountID inv.members
  { inv := inv
    byEmail := lastWith (fun m => toLower u m.email) inv.members
    byAccount := byAccount
    byName := fun name => inv.machines.flatMap fun m =>
      (if m.aliasName = name then [m] else []) ++
        (if qualifiedIn u byAccount m ≠ "" ∧ qualifiedIn u byAccount m = name then [m] else [])
    byMachineID := lastWith Machine.id inv.machines
    resources := lastWith Resource.nameKey inv.resources
    resourceIDs := lastWith Resource.idKey inv.resources }

/-! ## Resolving names -/

variable (u : Unicode) (x : Index)

/-- resolves "user:<email>" to an account ID -/
def Index.user (s : String) : Option String :=
  match cutPrefix s "user:" with
  | some email => (x.byEmail (toLower u email)).map Member.accountID
  | none => none

def Index.qualified (m : Machine) : String := qualifiedIn u x.byAccount m

/-- the alias, except for a personal machine whose alias another machine of the workspace also has -/
def Index.machineName (m : Machine) : String :=
  if (x.byName m.aliasName).length > 1 ∧ x.qualified u m ≠ "" then x.qualified u m else m.aliasName

/-- why a machine name does not resolve -/
inductive NameError where
  | unknownMachine
  | ambiguousMachine
deriving DecidableEq, Repr

def NameError.code : NameError → String
  | .unknownMachine => "unknown_machine"
  | .ambiguousMachine => "ambiguous_machine"

/-- the owner's email in "<owner email>/<alias>" is read ignoring case -/
def foldOwner (name : String) : String :=
  match cut name "/" with
  | (a, b, true) => toLower u a ++ "/" ++ b
  | _ => name

/-- among machines of one name, the only team-owned one is meant -/
def preferTeam (ms : List Machine) : List Machine :=
  if ms.length > 1 ∧ (ms.filter fun m => m.personalOwner = "").length = 1 then
    ms.filter fun m => m.personalOwner = ""
  else ms

/-- resolves a machine name (after "machine:") -/
def Index.machine (name : String) : Except NameError Machine :=
  match preferTeam (x.byName (foldOwner u name)) with
  | [] => .error .unknownMachine
  | [m] => .ok m
  | _ => .error .ambiguousMachine

/-- resolves a single dst ("machine:db1", "preview:<name>", "env:team") -/
def Index.target (s : String) : Option Target :=
  if (cut s ":").1 = "machine" then
    match x.machine u (cut s ":").2.1 with
    | .ok m => some ⟨.machine, m.id⟩
    | .error _ => none
  else if (cut s ":").1 = "preview" then (x.resources s).map fun r => ⟨.preview, r.id⟩
  else if (cut s ":").1 = "tunnel" then (x.resources s).map fun r => ⟨.tunnel, r.id⟩
  else if (cut s ":").1 = "env" then
    if (cut s ":").2.1 = "team" ∧ x.inv.team then some ⟨.env, x.inv.teamID⟩ else none
  else none

def Index.userLabel (account : String) : String :=
  match x.byAccount account with
  | some m => "user:" ++ toLower u m.email
  | none => "account:" ++ account

def Index.targetLabel (t : Target) : String :=
  match t.kind with
  | .machine =>
    match x.byMachineID t.id with
    | some m => "machine:" ++ x.machineName u m
    | none => t.kind.name ++ ":" ++ t.id
  | .env => "env:team"
  | _ =>
    match x.resourceIDs (t.kind.name ++ ":" ++ t.id) with
    | some r => if r.name ≠ "" then t.kind.name ++ ":" ++ r.name else t.kind.name ++ ":" ++ t.id
    | none => t.kind.name ++ ":" ++ t.id

end Paperboat.Policy
