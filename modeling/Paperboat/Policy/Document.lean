/-
The workspace policy document (`shared/policy/policy.go`, `shared/policy/rules.go`):
rules, groups, tags and tests as one parsed file holds them, the action and role names,
and the error list every check writes to.

A `Document` is what Parse returns, with what Parse guarantees as fields: every port
range of a rule is a range of ports 1 to 65535, and no group or tag is defined twice. A
Go map is the list of its entries.
-/
import Paperboat.Core.Text
import Paperboat.Policy.Ports

namespace Paperboat.Policy

open Text Search

/-! ## Actions and roles -/

def actionTerminal : String := "terminal"
def actionExec : String := "exec"
def actionManagedSSH : String := "managed_ssh"
def actionFiles : String := "files"
def actionPreviewManage : String := "preview_manage"
def actionTunnelManage : String := "tunnel_manage"
def actionPrivateAccess : String := "private_access"
def actionInspect : String := "inspect"
def actionReplay : String := "replay"
def actionENVRead : String := "env_read"
def actionENVWrite : String := "env_write"

/-- the machine capabilities of the server -/
def machineCapabilities : List String :=
  [actionTerminal, actionExec, actionManagedSSH, actionFiles, actionPreviewManage, actionTunnelManage,
    actionPrivateAccess]

/-- what "*" expands to: every action on a machine -/
def machineActions : List String := machineCapabilities ++ [actionInspect, actionReplay]

def resourceActions : List String := [actionInspect, actionReplay]

def envActions : List String := [actionENVRead, actionENVWrite]

def roles : List String := ["owner", "admin", "billing", "auditor", "member"]

/-- role:member is every member, role:admin owners and admins, the others match exactly -/
def roleMatches (name role : String) : Bool := name == "member" || name == role || (name == "admin" && role == "owner")

/-- ValidName: `^[a-z0-9][a-z0-9._-]{0,62}$` -/
def validName (s : String) : Bool :=
  let word := fun c : Char => ('a' ≤ c && c ≤ 'z') || ('0' ≤ c && c ≤ '9')
  match s.toList with
  | [] => false
  | c :: cs => word c && cs.length ≤ 62 && cs.all fun d => word d || d == '.' || d == '_' || d == '-'

/-! ## The document -/

structure Rule where
  src : List String
  dst : List String
  /-- nil in the file's absence -/
  allow : Option (List String)
  deny : Option (List String)
  ports : Option (List PortRange)
  note : String := ""
deriving DecidableEq, Repr

/-- the rule's action list and whether it is a deny rule -/
def Rule.actions (r : Rule) : List String × Bool :=
  match r.deny with
  | some list => (list, true)
  | none => (r.allow.getD [], false)

/-- the ranges a parsed rule may hold -/
def Rule.PortsValid (r : Rule) : Prop := ∀ p ∈ r.ports.getD [], p.Valid

instance (r : Rule) : Decidable r.PortsValid := inferInstanceAs (Decidable (∀ p ∈ r.ports.getD [], p.Valid))

structure Test where
  src : String
  dst : String
  allow : List String
  deny : List String
deriving DecidableEq, Repr

/-- one parsed policy file -/
structure Document where
  schema : String := ""
  allowPrivateAccess : Option Bool
  groups : List (String × List String)
  tags : List (String × List String)
  rules : List Rule
  tests : List Test
  groups_nodup : (groups.map Prod.fst).Nodup
  tags_nodup : (tags.map Prod.fst).Nodup
  ports_valid : ∀ r ∈ rules, r.PortsValid
deriving DecidableEq

/-- the same file with its rules in another order, or fewer of them -/
def Document.withRules (d : Document) (rs : List Rule) (h : ∀ r ∈ rs, r ∈ d.rules) : Document :=
  { d with rules := rs, ports_valid := fun r hr => d.ports_valid r (h r hr) }

/-- bounds on a policy; a field that is not positive is off -/
structure Limits where
  maxBytes : Int := 0
  maxRules : Int := 0
  maxTags : Int := 0
  maxGroups : Int := 0
  maxEntriesPerList : Int := 0
  maxTests : Int := 0
deriving DecidableEq, Repr

/-! ## Errors -/

/-- one validation failure: a JSON Pointer into the file, a stable code, a text for people -/
structure Error where
  path : String
  code : String
  message : String
deriving DecidableEq, Repr

/-- sorted by path, then code, then message -/
def Error.sorted (es : List Error) : List Error := sortBy (fun e : Error => [e.path, e.code, e.message]) es

/-- one part of a JSON Pointer: "~" is written "~0" and "/" is written "~1" -/
def pointerPart (s : String) : String :=
  String.ofList (s.toList.flatMap fun c => if c = '~' then ['~', '0'] else if c = '/' then ['~', '1'] else [c])

def pointer (base : String) (parts : List String) : String :=
  parts.foldl (fun b p => b ++ "/" ++ pointerPart p) base

theorem sorted_eq_nil {es : List Error} : Error.sorted es = [] ↔ es = [] := by
  have hp : (Error.sorted es).Perm es := List.perm_insertionSort _ _
  constructor
  · intro h; rw [h] at hp; exact hp.nil_eq.symm
  · rintro rfl; exact hp.eq_nil

end Paperboat.Policy
