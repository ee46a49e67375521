/-
Enforcement rows (`shared/policy/rows.go`): one rule entry as the server stores it.
Subjects and targets stay symbolic (a role, every member, a group, a tag, every
machine); accounts, machines, previews and tunnels are named by ID.
-/
import Paperboat.Policy.Inventory

namespace Paperboat.Policy

open Text

inductive SubjectKind where
  | all
  | role
  | account
  | group
  | token
deriving DecidableEq, Repr

inductive RowTarget where
  | allMachines
  | tag
  /-- a machine, preview, tunnel or env by ID -/
  | one (kind : TargetKind)
  /-- the zero Target of a name that does not resolve; rows are only made of names that do -/
  | zero
deriving DecidableEq, Repr

structure Row where
  rule : ℕ
  deny : Bool
  subjectKind : SubjectKind
  subjectID : String
  targetKind : RowTarget
  targetID : String
  action : String
  ports : List PortRange
deriving DecidableEq, Repr

/-- the action list with "*" written out -/
def expandActions (list : List String) : List String := list.flatMap fun a => if a = "*" then machineActions else [a]

section

variable (u : Unicode) (x : Index)

def symbolicSubject (s : String) : SubjectKind × String :=
  if s = "*" then (.all, "")
  else if (cut s ":").1 = "user" then (.account, (x.user u s).getD "")
  else if (cut s ":").1 = "group" then (.group, s)
  else (.role, (cut s ":").2.1)

def symbolicTarget (d : String) : RowTarget × String :=
  if d = "machine:*" then (.allMachines, "")
  else if hasPrefix d "tag:" then (.tag, d)
  else
    match x.target u d with
    | some t => (.one t.kind, t.id)
    | none => (.zero, "")

/-- the ports of a rule's private_access rows -/
def rowPorts (r : Rule) : List PortRange :=
  match r.ports with
  | some ps => mergePorts ps
  | none => if r.actions.2 then allPorts else [defaultPrivatePorts]

def symbolicRows (idx : ℕ) (r : Rule) : List Row :=
  r.src.flatMap fun s => r.dst.flatMap fun d => (expandActions r.actions.1).map fun a =>
    { rule := idx, deny := r.actions.2
      subjectKind := (symbolicSubject u x s).1, subjectID := (symbolicSubject u x s).2
      targetKind := (symbolicTarget u x d).1, targetID := (symbolicTarget u x d).2
      action := a, ports := if a = actionPrivateAccess then rowPorts r else allPorts }

end

/-- sort.SliceStable by rule -/
def sortRows (rows : List Row) : List Row := rows.insertionSort fun a b => a.rule ≤ b.rule

/-- what the server writes for one policy version -/
structure Stored where
  rows : List Row
  /-- group name and its accounts -/
  groups : List (String × List String)
  /-- tag name and its machines -/
  tags : List (String × List String)
  allowPrivateAccess : Bool

end Paperboat.Policy
