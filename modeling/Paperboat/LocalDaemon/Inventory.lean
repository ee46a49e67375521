/-
The periodic refresh of the machine list. Inventory.Refresh makes every machine anew
from the server's list and takes over what observations have found
(preserveLocalObservations): every transport field but the list of consumers.

Results:
- `preserve_keeps_iff`: a machine keeps its transport fields exactly if it had no
  consumers listed;
- `inventory_keeps_iff`: **a refresh** is not refused for what it takes over and leaves
  the transport fields of every machine that stays exactly if none of them has consumers
  listed.

Witnesses:
- `mixed_refused`: two observations leave a machine with two paths, and the next refresh
  is refused.
-/
import Paperboat.LocalDaemon.Observations

namespace Paperboat.LocalDaemon

open ObservationStore

variable {E R : Type}

/-- the machines of the server's list with what was observed; a later machine of the same ID takes precedence -/
def preserveLocalObservations (machines current : List (MachineStatus R)) : List (MachineStatus R) :=
  machines.map fun m =>
    match current.reverse.find? (·.id == m.id) with
    | some observed =>
      { m with transport := { observed.transport with transportConsumers := m.transport.transportConsumers } }
    | none => m

/-- a refresh for which the server has answered -/
def refresh [DecidableEq E] [DecidableEq R] (rules : Rules E R) (now : ℤ) (current : Snapshot E R) (envelope : E)
    (mapped : List (MachineStatus R)) : Except Refusal (Snapshot E R) :=
  update rules now current envelope (preserveLocalObservations mapped current.machines)

/-- the machines of a list: valid, with distinct IDs, and nothing in use -/
abbrev Mapped (rules : Rules E R) : Type :=
  { l : List (MachineStatus R) // validMachines rules l = true ∧ ∀ m ∈ l, m.transport = {} }

/-- a refresh with valid surroundings is not refused as invalid, and leaves the transport fields of the machines
that stay -/
def Keeps [DecidableEq E] [DecidableEq R] (rules : Rules E R) (current : Snapshot E R)
    (mapped : List (MachineStatus R)) : Prop :=
  (∀ now envelope, rules.envelope envelope = true → mapped.length ≤ maxMachines →
    refresh rules now current envelope mapped ≠ .error .invalidResponse) ∧
  ∀ m ∈ preserveLocalObservations mapped current.machines, ∀ c ∈ current.machines, c.id = m.id →
    m.transport = c.transport

/-- the one machine with the ID -/
theorem find_machine {current : List (MachineStatus R)} (hnodup : (current.map (·.id)).Nodup) {c : MachineStatus R}
    (hc : c ∈ current) : current.reverse.find? (·.id == c.id) = some c := by
  cases hfind : current.reverse.find? (·.id == c.id) with
  | none => exact absurd (List.find?_eq_none.1 hfind c (List.mem_reverse.2 hc)) (by simp)
  | some d =>
    have hid : d.id = c.id := by simpa using List.find?_some hfind
    have hd : d ∈ current := List.mem_reverse.1 (List.mem_of_find?_eq_some hfind)
    rw [List.inj_on_of_nodup_map hnodup hd hc hid]

variable {current mapped : List (MachineStatus R)}

/-- a machine of the list with what was observed of it: the fields are kept exactly if no consumers were listed -/
theorem preserve_keeps_iff (hcurrent : (current.map (·.id)).Nodup) (hmapped : ∀ m ∈ mapped, m.transport = {}) :
    (∀ m ∈ preserveLocalObservations mapped current, ∀ c ∈ current, c.id = m.id → m.transport = c.transport) ↔
      ∀ c ∈ current, c.id ∈ mapped.map (·.id) → c.transport.transportConsumers = [] := by
  constructor
  · intro h c hc hid
    obtain ⟨m, hm, hid⟩ := List.mem_map.1 hid
    have hkept := h _ (List.mem_map_of_mem hm) c hc (by rw [hid, find_machine hcurrent hc])
    rw [hid, find_machine hcurrent hc] at hkept
    have hconsumers := congrArg Transport.transportConsumers hkept
    rw [hmapped m hm] at hconsumers
    exact hconsumers.symm
  · intro h m' hm' c hc hid
    obtain ⟨m, hm, rfl⟩ := List.mem_map.1 hm'
    have hid' : c.id = m.id := by
      split at hid <;> exact hid
    rw [← hid', find_machine hcurrent hc]
    have hnone := h c hc (List.mem_map.2 ⟨m, hm, hid'.symm⟩)
    rw [hmapped m hm, ← hnone]

/-- machines that keep valid transport fields are valid -/
theorem preserve_valid {rules : Rules E R} (hcurrent : validMachines rules current = true)
    (hmapped : validMachines rules mapped = true)
    (hkept : ∀ m ∈ preserveLocalObservations mapped current, ∀ c ∈ current, c.id = m.id → m.transport = c.transport) :
    validMachines rules (preserveLocalObservations mapped current) = true := by
  simp only [validMachines, Bool.and_eq_true, decide_eq_true_eq, List.all_eq_true] at hcurrent hmapped ⊢
  have hids : (preserveLocalObservations mapped current).map (·.id) = mapped.map (·.id) := by
    rw [preserveLocalObservations, List.map_map]
    apply List.map_congr_left
    intro m _
    dsimp only [Function.comp_apply]
    split <;> rfl
  refine ⟨hids ▸ hmapped.1, fun m' hm' => ?_⟩
  have hm'' := hm'
  obtain ⟨m, hm, rfl⟩ := List.mem_map.1 hm'
  have hvalid := hmapped.2 m hm
  cases hfind : current.reverse.find? (·.id == m.id) with
  | none => exact hvalid
  | some c =>
    rw [hfind] at hm''
    have hc : c ∈ current := List.mem_reverse.1 (List.mem_of_find?_eq_some hfind)
    have htransport := hkept _ hm'' c hc (by simpa using List.find?_some hfind)
    have hcvalid := hcurrent.2 c hc
    simp only [MachineStatus.valid, Bool.and_eq_true] at hvalid hcvalid ⊢
    exact ⟨⟨hvalid.1.1, htransport ▸ hcvalid.1.2⟩, hvalid.2⟩

/-- **A refresh.** For every valid snapshot and every list of valid machines with nothing in use, the refresh is not
refused for what it takes over, and leaves the transport fields of the machines that stay, exactly if none of them
has consumers listed. -/
theorem inventory_keeps_iff {E R : Type} [DecidableEq E] [DecidableEq R] (rules : Rules E R)
    (current : { s : Snapshot E R // s.valid rules = true }) (mapped : Mapped rules) : Keeps rules current.1 mapped.1 ↔
      ∀ c ∈ current.1.machines, c.id ∈ mapped.1.map (·.id) → c.transport.transportConsumers = [] := by
  have hmachines : validMachines rules current.1.machines = true := by
    have hvalid := current.2
    simp only [Snapshot.valid, Bool.and_eq_true] at hvalid
    exact hvalid.2
  have hnodup : (current.1.machines.map (·.id)).Nodup := by
    simp only [validMachines, Bool.and_eq_true, decide_eq_true_eq] at hmachines
    exact hmachines.1
  rw [← preserve_keeps_iff hnodup mapped.2.2]
  constructor
  · intro h
    exact h.2
  · intro hkept
    refine ⟨fun now envelope henvelope hlength herror => ?_, hkept⟩
    have hvalid := preserve_valid hmachines mapped.2.1 hkept
    have hlen : (preserveLocalObservations mapped.1 current.1.machines).length = mapped.1.length := List.length_map _
    by_cases hnow : now = 0
    · rw [refresh, update, if_pos hnow] at herror
      cases herror
    · have hdesired : Snapshot.valid rules ⟨current.1.generation + 1, now, envelope,
          preserveLocalObservations mapped.1 current.1.machines⟩ = true := by
        simp [Snapshot.valid, hnow, henvelope, hlen, hlength, hvalid]
      rw [refresh, update, if_pos hdesired] at herror
      split_ifs at herror
      cases herror

/-- a consumer on the relay, seen at the 100th second -/
def seenRelay : TransportObservation :=
  { sourceID := "r", sequence := 1, observedAt := 100 * second, expiresAt := 120 * second, machineID := "m",
    transport := { activeConsumers := 1, selectedPath := "relay" } }

/-- one source reports a direct path and another the relay -/
def bothPaths : ObservationStore Unit Unit :=
  Machine.run (step ⟨fun _ => true, fun _ => true⟩ ⟨7, ""⟩)
    (start oneMachine (100 * second))
    [.publish byKey { uid := 7, pid := 1 } (seenDirect "d" "" (120 * second)) 0,
      .publish byKey { uid := 7, pid := 1 } seenRelay 0]

/-- the machine is in use on both paths, and the next refresh is refused -/
theorem mixed_refused :
    bothPaths.snapshot.machines.map (·.transport.selectedPath) = ["mixed"] ∧
      refresh ⟨fun _ => true, fun _ => true⟩ (101 * second) bothPaths.snapshot () [⟨"m", {}, ()⟩] =
        .error .invalidResponse := by
  decide +kernel

end Paperboat.LocalDaemon
