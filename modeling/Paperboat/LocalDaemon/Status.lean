/-
The status snapshot of the local daemon: what is known of each machine, its validity,
and SnapshotStore.Update.

A machine has the transport fields that observations fill in, and the rest, of which
only the validity is used; the same holds of the snapshot around the machines (`Rules`).

Results:
- `summary_consumers`: what a valid summary says of the consumers it lists;
- `update_ok_iff`: an update is taken exactly if the clock is set, and nothing changes
  or the generations are not exhausted and the new snapshot is valid.

Premises:
- times are nanoseconds since the zero time;
- nil and empty lists are not told apart, and the watchers are left out.
-/
import Mathlib.Tactic

namespace Paperboat.LocalDaemon

/-! ## Transport fields -/

structure TransportConsumer where
  path : String
  activeConsumers : ℕ
  relayRegion : String := ""
deriving DecidableEq, Repr

structure Diagnostics where
  natMappingIPv4 : String := "unknown"
  natMappingIPv6 : String := "unknown"
  captivePortal : String := "unknown"
  pmtu : String := "unknown"
  routerProtocol : String := "unknown"
  routerMapping : String := "unknown"
  mappingLifetime : String := "unknown"
deriving DecidableEq, Repr

/-- the fields that a machine's status and an observation share -/
structure Transport where
  activeConsumers : ℕ := 0
  selectedPath : String := "none"
  transportConsumers : List TransportConsumer := []
  standbyPath : String := "none"
  relayRegion : String := ""
  diagnostics : Diagnostics := {}
deriving DecidableEq, Repr

def transportPaths : List String := ["direct", "relay", "wss"]

def safeValue (value : String) : Bool :=
  value != "" && decide (value.utf8ByteSize ≤ 128) && value.toList.all fun c => c.isAlphanum || c ∈ "_.:-".toList

/-- is a standby path named -/
def standbyNamed (standby : String) : Bool := standby != "" && standby != "none"

def regionOk (path region : String) : Bool := region == "" || (path == "relay" || path == "wss") && safeValue region

def consumerOk (c : TransportConsumer) : Bool :=
  decide (c.path ∈ transportPaths) && c.activeConsumers != 0 && regionOk c.path c.relayRegion

def transportSummary (selected : String) (total : ℕ) (consumers : List TransportConsumer)
    (standby region : String) : Bool :=
  decide (selected ∈ "none" :: "mixed" :: transportPaths) && decide (standby ∈ "" :: "none" :: transportPaths) &&
    !(total == 0 && standbyNamed standby) && !(standbyNamed standby && standby == selected) &&
      regionOk selected region &&
    if consumers = [] then selected != "mixed" && !(decide (0 < total) && selected == "none")
    else decide (consumers.length ≤ 3) && !standbyNamed standby && consumers.all consumerOk &&
      decide (consumers.map (·.path)).Nodup && decide ((consumers.map (·.activeConsumers)).sum < 2 ^ 64) &&
      (consumers.map (·.activeConsumers)).sum == total &&
      match consumers with
      | [c] => selected == c.path && region == c.relayRegion
      | _ => selected == "mixed" && region == ""

def Diagnostics.valid (d : Diagnostics) : Bool :=
  let natMapping (v : String) := decide (v ∈ ["unknown", "endpoint_independent", "destination_dependent"])
  natMapping d.natMappingIPv4 && natMapping d.natMappingIPv6 &&
    decide (d.captivePortal ∈ ["unknown", "clear", "suspected"]) &&
    decide (d.pmtu ∈ ["unknown", "below_quic_floor", "minimum_1200", "standard", "extended"]) &&
    decide (d.routerProtocol ∈ ["unknown", "none", "pcp", "nat_pmp", "upnp"]) &&
    decide (d.routerMapping ∈ ["unknown", "unavailable", "verified", "untrusted", "unreachable"]) &&
    decide (d.mappingLifetime ∈ ["unknown", "under_30s", "30s_to_2m", "2m_to_10m", "over_10m"])

def Transport.valid (t : Transport) : Bool :=
  transportSummary t.selectedPath t.activeConsumers t.transportConsumers t.standbyPath t.relayRegion &&
    t.diagnostics.valid

/-! ## Snapshots -/

/-- the validity of what is around the machines, and of the other fields of a machine -/
structure Rules (E R : Type) where
  envelope : E → Bool
  rest : R → Bool

structure MachineStatus (R : Type) where
  id : String
  transport : Transport
  rest : R
deriving DecidableEq

structure Snapshot (E R : Type) where
  generation : ℕ
  observedAt : ℤ
  envelope : E
  machines : List (MachineStatus R)
deriving DecidableEq

def maxMachines : ℕ := 10000

section

variable {E R : Type} [DecidableEq E] [DecidableEq R] (rules : Rules E R)

def MachineStatus.valid (m : MachineStatus R) : Bool := safeValue m.id && m.transport.valid && rules.rest m.rest

/-- the loop over the machines of a snapshot -/
def validMachines (machines : List (MachineStatus R)) : Bool :=
  decide (machines.map (·.id)).Nodup && machines.all (MachineStatus.valid rules)

def Snapshot.valid (s : Snapshot E R) : Bool :=
  s.generation != 0 && s.observedAt != 0 && rules.envelope s.envelope && decide (s.machines.length ≤ maxMachines) &&
    validMachines rules s.machines

inductive Refusal
  | permission
  | invalidResponse
  | staleObservation
  | observationLimit
  | invalidConfig
  | generationExhausted
deriving DecidableEq, Repr

def maxGeneration : ℕ := 2 ^ 64 - 1

/-- Update, with what the callback makes of the current snapshot -/
def update (now : ℤ) (current : Snapshot E R) (envelope : E) (machines : List (MachineStatus R)) :
    Except Refusal (Snapshot E R) :=
  if now = 0 then .error .invalidConfig
  else if envelope = current.envelope ∧ machines = current.machines then .ok current
  else if current.generation = maxGeneration then .error .generationExhausted
  else if Snapshot.valid rules ⟨current.generation + 1, now, envelope, machines⟩ then
    .ok ⟨current.generation + 1, now, envelope, machines⟩
  else .error .invalidResponse

variable {rules} {machines : List (MachineStatus R)}

/-- an update with valid surroundings is taken exactly if the clock is set and, unless nothing changes, a generation
is left and the machines are valid; it leaves the machines -/
theorem update_ok_iff {now : ℤ} {current : Snapshot E R} (hcurrent : current.valid rules = true)
    (hlength : machines.length = current.machines.length) :
    (∃ s, update rules now current current.envelope machines = .ok s) ↔
      now ≠ 0 ∧ (machines = current.machines ∨ current.generation ≠ maxGeneration) ∧
        validMachines rules machines = true := by
  simp only [Snapshot.valid, Bool.and_eq_true, decide_eq_true_eq] at hcurrent
  obtain ⟨⟨⟨⟨-, -⟩, henvelope⟩, hmany⟩, hmachines⟩ := hcurrent
  unfold update
  by_cases hnow : now = 0
  · simp [hnow]
  · by_cases hsame : machines = current.machines
    · simp [hnow, hsame, hmachines]
    · by_cases hgen : current.generation = maxGeneration
      · simp [hnow, hsame, hgen]
      · have hdesired : (⟨current.generation + 1, now, current.envelope, machines⟩ : Snapshot E R).valid rules =
            validMachines rules machines := by
          simp [Snapshot.valid, hnow, henvelope, hlength, hmany]
        rw [if_neg hnow, if_neg fun h => hsame h.2, hdesired]
        by_cases hvalid : validMachines rules machines = true <;> simp [hvalid, hnow, hgen]

/-- what an update that is taken leaves -/
theorem update_machines {now : ℤ} {current s : Snapshot E R} {envelope : E}
    (hcurrent : current.valid rules = true) (h : update rules now current envelope machines = .ok s) :
    s.machines = machines ∧ s.valid rules = true := by
  unfold update at h
  split_ifs at h with hnow hsame hgen hvalid
  · cases h
    exact ⟨hsame.2.symm, hcurrent⟩
  · cases h
    exact ⟨rfl, hvalid⟩

end

/-! ## What a valid summary says -/

variable {selected standby region : String} {total : ℕ} {consumers : List TransportConsumer}

section

variable (h : transportSummary selected total consumers standby region = true)
include h

/-- the listed consumers are valid and add up -/
theorem summary_consumers (hne : consumers ≠ []) :
    consumers.all consumerOk = true ∧ (consumers.map (·.activeConsumers)).sum = total ∧
      standbyNamed standby = false := by
  unfold transportSummary at h
  rw [if_neg hne] at h
  simp only [Bool.and_eq_true, Bool.not_eq_true', beq_iff_eq] at h
  exact ⟨h.2.1.1.1.1.2, h.2.1.2, h.2.1.1.1.1.1.2⟩

/-- with consumers a path is selected -/
theorem summary_selected_ne (hne : consumers ≠ []) : selected ≠ "none" := by
  have hall := List.all_eq_true.1 (summary_consumers h hne).1
  unfold transportSummary at h
  rw [if_neg hne] at h
  simp only [Bool.and_eq_true] at h
  have hlast := h.2.2
  intro hnone
  split at hlast
  · have hpath := hall _ List.mem_cons_self
    simp only [consumerOk, Bool.and_eq_true, decide_eq_true_eq, beq_iff_eq] at hpath hlast
    rw [← hlast.1, hnone] at hpath
    exact absurd hpath.1.1 (by decide)
  · simp [hnone] at hlast

end

/-- what is selected without consumers -/
theorem summary_selected (h : transportSummary selected total [] standby region = true) :
    selected ≠ "mixed" ∧ (0 < total → selected ≠ "none") ∧ selected ∈ "none" :: "mixed" :: transportPaths ∧
      regionOk selected region = true ∧ (total = 0 → standbyNamed standby = false) := by
  unfold transportSummary at h
  simp only [if_true, Bool.and_eq_true, Bool.not_eq_true', Bool.and_eq_false_iff, decide_eq_true_eq,
    decide_eq_false_iff_not, bne_iff_ne, beq_eq_false_iff_ne] at h
  obtain ⟨⟨⟨⟨⟨hselected, -⟩, hstandby⟩, -⟩, hregion⟩, hmixed, hnone⟩ := h
  exact ⟨hmixed, fun hpos => hnone.resolve_left (fun hno => hno hpos), hselected, hregion,
    fun hzero => hstandby.resolve_left (fun hne => hne hzero)⟩

end Paperboat.LocalDaemon
