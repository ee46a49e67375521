/-
One complete flush against a server that works: which reports get there.

The recorder first expires what is older than its retention, then sends the dirty
counters by key in batches of 64 and stops at the first batch that is refused. The
server checks every report of a batch before it stores any, so one that it cannot accept
yet, or any more, refuses the others of its batch, and keeps the later batches from
being sent.

Results:
- `deliver_iff`: what is delivered are the batches before the first refused one;
- `delivered_iff`: **a flush delivers** every dirty counter that the server would accept
  exactly if it expires none of them and no report that is refused stands in their batch
  or in one before it.

Witnesses:
- `ahead_not_delivered`: a report from a clock that is ahead keeps back an older one of
  its batch.
-/
import Paperboat.Core.Text
import Paperboat.Bandwidth.Recorder

namespace Paperboat.Bandwidth

def maxReports : ℕ := 64
def deliveryWindow : ℤ := 7 * 24 * 60 * minute
def maxCounter : ℕ := 2 ^ 40

def nativeConsumers : List String :=
  ["terminal", "exec", "ssh", "file", "file_transfer", "file_transfer_key", "private_http", "private_tcp", "inspector",
    "config_compare"]

/-- NativeReport.validate passes -/
def NativeUsageReport.validate (r : NativeUsageReport) (now : ℤ) : Bool :=
  r.accessSessionID != "" && decide (r.accessSessionID.utf8ByteSize ≤ 256) && r.streamID != "" &&
    decide (r.streamID.utf8ByteSize ≤ 128) && decide (r.nodeID.utf8ByteSize ≤ 256) &&
      Text.trimSpace r.streamID == r.streamID &&
    decide (r.uploadBytes ≤ maxCounter) && decide (r.downloadBytes ≤ maxCounter) &&
  r.intervalStart != 0 && r.intervalStart == truncate r.intervalStart && decide (r.intervalStart ≤ r.intervalEnd) &&
    decide (r.intervalEnd ≤ r.intervalStart + minute) && decide (r.intervalEnd ≤ now + minute) &&
    decide (now - r.intervalEnd ≤ deliveryWindow) &&
  (r.mode == "direct" && r.nodeID == "" || r.mode == "relay" || r.mode == "edge" ||
    r.mode == "unknown" && r.nodeID == "") && nativeConsumers.contains r.consumer &&
  (r.peerAccountID == "" || decide (r.peerAccountID.utf8ByteSize ≤ 256) && r.mode != "edge" &&
    (r.consumer == "terminal" || r.consumer == "exec" || r.consumer == "ssh"))

/-- a report with the key that the recorder has for it -/
abbrev Entry : Type := String × NativeUsageReport

structure NativeReceipt where
  stored : List Entry
  rejected : List Entry
deriving DecidableEq

/-- RecordNative: the reports without an authority or without capacity (not `allowed`) are rejected one by one -/
def recordNative (allowed : NativeUsageReport → Bool) (now : ℤ) (batch : List Entry) : Option NativeReceipt :=
  if decide (batch.length ≤ maxReports) && batch.all (·.2.validate now) then
    some ⟨batch.filter (allowed ·.2), batch.filter (!allowed ·.2)⟩
  else none

/-- the loop of flush over the entries still to be sent, from batch `i` on: the receipts -/
def deliver (allowed : NativeUsageReport → Bool) (server : ℕ → ℤ) (i : ℕ) (entries : List Entry) : List NativeReceipt :=
  if _h : entries = [] then []
  else match recordNative allowed (server i) (entries.take 64) with
    | none => []
    | some receipt => receipt :: deliver allowed server (i + 1) (entries.drop 64)
termination_by entries.length
decreasing_by
  have := List.length_pos_of_ne_nil _h
  rw [List.length_drop]
  omega

/-- what a flush at the host's time `now` is to send, in the order of the keys -/
def State.due (s : State) (now : ℤ) : List Entry := Recorder.reportsOf (s.expire now) (s.expire now).dirtyKeys

/-- the entry was stored or listed as rejected -/
def Delivered (receipts : List NativeReceipt) (e : Entry) : Prop :=
    ∃ receipt ∈ receipts, e ∈ receipt.stored ∨ e ∈ receipt.rejected

def batchOf (entries : List Entry) (i : ℕ) : List Entry := (entries.drop (64 * i)).take 64

variable {allowed : NativeUsageReport → Bool} {server : ℕ → ℤ}

theorem recordNative_isSome (allowed : NativeUsageReport → Bool) (now : ℤ) (entries : List Entry) :
    (recordNative allowed now (entries.take 64)).isSome = (batchOf entries 0).all (·.2.validate now) := by
  unfold recordNative batchOf
  cases hall : (entries.take 64).all (·.2.validate now) <;> simp [maxReports, hall]

theorem mem_receipt {now : ℤ} {batch : List Entry} {receipt : NativeReceipt}
    (h : recordNative allowed now batch = some receipt)
    (e : Entry) : e ∈ receipt.stored ∨ e ∈ receipt.rejected ↔ e ∈ batch := by
  unfold recordNative at h
  split_ifs at h
  cases h
  cases he : allowed e.2 <;> simp [he]

theorem batchOf_drop (entries : List Entry) (j : ℕ) : batchOf (entries.drop 64) j = batchOf entries (j + 1) := by
  rw [batchOf, batchOf, List.drop_drop, Nat.mul_add, Nat.add_comm (64 * j)]

/-- what is delivered are the entries of the batches that, with all before them, the server accepts -/
theorem deliver_iff (i : ℕ) (entries : List Entry) (e : Entry) :
    Delivered (deliver allowed server i entries) e ↔
      ∃ j, e ∈ batchOf entries j ∧ ∀ l ≤ j, (batchOf entries l).all (·.2.validate (server (i + l))) = true := by
  induction hn : entries.length using Nat.strong_induction_on generalizing i entries with
  | h n ih =>
    unfold deliver
    by_cases hnil : entries = []
    · simp [hnil, Delivered, batchOf]
    · rw [dif_neg hnil]
      have hall := recordNative_isSome allowed (server i) entries
      cases hrecord : recordNative allowed (server i) (entries.take 64) with
      | none =>
        rw [hrecord] at hall
        refine iff_of_false (by simp [Delivered]) fun h => ?_
        obtain ⟨j, -, hbefore⟩ := h
        exact absurd (hbefore 0 (Nat.zero_le _)) (by simp [← hall])
      | some receipt =>
        rw [hrecord] at hall
        have hshorter : (entries.drop 64).length < n := by
          have := List.length_pos_of_ne_nil hnil
          rw [List.length_drop]
          omega
        have hcons : Delivered (receipt :: deliver allowed server (i + 1) (entries.drop 64)) e ↔
            e ∈ batchOf entries 0 ∨ Delivered (deliver allowed server (i + 1) (entries.drop 64)) e := by
          have hmem := mem_receipt hrecord e
          simp [Delivered, batchOf, ← hmem]
        have hshift : ∀ l, (batchOf (entries.drop 64) l).all (·.2.validate (server (i + 1 + l))) =
            (batchOf entries (l + 1)).all (·.2.validate (server (i + (l + 1)))) := by
          intro l
          rw [batchOf_drop, Nat.add_assoc, Nat.add_comm 1]
        rw [hcons, ih _ hshorter (i + 1) (entries.drop 64) rfl]
        refine ⟨fun h => ?_, fun h => ?_⟩
        · obtain h | ⟨j, hj, hbefore⟩ := h
          · exact ⟨0, h, fun l hl => by rw [Nat.le_zero.1 hl]; exact hall.symm⟩
          · refine ⟨j + 1, batchOf_drop entries j ▸ hj, fun l hl => ?_⟩
            cases l with
            | zero => exact hall.symm
            | succ l => exact hshift l ▸ hbefore l (by omega)
        · obtain ⟨j, hj, hbefore⟩ := h
          cases j with
          | zero => exact .inl hj
          | succ j =>
            exact .inr ⟨j, (batchOf_drop entries j).symm ▸ hj, fun l hl => hshift l ▸ hbefore (l + 1) (by omega)⟩

/-- the server would accept the report on its own: when its batch comes, or, if the flush expires it, when the flush
starts -/
def Acceptable (sentAt : ℕ → ℤ) (difference : ℤ) (s : State) (now : ℤ) (k : String) (v : Counter) : Prop :=
  if v.isExpired now = true then v.report.validate (now + difference) = true
  else ∃ j, (k, v.report) ∈ batchOf (s.due now) j ∧ v.report.validate (sentAt j + difference) = true

/-- **A flush delivers.** Batch `i` is sent at the host's time `sentAt i`, and the server's clock differs by a
constant. Every dirty counter whose report the server would accept on its own is delivered exactly if each of them
is not expired by the flush and stands in a batch such that the server accepts every report of that batch and of
those before it. -/
theorem delivered_iff (allowed : NativeUsageReport → Bool) (sentAt : ℕ → ℤ) (difference : ℤ) (s : State) (now : ℤ) :
    (∀ k v, s.counters.lookup k = some v → v.dirty = true → Acceptable sentAt difference s now k v →
        Delivered (deliver allowed (fun i => sentAt i + difference) 0 (s.due now)) (k, v.report)) ↔
      ∀ k v, s.counters.lookup k = some v → v.dirty = true → Acceptable sentAt difference s now k v →
        v.isExpired now = false ∧ ∃ j, (k, v.report) ∈ batchOf (s.due now) j ∧
          ∀ l ≤ j, ∀ e ∈ batchOf (s.due now) l, e.2.validate (sentAt l + difference) = true := by
  have hexpired : ∀ k v j, s.counters.lookup k = some v → (k, v.report) ∈ batchOf (s.due now) j →
      v.isExpired now = false := by
    intro k v j hv hmem
    obtain ⟨k', -, hk'⟩ := List.mem_filterMap.1 (List.mem_of_mem_drop (List.mem_of_mem_take hmem))
    obtain ⟨w, hw, heq⟩ := Option.map_eq_some_iff.1 hk'
    obtain ⟨hold, hkept⟩ := lookup_expire.1 hw
    obtain rfl : k' = k := congrArg Prod.fst heq
    cases hold.symm.trans hv
    exact hkept
  refine forall_congr' fun k => forall_congr' fun v => imp_congr_right fun hv => imp_congr_right fun _ =>
    imp_congr_right fun _ => ?_
  rw [deliver_iff]
  simp only [Nat.zero_add, List.all_eq_true]
  refine ⟨fun h => ?_, fun h => h.2⟩
  obtain ⟨j, hj, hbefore⟩ := h
  exact ⟨hexpired k v j hv hj, j, hj, hbefore⟩

/-- a host two minutes ahead of the server: a counter of ten minutes ago, and one of the current minute -/
def ahead : State where
  counters := ((∅ : AList fun _ : String => Counter).insert "b"
    ⟨⟨"session", "b", "exec", "direct", "", 600 * minute, 600 * minute, 5, 0, ""⟩,
    true, []⟩).insert "a" ⟨⟨"session", "a", "exec", "direct", "", 590 * minute, 590 * minute, 5, 0, ""⟩, true, []⟩

/-- the older report would be accepted, and is not delivered -/
theorem ahead_not_delivered :
    ¬∀ k v, ahead.counters.lookup k = some v → v.dirty = true →
      Acceptable (fun _ => 600 * minute) (-2 * minute) ahead (600 * minute) k v →
      Delivered (deliver (fun _ => true) (fun _ => 600 * minute + -2 * minute) 0 (ahead.due (600 * minute)))
        (k, v.report) := by
  intro h
  have hnone : deliver (fun _ => true) (fun _ => 600 * minute + -2 * minute) 0 (ahead.due (600 * minute)) = [] := by
    decide +kernel
  have hdelivered := h "a"
    ⟨⟨"session", "a", "exec", "direct", "", 590 * minute, 590 * minute, 5, 0, ""⟩, true, []⟩ rfl rfl
    (by rw [Acceptable, if_neg (by decide)]; exact ⟨0, by decide +kernel, by decide +kernel⟩)
  rw [hnone] at hdelivered
  obtain ⟨receipt, hmem, -⟩ := hdelivered
  cases hmem

end Paperboat.Bandwidth
