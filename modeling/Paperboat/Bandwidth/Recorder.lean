/-
The bandwidth recorder of a host: absolute counters by stream, path and minute, flushed
to a state file and to the server.

A flush is cut where other goroutines can come between: the section under the lock that
expires counters and takes a snapshot, each write of the file, each request, and the
section that acknowledges a batch. A process ends at any moment, and the next one opens
the file. Every addition is a numbered chunk, and `chunks`, `unrecorded` and `expired`
say which chunks a field counts; `added`, `sent`, `acks` and `past` are the history.

Results:
- `lookup_add`, `lookup_expire`, `lookup_acknowledge`: the counters after each change;
- `Grown`: how a counter goes on from its snapshot, so that an equal report counts the
  same chunks (`Grown.same`);
- `Flying`: while a flush has keys to deliver, their counters are held, dirty and grown
  from the snapshot (`Flying.add`, `Ahead.acknowledge`, `ahead_dirty`).

Premises:
- times are in nanoseconds since the zero time;
- the memo of the keys, when a periodic flush is due and the checks of `Open` on files
  that `persist` never writes are left out.
-/
import Mathlib.Data.String.Basic
import Paperboat.Core.Table
import Paperboat.Core.Search
import Paperboat.Core.Machine

namespace Paperboat.Bandwidth

open Table

/-! ## Model -/

def maxCounters : ℕ := 8192
def minute : ℤ := 60 * 1000000000
def retention : ℤ := 7 * 24 * 60 * minute

def truncate (t : ℤ) : ℤ := t - t % minute

structure Path where
  mode : String
  nodeID : String
deriving DecidableEq, Repr

structure Binding where
  accessSessionID : String
  streamID : String
  consumer : String
  peerAccountID : String
  reverse : Bool
deriving DecidableEq, Repr

def samePath (before after : Path) : Path :=
  if before ≠ after then ⟨"unknown", ""⟩
  else if before.mode ≠ "direct" ∧ before.mode ≠ "relay" ∧ before.mode ≠ "edge" then ⟨"unknown", ""⟩
  else if before.mode = "direct" then { before with nodeID := "" }
  else before

structure NativeUsageReport where
  accessSessionID : String
  streamID : String
  consumer : String
  mode : String
  nodeID : String
  intervalStart : ℤ
  intervalEnd : ℤ
  uploadBytes : ℕ := 0
  downloadBytes : ℕ := 0
  peerAccountID : String
deriving DecidableEq, Repr

/-- the bytes of one addition -/
structure Chunk where
  number : ℕ
  bytes : ℕ
deriving DecidableEq, Repr

structure Counter where
  report : NativeUsageReport
  dirty : Bool := false
  chunks : List Chunk := []
deriving DecidableEq, Repr

structure State where
  counters : AList fun _ : String => Counter := ∅
  unrecordedBytes : ℕ := 0
  expiredBytes : ℕ := 0
  incomplete : Bool := false
  cleanShutdown : Bool := false
  unrecorded : List (String × Chunk) := []
  expired : List (String × Chunk) := []
  /-- how many additions there were when the image was taken -/
  seen : ℕ := 0

/-- the fields that are hashed for the key of a counter -/
structure CounterID where
  fields : List String
  intervalStart : ℤ
deriving DecidableEq

/-- the key of a counter; `digest` is the hex SHA-256 of the encoded fields -/
def key (digest : CounterID → String) (r : NativeUsageReport) : String :=
  digest ⟨[r.accessSessionID, r.streamID, r.consumer, r.mode, r.nodeID, r.peerAccountID], r.intervalStart⟩

def newReport (b : Binding) (p : Path) (now : ℤ) : NativeUsageReport where
  accessSessionID := b.accessSessionID
  streamID := b.streamID
  consumer := b.consumer
  mode := p.mode
  nodeID := p.nodeID
  intervalStart := truncate now
  intervalEnd := now
  peerAccountID := b.peerAccountID

def keyFor (digest : CounterID → String) (b : Binding) (p : Path) (now : ℤ) : String := key digest (newReport b p now)

def Counter.grow (c : Counter) (now : ℤ) (chunk : Chunk) (upload : Bool) : Counter where
  report := { c.report with
    intervalEnd := max c.report.intervalEnd now
    uploadBytes := c.report.uploadBytes + if upload then chunk.bytes else 0
    downloadBytes := c.report.downloadBytes + if upload then 0 else chunk.bytes }
  dirty := true
  chunks := c.chunks ++ [chunk]

/-- a full table: the acknowledged counters of earlier minutes go -/
def evict (full : Bool) (start : ℤ) (counters : AList fun _ : String => Counter) : AList fun _ : String => Counter :=
  select (fun c => !(full && !c.dirty && decide (c.report.intervalStart < start))) counters

/-- the table in which an addition under the key looks for room -/
def State.cleared (s : State) (id : String) (start : ℤ) : AList fun _ : String => Counter :=
  evict ((s.counters.lookup id).isNone && decide (maxCounters ≤ s.counters.entries.length)) start s.counters

/-- there is no counter under the key, and no room for one -/
def State.noRoom (s : State) (id : String) (start : ℤ) : Bool :=
  (s.counters.lookup id).isNone && decide (maxCounters ≤ (s.cleared id start).entries.length)

def State.add (digest : CounterID → String) (s : State) (b : Binding) (p : Path) (chunk : Chunk)
    (upload : Bool) (now : ℤ) : State :=
  let id := keyFor digest b p now
  let counters := s.cleared id (truncate now)
  if s.noRoom id (truncate now) then
    { s with
      counters
      unrecordedBytes := s.unrecordedBytes + chunk.bytes
      unrecorded := s.unrecorded ++ [(id, chunk)] }
  else
    { s with
      counters := counters.insert id
        (((s.counters.lookup id).getD { report := newReport b p now }).grow now chunk upload) }

def Counter.isExpired (c : Counter) (now : ℤ) : Bool := decide (retention < now - c.report.intervalStart)

def Counter.bytes (c : Counter) : ℕ := c.report.uploadBytes + c.report.downloadBytes

/-- the dirty counters that a flush drops -/
def State.dropped (s : State) (now : ℤ) : List (Sigma fun _ : String => Counter) :=
  s.counters.entries.filter fun e => e.2.isExpired now && e.2.dirty

def State.expire (s : State) (now : ℤ) : State :=
  { s with
    counters := select (fun c => !c.isExpired now) s.counters
    expiredBytes := s.expiredBytes + ((s.dropped now).map (·.2.bytes)).sum
    expired := s.expired ++ (s.dropped now).flatMap fun e => e.2.chunks.map (e.1, ·) }

/-- one counter of a batch, after the sink took it: clean if it is still the one that was sent -/
def acknowledgeOne (snapshot : State) (counters : AList fun _ : String => Counter) (id : String) :
    AList fun _ : String => Counter :=
  match counters.lookup id, snapshot.counters.lookup id with
  | some value, some sent => if value.report = sent.report then counters.insert id
      { value with dirty := false } else counters
  | _, _ => counters

def State.acknowledge (s snapshot : State) (batch : List String) : State :=
  { s with counters := batch.foldl (acknowledgeOne snapshot) s.counters }

/-- the keys of the dirty counters of a snapshot, sorted -/
def State.dirtyKeys (s : State) : List String :=
  Search.sortBy id ((s.counters.entries.filter (·.2.dirty)).map (·.1))

/-- what a new process has from the file -/
def restore : Option State → State
  | none => {}
  | some file => { file with incomplete := file.incomplete || !file.cleanShutdown, cleanShutdown := false }

/-- where the holder of the flush permit is -/
inductive Phase
  | idle
  /-- `image` is being written; then `keys` are delivered (`first`: an empty report is sent when there are none) -/
  | writing (image snapshot : State) (keys : List String) (first : Bool)
  | sending (snapshot : State) (keys : List String)
  | waiting (snapshot : State) (keys : List String)

structure Recorder where
  state : State := {}
  disk : Option State := none
  phase : Phase := .idle
  closing : Bool := false
  closed : Bool := false
  clock : ℤ
  added : List (String × Chunk) := []
  sent : List (String × NativeUsageReport) := []
  acks : List (String × List Chunk) := []
  /-- how many additions came before this process -/
  past : ℕ := 0

inductive Act
  | tick (d : ℕ)
  /-- a metered read or write of `n` bytes, whose time is `age` old when it gets the lock -/
  | metered (b : Binding) (read : Bool) (before after : Path) (n age : ℕ)
  | flush (clean : Bool)
  | checkpoint
  | persist (ok : Bool)
  | send
  | answer (ok : Bool)

namespace Recorder

variable (digest : CounterID → String)

variable (s : Recorder)

def image (state : State) : State := { state with seen := s.added.length }

/-- add, in the lock -/
def record (b : Binding) (p : Path) (n : ℕ) (upload : Bool) (now : ℤ) : Recorder :=
  { s with
    state := s.state.add digest b p ⟨s.added.length, n⟩ upload now
    added := s.added ++ [(keyFor digest b p now, ⟨s.added.length, n⟩)] }

/-- the first locked section of a flush -/
def begin (clean : Bool) : Recorder :=
  let state := { s.state.expire s.clock with cleanShutdown := s.state.cleanShutdown || clean }
  { s with
    state
    closing := clean
    phase := .writing (s.image state) (s.image state) (s.image state).dirtyKeys true }

def checkpoint : Recorder :=
  let state := { s.state with cleanShutdown := true }
  { s with state, closing := true, phase := .writing (s.image state) (s.image state) [] false }

def succeed : Recorder := { s with phase := .idle, closed := s.closed || s.closing }

/-- the reports and the chunks of a batch -/
def reportsOf (snapshot : State) (batch : List String) : List (String × NativeUsageReport) :=
  batch.filterMap fun k => (snapshot.counters.lookup k).map fun c => (k, c.report)

def chunksOf (snapshot : State) (batch : List String) : List (String × List Chunk) :=
  batch.map fun k => (k, ((snapshot.counters.lookup k).map (·.chunks)).getD [])

/-- the locked section after the sink took a batch -/
def acknowledge (snapshot : State) (keys : List String) : Recorder :=
  let state := s.state.acknowledge snapshot (keys.take 64)
  { s with
    state
    acks := chunksOf snapshot (keys.take 64) ++ s.acks
    phase := .writing (s.image state) snapshot (keys.drop 64) false }

def step (s : Recorder) : Act → Recorder
  | .tick d => { s with clock := s.clock + d }
  | .metered b read before after n age =>
    if s.closed || n == 0 then s
    else s.record digest b (samePath before after) n (if read then !b.reverse else b.reverse) (s.clock - age)
  | .flush clean =>
    match s.phase with
    | .idle => s.begin clean
    | _ => s
  | .checkpoint =>
    match s.phase with
    | .idle => s.checkpoint
    | _ => s
  | .persist ok =>
    match s.phase with
    | .writing image snapshot keys first =>
      if !ok then { s with phase := .idle, closing := false }
      else if keys.isEmpty && !first then succeed { s with disk := some image }
      else { s with disk := some image, phase := .sending snapshot keys }
    | _ => s
  | .send =>
    match s.phase with
    | .sending snapshot keys =>
      { s with sent := s.sent ++ reportsOf snapshot (keys.take 64), phase := .waiting snapshot keys }
    | _ => s
  | .answer ok =>
    match s.phase with
    | .waiting snapshot keys =>
      if !ok then { s with phase := .idle, closing := false }
      else if keys.isEmpty then s.succeed
      else s.acknowledge snapshot keys
    | _ => s

/-- the process ends, and the next one opens the file -/
def restart (s : Recorder) : Recorder :=
  { s with state := restore s.disk, phase := .idle, closing := false, closed := false, past := s.added.length }

end Recorder

/-! ## The counters after a change -/

theorem lookup_cleared (s : State) (id k : String) (start : ℤ) :
    ∃ gone : Counter → Bool, (∀ c, gone c = true → c.dirty = false) ∧
      (s.cleared id start).lookup k = (s.counters.lookup k).filter fun c => !gone c := by
  refine ⟨_, fun c hc => ?_, lookup_select _ _ k⟩
  simp only [Bool.and_eq_true, Bool.not_eq_true'] at hc
  exact hc.1.2

open State

section Add

variable {digest : CounterID → String} {s : State} {b : Binding} {p : Path} {chunk : Chunk}
    {upload : Bool} {now : ℤ} {k : String} {v : Counter}

/-- a counter after an addition is a new one of the key, or the one that was there, or that one grown -/
theorem lookup_add (h : (s.add digest b p chunk upload now).counters.lookup k = some v) :
    (k = keyFor digest b p now ∧ s.noRoom k (truncate now) = false ∧ s.counters.lookup k = none ∧
      v = ({ report := newReport b p now } : Counter).grow now chunk upload) ∨
    ∃ w, s.counters.lookup k = some w ∧ (v = w ∨ v = w.grow now chunk upload) := by
  have hold : (s.cleared (keyFor digest b p now) (truncate now)).lookup k = some v → s.counters.lookup k = some v := by
    intro hk
    obtain ⟨gone, -, heq⟩ := lookup_cleared s (keyFor digest b p now) k (truncate now)
    rw [heq] at hk
    exact (Option.filter_eq_some_iff.1 hk).1
  unfold add at h
  dsimp only at h
  split_ifs at h with hroom
  · exact .inr ⟨v, hold h, .inl rfl⟩
  · rw [Index.lookup_insert_if] at h
    split_ifs at h with hk
    · subst hk
      cases hlookup : s.counters.lookup (keyFor digest b p now) with
      | none => exact .inl ⟨rfl, by simpa using hroom, rfl, by simpa [hlookup] using h.symm⟩
      | some w => exact .inr ⟨w, rfl, .inr (by simpa [hlookup] using h.symm)⟩
    · exact .inr ⟨v, hold h, .inl rfl⟩

variable (digest b p chunk upload now)

/-- a counter stays, grown if it is the one of the key; or it is clean and evicted -/
theorem add_lookup (h : s.counters.lookup k = some v) :
    (s.add digest b p chunk upload now).counters.lookup k =
      (if k = keyFor digest b p now then some (v.grow now chunk upload) else some v) ∨
    (v.dirty = false ∧ k ≠ keyFor digest b p now ∧ (s.add digest b p chunk upload now).counters.lookup k = none) := by
  unfold add
  dsimp only
  by_cases hk : k = keyFor digest b p now
  · subst hk
    rw [if_neg (by simp [noRoom, h])]
    left
    simp [h]
  · obtain ⟨gone, hgone, heq⟩ := lookup_cleared s (keyFor digest b p now) k (truncate now)
    have hlookup : ∀ c : Counter, ((s.cleared (keyFor digest b p now) (truncate now)).insert
        (keyFor digest b p now) c).lookup k =
        (s.cleared (keyFor digest b p now) (truncate now)).lookup k := fun c => AList.lookup_insert_ne hk
    rw [h] at heq
    cases hg : gone v with
    | true =>
      refine .inr ⟨hgone v hg, hk, ?_⟩
      split_ifs <;> simp [hlookup, heq, Option.filter, hg]
    | false =>
      left
      split_ifs <;> simp [hlookup, heq, Option.filter, hg]

theorem add_stored (h : ¬s.noRoom (keyFor digest b p now) (truncate now) = true) :
    (s.add digest b p chunk upload now).counters.lookup (keyFor digest b p now) =
      some (((s.counters.lookup (keyFor digest b p now)).getD
        { report := newReport b p now }).grow now chunk upload) := by
  unfold add
  rw [if_neg h]
  exact AList.lookup_insert _

variable (s)

theorem add_pots : (s.add digest b p chunk upload now).expired = s.expired ∧
    (s.add digest b p chunk upload now).incomplete = s.incomplete ∧
    (s.add digest b p chunk upload now).unrecorded = s.unrecorded ++
      if s.noRoom (keyFor digest b p now) (truncate now) then [(keyFor digest b p now, chunk)] else [] := by
  unfold add
  by_cases h : s.noRoom (keyFor digest b p now) (truncate now) = true
  · rw [if_pos h, if_pos h]
    exact ⟨rfl, rfl, rfl⟩
  · rw [if_neg h, if_neg h]
    exact ⟨rfl, rfl, (List.append_nil _).symm⟩

end Add

variable {now : ℤ} {s : State} {k : String}

theorem lookup_expire {v : Counter} :
    (s.expire now).counters.lookup k = some v ↔ s.counters.lookup k = some v ∧ v.isExpired now = false := by
  change (select _ _).lookup k = some v ↔ _
  rw [lookup_select]
  simp

theorem mem_dropped {v : Counter} :
    ⟨k, v⟩ ∈ s.dropped now ↔ s.counters.lookup k = some v ∧ v.isExpired now = true ∧ v.dirty = true := by
  rw [dropped, List.mem_filter, Bool.and_eq_true]
  exact and_congr_left fun _ => AList.mem_lookup_iff.symm

theorem mem_dirtyKeys : k ∈ s.dirtyKeys ↔ ∃ v, s.counters.lookup k = some v ∧ v.dirty = true := by
  rw [dirtyKeys, Search.mem_sortBy, List.mem_map]
  refine ⟨fun h => ?_, fun h => ?_⟩
  · obtain ⟨⟨k', v⟩, hmem, rfl⟩ := h
    obtain ⟨hmem, hdirty⟩ := List.mem_filter.1 hmem
    exact ⟨v, AList.mem_lookup_iff.2 hmem, hdirty⟩
  · obtain ⟨v, hv, hdirty⟩ := h
    exact ⟨⟨k, v⟩, List.mem_filter.2 ⟨AList.mem_lookup_iff.1 hv, hdirty⟩, rfl⟩

/-- one counter after an acknowledgement -/
def acknowledged (snapshot : State) (batch : List String) (k : String) (v : Counter) : Counter :=
  if k ∈ batch ∧ (snapshot.counters.lookup k).map (·.report) = some v.report then { v with dirty := false } else v

theorem lookup_acknowledge (s snapshot : State) (batch : List String) (k : String) :
    (s.acknowledge snapshot batch).counters.lookup k = (s.counters.lookup k).map (acknowledged snapshot batch k) := by
  change (batch.foldl (acknowledgeOne snapshot) s.counters).lookup k = _
  generalize s.counters = counters
  induction batch generalizing counters with
  | nil => cases h : counters.lookup k <;> simp [acknowledged, h]
  | cons id batch ih =>
    rw [List.foldl_cons, ih]
    have hone : (acknowledgeOne snapshot counters id).lookup k =
        (counters.lookup k).map (acknowledged snapshot [id] k) := by
      unfold acknowledgeOne
      by_cases hk : k = id
      · subst hk
        cases hlive : counters.lookup k with
        | none => simp [hlive]
        | some value =>
          cases hsent : snapshot.counters.lookup k with
          | none => simp [hlive, acknowledged, hsent]
          | some sent =>
            by_cases hsame : value.report = sent.report <;> simp [hlive, acknowledged, hsent, hsame, eq_comm]
      · have hother : (counters.lookup k).map (acknowledged snapshot [id] k) = counters.lookup k := by
          cases counters.lookup k <;> simp [acknowledged, hk]
        rw [hother]
        split
        · split_ifs
          · exact AList.lookup_insert_ne hk
          · rfl
        · rfl
    rw [hone, Option.map_map]
    cases counters.lookup k with
    | none => rfl
    | some v =>
      simp only [Option.map_some, Function.comp, acknowledged, List.mem_cons, List.not_mem_nil, or_false]
      by_cases hk : k = id <;> by_cases hb : k ∈ batch <;>
        by_cases hr : (snapshot.counters.lookup k).map (·.report) = some v.report <;> simp [hk, hb, hr]

/-! ## From a snapshot on -/

/-- `c` is `c₀` with further additions -/
structure Grown (c₀ c : Counter) : Prop where
  chunks : c₀.chunks <+: c.chunks
  upload : c₀.report.uploadBytes ≤ c.report.uploadBytes
  download : c₀.report.downloadBytes ≤ c.report.downloadBytes
  same : c₀.bytes = c.bytes → c₀.chunks = c.chunks

theorem Grown.refl (c : Counter) : Grown c c := ⟨List.prefix_rfl, le_rfl, le_rfl, fun _ => rfl⟩

variable {chunk : Chunk} {upload : Bool} {c₀ c : Counter}

theorem Grown.grow (h : Grown c₀ c) (hpos : 0 < chunk.bytes) : Grown c₀ (c.grow now chunk upload) := by
  have hup := h.upload
  have hdown := h.download
  refine ⟨h.chunks.trans (List.prefix_append _ _), ?_, ?_, fun hsame => ?_⟩
  · exact hup.trans (Nat.le_add_right _ _)
  · exact hdown.trans (Nat.le_add_right _ _)
  · -- the new bytes are too many for an equal total
    simp only [Counter.bytes, Counter.grow] at hsame
    cases upload <;> simp at hsame <;> omega

/-- the counters of a snapshot that are still to be delivered are held, dirty and grown from the snapshot -/
def Ahead (s snapshot : State) (keys : List String) : Prop :=
  keys.Nodup ∧ ∀ k ∈ keys, ∃ c₀ c, snapshot.counters.lookup k = some c₀ ∧ s.counters.lookup k = some c ∧
    c.dirty = true ∧ Grown c₀ c

def Flying (s : State) : Phase → Prop
  | .idle => True
  | .writing _ snapshot keys _ | .sending snapshot keys | .waiting snapshot keys => Ahead s snapshot keys

variable {digest : CounterID → String} {keys : List String} {snapshot : State}

theorem Ahead.add (h : Ahead s snapshot keys) {b : Binding} {p : Path} (hpos : 0 < chunk.bytes) :
    Ahead (s.add digest b p chunk upload now) snapshot keys := by
  refine ⟨h.1, fun k hk => ?_⟩
  obtain ⟨c₀, c, h₀, hc, hdirty, hgrown⟩ := h.2 k hk
  obtain hkept | ⟨hclean, -⟩ := add_lookup digest b p chunk upload now hc
  · by_cases hkey : k = keyFor digest b p now
    · rw [if_pos hkey] at hkept
      exact ⟨c₀, _, h₀, hkept, rfl, hgrown.grow hpos⟩
    · rw [if_neg hkey] at hkept
      exact ⟨c₀, c, h₀, hkept, hdirty, hgrown⟩
  · rw [hclean] at hdirty
    cases hdirty

theorem Flying.add {phase : Phase} (h : Flying s phase) {b : Binding} {p : Path}
    (hpos : 0 < chunk.bytes) : Flying (s.add digest b p chunk upload now) phase := by
  cases phase with
  | idle => trivial
  | writing | sending | waiting => exact Ahead.add h hpos

theorem Ahead.acknowledge (h : Ahead s snapshot keys) :
    Ahead (s.acknowledge snapshot (keys.take 64)) snapshot (keys.drop 64) := by
  refine ⟨h.1.sublist (List.drop_sublist _ _), fun k hk => ?_⟩
  obtain ⟨c₀, c, h₀, hc, hdirty, hgrown⟩ := h.2 k (List.mem_of_mem_drop hk)
  have hlater : k ∉ keys.take 64 := fun htake => List.disjoint_take_drop h.1 le_rfl htake hk
  refine ⟨c₀, c, h₀, ?_, hdirty, hgrown⟩
  rw [lookup_acknowledge, hc, Option.map_some, acknowledged, if_neg fun hboth => hlater hboth.1]

theorem ahead_dirty (s : State) (n : ℕ) : Ahead s { s with seen := n } ({ s with seen := n } : State).dirtyKeys := by
  refine ⟨?_, fun k hk => ?_⟩
  · refine (List.perm_insertionSort _ _).nodup_iff.2 (List.Nodup.sublist (List.filter_sublist.map _) ?_)
    exact s.counters.nodupKeys
  · obtain ⟨v, hv, hdirty⟩ := mem_dirtyKeys.1 hk
    exact ⟨v, v, hv, hv, hdirty, Grown.refl v⟩

end Paperboat.Bandwidth
