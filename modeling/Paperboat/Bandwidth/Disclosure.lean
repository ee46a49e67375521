/-
Recorder processes one after another on one state file: bytes that are lost when a
process ends, and the mark that tells of it.

`Open` takes the mark CleanShutdown off only in memory; the file keeps it until the next
write. A process that ends before that leaves a file that looks like one of a clean
shutdown, and so does a process that goes on after a Close that failed.

Results:
- `Image`: what an image of the state (the live one, the file, the one being written)
  counts, and of which additions;
- `Inv.act`: every step of a process keeps it; `Inv.restart`: the end of a process does,
  if the file is marked;
- `lost_disclosed_iff`: **lost bytes are disclosed** throughout a run exactly if no
  process ends with an addition after the image in the file, and with a file that is
  missing or marked as clean and complete.

Witnesses:
- `crash_not_disclosed`: a process ends before it has written, and the file looks
  complete.
-/
import Paperboat.Bandwidth.Recorder

namespace Paperboat.Bandwidth

open Recorder

/-! ## What an image counts -/

/-- a counter, the unrecorded or the expired bytes of the state have the chunk -/
def Counts (x : State) (c : Chunk) : Prop :=
  (∃ k v, x.counters.lookup k = some v ∧ c ∈ v.chunks) ∨ c ∈ (x.unrecorded ++ x.expired).map (·.2)

def Acked (acks : List (String × List Chunk)) (c : Chunk) : Prop := ∃ e ∈ acks, c ∈ e.2

/-- `x` is an image of the state after the first `n` additions: what it does not count was acknowledged, or it is
incomplete -/
structure Image (acks : List (String × List Chunk)) (added : List (String × Chunk)) (x : State) (n : ℕ) : Prop where
  le : n ≤ added.length
  fresh : ∀ c, Counts x c → c.number < n
  covered : ∀ e ∈ added, e.2.number < n → Counts x e.2 ∨ Acked acks e.2 ∨ x.incomplete = true
  clean : ∀ k v, x.counters.lookup k = some v → v.dirty = false → ∀ c ∈ v.chunks, Acked acks c

variable {acks acks' : List (String × List Chunk)} {added : List (String × Chunk)} {x : State} {n : ℕ}

theorem Image.acked (h : Image acks added x n) (hsub : ∀ c, Acked acks c → Acked acks' c) : Image acks' added x n := by
  refine ⟨h.le, h.fresh, fun e he hn => ?_, fun k v hv hclean c hc => hsub c (h.clean k v hv hclean c hc)⟩
  obtain hcounts | hacked | hincomplete := h.covered e he hn
  · exact .inl hcounts
  · exact .inr (.inl (hsub _ hacked))
  · exact .inr (.inr hincomplete)

/-- a later addition is not one of the image's -/
theorem Image.later (h : Image acks added x n) {k : String} {bytes : ℕ} :
    Image acks (added ++ [(k, ⟨added.length, bytes⟩)]) x n := by
  refine ⟨h.le.trans (by simp), h.fresh, fun e he hn => ?_, h.clean⟩
  obtain he | he := List.mem_append.1 he
  · exact h.covered e he hn
  · obtain rfl := List.mem_singleton.1 he
    exact absurd hn (not_lt.2 h.le)

theorem Image.add (h : Image acks added x added.length) (hnumbers : ∀ e ∈ added, e.2.number < added.length)
    (digest : CounterID → String) (b : Binding) (p : Path)
    (bytes : ℕ) (upload : Bool) (now : ℤ) (k : String) :
    Image acks (added ++ [(k, ⟨added.length, bytes⟩)]) (x.add digest b p ⟨added.length, bytes⟩ upload now)
      (added.length + 1) := by
  set chunk : Chunk := ⟨added.length, bytes⟩
  obtain ⟨hexpired, hincomplete, hunrecorded⟩ := add_pots digest x b p chunk upload now
  have hpots : (x.add digest b p chunk upload now).unrecorded ++ (x.add digest b p chunk upload now).expired =
      x.unrecorded ++ (if x.noRoom (keyFor digest b p now) (truncate now)
        then [(keyFor digest b p now, chunk)] else []) ++
        x.expired := by rw [hunrecorded, hexpired]
  have hlt : ∀ c, Counts x c → c.number < added.length + 1 := fun c hc => (h.fresh c hc).trans (Nat.lt_succ_self _)
  refine ⟨by simp, fun c hc => ?_, fun e he _ => ?_, fun k' v hv hclean => ?_⟩
  · by_cases hnew : c = chunk
    · rw [hnew]
      exact Nat.lt_succ_self _
    · obtain ⟨k', v, hv, hmem⟩ | hmem := hc
      · obtain ⟨-, -, -, rfl⟩ | ⟨w, hw, rfl | rfl⟩ := lookup_add hv
        · exact absurd (List.mem_singleton.1 hmem) hnew
        · exact hlt c (.inl ⟨k', v, hw, hmem⟩)
        · obtain hmem | hmem := List.mem_append.1 hmem
          · exact hlt c (.inl ⟨k', w, hw, hmem⟩)
          · exact absurd (List.mem_singleton.1 hmem) hnew
      · rw [hpots] at hmem
        refine hlt c (.inr ?_)
        split_ifs at hmem <;> simpa [hnew] using hmem
  · obtain he | he := List.mem_append.1 he
    · obtain (⟨k', v, hv, hmem⟩ | hmem) | hacked | hinc := h.covered e he (hnumbers e he)
      · obtain hkept | ⟨hclean, -⟩ := add_lookup digest b p chunk upload now hv
        · refine .inl (.inl ?_)
          split_ifs at hkept with hk
          · exact ⟨k', _, hkept, List.mem_append_left _ hmem⟩
          · exact ⟨k', v, hkept, hmem⟩
        -- an evicted counter was clean
        · exact .inr (.inl (h.clean k' v hv hclean _ hmem))
      · refine .inl (.inr ?_)
        rw [hpots]
        rw [List.map_append, List.mem_append] at hmem
        simp only [List.map_append, List.mem_append]
        exact hmem.elim (fun hmem => .inl (.inl hmem)) .inr
      · exact .inr (.inl hacked)
      · exact .inr (.inr (hincomplete ▸ hinc))
    · obtain rfl := List.mem_singleton.1 he
      left
      by_cases hroom : x.noRoom (keyFor digest b p now) (truncate now) = true
      · exact .inr (by rw [hpots, if_pos hroom]; simp)
      · exact .inl ⟨_, _, add_stored digest b p chunk upload now hroom,
          List.mem_append_right _ (List.mem_singleton_self chunk)⟩
  · obtain ⟨-, -, -, rfl⟩ | ⟨w, hw, rfl | rfl⟩ := lookup_add hv
    · exact absurd hclean (by simp [Counter.grow])
    · exact h.clean k' v hw hclean
    · exact absurd hclean (by simp [Counter.grow])

theorem Image.expire (h : Image acks added x n) (now : ℤ) : Image acks added (x.expire now) n := by
  refine ⟨h.le, fun c hc => ?_, fun e he hn => ?_, fun k v hv => h.clean k v (lookup_expire.1 hv).1⟩
  · obtain ⟨k, v, hv, hmem⟩ | hmem := hc
    · exact h.fresh c (.inl ⟨k, v, (lookup_expire.1 hv).1, hmem⟩)
    · obtain ⟨e, he, rfl⟩ := List.mem_map.1 hmem
      simp only [State.expire, ← List.append_assoc] at he
      obtain he | he := List.mem_append.1 he
      · exact h.fresh e.2 (.inr (List.mem_map_of_mem he))
      · obtain ⟨⟨k, v⟩, hv, he⟩ := List.mem_flatMap.1 he
        obtain ⟨c, hc, rfl⟩ := List.mem_map.1 he
        exact h.fresh c (.inl ⟨k, v, (mem_dropped.1 hv).1, hc⟩)
  · obtain (⟨k, v, hv, hmem⟩ | hmem) | hrest := h.covered e he hn
    · by_cases hexpired : v.isExpired now = true
      · by_cases hdirty : v.dirty = true
        · refine .inl (.inr (List.mem_map.2 ⟨(k, e.2), List.mem_append_right _ (List.mem_append_right _ ?_), rfl⟩))
          exact List.mem_flatMap.2 ⟨⟨k, v⟩, mem_dropped.2 ⟨hv, hexpired, hdirty⟩, List.mem_map_of_mem hmem⟩
        · exact .inr (.inl (h.clean k v hv (by simpa using hdirty) _ hmem))
      · exact .inl (.inl ⟨k, v, lookup_expire.2 ⟨hv, by simpa using hexpired⟩, hmem⟩)
    · refine .inl (.inr ?_)
      simp only [State.expire, ← List.append_assoc]
      rw [List.map_append]
      exact List.mem_append_left _ hmem
    · exact .inr hrest

theorem Acked.append {c : Chunk} (h : Acked acks c) (more : List (String × List Chunk)) : Acked (more ++ acks) c := by
  obtain ⟨e, he, hc⟩ := h
  exact ⟨e, List.mem_append_right _ he, hc⟩

variable {snapshot : State}

theorem acked_chunksOf {batch : List String} {k : String} {c₀ : Counter} {c : Chunk} (hk : k ∈ batch)
    (h₀ : snapshot.counters.lookup k = some c₀) (hc : c ∈ c₀.chunks) : Acked (chunksOf snapshot batch ++ acks) c :=
  ⟨(k, c₀.chunks), List.mem_append_left _ (List.mem_map.2 ⟨k, hk, by simp [h₀]⟩), hc⟩

/-- what an acknowledgement makes clean is what the sink took -/
theorem Image.acknowledge (h : Image acks added x n) {keys : List String} (hahead : Ahead x snapshot keys) :
    Image (chunksOf snapshot (keys.take 64) ++ acks) added (x.acknowledge snapshot (keys.take 64)) n := by
  have hchunks : ∀ k v, (acknowledged snapshot (keys.take 64) k v).chunks = v.chunks := by
    intro k v
    unfold acknowledged
    split_ifs <;> rfl
  have hcounts : ∀ c, Counts (x.acknowledge snapshot (keys.take 64)) c ↔ Counts x c := by
    intro c
    refine or_congr_left ⟨fun hc => ?_, fun hc => ?_⟩
    · obtain ⟨k, v, hv, hmem⟩ := hc
      rw [lookup_acknowledge, Option.map_eq_some_iff] at hv
      obtain ⟨w, hw, rfl⟩ := hv
      exact ⟨k, w, hw, hchunks k w ▸ hmem⟩
    · obtain ⟨k, v, hv, hmem⟩ := hc
      exact ⟨k, _, by rw [lookup_acknowledge, hv, Option.map_some], (hchunks k v).symm ▸ hmem⟩
  refine ⟨h.le, fun c hc => h.fresh c ((hcounts c).1 hc), fun e he hn => ?_, fun k v hv hclean c hc => ?_⟩
  · rw [hcounts]
    exact (h.acked fun c hc => hc.append _).covered e he hn
  · rw [lookup_acknowledge, Option.map_eq_some_iff] at hv
    obtain ⟨w, hw, rfl⟩ := hv
    rw [hchunks] at hc
    by_cases hack : k ∈ keys.take 64 ∧ (snapshot.counters.lookup k).map (·.report) = some w.report
    · obtain ⟨c₀, live, h₀, hlive, -, hgrown⟩ := hahead.2 k (List.mem_of_mem_take hack.1)
      cases hlive.symm.trans hw
      have hreport := hack.2
      rw [h₀, Option.map_some, Option.some.injEq] at hreport
      exact acked_chunksOf hack.1 h₀ (hgrown.same (by rw [Counter.bytes, Counter.bytes, hreport]) ▸ hc)
    · rw [acknowledged, if_neg hack] at hclean
      exact (h.clean k w hw hclean c hc).append _

/-! ## Runs -/

namespace Recorder

/-- how many additions the file has seen -/
def diskSeen (disk : Option State) : ℕ := (disk.map (·.seen)).getD 0

/-- the counters of the snapshot have no chunk of the additions from `n` on -/
def Before (snapshot : State) (n : ℕ) : Prop :=
    ∀ k v, snapshot.counters.lookup k = some v → ∀ c ∈ v.chunks, c.number < n

/-- what a flush writes is an image, and what it sends is in the file -/
def Written (acks : List (String × List Chunk)) (added : List (String × Chunk)) (disk : Option State) : Phase → Prop
  | .idle => True
  | .writing image snapshot _ _ => Image acks added image image.seen ∧ diskSeen disk ≤ image.seen ∧
    Before snapshot image.seen
  | .sending snapshot _ | .waiting snapshot _ => Before snapshot (diskSeen disk)

structure Inv (s : Recorder) : Prop where
  numbered : s.added.map (·.2.number) = List.range s.added.length
  live : Image s.acks s.added s.state s.added.length
  file : ∀ f, s.disk = some f → Image s.acks s.added f f.seen
  acked : ∀ c, Acked s.acks c → c.number < diskSeen s.disk
  flying : Flying s.state s.phase
  phase : Written s.acks s.added s.disk s.phase

variable {s : Recorder}

section

variable (h : Inv s)
include h

theorem Inv.diskSeen_le : diskSeen s.disk ≤ s.added.length := by
  cases hdisk : s.disk with
  | none => exact Nat.zero_le _
  | some f => exact (h.file f hdisk).le

theorem Inv.numbers : ∀ e ∈ s.added, e.2.number < s.added.length := by
  intro e he
  have hmem : e.2.number ∈ s.added.map (·.2.number) := List.mem_map_of_mem he
  rw [h.numbered] at hmem
  exact List.mem_range.1 hmem

theorem Inv.idle (closing closed : Bool) : Inv { s with phase := .idle, closing := closing, closed := closed } :=
  { h with flying := trivial, phase := trivial }

theorem Inv.record {digest : CounterID → String} {b : Binding} {p : Path} {n : ℕ} {upload : Bool}
    {now : ℤ} (hpos : 0 < n) : Inv (s.record digest b p n upload now) := by
  refine ⟨?_, ?_, fun f hf => (h.file f hf).later, h.acked, h.flying.add hpos, ?_⟩
  · simp [Recorder.record, h.numbered, List.range_succ]
  · have himage := h.live.add h.numbers digest b p n upload now (keyFor digest b p now)
    simpa [Recorder.record] using himage
  · have hphase := h.phase
    change Written s.acks _ s.disk s.phase
    cases hs : s.phase with
    | idle => trivial
    | writing image snapshot keys first =>
      rw [hs] at hphase
      exact ⟨hphase.1.later, hphase.2⟩
    | sending snapshot keys | waiting snapshot keys =>
      rw [hs] at hphase
      exact hphase

/-- a state that goes to the file is an image of all additions so far -/
theorem Inv.write (state : State) (himage : Image s.acks s.added state s.added.length)
    {keys : List String} {first : Bool} {closing : Bool} (hahead : Ahead state (s.image state) keys) :
    Inv { s with state := state, closing := closing, phase := .writing (s.image state) (s.image state) keys first } :=
  ⟨h.numbered, himage, h.file, h.acked, hahead, { himage with }, h.diskSeen_le,
    fun k v hv c hc => himage.fresh c (.inl ⟨k, v, hv, hc⟩)⟩

theorem Inv.act (digest : CounterID → String) (a : Act) : Inv (s.step digest a) := by
  have hphased := h.phase
  have hflying := h.flying
  cases a with
  | tick d => exact { h with }
  | metered b read before after n age =>
    dsimp only [step]
    by_cases hskip : (s.closed || n == 0) = true
    · rw [if_pos hskip]
      exact h
    · rw [if_neg hskip]
      exact h.record (Nat.pos_of_ne_zero fun hn => hskip (by simp [hn]))
  | flush clean =>
    simp only [step]
    split
    · have himage := h.live.expire s.clock
      exact h.write { s.state.expire s.clock with cleanShutdown := s.state.cleanShutdown || clean }
        { himage with } (ahead_dirty _ _)
    · exact h
  | checkpoint =>
    simp only [step]
    split
    · exact h.write { s.state with cleanShutdown := true } { h.live with }
        ⟨List.nodup_nil, nofun⟩
    · exact h
  | persist ok =>
    simp only [step]
    split
    next image snapshot keys first hphase =>
      rw [hphase] at hphased hflying
      have hdisk : Inv { s with disk := some image, phase := .sending snapshot keys } :=
        ⟨h.numbered, h.live, fun f hf => Option.some.inj hf ▸ hphased.1,
          fun c hc => (h.acked c hc).trans_le hphased.2.1, hflying, hphased.2.2⟩
      split_ifs
      · exact h.idle _ _
      · exact hdisk.idle _ _
      · exact hdisk
    · exact h
  | send =>
    simp only [step]
    split
    next snapshot keys hphase =>
      rw [hphase] at hphased hflying
      exact { h with flying := hflying, phase := hphased }
    · exact h
  | answer ok =>
    simp only [step]
    split
    next snapshot keys hphase =>
      rw [hphase] at hphased hflying
      split_ifs
      · exact h.idle _ _
      · exact h.idle _ _
      · have himage := h.live.acknowledge hflying
        refine ⟨h.numbered, himage, fun f hf => (h.file f hf).acked fun c hc => hc.append _,
          fun c hc => ?_, hflying.acknowledge, { himage with }, h.diskSeen_le,
          fun k v hv c hc => (hphased k v hv c hc).trans_le h.diskSeen_le⟩
        -- what is acknowledged was in the file before it was sent
        obtain ⟨e, he, hc⟩ := hc
        obtain he | he := List.mem_append.1 he
        · obtain ⟨k, hk, rfl⟩ := List.mem_map.1 he
          cases hlookup : snapshot.counters.lookup k with
          | none => simp [hlookup] at hc
          | some v => exact hphased k v hlookup c (by simpa [hlookup] using hc)
        · exact h.acked c ⟨e, he, hc⟩
    · exact h

end

/-- what happens to the processes on one file -/
inductive Op
  | act (a : Act)
  | restart

def stepAll (digest : CounterID → String) (s : Recorder) : Op → Recorder
  | .act a => s.step digest a
  | .restart => s.restart

/-- a chunk of an earlier process that the state does not count and that was never acknowledged is disclosed -/
def Disclosed (s : Recorder) : Prop :=
  ∀ e ∈ s.added, e.2.number < s.past → ¬Counts s.state e.2 → ¬Acked s.acks e.2 → s.state.incomplete = true

/-- when a process ends with additions that the file has not seen, there is a file, and it is marked -/
def Marked (s : Recorder) : Op → Prop
  | .act _ => True
  | .restart => diskSeen s.disk < s.added.length → (s.disk.any fun f => f.incomplete || !f.cleanShutdown) = true

theorem Inv.restart (h : Inv s) (hmarked : Marked s .restart) : Inv s.restart := by
  refine { h with live := ?_, flying := trivial, phase := trivial }
  change Image s.acks s.added (restore s.disk) s.added.length
  cases hdisk : s.disk with
  | none =>
    refine ⟨le_rfl, fun c hc => ?_, fun e he _ => ?_, fun k v hv => absurd hv (by simp [restore])⟩
    · exact absurd hc (by simp [Counts, restore])
    · have hany := hmarked (by simpa [diskSeen, hdisk] using List.length_pos_of_mem he)
      simp [hdisk] at hany
  | some f =>
    have himage := h.file f hdisk
    refine ⟨le_rfl, fun c hc => (himage.fresh c hc).trans_le himage.le, fun e he _ => ?_, himage.clean⟩
    by_cases hseen : e.2.number < f.seen
    · obtain hcounts | hacked | hincomplete := himage.covered e he hseen
      · exact .inl hcounts
      · exact .inr (.inl hacked)
      · exact .inr (.inr (by simp [restore, hincomplete]))
    · have hlost : diskSeen s.disk < s.added.length := by
        simpa [diskSeen, hdisk] using (not_lt.1 hseen).trans_lt (h.numbers e he)
      have hany := hmarked hlost
      rw [hdisk] at hany
      exact .inr (.inr (by simpa [restore] using hany))

/-- the first addition that the file has not seen is lost with the process -/
theorem marked_of_disclosed (h : Inv s) (hdisclosed : Disclosed s.restart) : Marked s .restart := by
  intro hlt
  have hmem : diskSeen s.disk ∈ s.added.map (·.2.number) := by
    rw [h.numbered]
    exact List.mem_range.2 hlt
  obtain ⟨e, he, hnumber⟩ := List.mem_map.1 hmem
  have hincomplete := hdisclosed e he (by rw [hnumber]; exact hlt)
  have hacked : ¬Acked s.restart.acks e.2 := fun hacked => absurd (h.acked e.2 hacked) (by omega)
  cases hdisk : s.disk with
  | none =>
    have hcounts : ¬Counts s.restart.state e.2 := by simp [restart, hdisk, restore, Counts]
    have htrue := hincomplete hcounts hacked
    simp [restart, hdisk, restore] at htrue
  | some f =>
    have hseen : diskSeen s.disk = f.seen := by simp [diskSeen, hdisk]
    have hcounts : ¬Counts s.restart.state e.2 := by
      intro hcounts
      simp only [restart, hdisk, restore] at hcounts
      exact absurd ((h.file f hdisk).fresh e.2 hcounts) (by omega)
    have htrue := hincomplete hcounts hacked
    simpa [restart, hdisk, restore] using htrue

theorem inv_start (clock : ℤ) : Inv { clock := clock } :=
  ⟨rfl, ⟨le_rfl, fun c hc => absurd hc (by simp [Counts]), by simp, nofun⟩,
    nofun, fun c hc => absurd hc (by simp [Acked]), trivial, trivial⟩

theorem inv_stepAll {digest : CounterID → String} (s : Recorder) (op : Op) (h : Inv s) (hmarked : Marked s op) :
    Inv (s.stepAll digest op) := by
  cases op with
  | act a => exact h.act digest a
  | restart => exact h.restart hmarked

/-- **Lost bytes are disclosed.** In a chain of processes on one file, the bytes of earlier processes that are
neither counted nor acknowledged are disclosed at every moment exactly if whenever a process ends with additions
made after the image in the file was taken, there is a file and it is marked as incomplete or as not shut down
cleanly. -/
theorem lost_disclosed_iff (digest : CounterID → String) (clock : ℤ) (ops : List Op) :
    (∀ pre, pre <+: ops → Disclosed (Machine.run (stepAll digest) { clock := clock } pre)) ↔
      Machine.Throughout (stepAll digest) { clock := clock } Marked ops := by
  refine Machine.always_iff_throughout_of _ _ (inv_start clock) (fun s h e he _ hcounts hacked => ?_) inv_stepAll
    (fun s op h hdisclosed => ?_) ops
  · obtain hyes | hyes | hincomplete := h.live.covered e he (h.numbers e he)
    · exact absurd hyes hcounts
    · exact absurd hyes hacked
    · exact hincomplete
  · cases op with
    | act a => trivial
    | restart => exact marked_of_disclosed h hdisclosed

/-- a process closes cleanly; the next one meters five bytes and ends before its first flush -/
def crashAfterClose : List Op :=
  [.act .checkpoint, .act (.persist true), .restart,
    .act (.metered ⟨"session", "stream", "exec", "", false⟩ true ⟨"direct", ""⟩ ⟨"direct", ""⟩ 5 0)]

/-- the five bytes are gone, and the file looks complete -/
theorem crash_not_disclosed :
    ¬Disclosed (Machine.run (stepAll fun _ => "k") { clock := 0 } (crashAfterClose ++ [.restart])) := by
  intro h
  have hinv : Inv (Machine.run (stepAll fun _ => "k") { clock := 0 } crashAfterClose) := by
    have hclosed := ((inv_start 0).act (fun _ => "k") .checkpoint).act (fun _ => "k") (.persist true)
    exact (hclosed.restart (fun hlt => absurd hlt (by decide +kernel))).act (fun _ => "k")
      (.metered ⟨"session", "stream", "exec", "", false⟩ true ⟨"direct", ""⟩ ⟨"direct", ""⟩ 5 0)
  have hmarked := marked_of_disclosed hinv h (by decide +kernel)
  exact absurd hmarked (by decide +kernel)

end Recorder

end Paperboat.Bandwidth
