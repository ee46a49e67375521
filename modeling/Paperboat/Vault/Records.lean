/-
The versioned records of a vault, and a paged read that goes on while records are
written, pruned and rotated.

The state is one vault coordinate, and every operation is one transaction. `written` has
all versions that were written since the head was made.

Results:
- `latest_pruneAt`, `pruneLoop_spec`: pruning at a floor leaves what is latest from the
  floor on;
- `Sound.put`, `Sound.rotate`: the stored versions have, from the floor on, the latest
  versions of all that was written;
- `page_spec`: a page gives the next records of the answer;
- `paged_read_exact`: **a paged read** whose pages all succeed gives the answer at its
  sequence, each record once, and brings a client from its state at A to the state at T.

Witnesses:
- `two_pages_exact`: two pages, with a write between them.

Premises:
- the key of a head is a number, and a cursor is valid under the key it was made with
  (the MAC cannot be forged);
- envelopes are there by their claims and lengths; signatures, the writers, the
  coordinate and replayed operations are left out;
- times are in nanoseconds, and record IDs are of any linearly ordered type.
-/
import Paperboat.Core.Machine
import Paperboat.Core.Search

namespace Paperboat.Vault

open Search Machine

/-! ## Model -/

variable {ι : Type}

structure Version (ι : Type) where
  recordID : ι
  revision : ℕ
  deleted : Bool
  sequence : ℕ
  documentID : String
  envelopeBytes : ℕ
  ciphertextBytes : ℕ
  createdAt : ℤ
deriving DecidableEq, Repr

/-- a record of a put or of a rotation: what its envelope claims, and the revision that the caller expects -/
structure Mutation (ι : Type) where
  recordID : ι
  expectedRevision : ℕ
  revision : ℕ
  deleted : Bool
  documentID : String
  envelopeBytes : ℕ
  ciphertextBytes : ℕ
deriving DecidableEq, Repr

structure Head where
  epoch : ℕ
  sequence : ℕ
  floor : ℕ
  cursorKey : ℕ
deriving DecidableEq, Repr

structure Store (ι : Type) where
  head : Head
  versions : List (Version ι) := []
  written : List (Version ι) := []

structure Cursor (ι : Type) where
  key : ℕ
  account : String
  epoch : ℕ
  after : ℕ
  through : ℕ
  last : ι
  expires : ℤ
deriving DecidableEq, Repr

inductive VaultError
  | protocolInvalid
  | limitExceeded
  | versionConflict
  | keyAuthorizationRequired
  | cursorExpired
  | rotationRequired
deriving DecidableEq, Repr

def maxBrowserInteger : ℕ := 9007199254740991
def maximumVaultRecordBatch : ℕ := 128
def maximumVaultRecordIDs : ℕ := 4096
def maximumVaultRecordLiveBytes : ℕ := 256 * 1024
def maximumVaultRecordHistoryBytes : ℕ := 4 * 1024 * 1024
/-- ten minutes -/
def vaultRecordCursorLifetime : ℤ := 600 * 1000000000

def unix (t : ℤ) : ℤ := t / 1000000000

variable [LinearOrder ι]

variable (vs : List (Version ι)) (through : ℕ)

/-- the row is the one that DISTINCT ON keeps for its record, among those up to the sequence -/
def isLatest (v : Version ι) : Bool :=
  decide (v.sequence ≤ through) &&
    vs.all fun u => !(u.recordID == v.recordID && decide (u.sequence ≤ through)) || decide (u.revision ≤ v.revision)

/-- the latest version of every record up to the sequence, by record -/
def snapshotAt : List (Version ι) :=
  sortBy Version.recordID (vs.filter (isLatest vs through))

def revisionOf (id : ι) : ℕ := ((vs.filter (·.recordID == id)).map (·.revision)).foldl max 0

def Mutation.version (m : Mutation ι) (sequence : ℕ) (createdAt : ℤ) : Version ι :=
  ⟨m.recordID, m.revision, m.deleted, sequence, m.documentID, m.envelopeBytes, m.ciphertextBytes, createdAt⟩

/-- the loop over the records of a put -/
def putMutations (versions : List (Version ι)) (sequence : ℕ) (createdAt : ℤ) :
    List (Mutation ι) → List (Version ι) → Except VaultError (List (Version ι))
  | [], new => .ok new
  | m :: rest, new =>
    if 256 * 1024 + maximumVaultRecordBatch * 2048 < (new.map (·.envelopeBytes)).sum + m.envelopeBytes then
      .error .limitExceeded
    else if m.recordID ∈ new.map (·.recordID) ∨ maxBrowserInteger ≤ m.expectedRevision ∨
        m.revision ≠ m.expectedRevision + 1 then .error .protocolInvalid
    else if revisionOf (versions ++ new) m.recordID ≠ m.expectedRevision then .error .versionConflict
    else putMutations versions sequence createdAt rest (new ++ [m.version sequence createdAt])

/-- the counts of the current versions -/
def withinLimits (vs : List (Version ι)) (sequence : ℕ) : Bool :=
  let current := vs.filter (isLatest vs sequence)
  let live := current.filter (!·.deleted)
  decide (current.length ≤ maximumVaultRecordIDs) && decide (live.length ≤ 128) &&
    decide ((live.map (·.ciphertextBytes)).sum ≤ maximumVaultRecordLiveBytes)

/-- without the versions below the floor that have a newer one up to it -/
def pruneAt (floor : ℕ) (vs : List (Version ι)) : List (Version ι) :=
  vs.filter fun old => !(decide (old.sequence < floor) &&
    vs.any fun newer => newer.recordID == old.recordID && decide (old.sequence < newer.sequence) &&
      decide (newer.sequence ≤ floor))

def nextSequence (vs : List (Version ι)) (floor : ℕ) : Option ℕ := ((vs.map (·.sequence)).filter (floor < ·)).min?

/-- prune by size: the floor moves on until the history fits -/
def pruneLoop (sequence floor : ℕ) (vs : List (Version ι)) : Except VaultError (ℕ × List (Version ι)) :=
  if (vs.map (·.envelopeBytes)).sum ≤ maximumVaultRecordHistoryBytes then .ok (floor, vs)
  else match nextSequence vs floor with
    | none => .error .limitExceeded
    | some next =>
      if _h : floor < next ∧ next ≤ sequence then pruneLoop sequence next (pruneAt next vs) else .error .limitExceeded
termination_by sequence - floor

/-- prune by age: the newest sequence that is older than the cutoff -/
def ageFloor (vs : List (Version ι)) (cutoff : ℤ) : ℕ :=
  ((vs.filter fun v => decide (v.createdAt < cutoff)).map (·.sequence)).foldl max 0

def Store.put (s : Store ι) (epoch : ℕ) (batch : List (Mutation ι)) (createdAt now : ℤ) : Except VaultError (Store ι) :=
  if batch.isEmpty || decide (maximumVaultRecordBatch < batch.length) then .error .protocolInvalid
  else if s.head.epoch ≠ epoch then .error .rotationRequired
  else if maxBrowserInteger ≤ s.head.sequence then .error .limitExceeded
  else match putMutations s.versions (s.head.sequence + 1) createdAt batch [] with
    | .error e => .error e
    | .ok new =>
      if !withinLimits (s.versions ++ new) (s.head.sequence + 1) then .error .limitExceeded
      else
        let floor := ageFloor (s.versions ++ new) (now - vaultRecordCursorLifetime)
        match pruneLoop (s.head.sequence + 1) floor (pruneAt floor (s.versions ++ new)) with
        | .error e => .error e
        | .ok (floor, vs) =>
          .ok ⟨{ s.head with sequence := s.head.sequence + 1, floor := max s.head.floor floor }, vs, s.written ++ new⟩

/-- the loop over the records of a rotation -/
def rotateRecords (createdAt : ℤ) : List (Mutation ι) → List (Version ι) → Except VaultError (List (Version ι))
  | [], new => .ok new
  | m :: rest, new =>
    if m.revision ≠ 1 ∨ m.deleted ∨ m.recordID ∈ new.map (·.recordID) then .error .protocolInvalid
    else if maximumVaultRecordLiveBytes < (new.map (·.ciphertextBytes)).sum + m.ciphertextBytes
      then .error .limitExceeded
    else rotateRecords createdAt rest (new ++ [m.version 1 createdAt])

structure Rotation (ι : Type) where
  expectedSequence : ℕ
  oldDocumentIDs : List String
  epoch : ℕ
  records : List (Mutation ι)
  totalLoss : Bool

/-- the documents of the live records -/
def Store.inventory (s : Store ι) : List String :=
  ((s.versions.filter (isLatest s.versions s.head.sequence)).filter (!·.deleted)).map (·.documentID)

/-- a new epoch: the head is made again, with the records of the rotation -/
def Store.rotate (s : Store ι) (r : Rotation ι) (createdAt : ℤ) : Except VaultError (Store ι) :=
  if maximumVaultRecordBatch < r.records.length ∨ 128 < r.oldDocumentIDs.length then .error .protocolInvalid
  else if s.head.sequence ≠ r.expectedSequence ∨ r.epoch < s.head.epoch ∨
      r.epoch = s.head.epoch ∧ 0 < s.head.sequence then
    .error .versionConflict
  else if r.totalLoss = false ∧ (r.records.length ≠ r.oldDocumentIDs.length ∨ ¬r.oldDocumentIDs.Nodup) ∨
      r.totalLoss ∧ r.records ≠ [] then .error .protocolInvalid
  else if r.totalLoss = false ∧ ¬s.inventory.Perm r.oldDocumentIDs then .error .versionConflict
  else match rotateRecords createdAt r.records [] with
    | .error e => .error e
    | .ok versions => .ok ⟨⟨r.epoch, 1, 0, s.head.cursorKey + 1⟩, versions, versions⟩

structure Query (ι : Type) where
  after : ℕ
  through : Option ℕ
  cursor : Option (Cursor ι)
  limit : ℕ

structure Page (ι : Type) where
  sequence : ℕ
  records : List (Version ι)
  next : Option (Cursor ι)

/-- the rows of a read that come after the last record -/
def rowsAfter (vs : List (Version ι)) (after through : ℕ) (last : Option ι) : List (Version ι) :=
  ((snapshotAt vs through).filter fun v => after == 0 || decide (after < v.sequence)).filter fun v =>
    last.all fun last => decide (last < v.recordID)

/-- there are more rows than the limit: the next page starts after the last row of this one -/
def nextCursor (head : Head) (account : String) (epoch after through : ℕ) (expires : ℤ) (limit : ℕ)
    (rows : List (Version ι)) : Option (Cursor ι) :=
  if limit < rows.length then (rows.take limit).getLast?.map fun v =>
    ⟨head.cursorKey, account, epoch, after, through, v.recordID, expires⟩
  else none

/-- the page of a read up to `through`, after the last record -/
def Store.pageAt (s : Store ι) (account : String) (epoch : ℕ) (q : Query ι) (through : ℕ) (last : Option ι)
    (expires : ℤ) : Except VaultError (Page ι) :=
  let rows := rowsAfter s.versions q.after through last
  if s.head.sequence < through ∨ through < q.after then .error .protocolInvalid
  else if through < s.head.floor ∨ 0 < q.after ∧ q.after < s.head.floor then .error .cursorExpired
  else .ok ⟨through, rows.take q.limit, nextCursor s.head account epoch q.after through expires q.limit rows⟩

def Store.readPage (s : Store ι) (account : String) (epoch : ℕ) (q : Query ι) (now : ℤ) : Except VaultError (Page ι) :=
  if q.limit < 1 ∨ 200 < q.limit ∨ maxBrowserInteger < q.after then .error .protocolInvalid
  else if s.head.epoch ≠ epoch then .error .rotationRequired
  else match q.cursor with
    | none => s.pageAt account epoch q (q.through.getD s.head.sequence) none (unix (now + vaultRecordCursorLifetime))
    | some cur =>
      if cur.key ≠ s.head.cursorKey then .error .protocolInvalid
      else if cur.account ≠ account ∨ cur.epoch ≠ epoch ∨ cur.after ≠ q.after ∨ q.through.any (cur.through != ·) then
        .error .keyAuthorizationRequired
      else if cur.expires ≤ unix now then .error .cursorExpired
      else s.pageAt account epoch q cur.through (some cur.last) cur.expires

/-- a read between its pages: the cursor of the next one and the records so far -/
inductive Progress (ι : Type)
  | asking (cursor : Option (Cursor ι)) (records : List (Version ι))
  | done (sequence : ℕ) (records : List (Version ι))
  | failed
deriving DecidableEq

structure Session (ι : Type) where
  store : Store ι
  progress : Progress ι := .asking none []

inductive VaultOp (ι : Type)
  | put (epoch : ℕ) (batch : List (Mutation ι)) (createdAt now : ℤ)
  | rotate (rotation : Rotation ι) (createdAt : ℤ)
  | page (epoch : ℕ) (through : Option ℕ) (limit : ℕ) (now : ℤ)

/-- a write that fails changes nothing -/
def Session.write (s : Session ι) (result : Except VaultError (Store ι)) : Session ι :=
  match result with
  | .ok store => ⟨store, s.progress⟩
  | .error _ => s

/-- one transaction; a page that fails ends the read -/
def Session.step (account : String) (after : ℕ) (s : Session ι) : VaultOp ι → Session ι
  | .put epoch batch createdAt now => s.write (s.store.put epoch batch createdAt now)
  | .rotate rotation createdAt => s.write (s.store.rotate rotation createdAt)
  | .page epoch through limit now =>
    match s.progress with
    | .asking cursor records =>
      match s.store.readPage account epoch ⟨after, through, cursor, limit⟩ now with
      | .ok page => ⟨s.store, if page.next.isSome then .asking page.next (records ++ page.records)
          else .done page.sequence (records ++ page.records)⟩
      | .error _ => ⟨s.store, .failed⟩
    | _ => s

/-! ## Latest versions -/

/-- `v` is the latest version of its record up to the sequence -/
structure Latest (vs : List (Version ι)) (through : ℕ) (v : Version ι) : Prop where
  mem : v ∈ vs
  le : v.sequence ≤ through
  top : ∀ u ∈ vs, u.recordID = v.recordID → u.sequence ≤ through → u.revision ≤ v.revision

/-- the versions of a record are in one order by revision and by sequence -/
structure Ordered (vs : List (Version ι)) : Prop where
  lt_iff : ∀ u ∈ vs, ∀ v ∈ vs, u.recordID = v.recordID → (u.revision < v.revision ↔ u.sequence < v.sequence)
  unique : ∀ u ∈ vs, ∀ v ∈ vs, u.recordID = v.recordID → u.revision = v.revision → u = v

variable {vs : List (Version ι)} {through : ℕ} {v : Version ι}

theorem mem_latest : v ∈ vs.filter (isLatest vs through) ↔ Latest vs through v := by
  rw [List.mem_filter]
  simp only [isLatest, Bool.and_eq_true, decide_eq_true_eq, List.all_eq_true, Bool.or_eq_true, Bool.not_eq_true',
    Bool.and_eq_false_iff, beq_eq_false_iff_ne, decide_eq_false_iff_not]
  constructor
  · intro h
    refine ⟨h.1, h.2.1, fun u hu hid hle => ?_⟩
    obtain (hne | hgt) | hrev := h.2.2 u hu
    · exact absurd hid hne
    · exact absurd hle hgt
    · exact hrev
  · intro h
    refine ⟨h.mem, h.le, fun u hu => ?_⟩
    by_cases hid : u.recordID = v.recordID
    · by_cases hle : u.sequence ≤ through
      · exact .inr (h.top u hu hid hle)
      · exact .inl (.inr hle)
    · exact .inl (.inl hid)

omit [LinearOrder ι] in
theorem Ordered.sub {vs' : List (Version ι)} (h : Ordered vs) (hsub : ∀ v ∈ vs', v ∈ vs) : Ordered vs' :=
  ⟨fun u hu v hv => h.lt_iff u (hsub u hu) v (hsub v hv), fun u hu v hv => h.unique u (hsub u hu) v (hsub v hv)⟩

variable {u : Version ι}

theorem exists_latest (hu : u ∈ vs) (hle : u.sequence ≤ through) :
    ∃ w, Latest vs through w ∧ w.recordID = u.recordID := by
  have hne : ((vs.toFinset).filter fun w => w.recordID = u.recordID ∧ w.sequence ≤ through).Nonempty :=
    ⟨u, by simp [hu, hle]⟩
  obtain ⟨w, hw, htop⟩ := Finset.exists_max_image _ (fun w : Version ι => w.revision) hne
  simp only [Finset.mem_filter, List.mem_toFinset] at hw htop
  exact ⟨w, ⟨hw.1, hw.2.2, fun x hx hid hxle => htop x ⟨hx, hid.trans hw.2.1, hxle⟩⟩, hw.2.1⟩

omit [LinearOrder ι] in
theorem Ordered.latest_unique (h : Ordered vs) (hu : Latest vs through u) (hv : Latest vs through v)
    (hid : u.recordID = v.recordID) : u = v :=
  h.unique u hu.mem v hv.mem hid (le_antisymm (hv.top u hu.mem hid hu.le) (hu.top v hv.mem hid.symm hv.le))

theorem latest_ids_nodup (through : ℕ) (h : Ordered vs) (hnodup : vs.Nodup) :
    ((vs.filter (isLatest vs through)).map (·.recordID)).Nodup := by
  rw [List.nodup_map_iff_inj_on (hnodup.filter _)]
  intro u hu w hw hid
  exact h.latest_unique (mem_latest.1 hu) (mem_latest.1 hw) hid

variable {new : List (Version ι)}

omit [LinearOrder ι] in
/-- later versions do not matter -/
theorem latest_append_later (h : ∀ u ∈ new, through < u.sequence) :
    Latest (vs ++ new) through v ↔ Latest vs through v := by
  constructor
  · intro hl
    obtain hv | hv := List.mem_append.1 hl.mem
    · exact ⟨hv, hl.le, fun u hu => hl.top u (List.mem_append_left _ hu)⟩
    · exact absurd (h v hv) (not_lt.2 hl.le)
  · intro hl
    refine ⟨List.mem_append_left _ hl.mem, hl.le, fun u hu hid hle => ?_⟩
    obtain hu | hu := List.mem_append.1 hu
    · exact hl.top u hu hid hle
    · exact absurd (h u hu) (not_lt.2 hle)

omit [LinearOrder ι] in
/-- new versions with higher revisions are latest, and replace those of their records -/
theorem latest_append_newer (hids : (new.map (·.recordID)).Nodup)
    (hnewer : ∀ u ∈ vs, ∀ n ∈ new, u.recordID = n.recordID → u.revision < n.revision)
    (hle : ∀ n ∈ new, n.sequence ≤ through) :
    Latest (vs ++ new) through v ↔ v ∈ new ∨ Latest vs through v ∧ ∀ n ∈ new, n.recordID ≠ v.recordID := by
  constructor
  · intro hl
    obtain hv | hv := List.mem_append.1 hl.mem
    · refine .inr ⟨⟨hv, hl.le, fun u hu => hl.top u (List.mem_append_left _ hu)⟩, fun n hn hid => ?_⟩
      have hlt := hnewer v hv n hn hid.symm
      have hge := hl.top n (List.mem_append_right _ hn) hid (hle n hn)
      omega
    · exact .inl hv
  · intro hcases
    obtain hv | ⟨hl, hno⟩ := hcases
    · refine ⟨List.mem_append_right _ hv, hle v hv, fun u hu hid _ => ?_⟩
      obtain hu | hu := List.mem_append.1 hu
      · exact (hnewer u hu v hv hid).le
      · rw [List.inj_on_of_nodup_map hids hu hv hid]
    · refine ⟨List.mem_append_left _ hl.mem, hl.le, fun u hu hid hule => ?_⟩
      obtain hu | hu := List.mem_append.1 hu
      · exact hl.top u hu hid hule
      · exact absurd hid (hno u hu)

omit [LinearOrder ι] in
theorem Ordered.append (h : Ordered vs) (hids : (new.map (·.recordID)).Nodup)
    (hnewer : ∀ u ∈ vs, ∀ n ∈ new, u.recordID = n.recordID → u.revision < n.revision)
    (hlater : ∀ u ∈ vs, ∀ n ∈ new, u.sequence < n.sequence) : Ordered (vs ++ new) := by
  refine ⟨fun u hu w hw hid => ?_, fun u hu w hw hid hrev => ?_⟩
  · obtain hu | hu := List.mem_append.1 hu <;> obtain hw | hw := List.mem_append.1 hw
    · exact h.lt_iff u hu w hw hid
    · exact iff_of_true (hnewer u hu w hw hid) (hlater u hu w hw)
    · exact iff_of_false (hnewer w hw u hu hid.symm).not_gt (hlater w hw u hu).not_gt
    · rw [List.inj_on_of_nodup_map hids hu hw hid]
      exact iff_of_false (lt_irrefl _) (lt_irrefl _)
  · obtain hu | hu := List.mem_append.1 hu <;> obtain hw | hw := List.mem_append.1 hw
    · exact h.unique u hu w hw hid hrev
    · exact absurd hrev (hnewer u hu w hw hid).ne
    · exact absurd hrev.symm (hnewer w hw u hu hid.symm).ne
    · exact List.inj_on_of_nodup_map hids hu hw hid

/-! ## Pruning -/

theorem pruneAt_sub (floor : ℕ) (vs : List (Version ι)) : (pruneAt floor vs).Sublist vs := List.filter_sublist

variable {floor : ℕ}

/-- what was pruned had a newer version up to the floor -/
theorem not_mem_pruneAt (hu : u ∈ vs) (hno : u ∉ pruneAt floor vs) :
    u.sequence < floor ∧ ∃ n ∈ vs, n.recordID = u.recordID ∧ u.sequence < n.sequence ∧ n.sequence ≤ floor := by
  by_contra hcon
  apply hno
  refine List.mem_filter.2 ⟨hu, ?_⟩
  rw [Bool.not_eq_true', Bool.and_eq_false_iff]
  by_cases hlt : u.sequence < floor
  · refine .inr (List.any_eq_false.2 fun n hn hall => hcon ⟨hlt, n, hn, ?_⟩)
    simpa [and_assoc] using hall
  · exact .inl (by simpa using hlt)

/-- **Pruning.** From the floor on, the latest versions stay. -/
theorem latest_pruneAt (h : Ordered vs) (hfloor : floor ≤ through) :
    Latest (pruneAt floor vs) through v ↔ Latest vs through v := by
  have hsub := (pruneAt_sub floor vs).subset
  constructor
  · intro hl
    refine ⟨hsub hl.mem, hl.le, fun u hu hid hle => ?_⟩
    by_cases hkept : u ∈ pruneAt floor vs
    · exact hl.top u hkept hid hle
    · obtain ⟨hlt, -⟩ := not_mem_pruneAt hu hkept
      -- the latest up to the floor was kept
      obtain ⟨w, hw, hwid⟩ := exists_latest hu hlt.le
      have hwkept : w ∈ pruneAt floor vs := by
        by_contra hno
        obtain ⟨-, n, hn, hnid, hwn, hnle⟩ := not_mem_pruneAt hw.mem hno
        have hrev := (h.lt_iff w hw.mem n hn hnid.symm).2 hwn
        have htop := hw.top n hn hnid hnle
        omega
      exact (hw.top u hu hwid.symm hlt.le).trans (hl.top w hwkept (hwid.trans hid) (hw.le.trans hfloor))
  · intro hl
    refine ⟨?_, hl.le, fun u hu => hl.top u (hsub hu)⟩
    by_contra hno
    obtain ⟨-, n, hn, hnid, hvn, hnle⟩ := not_mem_pruneAt hl.mem hno
    have hrev := (h.lt_iff v hl.mem n hn hnid.symm).2 hvn
    have htop := hl.top n hn hnid (hnle.trans hfloor)
    omega

variable {sequence : ℕ}

/-- the loop moves the floor up to the sequence at most, and keeps what is latest from there on -/
theorem pruneLoop_spec {floor' : ℕ} {vs vs' : List (Version ι)} (h : Ordered vs) (hfloor : floor ≤ sequence)
    (hloop : pruneLoop sequence floor vs = .ok (floor', vs')) :
    floor ≤ floor' ∧ floor' ≤ sequence ∧ vs'.Sublist vs ∧
      ∀ through v, floor' ≤ through → (Latest vs' through v ↔ Latest vs through v) := by
  induction hfuel : sequence - floor using Nat.strong_induction_on generalizing floor vs with
  | h fuel ih =>
    unfold pruneLoop at hloop
    split_ifs at hloop with hfits
    · obtain ⟨rfl, rfl⟩ := Prod.mk.inj (Except.ok.inj hloop)
      exact ⟨le_rfl, hfloor, List.Sublist.refl _, fun _ _ _ => Iff.rfl⟩
    · split at hloop
      · cases hloop
      next next hnext =>
        split_ifs at hloop with hstep
        obtain ⟨hle, hseq, hsub, hlatest⟩ :=
          ih (sequence - next) (by omega) (h.sub fun v hv => (pruneAt_sub next vs).subset hv) hstep.2 hloop rfl
        refine ⟨hstep.1.le.trans hle, hseq, hsub.trans (pruneAt_sub next vs), fun through v hthrough => ?_⟩
        rw [hlatest through v hthrough, latest_pruneAt h (hle.trans hthrough)]

/-! ## What the store keeps -/

structure Sound (s : Store ι) : Prop where
  kept : s.versions.Sublist s.written
  nodup : s.written.Nodup
  ordered : Ordered s.written
  bounded : ∀ v ∈ s.written, 0 < v.sequence ∧ v.sequence ≤ s.head.sequence
  floor : s.head.floor ≤ s.head.sequence
  latest : ∀ through v, s.head.floor ≤ through → (Latest s.versions through v ↔ Latest s.written through v)

theorem le_foldl_max (l : List ℕ) (init : ℕ) : init ≤ l.foldl max init ∧ ∀ n ∈ l, n ≤ l.foldl max init := by
  induction l generalizing init with
  | nil => exact ⟨le_rfl, by simp⟩
  | cons a l ih =>
    obtain ⟨hinit, hall⟩ := ih (max init a)
    refine ⟨(le_max_left _ _).trans hinit, fun n hn => ?_⟩
    obtain rfl | hn := List.mem_cons.1 hn
    · exact (le_max_right _ _).trans hinit
    · exact hall n hn

theorem foldl_max_le {l : List ℕ} {init bound : ℕ} (hinit : init ≤ bound) (h : ∀ n ∈ l, n ≤ bound) :
    l.foldl max init ≤ bound := by
  induction l generalizing init with
  | nil => exact hinit
  | cons a l ih => exact ih (max_le hinit (h a List.mem_cons_self)) fun n hn => h n (List.mem_cons_of_mem _ hn)

variable {createdAt : ℤ}

omit [LinearOrder ι] in
theorem nodup_add (hids : (new.map (·.recordID)).Nodup) {m : Mutation ι} (hseen : m.recordID ∉ new.map (·.recordID)) :
    ((new ++ [m.version sequence createdAt]).map (·.recordID)).Nodup := by
  rw [List.map_append]
  refine List.nodup_append.2 ⟨hids, List.nodup_singleton _, fun a ha b hb heq => hseen ?_⟩
  obtain rfl : b = m.recordID := List.mem_singleton.1 hb
  exact heq ▸ ha

variable {batch : List (Mutation ι)} {result : List (Version ι)}

/-- what the loop of a put adds: one version of each record, one revision on -/
theorem putMutations_spec {versions : List (Version ι)} (hids : (new.map (·.recordID)).Nodup)
    (hnew : ∀ v ∈ new, v.sequence = sequence ∧ v.revision = revisionOf versions v.recordID + 1)
    (h : putMutations versions sequence createdAt batch new = .ok result) :
    (result.map (·.recordID)).Nodup ∧
      ∀ v ∈ result, v.sequence = sequence ∧ v.revision = revisionOf versions v.recordID + 1 := by
  induction batch generalizing new with
  | nil =>
    cases h
    exact ⟨hids, hnew⟩
  | cons m rest ih =>
    unfold putMutations at h
    split_ifs at h with htotal hseen hrevision
    rw [not_or, not_or, not_not] at hseen
    have hrev : revisionOf (versions ++ new) m.recordID = revisionOf versions m.recordID := by
      have hnone : new.filter (·.recordID == m.recordID) = [] :=
        List.filter_eq_nil_iff.2 fun v hv hid => hseen.1 (List.mem_map.2 ⟨v, hv, by simpa using hid⟩)
      rw [revisionOf, List.filter_append, hnone, List.append_nil, revisionOf]
    refine ih ?_ (fun v hv => ?_) h
    · exact nodup_add hids hseen.1
    · obtain hv | hv := List.mem_append.1 hv
      · exact hnew v hv
      · obtain rfl := List.mem_singleton.1 hv
        have hexpected := not_not.1 hrevision
        exact ⟨rfl, by rw [Mutation.version, hseen.2.2, ← hexpected, hrev]⟩

variable {s' s : Store ι} {now : ℤ} {epoch : ℕ}

/-- a put keeps the latest versions of everything written -/
theorem Sound.put (h : Sound s)
    (hput : s.put epoch batch createdAt now = .ok s') : Sound s' ∧ s'.head.cursorKey = s.head.cursorKey ∧
      s.head.sequence ≤ s'.head.sequence ∧ ∃ new, s'.written = s.written ++ new ∧
        ∀ v ∈ new, s.head.sequence < v.sequence := by
  unfold Store.put at hput
  split_ifs at hput
  split at hput
  · cases hput
  next new hnew =>
    split_ifs at hput
    dsimp only at hput
    split at hput
    · cases hput
    next floor' vs' hloop =>
      cases hput
      obtain ⟨hids, hspec⟩ := putMutations_spec (by simp) (by simp) hnew
      -- the revision of a new version is above those of all that were written for its record
      have hnewer : ∀ u ∈ s.written, ∀ n ∈ new, u.recordID = n.recordID → u.revision < n.revision := by
        intro u hu n hn hid
        obtain ⟨w, hw, hwid⟩ := exists_latest hu (h.bounded u hu).2
        have hstored := ((h.latest _ w h.floor).2 hw).mem
        have hle : w.revision ≤ revisionOf s.versions n.recordID :=
          (le_foldl_max _ 0).2 _ (List.mem_map_of_mem (List.mem_filter.2 ⟨hstored, by simp [hwid, hid]⟩))
        have htop := hw.top u hu hwid.symm (h.bounded u hu).2
        rw [(hspec n hn).2]
        omega
      have hseq : ∀ n ∈ new, n.sequence = s.head.sequence + 1 := fun n hn => (hspec n hn).1
      have hordered : Ordered (s.written ++ new) := by
        refine h.ordered.append hids hnewer fun u hu n hn => ?_
        rw [hseq n hn]
        exact Nat.lt_succ_of_le (h.bounded u hu).2
      have hbounded : ∀ v ∈ s.written ++ new, 0 < v.sequence ∧ v.sequence ≤ s.head.sequence + 1 := by
        intro v hv
        obtain hv | hv := List.mem_append.1 hv
        · exact ⟨(h.bounded v hv).1, (h.bounded v hv).2.trans (Nat.le_succ _)⟩
        · rw [hseq v hv]
          exact ⟨Nat.succ_pos _, le_rfl⟩
      have hstored : (s.versions ++ new).Sublist (s.written ++ new) := h.kept.append (List.Sublist.refl _)
      have hage : ageFloor (s.versions ++ new) (now - vaultRecordCursorLifetime) ≤ s.head.sequence + 1 := by
        apply foldl_max_le (Nat.zero_le _)
        intro n hn
        obtain ⟨v, hv, rfl⟩ := List.mem_map.1 hn
        exact (hbounded v (hstored.subset (List.mem_filter.1 hv).1)).2
      have hvs := hordered.sub fun v hv => hstored.subset hv
      obtain ⟨hfloor, hfloorSeq, hsub, hlatest⟩ :=
        pruneLoop_spec (hvs.sub fun v hv => (pruneAt_sub _ _).subset hv) hage hloop
      have hdisjoint : s.written.Disjoint new := fun v hv hv' => absurd (h.bounded v hv).2 (by rw [hseq v hv']; omega)
      refine ⟨⟨(hsub.trans (pruneAt_sub _ _)).trans hstored,
        h.nodup.append (List.Nodup.of_map _ hids) hdisjoint, hordered,
        hbounded, max_le (h.floor.trans (Nat.le_succ _)) hfloorSeq, fun through v hthrough => ?_⟩, rfl,
        Nat.le_succ _, new, rfl, fun v hv => by rw [hseq v hv]; exact Nat.lt_succ_self _⟩
      have hthrough' := (le_max_right _ _).trans hthrough
      have hold := h.latest through v ((le_max_left _ _).trans hthrough)
      rw [hlatest through v hthrough', latest_pruneAt hvs (hfloor.trans hthrough')]
      by_cases hlater : through < s.head.sequence + 1
      · have hall : ∀ u ∈ new, through < u.sequence := fun u hu => by rw [hseq u hu]; exact hlater
        rw [latest_append_later hall, latest_append_later hall, hold]
      · have hle : ∀ n ∈ new, n.sequence ≤ through := fun n hn => by rw [hseq n hn]; exact not_lt.1 hlater
        rw [latest_append_newer hids (fun u hu => hnewer u (h.kept.subset hu)) hle,
          latest_append_newer hids hnewer hle, hold]

/-- what the loop of a rotation adds: the first revisions, one of each record -/
theorem rotateRecords_spec {records : List (Mutation ι)}
    (hids : (new.map (·.recordID)).Nodup) (hnew : ∀ v ∈ new, v.sequence = 1 ∧ v.revision = 1)
    (h : rotateRecords createdAt records new = .ok result) :
    (result.map (·.recordID)).Nodup ∧ ∀ v ∈ result, v.sequence = 1 ∧ v.revision = 1 := by
  induction records generalizing new with
  | nil =>
    cases h
    exact ⟨hids, hnew⟩
  | cons m rest ih =>
    unfold rotateRecords at h
    split_ifs at h with hclaims hlive
    rw [not_or, not_or, not_not] at hclaims
    refine ih (nodup_add hids hclaims.2.2) (fun v hv => ?_) h
    obtain hv | hv := List.mem_append.1 hv
    · exact hnew v hv
    · obtain rfl := List.mem_singleton.1 hv
      exact ⟨rfl, hclaims.1⟩

theorem Sound.rotate {rotation : Rotation ι}
    (hrotate : s.rotate rotation createdAt = .ok s') : Sound s' ∧ s'.head.cursorKey = s.head.cursorKey + 1 := by
  unfold Store.rotate at hrotate
  split_ifs at hrotate
  split at hrotate
  · cases hrotate
  next versions hversions =>
    cases hrotate
    obtain ⟨hnodup, hone⟩ := rotateRecords_spec (by simp) (by simp) hversions
    refine ⟨⟨List.Sublist.refl _, List.Nodup.of_map _ hnodup, ⟨fun u hu v hv _ => ?_, fun u hu v hv hid _ =>
      List.inj_on_of_nodup_map hnodup hu hv hid⟩, fun v hv => ?_, Nat.zero_le _, fun _ _ _ => Iff.rfl⟩, rfl⟩
    · rw [(hone u hu).1, (hone u hu).2, (hone v hv).1, (hone v hv).2]
    · rw [(hone v hv).1]
      exact ⟨Nat.one_pos, le_rfl⟩

/-! ## Pages -/

/-- the answer of a read: the latest versions up to `through`, of those records that changed after `after` -/
def answer (written : List (Version ι)) (after through : ℕ) : List (Version ι) :=
  (snapshotAt written through).filter fun v => after == 0 || decide (after < v.sequence)

theorem Sound.snapshot (h : Sound s) (hfloor : s.head.floor ≤ through) :
    snapshotAt s.versions through = snapshotAt s.written through := by
  have hversions := latest_ids_nodup through (h.ordered.sub fun v hv => h.kept.subset hv) (h.nodup.sublist h.kept)
  have hwritten := latest_ids_nodup through h.ordered h.nodup
  apply strict_ext (sortBy_strict hversions) (sortBy_strict hwritten)
  intro v
  rw [mem_sortBy, mem_sortBy, mem_latest, mem_latest]
  exact h.latest through v hfloor

variable {written : List (Version ι)}

theorem mem_answer {after : ℕ} :
    v ∈ answer written after through ↔ Latest written through v ∧ (after = 0 ∨ after < v.sequence) := by
  rw [answer, List.mem_filter, snapshotAt, mem_sortBy, mem_latest]
  simp

theorem Sound.answer_strict (h : Sound s) (after through : ℕ) :
    Strict Version.recordID (answer s.written after through) :=
  (sortBy_strict (latest_ids_nodup through h.ordered h.nodup)).sublist List.filter_sublist

/-- what was written later does not change an answer -/
theorem answer_append (hwritten : Ordered written) (hnodup : written.Nodup)
    (hall : Ordered (written ++ new)) (hallNodup : (written ++ new).Nodup)
    (h : ∀ u ∈ new, through < u.sequence) (after : ℕ) :
    answer (written ++ new) after through = answer written after through := by
  have hsnapshot : snapshotAt (written ++ new) through = snapshotAt written through := by
    apply strict_ext (sortBy_strict (latest_ids_nodup through hall hallNodup))
      (sortBy_strict (latest_ids_nodup through hwritten hnodup))
    intro v
    rw [mem_sortBy, mem_sortBy, mem_latest, mem_latest, latest_append_later h]
  rw [answer, answer, hsnapshot]

/-- a read between its pages: under the key of its cursor, the records so far and those after the last one are the
answer -/
def Reading (s : Store ι) (after : ℕ) : Progress ι → Prop
  | .asking none records => records = []
  | .asking (some c) records => c.key ≤ s.head.cursorKey ∧ (c.key = s.head.cursorKey → c.through ≤ s.head.sequence ∧
      records ++ (answer s.written after c.through).filter (fun v => decide (c.last < v.recordID)) =
        answer s.written after c.through)
  | _ => True

/-- **A page** of a read that has got `records` before `last`: the read has the answer, or goes on. -/
theorem page_spec (h : Sound s) {account : String} {q : Query ι} {last : Option ι} {expires : ℤ}
    {page : Page ι} (records : List (Version ι)) (hlimit : 1 ≤ q.limit)
    (hrecords : records ++ (answer s.written q.after through).filter (fun v => last.all fun last =>
      decide (last < v.recordID)) =
      answer s.written q.after through) (hpage : s.pageAt account epoch q through last expires = .ok page) :
    (page.next = none → records ++ page.records = answer s.written q.after page.sequence ∧ q.after ≤ page.sequence) ∧
      (page.next.isSome → Reading s q.after (.asking page.next (records ++ page.records))) := by
  unfold Store.pageAt at hpage
  split_ifs at hpage with hrange hfloor
  cases hpage
  rw [not_or, not_lt, not_lt] at hrange
  rw [not_or, not_lt] at hfloor
  have hrows : rowsAfter s.versions q.after through last =
      (answer s.written q.after through).filter (fun v => last.all fun last => decide (last < v.recordID)) := by
    rw [rowsAfter, h.snapshot hfloor.1, answer]
  rw [hrows]
  set rows := (answer s.written q.after through).filter (fun v => last.all fun last =>
    decide (last < v.recordID)) with hdef
  have hstrict : Strict Version.recordID rows := (h.answer_strict q.after through).sublist List.filter_sublist
  unfold nextCursor
  by_cases hmore : q.limit < rows.length
  · rw [if_pos hmore]
    cases hlast : (rows.take q.limit).getLast? with
    | none =>
      -- the limit is at least 1, so that the page is not empty
      have hlength := congrArg List.length (List.getLast?_eq_none_iff.1 hlast)
      rw [List.length_take, List.length_nil] at hlength
      omega
    | some x =>
      refine ⟨nofun, fun _ => ⟨le_rfl, fun _ => ⟨hrange.1, ?_⟩⟩⟩
      have hx : x ∈ rows := List.mem_of_mem_take (List.mem_of_getLast? hlast)
      -- what comes after the new last record comes after the old one
      have hnarrow : (answer s.written q.after through).filter (fun v => decide (x.recordID < v.recordID)) =
          rows.filter fun v => decide (x.recordID < v.recordID) := by
        rw [List.filter_filter]
        apply List.filter_congr
        intro v _
        cases last with
        | none => simp
        | some l =>
          have hlx : l < x.recordID := by simpa using (List.mem_filter.1 hx).2
          by_cases hxv : x.recordID < v.recordID
          · simp [hxv, hlx.trans hxv]
          · simp [hxv]
      rw [hnarrow, filter_after_take hstrict hlast, List.append_assoc, List.take_append_drop]
      exact hrecords
  · rw [if_neg hmore, List.take_of_length_le (not_lt.1 hmore)]
    exact ⟨fun _ => ⟨hrecords, hrange.2⟩, nofun⟩

/-! ## Runs -/

namespace Session

variable {account : String} {after : ℕ}

/-- before the first record is written -/
def start (epoch : ℕ) : Session ι := { store := ⟨⟨epoch, 0, 0, 0⟩, [], []⟩ }

/-- the store is sound and the read is on its way -/
def Inv (after : ℕ) (s : Session ι) : Prop := Sound s.store ∧ Reading s.store after s.progress

theorem inv_start (after epoch : ℕ) : (start epoch : Session ι).Inv after :=
  ⟨⟨List.Sublist.refl _, List.nodup_nil, ⟨by simp [start], by simp [start]⟩,
    by simp [start], le_rfl, fun _ _ _ => Iff.rfl⟩, rfl⟩

/-- what a page that succeeds comes to -/
theorem readPage_spec (h : Sound s) {limit : ℕ} {through? : Option ℕ} {cursor : Option (Cursor ι)}
    {records : List (Version ι)} (hreading : Reading s after (.asking cursor records)) {page : Page ι}
    (hpage : s.readPage account epoch ⟨after, through?, cursor, limit⟩ now = .ok page) :
    (page.next = none → records ++ page.records = answer s.written after page.sequence ∧ after ≤ page.sequence) ∧
      (page.next.isSome → Reading s after (.asking page.next (records ++ page.records))) := by
  unfold Store.readPage at hpage
  split_ifs at hpage with hlimit hepoch
  have hlimit' : 1 ≤ limit := by
    simp only [not_or, not_lt] at hlimit
    exact hlimit.1
  cases cursor with
  | none =>
    obtain rfl : records = [] := hreading
    exact page_spec h [] hlimit' (by simp) hpage
  | some cur =>
    dsimp only at hpage
    split_ifs at hpage with hkey hauth hexpired
    obtain ⟨-, hanswer⟩ := hreading.2 (not_not.1 hkey)
    exact page_spec h records hlimit' (by simpa using hanswer) hpage

variable {progress : Progress ι}

/-- a put leaves the answers up to the sequence before it -/
theorem reading_put (h : Sound s)
    (hput : s.put epoch batch createdAt now = .ok s') (hreading : Reading s after progress) :
    Reading s' after progress := by
  obtain ⟨hsound, hkey, hseq, new, hwritten, hlater⟩ := h.put hput
  cases progress with
  | asking cursor records =>
    cases cursor with
    | none => exact hreading
    | some c =>
      refine ⟨hkey ▸ hreading.1, fun hsame => ?_⟩
      obtain ⟨hthrough, hrecords⟩ := hreading.2 (hsame.trans hkey)
      rw [hwritten, answer_append h.ordered h.nodup (hwritten ▸ hsound.ordered) (hwritten ▸ hsound.nodup)
        fun u hu => hthrough.trans_lt (hlater u hu)]
      exact ⟨hthrough.trans hseq, hrecords⟩
  | done | failed => trivial

/-- after a rotation the cursor is of an older key -/
theorem reading_rotate {rotation : Rotation ι}
    (hrotate : s.rotate rotation createdAt = .ok s') (hreading : Reading s after progress) :
    Reading s' after progress := by
  have hkey := (Sound.rotate hrotate).2
  cases progress with
  | asking cursor records =>
    cases cursor with
    | none => exact hreading
    | some c =>
      have hle := hreading.1
      exact ⟨by omega, fun hsame => absurd hsame (by omega)⟩
  | done | failed => trivial

theorem inv_step {s : Session ι} (h : s.Inv after) (op : VaultOp ι) : (s.step account after op).Inv after := by
  cases op with
  | put epoch batch createdAt now =>
    dsimp only [step, write]
    split
    next store hput => exact ⟨(h.1.put hput).1, reading_put h.1 hput h.2⟩
    · exact h
  | rotate rotation createdAt =>
    dsimp only [step, write]
    split
    next store hrotate => exact ⟨(Sound.rotate hrotate).1, reading_rotate hrotate h.2⟩
    · exact h
  | page epoch through limit now =>
    unfold step
    dsimp only
    split
    next cursor records hprogress =>
      have hreading := h.2
      rw [hprogress] at hreading
      split
      next page hpage =>
        refine ⟨h.1, ?_⟩
        split_ifs with hnext
        · exact (readPage_spec h.1 hreading hpage).2 hnext
        · trivial
      · exact ⟨h.1, trivial⟩
    · exact h

/-- a client's records: it has the latest version of every record up to the sequence -/
def Holds (m : ι → Option (Version ι)) (written : List (Version ι)) (through : ℕ) : Prop :=
  ∀ id v, m id = some v ↔ Latest written through v ∧ v.recordID = id

/-- the records of an answer take the place of the client's -/
def overlay (m : ι → Option (Version ι)) (records : List (Version ι)) (id : ι) : Option (Version ι) :=
  (records.find? (·.recordID == id)).or (m id)

theorem holds_overlay (h : Sound s) {through : ℕ} (hafter : after ≤ through) {m : ι → Option (Version ι)}
    (hm : Holds m s.written after) : Holds (overlay m (answer s.written after through)) s.written through := by
  intro id v
  unfold overlay
  cases hfind : (answer s.written after through).find? (·.recordID == id) with
  | some u =>
    have hu := (mem_answer.1 (List.mem_of_find?_eq_some hfind)).1
    have hid : u.recordID = id := by simpa using List.find?_some hfind
    constructor
    · intro heq
      cases heq
      exact ⟨hu, hid⟩
    · intro hv
      rw [h.ordered.latest_unique hu hv.1 (hid.trans hv.2.symm)]
      rfl
  | none =>
    have hno : ∀ w, Latest s.written through w → w.recordID = id → w.sequence ≤ after := by
      intro w hw hid
      by_contra hlt
      exact absurd (List.find?_eq_none.1 hfind w (mem_answer.2 ⟨hw, .inr (not_le.1 hlt)⟩)) (by simp [hid])
    rw [Option.none_or, hm id v]
    constructor
    · intro hv
      obtain ⟨w, hw, hwid⟩ := exists_latest hv.1.mem (hv.1.le.trans hafter)
      have hwle := hno w hw (hwid.trans hv.2)
      have hrev := le_antisymm (hv.1.top w hw.mem hwid hwle) (hw.top v hv.1.mem hwid.symm (hv.1.le.trans hafter))
      rw [← h.ordered.unique w hw.mem v hv.1.mem hwid hrev]
      exact ⟨hw, hwid.trans hv.2⟩
    · intro hv
      exact ⟨⟨hv.1.mem, hno v hv.1 hv.2, fun u hu hid hle => hv.1.top u hu hid (hle.trans hafter)⟩, hv.2⟩

/-- **A paged read.** A page ends a read, after any writes, prunings and rotations between its pages. Its records
together are in the order of their IDs, so each once, the latest versions up to its sequence `T` of the records
written in the epoch that changed after `A` (of all when `A` is 0); and a client with the state at `A` that applies
them has the state at `T`. -/
theorem paged_read_exact {ι : Type} [LinearOrder ι] (account : String) (after : ℕ) (epoch₀ : ℕ) (ops : List (VaultOp ι))
    (epoch : ℕ) (through : Option ℕ) (limit : ℕ) (now : ℤ) (T : ℕ) (records : List (Version ι))
    (hbefore : ∃ cursor sofar, (run (step account after) (start epoch₀) ops).progress = .asking cursor sofar)
    (hdone : (run (step account after) (start epoch₀) (ops ++ [.page epoch through limit now])).progress =
      .done T records) :
    let written := (run (step account after) (start epoch₀) ops).store.written
    (∀ v, v ∈ records ↔ Latest written T v ∧ (after = 0 ∨ after < v.sequence)) ∧
      (records.Pairwise fun u v => u.recordID < v.recordID) ∧
      ∀ m, Holds m written after → Holds (overlay m records) written T := by
  have hinv : (run (step account after) (start epoch₀) ops).Inv after :=
    run_inv _ _ (I := fun _ s => Inv after s) (inv_start after epoch₀) (fun _ op h => inv_step h op) ops
  rw [run_snoc] at hdone
  obtain ⟨cursor, sofar, hprogress⟩ := hbefore
  have hreading := hinv.2
  rw [hprogress] at hreading
  simp only [step, hprogress] at hdone
  split at hdone
  next page hpage =>
    split_ifs at hdone with hnext
    obtain ⟨rfl, rfl⟩ := Progress.done.inj hdone
    have hnone : page.next = none := by simpa using hnext
    obtain ⟨hrecords, hafter⟩ := (readPage_spec hinv.1 hreading hpage).1 hnone
    rw [hrecords]
    exact ⟨fun v => mem_answer, hinv.1.answer_strict after page.sequence, fun m hm => holds_overlay hinv.1 hafter hm⟩
  · cases hdone

/-- two records are written and one is read; then the other is written again -/
def betweenPages : List (VaultOp ℕ) :=
  [.put 1 [⟨1, 0, 1, false, "a", 10, 5⟩, ⟨2, 0, 1, false, "b", 10, 5⟩] 0 0, .page 1 none 1 0,
    .put 1 [⟨2, 1, 2, false, "c", 10, 5⟩] 1 1]

/-- the second page has the version at the sequence of the first -/
theorem two_pages_exact :
    (⟨2, 1, false, 1, "b", 10, 5, 0⟩ : Version ℕ) ∈ ([⟨1, 1, false, 1, "a", 10, 5, 0⟩,
      ⟨2, 1, false, 1, "b", 10, 5, 0⟩] :
        List (Version ℕ)) ↔
      Latest (run (step "u" 0) (start 1) betweenPages).store.written 1 ⟨2, 1, false, 1, "b", 10, 5, 0⟩ ∧
        (0 = 0 ∨ 0 < 1) :=
  (paged_read_exact "u" 0 1 betweenPages 1 none 1 2 1
    [⟨1, 1, false, 1, "a", 10, 5, 0⟩, ⟨2, 1, false, 1, "b", 10, 5, 0⟩]
    ⟨some ⟨0, "u", 1, 0, 1, 1, 600⟩, [⟨1, 1, false, 1, "a", 10, 5, 0⟩], by decide +kernel⟩ (by decide +kernel)).1 _

end Session

end Paperboat.Vault
