/-
How much input a session generation can take: the journal keeps at most
MaxInputDecisions decisions, whoever wrote them, and recovery rebuilds it from the
durable ones (session/manager_recover.go).

Attachments attach, write sequenced input under their names and detach; outcomes are
committed in groups. The log of the journal's calls says what was written.

Results:
- `Inv.writeContext`: a new decision leaves the journal with what is `held` of everyone
  who wrote;
- `recover_full`: rebuilding the journal fails exactly when there are more durable
  decisions than it takes;
- `journal_full_iff`: when the next input of an attached client is refused for lack of
  room, and when recovery fails.

Witnesses:
- `one_window_full`: one attached window is enough for either.
-/
import Paperboat.Core.Fold
import Paperboat.Terminal.Input
import Paperboat.Terminal.Window

namespace Paperboat.Terminal

open Machine InputCursor InputKey InputJournal Session Json

structure Typing (Hash : Type) where
  session : Session Hash
  /-- the calls of the writer -/
  log : List JournalEvent := []

inductive TypingOp where
  | writeContext (key : InputKey) (data : Bytes) (w : Weather)
  | attach (attachmentID : String)
  | detach (attachmentID : String)
  /-- the outcomes so far become durable -/
  | commit
deriving DecidableEq, Repr

/-- strconv.ParseUint(s, 10, 64) -/
def parseUint (s : String) : Option ℕ :=
  let value := Nat.ofDigits 10 (s.toList.reverse.map digitVal)
  if s.toList ≠ [] ∧ s.toList.all Char.isDigit ∧ value < 2 ^ 64 then some value else none

/-- the key of a durable decision -/
def RowKey.key (row : RowKey) : InputKey :=
  match parseUint row.inputID with
  | some sequence => if 0 < sequence then row.cursor.key sequence else { row.cursor.key 0 with inputID := row.inputID }
  | none => { row.cursor.key 0 with inputID := row.inputID }

section

variable {Hash : Type} [DecidableEq Hash] (sum256 : Bytes → Hash)

def Typing.step (s : Typing Hash) : TypingOp → Typing Hash
  | .writeContext key data w =>
    -- only sequenced input under a name is written
    if key.inputSequence = 0 ∨ key.valid = false then s
    else
      let answer := (s.session.sink key).1.answer data w
      { session := (s.session.writeContext sum256 key data w).1
        log := if s.session.decides sum256 key data w then
            s.log ++ [.called key.normalize data, .ended key.normalize data answer.1 answer.2] else s.log }
  | .attach id => { s with session := { s.session with attached := id :: s.session.attached } }
  | .detach id => { s with session := { s.session with attached := s.session.attached.filter (· ≠ id) } }
  | .commit =>
    { s with session := { s.session with
      rows := s.session.rows.map (updateInputDecisions · s.session.decided), decided := [] } }

/-- a new generation, with or without a store -/
def Typing.start (generation max : ℕ) (stored : Bool) : Typing Hash :=
  { session := { generation := generation, live := some generation, inputs := .new generation max,
                 rows := if stored then some ∅ else none } }

/-- recovery restores the durable decisions as they are listed -/
def recover (generation max : ℕ) (listed : List (Sigma fun _ : RowKey => Recorded Hash)) :
    Except InputError (InputJournal Hash) :=
  listed.foldlM (fun j row => j.restore row.1.key row.2) (.new generation max)

/-- the next input of an attached client -/
def Session.inOrder (s : Session Hash) (key : InputKey) : Bool :=
  s.live = some key.generation ∧ key.attachmentID ∈ s.attached ∧ key.valid = true ∧ key.inputSequence ≠ 0 ∧
    (s.inputs.lastSequence key.cursor = 0 ∨ key.inputSequence = s.inputs.lastSequence key.cursor + 1)

end

/-! ## Recovery -/

section

variable {row row' : RowKey} {c c' : InputCursor} {m m' : ℕ}

theorem row_inj (hm : m ≠ 0) (hm' : m' ≠ 0) (h : (c.key m).row = (c'.key m').row) : c = c' ∧ m = m' := by
  unfold row inputStorageID at h
  simp only [cursor_key, key_inputSequence, ne_eq, hm, hm', not_false_eq_true, if_true,
    RowKey.mk.injEq] at h
  exact ⟨h.1, natDecimal_injective (String.ofList_injective h.2)⟩

/-- the row of a sequenced input of somebody with a name -/
def RowKey.Sequenced (row : RowKey) : Prop :=
    ∃ m, m ≠ 0 ∧ row = (row.cursor.key m).row ∧ (row.cursor.key m).valid = true

/-- a number is read back from its row; one beyond the range stays a text -/
theorem key_row (hm : m ≠ 0) :
    (c.key m).row.key =
      if m < 2 ^ 64 then c.key m else { c.key 0 with inputID := String.ofList (natDecimal m) } := by
  have hparse : parseUint (String.ofList (natDecimal m)) = if m < 2 ^ 64 then some m else none := by
    unfold parseUint
    simp only [String.toList_ofList, ofDigits_natDecimal, ne_eq, natDecimal_ne_nil, not_false_eq_true, true_and]
    have hdigits : (natDecimal m).all Char.isDigit = true := List.all_eq_true.2 (natDecimal_isDigit m)
    simp only [hdigits, true_and]
  unfold RowKey.key row inputStorageID
  simp only [key_inputSequence, ne_eq, hm, not_false_eq_true, if_true, cursor_key, hparse]
  split_ifs
  · simp only [Nat.pos_of_ne_zero hm, if_true]
  · rfl

theorem RowKey.Sequenced.normalize_key (h : row.Sequenced) : row.key.normalize = row.key := by
  obtain ⟨m, hm, hrow, -⟩ := h
  rw [hrow, key_row hm]
  split_ifs
  · exact InputCursor.normalize_key _ _
  · rfl

theorem RowKey.Sequenced.valid_key (h : row.Sequenced) : row.key.valid = true := by
  obtain ⟨m, hm, hrow, hvalid⟩ := h
  have htext : String.ofList (natDecimal m) ≠ "" := by
    intro h
    exact natDecimal_ne_nil m (String.ofList_injective (h.trans rfl))
  rw [hrow, key_row hm]
  split_ifs
  · exact hvalid
  · unfold valid at hvalid ⊢
    simp only [bne_iff_ne, ne_eq, Bool.and_eq_true, Bool.or_eq_true] at hvalid ⊢
    exact ⟨hvalid.1, .inr htext⟩

/-- different rows have different keys -/
theorem RowKey.Sequenced.key_inj (h : row.Sequenced) (h' : row'.Sequenced) (hkey : row.key = row'.key) :
    row = row' := by
  obtain ⟨m, hm, hrow, -⟩ := h
  obtain ⟨m', hm', hrow', -⟩ := h'
  rw [hrow, hrow', key_row hm, key_row hm'] at hkey
  rw [hrow, hrow']
  split_ifs at hkey
  · obtain ⟨hc, rfl⟩ := InputCursor.key_inj.1 hkey
    rw [hc]
  · exact absurd (congrArg InputKey.inputSequence hkey) hm
  · exact absurd (congrArg InputKey.inputSequence hkey).symm hm'
  · have hc : row.cursor = row'.cursor := congrArg InputKey.cursor hkey
    have hnumber := natDecimal_injective (String.ofList_injective (congrArg InputKey.inputID hkey))
    rw [hc, hnumber]

variable {Hash : Type} {j : InputJournal Hash} {key : InputKey} {r : Recorded Hash}

/-- a decision the journal does not know is restored if there is room -/
theorem restore_ok (hnormal : key.normalize = key) (hvalid : key.valid = true) (hstatus : r.status ≠ .duplicate)
    (hnone : j.decisions.lookup key = none) :
    if j.decisions.entries.length < j.max then
      ∃ j', j.restore key r = .ok j' ∧ j'.max = j.max ∧ j'.decisions.entries.length = j.decisions.entries.length + 1 ∧
        ∀ k, (j'.decisions.lookup k).isSome = true ↔ k = key ∨ (j.decisions.lookup k).isSome = true
    else j.restore key r = .error .inputJournalFull := by
  have hinsert : ∀ k, ((j.decisions.insert key { r with inputSequence := key.inputSequence }).lookup k).isSome = true ↔
      k = key ∨ (j.decisions.lookup k).isSome = true := by
    intro k
    rw [Index.lookup_insert_if]
    split_ifs with hk <;> simp [hk]
  unfold restore
  dsimp only
  rw [hnormal, hvalid, hnone]
  by_cases hroom : j.decisions.entries.length < j.max
  · rw [if_pos hroom]
    rw [if_neg hstatus, if_neg (by simp), if_neg (Nat.not_le.2 hroom)]
    refine ⟨_, rfl, ?_⟩
    split_ifs
    all_goals
      refine ⟨rfl, ?_, hinsert⟩
      rw [Table.length_insert, hnone]
      rfl
  · rw [if_neg hroom]
    rw [if_neg (by simp), if_neg hstatus, if_neg (by simp), if_pos (Nat.not_lt.1 hroom)]

/-- **Recovery.** Decisions of different inputs are restored until the journal is full. -/
theorem restore_all (listed : List (Sigma fun _ : RowKey => Recorded Hash)) (hnodup : (listed.map Sigma.fst).Nodup)
    (hrows : ∀ e ∈ listed, e.1.Sequenced ∧ e.2.status ≠ .duplicate)
    (hnew : ∀ e ∈ listed, j.decisions.lookup e.1.key = none) :
    listed.foldlM (fun j row => j.restore row.1.key row.2) j = .error .inputJournalFull ↔
      listed ≠ [] ∧ j.max < j.decisions.entries.length + listed.length := by
  induction listed generalizing j with
  | nil => simp [pure, Except.pure]
  | cons e listed ih =>
    obtain ⟨hseq, hstatus⟩ := hrows e List.mem_cons_self
    have hrestore := restore_ok hseq.normalize_key hseq.valid_key hstatus (hnew e List.mem_cons_self)
    rw [List.foldlM_cons]
    split_ifs at hrestore with hroom
    · obtain ⟨j', hj', hmax, hlength, hknown⟩ := hrestore
      rw [hj']
      change listed.foldlM (fun j row => j.restore row.1.key row.2) j' = _ ↔ _
      rw [List.map_cons, List.nodup_cons] at hnodup
      rw [ih hnodup.2 (fun e he => hrows e (List.mem_cons_of_mem _ he)), hlength]
      · simp only [ne_eq, List.length_cons, reduceCtorEq, not_false_eq_true, true_and]
        cases listed with
        | nil =>
          simp only [not_true_eq_false, List.length_nil, false_and, false_iff]
          omega
        | cons _ _ =>
          simp only [reduceCtorEq, not_false_eq_true, true_and]
          omega
      · intro e' he'
        rw [← Option.not_isSome_iff_eq_none, hknown]
        rintro (hkey | hsome)
        · have hsame := (hrows e' (List.mem_cons_of_mem _ he')).1.key_inj hseq hkey
          exact hnodup.1 (hsame ▸ List.mem_map_of_mem he')
        · rw [hnew e' (List.mem_cons_of_mem _ he')] at hsome
          cases hsome
    · rw [hrestore]
      change Except.error _ = _ ↔ _
      simp only [ne_eq, reduceCtorEq, not_false_eq_true, true_and, List.length_cons, true_iff]
      omega

/-- rebuilding the journal fails exactly when there are more decisions than it takes -/
theorem recover_full {generation max : ℕ} {rows : AList fun _ : RowKey => Recorded Hash}
    (hrows : ∀ row r, rows.lookup row = some r → row.Sequenced ∧ r.status ≠ .duplicate)
    {listed : List (Sigma fun _ : RowKey => Recorded Hash)} (hlisted : listed.Perm rows.entries) :
    recover generation max listed = .error .inputJournalFull ↔ max < rows.entries.length := by
  have hnodup : (listed.map Sigma.fst).Nodup := (hlisted.map Sigma.fst).nodup_iff.2 rows.nodupKeys
  unfold recover
  rw [restore_all listed hnodup]
  · rw [hlisted.length_eq]
    constructor
    · rintro ⟨-, hlt⟩
      simpa [new] using hlt
    · intro hlt
      refine ⟨?_, by simpa [new] using hlt⟩
      rintro rfl
      rw [← hlisted.length_eq] at hlt
      exact absurd hlt (Nat.not_lt_zero _)
  · intro e he
    exact hrows e.1 e.2 (AList.mem_lookup_iff.2 (hlisted.subset he))
  · intro e _
    rfl

end

/-! ## Whole runs -/

open Typing

section

variable {Hash : Type} [DecidableEq Hash] {sum256 : Bytes → Hash} {generation max : ℕ} {s : Typing Hash}

variable (sum256 generation max s) in
structure Typing.Inv : Prop where
  live : s.session.live = some generation
  current : s.session.inputs.current = generation
  max : s.session.inputs.max = max
  journal : (Journaling.quiet s.session.inputs s.log).Inv sum256
  windowed : Windowed s.session.inputs s.log
  /-- a durable decision is one of an input that was written -/
  rows : ∀ rows, s.session.rows = some rows → ∀ row r, rows.lookup row = some r →
    (row.Sequenced ∧ ∃ m ∈ sequences row.cursor s.log, row = (row.cursor.key m).row) ∧ r.status ≠ .duplicate
  decided : ∀ d ∈ s.session.decided, d.2.status ≠ .duplicate

omit [DecidableEq Hash] in
theorem Typing.Inv.start (stored : Bool) :
    (Typing.start generation max stored : Typing Hash).Inv sum256 generation max where
  live := rfl
  current := rfl
  max := rfl
  journal := .start generation max
  windowed := by
    refine ⟨fun key => ?_, rfl⟩
    simp [Typing.start, new, sequences]
  rows := by
    intro rows hrows row r hr
    unfold Typing.start at hrows
    cases stored
    · cases hrows
    · cases hrows
      cases hr
  decided := by simp [Typing.start]

theorem outcome_ne_duplicate (sequence : ℕ) (data : Bytes) (n : ℤ) (err : Option WriteError) :
    (outcome sequence data n err).status ≠ .duplicate := by
  unfold outcome statusOf
  cases err with
  | none =>
    dsimp only
    split_ifs <;> simp
  | some e =>
    cases e
    · simp
    · dsimp only
      split_ifs <;> simp

/-- group commits change no row's identity -/
theorem updateInputDecisions_rows {P : RowKey → Prop} {rows : AList fun _ : RowKey => Recorded Hash}
    {decided : List (RowKey × Recorded Hash)} (hdecided : ∀ d ∈ decided, d.2.status ≠ .duplicate)
    (h : ∀ row r, rows.lookup row = some r → P row ∧ r.status ≠ .duplicate) :
    ∀ row r, (updateInputDecisions rows decided).lookup row = some r → P row ∧ r.status ≠ .duplicate := by
  unfold updateInputDecisions
  refine Fold.foldl_inv (fun rows => ∀ row r, rows.lookup row = some r → P row ∧ r.status ≠ .duplicate) _ decided
    (fun rows d hd h row r hr => ?_) rows h
  dsimp only at hr
  cases hd' : rows.lookup d.1 with
  | none =>
    rw [hd'] at hr
    exact h row r hr
  | some old =>
    rw [hd'] at hr
    dsimp only at hr
    split_ifs at hr
    · exact Index.forall_insert h ⟨(h d.1 old hd').1, hdecided d hd⟩ row r hr
    · exact h row r hr

variable {key : InputKey} {data : Bytes} {w : Weather}

section

variable (h : s.Inv sum256 generation max)
include h

/-- **A new decision.** -/
theorem Typing.Inv.writeContext (hvalid : key.valid = true) (hseq : key.inputSequence ≠ 0)
    (hdecides : s.session.decides sum256 key data w = true) (n : ℤ) (err : Option WriteError)
    (hanswer : (s.session.sink key).1.answer data w = (n, err)) :
    Inv sum256 generation max
      { session := (s.session.writeContext sum256 key data w).1
        log := s.log ++ [.called key.normalize data, .ended key.normalize data n err] } := by
  obtain ⟨-, hinputs, -, -, -, hlive, hrows, hdecided⟩ := writeContext_of_decides hdecides
  rw [hanswer] at hinputs hdecided
  obtain ⟨-, hnone, -, hgen, herr⟩ := takes_iff.1 (decides_takes hdecides)
  rw [normalize_normalize] at hnone herr
  have hseq' : key.normalize.inputSequence ≠ 0 := by rwa [normalize_inputSequence]
  have hnumbers : ∀ c, sequences c (s.log ++ [.called key.normalize data, .ended key.normalize data n err]) =
      if key.cursor = c then sequences c s.log ++ [key.inputSequence] else sequences c s.log := by
    intro c
    rw [sequences_write, normalize_cursor, normalize_inputSequence]
    simp [hseq]
  constructor
  case live => exact hlive.trans h.live
  case current =>
    rw [hinputs, record_current, take_current]
    exact h.current
  case max =>
    rw [hinputs, record_max, take_max]
    exact h.max
  case journal =>
    dsimp only
    rw [hinputs]
    exact h.journal.decision (normalize_normalize key) hnone hgen herr
  case windowed =>
    dsimp only
    rw [hinputs]
    exact h.windowed.write h.journal (normalize_normalize key) hnone hgen hseq' herr
  case rows =>
    intro rows hrows' row r hr
    dsimp only at hrows' ⊢
    rw [hrows] at hrows'
    obtain ⟨old, hold, hrows'⟩ := Option.map_eq_some_iff.1 hrows'
    -- whether or not older rows are pruned, a row is the new one or one from before
    have hadded : (old.insert key.normalize.row
        { status := .uncertain, inputSequence := key.normalize.inputSequence, hash := sum256 data }).lookup row =
          some r := by
      dsimp only at hrows'
      split_ifs at hrows'
      · rw [← hrows', pruneInputDecisions, Table.lookup_keep] at hr
        split_ifs at hr
        exact hr
      · rw [hrows']
        exact hr
    rw [hnumbers]
    rw [Index.lookup_insert_if] at hadded
    split_ifs at hadded with hrow
    · cases hadded
      rw [normalize_eq hseq] at hrow
      have hcursor : row.cursor = key.cursor := by rw [hrow]; rfl
      refine ⟨⟨⟨key.inputSequence, hseq, hcursor ▸ hrow, ?_⟩, key.inputSequence, ?_, hcursor ▸ hrow⟩, by simp⟩
      · rw [hcursor, ← normalize_eq hseq]
        exact normalize_valid hvalid hseq
      · rw [if_pos hcursor.symm]
        simp
    · obtain ⟨⟨hsequenced, m, hm, hrowm⟩, hstatus⟩ := h.rows old hold row r hadded
      refine ⟨⟨hsequenced, m, ?_, hrowm⟩, hstatus⟩
      split_ifs
      · exact List.mem_append_left _ hm
      · exact hm
  case decided =>
    intro d hd
    rcases hdecided d hd with hd | hd
    · exact h.decided d hd
    · rw [hd]
      exact outcome_ne_duplicate _ _ _ _

theorem Typing.Inv.step (op : TypingOp) : (s.step sum256 op).Inv sum256 generation max := by
  cases op with
  | writeContext key data w =>
    unfold Typing.step
    dsimp only
    split_ifs with hskip hdecides
    · exact h
    · obtain ⟨hseq, hvalid⟩ := not_or.1 hskip
      exact h.writeContext (by simpa using hvalid) hseq hdecides _ _ rfl
    · obtain ⟨hseq, hvalid⟩ := not_or.1 hskip
      replace hvalid : key.valid = true := by simpa using hvalid
      obtain ⟨hsame, -, hrows⟩ := writeContext_of_not_decides (Bool.not_eq_true _ ▸ hdecides)
      have hgen : s.session.live = some key.generation → key.generation = s.session.inputs.current := by
        rw [h.live, h.current]
        exact fun hlive => (Option.some.inj hlive).symm
      have hrows := hrows (normalize_valid hvalid hseq) hgen
      constructor
      case live => exact hsame.live.trans h.live
      case current => exact (congrArg InputJournal.current hsame.inputs).trans h.current
      case max => exact (congrArg InputJournal.max hsame.inputs).trans h.max
      case journal => exact hsame.inputs ▸ h.journal
      case windowed => exact hsame.inputs ▸ h.windowed
      case rows => exact fun rows hr => h.rows rows (hrows ▸ hr)
      case decided => exact fun d hd => h.decided d (hsame.decided ▸ hd)
  | attach | detach => exact { h with }
  | commit =>
    refine { h with rows := fun rows hrows => ?_, decided := fun d hd => by cases hd }
    obtain ⟨old, hold, rfl⟩ := Option.map_eq_some_iff.1 hrows
    exact updateInputDecisions_rows h.decided (h.rows old hold)

omit h in
theorem Typing.Inv.run (stored : Bool) (ops : List TypingOp) :
    (run (Typing.step sum256) (.start generation max stored) ops).Inv sum256 generation max :=
  run_inv (I := fun _ s => Inv sum256 generation max s) _ _ (.start stored) (fun _ op h => h.step op) ops

omit [DecidableEq Hash] in
/-- the next input of a client is not known to the journal -/
theorem Typing.Inv.unknown (hnext : s.session.inOrder key = true) :
    s.session.inputs.decisions.lookup key.normalize = none := by
  obtain ⟨hlive, -, -, hseq, horder⟩ := of_decide_eq_true hnext
  rw [← Option.not_isSome_iff_eq_none, h.windowed.window]
  rintro ⟨-, hmem, -⟩
  rw [normalize_cursor, normalize_inputSequence] at hmem
  obtain ⟨first, count, hfirst, hnumbers, hlast⟩ := h.journal.consecutive key.cursor
  have hgen : key.cursor.generation = s.session.inputs.current := by
    rw [h.current]
    exact (Option.some.inj (h.live.symm.trans hlive)).symm
  have hlast := hlast hgen
  replace hnumbers : sequences key.cursor s.log = List.range' first count := hnumbers
  replace hlast : s.session.inputs.lastSequence key.cursor = if count = 0 then 0 else first + count - 1 := hlast
  rw [hnumbers, List.mem_range'_1] at hmem
  split_ifs at hlast <;> omega

omit h in
/-- with room in the journal a new input may be refused, but not for lack of room -/
theorem writeNew_not_full {s : Session Hash} {sink : Sink} (hnone : s.inputs.decisions.lookup key.normalize = none)
    (hroom : s.inputs.decisions.entries.length < s.inputs.max) (hvalid : key.normalize.valid = true)
    (hgen : key.generation = s.inputs.current) :
    (s.writeNew sum256 sink key data w).2 ≠ .error (.input .inputJournalFull) := by
  unfold writeNew
  cases hadmits : s.inputs.admits key with
  | some e =>
    unfold admits at hadmits
    simp only [hnone, Nat.not_le.2 hroom, if_false] at hadmits
    intro hfull
    obtain rfl : e = .inputJournalFull := by simpa using hfull
    unfold sequenceError at hadmits
    split_ifs at hadmits <;> cases hadmits
  | none =>
    have htakes : s.inputs.takes sum256 key data = true := takes_of_admits hnone hadmits hvalid hgen
    cases hrows : s.rows with
    | none =>
      dsimp only
      rw [deliver_of_takes htakes]
      simp
    | some rows =>
      dsimp only
      split_ifs
      · simp
      · unfold putInputDecision
        cases hrow : rows.lookup key.row with
        | some row =>
          dsimp only
          split_ifs <;> simp [Except.map]
        | none =>
          dsimp only [Except.map]
          rw [deliver_of_takes (by exact htakes)]
          simp

/-- its WriteContext lacks room exactly when the journal is full -/
theorem Typing.Inv.full_iff (hnext : s.session.inOrder key = true) :
    (s.session.writeContext sum256 key data w).2 = .error (.input .inputJournalFull) ↔ max ≤ held s.log := by
  have hnone := h.unknown hnext
  obtain ⟨hlive, hattached, hvalid, hseq, horder⟩ := of_decide_eq_true hnext
  have hgen : key.generation = s.session.inputs.current := by
    rw [h.current]
    exact (Option.some.inj (h.live.symm.trans hlive)).symm
  have hnone' : s.session.inputs.decisions.lookup key.normalize.normalize = none := by rwa [normalize_normalize]
  unfold Session.writeContext
  rw [if_neg (not_not.2 hlive)]
  dsimp only
  rw [if_neg (not_not.2 hattached), query_error hnone', ← h.windowed.length, ← h.max]
  by_cases hroom : s.session.inputs.max ≤ s.session.inputs.decisions.entries.length
  · have hadmits : s.session.inputs.admits key.normalize = some .inputJournalFull := by
      unfold admits
      simp only [hnone', hroom, if_true]
    rw [Session.writeNew, hadmits]
    simp [hroom]
  · simp only [hroom, iff_false]
    refine writeNew_not_full hnone' (Nat.lt_of_not_le hroom) ?_ ?_
    · rw [normalize_normalize]
      exact normalize_valid hvalid hseq
    · rwa [normalize_generation]

end

/-- **When there is no room.** The next input of an attached client is refused with a full journal exactly when
everyone who wrote in this generation, attached or not, holds as many decisions together as the journal takes; and
recovery fails with a full journal exactly when there are more durable decisions than that. -/
theorem journal_full_iff (generation max : ℕ) (stored : Bool) (ops : List TypingOp) :
    (∀ key data w,
      (run (Typing.step sum256) (.start generation max stored) ops).session.inOrder key = true →
      (((run (Typing.step sum256) (.start generation max stored) ops).session.writeContext sum256 key data w).2 =
        .error (.input .inputJournalFull) ↔
      max ≤ held (run (Typing.step sum256) (.start generation max stored) ops).log)) ∧
    ∀ rows, (run (Typing.step sum256) (.start generation max stored) ops).session.rows = some rows →
      ∀ listed, listed.Perm rows.entries →
        (recover generation max listed = .error .inputJournalFull ↔ max < rows.entries.length) := by
  have h : Typing.Inv sum256 generation max _ := .run stored ops
  refine ⟨fun key data w hnext => h.full_iff hnext, fun rows hrows listed hlisted => ?_⟩
  exact recover_full (fun row r hr => ⟨(h.rows rows hrows row r hr).1.1, (h.rows rows hrows row r hr).2⟩) hlisted

/-! ## A window types -/

/-- a key of a window -/
def InputCursor.ofWindow (window : String) : InputCursor := ⟨"client", window, 1⟩

/-- a window types keys with the next numbers -/
def typeKeys (window : String) (first count : ℕ) : List TypingOp :=
  (List.range' first count).map fun m => .writeContext ((ofWindow window).key m) [97] { n := 1 }

/-- a window has typed `m` keys; others hold `others` decisions and have `rows` rows -/
structure Typing.Typed (sum256 : Bytes → Hash) (max : ℕ) (s : Typing Hash) (window : String)
    (others rows m : ℕ) : Prop where
  inv : s.Inv sum256 1 max
  attached : window ∈ s.session.attached
  last : s.session.inputs.lastSequence (.ofWindow window) = m
  free : s.session.inputs.stuck (.ofWindow window) = false
  quiet : s.session.interrupt = none
  count : (sequences (.ofWindow window) s.log).length = m
  held : held s.log = others + min m inputDecisionWindow
  rows : ∃ stored, s.session.rows = some stored ∧ stored.entries.length = rows + m

section type

variable {window : String} {others rows m : ℕ}

section

variable (h : s.Typed sum256 max window others rows m)
include h

variable (hwindow : window ≠ "")
include hwindow

omit [DecidableEq Hash] in
theorem Typing.Typed.inOrder : s.session.inOrder ((ofWindow window).key (m + 1)) = true :=
  decide_eq_true ⟨h.inv.live, h.attached, by simp [valid, key, ofWindow, hwindow],
    Nat.succ_ne_zero m, .inr (by rw [cursor_key, h.last]; rfl)⟩

/-- the next key is decided -/
theorem Typing.Typed.decides (hroom : others + min m inputDecisionWindow < max) :
    s.session.decides sum256 ((ofWindow window).key (m + 1)) [97] { n := 1 } = true := by
  have hseq : ((ofWindow window).key (m + 1)).inputSequence ≠ 0 := Nat.succ_ne_zero m
  have hgen : ((ofWindow window).key (m + 1)).generation = s.session.inputs.current := h.inv.current.symm
  have herr : s.session.inputs.sequenceError ((ofWindow window).key (m + 1)) = none :=
    (sequenceError_none hseq).2 (.inr ⟨h.free, by rw [cursor_key, h.last]; rfl⟩)
  have hstores : s.session.stores ((ofWindow window).key (m + 1)) { n := 1 } = true := by
    obtain ⟨stored, hstored, -⟩ := h.rows
    unfold Session.stores
    rw [hstored]
    cases hrow : stored.lookup ((ofWindow window).key (m + 1)).row with
    | none => simp [hrow]
    | some r =>
      -- a row for it would be the row of a number that was written before
      obtain ⟨⟨-, m', hm', hsame⟩, -⟩ := h.inv.rows stored hstored _ r hrow
      obtain ⟨first, count, hfirst, hnumbers, hnext, -⟩ := h.inv.journal.continues hgen hseq herr
      replace hm' : m' ∈ List.range' first count := hnumbers ▸ hm'
      replace hnext : m + 1 = first + count := hnext
      rw [List.mem_range'_1] at hm'
      have hnumber := (row_inj (Nat.succ_ne_zero m) (by omega) hsame).2
      omega
  have htakes : s.session.inputs.takes sum256 ((ofWindow window).key (m + 1)) [97] = true := by
    rw [takes_iff, normalize_key]
    refine ⟨?_, ?_, ?_, hgen, herr⟩
    · simp [valid, key, ofWindow, hwindow]
    · have hnone := h.inv.unknown (h.inOrder hwindow)
      rwa [normalize_key] at hnone
    · rw [h.inv.windowed.length, h.held, h.inv.max]
      exact hroom
  unfold Session.decides
  rw [normalize_key, hstores, htakes, h.inv.live]
  simp only [Bool.and_true, Bool.and_eq_true, decide_eq_true_eq]
  exact ⟨rfl, h.attached⟩

theorem Typing.Typed.type (hroom : others + min m inputDecisionWindow < max) (hshort : m + 1 < 320) :
    (s.step sum256 (.writeContext ((ofWindow window).key (m + 1)) [97] { n := 1 })).Typed sum256 max window
      others rows (m + 1) := by
  have hdecides := h.decides hwindow hroom
  have hinv := h.inv.step (.writeContext ((ofWindow window).key (m + 1)) [97] { n := 1 })
  have hseq : ((ofWindow window).key (m + 1)).inputSequence ≠ 0 := Nat.succ_ne_zero m
  have hsink : s.session.sink ((ofWindow window).key (m + 1)) = (.pty, none) := by
    unfold sink
    rw [h.quiet]
  have hvalid : ((ofWindow window).key (m + 1)).valid = true := by
    simp [valid, key, ofWindow, hwindow]
  obtain ⟨-, hinputs, hinterrupt, -, hattached, -, hrows, -⟩ := writeContext_of_decides hdecides
  unfold step at hinv ⊢
  dsimp only at hinv ⊢
  rw [if_neg (by simp [hvalid]), if_pos hdecides] at hinv ⊢
  rw [hsink] at hinputs hinterrupt
  rw [normalize_key] at hinputs hrows
  constructor
  case inv => exact hinv
  case attached => exact hattached ▸ h.attached
  case last =>
    dsimp only
    rw [hinputs, record_lastSequence, take_lastSequence, if_pos ⟨hseq, rfl⟩]
    rfl
  case free =>
    dsimp only
    rw [hinputs]
    exact (decision_stuck (normalize_key _ _) hseq).trans rfl
  case quiet => exact hinterrupt
  case count =>
    dsimp only
    rw [sequences_write, normalize_key, if_pos ⟨rfl, hseq⟩, List.length_append, h.count]
    rfl
  case held =>
    dsimp only
    rw [normalize_key, held_write hseq, cursor_key, h.count, h.held]
    split_ifs <;> omega
  case rows =>
    obtain ⟨stored, hstored, hlength⟩ := h.rows
    have hnew : stored.lookup ((ofWindow window).key (m + 1)).row = none := by
      have hstores := decides_stores hdecides
      unfold stores at hstores
      rw [hstored, normalize_key] at hstores
      simpa using hstores
    -- no row is deleted before the first number that ends a batch beyond the window
    have hbatch : ¬(inputDecisionWindow < m + 1 ∧ (m + 1) % inputPruneBatch = 0 ∧
        ({ n := 1 } : Weather).pruneFails = false) := by
      unfold inputDecisionWindow inputPruneBatch
      omega
    refine ⟨stored.insert ((ofWindow window).key (m + 1)).row
      { status := .uncertain, inputSequence := m + 1, hash := sum256 [97] }, hrows.trans ?_, ?_⟩
    · unfold rowsWith
      rw [hstored]
      exact congrArg some (if_neg hbatch)
    · rw [Table.length_insert, hnew, hlength]
      rfl

/-- a window that goes on typing -/
theorem Typing.Typed.run (count : ℕ)
    (hroom : ∀ i < count, others + min (m + i) inputDecisionWindow < max) (hshort : m + count < 320) :
    (run (step sum256) s (typeKeys window (m + 1) count)).Typed sum256 max window others rows (m + count) := by
  induction count with
  | zero => exact h
  | succ count ih =>
    have hbefore := ih (fun i hi => hroom i (Nat.lt_succ_of_lt hi)) (by omega)
    have hnext := hbefore.type hwindow (hroom count (Nat.lt_succ_self count)) (by omega)
    have hops : typeKeys window (m + 1) (count + 1) = typeKeys window (m + 1) count ++
        [.writeContext ((ofWindow window).key (m + count + 1)) [97] { n := 1 }] := by
      unfold typeKeys
      rw [List.range'_1_concat, List.map_append, Nat.add_right_comm]
      rfl
    rw [hops, run_snoc]
    exact hnext

end

omit [DecidableEq Hash] in
/-- a window attaches that has not typed yet -/
theorem Typing.Typed.of_attached (h : s.Inv sum256 1 max) (hattached : window ∈ s.session.attached)
    (hquiet : s.session.interrupt = none) (hnew : sequences (.ofWindow window) s.log = []) (stored)
    (hstored : s.session.rows = some stored) :
    s.Typed sum256 max window (Terminal.held s.log) stored.entries.length 0 := by
  have hlast : s.session.inputs.lastSequence (.ofWindow window) = 0 := by
    obtain ⟨first, count, -, hnumbers, hlast⟩ := h.journal.consecutive (.ofWindow window)
    replace hnumbers : [] = List.range' first count := hnew ▸ hnumbers
    have hcount : count = 0 := List.range'_eq_nil_iff.1 hnumbers.symm
    have hlast := hlast h.current.symm
    rw [if_pos hcount] at hlast
    exact hlast
  refine ⟨h, hattached, hlast, ?_, hquiet, by rw [hnew]; rfl, by simp, stored, hstored, rfl⟩
  unfold stuck
  have hnone : s.session.inputs.decisions.lookup ((ofWindow window).key 0) = none := by
    rw [← Option.not_isSome_iff_eq_none, h.windowed.window, cursor_key, hnew]
    simp
  rw [hlast, hnone]

/-- typing attaches nobody and writes for nobody else -/
theorem typeKeys_frame (window : String) (first count : ℕ) (s : Typing Hash) :
    (run (step sum256) s (typeKeys window first count)).session.attached = s.session.attached ∧
    ∀ c, c ≠ .ofWindow window →
      sequences c (run (step sum256) s (typeKeys window first count)).log = sequences c s.log := by
  refine Fold.foldl_inv (fun t => t.session.attached = s.session.attached ∧ ∀ c, c ≠ .ofWindow window →
    sequences c t.log = sequences c s.log) _ _ (fun t op hop ht => ?_) s ⟨rfl, fun _ _ => rfl⟩
  obtain ⟨m, -, rfl⟩ := List.mem_map.1 hop
  unfold step
  dsimp only
  split_ifs with hskip hdecides
  · exact ht
  · refine ⟨(writeContext_of_decides hdecides).attached.trans ht.1, fun c hc => ?_⟩
    rw [sequences_write, if_neg, ht.2 c hc]
    rintro ⟨rfl, -⟩
    exact hc (normalize_cursor _)
  · exact ⟨(writeContext_of_not_decides (Bool.not_eq_true _ ▸ hdecides)).1.attached.trans ht.1, ht.2⟩

end type

end

/-- one window fills what the journal keeps of it and leaves; another one types a key -/
def twoWriters : List TypingOp :=
  [.attach "one"] ++ typeKeys "one" 1 256 ++ ([.detach "one", .attach "two"] ++ typeKeys "two" 1 1)

/-- one window types a little more than the journal keeps -/
def oneWriter : List TypingOp := [.attach "one"] ++ typeKeys "one" 1 258

/-- a generation with a store, whose journal takes 257 decisions -/
def typing (ops : List TypingOp) : Typing Bytes := run (step id) (.start 1 257 true) ops

/-- the first keys of the first window -/
theorem one_typed (count : ℕ) (hcount : count < 320) :
    (typing ([.attach "one"] ++ typeKeys "one" 1 count)).Typed id 257 "one" 0 0 count := by
  have hstart : Inv id 1 257 (start 1 257 true) := .start true
  have htyped : ((start 1 257 true).step id (.attach "one")).Typed id 257 "one" 0 0 0 :=
    Typed.of_attached (hstart.step _) List.mem_cons_self rfl rfl ∅ rfl
  have hroom : ∀ i < count, 0 + min (0 + i) inputDecisionWindow < 257 := by
    intro i _
    unfold inputDecisionWindow
    omega
  have hrun := htyped.run (by decide) count hroom (by omega)
  rw [Nat.zero_add count] at hrun
  unfold typing
  exact hrun

theorem one_attached (count : ℕ) : (typing ([.attach "one"] ++ typeKeys "one" 1 count)).session.attached = ["one"] := by
  unfold typing
  rw [run_append, (typeKeys_frame "one" 1 count _).1]
  rfl

/-- the first window leaves and the second one types its first key -/
theorem two_typed {s : Typing Bytes} (h : s.Typed id 257 "one" 0 0 256)
    (hnew : sequences (.ofWindow "two") s.log = []) :
    (run (step id) s ([.detach "one", .attach "two"] ++ typeKeys "two" 1 1)).Typed id 257 "two" 256 256 1 := by
  obtain ⟨stored, hstored, hlength⟩ := h.rows
  have hinv := (h.inv.step (.detach "one")).step (.attach "two")
  have htwo := Typed.of_attached hinv List.mem_cons_self h.quiet hnew stored hstored
  have hheld : held (((s.step id (.detach "one")).step id (.attach "two")).log) = 256 := h.held
  rw [hheld, hlength] at htwo
  exact htwo.run (by decide) 1 (by decide) (by decide)

theorem two_attached (s : Typing Bytes) :
    (run (step id) s ([.detach "one", .attach "two"] ++ typeKeys "two" 1 1)).session.attached =
      "two" :: s.session.attached.filter (· ≠ "one") := by
  rw [run_append, (typeKeys_frame "two" 1 1 _).1]
  rfl

/-- **One attached window is enough.** The journal takes more than the decisions of one window. After a window that
left, the second key of the attached one is refused; and the keys of one window alone leave more rows than recovery
takes. -/
theorem one_window_full :
    ((typing twoWriters).session.attached.length * inputDecisionWindow < 257 ∧
      (typing twoWriters).session.inOrder ((ofWindow "two").key 2) = true ∧
      ((typing twoWriters).session.writeContext id ((ofWindow "two").key 2) [97] { n := 1 }).2 =
        .error (.input .inputJournalFull)) ∧
    (typing oneWriter).session.attached.length * inputDecisionWindow < 257 ∧
    ∃ rows, (typing oneWriter).session.rows = some rows ∧ recover 1 257 rows.entries = .error .inputJournalFull := by
  constructor
  · have hnew : sequences (.ofWindow "two") (typing ([.attach "one"] ++ typeKeys "one" 1 256)).log = [] := by
      unfold typing
      rw [run_append, (typeKeys_frame "one" 1 256 _).2 _ (by decide)]
      rfl
    have htwo : (typing twoWriters).Typed id 257 "two" 256 256 1 := by
      rw [twoWriters, typing, run_append]
      exact two_typed (one_typed 256 (by decide)) hnew
    have hattached : (typing twoWriters).session.attached = ["two"] := by
      rw [twoWriters, typing, run_append, two_attached, ← typing, one_attached]
      decide
    refine ⟨?_, htwo.inOrder (by decide), (htwo.inv.full_iff (htwo.inOrder (by decide))).2 ?_⟩
    · rw [hattached]
      decide
    · rw [htwo.held]
      decide
  · have hone : (typing oneWriter).Typed id 257 "one" 0 0 258 := by
      rw [oneWriter]
      exact one_typed 258 (by decide)
    have hattached : (typing oneWriter).session.attached = ["one"] := by rw [oneWriter, one_attached]
    obtain ⟨rows, hrows, hlength⟩ := hone.rows
    refine ⟨?_, rows, hrows, ?_⟩
    · rw [hattached]
      decide
    · refine (recover_full (fun row r hr => ?_) (List.Perm.refl _)).2 (by omega)
      exact ⟨(hone.inv.rows rows hrows row r hr).1.1, (hone.inv.rows rows hrows row r hr).2⟩

end Paperboat.Terminal
