/-
What a caller of the update gate was told, and what the gate does afterwards, in the
same process and after restarts.

A commit changes the transaction in memory and then writes it. If the write fails the
commit is refused, but its retry finds the transaction committed in memory and is
answered without another write, while the file still has it drained: the next process
raises its fence again, and may roll it back. A rollback that is retried is written
again.

`told` lists the commits and rollbacks that were answered without error. A target
request that finds no transaction under its identifier creates another transaction; what
was told of the one before it is then about no transaction any more.

Results:
- `stage_keeps`, `handle_keeps`: a transaction that is committed or rolled back stays so
  in memory;
- `handle_covered`: without a write a request makes no transaction active;
- `told_kept_iff`: **what was answered is kept, all along a run, exactly if no commit is
  answered from memory while the file still has the transaction drained**.

Witnesses:
- `commit_lost`: such an answer, a restart, and the committed update is rolled back.
-/
import Paperboat.Update.GateFile

namespace Paperboat.Standalone

open Transaction

/-! ## What was answered -/

inductive Ending
  | committed
  | rolledBack
deriving DecidableEq, Repr

/-- the request ends its transaction -/
def Operation.ending : Operation → Option Ending
  | .commit => some .committed
  | .rollback => some .rolledBack
  | _ => none

/-- the transaction is ended so -/
def Transaction.has (t : Transaction) : Ending → Bool
  | .committed => t.committed
  | .rolledBack => t.rolledBack

structure Told where
  world : World := {}
  told : List (Ending × String) := []

/-- the request creates a transaction -/
def Gate.creates (g : Gate) (r : Request) (o : Outcome) : Bool :=
  r.validate && r.operation == .target && ((g.purge o.now).transactions.lookup r.transactionID).isNone &&
    decide ((g.purge o.now).transactions.entries.length < 128)

/-- what has been told after a request -/
def Gate.tell (g : Gate) (c : Config) (r : Request) (o : Outcome) (told : List (Ending × String)) :
    List (Ending × String) :=
  if g.creates r o then told.filter fun p => p.2 ≠ r.transactionID
  else
    match r.operation.ending, (g.handleUpdateGate c r o).reply with
    | some e, .ok _ => (e, r.transactionID) :: told
    | _, _ => told

namespace Told

def step (c : Config) (s : Told) (op : Op) : Told :=
  { world := s.world.step c op
    told :=
      match op, s.world.gate with
      | .request r o, some g => g.tell c r o s.told
      | _, _ => s.told }

end Told

/-- the transaction is not drained, and does not hold the fence -/
def Gate.Free (g : Gate) (x : String) : Prop :=
  (∀ u, g.transactions.lookup x = some u → u.drained = false) ∧ g.heldTransaction ≠ x

/-- what was ended is neither drained nor holds the fence, in the process and in one that starts from the file, and
what was committed is not recorded as rolled back -/
structure Told.Kept (c : Config) (s : Told) : Prop where
  process : ∀ e x, (e, x) ∈ s.told → ∀ g, s.world.gate = some g → g.Free x
  restart : ∀ e x, (e, x) ∈ s.told → ∀ begun g, newStandaloneUpdateGate c s.world.file begun = some g → g.Free x
  memory : ∀ x, (.committed, x) ∈ s.told → ∀ g u, s.world.gate = some g → g.transactions.lookup x = some u →
    u.rolledBack = false
  recorded : ∀ x, (.committed, x) ∈ s.told → ∀ ts u, s.world.file = some ts → ts.lookup x = some u →
    u.rolledBack = false

/-- a commit that is answered for a transaction committed in memory finds it not drained in the file, or the file is
one from which no process starts -/
def Told.Written (c : Config) (s : Told) (op : Op) : Prop :=
  ∀ g r o u, s.world.gate = some g → op = .request r o → r.operation = .commit →
    (g.purge o.now).transactions.lookup r.transactionID = some u → u.committed = true →
    (g.handleUpdateGate c r o).reply = .ok c.target →
    ∀ ts v, s.world.file = some ts → (newStandaloneUpdateGate c (some ts) true).isSome = true →
      ts.lookup r.transactionID = some v → v.drained = false

/-! ## Ended transactions -/

variable {e : Ending} {id : String} {t : Transaction}

theorem Transaction.Sane.ended_drained {c : Config} (h : t.Sane c id) (he : t.has e = true) : t.drained = false := by
  cases hd : t.drained with
  | false => rfl
  | true =>
    obtain ⟨hc, hr, -⟩ := h.drained hd
    cases e with
    | committed => cases hc.symm.trans he
    | rolledBack => cases hr.symm.trans he

theorem Transaction.has_abandon (h : t.has e = true) : t.abandon.has e = true := by
  unfold abandon
  split_ifs with hcommitted
  · exact h
  · cases e with
    | committed => exact absurd h hcommitted
    | rolledBack => rfl

/-- an open transaction is not ended -/
theorem Transaction.not_has (h : t.committed = false ∧ t.rolledBack = false) (e : Ending) : t.has e = false := by
  cases e with
  | committed => exact h.1
  | rolledBack => exact h.2

/-- the transaction under the identifier, if there is one, is ended so -/
def Gate.Ended (g : Gate) (e : Ending) (x : String) : Prop := ∀ u, g.transactions.lookup x = some u → u.has e = true

section Keeps

variable {c : Config} {g g' : Gate} {r : Request} {o : Outcome} {e : Ending} {x : String}

theorem Gate.Ended.purge (h : g.Ended e x) (now : ℕ) : (g.purge now).Ended e x :=
  fun u hu => h u (Gate.lookup_purge_some.1 hu).1

theorem Gate.Ended.set (h : g.Ended e x) (ht : x = id → t.has e = true) : (g.set id t).Ended e x := by
  intro u hu
  rw [Gate.lookup_set] at hu
  split_ifs at hu with hx
  · cases hu
    exact ht hx
  · exact h u hu

theorem Gate.Ended.handOver (h : g.Ended e x) (id : String) : (g.handOver c id).Ended e x := by
  intro u hu
  rw [Gate.lookup_handOver] at hu
  split_ifs at hu
  · obtain ⟨v, hv, rfl⟩ := Option.map_eq_some_iff.1 hu
    exact has_abandon (h v hv)
  · exact h u hu

/-- an ended transaction stays ended in what a request would write, unless it is created anew -/
theorem stage_keeps (hg : Backed c g) (hs : Stages c g r o (.write g' t)) (h : g.Ended e x)
    (hnew : ¬(r.operation = .target ∧ g.transactions.lookup r.transactionID = none ∧
      g.transactions.entries.length < 128 ∧ x = r.transactionID)) : g'.Ended e x := by
  cases hs with
  | created hop hnone hlength => exact h.set fun hx => absurd ⟨hop, hnone, hlength, hx⟩ hnew
  | bound hop ht hopen =>
    refine h.set fun hx => ?_
    subst hx
    cases (not_has hopen e).symm.trans (h _ ht)
  | drained hop ht hopen hbound hworkloads =>
    have hraised : (g.raised c r.transactionID).Ended e x := by
      intro u hu
      rw [Gate.raised_transactions] at hu
      exact h.handOver _ u hu
    refine hraised.set fun hx => ?_
    subst hx
    cases (not_has hopen e).symm.trans (h _ ht)
  | watched hop ht hdrained => exact h
  | rolledBack hop ht hopen =>
    refine h.set fun hx => ?_
    subst hx
    cases e with
    | committed => cases hopen.symm.trans (h _ ht)
    | rolledBack => rfl
  | committed hop ht hdrained =>
    refine h.set fun hx => ?_
    subst hx
    cases ((hg.sane _ _ ht).ended_drained (h _ ht)).symm.trans hdrained

/-- a transaction a request drains is not ended -/
theorem drain_open (hs : Stages c g r o (.write g' t)) (hop : r.operation = .drain) (h : g.Ended e x) :
    x ≠ r.transactionID := by
  cases hs with
  | drained _ ht hopen hbound hworkloads =>
    rintro rfl
    cases (not_has hopen e).symm.trans (h _ ht)
  | _ hop' => cases hop'.symm.trans hop

theorem done_keeps {reply : Reply} (hs : Stages c g r o (.done g' reply)) (h : g.Ended e x) : g'.Ended e x := by
  intro u hu
  rcases hs.done_transactions with heq | heq
  · exact h u (heq ▸ hu)
  · exact h.handOver _ u (heq ▸ hu)

theorem handle_keeps (hg : Backed c g) (h : g.Ended e x) (hnew : ¬(g.creates r o = true ∧ x = r.transactionID)) :
    (g.handleUpdateGate c r o).gate.Ended e x ∧
      ∀ ts, (g.handleUpdateGate c r o).file = some ts → ∀ u, ts.lookup x = some u → u.has e = true := by
  have hnew' : r.validate = true → ¬(r.operation = .target ∧
      (g.purge o.now).transactions.lookup r.transactionID = none ∧
      (g.purge o.now).transactions.entries.length < 128 ∧ x = r.transactionID) := by
    rintro hr ⟨hop, hnone, hlength, hx⟩
    exact hnew ⟨by simp [Gate.creates, hr, hop, hnone, hlength], hx⟩
  have hh := handle_handles c g r o
  generalize g.handleUpdateGate c r o = H at hh ⊢
  cases hh with
  | invalid => exact ⟨h, nofun⟩
  | elsewhere => exact ⟨h.purge o.now, nofun⟩
  | done hr ha hs => exact ⟨done_keeps hs (h.purge o.now), nofun⟩
  | unwritten hr ha hs =>
    refine ⟨?_, nofun⟩
    have hg' := stage_keeps (hg.purge o.now) hs (h.purge o.now) (hnew' hr)
    unfold Gate.unwritten
    split_ifs with hop
    · intro u hu
      rw [Gate.releaseAdmission_transactions] at hu
      exact hg'.set (fun hx => absurd hx (drain_open hs hop (h.purge o.now))) u hu
    · exact hg'
  | written hr ha hs =>
    have hg' := stage_keeps (hg.purge o.now) hs (h.purge o.now) (hnew' hr)
    refine ⟨fun u hu => ?_, ?_⟩
    · rw [Gate.written_transactions] at hu
      exact hg' u hu
    · rintro _ ⟨⟩
      exact hg'

/-- the fence stays where it is, is released, or goes to the transaction of a drain, which is not ended -/
theorem handle_held (h : g.Ended e x) (hne : x ≠ "") (hheld : g.heldTransaction ≠ x) :
    (g.handleUpdateGate c r o).gate.heldTransaction ≠ x := by
  have hrelease : ∀ (g₁ : Gate) id ended, g₁.heldTransaction ≠ x →
      (g₁.releaseAdmission id ended).1.heldTransaction ≠ x := by
    intro g₁ id ended h₁
    rcases Gate.releaseAdmission_held g₁ id ended with h₂ | h₂
    · rw [h₂.1]
      exact h₁
    · rw [h₂]
      exact hne.symm
  -- the gate that would be written holds the fence for another transaction
  have hwrite : ∀ {g' : Gate} {t : Transaction}, Stages c (g.purge o.now) r o (.write g' t) →
      g'.heldTransaction ≠ x := by
    intro g' t hs
    have hdrain := fun hop => drain_open hs hop (h.purge o.now)
    cases hs with
    | drained hop ht hopen hbound hworkloads =>
      rw [Gate.raised]
      split_ifs
      · exact (hdrain hop).symm
      · exact hheld
    | _ => exact hheld
  have hh := handle_handles c g r o
  generalize g.handleUpdateGate c r o = H at hh ⊢
  cases hh with
  | invalid | elsewhere => exact hheld
  | done hr ha hs =>
    cases hs with
    | refused | found => exact hheld
    | again hop ht hcommitted => exact hrelease _ _ _ hheld
    | undrained errs hop ht hopen htransactions hg' =>
      rcases hg' with hg' | hg' | hg'
      · exact hg' ▸ hheld
      · exact hg' ▸ hne.symm
      · rw [hg']
        rintro rfl
        cases (not_has hopen e).symm.trans (h.purge o.now _ ht)
  | unwritten hr ha hs =>
    dsimp only [Gate.unwritten]
    have hheld' := hwrite hs
    split_ifs
    · exact hrelease _ _ _ hheld'
    · exact hheld'
  | written hr ha hs =>
    dsimp only [Gate.written]
    split_ifs
    · exact hrelease _ _ _ (hwrite hs)
    · exact hwrite hs

/-! ## Memory and file -/

/-- drained or committed -/
def Transaction.active (t : Transaction) : Bool := t.drained || t.committed

/-- what is drained or committed in one table is so in the other -/
def Covered (ts file : Transactions) : Prop :=
  ∀ x u, ts.lookup x = some u → u.active = true → ∃ v, file.lookup x = some v ∧ v.active = true

theorem Covered.refl (ts : Transactions) : Covered ts ts := fun _ u hu ha => ⟨u, hu, ha⟩

theorem Covered.trans {a b d : Transactions} (hab : Covered a b) (hbd : Covered b d) : Covered a d := by
  intro x u hu ha
  obtain ⟨v, hv, hva⟩ := hab x u hu ha
  exact hbd x v hv hva

theorem purge_covered (g : Gate) (now : ℕ) : Covered (g.purge now).transactions g.transactions :=
  fun _ u hu ha => ⟨u, (Gate.lookup_purge_some.1 hu).1, ha⟩

theorem active_of_abandon (h : t.abandon.active = true) : t.active = true := by
  unfold abandon at h
  split_ifs at h with hcommitted
  · exact h
  · exact absurd h (by simp [active, rollBack, hcommitted])

theorem giveUp_covered (g : Gate) (id : String) : Covered (g.giveUp id).transactions g.transactions := by
  intro x u hu ha
  rw [Gate.lookup_giveUp] at hu
  split_ifs at hu
  · obtain ⟨v, hv, rfl⟩ := Option.map_eq_some_iff.1 hu
    exact ⟨v, hv, active_of_abandon ha⟩
  · exact ⟨u, hu, ha⟩

theorem handOver_covered (g : Gate) (c : Config) (id : String) :
    Covered (g.handOver c id).transactions g.transactions := by
  unfold Gate.handOver
  split_ifs
  · exact giveUp_covered (g.hold "") g.heldTransaction
  · exact Covered.refl _

theorem set_covered {ts : Transactions} (h : Covered g.transactions ts)
    (ht : t.active = true → ∃ v, ts.lookup id = some v ∧ v.active = true) : Covered (g.set id t).transactions ts :=
  Index.forall_insert h ht

/-- only a drain makes a transaction active -/
theorem stage_covered (hs : Stages c g r o (.write g' t)) (hop : r.operation ≠ .drain) :
    Covered g'.transactions g.transactions := by
  cases hs with
  | created hop' hnone hlength => exact set_covered (.refl _) nofun
  | bound hop' ht hopen => exact set_covered (.refl _) fun h => ⟨_, ht, h⟩
  | drained hop' ht hopen hbound hworkloads => exact absurd hop' hop
  | watched hop' ht hdrained => exact .refl _
  | rolledBack hop' ht hopen =>
    refine set_covered (.refl _) fun h => ?_
    simp [active, rollBack, hopen] at h
  | committed hop' ht hdrained => exact set_covered (.refl _) fun _ => ⟨_, ht, by simp [active, hdrained]⟩

/-- a drain that is taken back makes none -/
theorem drain_covered (hs : Stages c g r o (.write g' t)) (hop : r.operation = .drain) :
    Covered (g'.set r.transactionID { t with drained := false }).transactions g.transactions := by
  cases hs with
  | drained _ ht hopen hbound hworkloads =>
    have hraised : Covered (g.raised c r.transactionID).transactions g.transactions := by
      rw [Gate.raised_transactions]
      exact handOver_covered g c r.transactionID
    intro x u hu ha
    rw [Gate.lookup_set, Gate.lookup_set] at hu
    split_ifs at hu with hx
    · cases hu
      simp [active, drain, hopen.1] at ha
    · exact hraised x u hu ha
  | _ hop' => cases hop'.symm.trans hop

theorem done_covered {reply : Reply} (hs : Stages c g r o (.done g' reply)) :
    Covered g'.transactions g.transactions := by
  rcases hs.done_transactions with heq | heq
  · exact heq ▸ .refl _
  · exact heq ▸ handOver_covered g c r.transactionID

/-- without a write a request makes no transaction active -/
theorem handle_covered (hfile : (g.handleUpdateGate c r o).file = none) :
    Covered (g.handleUpdateGate c r o).gate.transactions g.transactions := by
  have hh := handle_handles c g r o
  generalize g.handleUpdateGate c r o = H at hh hfile ⊢
  have hpurge := purge_covered g o.now
  cases hh with
  | invalid => exact .refl _
  | elsewhere => exact hpurge
  | done hr ha hs => exact (done_covered hs).trans hpurge
  | unwritten hr ha hs =>
    dsimp only [Gate.unwritten]
    split_ifs with hop
    · rw [Gate.releaseAdmission_transactions]
      exact (drain_covered hs hop).trans hpurge
    · exact (stage_covered hs hop).trans hpurge
  | written hr ha hs => cases hfile

/-! ## What an answer says -/

theorem Request.id_ne (h : r.validate = true) : r.transactionID ≠ "" := by
  intro hid
  simp [Request.validate, hid, idPattern] at h

theorem handle_valid {b : Binding} (hok : (g.handleUpdateGate c r o).reply = .ok b) : r.validate = true := by
  have hh := handle_handles c g r o
  generalize g.handleUpdateGate c r o = H at hh hok
  cases hh with
  | invalid | elsewhere => cases hok
  | done hr | unwritten hr | written hr => exact hr

theorem mem_tell {told : List (Ending × String)} (h : (e, x) ∈ g.tell c r o told) :
    (e, x) ∈ told ∧ ¬(g.creates r o = true ∧ x = r.transactionID) ∨
      x = r.transactionID ∧ r.operation.ending = some e ∧ ∃ b, (g.handleUpdateGate c r o).reply = .ok b := by
  unfold Gate.tell at h
  by_cases hcreates : g.creates r o = true
  · rw [if_pos hcreates, List.mem_filter, decide_eq_true_eq] at h
    exact .inl ⟨h.1, fun hx => h.2 hx.2⟩
  · rw [if_neg hcreates] at h
    split at h
    next e' b hending hreply =>
      rcases List.mem_cons.1 h with heq | hmem
      · cases heq
        exact .inr ⟨rfl, hending, b, hreply⟩
      · exact .inl ⟨hmem, fun hx => hcreates hx.1⟩
    · exact .inl ⟨h, fun hx => hcreates hx.1⟩

/-- a commit or rollback that is answered without error has ended its transaction, which no longer holds the fence;
it was written, or the transaction was committed in memory before -/
theorem handle_ends (he : r.operation.ending = some e) {b : Binding} (hok : (g.handleUpdateGate c r o).reply = .ok b) :
    (g.handleUpdateGate c r o).gate.Ended e r.transactionID ∧
      (g.handleUpdateGate c r o).gate.heldTransaction ≠ r.transactionID ∧
      ((∃ ts, (g.handleUpdateGate c r o).file = some ts ∧ ∀ u, ts.lookup r.transactionID = some u → u.has e = true) ∨
        r.operation = .commit ∧ (g.handleUpdateGate c r o).file = none ∧
          (g.handleUpdateGate c r o).reply = .ok c.target ∧
          ∃ u, (g.purge o.now).transactions.lookup r.transactionID = some u ∧ u.committed = true) := by
  have hne := Request.id_ne (handle_valid hok)
  have hreleased : ∀ (g₁ : Gate) ended {b}, Gate.settled c (g₁.releaseAdmission r.transactionID ended).2 = .ok b →
      b = c.target ∧ (g₁.releaseAdmission r.transactionID ended).1.heldTransaction ≠ r.transactionID := by
    intro g₁ ended b hb
    cases herr : (g₁.releaseAdmission r.transactionID ended).2 with
    | some err =>
      rw [herr] at hb
      cases hb
    | none =>
      rw [herr] at hb
      refine ⟨(Except.ok.inj hb).symm, ?_⟩
      rcases Gate.releaseAdmission_held g₁ r.transactionID ended with h | h
      · rw [h.1]
        exact h.2 herr
      · rw [h]
        exact hne.symm
  have hh := handle_handles c g r o
  generalize g.handleUpdateGate c r o = H at hh hok ⊢
  cases hh with
  | invalid | elsewhere => cases hok
  | done hr ha hs =>
    cases hs with
    | refused | undrained => cases hok
    | found hop =>
      cases h : r.operation <;> simp_all [Operation.ending]
    | @again u hop ht hcommitted =>
      obtain ⟨rfl, hheld⟩ := hreleased _ _ hok
      have hec : e = .committed := by
        rw [hop] at he
        exact (Option.some.inj he).symm
      refine ⟨?_, hheld, .inr ⟨hop, rfl, hok, u, ht, hcommitted⟩⟩
      intro v hv
      rw [Gate.releaseAdmission_transactions, ht] at hv
      cases hv
      exact hec ▸ hcommitted
  | unwritten hr ha hs =>
    dsimp only [Gate.unwritten] at hok
    split_ifs at hok
  | @written g' t hr ha hs =>
    have hop : r.operation = .commit ∨ r.operation = .rollback := by
      cases h : r.operation <;> simp_all [Operation.ending]
    have hended : g'.Ended e r.transactionID := by
      intro u hu
      cases hs with
      | rolledBack hop' | committed hop' =>
        rw [hop'] at he
        cases he
        rw [Gate.lookup_set, if_pos rfl] at hu
        cases hu
        rfl
      | _ hop' => simp [hop'] at hop
    simp only [Gate.written, if_pos hop] at hok ⊢
    obtain ⟨-, hheld⟩ := hreleased _ _ hok
    refine ⟨fun u hu => ?_, hheld, .inl ⟨_, rfl, hended⟩⟩
    rw [Gate.releaseAdmission_transactions] at hu
    exact hended u hu

end Keeps

/-! ## Runs -/

namespace Told

variable {c : Config} {s : Told}

structure Inv (c : Config) (s : Told) : Prop where
  backed : ∀ g, s.world.gate = some g → Backed c g
  sane : ∀ ts, s.world.file = some ts → SaneAll c ts
  covered : ∀ g, s.world.gate = some g → Covered g.transactions (s.world.file.getD ∅)
  named : ∀ e x, (e, x) ∈ s.told → x ≠ ""
  memory : ∀ e x, (e, x) ∈ s.told → ∀ g, s.world.gate = some g → g.Ended e x ∧ g.heldTransaction ≠ x
  /-- the file has it ended as well, or nothing starts from the file -/
  file : ∀ e x, (e, x) ∈ s.told → ∀ ts u, s.world.file = some ts → ts.lookup x = some u →
    u.has e = true ∨ e = .committed ∧ u.drained = true ∧ (newStandaloneUpdateGate c (some ts) true).isSome = false

theorem Inv.init : Inv c {} :=
  ⟨nofun, nofun, nofun, nofun, nofun, nofun⟩

variable {g : Gate}

/-- a request that writes leaves memory and file alike -/
theorem handle_file {r : Request} {o : Outcome} {ts : Transactions} (h : (g.handleUpdateGate c r o).file = some ts) :
    (g.handleUpdateGate c r o).gate.transactions = ts := by
  obtain ⟨-, -, g', t, -, rfl, hgate⟩ := handle_writes h
  rw [hgate, Gate.written_transactions]

/-- where no process runs, only a start does something -/
theorem step_of_none (hg : s.world.gate = none) (op : Op) (hop : ∀ begun, op ≠ .start begun) : s.step c op = s := by
  obtain ⟨⟨gate, file⟩, told⟩ := s
  cases op <;> simp_all [step, World.step, World.nextGate, World.writes]

variable (h : s.Inv c)
include h

/-- a process that starts from the file has ended what was told, and no fence for it -/
theorem Inv.start {begun : Bool} (hg : newStandaloneUpdateGate c s.world.file begun = some g)
    {x : String} (hx : (e, x) ∈ s.told) : g.Ended e x ∧ g.heldTransaction ≠ x := by
  cases hfile : s.world.file with
  | none =>
    rw [hfile] at hg
    unfold newStandaloneUpdateGate at hg
    split_ifs at hg
    cases hg
    exact ⟨nofun, (h.named e x hx).symm⟩
  | some ts =>
    rw [hfile] at hg
    obtain ⟨hid, hload, hts, hsingle, hheld⟩ := start_eq_some hg
    have hended : ∀ u, ts.lookup x = some u → u.has e = true := by
      intro u hu
      rcases h.file e x hx ts u hfile hu with hhas | ⟨-, -, hstart⟩
      · exact hhas
      · cases hstart.symm.trans (start_isSome.2 ⟨hid, hload, hsingle⟩)
    refine ⟨fun u hu => hended u (hts ▸ hu), fun hheldx => ?_⟩
    obtain ⟨u, hu, hud⟩ := hheld (hheldx ▸ h.named e x hx)
    rw [hheldx] at hu
    cases ((h.sane ts hfile x u hu).ended_drained (hended u hu)).symm.trans hud

/-- what was told is kept -/
theorem Inv.kept : s.Kept c := by
  have hfree : ∀ {e x g}, Backed c g → g.Ended e x ∧ g.heldTransaction ≠ x → g.Free x := fun hg hx =>
    ⟨fun u hu => (hg.sane _ u hu).ended_drained (hx.1 u hu), hx.2⟩
  refine ⟨fun e x hx g hg => hfree (h.backed g hg) (h.memory e x hx g hg),
    fun e x hx begun g hg => hfree (start_backed hg).1 (h.start hg hx), fun x hx g u hg hu => ?_,
      fun x hx ts u hts hu => ?_⟩
  · exact ((h.backed g hg).sane x u hu).ended ((h.memory _ x hx g hg).1 u hu)
  · rcases h.file _ x hx ts u hts hu with hhas | ⟨-, hdrained, -⟩
    · exact (h.sane ts hts x u hu).ended hhas
    · exact ((h.sane ts hts x u hu).drained hdrained).2.1

theorem Inv.request (hg : s.world.gate = some g) (r : Request) (o : Outcome)
    (hwritten : s.Written c (.request r o)) : (s.step c (.request r o)).Inv c := by
  have hgate : (s.step c (.request r o)).world.gate = some (g.handleUpdateGate c r o).gate := by
    simp [step, World.step, World.nextGate, hg]
  have hfile : (s.step c (.request r o)).world.file = (g.handleUpdateGate c r o).file.or s.world.file := by
    simp [step, World.step, World.writes, hg]
  have htold : (s.step c (.request r o)).told = g.tell c r o s.told := by
    simp [step, hg]
  have hbacked := (h.backed g hg).handle r o
  refine ⟨?_, ?_, ?_, ?_, ?_, ?_⟩
  · rw [hgate]
    rintro _ ⟨⟩
    exact hbacked
  · rw [hfile]
    intro ts hts
    cases hwrites : (g.handleUpdateGate c r o).file with
    | none =>
      rw [hwrites, Option.none_or] at hts
      exact h.sane ts hts
    | some ts' =>
      rw [hwrites, Option.some_or] at hts
      cases hts
      exact handle_file hwrites ▸ hbacked.sane
  · rw [hgate, hfile]
    rintro _ ⟨⟩
    cases hwrites : (g.handleUpdateGate c r o).file with
    | none => exact (handle_covered hwrites).trans (h.covered g hg)
    | some ts =>
      rw [handle_file hwrites]
      exact Covered.refl ts
  · rw [htold]
    intro e x hx
    rcases mem_tell hx with ⟨hx, -⟩ | ⟨rfl, -, b, hok⟩
    · exact h.named e x hx
    · exact Request.id_ne (handle_valid hok)
  · rw [htold, hgate]
    rintro e x hx _ ⟨⟩
    rcases mem_tell hx with ⟨hx, hnew⟩ | ⟨rfl, hending, b, hok⟩
    · obtain ⟨hended, hheld⟩ := h.memory e x hx g hg
      exact ⟨(handle_keeps (h.backed g hg) hended hnew).1, handle_held hended (h.named e x hx) hheld⟩
    · obtain ⟨hended, hheld, -⟩ := handle_ends hending hok
      exact ⟨hended, hheld⟩
  · rw [htold, hfile]
    intro e x hx ts u hts hu
    rcases mem_tell hx with ⟨hx, hnew⟩ | ⟨rfl, hending, b, hok⟩
    · cases hwrites : (g.handleUpdateGate c r o).file with
      | none =>
        rw [hwrites, Option.none_or] at hts
        exact h.file e x hx ts u hts hu
      | some ts' =>
        rw [hwrites, Option.some_or] at hts
        cases hts
        exact .inl ((handle_keeps (h.backed g hg) (h.memory e x hx g hg).1 hnew).2 ts hwrites u hu)
    · obtain ⟨-, -, ⟨ts', hwrites, hended⟩ | ⟨hop, hwrites, hreply, v, hv, hcommitted⟩⟩ := handle_ends hending hok
      · rw [hwrites, Option.some_or] at hts
        cases hts
        exact .inl (hended u hu)
      · -- answered from memory: the file has the transaction drained or committed
        rw [hwrites, Option.none_or] at hts
        have hec : e = .committed := by
          rw [hop] at hending
          exact (Option.some.inj hending).symm
        obtain ⟨u', hu', hactive⟩ := h.covered g hg r.transactionID v (Gate.lookup_purge_some.1 hv).1
          (by simp [active, hcommitted])
        rw [hts, Option.getD_some, hu] at hu'
        cases hu'
        cases hdrained : u.drained with
        | false =>
          left
          simpa [active, hdrained, hec, has] using hactive
        | true =>
          right
          refine ⟨hec, rfl, ?_⟩
          by_contra hstart
          have hnot := hwritten g r o v hg rfl hop hv hcommitted hreply ts u hts (Bool.not_eq_false _ ▸ hstart) hu
          cases hnot.symm.trans hdrained

theorem Inv.lease (hg : s.world.gate = some g) (ended persisted : Bool) :
    (s.step c (.lease ended persisted)).Inv c := by
  have hgate : (s.step c (.lease ended persisted)).world.gate = some (g.expireAdmission ended persisted).1 := by
    simp [step, World.step, World.nextGate, hg]
  have hfile : (s.step c (.lease ended persisted)).world.file =
      (g.expireAdmission ended persisted).2.or s.world.file := by
    simp [step, World.step, World.writes, hg]
  have htold : (s.step c (.lease ended persisted)).told = s.told := rfl
  rcases g.expireAdmission_cases ended persisted with heq | ⟨hheld, heq⟩
  · have hsame : s.step c (.lease ended persisted) = s := by
      obtain ⟨⟨gate, file⟩, told⟩ := s
      simp only at hg
      simp [step, World.step, World.nextGate, World.writes, hg, heq]
    rw [hsame]
    exact h
  · have hbacked := (h.backed g hg).expire ended persisted
    rw [heq] at hgate hfile hbacked
    -- what was told does not hold the fence, so it is not what is given up
    have hkept : ∀ e x, (e, x) ∈ s.told → ∀ u,
        ((g.hold "").giveUp g.heldTransaction).transactions.lookup x = some u → g.transactions.lookup x = some u := by
      intro e x hx u hu
      rcases lookup_expired.1 hu with ⟨hxheld, -⟩ | ⟨-, hlookup⟩
      · exact absurd hxheld.symm (h.memory e x hx g hg).2
      · exact hlookup
    refine ⟨?_, ?_, ?_, h.named, ?_, ?_⟩
    · rw [hgate]
      rintro _ ⟨⟩
      exact hbacked
    · rw [hfile]
      intro ts hts
      cases persisted with
      | false => exact h.sane ts hts
      | true =>
        cases hts
        exact hbacked.sane
    · rw [hgate, hfile]
      rintro _ ⟨⟩
      cases persisted with
      | false => exact (giveUp_covered (g.hold "") g.heldTransaction).trans (h.covered g hg)
      | true => exact Covered.refl _
    · rw [htold, hgate]
      rintro e x hx _ ⟨⟩
      refine ⟨fun u hu => (h.memory e x hx g hg).1 u (hkept e x hx u hu), ?_⟩
      rw [Gate.giveUp_held]
      exact (h.named e x hx).symm
    · rw [htold, hfile]
      intro e x hx ts u hts hu
      cases persisted with
      | false => exact h.file e x hx ts u hts hu
      | true =>
        cases hts
        exact .inl ((h.memory e x hx g hg).1 u (hkept e x hx u hu))

theorem Inv.step (op : Op) (hwritten : s.Written c op) : (s.step c op).Inv c := by
  cases op with
  | request r o =>
    cases hg : s.world.gate with
    | some g => exact h.request hg r o hwritten
    | none => exact (step_of_none hg (.request r o) nofun).symm ▸ h
  | lease ended persisted =>
    cases hg : s.world.gate with
    | some g => exact h.lease hg ended persisted
    | none => exact (step_of_none hg (.lease ended persisted) nofun).symm ▸ h
  | stop =>
    -- no process is left
    exact ⟨nofun, h.sane, nofun, h.named, nofun, h.file⟩
  | start begun =>
    by_cases hgate : s.world.gate.isSome = true
    · have hsame : s.step c (.start begun) = s := by
        simp [Told.step, World.step, World.nextGate, World.writes, hgate]
      rw [hsame]
      exact h
    · have hstart : ∀ g, (s.step c (.start begun)).world.gate = some g →
          newStandaloneUpdateGate c s.world.file begun = some g := by
        intro g hg
        simpa [Told.step, World.step, World.nextGate, hgate] using hg
      refine ⟨fun g hg => (start_backed (hstart g hg)).1, h.sane, fun g hg => ?_, h.named,
        fun e x hx g hg => h.start (hstart g hg) hx, h.file⟩
      change Covered g.transactions (s.world.file.getD ∅)
      have hnew := hstart g hg
      cases hfile : s.world.file with
      | none =>
        rw [hfile] at hnew
        unfold newStandaloneUpdateGate at hnew
        split_ifs at hnew
        cases hnew
        intro x u hu
        cases hu
      | some ts =>
        rw [hfile] at hnew
        rw [(start_eq_some hnew).2.2.1]
        exact Covered.refl ts

/-- an answer that is kept was in the file -/
theorem Inv.written (op : Op) (hkept : (s.step c op).Kept c) : s.Written c op := by
  rintro g r o u hg rfl hop hu hcommitted hreply ts v hts hstart hv
  obtain ⟨g', hg'⟩ := Option.isSome_iff_exists.1 hstart
  have hending : r.operation.ending = some .committed := by rw [hop]; rfl
  have hcreates : g.creates r o = false := by simp [Gate.creates, hop]
  have htold : (.committed, r.transactionID) ∈ (s.step c (.request r o)).told := by
    simp only [Told.step, hg, Gate.tell, hcreates, hending, hreply]
    exact List.mem_cons_self
  -- nothing is written, since the transaction is committed already
  have hfile : (s.step c (.request r o)).world.file = s.world.file := by
    have hnone : (g.handleUpdateGate c r o).file = none := by
      by_contra hsome
      obtain ⟨ts', hts'⟩ := Option.ne_none_iff_exists'.1 hsome
      obtain ⟨hr, ha, g₁, t, hs, -, -⟩ := handle_writes hts'
      cases hs with
      | committed hop' ht hdrained =>
        rw [hu] at ht
        cases ht
        have hsane := ((h.backed g hg).purge o.now).sane _ u hu
        cases (hsane.drained hdrained).1.symm.trans hcommitted
      | _ hop' => simp [hop] at hop'
    simp [Told.step, World.step, World.writes, hg, hnone]
  have hfree := hkept.restart _ _ htold true g' (by rw [hfile, hts]; exact hg')
  rw [← (start_eq_some hg').2.2.1] at hv
  exact hfree.1 v hv

end Told

/-- **What the gate answered is kept** through every failure and restart exactly if no commit is answered from
memory while the file, being one from which a process starts, still has the transaction drained. -/
theorem told_kept_iff (c : Config) (ops : List Op) :
    (∀ pre, pre <+: ops → (Machine.run (Told.step c) {} pre).Kept c) ↔
      Machine.Throughout (Told.step c) {} (Told.Written c) ops :=
  Machine.always_iff_throughout_of (Told.step c) {} Told.Inv.init (fun _ h => h.kept) (fun _ op h => h.step op)
    (fun _ op h => h.written op) ops

/-- the write of the commit fails, its retry is answered, and the process is started anew -/
def lostCommit : List Op :=
  [.start true, exampleOp .target "u1" true, exampleOp .candidate "u1" true, exampleOp .drain "u1" true,
    exampleOp .commit "u1" false, exampleOp .commit "u1" true, .stop, .start true]

/-- "u1" was committed, the new process holds the fence for it, and records it as rolled back when the lease runs out -/
theorem commit_lost :
    (Machine.run (Told.step exampleConfig) {} lostCommit).told = [(.committed, "u1")] ∧
    (Machine.run (Told.step exampleConfig) {} lostCommit).world.gate.map Gate.heldTransaction = some "u1" ∧
    ((Machine.run (Told.step exampleConfig) {} (lostCommit ++ [.lease true true])).world.file.bind
      fun ts => (ts.lookup "u1").map Transaction.rolledBack) = some true := by
  decide +kernel

end Paperboat.Standalone
