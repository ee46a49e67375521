/-
Whether a process can always start from the file the update gate wrote.

A transaction is refused by load if it was never drained, committed or rolled back and
yet has a count of workloads. A drain whose write fails leaves such a transaction in
memory (`Transaction.unrecorded`), and the next write that goes through puts it in the
file. A drain that finds the workloads without a generation releases the fence of a
transaction that stays drained; when another transaction is drained after it, the file
has two. And the paths of 128 transactions can make the file longer than load reads.

Results:
- `accepted_iff`: what load asks of a transaction, split into what every transaction has
  (`Sane`) and what it may lack;
- `Backed.step`: every transaction in memory is sane, whatever fails;
- `write_unrecorded`: which transactions a write leaves unrecorded;
- `startable_iff`: **a process can start from the file, all along a run, exactly if
  every write is clean**.

Witnesses:
- `unstartable_after_failed_drain`: a drain whose write fails, and one more request, and
  no process starts.
-/
import Paperboat.Core.Machine
import Paperboat.Update.Gate

namespace Paperboat.Standalone

open Transaction Gate Request World

/-! ## What load asks of a transaction -/

/-- never drained, committed or rolled back, but with workloads: what a drain leaves whose write failed -/
def Transaction.unrecorded (t : Transaction) : Bool :=
  !t.drained && !t.committed && !t.rolledBack && (t.workloadGeneration != 0 || t.protectedWorkloads != 0)

/-- the target request load makes of a transaction -/
def Transaction.lookupRequest (id : String) (t : Transaction) : Request :=
  { operation := .target, transactionID := id, version := t.version, manifestSHA256 := t.manifest }

/-- what every transaction of a gate has -/
structure Transaction.Sane (c : Config) (id : String) (t : Transaction) : Prop where
  named : (t.lookupRequest id).validate = true
  target : t.target = c.target
  created : t.created ≠ zeroTime
  drained : t.drained = true → t.committed = false ∧ t.rolledBack = false ∧ t.policyBound = true ∧
    ¬(t.workloadGeneration = 0 ∧ t.protectedWorkloads ≠ 0)
  ended : t.committed = true → t.rolledBack = false

variable {c : Config} {id : String} {t : Transaction} {r : Request} {o : Outcome} {g g' : Gate}

theorem accepted_iff : t.accepted c id = true ↔ t.Sane c id ∧ t.target.validate = true ∧ t.unrecorded = false := by
  constructor
  · intro h
    simp only [accepted, Bool.and_eq_true, decide_eq_true_eq, bne_iff_ne, Bool.not_eq_true'] at h
    obtain ⟨⟨⟨⟨⟨⟨⟨hnamed, htarget⟩, hvalid⟩, hcreated⟩, honce⟩, hended⟩, hdrained⟩, hopen⟩ := h
    refine ⟨⟨hnamed, htarget, hcreated, fun hd => ?_, fun hc => by simpa [hc] using hended⟩, hvalid, hopen⟩
    simp only [hd, Bool.and_true, Bool.or_eq_false_iff, Bool.true_and, Bool.not_eq_false'] at honce hdrained
    refine ⟨honce.1, honce.2, hdrained.1, ?_⟩
    rintro ⟨hzero, hprotected⟩
    simp [hzero, hprotected] at hdrained
  · rintro ⟨h, hvalid, hopen⟩
    have hdrained :
        (t.drained && (!t.policyBound || t.workloadGeneration == 0 && t.protectedWorkloads != 0)) = false := by
      cases hd : t.drained with
      | false => rfl
      | true =>
        obtain ⟨-, -, hbound, hworkloads⟩ := h.drained hd
        simpa [hbound] using hworkloads
    have honce : ((t.committed || t.rolledBack) && t.drained) = false := by
      cases hd : t.drained with
      | false => simp
      | true =>
        obtain ⟨hc, hr, -⟩ := h.drained hd
        simp [hc, hr]
    have hended : (t.committed && t.rolledBack) = false := by
      cases hc : t.committed with
      | false => rfl
      | true => simp [h.ended hc]
    simp only [accepted, Bool.and_eq_true, decide_eq_true_eq, bne_iff_ne, Bool.not_eq_true']
    exact ⟨⟨⟨⟨⟨⟨⟨h.named, h.target⟩, hvalid⟩, h.created⟩, honce⟩, hended⟩, hdrained⟩, hopen⟩

namespace Transaction.Sane

theorem fresh (hr : r.validate = true) (o : Outcome) : (Transaction.fresh c r o).Sane c r.transactionID := by
  refine ⟨?_, rfl, ?_, nofun, nofun⟩
  · simp only [validate, Bool.and_eq_true] at hr
    obtain ⟨⟨⟨⟨hid, hversion⟩, hmanifest⟩, -⟩, -⟩ := hr
    simp [Transaction.lookupRequest, Transaction.fresh, validate, hid, hversion, hmanifest, noProbe,
      noWindow]
  · change (o.created : ℤ) ≠ zeroTime
    unfold zeroTime
    omega

variable (h : t.Sane c id)
include h

theorem bind (r : Request) : (t.bind r).Sane c id :=
  ⟨h.named, h.target, h.created, fun hd =>
    let ⟨hc, hr, _, hw⟩ := h.drained hd
    ⟨hc, hr, rfl, hw⟩, h.ended⟩

theorem drain (hopen : t.committed = false ∧ t.rolledBack = false) (hbound : t.policyBound = true)
    {w : WorkloadStatus} (hw : ¬(w.generation = 0 ∧ w.protectedCount ≠ 0)) : (t.drain w).Sane c id :=
  { h with drained := fun _ => ⟨hopen.1, hopen.2, hbound, hw⟩ }

theorem undrain : ({ t with drained := false } : Transaction).Sane c id :=
  { h with drained := nofun }

theorem rollBack (hopen : t.committed = false) : t.rollBack.Sane c id :=
  ⟨h.named, h.target, h.created, nofun, fun hc => (nomatch hopen.symm.trans hc)⟩

theorem commit (hdrained : t.drained = true) : t.commit.Sane c id :=
  ⟨h.named, h.target, h.created, nofun, fun _ => (h.drained hdrained).2.1⟩

theorem abandon : t.abandon.Sane c id := by
  unfold Transaction.abandon
  split_ifs with hc
  · exact h
  · exact h.rollBack (by simpa using hc)

/-- a transaction is under an identifier that is not empty -/
theorem id_ne : id ≠ "" := by
  rintro rfl
  have hnamed := h.named
  simp [lookupRequest, validate, idPattern] at hnamed

end Transaction.Sane

/-- a transaction that is given up is committed or rolled back -/
theorem abandon_unrecorded (t : Transaction) : t.abandon.unrecorded = false := by
  unfold abandon
  split_ifs with hcommitted
  · simp [unrecorded, hcommitted]
  · simp [unrecorded, rollBack]

theorem abandon_drained (h : t.Sane c id) : t.abandon.drained = false := by
  unfold abandon
  split_ifs with hcommitted
  · cases hd : t.drained with
    | false => rfl
    | true => cases (h.drained hd).1.symm.trans hcommitted
  · rfl

/-- every transaction is one a gate can have -/
def SaneAll (c : Config) (ts : Transactions) : Prop := ∀ x t, ts.lookup x = some t → t.Sane c x

/-- at most one transaction is drained -/
def Single (ts : Transactions) : Prop :=
  ∀ x y t u, ts.lookup x = some t → ts.lookup y = some u → t.drained = true → u.drained = true → x = y

variable {ts : Transactions}

theorem load_iff :
    load c ts = true ↔ size c ts ≤ 256 * 1024 ∧ ts.entries.length ≤ 128 ∧ ∀ x t, ts.lookup x = some t →
      t.accepted c x = true := by
  simp only [load, Bool.and_eq_true, decide_eq_true_eq, List.all_eq_true, and_assoc]
  refine and_congr_right fun _ => and_congr_right fun _ => ⟨fun h x t ht => ?_, fun h e he => ?_⟩
  · exact h ⟨x, t⟩ (AList.mem_lookup_iff.1 ht)
  · exact h e.1 e.2 (AList.mem_lookup_iff.2 he)

/-! ## The loop over the drained transactions -/

/-- the loop asks BeginUpdate for this transaction -/
def fences (c : Config) (e : Sigma fun _ : String => Transaction) : Bool := e.2.drained && !e.2.committed && c.fenced

section Resume

variable {begun : Bool} {es : List (Sigma fun _ : String => Transaction)}
  {e : Sigma fun _ : String => Transaction}

theorem resume_fences (h : fences c e = true) (held : String) :
    resume c begun held e = if held ≠ "" then none else if begun then some e.1 else none := if_pos h

theorem resume_passes (h : ¬fences c e = true) (held : String) :
    resume c begun held e = some held := if_neg h

/-- while a fence is held, no second one may be asked for -/
theorem foldlM_resume_held {held : String} (h : held ≠ "") :
    es.foldlM (resume c begun) held = if es.any (fences c) then none else some held := by
  induction es with
  | nil => rfl
  | cons e es ih =>
    rw [List.foldlM_cons, List.any_cons]
    by_cases hf : fences c e = true
    · rw [resume_fences hf, if_pos h, hf]
      rfl
    · rw [resume_passes hf, Bool.eq_false_iff.2 hf]
      exact ih

theorem foldlM_resume (hids : ∀ e ∈ es, e.1 ≠ "") :
    es.foldlM (resume c begun) "" =
      match es.filter (fences c) with
      | [] => some ""
      | [e] => if begun then some e.1 else none
      | _ => none := by
  induction es with
  | nil => rfl
  | cons e es ih =>
    rw [List.foldlM_cons]
    by_cases hf : fences c e = true
    · rw [List.filter_cons_of_pos hf, resume_fences hf]
      cases begun with
      | false => cases es.filter (fences c) <;> rfl
      | true =>
        change es.foldlM (resume c true) e.1 = _
        rw [foldlM_resume_held (hids e List.mem_cons_self)]
        cases hrest : es.filter (fences c) with
        | nil =>
          have hany : es.any (fences c) = false := by
            rw [List.any_eq_false]
            exact List.filter_eq_nil_iff.1 hrest
          simp [hany]
        | cons e' rest =>
          have hmem : e' ∈ es.filter (fences c) := hrest ▸ List.mem_cons_self
          have hany : es.any (fences c) = true :=
            List.any_eq_true.2 ⟨e', (List.mem_filter.1 hmem).1, (List.mem_filter.1 hmem).2⟩
          simp [hany]
    · rw [List.filter_cons_of_neg hf, resume_passes hf]
      exact ih fun e' he' => hids e' (List.mem_cons_of_mem _ he')

end Resume

theorem foldlM_resume_isSome (hsane : SaneAll c ts) :
    (ts.entries.foldlM (resume c true) "").isSome = true ↔ (c.fenced = true → Single ts) := by
  have hids : ∀ e ∈ ts.entries, e.1 ≠ "" := fun e he => (hsane e.1 e.2 (AList.mem_lookup_iff.2 he)).id_ne
  have hmem : ∀ e, e ∈ ts.entries.filter (fences c) ↔ ts.lookup e.1 = some e.2 ∧ e.2.drained = true ∧
      c.fenced = true := by
    intro e
    rw [List.mem_filter, ← AList.mem_lookup_iff]
    refine and_congr_right fun he => ?_
    simp only [fences, Bool.and_eq_true, Bool.not_eq_true']
    exact ⟨fun h => ⟨h.1.1, h.2⟩, fun h => ⟨⟨h.1, ((hsane _ _ he).drained h.1).1⟩, h.2⟩⟩
  rw [foldlM_resume hids]
  cases hlist : ts.entries.filter (fences c) with
  | nil =>
    refine ⟨fun _ hfenced x y t u ht hu htd hud => ?_, fun _ => rfl⟩
    have hin := (hmem ⟨x, t⟩).2 ⟨ht, htd, hfenced⟩
    rw [hlist] at hin
    cases hin
  | cons e rest =>
    cases rest with
    | nil =>
      refine ⟨fun _ hfenced x y t u ht hu htd hud => ?_, fun _ => rfl⟩
      have hx := (hmem ⟨x, t⟩).2 ⟨ht, htd, hfenced⟩
      have hy := (hmem ⟨y, u⟩).2 ⟨hu, hud, hfenced⟩
      rw [hlist, List.mem_singleton] at hx hy
      exact congrArg Sigma.fst (hx.trans hy.symm)
    | cons e' rest =>
      refine ⟨nofun, fun h => ?_⟩
      have he := (hmem e).1 (hlist ▸ List.mem_cons_self)
      have he' := (hmem e').1 (hlist ▸ List.mem_cons_of_mem _ List.mem_cons_self)
      have hsame := h he.2.2 _ _ _ _ he.1 he'.1 he.2.1 he'.2.1
      -- two entries with one key
      have hnodup : (ts.entries.filter (fences c)).NodupKeys := ts.nodupKeys.sublist List.filter_sublist
      rw [hlist, List.nodupKeys_cons] at hnodup
      exact absurd (List.mem_keys_of_mem List.mem_cons_self) (hsame ▸ hnodup.1)

/-- a process can start: load accepts the file, and at most one fence is asked for -/
theorem start_isSome :
    (newStandaloneUpdateGate c (some ts) true).isSome = true ↔
      c.machineID ≠ "" ∧ load c ts = true ∧ (c.fenced = true → Single ts) := by
  unfold newStandaloneUpdateGate
  by_cases hid : c.machineID = ""
  · simp [hid]
  by_cases hload : load c ts = true
  · have hsane : SaneAll c ts := fun x t ht => (accepted_iff.1 ((load_iff.1 hload).2.2 x t ht)).1
    simp [hid, hload, foldlM_resume_isSome hsane]
  · simp [hid, hload]

/-- the gate a process starts with: the transactions of the file, and the fence of one that is drained -/
theorem start_eq_some {begun : Bool} (h : newStandaloneUpdateGate c (some ts) begun = some g) :
    c.machineID ≠ "" ∧ load c ts = true ∧ g.transactions = ts ∧ (c.fenced = true → Single ts) ∧
      (g.heldTransaction ≠ "" → ∃ t, ts.lookup g.heldTransaction = some t ∧ t.drained = true) := by
  unfold newStandaloneUpdateGate at h
  split_ifs at h with hid
  dsimp only at h
  split_ifs at h with hload
  obtain ⟨held, hheld, rfl⟩ := Option.map_eq_some_iff.1 h
  have hsane : SaneAll c ts := fun x t ht => (accepted_iff.1 ((load_iff.1 hload).2.2 x t ht)).1
  have hids : ∀ e ∈ ts.entries, e.1 ≠ "" := fun e he => (hsane e.1 e.2 (AList.mem_lookup_iff.2 he)).id_ne
  -- a start that asks for the fence in vain fails, so the same start with the fence succeeds
  have hsingle : (ts.entries.foldlM (resume c true) "").isSome = true := by
    rw [foldlM_resume hids] at hheld ⊢
    revert hheld
    cases ts.entries.filter (fences c) with
    | nil => exact fun _ => rfl
    | cons e rest =>
      cases rest with
      | nil => exact fun _ => rfl
      | cons e' rest => nofun
  refine ⟨hid, hload, rfl, (foldlM_resume_isSome hsane).1 hsingle, fun hne => ?_⟩
  rw [foldlM_resume hids] at hheld
  cases hlist : ts.entries.filter (fences c) with
  | nil =>
    rw [hlist] at hheld
    exact absurd (Option.some.inj hheld).symm hne
  | cons e rest =>
    have hmem : e ∈ ts.entries.filter (fences c) := hlist ▸ List.mem_cons_self
    rw [hlist] at hheld
    cases rest with
    | cons e' rest => cases hheld
    | nil =>
      split_ifs at hheld
      cases hheld
      obtain ⟨hin, hfences⟩ := List.mem_filter.1 hmem
      simp only [fences, Bool.and_eq_true] at hfences
      exact ⟨e.2, AList.mem_lookup_iff.2 hin, hfences.1.1⟩

/-! ## What every gate has -/

/-- the transactions are sane and not too many, and the fence is held only where the target is valid -/
structure Backed (c : Config) (g : Gate) : Prop where
  sane : SaneAll c g.transactions
  few : g.transactions.entries.length ≤ 128
  aimed : g.heldTransaction ≠ "" → c.target.validate = true

/-- a request with a target of its own is valid only where this target is -/
theorem Request.target_valid (hr : r.validate = true) (ha : r.aimed c = true)
    (hop : r.operation ≠ .target) : c.target.validate = true := by
  have htarget : r.expectedTarget = some c.target := by simpa [aimed, hop] using ha
  have hvalid : r.validTarget = true := by
    simp only [validate, Bool.and_eq_true] at hr
    cases h : r.operation with
    | target => exact absurd h hop
    | candidate | drain | stability | rollback | commit => simp_all
  simpa [validTarget, htarget] using hvalid

namespace Backed

theorem init : Backed c {} := ⟨nofun, Nat.zero_le _, fun h => absurd rfl h⟩

variable (h : Backed c g)
include h

theorem purge (now : ℕ) : Backed c (g.purge now) :=
  ⟨fun x t ht => h.sane x t (lookup_purge_some.1 ht).1, (List.length_filter_le _ _).trans h.few, h.aimed⟩

theorem set {old : Transaction} (hold : g.transactions.lookup id = some old) (ht : t.Sane c id) :
    Backed c (g.set id t) :=
  ⟨Index.forall_insert h.sane ht, (length_set_of_some hold t).trans_le h.few, h.aimed⟩

/-- the fence goes to a transaction of this target, or to none -/
theorem hold (hid : id ≠ "" → c.target.validate = true) : Backed c (g.hold id) :=
  ⟨h.sane, h.few, hid⟩

variable (id : String)

theorem giveUp : Backed c (g.giveUp id) := by
  refine ⟨fun x t ht => ?_, (g.length_giveUp id).trans_le h.few, fun hne => h.aimed (g.giveUp_held id ▸ hne)⟩
  rw [lookup_giveUp] at ht
  split_ifs at ht
  · obtain ⟨u, hu, rfl⟩ := Option.map_eq_some_iff.1 ht
    exact (h.sane x u hu).abandon
  · exact h.sane x t ht

theorem releaseAdmission (ended : Bool) : Backed c (g.releaseAdmission id ended).1 := by
  unfold Gate.releaseAdmission
  split_ifs
  · exact h
  · exact h
  · exact h.hold fun hne => absurd rfl hne

theorem handOver : Backed c (g.handOver c id) := by
  unfold Gate.handOver
  split_ifs
  · exact (h.hold fun hne => absurd rfl hne).giveUp _
  · exact h

theorem raised (hvalid : c.target.validate = true) : Backed c (g.raised c id) := by
  unfold Gate.raised
  split_ifs
  · exact (h.handOver id).hold fun _ => hvalid
  · exact h

theorem write (hr : r.validate = true) (ha : r.aimed c = true)
    (hs : Stages c g r o (.write g' t)) : Backed c g' ∧ g'.transactions.lookup r.transactionID = some t := by
  cases hs with
  | created hop hnone hlength =>
    refine ⟨⟨Index.forall_insert h.sane (.fresh hr o), ?_, h.aimed⟩, by simp⟩
    rw [Gate.set, Table.length_insert, hnone]
    exact hlength
  | bound hop ht hopen => exact ⟨h.set ht ((h.sane _ _ ht).bind r), by simp⟩
  | drained hop ht hopen hbound hworkloads =>
    have hvalid := target_valid hr ha (by simp [hop])
    exact ⟨(h.raised _ hvalid).set (Gate.lookup_raised ht) ((h.sane _ _ ht).drain hopen hbound hworkloads), by simp⟩
  | watched hop ht hdrained => exact ⟨h, ht⟩
  | rolledBack hop ht hopen => exact ⟨h.set ht ((h.sane _ _ ht).rollBack hopen), by simp⟩
  | committed hop ht hdrained => exact ⟨h.set ht ((h.sane _ _ ht).commit hdrained), by simp⟩

theorem done (hr : r.validate = true) (ha : r.aimed c = true) {reply : Reply}
    (hs : Stages c g r o (.done g' reply)) : Backed c g' := by
  cases hs with
  | refused | found => exact h
  | again hop ht hcommitted => exact h.releaseAdmission _ _
  | undrained errs hop ht hopen htransactions hheld =>
    have hvalid := target_valid hr ha (by simp [hop])
    rcases htransactions with rfl | htransactions
    · exact h
    · exact ⟨fun x t hx => (h.handOver r.transactionID).sane x t (htransactions ▸ hx),
        htransactions ▸ (h.handOver r.transactionID).few, fun _ => hvalid⟩

theorem unwritten (ht : g.transactions.lookup r.transactionID = some t) : Backed c (g.unwritten r o t).1 := by
  unfold Gate.unwritten
  split_ifs
  · exact (h.set ht (h.sane _ _ ht).undrain).releaseAdmission _ _
  · exact h

theorem written : Backed c (g.written c r o).1 := by
  unfold Gate.written
  split_ifs
  · exact h.releaseAdmission _ _
  · exact h

theorem handle (r : Request) (o : Outcome) : Backed c (g.handleUpdateGate c r o).gate := by
  have hh := handle_handles c g r o
  generalize g.handleUpdateGate c r o = H at hh ⊢
  cases hh with
  | invalid => exact h
  | elsewhere => exact h.purge o.now
  | done hr ha hs => exact (h.purge o.now).done hr ha hs
  | unwritten hr ha hs =>
    obtain ⟨hg', ht⟩ := (h.purge o.now).write hr ha hs
    exact hg'.unwritten ht
  | written hr ha hs => exact ((h.purge o.now).write hr ha hs).1.written

theorem expire (ended persisted : Bool) : Backed c (g.expireAdmission ended persisted).1 := by
  rcases g.expireAdmission_cases ended persisted with heq | ⟨-, heq⟩
  · rw [heq]
    exact h
  · rw [heq]
    exact (h.hold fun hne => absurd rfl hne).giveUp _

end Backed

/-- the gate of a process that has just started -/
theorem start_backed {file : Option Transactions} {begun : Bool} (h : newStandaloneUpdateGate c file begun = some g) :
    Backed c g ∧ c.machineID ≠ "" ∧ (c.fenced = true → Single g.transactions) := by
  cases file with
  | none =>
    unfold newStandaloneUpdateGate at h
    split_ifs at h with hid
    cases h
    exact ⟨Backed.init, hid, fun _ _ _ _ _ ht => (nomatch ht)⟩
  | some ts =>
    obtain ⟨hid, hload, rfl, hsingle, hheld⟩ := start_eq_some h
    obtain ⟨-, hfew, haccepted⟩ := load_iff.1 hload
    refine ⟨⟨fun x t ht => (accepted_iff.1 (haccepted x t ht)).1, hfew, fun hne => ?_⟩, hid, hsingle⟩
    obtain ⟨t, ht, -⟩ := hheld hne
    obtain ⟨hsane, hvalid, -⟩ := accepted_iff.1 (haccepted _ t ht)
    rwa [hsane.target] at hvalid

/-! ## What a write puts in the file -/

theorem handle_writes (h : (g.handleUpdateGate c r o).file = some ts) :
    r.validate = true ∧ r.aimed c = true ∧ ∃ g' t, Stages c (g.purge o.now) r o (.write g' t) ∧ g'.transactions = ts ∧
      (g.handleUpdateGate c r o).gate = (g'.written c r o).1 := by
  have hh := handle_handles c g r o
  generalize g.handleUpdateGate c r o = H at hh h ⊢
  cases hh with
  | written hr ha hs => exact ⟨hr, ha, _, _, hs, Option.some.inj h, rfl⟩
  | _ => cases h

/-- the transactions a request leaves unrecorded in the file were so before, and the request is not for them -/
theorem write_unrecorded (hg : Backed c g) (hs : Stages c g r o (.write g' t)) (x : String) :
    (∃ u, g'.transactions.lookup x = some u ∧ u.unrecorded = true) ↔
      (∃ u, g.transactions.lookup x = some u ∧ u.unrecorded = true) ∧
        ¬(r.operation = .drain ∧ (x = r.transactionID ∨ c.fenced = true ∧ x = g.heldTransaction) ∨
          r.operation = .rollback ∧ x = r.transactionID) := by
  cases hs with
  | created hop hnone hlength =>
    by_cases hx : x = r.transactionID
    · subst hx
      simp [hnone, Transaction.fresh, Transaction.unrecorded]
    · simp [hx, hop]
  | bound hop ht hopen =>
    by_cases hx : x = r.transactionID
    · subst hx
      simp [ht, hop, Transaction.bind, Transaction.unrecorded]
    · simp [hx, hop]
  | drained hop ht hopen hbound hworkloads =>
    by_cases hx : x = r.transactionID
    · subst hx
      simp [hop, Transaction.drain, Transaction.unrecorded]
    · simp only [lookup_set, hx, if_false, raised_transactions, lookup_handOver, hop, true_and, false_or, reduceCtorEq,
        false_and, or_false]
      by_cases hheld : c.fenced = true ∧ x = g.heldTransaction
      · obtain ⟨hfenced, rfl⟩ := hheld
        simp only [hfenced, not_true_eq_false, and_false, iff_false, not_exists, not_and, and_true]
        intro u hu
        split_ifs at hu with hcontended
        · obtain ⟨v, -, rfl⟩ := Option.map_eq_some_iff.1 hu
          simp [abandon_unrecorded]
        · exact absurd ⟨hfenced, (hg.sane _ _ hu).id_ne, hx⟩ hcontended
      · have hnot : ¬(g.contended c r.transactionID ∧ x = g.heldTransaction) := fun h => hheld ⟨h.1.1, h.2⟩
        simp only [hnot, if_false, hheld, not_false_eq_true, and_true]
  | watched hop ht hdrained => simp [hop]
  | rolledBack hop ht hopen =>
    by_cases hx : x = r.transactionID
    · subst hx
      simp [hop, Transaction.rollBack, Transaction.unrecorded]
    · simp [hx, hop]
  | committed hop ht hdrained =>
    by_cases hx : x = r.transactionID
    · subst hx
      simp [ht, hop, hdrained, Transaction.commit, Transaction.unrecorded]
    · simp [hx, hop]

/-- what is drained after a request was so before, unless the request is its drain; a fence given up is not drained
any more -/
theorem write_drained (hg : Backed c g) (hs : Stages c g r o (.write g' t)) {x : String} {u : Transaction}
    (hu : g'.transactions.lookup x = some u) (hd : u.drained = true) :
    r.operation = .drain ∧ x = r.transactionID ∨
      (∃ v, g.transactions.lookup x = some v ∧ v.drained = true) ∧
        (r.operation = .drain → c.fenced = true → x ≠ g.heldTransaction ∨ x = r.transactionID) := by
  cases hs with
  | created hop | rolledBack hop | committed hop =>
    rw [lookup_set] at hu
    split_ifs at hu with hx
    · cases hu
      cases hd
    · exact .inr ⟨⟨u, hu, hd⟩, by simp [hop]⟩
  | @bound v hop ht hopen =>
    rw [lookup_set] at hu
    split_ifs at hu with hx
    · cases hu
      exact .inr ⟨⟨v, hx ▸ ht, hd⟩, by simp [hop]⟩
    · exact .inr ⟨⟨u, hu, hd⟩, by simp [hop]⟩
  | drained hop ht hopen hbound hworkloads =>
    rw [lookup_set, raised_transactions, lookup_handOver] at hu
    split_ifs at hu with hx hheld
    · exact .inl ⟨hop, hx⟩
    · obtain ⟨v, hv, rfl⟩ := Option.map_eq_some_iff.1 hu
      cases (abandon_drained (hg.sane _ _ hv)).symm.trans hd
    · refine .inr ⟨⟨u, hu, hd⟩, fun _ hfenced => .inl fun heq => hheld ⟨⟨hfenced, ?_, ?_⟩, heq⟩⟩
      · exact heq ▸ (hg.sane _ _ hu).id_ne
      · exact heq ▸ hx
  | watched hop ht hdrained => exact .inr ⟨⟨u, hu, hd⟩, by simp [hop]⟩

/-- a drain leaves drained what it does not take the fence from -/
theorem drain_drained (hs : Stages c g r o (.write g' t)) (hop : r.operation = .drain) :
    t.drained = true ∧ ∀ x u, g.transactions.lookup x = some u → x ≠ r.transactionID → x ≠ g.heldTransaction →
      g'.transactions.lookup x = some u := by
  cases hs with
  | drained _ ht hopen hbound hworkloads =>
    refine ⟨rfl, fun x u hu hx hheld => ?_⟩
    rw [lookup_set, if_neg hx, raised_transactions, lookup_handOver, if_neg fun h => hheld h.2]
    exact hu
  | _ hop' => cases hop'.symm.trans hop

/-! ## Starting from the file -/

/-- load accepts the file, and newStandaloneUpdateGate succeeds on it if its BeginUpdate does -/
def World.Startable (c : Config) (w : World) : Prop :=
  ∀ ts, w.file = some ts → load c ts = true ∧ (newStandaloneUpdateGate c (some ts) true).isSome = true

/-- the step is the drain, the rollback or the abandonment of the transaction -/
def Gate.settles (g : Gate) (c : Config) (x : String) : Op → Prop
  | .request r _ =>
    r.operation = .drain ∧ (x = r.transactionID ∨ c.fenced = true ∧ x = g.heldTransaction) ∨
      r.operation = .rollback ∧ x = r.transactionID
  | .lease _ _ => x = g.heldTransaction
  | _ => False

/-- the step purges the transaction before anything else -/
def Transaction.purged (t : Transaction) : Op → Prop
  | .request _ o => t.stays o.now = false
  | _ => False

/-- a step that writes `ts` finds nothing in memory that it must not write -/
structure Gate.Clean (g : Gate) (c : Config) (op : Op) (ts : Transactions) : Prop where
  recorded : ∀ x t, g.transactions.lookup x = some t → t.unrecorded = true → t.purged op ∨ g.settles c x op
  /-- a drain takes the fence from the only other drained transaction -/
  alone : c.fenced = true → ∀ r o, op = .request r o → r.operation = .drain → ∀ x t, g.transactions.lookup x = some t →
    t.drained = true → x = r.transactionID ∨ x = g.heldTransaction
  named : ∀ r o, op = .request r o → r.operation = .target → idPattern c.machineID = true
  fits : size c ts ≤ 256 * 1024

/-- the step writes nothing, or is clean -/
def World.Clean (c : Config) (w : World) (op : Op) : Prop :=
  ∀ g ts, w.gate = some g → w.writes c op = some ts → g.Clean c op ts

structure World.Inv (c : Config) (w : World) : Prop where
  backed : ∀ g, w.gate = some g → Backed c g
  machine : ∀ g, w.gate = some g → c.machineID ≠ ""
  single : ∀ g, w.gate = some g → c.fenced = true → Single g.transactions
  startable : w.Startable c

theorem target_validate : c.target.validate = idPattern c.machineID := by
  have hdomain : idPattern "standalone" = true := by decide +kernel
  simp [Binding.validate, Config.target, hdomain]

section Step

theorem load_of (hsane : SaneAll c ts) (hfew : ts.entries.length ≤ 128) (hfits : size c ts ≤ 256 * 1024)
    (hvalid : c.target.validate = true) (hrecorded : ∀ x t, ts.lookup x = some t → t.unrecorded = false) :
    load c ts = true := by
  refine load_iff.2 ⟨hfits, hfew, fun x t ht => accepted_iff.2 ⟨hsane x t ht, ?_, hrecorded x t ht⟩⟩
  rw [(hsane x t ht).target]
  exact hvalid

variable {u : Transaction} {x : String}

/-- the fence lease: the transaction that held the fence is rolled back, the others stay -/
theorem lookup_expired :
    ((g.hold "").giveUp g.heldTransaction).transactions.lookup x = some u ↔
      x = g.heldTransaction ∧ (g.transactions.lookup x).map abandon = some u ∨
        x ≠ g.heldTransaction ∧ g.transactions.lookup x = some u := by
  rw [lookup_giveUp]
  by_cases hx : x = g.heldTransaction <;> simp [hx]

variable {ended persisted : Bool}

theorem expire_writes (h : (g.expireAdmission ended persisted).2 = some ts) :
    g.heldTransaction ≠ "" ∧ ((g.hold "").giveUp g.heldTransaction).transactions = ts ∧
      (g.expireAdmission ended persisted).1 = (g.hold "").giveUp g.heldTransaction := by
  rcases g.expireAdmission_cases ended persisted with heq | ⟨hheld, heq⟩
  · rw [heq] at h
    cases h
  · rw [heq] at h ⊢
    split_ifs at h
    exact ⟨hheld, Option.some.inj h, rfl⟩

theorem clean_lease (hts : (g.expireAdmission ended persisted).2 = some ts)
    (hload : load c ts = true) : g.Clean c (.lease ended persisted) ts := by
  obtain ⟨-, rfl, -⟩ := expire_writes hts
  obtain ⟨hfits, -, haccepted⟩ := load_iff.1 hload
  refine ⟨fun x u hu hunrecorded => .inr ?_, fun _ _ _ h => (nomatch h), fun _ _ h => (nomatch h), hfits⟩
  by_contra hx
  have hkept := haccepted x u (lookup_expired.2 (.inr ⟨hx, hu⟩))
  exact absurd ((accepted_iff.1 hkept).2.2.symm.trans hunrecorded) (by simp)

variable (hg : Backed c g)
include hg

/-- a clean request writes a file a process can start from -/
theorem Backed.request_clean (hsingle : c.fenced = true → Single g.transactions)
    (hts : (g.handleUpdateGate c r o).file = some ts) (hclean : g.Clean c (.request r o) ts) :
    load c ts = true ∧ (c.fenced = true → Single ts) := by
  obtain ⟨hr, ha, g', t, hs, rfl, -⟩ := handle_writes hts
  have hpurged := hg.purge o.now
  obtain ⟨hg', ht⟩ := hpurged.write hr ha hs
  constructor
  · refine load_of hg'.sane hg'.few hclean.fits ?_ fun x u hu => ?_
    · by_cases hop : r.operation = .target
      · rw [target_validate]
        exact hclean.named r o rfl hop
      · exact target_valid hr ha hop
    · by_contra hunrecorded
      obtain ⟨⟨v, hv, hvu⟩, hnot⟩ := (write_unrecorded hpurged hs x).1 ⟨u, hu, by simpa using hunrecorded⟩
      obtain ⟨hv, hstays⟩ := lookup_purge_some.1 hv
      rcases hclean.recorded x v hv hvu with hpurge | hsettles
      · cases hstays.symm.trans hpurge
      · exact hnot hsettles
  · intro hfenced x y u v hu hv hud hvd
    -- a drained transaction was drained before, or the request drains it
    have hbefore : ∀ x u, g'.transactions.lookup x = some u → u.drained = true →
        r.operation = .drain ∧ x = r.transactionID ∨
          r.operation ≠ .drain ∧ ∃ w, g.transactions.lookup x = some w ∧ w.drained = true := by
      intro x u hu hud
      rcases write_drained hpurged hs hu hud with h | ⟨⟨w, hw, hwd⟩, hheld⟩
      · exact .inl h
      · have hw := (lookup_purge_some.1 hw).1
        by_cases hop : r.operation = .drain
        · refine .inl ⟨hop, ?_⟩
          rcases hclean.alone hfenced r o rfl hop x w hw hwd with hx | hx
          · exact hx
          · exact (hheld hop hfenced).resolve_left fun hne => hne hx
        · exact .inr ⟨hop, w, hw, hwd⟩
    rcases hbefore x u hu hud with ⟨hop, rfl⟩ | ⟨hop, w, hw, hwd⟩
    · rcases hbefore y v hv hvd with ⟨-, rfl⟩ | ⟨hnot, -⟩
      · rfl
      · exact absurd hop hnot
    · rcases hbefore y v hv hvd with ⟨hdrain, -⟩ | ⟨-, w', hw', hwd'⟩
      · exact absurd hdrain hop
      · exact hsingle hfenced x y w w' hw hw' hwd hwd'

/-- a request that writes a file a process can start from is clean -/
theorem Backed.clean_request
    (hts : (g.handleUpdateGate c r o).file = some ts) (hload : load c ts = true)
      (hsingle : c.fenced = true → Single ts) :
    g.Clean c (.request r o) ts := by
  obtain ⟨hr, ha, g', t, hs, rfl, -⟩ := handle_writes hts
  have hpurged := hg.purge o.now
  obtain ⟨hg', ht⟩ := hpurged.write hr ha hs
  obtain ⟨hfits, -, haccepted⟩ := load_iff.1 hload
  refine ⟨fun x u hu hunrecorded => ?_, ?_, ?_, hfits⟩
  · by_cases hstays : u.stays o.now = true
    · right
      by_contra hnot
      obtain ⟨v, hv, hvu⟩ :=
        (write_unrecorded hpurged hs x).2 ⟨⟨u, lookup_purge_some.2 ⟨hu, hstays⟩, hunrecorded⟩, hnot⟩
      cases (accepted_iff.1 (haccepted x v hv)).2.2.symm.trans hvu
    · exact .inl (Bool.eq_false_iff.2 hstays)
  · rintro hfenced _ _ ⟨⟩ hop x u hu hud
    by_contra hnot
    push Not at hnot
    obtain ⟨htd, hkept⟩ := drain_drained hs hop
    have hstays : u.stays o.now = true := by simp [stays, hud]
    have hx := hkept x u (lookup_purge_some.2 ⟨hu, hstays⟩) hnot.1 hnot.2
    exact hnot.1 (hsingle hfenced x r.transactionID u t hx ht hud htd)
  · rintro _ _ ⟨⟩ -
    have hvalid := (accepted_iff.1 (haccepted _ t ht)).2.1
    rw [(hg'.sane _ t ht).target, target_validate] at hvalid
    exact hvalid

/-- a clean lease writes a file a process can start from -/
theorem Backed.lease_clean
    (hts : (g.expireAdmission ended persisted).2 = some ts) (hclean : g.Clean c (.lease ended persisted) ts) :
    load c ts = true := by
  obtain ⟨hheld, rfl, hgate⟩ := expire_writes hts
  have hg' := hg.expire ended persisted
  rw [hgate] at hg'
  refine load_of hg'.sane hg'.few hclean.fits (hg.aimed hheld) fun x u hu => ?_
  rcases lookup_expired.1 hu with ⟨-, hmap⟩ | ⟨hx, hlookup⟩
  · obtain ⟨v, -, rfl⟩ := Option.map_eq_some_iff.1 hmap
    exact abandon_unrecorded v
  · by_contra hunrecorded
    exact (hclean.recorded x u hlookup (by simpa using hunrecorded)).elim id hx

/-! ### What stays drained without a write -/

theorem expire_drained (ended persisted : Bool)
    (hu : (g.expireAdmission ended persisted).1.transactions.lookup x = some u) (hd : u.drained = true) :
    g.transactions.lookup x = some u := by
  rcases g.expireAdmission_cases ended persisted with heq | ⟨-, heq⟩
  · rw [heq] at hu
    exact hu
  · rw [heq] at hu
    rcases lookup_expired.1 hu with ⟨-, hmap⟩ | ⟨-, hlookup⟩
    · obtain ⟨v, hv, rfl⟩ := Option.map_eq_some_iff.1 hmap
      cases (abandon_drained (hg.sane x v hv)).symm.trans hd
    · exact hlookup

theorem expire_single (ended persisted : Bool) (h : Single g.transactions) :
    Single (g.expireAdmission ended persisted).1.transactions := fun x y t u ht hu htd hud =>
  h x y t u (expire_drained hg ended persisted ht htd) (expire_drained hg ended persisted hu hud) htd hud

theorem done_drained {reply : Reply}
    (hs : Stages c g r o (.done g' reply)) (hu : g'.transactions.lookup x = some u)
    (hd : u.drained = true) : g.transactions.lookup x = some u := by
  rcases hs.done_transactions with heq | heq
  · exact heq ▸ hu
  · rw [heq, lookup_handOver] at hu
    split_ifs at hu
    · obtain ⟨v, hv, rfl⟩ := Option.map_eq_some_iff.1 hu
      cases (abandon_drained (hg.sane x v hv)).symm.trans hd
    · exact hu

theorem unwritten_drained (hs : Stages c g r o (.write g' t))
    (hu : (g'.unwritten r o t).1.transactions.lookup x = some u) (hd : u.drained = true) :
    ∃ v, g.transactions.lookup x = some v ∧ v.drained = true := by
  unfold unwritten at hu
  split_ifs at hu with hop
  · rw [releaseAdmission_transactions, lookup_set] at hu
    split_ifs at hu with hx
    · cases hu
      cases hd
    · exact ((write_drained hg hs hu hd).resolve_left fun h => hx h.2).1
  · exact ((write_drained hg hs hu hd).resolve_left fun h => hop h.1).1

theorem handle_drained (hfile : (g.handleUpdateGate c r o).file = none)
    (hu : (g.handleUpdateGate c r o).gate.transactions.lookup x = some u)
    (hd : u.drained = true) : ∃ v, g.transactions.lookup x = some v ∧ v.drained = true := by
  have hpurge : ∀ v, (g.purge o.now).transactions.lookup x = some v → g.transactions.lookup x = some v :=
    fun v hv => (lookup_purge_some.1 hv).1
  have hh := handle_handles c g r o
  generalize g.handleUpdateGate c r o = H at hh hfile hu
  cases hh with
  | invalid => exact ⟨u, hu, hd⟩
  | elsewhere => exact ⟨u, hpurge u hu, hd⟩
  | done hr ha hs => exact ⟨u, hpurge u (done_drained (hg.purge o.now) hs hu hd), hd⟩
  | unwritten hr ha hs =>
    obtain ⟨v, hv, hvd⟩ := unwritten_drained (hg.purge o.now) hs hu hd
    exact ⟨v, hpurge v hv, hvd⟩
  | written hr ha hs => cases hfile

end Step

namespace World

variable {w : World}

/-- the file is the one written, or the one there was -/
theorem Startable.step (h : w.Startable c) {op : Op}
    (hw : ∀ ts, w.writes c op = some ts → load c ts = true ∧ (newStandaloneUpdateGate c (some ts) true).isSome = true) :
    (w.step c op).Startable c := by
  intro ts hts
  simp only [World.step] at hts
  cases hwrites : w.writes c op with
  | none =>
    rw [hwrites] at hts
    exact h ts hts
  | some ts' =>
    rw [hwrites] at hts
    cases hts
    exact hw ts hwrites

theorem Inv.init : Inv c {} := ⟨nofun, nofun, nofun, nofun⟩

variable (h : w.Inv c)
include h

/-- what a clean step writes -/
theorem Inv.writes {op : Op} (hclean : w.Clean c op) (hts : w.writes c op = some ts) :
    load c ts = true ∧ (c.fenced = true → Single ts) ∧ (newStandaloneUpdateGate c (some ts) true).isSome = true := by
  have hgood : ∀ g, w.gate = some g → load c ts = true → (c.fenced = true → Single ts) →
      load c ts = true ∧ (c.fenced = true → Single ts) ∧ (newStandaloneUpdateGate c (some ts) true).isSome = true :=
    fun g hg hload hsingle => ⟨hload, hsingle, start_isSome.2 ⟨h.machine g hg, hload, hsingle⟩⟩
  cases op with
  | request r o =>
    obtain ⟨g, hg, hfile⟩ := Option.bind_eq_some_iff.1 hts
    obtain ⟨hload, hsingle⟩ := (h.backed g hg).request_clean (h.single g hg) hfile (hclean g ts hg hts)
    exact hgood g hg hload hsingle
  | lease ended persisted =>
    obtain ⟨g, hg, hfile⟩ := Option.bind_eq_some_iff.1 hts
    refine hgood g hg ((h.backed g hg).lease_clean hfile (hclean g ts hg hts)) fun hfenced => ?_
    obtain ⟨-, rfl, hgate⟩ := expire_writes hfile
    exact hgate ▸ expire_single (h.backed g hg) ended persisted (h.single g hg hfenced)
  | stop | start => cases hts

theorem Inv.request (hclean : w.Clean c (.request r o)) : (w.step c (.request r o)).Inv c := by
  have hstartable := h.startable.step fun ts hts => ⟨(h.writes hclean hts).1, (h.writes hclean hts).2.2⟩
  refine ⟨?_, ?_, ?_, hstartable⟩
  · intro g' hg'
    obtain ⟨g, hg, rfl⟩ := Option.map_eq_some_iff.1 hg'
    exact (h.backed g hg).handle r o
  · intro g' hg'
    obtain ⟨g, hg, -⟩ := Option.map_eq_some_iff.1 hg'
    exact h.machine g hg
  · intro g' hg' hfenced
    obtain ⟨g, hg, rfl⟩ := Option.map_eq_some_iff.1 hg'
    cases hfile : (g.handleUpdateGate c r o).file with
    | none =>
      intro x y t u ht hu htd hud
      obtain ⟨v, hv, hvd⟩ := handle_drained (h.backed g hg) hfile ht htd
      obtain ⟨v', hv', hvd'⟩ := handle_drained (h.backed g hg) hfile hu hud
      exact h.single g hg hfenced x y v v' hv hv' hvd hvd'
    | some ts =>
      have hts : w.writes c (.request r o) = some ts := Option.bind_eq_some_iff.2 ⟨g, hg, hfile⟩
      obtain ⟨-, -, g', t, -, rfl, hgate⟩ := handle_writes hfile
      rw [hgate, written_transactions]
      exact (h.writes hclean hts).2.1 hfenced

theorem Inv.lease {ended persisted : Bool} (hclean : w.Clean c (.lease ended persisted)) :
    (w.step c (.lease ended persisted)).Inv c := by
  have hstartable := h.startable.step fun ts hts => ⟨(h.writes hclean hts).1, (h.writes hclean hts).2.2⟩
  refine ⟨?_, ?_, ?_, hstartable⟩
  · intro g' hg'
    obtain ⟨g, hg, rfl⟩ := Option.map_eq_some_iff.1 hg'
    exact (h.backed g hg).expire ended persisted
  · intro g' hg'
    obtain ⟨g, hg, -⟩ := Option.map_eq_some_iff.1 hg'
    exact h.machine g hg
  · intro g' hg' hfenced
    obtain ⟨g, hg, rfl⟩ := Option.map_eq_some_iff.1 hg'
    exact expire_single (h.backed g hg) ended persisted (h.single g hg hfenced)

theorem Inv.step (op : Op) (hclean : w.Clean c op) : (w.step c op).Inv c := by
  cases op with
  | request r o => exact h.request hclean
  | lease ended persisted => exact h.lease hclean
  | stop => exact ⟨nofun, nofun, nofun, h.startable⟩
  | start begun =>
    by_cases hgate : w.gate.isSome = true
    · have hsame : w.step c (.start begun) = w := by
        simp [World.step, nextGate, World.writes, hgate]
      rw [hsame]
      exact h
    · have hstart : ∀ g, (w.step c (.start begun)).gate = some g → newStandaloneUpdateGate c w.file begun = some g := by
        intro g hg
        simpa [World.step, nextGate, hgate] using hg
      exact ⟨fun g hg => (start_backed (hstart g hg)).1, fun g hg => (start_backed (hstart g hg)).2.1,
        fun g hg => (start_backed (hstart g hg)).2.2, h.startable⟩

/-- a step after which a process can start is clean -/
theorem Inv.clean (op : Op) (hstartable : (w.step c op).Startable c) : w.Clean c op := by
  intro g ts hg hts
  have hgood := hstartable ts (by simp [World.step, hts])
  have hsingle := (start_isSome.1 hgood.2).2.2
  cases op with
  | request r o =>
    simp only [World.writes, hg, Option.bind_some] at hts
    exact (h.backed g hg).clean_request hts hgood.1 hsingle
  | lease ended persisted =>
    simp only [World.writes, hg, Option.bind_some] at hts
    exact clean_lease hts hgood.1
  | stop | start => cases hts

end World

/-- **A process can always start from the file of the gate** exactly if every write of the run is clean: what a
failed drain left in memory is purged, drained, rolled back or given up by then, a drain finds no other transaction
drained than the one that holds the fence, the machine has a valid identifier, and the file is not longer than load
reads. -/
theorem startable_iff (c : Config) (ops : List Op) :
    (∀ pre, pre <+: ops → (Machine.run (step c) {} pre).Startable c) ↔
      Machine.Throughout (step c) {} (Clean c) ops :=
  Machine.always_iff_throughout_of (step c) {} Inv.init (fun _ h => h.startable) (fun _ op h => h.step op)
    (fun _ op h => h.clean op) ops

/-! ### A failed drain -/

/-- a machine whose times are all written alike -/
def exampleConfig : Config := { machineID := "m1", fenced := true, stamp := fun _ => "2026-01-01T00:00:00Z" }

/-- 64 hexadecimal digits -/
def exampleDigest : String := "0123456789abcdef0123456789abcdef0123456789abcdef0123456789abcdef"

def exampleRequest (operation : Operation) (id : String) : Request :=
  let base : Request := { operation := operation, transactionID := id, version := "2", manifestSHA256 := exampleDigest }
  let aimed : Request := { base with expectedTarget := some exampleConfig.target }
  match operation with
  | .target => base
  | .candidate => { aimed with path := "/healthz", expectedStatus := 200, samples := 2, timeoutMillis := 1000 }
  | .drain => { aimed with previousVersion := "1", timeoutMillis := 1000 }
  | .stability =>
    { aimed with path := "/healthz", expectedStatus := 200, samples := 2, windowMillis := 1000, intervalMillis := 1000 }
  | .rollback =>
    { aimed with previousVersion := "1", path := "/healthz", expectedStatus := 200, samples := 2,
                 timeoutMillis := 1000 }
  | .commit => aimed

/-- the request, with one workload running, nothing failing but perhaps the write -/
def exampleOp (operation : Operation) (id : String) (persist : Bool) : Op :=
  .request (exampleRequest operation id) { now := 0, created := 0, workloads := ⟨1, 1⟩, persist := persist }

/-- the drain of "u1" is not written, and then "u2" is created -/
def failedDrain : List Op :=
  [.start true, exampleOp .target "u1" true, exampleOp .candidate "u1" true, exampleOp .drain "u1" false,
    exampleOp .target "u2" true]

/-- load refuses the file that was written last, and no process starts from it -/
theorem unstartable_after_failed_drain :
    ((Machine.run (step exampleConfig) {} failedDrain).file.map (load exampleConfig)) = some false ∧
    (newStandaloneUpdateGate exampleConfig (Machine.run (step exampleConfig) {} failedDrain).file true).isSome =
      false := by
  decide +kernel

end Paperboat.Standalone
