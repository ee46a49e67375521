/-
The input of one client over restarts of the session.

A restart gives the session a new shell and an empty journal, which reports 0 to the
links of the new generation. The client keeps its queue, and knows that the numbering is
not the host's only if its first unanswered number is more than one beyond the number
reported. Which shell a key was typed for is the generation of the link it was typed on:
if the key is unanswered when another generation takes its place, its fate in the old
shell is unknown.

Results:
- `confines`: the condition on a step: what the client does with keys of an earlier
  generation
- `Links.Apart`: while a key of an earlier generation is unanswered nothing of the new
  generation is on its way
- `input_stays_in_generation`: as long as every step meets the condition every key is
  written only by the generation it was typed for, and every key of unknown fate is
  unanswered, reported as unconfirmed, or was answered after all

Witnesses:
- `input_stays_in_generation_answered`: the first key is answered before the restart,
  the second one is reported
- `key_written_twice`: a restart before the first key is answered, and a refusal that
  hides a key of unknown fate

Premises: those of `Terminal.Links`.
-/
import Paperboat.Terminal.Links

namespace Paperboat.Terminal

open Machine TerminalInputQueue Links

section

variable {Hash : Type} [DecidableEq Hash] (sum256 : Bytes → Hash) (who : Identity)

/-- what the client does with input of earlier generations -/
def Links.confines (s : Links Hash) : LinkOp → Bool
  | .reconcile i =>
    match s.links i with
    | none => true
    | some l =>
      if l.reconciled then true
      else if l.generation = s.session.generation then
        -- the numbering is seen to be another one, or all that is unanswered is of this generation
        s.queue.foreign l.reported || s.queue.pending.all (·.generation = s.session.generation)
      else (s.queue.reconcile l.reported).decided = []
  | .type _ =>
    -- no Write of a link of an earlier generation goes on
    match s.writer.bind s.links with
    | none => true
    | some l => l.generation = s.session.generation
  | .answer i =>
    match s.links i with
    | none => true
    | some l =>
      match l.answers with
      | [] => true
      | a :: _ =>
        -- what a link of an earlier generation still answers is the decision about the input of that number
        l.generation = s.session.generation ||
          s.queue.pending.all fun p => p.sequence ≠ a.input.sequence || a.decided && p = a.input
  | _ => true

end

section

variable {Hash : Type} {who : Identity} {s : Links Hash} {i : ℕ} {l : Link} {p : TerminalInput}

/-- nothing of the generation was sent on the link, or all that was is of it -/
structure Link.Apart (current : ℕ) (l : Link) : Prop where
  frames : l.generation = current → ∀ f ∈ l.frames, f.generation = current
  fresh : l.reconciled = false → l.frames = [] ∧ l.answers = []

variable (who s) in
/-- every key written was typed for the generation that wrote it, and what keeps it so -/
structure Links.Apart : Prop where
  written : ∀ w ∈ s.writes, w.input.generation = w.generation
  accounted : ∀ p ∈ s.unknown, p ∈ s.queue.pending ∨ p ∈ s.unconfirmed ∨ p ∈ s.settled
  past : ∀ p ∈ s.unknown, p.generation < s.session.generation
  pending : ∀ p ∈ s.queue.pending, p.generation ≤ s.session.generation
  /-- while a key of an earlier generation is unanswered the new one has decided nothing and no link of it is in use -/
  waits : (∃ p ∈ s.queue.pending, p.generation < s.session.generation) → s.last who = 0 ∧
    ∀ i l, s.links i = some l → l.generation = s.session.generation → l.reconciled = false
  writer : ∀ i, s.current = some i ∨ s.writer = some i → ∃ l, s.links i = some l ∧ l.reconciled = true
  links : ∀ i l, s.links i = some l → l.Apart s.session.generation

theorem Links.Apart.start (generation max limit : ℕ) (stored : Bool) :
    Links.Apart who (.start generation max limit stored : Links Hash) where
  written := by simp [Links.start]
  accounted := by simp [Links.start]
  past := by simp [Links.start]
  pending := by simp [Links.start, new]
  waits := by simp [Links.start, new]
  writer := by simp [Links.start]
  links := by simp [Links.start]

variable {q : TerminalInputQueue} {n : ℕ}

/-- every unanswered input is in the queue after Reconcile or in one of two results -/
theorem mem_reconcile (hp : p ∈ q.pending) :
    p ∈ (q.reconcile n).queue.pending ∨ p ∈ (q.reconcile n).unconfirmed ∨ p ∈ (q.reconcile n).decided := by
  unfold reconcile kept
  split_ifs <;> by_cases hle : n ≤ p.sequence <;> simp [hp, hle, Nat.lt_of_not_le]

theorem lt_of_mem_decided (hp : p ∈ (q.reconcile n).decided) : p.sequence < n := by
  unfold reconcile at hp
  split_ifs at hp <;> simpa using (List.mem_filter.1 hp).2

theorem reconcile_foreign (h : q.foreign n = true) :
    (q.reconcile n).queue.pending = [] ∧ (q.reconcile n).resend = [] := by
  unfold reconcile
  rw [if_pos h]
  exact ⟨rfl, rfl⟩

section

variable (h : s.Apart who)
include h

/-- with a link of the current generation in use every unanswered input is of it -/
theorem Links.Apart.current (hl : s.links i = some l) (hgen : l.generation = s.session.generation)
    (hrec : l.reconciled = true) (hp : p ∈ s.queue.pending) : p.generation = s.session.generation := by
  by_contra hne
  have hfalse := (h.waits ⟨p, hp, lt_of_le_of_ne (h.pending p hp) hne⟩).2 i l hl hgen
  rw [hrec] at hfalse
  cases hfalse

/-- what of it a new value of a link that stays in use has to keep -/
theorem Links.Apart.setLink {l' : Link} (hl : s.links i = some l) (hgen : l'.generation = l.generation)
    (hrec : l'.reconciled = l.reconciled) (hlink : l'.Apart s.session.generation) : (s.setLink i l').Apart who := by
  refine { h with waits := fun hold => ?_, writer := fun j hj => ?_, links := setLink_forall hlink h.links }
  · obtain ⟨hlast, hfresh⟩ := h.waits hold
    exact ⟨hlast, setLink_forall (fun hg => hrec.trans (hfresh i l hl (hgen.symm.trans hg))) hfresh⟩
  · obtain ⟨lj, hlj, hrecj⟩ := h.writer j hj
    change ∃ l, Function.update s.links i (some l') j = some l ∧ l.reconciled = true
    by_cases hij : j = i
    · subst hij
      rw [hl] at hlj
      exact ⟨l', Function.update_self .., by rw [hrec, Option.some.inj hlj, hrecj]⟩
    · exact ⟨lj, by rwa [Function.update_of_ne hij], hrecj⟩

/-- a link that has frames or answers is in use -/
theorem Links.Apart.in_use (hl : s.links i = some l) (hused : l.frames ≠ [] ∨ l.answers ≠ []) :
    l.reconciled = true := by
  by_contra hrec
  obtain ⟨hframes, hanswers⟩ := (h.links i l hl).fresh (Bool.not_eq_true _ ▸ hrec)
  rcases hused with hused | hused
  · exact hused hframes
  · exact hused hanswers

end

/-! ## Every step that meets the condition keeps it -/

variable [DecidableEq Hash] {sum256 : Bytes → Hash}

section

variable (h : s.Apart who) (hh : s.Hosted who)
include h hh

theorem Links.Apart.reconcile (hop : s.confines (.reconcile i) = true) :
    (s.step sum256 who (.reconcile i)).Apart who := by
  unfold confines at hop
  unfold step
  dsimp only at hop ⊢
  cases hl : s.links i with
  | none => exact h
  | some l =>
    simp only [hl] at hop
    by_cases hrec : l.reconciled = true
    · simp only [hrec, if_true]
      exact h
    simp only [hrec, Bool.false_eq_true, if_false] at hop ⊢
    have hframes := (h.links i l hl).fresh (Bool.not_eq_true _ ▸ hrec)
    -- what is passed over as decided is not of unknown fate
    have hdecided : ∀ p ∈ s.unknown, p ∈ s.queue.pending → p ∉ (s.queue.reconcile l.reported).decided := by
      intro p hp hpending hdecided
      split_ifs at hop with hgen
      · have hzero := (h.waits ⟨p, hpending, h.past p hp⟩).1
        have hreported := (hh.links i l hl).reported hgen
        have := lt_of_mem_decided hdecided
        omega
      · rw [of_decide_eq_true hop] at hdecided
        simp at hdecided
    -- what stays unanswered or is sent again on a link of the current generation is of it
    have hcurrent : l.generation = s.session.generation → ∀ p,
        p ∈ (s.queue.reconcile l.reported).queue.pending ∨ p ∈ (s.queue.reconcile l.reported).resend →
        p.generation = s.session.generation := by
      intro hgen p hp
      rw [if_pos hgen, Bool.or_eq_true] at hop
      rcases hop with hforeign | hall
      · obtain ⟨hpending, hresend⟩ := reconcile_foreign hforeign
        rw [hpending, hresend] at hp
        simp at hp
      · have hmem : p ∈ s.queue.pending := hp.elim (reconcile_subset ·) (resend_subset ·)
        simpa using List.all_eq_true.1 hall p hmem
    constructor
    case written => exact h.written
    case accounted =>
      intro p hp
      change p ∈ (s.queue.reconcile l.reported).queue.pending ∨
        p ∈ s.unconfirmed ++ (s.queue.reconcile l.reported).unconfirmed ∨ p ∈ s.settled
      rw [List.mem_append]
      rcases h.accounted p hp with hpending | hrest
      · have := mem_reconcile (n := l.reported) hpending
        have := hdecided p hp hpending
        tauto
      · tauto
    case past => exact h.past
    case pending => exact fun p hp => h.pending p (reconcile_subset hp)
    case waits =>
      rintro ⟨p, hp, hold⟩
      obtain ⟨hlast, hfresh⟩ := h.waits ⟨p, reconcile_subset hp, hold⟩
      exact ⟨hlast, setLink_forall (fun hgen => absurd (hcurrent hgen p (.inl hp)) hold.ne) hfresh⟩
    case writer =>
      intro j hj
      obtain ⟨lj, hlj, hrecj⟩ := h.writer j hj
      change ∃ l, Function.update s.links i _ j = some l ∧ l.reconciled = true
      by_cases hij : j = i
      · exact ⟨_, by rw [hij, Function.update_self], rfl⟩
      · exact ⟨lj, by rwa [Function.update_of_ne hij], hrecj⟩
    case links =>
      refine setLink_forall ⟨fun hgen f hf => ?_, fun hfalse => by cases hfalse⟩ h.links
      rcases mem_send hf with hf | hf
      · rw [show l.frames = [] from hframes.1] at hf
        simp at hf
      · exact hcurrent hgen f (.inr hf)

theorem Links.Apart.deliver (w : Weather) : (s.step sum256 who (.deliver i w)).Apart who := by
  obtain hsame | ⟨l, f, rest, s', l', hl, hf, hstep, hs', -, -, -, -, hgen', hrec', hframes⟩ :=
    hh.deliver_cases sum256 i w
  · rwa [hsame]
  have hrec : l.reconciled = true := h.in_use hl (.inl (by simp [hf]))
  have hown := (h.links i l hl).frames
  have hapart : s'.Apart who ∧ s'.links = s.links ∧ s'.session.generation = s.session.generation := by
    rcases hs' with rfl | rfl
    · exact ⟨h, rfl, rfl⟩
    cases hdecides : s.session.decides sum256 ((who.cursor l.generation).key f.sequence) f.data w with
    | false =>
      have ht := (writeContext_of_not_decides hdecides).1
      unfold handleTerminalInput
      simp only [hdecides, Bool.false_eq_true, if_false]
      refine ⟨?_, trivial, ht.generation⟩
      constructor
      case written => exact h.written
      case accounted => exact h.accounted
      case writer => exact h.writer
      case waits =>
        rw [last, ht.inputs, ht.generation]
        exact h.waits
      all_goals rw [ht.generation]
      case past => exact h.past
      case pending => exact h.pending
      case links => exact h.links
    | true =>
      have hgen := hh.decides_generation hdecides
      have ht := writeContext_of_decides hdecides
      unfold handleTerminalInput
      simp only [hdecides, if_true]
      refine ⟨?_, trivial, ht.generation⟩
      constructor
      case written =>
        intro v hv
        rcases mem_snoc.1 hv with hv | rfl
        · exact h.written v hv
        · exact (hown hgen f (hf ▸ List.mem_cons_self)).trans hgen.symm
      case accounted => exact h.accounted
      case writer => exact h.writer
      case waits =>
        rw [ht.generation]
        rintro ⟨p, hp, hold⟩
        exact absurd (h.current hl hgen hrec hp) hold.ne
      all_goals rw [ht.generation]
      case past => exact h.past
      case pending => exact h.pending
      case links => exact h.links
  obtain ⟨hapart, hlinks, hgen⟩ := hapart
  rw [hstep]
  refine hapart.setLink (hlinks ▸ hl) hgen' hrec' ⟨fun hg p hp => ?_, fun hfalse => ?_⟩
  · rw [hgen] at hg ⊢
    exact hown (hgen' ▸ hg) p (hf ▸ List.mem_cons_of_mem _ (hframes hp))
  · rw [hrec', hrec] at hfalse
    cases hfalse

omit hh in
theorem Links.Apart.answer (hop : s.confines (.answer i) = true) : (s.step sum256 who (.answer i)).Apart who := by
  unfold confines at hop
  unfold step
  dsimp only at hop ⊢
  cases hl : s.links i with
  | none => exact h
  | some l =>
    simp only [hl] at hop
    cases hanswers : l.answers with
    | nil =>
      dsimp only
      rw [hanswers]
      exact h
    | cons a rest =>
      simp only [hanswers] at hop ⊢
      have hrec : l.reconciled = true := h.in_use hl (.inr (by simp [hanswers]))
      refine Apart.setLink (l := l) (s := { s with
        queue := s.queue.complete a.input.sequence
        settled := if a.decided then s.settled ++ [a.input] else s.settled }) ?_ hl rfl rfl
        ⟨(h.links i l hl).frames, fun hfalse => absurd (hrec.symm.trans hfalse) (by decide)⟩
      refine { h with
        accounted := fun p hp => ?_
        pending := fun p hp => h.pending p (List.mem_filter.1 hp).1
        waits := fun hold => h.waits (hold.imp fun p hp => ⟨(List.mem_filter.1 hp.1).1, hp.2⟩) }
      have hkeep : p ∈ s.settled → p ∈ if a.decided then s.settled ++ [a.input] else s.settled := by
        intro hsettled
        split_ifs
        · exact List.mem_append_left _ hsettled
        · exact hsettled
      rcases h.accounted p hp with hpending | hunconfirmed | hsettled
      · by_cases hseq : p.sequence = a.input.sequence
        · rw [Bool.or_eq_true] at hop
          rcases hop with hgen | hall
          · -- of the current generation nothing of unknown fate is unanswered
            exact absurd (h.current hl (of_decide_eq_true hgen) hrec hpending) (h.past p hp).ne
          · have hown := List.all_eq_true.1 hall p hpending
            simp only [hseq, ne_eq, not_true_eq_false, decide_false, Bool.false_or, Bool.and_eq_true,
              decide_eq_true_eq] at hown
            obtain ⟨hdecided, rfl⟩ := hown
            exact .inr (.inr (by simp [hdecided]))
        · exact .inl (List.mem_filter.2 ⟨hpending, by simpa using hseq⟩)
      · exact .inr (.inl hunconfirmed)
      · exact .inr (.inr (hkeep hsettled))

omit hh in
theorem Links.Apart.attach : (s.step sum256 who (.attach i)).Apart who := by
  unfold Links.step
  dsimp only
  cases hl : s.links i with
  | some l => exact h
  | none =>
    refine { h with
      waits := fun hold => ⟨(h.waits hold).1, setLink_forall (fun _ => rfl) (h.waits hold).2⟩
      writer := fun j hj => ?_
      links := setLink_forall ⟨fun _ => by simp, fun _ => ⟨rfl, rfl⟩⟩ h.links }
    obtain ⟨lj, hlj, hrecj⟩ := h.writer j hj
    have hij : j ≠ i := by
      rintro rfl
      rw [hl] at hlj
      cases hlj
    exact ⟨lj, (Function.update_of_ne hij ..).trans hlj, hrecj⟩

omit hh in
theorem Links.Apart.promote : (s.step sum256 who (.promote i)).Apart who := by
  unfold Links.step
  dsimp only
  cases hl : s.links i with
  | none => exact h
  | some l =>
    dsimp only
    split_ifs with hstays
    · exact h
    simp only [Bool.or_eq_true, Bool.not_eq_true', decide_eq_true_eq, not_or, Bool.not_eq_false] at hstays
    -- a link that is retired is otherwise the same
    have hsame : ∀ j lj, (if s.current = some j then (s.links j).map ({ · with retired := true }) else s.links j) =
        some lj → ∃ l, s.links j = some l ∧ lj = { l with retired := lj.retired } := by
      intro j lj hlj
      split_ifs at hlj
      · obtain ⟨l', hl', rfl⟩ := Option.map_eq_some_iff.1 hlj
        exact ⟨l', hl', rfl⟩
      · exact ⟨lj, hlj, rfl⟩
    have hreconciled : ∀ j, (∃ l, s.links j = some l ∧ l.reconciled = true) →
        ∃ l, (if s.current = some j then (s.links j).map ({ · with retired := true }) else s.links j) = some l ∧
          l.reconciled = true := by
      rintro j ⟨l, hl, hrec⟩
      split_ifs
      · exact ⟨{ l with retired := true }, by rw [hl]; rfl, hrec⟩
      · exact ⟨l, hl, hrec⟩
    refine { h with
      waits := fun hold => ⟨(h.waits hold).1, fun j lj hlj hgen => ?_⟩
      writer := fun j hj => hreconciled j (hj.elim (fun hij => ?_) fun hj => h.writer j (.inr hj))
      links := fun j lj hlj => ?_ }
    · obtain ⟨l', hl', heq⟩ := hsame j lj hlj
      rw [heq] at hgen ⊢
      exact (h.waits hold).2 j l' hl' hgen
    · exact ⟨l, Option.some.inj hij ▸ hl, hstays.1.1⟩
    · obtain ⟨l', hl', heq⟩ := hsame j lj hlj
      rw [heq]
      exact { h.links j l' hl' with }

omit hh in
/-- what is typed on a link of the current generation is of that generation -/
theorem Links.Apart.type {data : Bytes} (hop : s.confines (.type data) = true) :
    (s.step sum256 who (.type data)).Apart who := by
  simp only [Links.step]
  split
  · exact h
  next i hwriter =>
    split
    · exact h
    next l hl =>
      split_ifs with hfull
      · exact h
      have hgen : l.generation = s.session.generation := by
        simpa only [Links.confines, hwriter, Option.bind_some, hl, decide_eq_true_eq] using hop
      have hrec : l.reconciled = true := by
        obtain ⟨l', hl', hrec⟩ := h.writer i (.inr hwriter)
        rwa [Option.some.inj (hl.symm.trans hl')]
      have hqueued : ({ s with
          queue := s.queue.enqueue data s.typed l.generation, typed := s.typed + 1 } : Links Hash).Apart who := by
        refine { h with
          accounted := fun p hp => (h.accounted p hp).imp_left (List.mem_append_left _)
          pending := fun p hp => ?_
          waits := ?_ }
        · rcases mem_snoc.1 hp with hp | rfl
          · exact h.pending p hp
          · exact hgen.le
        · rintro ⟨p, hp, hold⟩
          rcases mem_snoc.1 hp with hp | rfl
          · exact h.waits ⟨p, hp, hold⟩
          · exact absurd hgen hold.ne
      refine hqueued.setLink hl rfl rfl ⟨fun _ f hf => ?_, fun hfalse => absurd (hrec.symm.trans hfalse) (by decide)⟩
      rcases mem_send hf with hf | hf
      · exact (h.links i l hl).frames hgen f hf
      · rw [List.mem_singleton.1 hf]
        exact hgen

/-- what is unanswered at a restart is of unknown fate, and no link is of the new generation yet -/
theorem Links.Apart.restart (pruneFails : Bool) : (s.step sum256 who (.restart pruneFails)).Apart who := by
  unfold Links.step
  dsimp only
  split_ifs with hlive
  · exact h
  obtain ⟨-, hzero⟩ := hh.journal.restart
  have hold : ∀ i l, s.links i = some l → l.generation ≠ s.session.generation + 1 := fun i l hl heq => by
    have := (hh.links i l hl).generation
    omega
  exact {
    written := h.written
    accounted := fun p hp => (List.mem_append.1 hp).elim (h.accounted p) .inl
    past := fun p hp => (List.mem_append.1 hp).elim (fun hp => Nat.lt_succ_of_lt (h.past p hp))
      fun hp => Nat.lt_succ_of_le (h.pending p hp)
    pending := fun p hp => Nat.le_succ_of_le (h.pending p hp)
    waits := fun _ => ⟨hzero _, fun i l hl hgen => absurd hgen (hold i l hl)⟩
    writer := h.writer
    links := fun i l hl => ⟨fun hgen => absurd hgen (hold i l hl), (h.links i l hl).fresh⟩ }

theorem Links.Apart.step (op : LinkOp) (hop : s.confines op = true) : (s.step sum256 who op).Apart who := by
  cases op with
  | attach i => exact h.attach
  | reconcile i => exact h.reconcile hh hop
  | promote i => exact h.promote
  | write =>
    exact { h with writer := fun j hj => h.writer j (.inl (hj.elim id id)) }
  | type data => exact h.type hop
  | deliver i w => exact h.deliver hh w
  | answer i => exact h.answer hop
  | close i | lose i =>
    unfold Links.step
    dsimp only
    cases hl : s.links i with
    | none => exact h
    | some l =>
      exact h.setLink hl rfl rfl ⟨fun _ => by simp [Link.ended], fun hfresh =>
        ⟨rfl, by simp [Link.ended, (h.links i l hl).fresh hfresh]⟩⟩
  | interrupt key =>
    unfold Links.step
    dsimp only
    split_ifs
    · exact h
    · exact { h with }
  | detach | exited => exact { h with }
  | restart pruneFails => exact h.restart hh pruneFails

end

/-- **Input stays in its generation.** In every run, with any links, interrupts and restarts, whose steps meet the
condition: every input was written by the generation it was typed for, so none was written by two, and every input that
was unanswered when another generation took its place is still unanswered, was reported as unconfirmed, or its decision
has been received since. -/
theorem input_stays_in_generation (generation max limit : ℕ) (stored : Bool) (ops : List LinkOp)
    (hops : Throughout (step sum256 who) (.start generation max limit stored)
      (fun s op => s.confines op = true) ops) :
    (∀ w ∈ (run (step sum256 who) (.start generation max limit stored) ops).writes,
      w.input.generation = w.generation) ∧
    (∀ w ∈ (run (step sum256 who) (.start generation max limit stored) ops).writes,
      ∀ w' ∈ (run (step sum256 who) (.start generation max limit stored) ops).writes,
        w.input = w'.input → w.generation = w'.generation) ∧
    ∀ p ∈ (run (step sum256 who) (.start generation max limit stored) ops).unknown,
      p ∈ (run (step sum256 who) (.start generation max limit stored) ops).queue.pending ∨
      p ∈ (run (step sum256 who) (.start generation max limit stored) ops).unconfirmed ∨
      p ∈ (run (step sum256 who) (.start generation max limit stored) ops).settled := by
  obtain ⟨-, hapart⟩ := throughout_inv (I := fun s => s.Hosted who ∧ s.Apart who) _ _
    ⟨.start generation max limit stored, .start generation max limit stored⟩
    (fun s op hop h => ⟨h.1.step op, h.2.step h.1 op hop⟩) hops
  refine ⟨hapart.written, fun w hw w' hw' hsame => ?_, hapart.accounted⟩
  rw [← hapart.written w hw, ← hapart.written w' hw', hsame]

end

/-! ## Runs with a restart -/

def window : Identity := ⟨"client", "window"⟩

/-- a link attaches, reconciles and becomes current -/
def newLink (i : ℕ) : List LinkOp := [.attach i, .reconcile i, .promote i]

/-- a key, in a Write of its own -/
def press (b : UInt8) : List LinkOp := [.write, .type [b]]

/-- the shell ends and another one takes its place -/
def newShell : List LinkOp := [.exited, .restart false]

/-- the first key is answered before the restart; the second one is not -/
def answered : List LinkOp :=
  newLink 0 ++ press 97 ++ [.deliver 0 { n := 1 }, .answer 0] ++ press 98 ++ [.deliver 0 { n := 1 }, .lose 0] ++
    newShell ++ newLink 1 ++ press 99 ++ [.deliver 1 { n := 1 }]

/-- the first key is written, its answer is lost, and the session is restarted -/
def unanswered : List LinkOp :=
  newLink 0 ++ press 97 ++ [.deliver 0 { n := 1 }, .lose 0] ++ newShell ++ newLink 1 ++ [.deliver 1 { n := 1 }]

/-- the first key is written, its answer is lost, and the session is restarted while the key is sent again -/
def refused : List LinkOp :=
  newLink 0 ++ press 97 ++ [.deliver 0 { n := 1 }, .lose 0] ++ newLink 1 ++ newShell ++
    [.deliver 1 { n := 1 }, .answer 1]

/-- the new shell is given what was typed for it, and the key of unknown fate is reported -/
theorem input_stays_in_generation_answered :
    (run (step id window) (.start 1 256 256 true) answered).writes.map (fun w => (w.generation, w.input.data)) =
      [(1, [97]), (1, [98]), (2, [99])] ∧
    (run (step id window) (.start 1 256 256 true) answered).unconfirmed.map (·.data) = [[98]] ∧
    ∀ w ∈ (run (step id window) (.start 1 256 256 true) answered).writes, w.input.generation = w.generation :=
  ⟨by decide +kernel, by decide +kernel,
    (@input_stays_in_generation Bytes window _ id 1 256 256 true answered
      ((throughout_iff_allowed _ _).2 (by decide +kernel))).1⟩

/-- **The same key in two shells, and a key that is forgotten.** The new generation reports 0 and the first
unanswered number is 1, so the client takes the numbering for the host's and sends the key again. When the key is
already on its way on a link of the old generation, it is answered with an error, and the client drops it without a
word. -/
theorem key_written_twice :
    (run (step id window) (.start 1 256 256 true) unanswered).session.pty =
      [((window.cursor 1).key 1, [97]), ((window.cursor 2).key 1, [97])] ∧
    (run (step id window) (.start 1 256 256 true) unanswered).writes =
      [⟨1, ⟨1, [97], 0, 1⟩, true⟩, ⟨2, ⟨1, [97], 0, 1⟩, true⟩] ∧
    (run (step id window) (.start 1 256 256 true) refused).unknown = [⟨1, [97], 0, 1⟩] ∧
    (run (step id window) (.start 1 256 256 true) refused).queue.pending = [] ∧
    (run (step id window) (.start 1 256 256 true) refused).unconfirmed = [] ∧
    (run (step id window) (.start 1 256 256 true) refused).settled = [] := by
  decide +kernel

end Paperboat.Terminal
