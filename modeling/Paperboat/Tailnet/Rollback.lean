/-
Whether an older configuration, or one that was refused, is ever installed again.

Custody never goes back, and Apply installs under the lock that it holds since it wrote
custody, so what it installs is the newest. Restore reads custody before it takes a
lock: by the time it has the locks a newer configuration may have been installed and
dropped, or the server may have refused. It then installs the document it read. So does
an Apply that verified its token before a refusal.

Results:
- `Ledger.step`: what every run keeps: one document for each generation custody ever
  had, and what each call knows;
- `installed_forward_iff`: **nothing older and nothing refused is installed** exactly if
  no Restore installs that was overtaken, and no call that was refused meanwhile;
- `installed_agree`: even then, what was ever installed for one generation is one
  document;
- `restart_restores`: a restart and a Restore bring back what an Apply kept.

Witnesses:
- `restoredAndRefused_forward`: a Restore of an expired document, and an Apply after a
  refusal;
- `restart_restores_expired`: a new key was staged, and the document has expired;
- `restoreOvertaken_agree`, `restore_rolls_back`: a newer configuration is installed and
  refused between the reads of a Restore and its locks.
-/
import Paperboat.Core.Fold
import Paperboat.Core.Machine
import Paperboat.Tailnet.Authority

namespace Paperboat.Tailnet

open Node Machine

/-! ## The order of what happened -/

/-- the token and configuration that an event installed -/
def Event.installed : Event → Option (String × NetworkConfiguration)
  | .applied token cfg _ | .restored token cfg => some (token, cfg)
  | .refused | .kept => none

/-- the last refusal has not been followed by an Apply that succeeded -/
def refusalPending : List Event → Bool
  | [] => false
  | .refused :: _ => true
  | .applied _ _ _ :: _ => false
  | _ :: history => refusalPending history

/-- a token was kept since the last refusal -/
def keptSinceRefusal : List Event → Bool
  | [] => false
  | .kept :: _ => true
  | .refused :: _ => false
  | _ :: history => keptSinceRefusal history

/-- the events after the first `k` -/
def since (history : List Event) (k : ℕ) : List Event := history.take (history.length - k)

/-- the first `k` events -/
def upTo (history : List Event) (k : ℕ) : List Event := history.drop (history.length - k)

theorem since_append_upTo (history : List Event) (k : ℕ) : since history k ++ upTo history k = history :=
  List.take_append_drop _ _

variable {history new : List Event}

theorem upTo_append {k : ℕ} (h : k ≤ history.length) : upTo (new ++ history) k = upTo history k := by
  unfold upTo
  have hlen : (new ++ history).length - k = new.length + (history.length - k) := by
    rw [List.length_append]
    omega
  rw [hlen]
  simp

@[simp] theorem upTo_length (history : List Event) : upTo history history.length = history := by simp [upTo]

/-- the authority was refused after the first `k` events, and no Apply succeeded since -/
def RefusedSince (history : List Event) (k : ℕ) : Prop :=
    refusalPending history = true ∧ Event.refused ∈ since history k

section Order

variable {D : Type} (codec : Codec D)

/-- no newer configuration was installed before, and at its generation only its document -/
def Newest (before : List Event) (token : String) (cfg : NetworkConfiguration) : Prop :=
  ∀ e ∈ before, ∀ token' cfg', e.installed = some (token', cfg') →
    cfg'.generation ≤ cfg.generation ∧
      (cfg'.generation = cfg.generation → codec.document token' = codec.document token ∧ cfg' = cfg)

/-- what may come after the events before; an Apply is later than a refusal if it verified its token after it -/
def Follows (before : List Event) : Event → Prop
  | .applied token cfg verifiedAt => Newest codec before token cfg ∧ ¬RefusedSince before verifiedAt
  | .restored token cfg => Newest codec before token cfg ∧ refusalPending before = false
  | .refused | .kept => True

/-- every event may come after those before it: the generations that are installed do not go back, each has one
document, and after a refusal nothing is installed before a later Apply succeeds -/
def Forward : List Event → Prop
  | [] => True
  | e :: before => Follows codec before e ∧ Forward before

end Order

/-! ## The condition -/

/-- a newer configuration was installed since a Restore read custody -/
def Overtaken (history : List Event) (readAt : ℕ) (cfg : NetworkConfiguration) : Prop :=
  ∃ e ∈ since history readAt, ∃ token' cfg', e.installed = some (token', cfg') ∧ cfg.generation < cfg'.generation

/-- the authority was refused and no Apply succeeded since, and a Restore loaded its token before the refusal, or
one that an Apply had kept after it -/
def Revoked (history : List Event) (loadedAt : ℕ) : Prop :=
  refusalPending history = true ∧
    (Event.refused ∈ since history loadedAt ∨ keptSinceRefusal (upTo history loadedAt) = true)

/-- an Apply that gets to install was not refused since it verified its token, and a Restore that finds nothing
installed was neither overtaken nor revoked -/
def Node.Clear {D : Type} (n : Node D) : Op → Prop
  | .applyInstall i done now true => ∀ token cfg key verifiedAt,
      n.calls.lookup i = some (.saved token cfg (.ok key) verifiedAt) →
      n.closed = false → done = false → now < cfg.expiresAt → ¬RefusedSince n.history verifiedAt
  | .restoreInstall i true => ∀ token cfg loadedAt readAt, n.calls.lookup i = some (.read token cfg loadedAt readAt) →
      n.updateMu = none → n.closed = false → n.current = none →
      ¬Overtaken n.history readAt cfg ∧ ¬Revoked n.history loadedAt
  | _ => True

/-! ## What every run keeps -/

/-- what is kept was kept after a refusal that is pending -/
def Earned (history : List Event) : Prop := refusalPending history = true → keptSinceRefusal history = true

theorem Earned.append (h : Earned history) (hnew : Event.refused ∉ new) : Earned (new ++ history) := by
  induction new with
  | nil => exact h
  | cons e new ih =>
    have hrest := ih fun hin => hnew (List.mem_cons_of_mem _ hin)
    cases e with
    | refused => exact absurd List.mem_cons_self hnew
    | applied _ _ _ => nofun
    | restored _ _ => exact hrest
    | kept => exact fun _ => rfl

/-- a pending refusal is among the later events, or was pending before them -/
theorem refusalPending_append (h : refusalPending (new ++ history) = true) :
    Event.refused ∈ new ∨ refusalPending history = true := by
  induction new with
  | nil => exact .inr h
  | cons e new ih =>
    cases e with
    | refused => exact .inl List.mem_cons_self
    | applied _ _ _ => exact absurd h (by simp [refusalPending])
    | restored _ _ | kept => exact (ih h).imp_left (List.mem_cons_of_mem _)

section Run

variable {D : Type} {codec : Codec D} {options : AuthorityOptions} {L L' : ℕ → Option D} {n n' : Node D}

variable (codec) in
/-- the token is the document of its generation -/
def Backed (L : ℕ → Option D) (n : Node D) (token : String) (cfg : NetworkConfiguration) : Prop :=
  cfg.generation ≤ n.custody.generation ∧
    ∃ body, codec.document token = some body ∧ codec.configuration body = some cfg ∧
      L cfg.generation = some (codec.sha256 body)

variable (codec) in
/-- what a call knows -/
def CallOk (L : ℕ → Option D) (n : Node D) (i : ℕ) : Call D → Prop
  | .verified token cfg hash _ => 0 < cfg.generation ∧
      ∃ body, codec.document token = some body ∧ codec.configuration body = some cfg ∧ hash = codec.sha256 body
  | .recorded token cfg selected _ | .saved token cfg selected _ => n.updateMu = some i ∧
      ∀ key, selected = .ok key → cfg.generation = n.custody.generation ∧ Backed codec L n token cfg
  | .emptied => n.updateMu = some i
  | .loaded token loadedAt => loadedAt ≤ n.history.length ∧ (token ≠ "" → Earned (upTo n.history loadedAt))
  | .read token cfg loadedAt readAt => loadedAt ≤ n.history.length ∧ Earned (upTo n.history loadedAt) ∧
      readAt ≤ n.history.length ∧ Backed codec L n token cfg ∧
      ∀ e ∈ upTo n.history readAt, ∀ token' cfg', e.installed = some (token', cfg') → cfg'.generation ≤ cfg.generation
  | .returned _ => True

variable (codec) in
/-- `L` has the hash of the document for every generation custody ever had -/
structure Ledger (L : ℕ → Option D) (n : Node D) : Prop where
  custody : 0 < n.custody.generation → L n.custody.generation = n.custody.configHash
  installed : ∀ e ∈ n.history, ∀ token cfg, e.installed = some (token, cfg) → Backed codec L n token cfg
  kept : n.kept ≠ "" → Earned n.history
  calls : ∀ i call, n.calls.lookup i = some call → CallOk codec L n i call

theorem Ledger.init : Ledger codec (fun _ => none) ({} : Node D) :=
  ⟨fun h => absurd h (Nat.lt_irrefl 0), nofun, fun h => absurd rfl h, nofun⟩

variable {i : ℕ}

/-- what a call knows stays, if the history grows, documents stay, and the call keeps updateMu and custody with it -/
theorem CallOk.mono {call : Call D} (h : CallOk codec L n i call) (hhistory : ∃ new, n'.history = new ++ n.history)
    (hbacked : ∀ token cfg, Backed codec L n token cfg → Backed codec L' n' token cfg)
    (hmu : n.updateMu = some i → n'.updateMu = some i ∧ n'.custody.generation = n.custody.generation) :
    CallOk codec L' n' i call := by
  obtain ⟨new, hnew⟩ := hhistory
  have hlen : n.history.length ≤ n'.history.length := by
    rw [hnew, List.length_append]
    omega
  have hupTo : ∀ {k}, k ≤ n.history.length → upTo n'.history k = upTo n.history k := by
    intro k hk
    rw [hnew]
    exact upTo_append hk
  have hheld : ∀ {token cfg} {selected : Except Error (List UInt8)}, (n.updateMu = some i ∧
      ∀ key, selected = .ok key → cfg.generation = n.custody.generation ∧ Backed codec L n token cfg) →
      n'.updateMu = some i ∧
        ∀ key, selected = .ok key → cfg.generation = n'.custody.generation ∧ Backed codec L' n' token cfg := by
    rintro token cfg selected ⟨hi, hselected⟩
    refine ⟨(hmu hi).1, fun key hkey => ?_⟩
    obtain ⟨hgen, hback⟩ := hselected key hkey
    exact ⟨hgen.trans (hmu hi).2.symm, hbacked _ _ hback⟩
  cases call with
  | verified token cfg hash verifiedAt => exact h
  | recorded | saved => exact hheld h
  | emptied => exact (hmu h).1
  | loaded token loadedAt =>
    refine ⟨h.1.trans hlen, fun htoken => ?_⟩
    rw [hupTo h.1]
    exact h.2 htoken
  | read token cfg loadedAt readAt =>
    obtain ⟨hloaded, hearned, hread, hback, hbefore⟩ := h
    refine ⟨hloaded.trans hlen, ?_, hread.trans hlen, hbacked _ _ hback, ?_⟩
    · rw [hupTo hloaded]
      exact hearned
    · rw [hupTo hread]
      exact hbefore
  | returned error => exact trivial

@[simp] theorem Node.save_calls (n : Node D) (token : String) (access : Access) :
    (n.save token access).calls = n.calls := by
  unfold save
  split_ifs <;> rfl

@[simp] theorem Node.save_updateMu (n : Node D) (token : String) (access : Access) :
    (n.save token access).updateMu = n.updateMu := by
  unfold save
  split_ifs <;> rfl

namespace Ledger

variable (h : Ledger codec L n)
include h

/-- custody at the same generation and hash, more events that are backed, and anything installed or kept that was
earned -/
theorem grow {custody : PeerNetworkState D} (hgen : custody.generation = n.custody.generation)
    (hhash : custody.configHash = n.custody.configHash) {kept : String}
    {current : Option NetworkConfiguration} {closed : Bool}
    (new : List Event) (hinstalled : ∀ e ∈ new, ∀ token cfg, e.installed = some (token, cfg) →
      Backed codec L n token cfg) (hkept : kept ≠ "" → Earned (new ++ n.history)) :
    Ledger codec L { n with
      custody := custody, kept := kept, current := current, closed := closed, history := new ++ n.history } := by
  have hbacked : ∀ token cfg, Backed codec L n token cfg → Backed codec L { n with
      custody := custody, kept := kept, current := current, closed := closed, history := new ++ n.history } token cfg :=
    fun token cfg hback => ⟨hback.1.trans hgen.ge, hback.2⟩
  refine ⟨fun hpos => ?_, fun e he token cfg hcfg => hbacked token cfg ?_, hkept, fun i call hcall => ?_⟩
  · exact (hgen ▸ hhash ▸ h.custody (hgen ▸ hpos) : L custody.generation = custody.configHash)
  · rcases List.mem_append.1 he with he | he
    · exact hinstalled e he token cfg hcfg
    · exact h.installed e he token cfg hcfg
  · exact (h.calls i call hcall).mono ⟨new, rfl⟩ hbacked fun hmu => ⟨hmu, hgen⟩

theorem setCall {call : Call D} (hcall : CallOk codec L n i call) : Ledger codec L (n.setCall i call) := by
  refine { h with calls := fun j call' hlookup => ?_ }
  exact (Index.forall_insert h.calls hcall j call' hlookup).mono ⟨[], rfl⟩ (fun _ _ hback => hback) fun hmu =>
    ⟨hmu, rfl⟩

theorem finish (i : ℕ) (error : Option Error) : Ledger codec L (n.finish i error) := by
  refine { h with calls := fun j call hlookup => ?_ }
  simp only [Node.finish, Index.lookup_insert_if] at hlookup
  split_ifs at hlookup with hj
  · cases hlookup
    exact trivial
  · refine (h.calls j call hlookup).mono ⟨[], rfl⟩ (fun _ _ hback => hback) fun hmu => ⟨?_, rfl⟩
    have hne : ¬n.updateMu = some i := by
      rw [hmu]
      exact fun heq => hj (Option.some.inj heq)
    exact (if_neg hne).trans hmu

/-- nobody holds updateMu -/
theorem acquire (hfree : n.updateMu = none) (i : ℕ) : Ledger codec L { n with updateMu := some i } :=
  { h with
    calls := fun j call hlookup => (h.calls j call hlookup).mono ⟨[], rfl⟩ (fun _ _ hback => hback)
      fun hmu => (nomatch hfree.symm.trans hmu) }

theorem drop : Ledger codec L n.drop :=
  h.grow rfl rfl [] nofun h.kept

theorem save (token : String) (access : Access) : Ledger codec L (n.save token access) := by
  unfold Node.save
  split_ifs with hwritten htoken
  · exact h.grow rfl rfl [] nofun fun hne => absurd htoken hne
  · refine h.grow rfl rfl [.kept] (fun e hin => ?_) fun _ _ => rfl
    rw [List.mem_singleton.1 hin]
    nofun
  · exact h

theorem install {token : String} {cfg : NetworkConfiguration} (hback : Backed codec L n token cfg) {e : Event}
    (he : e.installed = some (token, cfg)) (replaced : Bool) : Ledger codec L (n.install cfg e replaced) := by
  unfold Node.install
  split_ifs
  · refine h.grow rfl rfl [e] (fun e' hin token' cfg' hcfg => ?_) fun hkept => (h.kept hkept).append ?_
    · rw [List.mem_singleton.1 hin, he] at hcfg
      cases hcfg
      exact hback
    · rw [List.mem_singleton]
      rintro rfl
      cases he
  · exact h.drop

end Ledger

/-- two tokens of one generation have the same document, since no two documents have the same hash -/
theorem Backed.same (hsha : Function.Injective codec.sha256) {token token' : String} {cfg cfg' : NetworkConfiguration}
    (h : Backed codec L n token cfg) (h' : Backed codec L n token' cfg') (hgen : cfg'.generation = cfg.generation) :
    codec.document token' = codec.document token ∧ cfg' = cfg := by
  obtain ⟨-, body, hdoc, hcfg, hL⟩ := h
  obtain ⟨-, body', hdoc', hcfg', hL'⟩ := h'
  rw [hgen, hL] at hL'
  have hbody : body = body' := hsha (Option.some.inj hL')
  subst hbody
  exact ⟨hdoc'.trans hdoc.symm, Option.some.inj (hcfg'.symm.trans hcfg)⟩

variable [DecidableEq D]

variable {hash : D}

theorem restorable_custody {cfg : NetworkConfiguration} {custody : PeerNetworkState D}
    (h : restorable codec custody cfg hash = true) :
    cfg.generation = custody.generation ∧ custody.configHash = some hash := by
  simp only [restorable, Bool.and_eq_true, beq_iff_eq] at h
  exact ⟨h.1.1.1.2, h.1.1.1.1.symm⟩

/-- a call that was not revoked installs when no refusal is pending -/
theorem refusalPending_of_not_revoked {loadedAt : ℕ} (hearned : Earned (upTo history loadedAt))
    (h : ¬Revoked history loadedAt) : refusalPending history = false := by
  by_contra hpending
  have hpending : refusalPending history = true := by simpa using hpending
  refine h ⟨hpending, ?_⟩
  rw [← since_append_upTo history loadedAt] at hpending
  exact (refusalPending_append hpending).imp_right hearned

section

variable (h : Ledger codec L n)
include h

variable {cfg : NetworkConfiguration} {token : String}

/-- Apply writes custody: the ledger has its generation -/
theorem Ledger.record {verifiedAt : ℕ}
    (hcall : CallOk codec L n i (.verified token cfg hash verifiedAt)) (hfree : n.updateMu = none) (access : Access) :
    ∃ L', Ledger codec L' (({ n with
      custody := (updatePeerNetworkState access n.custody (admits codec cfg hash)).1
      updateMu := some i } : Node D).setCall i
        (.recorded token cfg (updatePeerNetworkState access n.custody (admits codec cfg hash)).2 verifiedAt)) := by
  rcases update_cases access n.custody (admits codec cfg hash) with ⟨e, he⟩ | ⟨s', key, hadmits, hs', -, -⟩
  · rw [he]
    refine ⟨L, (h.acquire hfree i).setCall ⟨rfl, fun key hkey => ?_⟩⟩
    cases hkey
  · rw [hs']
    obtain ⟨hpos, body, hdoc, hcfg, rfl⟩ := hcall
    obtain ⟨hle, hsame, hgen, hhash⟩ := admit_ok hadmits
    set L' : ℕ → Option D := fun g => if g = cfg.generation then some (codec.sha256 body) else L g with hL'
    -- at the generation custody already has, the ledger has the hash of this document
    have hold : ∀ g ≤ n.custody.generation, ∀ d, L g = some d → L' g = some d := by
      intro g hg d hd
      rw [hL']
      by_cases hgc : g = cfg.generation
      · have hgn : g = n.custody.generation := le_antisymm hg (hgc ▸ hle)
        have hd' := h.custody (hgn ▸ hgc ▸ hpos)
        rw [hsame (hgc.symm.trans hgn), ← hgn, hd] at hd'
        dsimp only
        rw [if_pos hgc]
        exact hd'.symm
      · dsimp only
        rw [if_neg hgc]
        exact hd
    set n' : Node D := { n with custody := s', updateMu := some i } with hn'
    have hbacked : ∀ token' cfg', Backed codec L n token' cfg' → Backed codec L' n' token' cfg' := by
      rintro token' cfg' ⟨hgen', body', hdoc', hcfg', hL⟩
      exact ⟨hgen'.trans (hle.trans hgen.ge), body', hdoc', hcfg', hold _ hgen' _ hL⟩
    have hledger : Ledger codec L' n' := by
      refine ⟨fun _ => ?_, fun e he token' cfg' hcfg' => hbacked _ _ (h.installed e he token' cfg' hcfg'), h.kept,
        fun j call hlookup => (h.calls j call hlookup).mono ⟨[], rfl⟩ hbacked fun hmu => (nomatch hfree.symm.trans hmu)⟩
      rw [hgen, hhash]
      exact if_pos rfl
    refine ⟨L', hledger.setCall ⟨rfl, fun _ _ => ⟨hgen.symm, hgen.ge, body, hdoc, hcfg, if_pos rfl⟩⟩⟩

omit [DecidableEq D] in
/-- a refusal empties what is kept -/
theorem Ledger.revoke (access : Access) : Ledger codec L (n.revoke access) := by
  have hrefused : ∀ e ∈ [Event.refused], ∀ token cfg, e.installed = some (token, cfg) → Backed codec L n token cfg := by
    intro e he
    rw [List.mem_singleton.1 he]
    nofun
  cases access with
  | ok => exact h.grow rfl rfl [.refused] hrefused fun hne => absurd rfl hne
  | unavailable | unwritten => exact h
  | late => exact h.grow rfl rfl [] nofun fun hne => absurd rfl hne

/-- a token that agrees with custody is the document of its generation -/
theorem Ledger.restorable (hpos : 0 < cfg.generation)
    (hdocument : ∃ body, codec.document token = some body ∧ codec.configuration body = some cfg ∧
      hash = codec.sha256 body)
    (hrestorable : restorable codec n.custody cfg hash = true) : Backed codec L n token cfg := by
  obtain ⟨body, hdoc, hcfg, rfl⟩ := hdocument
  obtain ⟨hgen, hhash⟩ := restorable_custody hrestorable
  refine ⟨hgen.le, body, hdoc, hcfg, ?_⟩
  rw [hgen, h.custody (hgen ▸ hpos)]
  exact hhash

theorem Ledger.step (op : Op) : ∃ L', Ledger codec L' (n.step codec options op) := by
  cases op with
  | apply i token now keys done =>
    simp only [Node.step]
    repeat' split
    all_goals try exact ⟨L, h⟩
    all_goals try exact ⟨L, h.finish i _⟩
    next cfg hash hverify => exact ⟨L, h.setCall ⟨verify_generation hverify, verify_document hverify⟩⟩
  | applyCustody i access =>
    simp only [Node.step]
    split
    next token cfg hash verifiedAt hcall =>
      split_ifs with hheld
      · exact ⟨L, h⟩
      · exact ⟨L, h.finish i _⟩
      · exact h.record (h.calls i _ hcall) (Option.not_isSome_iff_eq_none.1 hheld) access
    · exact ⟨L, h⟩
  | applySave i access =>
    simp only [Node.step]
    split
    next token cfg key verifiedAt hcall =>
      refine ⟨L, (h.save token access).setCall ?_⟩
      exact (h.save token access).calls i (.recorded token cfg (.ok key) verifiedAt)
        (by rw [Node.save_calls]; exact hcall)
    next token cfg e verifiedAt hcall =>
      have hheld : CallOk codec L n i (.saved token cfg (.error e) verifiedAt) :=
        h.calls i (.recorded token cfg (.error e) verifiedAt) hcall
      exact ⟨L, h.setCall hheld⟩
    · exact ⟨L, h⟩
  | applyInstall i done now replaced =>
    simp only [Node.step]
    split
    next token cfg selected verifiedAt hcall =>
      rcases n.applyInstall_cases i token cfg selected verifiedAt done now replaced with
        ⟨e, he⟩ | ⟨e, he⟩ | ⟨key, e, ⟨hselected, -⟩, he⟩
      all_goals rw [he]
      · exact ⟨L, h.finish i _⟩
      · exact ⟨L, h.drop.finish i _⟩
      · exact ⟨L, (h.install ((h.calls i _ hcall).2 key hselected).2 rfl replaced).finish i _⟩
    · exact ⟨L, h⟩
  | refuseSave i access =>
    simp only [Node.step]
    split_ifs with hbusy
    · exact ⟨L, h⟩
    · simp only [Bool.or_eq_true, not_or, Option.not_isSome_iff_eq_none] at hbusy
      have hfree : (n.revoke access).updateMu = none := (n.save_updateMu "" access).trans hbusy.2
      have hcall : CallOk codec L ({ n.revoke access with updateMu := some i } : Node D) i .emptied := rfl
      exact ⟨L, ((h.revoke access).acquire hfree i).setCall hcall⟩
  | refuseDrop i =>
    simp only [Node.step]
    split
    · exact ⟨L, h.drop.finish i _⟩
    · exact ⟨L, h⟩
  | restoreLoad i ok =>
    simp only [Node.step]
    split_ifs
    · exact ⟨L, h⟩
    · exact ⟨L, h.finish i _⟩
    · refine ⟨L, h.setCall ⟨le_rfl, fun htoken => ?_⟩⟩
      rw [upTo_length]
      exact h.kept htoken
  | restoreRead i ok now =>
    simp only [Node.step]
    split
    next token loadedAt hcall =>
      obtain ⟨hle, hearned⟩ := h.calls i _ hcall
      repeat' split
      all_goals try exact ⟨L, h.finish i _⟩
      next htoken _ cfg hash hverify hrestorable =>
        refine ⟨L, h.setCall ⟨hle, hearned htoken, le_rfl, ?_, fun e he token' cfg' hcfg' => ?_⟩⟩
        · exact h.restorable (verify_generation hverify) (verify_document hverify) hrestorable
        · rw [upTo_length] at he
          rw [(restorable_custody hrestorable).1]
          exact (h.installed e he token' cfg' hcfg').1
    · exact ⟨L, h⟩
  | restoreInstall i replaced =>
    simp only [Node.step]
    split
    next token cfg loadedAt readAt hcall =>
      obtain ⟨-, -, -, hback, -⟩ := h.calls i _ hcall
      split_ifs
      · exact ⟨L, h⟩
      · rcases n.restoreInstall_cases i token cfg replaced with ⟨e, he⟩ | ⟨e, -, -, he⟩
        all_goals rw [he]
        · exact ⟨L, h.finish i _⟩
        · exact ⟨L, (h.install hback rfl replaced).finish i _⟩
    · exact ⟨L, h⟩
  | prepareKey i rotate fresh access =>
    simp only [Node.step]
    split_ifs
    · exact ⟨L, h⟩
    · exact ⟨L, h.finish i _⟩
    · have hstaged : Ledger codec L
          { n with custody := (updatePeerNetworkState access n.custody (stageKey codec rotate fresh)).1 } := by
        rcases update_cases access n.custody (stageKey codec rotate fresh) with
          ⟨e, he⟩ | ⟨s', result, hstage, hs', -, -⟩
        · rw [he]
          exact h
        · rw [hs']
          obtain ⟨hgen, hhash⟩ := stageKey_ok hstage
          exact h.grow hgen hhash [] nofun h.kept
      exact ⟨L, hstaged.finish i _⟩
  | close =>
    simp only [Node.step]
    split_ifs
    · exact ⟨L, h⟩
    · exact ⟨L, h.grow rfl rfl [] nofun h.kept⟩
  | restart =>
    exact ⟨L, { h with calls := nofun }⟩

/-! ## What may be installed -/

variable (hsha : Function.Injective codec.sha256)
include hsha

omit [DecidableEq D] in
/-- what Apply installs is as new as custody, so it is the newest -/
theorem Ledger.newest_apply (hgen : cfg.generation = n.custody.generation) (hback : Backed codec L n token cfg) :
    Newest codec n.history token cfg := by
  intro e he token' cfg' hcfg'
  have hback' := h.installed e he token' cfg' hcfg'
  exact ⟨hback'.1.trans hgen.ge, hback.same hsha hback'⟩

omit [DecidableEq D] in
/-- what Restore installs is the newest, if the call was not overtaken -/
theorem Ledger.newest_restore {loadedAt readAt : ℕ} (hcall : CallOk codec L n i (.read token cfg loadedAt readAt))
    (hclear : ¬Overtaken n.history readAt cfg) : Newest codec n.history token cfg := by
  obtain ⟨-, -, -, hback, hbefore⟩ := hcall
  intro e he token' cfg' hcfg'
  refine ⟨?_, hback.same hsha (h.installed e he token' cfg' hcfg')⟩
  rw [← since_append_upTo n.history readAt, List.mem_append] at he
  rcases he with he | he
  · by_contra hlt
    exact hclear ⟨e, he, token', cfg', hcfg', not_le.1 hlt⟩
  · exact hbefore e he token' cfg' hcfg'

theorem Forward.step (hforward : Forward codec n.history) {op : Op}
    (hclear : n.Clear op) : Forward codec (n.step codec options op).history := by
  cases op with
  | applySave i access =>
    simp only [Node.step, Node.save]
    repeat' split
    any_goals exact hforward
    exact ⟨trivial, hforward⟩
  | applyInstall i done now replaced =>
    simp only [Node.step]
    split
    next token cfg selected verifiedAt hcall =>
      rcases n.applyInstall_cases i token cfg selected verifiedAt done now replaced with
        ⟨e, he⟩ | ⟨e, he⟩ | ⟨key, e, ⟨rfl, hclosed, hdone, htime⟩, he⟩
      all_goals rw [he]
      · exact hforward
      · exact hforward
      · obtain ⟨hgen, hback⟩ := (h.calls i _ hcall).2 key rfl
        cases replaced with
        | false => exact hforward
        | true =>
          exact ⟨⟨h.newest_apply hsha hgen hback, hclear token cfg key verifiedAt hcall hclosed hdone htime⟩, hforward⟩
    · exact hforward
  | refuseSave i access =>
    simp only [Node.step]
    split_ifs
    · exact hforward
    · change Forward codec (if access = .ok then .refused :: n.history else n.history)
      split_ifs
      · exact ⟨trivial, hforward⟩
      · exact hforward
  | restoreInstall i replaced =>
    simp only [Node.step]
    split
    next token cfg loadedAt readAt hcall =>
      split_ifs with hheld
      · exact hforward
      · rcases n.restoreInstall_cases i token cfg replaced with ⟨e, he⟩ | ⟨e, hclosed, hcurrent, he⟩
        all_goals rw [he]
        · exact hforward
        · cases replaced with
          | false => exact hforward
          | true =>
            have hok := h.calls i _ hcall
            obtain ⟨hovertaken, hrevoked⟩ := hclear token cfg loadedAt readAt hcall
              (Option.not_isSome_iff_eq_none.1 hheld) hclosed hcurrent
            exact ⟨⟨h.newest_restore hsha hok hovertaken, refusalPending_of_not_revoked hok.2.1 hrevoked⟩, hforward⟩
    · exact hforward
  | apply | applyCustody | refuseDrop | restoreLoad | restoreRead | prepareKey | close | restart =>
    -- nothing is kept, refused or installed
    simp only [Node.step]
    repeat' split
    all_goals exact hforward

end

/-- an Apply that installs in order was not refused, and a Restore neither overtaken nor revoked -/
theorem Forward.clear {op : Op} (hforward : Forward codec (n.step codec options op).history) : n.Clear op := by
  cases op with
  | applyInstall i done now replaced =>
    cases replaced with
    | false => exact trivial
    | true =>
      intro token cfg key verifiedAt hcall hclosed hdone htime
      have hhistory : (n.step codec options (.applyInstall i done now true)).history =
          .applied token cfg verifiedAt :: n.history := by
        simp only [Node.step, hcall, Node.applyInstall, hclosed, hdone, not_le.2 htime]
        rfl
      rw [hhistory] at hforward
      exact hforward.1.2
  | restoreInstall i replaced =>
    cases replaced with
    | false => exact trivial
    | true =>
      intro token cfg loadedAt readAt hcall hfree hclosed hcurrent
      have hhistory : (n.step codec options (.restoreInstall i true)).history = .restored token cfg :: n.history := by
        simp only [Node.step, hcall, hfree, Node.restoreInstall, hclosed, hcurrent]
        rfl
      rw [hhistory] at hforward
      obtain ⟨⟨hnewest, hpending⟩, -⟩ := hforward
      refine ⟨?_, fun hrevoked => ?_⟩
      · rintro ⟨e, he, token', cfg', hcfg', hlt⟩
        have hin : e ∈ n.history := List.mem_of_mem_take he
        exact absurd (hnewest e hin token' cfg' hcfg').1 (not_le.2 hlt)
      · rw [hrevoked.1] at hpending
        cases hpending
  | _ => exact trivial

end Run

/-- **Nothing older and nothing refused is installed again.** For any decoders, options and run, with a SHA-256 that no
two documents share: what is installed never goes back to an older generation, is one document for each generation, and
after a refusal waits for an Apply that verified its token later, exactly if no Apply that gets to install was refused
since it verified, and every Restore that gets to install was neither overtaken nor revoked. -/
theorem installed_forward_iff {D : Type} [DecidableEq D] (codec : Codec D) (hsha : Function.Injective codec.sha256)
    (options : AuthorityOptions) (ops : List Op) :
    (∀ pre, pre <+: ops → Forward codec (run (step codec options) {} pre).history) ↔
      Throughout (step codec options) {} Clear ops :=
  always_iff_throughout_of (step codec options) {}
    (I := fun n => Forward codec n.history ∧ ∃ L, Ledger codec L n)
    (Q := fun n => Forward codec n.history) ⟨trivial, _, Ledger.init⟩ (fun _ h => h.1)
    (fun _ op h hclear => by
      obtain ⟨hforward, L, hledger⟩ := h
      exact ⟨Forward.step hledger hsha hforward hclear, hledger.step op⟩)
    (fun _ _ _ hforward => hforward.clear) ops

/-! ## A configuration after a restart -/

section Restart

variable {D : Type} [DecidableEq D] {codec : Codec D} {options : AuthorityOptions} {n : Node D} {token : String}
  {cfg : NetworkConfiguration} {now : ℤ}

/-- Apply of a token whose accesses to the store all go well -/
def applyStored (i : ℕ) (token : String) (now installed : ℤ) (keys : String → Option (List UInt8)) : List Op :=
  [.apply i token now keys false, .applyCustody i .ok, .applySave i .ok, .applyInstall i false installed true]

/-- a restart, and a Restore -/
def restartAndRestore (i : ℕ) (now : ℤ) : List Op :=
  [.restart, .restoreLoad i true, .restoreRead i true now, .restoreInstall i true]

/-- no Apply writes custody or the kept token, and no refusal empties it -/
def Op.quiet : Op → Bool
  | .applyCustody _ _ | .applySave _ _ | .refuseSave _ _ => false
  | _ => true

variable (codec options) in
/-- the kept token was verified at `now`, and custody is that of its document -/
structure Node.Restores (n : Node D) (token : String) (cfg : NetworkConfiguration) (now : ℤ) : Prop where
  kept : n.kept = token
  document : ∃ keys hash, verify codec options keys token now false = .ok (cfg, hash) ∧
    restorable codec n.custody cfg hash = true

/-- what Apply makes of custody agrees with its document -/
theorem restorable_of_admits {hash : D} {s s' : PeerNetworkState D} {key : List UInt8}
    (h : admits codec cfg hash s = .ok (s', key)) : restorable codec s' cfg hash = true := by
  unfold admits at h
  split_ifs at h with hstale hother haddress hkey hpending
  · cases h
    simp [restorable, hkey]
  · cases h
    simp [restorable, hpending]

/-- a new staged key is not the one in use -/
theorem restorable_of_stageKey {hash : D} {s s' : PeerNetworkState D} {rotate : Bool} {fresh : List UInt8}
    {result : String × ℕ} (h : stageKey codec rotate fresh s = .ok (s', result)) :
    restorable codec s' cfg hash = restorable codec s cfg hash := by
  unfold stageKey at h
  dsimp only at h
  split_ifs at h <;> cases h <;> rfl

theorem Node.Restores.step (h : n.Restores codec options token cfg now) {op : Op} (hop : op.quiet = true) :
    (n.step codec options op).Restores codec options token cfg now := by
  cases op with
  | applyCustody | applySave | refuseSave => cases hop
  | prepareKey i rotate fresh access =>
    simp only [Node.step]
    split_ifs
    · exact h
    · exact { h with }
    · obtain ⟨keys, hash, hverify, hrestorable⟩ := h.document
      refine ⟨h.kept, keys, hash, hverify, ?_⟩
      change Node.restorable codec
        (updatePeerNetworkState access n.custody (stageKey codec rotate fresh)).1 cfg hash = true
      rcases update_cases access n.custody (stageKey codec rotate fresh) with ⟨e, he⟩ | ⟨s', result, hstage, hs', -, -⟩
      · rwa [he]
      · rw [hs', restorable_of_stageKey hstage]
        exact hrestorable
  | _ =>
    -- neither custody nor the kept token is written
    simp only [Node.step, Node.applyInstall, Node.restoreInstall, Node.install]
    repeat' split
    all_goals exact { h with }

/-- a kept token comes back -/
theorem Node.Restores.restart (h : n.Restores codec options token cfg now) {later : ℤ} (hlater : now ≤ later) (j : ℕ) :
    (run (Node.step codec options) n (restartAndRestore j later)).current = some cfg := by
  obtain ⟨keys, hash, hverify, hrestorable⟩ := h.document
  have hagain := verify_restored hverify hlater fun _ => none
  obtain ⟨hsize, hheader, -⟩ := verify_ok hverify
  have hne : token ≠ "" := by
    rintro rfl
    simp [Codec.headerOf, Text.split] at hheader
  set fresh : Node D := { custody := n.custody, kept := n.kept, history := n.history } with hfresh
  have hload : fresh.step codec options (.restoreLoad j true) = fresh.setCall j (.loaded token n.history.length) := by
    simp [Node.step, hfresh, h.kept, not_lt.2 hsize]
  have hread : (fresh.setCall j (.loaded token n.history.length)).step codec options (.restoreRead j true later) =
      (fresh.setCall j (.loaded token n.history.length)).setCall j
        (.read token cfg n.history.length n.history.length) := by
    simp only [Node.step, Node.setCall, AList.lookup_insert, Bool.not_true, Bool.false_eq_true, if_false, hne, hagain]
    exact if_pos hrestorable
  change (((fresh.step codec options (.restoreLoad j true)).step codec options (.restoreRead j true later)).step codec
    options (.restoreInstall j true)).current = some cfg
  rw [hload, hread]
  simp only [Node.step, Node.setCall, AList.lookup_insert]
  rfl

omit [DecidableEq D] in
theorem finish_returned (n : Node D) (i : ℕ) (e : Option Error) : (n.finish i e).calls.lookup i = some (.returned e) :=
  AList.lookup_insert _

omit [DecidableEq D] in
/-- an install that returns without an error -/
theorem applyInstall_returned {i v : ℕ} {installed : ℤ} {selected : Except Error (List UInt8)}
    (hok : (n.applyInstall i token cfg selected v false installed true).calls.lookup i = some (.returned none)) :
    (∃ key, selected = .ok key) ∧ ∃ e, n.applyInstall i token cfg selected v false installed true =
      (n.install cfg (.applied token cfg v) true).finish i e := by
  rcases n.applyInstall_cases i token cfg selected v false installed true with
    ⟨e, he⟩ | ⟨e, he⟩ | ⟨key, e, ⟨hselected, -⟩, he⟩
  · rw [he, finish_returned] at hok
    cases hok
  · rw [he, finish_returned] at hok
    cases hok
  · exact ⟨⟨key, hselected⟩, e, he⟩

/-- an Apply that returns without an error has kept what it installed -/
theorem applyStored_restores {i : ℕ} {installed : ℤ} {keys : String → Option (List UInt8)}
    (hnew : n.calls.lookup i = none)
    (hok : (run (step codec options) n (applyStored i token now installed keys)).calls.lookup i =
      some (.returned none)) :
    ∃ cfg, (run (step codec options) n (applyStored i token now installed keys)).current = some cfg ∧
      (run (step codec options) n (applyStored i token now installed keys)).Restores codec options token cfg
        now := by
  unfold applyStored at hok ⊢
  simp only [run, List.foldl_cons, List.foldl_nil] at hok ⊢
  cases hverify : verify codec options keys token now false with
  | error e => simp [step, hnew, hverify, finish_returned] at hok
  | ok result =>
    obtain ⟨cfg, hash⟩ := result
    have happly : n.step codec options (.apply i token now keys false) =
        n.setCall i (.verified token cfg hash n.history.length) := by
      simp [step, hnew, hverify]
    rw [happly] at hok ⊢
    simp only [step, setCall, AList.lookup_insert] at hok ⊢
    by_cases hheld : n.updateMu.isSome = true
    · simp [hheld] at hok
    by_cases hclosed : n.closed = true
    · simp [hheld, hclosed, finish_returned] at hok
    simp only [hheld, hclosed, Bool.false_eq_true, if_false, AList.lookup_insert] at hok ⊢
    cases hselected : (updatePeerNetworkState .ok n.custody (admits codec cfg hash)).2 with
    | error e =>
      simp only [hselected, AList.lookup_insert] at hok
      obtain ⟨⟨key, hkey⟩, -⟩ := applyInstall_returned hok
      cases hkey
    | ok key =>
      simp only [hselected, AList.lookup_insert] at hok ⊢
      obtain ⟨-, e, he⟩ := applyInstall_returned hok
      rw [he]
      refine ⟨cfg, rfl, rfl, keys, hash, hverify, ?_⟩
      rcases update_cases .ok n.custody (admits codec cfg hash) with ⟨e', he'⟩ | ⟨s', key', hadmits, hs', -, -⟩
      · rw [he'] at hselected
        cases hselected
      · exact hs' ▸ restorable_of_admits hadmits

/-- **A configuration comes back.** From any state of a node: if an Apply whose accesses to the store go well returns
without an error, then after anything but another write of custody or of the kept token, a restart and a Restore at any
later time install the same configuration again, expired or not and whatever signing keys are known. -/
theorem restart_restores (n : Node D) {i : ℕ} {installed : ℤ} {keys : String → Option (List UInt8)}
    (hnew : n.calls.lookup i = none)
    (hok : (run (Node.step codec options) n (applyStored i token now installed keys)).calls.lookup i =
      some (.returned none))
    {more : List Op} (hmore : ∀ op ∈ more, op.quiet = true) {later : ℤ} (hlater : now ≤ later) (j : ℕ) :
    ∃ cfg, (run (Node.step codec options) n (applyStored i token now installed keys)).current = some cfg ∧
      (run (Node.step codec options) n
        (applyStored i token now installed keys ++ more ++ restartAndRestore j later)).current = some cfg := by
  obtain ⟨cfg, hcurrent, hrestores⟩ := applyStored_restores hnew hok
  refine ⟨cfg, hcurrent, ?_⟩
  rw [run_append, run_append]
  have hkept := Fold.foldl_inv (fun n : Node D => n.Restores codec options token cfg now) (Node.step codec options) more
    (fun _ op hop h => h.step (hmore op hop)) _ hrestores
  exact hkept.restart hlater j

end Restart

/-! ## Runs of one machine -/

def machineBinding : NetworkBinding where
  accountID := "a"
  endpointID := "m"
  role := "machine"
  machineID := "m"
  endpointGeneration := 1
  machineGeneration := 1
  keyGeneration := 1
  wireGuardPublicKey := "wg"
  quicCertificateFingerprint := "0123456789abcdef0123456789abcdef"
  quicPublicKey := "0123456789abcdef0123456789abcdef"

def withoutPeers (generation : ℕ) : NetworkConfiguration where
  version := 1
  issuer := "https://paperboat"
  audience := "paperboat-network"
  issuedAt := 1
  expiresAt := 100
  generation := generation
  self := machineBinding
  peers := []

/-- texts stand for their own bytes, documents for their own hashes, and the documents are "1" and "2" -/
def textCodec : Codec (List UInt8) where
  base64 := fun s => some (s.toList.map fun c => UInt8.ofNat c.toNat)
  hex := fun s => some (s.toList.map fun c => UInt8.ofNat c.toNat)
  header := fun _ => some ⟨"EdDSA", "paperboat-network-config+jwt", "k"⟩
  configuration := fun body =>
    if body = [49] then some (withoutPeers 1) else if body = [50] then some (withoutPeers 2) else none
  signed := fun _ _ _ => true
  sha256 := id
  publicKey := fun _ => true
  discoKey := fun _ => true
  virtualAddress := fun _ => true
  endpoint := fun _ => true
  publicText := fun _ => "wg"

def machineOptions : AuthorityOptions := ⟨"https://paperboat", machineBinding⟩

def signingKey : String → Option (List UInt8) := fun _ => some (List.replicate 32 0)

/-- a key is staged, the first configuration is applied, and the daemon restarts -/
def appliedAndRestarted : List Op :=
  .prepareKey 0 false (List.replicate 31 0 ++ [64]) .ok :: applyStored 1 "h.1.s" 10 10 signingKey ++ [.restart]

/-- the first configuration comes back after it has expired, and the second one is applied after a refusal -/
def restoredAndRefused : List Op :=
  appliedAndRestarted ++ [.restoreLoad 2 true, .restoreRead 2 true 200, .restoreInstall 2 true, .refuseSave 3 .ok,
    .refuseDrop 3] ++ applyStored 4 "h.2.s" 20 20 signingKey

theorem restoredAndRefused_forward : Function.Injective textCodec.sha256 ∧
    (run (step textCodec machineOptions) {} restoredAndRefused).current = some (withoutPeers 2) ∧
    ((∀ pre, pre <+: restoredAndRefused →
        Forward textCodec (run (step textCodec machineOptions) {} pre).history) ↔
      Throughout (step textCodec machineOptions) {} Clear restoredAndRefused) :=
  ⟨Function.injective_id, by decide +kernel,
    installed_forward_iff textCodec Function.injective_id machineOptions restoredAndRefused⟩

/-- between the reads of a Restore and its locks a newer configuration is applied and the server refuses -/
def restoreOvertaken : List Op :=
  appliedAndRestarted ++ [.restoreLoad 2 true, .restoreRead 2 true 10] ++ applyStored 3 "h.2.s" 10 10 signingKey ++
    [.refuseSave 4 .ok, .refuseDrop 4, .restoreInstall 2 true]

/-- between the verification of an Apply and its lock the server refuses -/
def applyRefused : List Op :=
  [.prepareKey 0 false (List.replicate 31 0 ++ [64]) .ok, .apply 1 "h.1.s" 10 signingKey false, .refuseSave 2 .ok,
    .refuseDrop 2, .applyCustody 1 .ok, .applySave 1 .ok, .applyInstall 1 false 10 true]

/-- The first configuration is installed after the second, and after the refusal; and an Apply that had verified its
token before a refusal installs it afterwards. -/
theorem restore_rolls_back :
    (run (step textCodec machineOptions) {} restoreOvertaken).history =
      [.restored "h.1.s" (withoutPeers 1), .refused, .applied "h.2.s" (withoutPeers 2) 2, .kept,
        .applied "h.1.s" (withoutPeers 1) 0, .kept] ∧
    ¬Forward textCodec (run (step textCodec machineOptions) {} restoreOvertaken).history ∧
    (run (step textCodec machineOptions) {} applyRefused).history =
      [.applied "h.1.s" (withoutPeers 1) 0, .kept, .refused] ∧
    ¬Forward textCodec (run (step textCodec machineOptions) {} applyRefused).history := by
  have hrestore : (run (step textCodec machineOptions) {} restoreOvertaken).history =
      [.restored "h.1.s" (withoutPeers 1), .refused, .applied "h.2.s" (withoutPeers 2) 2, .kept,
        .applied "h.1.s" (withoutPeers 1) 0, .kept] := by
    decide +kernel
  have happly : (run (step textCodec machineOptions) {} applyRefused).history =
      [.applied "h.1.s" (withoutPeers 1) 0, .kept, .refused] := by
    decide +kernel
  refine ⟨hrestore, fun hforward => ?_, happly, fun hforward => ?_⟩
  · have hpending := hforward.1.2
    cases hpending
  · rw [happly] at hforward
    exact hforward.1.2 ⟨rfl, by simp [since]⟩

/-- **One document for each generation.** In every run, overtaken Restores included, two tokens of one generation that
were ever installed carry one document, and custody is not behind what was installed. -/
theorem installed_agree {D : Type} [DecidableEq D] (codec : Codec D) (hsha : Function.Injective codec.sha256)
    (options : AuthorityOptions) (ops : List Op) {token token' : String}
    {cfg cfg' : NetworkConfiguration} {e d : Event} :
    let n := run (step codec options) {} ops
    e ∈ n.history → d ∈ n.history → e.installed = some (token, cfg) → d.installed = some (token', cfg') →
      cfg.generation ≤ n.custody.generation ∧
        (cfg'.generation = cfg.generation → codec.document token' = codec.document token ∧ cfg' = cfg) := by
  intro n he hd hcfg hcfg'
  obtain ⟨L, h⟩ : ∃ L, Ledger codec L n :=
    run_inv (I := fun _ n => ∃ L, Ledger codec L n) _ _ ⟨_, .init⟩ (fun _ op h => h.elim fun _ h => h.step op) ops
  have hback := h.installed e he token cfg hcfg
  exact ⟨hback.1, hback.same hsha (h.installed d hd token' cfg' hcfg')⟩

theorem restoreOvertaken_agree : (withoutPeers 1).generation ≤
    (run (step textCodec machineOptions) {} restoreOvertaken).custody.generation :=
  (installed_agree textCodec Function.injective_id machineOptions restoreOvertaken
    (e := .restored "h.1.s" (withoutPeers 1)) (d := .applied "h.1.s" (withoutPeers 1) 0) (by decide +kernel)
    (by decide +kernel) rfl rfl).1

/-- the first configuration is back after a new key was staged and after it has expired -/
theorem restart_restores_expired :
    ∃ cfg, (run (step textCodec machineOptions)
        (step textCodec machineOptions {} (.prepareKey 0 false (List.replicate 31 0 ++ [64]) .ok))
        (applyStored 1 "h.1.s" 10 10 signingKey)).current = some cfg ∧
      (run (step textCodec machineOptions)
        (step textCodec machineOptions {} (.prepareKey 0 false (List.replicate 31 0 ++ [64]) .ok))
        (applyStored 1 "h.1.s" 10 10 signingKey ++ [.prepareKey 5 true (List.replicate 31 8 ++ [64]) .ok] ++
          restartAndRestore 2 1000)).current = some cfg :=
  restart_restores _ (by decide +kernel) (by decide +kernel) (by decide) (by decide) 2

end Paperboat.Tailnet
