/-
The route registry (`tunnel/internal/route/route.go`): attachments by ID, the owner of
each host, and for each host a channel that is closed when its route may have changed.

One operation is one call under the lock. Channels are never freed: a channel is the
number of its allocation. The registry's matcher is the generation registry of its own
modules.

Results:
- `Registry.Inv`: the hosts are the inverse of the attachments, and the channels callers
  wait on are open;
- `attach_cases`, `replace_cases`: everything an operation can do;
- `attachments_consistent`: inverse, revisions, failures, and the notification, which
  holds just if the operation does not move an attached ID to another host.

Witnesses:
- `helperRoute_detach_wakes`: a detach wakes whoever waits for the host;
- `moved_unnoticed`: the host it moves away from is not notified.
-/
import Paperboat.Core.Index
import Paperboat.Core.Machine
import Paperboat.Route.Rules

namespace Paperboat.Route

open Text Machine Index

structure Attachment where
  id : String
  revision : ℕ
  environment : String
  node : String
  generation : ℕ
  configGeneration : ℕ := 0
  kind : Kind
  host : String
  target : String
  matchType : String := ""
  wildcardSuffix : String := ""
  pathPrefix : String := ""
  priority : Int := 0
  protocol : String := ""
  originScheme : String := ""
  preserveHost : Bool := false
  hostOverride : String := ""
  desiredState : String := ""
  previewState : String := ""
  previewReason : String := ""
deriving DecidableEq, Repr

inductive AttachError where
  | invalid
  | stale
  | conflict
deriving DecidableEq, Repr

structure Registry where
  previewBaseDomain : String
  runtimeBaseDomain : String
  byID : AList (fun _ : String => Attachment) := ∅
  byHost : AList (fun _ : String => String) := ∅
  /-- the open channel of a host; channels are allocated below `nextChannel` -/
  changed : AList (fun _ : String => ℕ) := ∅
  nextChannel : ℕ := 0
  closedChannels : List ℕ := []

/-- an attachment without its preview state -/
def Attachment.routed (a : Attachment) : Attachment := { a with previewState := "", previewReason := "" }

def sameRoute (a b : Attachment) : Bool := a.routed = b.routed

variable {b a : Attachment}

open Registry

section

variable (u : Unicode) (r : Registry)

def newRegistry (previewBaseDomain runtimeBaseDomain : String) : Registry :=
  { previewBaseDomain := normalizeHost u previewBaseDomain, runtimeBaseDomain := normalizeHost u runtimeBaseDomain }

def Registry.changedLocked (host : String) : Registry × ℕ :=
  match r.changed.lookup host with
  | some c => (r, c)
  | none => ({ r with changed := r.changed.insert host r.nextChannel, nextChannel := r.nextChannel + 1 }, r.nextChannel)

def Registry.signalChangedLocked (host : String) : Registry :=
  let (r, c) := r.changedLocked host
  { r with
    closedChannels := c :: r.closedChannels, changed := r.changed.insert host r.nextChannel
    nextChannel := r.nextChannel + 1 }

/-- the checks of Attach on an attachment with a normalized host -/
def Registry.attachable (a : Attachment) : Bool :=
  let expectedDomain := if a.kind = .helperHTTPSWSS then r.runtimeBaseDomain else r.previewBaseDomain
  a.id != "" && a.revision != 0 && a.environment != "" && a.node != "" && a.generation != 0 && a.host != "" &&
    a.target != "" && (a.kind == .helperHTTPSWSS || a.kind == .previewHTTPSWSS) && expectedDomain != "" &&
    match cutSuffix a.host ("." ++ expectedDomain) with
    | none => false
    | some label => label != "" && !contains label "."

/-- an attachment may not take the place of `current` -/
def staleFor (current a : Attachment) : Bool :=
  a.revision < current.revision || a.revision == current.revision && !sameRoute current a

/-- the end of Attach: the attachment is written and its host signalled -/
def Registry.put (a : Attachment) : Registry :=
  let owners := match r.byID.lookup a.id with
    | some current => r.byHost.erase current.host
    | none => r.byHost
  { r with byID := r.byID.insert a.id a, byHost := owners.insert a.host a.id }.signalChangedLocked a.host

def Registry.normalized (a : Attachment) : Attachment := { a with host := normalizeHost u a.host }

def Registry.attach (a : Attachment) : Registry × Except AttachError Attachment :=
  let a := normalized u a
  if r.attachable a = false then (r, .error .invalid)
  else if r.byID.lookup a.id = some a then (r, .ok a)
  else if ∃ current ∈ r.byID.lookup a.id, staleFor current a = true then (r, .error .stale)
  else if ∃ owner ∈ r.byHost.lookup a.host, owner ≠ a.id then (r, .error .conflict)
  else (r.put a, .ok a)

def Registry.detach (id : String) (revision : ℕ) : Registry × Except AttachError Unit :=
  match r.byID.lookup id with
  | none => (r, .ok ())
  | some a =>
    if revision ≠ a.revision then (r, .error .stale)
    else ({ r with byID := r.byID.erase id, byHost := r.byHost.erase a.host }.signalChangedLocked a.host, .ok ())

/-- some attachment of the next registry is stale for the current one of its ID -/
def Registry.staleIn (next : Registry) : Bool :=
  r.byID.entries.any fun entry => (next.byID.lookup entry.1).any fun replacement => staleFor entry.2 replacement

/-- hosts whose owner or route is another in the next registry -/
def Registry.changedHosts (next : Registry) : List String :=
  (r.byHost.entries.filter fun entry =>
    (next.byHost.lookup entry.1 != some entry.2) ||
      ((r.byID.lookup entry.2).map Attachment.routed != (next.byID.lookup entry.2).map Attachment.routed)).map
        Sigma.fst ++ (next.byHost.entries.filter fun entry => (r.byHost.lookup entry.1).isNone).map Sigma.fst

/-- the loop of Replace over the attachments -/
def Registry.attachAll (r : Registry) : List Attachment → Except AttachError Registry
  | [] => .ok r
  | a :: rest =>
    match r.attach u a with
    | (_, .error e) => .error e
    | (next, .ok _) => attachAll next rest

def Registry.replace (attachments : List Attachment) : Registry × Except AttachError Unit :=
  match (newRegistry u r.previewBaseDomain r.runtimeBaseDomain).attachAll u attachments with
  | .error e => (r, .error e)
  | .ok next =>
    if r.staleIn next then (r, .error .stale)
    else
      ((r.changedHosts next).foldl signalChangedLocked { r with byID := next.byID, byHost := next.byHost }, .ok ())

end

/-! ## Runs -/

inductive AttachOp where
  | attach (a : Attachment)
  | detach (id : String) (revision : ℕ)
  | replace (attachments : List Attachment)
  /-- Changed -/
  | watch (host : String)

section

variable (u : Unicode)

/-- one operation: the new state, and whether the caller gets an error -/
def Registry.perform (r : Registry) : AttachOp → Registry × Except AttachError Unit
  | .attach a => ((r.attach u a).1, (r.attach u a).2.map fun _ => ())
  | .detach id revision => r.detach id revision
  | .replace attachments => r.replace u attachments
  | .watch host => ((r.changedLocked (normalizeHost u host)).1, .ok ())

def Registry.step (r : Registry) (op : AttachOp) : Registry := (r.perform u op).1

/-- the registry after the operations -/
def attached (previewBaseDomain runtimeBaseDomain : String) (ops : List AttachOp) : Registry :=
  run (step u) (newRegistry u previewBaseDomain runtimeBaseDomain) ops

end

/-- the owner of a host and its route, whatever the preview state -/
def Registry.routeAt (r : Registry) (host : String) : Option (String × Attachment) :=
  (r.byHost.lookup host).bind fun id => (r.byID.lookup id).map fun a => (id, a.routed)

/-- whoever waits for the host when the operation is called is woken -/
def Registry.Wakes (u : Unicode) (r : Registry) (op : AttachOp) (host : String) : Prop :=
  (r.changedLocked host).2 ∈ ((r.changedLocked host).1.step u op).closedChannels

/-- an attachment with this normalized form moves an attached ID to a host nobody owns -/
def Registry.MovesTo (r : Registry) (a : Attachment) : Prop :=
  r.attachable a = true ∧ r.byHost.lookup a.host = none ∧
    ∃ current, r.byID.lookup a.id = some current ∧ current.revision < a.revision

def Registry.Moves (u : Unicode) (r : Registry) : AttachOp → Prop
  | .attach a => r.MovesTo (normalized u a)
  | _ => False

/-! ## Channels -/

/-- the channels callers wait on are open, one for each host -/
structure Channels (r : Registry) : Prop where
  waiting : ∀ h c, r.changed.lookup h = some c → c < r.nextChannel ∧ c ∉ r.closedChannels
  apart : ∀ h h' c, r.changed.lookup h = some c → r.changed.lookup h' = some c → h = h'
  closed : ∀ c ∈ r.closedChannels, c < r.nextChannel

section

variable {r : Registry} {host : String} {c : ℕ}

section

variable (host : String)

theorem changedLocked_eq :
    r.changedLocked host = (r, (r.changedLocked host).2) ∨
      r.changed.lookup host = none ∧ r.changedLocked host =
        ({ r with changed := r.changed.insert host r.nextChannel, nextChannel := r.nextChannel + 1 },
          r.nextChannel) := by
  unfold changedLocked
  cases h : r.changed.lookup host with
  | some c => exact .inl rfl
  | none => exact .inr ⟨rfl, rfl⟩

/-- a watch changes the channels only -/
@[simp] theorem changedLocked_keeps : (r.changedLocked host).1.byID = r.byID ∧
    (r.changedLocked host).1.byHost = r.byHost ∧ (r.changedLocked host).1.previewBaseDomain = r.previewBaseDomain ∧
    (r.changedLocked host).1.runtimeBaseDomain = r.runtimeBaseDomain ∧
    (r.changedLocked host).1.closedChannels = r.closedChannels := by
  rcases changedLocked_eq (r := r) host with h | ⟨_, h⟩ <;> rw [h] <;> exact ⟨rfl, rfl, rfl, rfl, rfl⟩

end

/-- a new channel for a host that has none, or in the place of the closed one -/
theorem Channels.renew (hr : Channels r) {closed : List ℕ}
    (hclosed : ∀ d ∈ closed, d ∈ r.closedChannels ∨ r.changed.lookup host = some d) :
    Channels { r with
      changed := r.changed.insert host r.nextChannel, nextChannel := r.nextChannel + 1, closedChannels := closed } := by
  have hlt (d : ℕ) (hd : d ∈ closed) : d < r.nextChannel := by
    rcases hclosed d hd with hd | hd
    · exact hr.closed d hd
    · exact (hr.waiting host d hd).1
  refine ⟨fun h c hc => ?_, fun h h' c hc hc' => ?_, fun d hd => Nat.lt_succ_of_lt (hlt d hd)⟩
  · simp only [lookup_insert_if] at hc
    split_ifs at hc with hh
    · cases hc
      exact ⟨Nat.lt_succ_self _, fun hd => (hlt _ hd).false⟩
    · refine ⟨Nat.lt_succ_of_lt (hr.waiting h c hc).1, fun hd => ?_⟩
      rcases hclosed c hd with hd | hd
      · exact (hr.waiting h c hc).2 hd
      · exact hh (hr.apart h host c hc hd)
  · simp only [lookup_insert_if] at hc hc'
    split_ifs at hc hc' with hh hh' hh'
    · rw [hh, hh']
    · cases hc
      exact absurd (hr.waiting h' _ hc').1 (lt_irrefl _)
    · cases hc'
      exact absurd (hr.waiting h _ hc).1 (lt_irrefl _)
    · exact hr.apart h h' c hc hc'

theorem Channels.changedLocked (hr : Channels r) (host : String) :
    Channels (r.changedLocked host).1 ∧
      (r.changedLocked host).1.changed.lookup host = some (r.changedLocked host).2 := by
  unfold Registry.changedLocked
  cases h : r.changed.lookup host with
  | some c => exact ⟨hr, h⟩
  | none => exact ⟨hr.renew fun d hd => .inl hd, AList.lookup_insert _⟩

@[simp] theorem signalChangedLocked_keeps (host : String) :
    (r.signalChangedLocked host).byID = r.byID ∧ (r.signalChangedLocked host).byHost = r.byHost :=
  ⟨(changedLocked_keeps host).1, (changedLocked_keeps host).2.1⟩

theorem Channels.signalChangedLocked (hr : Channels r) (host : String) : Channels (r.signalChangedLocked host) := by
  obtain ⟨hw, hc⟩ := hr.changedLocked host
  refine hw.renew fun d hd => ?_
  rcases List.mem_cons.1 hd with rfl | hd
  · exact .inr hc
  · exact .inl hd

/-- a signal for the host closes the channel -/
theorem mem_closed_signal (hc : r.changed.lookup host = some c) : c ∈ (r.signalChangedLocked host).closedChannels := by
  simp [signalChangedLocked, changedLocked, hc]

theorem closed_signal_subset (h : String) : r.closedChannels ⊆ (r.signalChangedLocked h).closedChannels := by
  intro d hd
  rw [← (changedLocked_keeps h).2.2.2.2] at hd
  exact List.mem_cons_of_mem _ hd

/-- a signal for another host leaves the channel as it is -/
theorem signal_other (hr : Channels r) {h : String} (hne : h ≠ host) (hc : r.changed.lookup host = some c) :
    (r.signalChangedLocked h).changed.lookup host = some c ∧ c ∉ (r.signalChangedLocked h).closedChannels := by
  obtain ⟨hw, hd⟩ := hr.changedLocked h
  have hkept : (r.changedLocked h).1.changed.lookup host = some c := by
    rcases changedLocked_eq (r := r) h with he | ⟨_, he⟩ <;> rw [he]
    · exact hc
    · exact (AList.lookup_insert_ne hne.symm).trans hc
  refine ⟨(AList.lookup_insert_ne hne.symm).trans hkept, fun hmem => ?_⟩
  rcases List.mem_cons.1 hmem with rfl | hmem
  · exact hne (hw.apart h host _ hd hkept)
  · exact (hw.waiting host c hkept).2 hmem

theorem Channels.signalAll (hr : Channels r) (hosts : List String) :
    Channels (hosts.foldl Registry.signalChangedLocked r) := by
  induction hosts generalizing r with
  | nil => exact hr
  | cons h hosts ih => exact ih (hr.signalChangedLocked h)

variable (hosts : List String)

theorem closed_signalAll_subset : r.closedChannels ⊆ (hosts.foldl signalChangedLocked r).closedChannels := by
  induction hosts generalizing r with
  | nil => exact fun _ => id
  | cons h hosts ih => exact List.Subset.trans (closed_signal_subset h) ih

theorem mem_closed_signalAll (hr : Channels r) (hosts : List String) (hhost : host ∈ hosts)
    (hc : r.changed.lookup host = some c) : c ∈ (hosts.foldl signalChangedLocked r).closedChannels := by
  induction hosts generalizing r with
  | nil => cases hhost
  | cons h hosts ih =>
    by_cases hh : h = host
    · subst hh
      exact closed_signalAll_subset hosts (mem_closed_signal hc)
    · exact ih (hr.signalChangedLocked h) ((List.mem_cons.1 hhost).resolve_left (Ne.symm hh)) (signal_other hr hh hc).1

@[simp] theorem signalAll_keeps : (hosts.foldl signalChangedLocked r).byID = r.byID ∧
    (hosts.foldl signalChangedLocked r).byHost = r.byHost := by
  induction hosts generalizing r with
  | nil => exact ⟨rfl, rfl⟩
  | cons h hosts ih => exact ⟨ih.1.trans (signalChangedLocked_keeps h).1, ih.2.trans (signalChangedLocked_keeps h).2⟩

end

/-! ## What an operation does -/

structure Registry.Inv (r : Registry) : Prop where
  indexed : Indexed Attachment.host r.byID r.byHost
  id : ∀ i a, r.byID.lookup i = some a → a.id = i
  channels : Channels r

/-- Attach writes an attachment with this normalized form -/
structure Registry.Accepts (r : Registry) (a : Attachment) : Prop where
  attachable : r.attachable a = true
  new : r.byID.lookup a.id ≠ some a
  current : ∀ current, r.byID.lookup a.id = some current → staleFor current a = false
  free : ∀ owner, r.byHost.lookup a.host = some owner → owner = a.id

section

variable {u : Unicode} {r : Registry}

theorem attach_cases (a : Attachment) :
    (r.attach u a).1 = r ∧ ¬r.Accepts (normalized u a) ∨
      r.Accepts (normalized u a) ∧ r.attach u a = (r.put (normalized u a), .ok (normalized u a)) := by
  unfold attach
  dsimp only
  split_ifs with hvalid hsame hstale howner
  · exact .inl ⟨rfl, fun h => Bool.false_ne_true (hvalid.symm.trans h.attachable)⟩
  · exact .inl ⟨rfl, fun h => h.new hsame⟩
  · obtain ⟨current, hcurrent, hstale⟩ := hstale
    exact .inl ⟨rfl, fun h => Bool.false_ne_true ((h.current current hcurrent).symm.trans hstale)⟩
  · obtain ⟨owner, hhost, hne⟩ := howner
    exact .inl ⟨rfl, fun h => hne (h.free owner hhost)⟩
  · refine .inr ⟨⟨by simpa using hvalid, hsame, fun current hcurrent => ?_, fun owner hhost => ?_⟩, rfl⟩
    · rw [← Bool.not_eq_true]
      exact fun h => hstale ⟨current, hcurrent, h⟩
    · by_contra hne
      exact howner ⟨owner, hhost, hne⟩

variable {e : AttachError}

/-- an Attach that fails leaves the registry as it is -/
theorem attach_error (h : (r.attach u a).2 = .error e) : (r.attach u a).1 = r := by
  rcases attach_cases (u := u) (r := r) a with ⟨hsame, _⟩ | ⟨_, heq⟩
  · exact hsame
  · rw [heq] at h
    cases h

/-- the channels stay as they are while the tables change -/
theorem Channels.of_tables (hr : Channels r) (byID : AList fun _ : String => Attachment)
    (byHost : AList fun _ : String => String) : Channels { r with byID := byID, byHost := byHost } :=
  ⟨hr.1, hr.2, hr.3⟩

theorem put_byID (a : Attachment) : (r.put a).byID = r.byID.insert a.id a := (signalChangedLocked_keeps _).1

theorem put_byHost (a : Attachment) :
    (r.put a).byHost = (match r.byID.lookup a.id with
      | some current => r.byHost.erase current.host
      | none => r.byHost).insert a.host a.id := (signalChangedLocked_keeps _).2

theorem Registry.Inv.put (hr : r.Inv) (hfree : ∀ owner, r.byHost.lookup a.host = some owner → owner = a.id) :
    (r.put a).Inv := by
  refine ⟨?_, ?_, (hr.channels.of_tables _ _).signalChangedLocked _⟩
  · rw [put_byID, put_byHost]
    cases hcurrent : r.byID.lookup a.id with
    | some current => exact hr.indexed.replace a hcurrent hfree
    | none =>
      refine hr.indexed.insert_new a hcurrent ?_
      cases howner : r.byHost.lookup a.host with
      | none => rfl
      | some owner =>
        -- an owner would be the ID that is not attached
        obtain ⟨t, ht, _⟩ := (hr.indexed _ _).1 howner
        rw [hfree owner howner, hcurrent] at ht
        cases ht
  · rw [put_byID]
    exact forall_insert hr.id rfl

theorem Registry.Inv.attach (hr : r.Inv) (a : Attachment) : (r.attach u a).1.Inv := by
  rcases attach_cases (u := u) (r := r) a with ⟨hsame, _⟩ | ⟨haccepts, heq⟩
  · rw [hsame]
    exact hr
  · rw [heq]
    exact hr.put haccepts.free

variable {next : Registry}

theorem Registry.Inv.attachAll (hr : r.Inv) (as : List Attachment) (h : r.attachAll u as = .ok next) : next.Inv := by
  induction as generalizing r with
  | nil =>
    cases h
    exact hr
  | cons a as ih =>
    unfold attachAll at h
    have hattach := hr.attach (u := u) a
    cases hres : r.attach u a with
    | mk r' result =>
      rw [hres] at h hattach
      cases result with
      | error e => cases h
      | ok b => exact ih hattach h

theorem newRegistry_inv (preview runtime : String) : (newRegistry u preview runtime).Inv where
  indexed := Indexed.empty
  id i a h := by cases h
  channels := { waiting := nofun
                apart := nofun
                closed := fun c hc => by cases hc }

theorem detach_eq {id : String} (h : r.byID.lookup id = some a) :
    r.detach id a.revision =
      ({ r with byID := r.byID.erase id, byHost := r.byHost.erase a.host }.signalChangedLocked a.host, .ok ()) := by
  simp [detach, h]

theorem detach_cases (id : String) (revision : ℕ) :
    (r.detach id revision).1 = r ∨ ∃ a, r.byID.lookup id = some a ∧ revision = a.revision := by
  unfold detach
  cases h : r.byID.lookup id with
  | none => exact .inl rfl
  | some a =>
    by_cases hrev : revision = a.revision
    · exact .inr ⟨a, rfl, hrev⟩
    · exact .inl (by simp [hrev])

theorem Registry.Inv.detach (hr : r.Inv) (id : String) (revision : ℕ) : (r.detach id revision).1.Inv := by
  rcases detach_cases (r := r) id revision with h | ⟨a, ha, rfl⟩
  · rw [h]
    exact hr
  · rw [detach_eq ha]
    refine ⟨?_, fun i b hb => ?_, (hr.channels.of_tables _ _).signalChangedLocked _⟩
    · simp only [signalChangedLocked_keeps]
      exact hr.indexed.erase ha
    · simp only [signalChangedLocked_keeps, lookup_erase_if] at hb
      split_ifs at hb
      exact hr.id i b hb

/-- Replace swaps the tables for those of `next` -/
structure Registry.Replaces (u : Unicode) (r : Registry) (as : List Attachment) (next : Registry) : Prop where
  built : (newRegistry u r.previewBaseDomain r.runtimeBaseDomain).attachAll u as = .ok next
  current : r.staleIn next = false

variable {as : List Attachment}

theorem replace_eq (h : r.Replaces u as next) :
    r.replace u as = ((r.changedHosts next).foldl signalChangedLocked
      { r with byID := next.byID, byHost := next.byHost }, .ok ()) := by
  simp [replace, h.built, h.current]

theorem replace_cases (as : List Attachment) : (r.replace u as).1 = r ∨ ∃ next, r.Replaces u as next := by
  unfold replace
  cases h : (newRegistry u r.previewBaseDomain r.runtimeBaseDomain).attachAll u as with
  | error e => exact .inl rfl
  | ok next =>
    by_cases hstale : r.staleIn next = true
    · exact .inl (by simp [hstale])
    · exact .inr ⟨next, h, by simpa using hstale⟩

theorem Registry.Replaces.inv (h : r.Replaces u as next) : next.Inv :=
  (newRegistry_inv _ _).attachAll as h.built

theorem Registry.Inv.replace (hr : r.Inv) (as : List Attachment) : (r.replace u as).1.Inv := by
  rcases replace_cases (u := u) (r := r) as with h | ⟨next, h⟩
  · rw [h]
    exact hr
  · rw [replace_eq h]
    refine ⟨?_, ?_, (hr.channels.of_tables _ _).signalAll _⟩
    · simp only [signalAll_keeps]
      exact h.inv.indexed
    · simp only [signalAll_keeps]
      exact h.inv.id

theorem Registry.Inv.step (hr : r.Inv) (op : AttachOp) : (r.step u op).Inv := by
  cases op with
  | attach a => exact hr.attach a
  | detach id revision => exact hr.detach id revision
  | replace as => exact hr.replace as
  | watch host =>
    refine ⟨?_, ?_, (hr.channels.changedLocked _).1⟩
    · simp only [Registry.step, Registry.perform, changedLocked_keeps]
      exact hr.indexed
    · simp only [Registry.step, Registry.perform, changedLocked_keeps]
      exact hr.id

/-! ## Revisions and failures -/

theorem revision_le_of_not_stale {current : Attachment} (h : staleFor current a = false) :
    current.revision ≤ a.revision := by
  simp only [staleFor, Bool.or_eq_false_iff, decide_eq_false_iff_not, not_lt] at h
  exact h.1

theorem step_revision (op : AttachOp) {id : String} (ha : r.byID.lookup id = some a)
    (hb : (r.step u op).byID.lookup id = some b) : a.revision ≤ b.revision := by
  have hsame {r' : Registry} (heq : r'.byID = r.byID) (hb : r'.byID.lookup id = some b) : a.revision ≤ b.revision := by
    rw [heq, ha] at hb
    cases hb
    exact le_rfl
  cases op with
  | attach n =>
    simp only [step, perform] at hb
    rcases attach_cases (u := u) (r := r) n with ⟨h, _⟩ | ⟨haccepts, h⟩
    · exact hsame (congrArg byID h) hb
    · rw [h] at hb
      simp only [put_byID, lookup_insert_if] at hb
      split_ifs at hb with hid
      · cases hb
        exact revision_le_of_not_stale (haccepts.current a (hid ▸ ha))
      · rw [ha] at hb
        cases hb
        exact le_rfl
  | detach i revision =>
    simp only [step, perform] at hb
    rcases detach_cases (r := r) i revision with h | ⟨c, hc, rfl⟩
    · exact hsame (congrArg byID h) hb
    · rw [detach_eq hc] at hb
      simp only [signalChangedLocked_keeps, lookup_erase_if] at hb
      split_ifs at hb
      rw [ha] at hb
      cases hb
      exact le_rfl
  | replace as =>
    simp only [step, perform] at hb
    rcases replace_cases (u := u) (r := r) as with h | ⟨next, h⟩
    · exact hsame (congrArg byID h) hb
    · rw [replace_eq h] at hb
      simp only [signalAll_keeps] at hb
      have hcurrent := List.any_eq_false.1 h.current ⟨id, a⟩ (AList.mem_lookup_iff.1 ha)
      simp only [hb, Option.any_some, Bool.not_eq_true] at hcurrent
      exact revision_le_of_not_stale hcurrent
  | watch host => exact hsame (changedLocked_keeps _).1 hb

/-- an operation that fails changes nothing -/
theorem step_error (op : AttachOp) (h : (r.perform u op).2 = .error e) : r.step u op = r := by
  cases op with
  | attach a =>
    simp only [perform] at h
    cases hattach : (r.attach u a).2 with
    | error e' => exact attach_error hattach
    | ok b =>
      rw [hattach] at h
      cases h
  | detach id revision =>
    simp only [perform] at h
    rcases detach_cases (r := r) id revision with hsame | ⟨a, ha, rfl⟩
    · exact hsame
    · rw [detach_eq ha] at h
      cases h
  | replace as =>
    simp only [perform] at h
    rcases replace_cases (u := u) (r := r) as with hsame | ⟨next, hnext⟩
    · exact hsame
    · rw [replace_eq hnext] at h
      cases h
  | watch host => cases h

/-! ## Notifications -/

theorem accepts_watch (host : String) : (r.changedLocked host).1.Accepts a ↔ r.Accepts a := by
  obtain ⟨hid, hhost, hpreview, hruntime, -⟩ := changedLocked_keeps (r := r) host
  have hattachable : (r.changedLocked host).1.attachable a = r.attachable a := by
    simp only [attachable, hpreview, hruntime]
  exact ⟨fun h => ⟨hattachable ▸ h.1, hid ▸ h.2, hid ▸ h.3, hhost ▸ h.4⟩,
    fun h => ⟨hattachable.symm ▸ h.1, hid.symm ▸ h.2, hid.symm ▸ h.3, hhost.symm ▸ h.4⟩⟩

theorem Registry.MovesTo.accepts (h : r.MovesTo a) : r.Accepts a := by
  obtain ⟨hattachable, hfree, current, hcurrent, hlt⟩ := h
  refine ⟨hattachable, fun hsame => ?_, fun c hc => ?_, fun owner howner => ?_⟩
  · rw [hcurrent] at hsame
    cases hsame
    exact hlt.false
  · rw [hcurrent] at hc
    cases hc
    simp [staleFor, hlt.le, hlt.ne']
  · rw [hfree] at howner
    cases howner

variable {host : String}

variable (hr : r.Inv)
include hr

theorem routeAt_eq_some (ha : r.byID.lookup a.id = some a) (hhost : a.host = host) :
    r.routeAt host = some (a.id, a.routed) := by
  subst hhost
  simp [routeAt, hr.indexed.owner ha, ha]

omit hr in
/-- the route of a host depends on its owner's entries only -/
theorem routeAt_congr {r' : Registry} (hhost : r'.byHost.lookup host = r.byHost.lookup host)
    (hid : ∀ i, r.byHost.lookup host = some i → r'.byID.lookup i = r.byID.lookup i) :
      r'.routeAt host = r.routeAt host := by
  unfold routeAt
  rw [hhost]
  cases h : r.byHost.lookup host with
  | none => rfl
  | some i => simp only [Option.bind_some, hid i h]

/-- a written attachment leaves the hosts other than its own and its predecessor's as they are -/
theorem routeAt_put (hne : host ≠ a.host)
    (hold : ∀ current, r.byID.lookup a.id = some current → current.host ≠ host) :
    (r.put a).routeAt host = r.routeAt host := by
  refine routeAt_congr ?_ fun i hi => ?_
  · rw [put_byHost, lookup_insert_if, if_neg hne]
    cases hcurrent : r.byID.lookup a.id with
    | none => rfl
    | some current => exact AList.lookup_erase_ne (hold current hcurrent).symm
  · obtain ⟨t, ht, hhost⟩ := (hr.indexed _ _).1 hi
    rw [put_byID, lookup_insert_if, if_neg]
    rintro rfl
    exact hold t ht hhost

theorem put_wakes (a : Attachment) (host : String) :
    (r.changedLocked host).2 ∈ ((r.changedLocked host).1.put a).closedChannels ↔ host = a.host := by
  obtain ⟨hw, hc⟩ := hr.channels.changedLocked host
  obtain ⟨byID, byHost, hput⟩ : ∃ byID byHost, (r.changedLocked host).1.put a =
    { (r.changedLocked host).1 with byID := byID, byHost := byHost }.signalChangedLocked a.host := ⟨_, _, rfl⟩
  rw [hput]
  constructor
  · intro hmem
    by_contra hne
    exact (signal_other (hw.of_tables byID byHost) (Ne.symm hne) hc).2 hmem
  · rintro rfl
    exact mem_closed_signal hc

theorem attach_wakes_iff (a : Attachment) :
    (∀ host, r.routeAt host ≠ (r.step u (.attach a)).routeAt host → r.Wakes u (.attach a) host) ↔
      ¬r.MovesTo (normalized u a) := by
  simp only [Wakes, step, perform]
  rcases attach_cases (u := u) (r := r) a with ⟨hsame, hnot⟩ | ⟨haccepts, heq⟩
  · rw [hsame]
    simp only [ne_eq, not_true, false_implies, implies_true, true_iff]
    exact fun hmoves => hnot hmoves.accepts
  have hwakes (host : String) : (r.changedLocked host).2 ∈ ((r.changedLocked host).1.attach u a).1.closedChannels ↔
      host = (normalized u a).host := by
    rcases attach_cases (u := u) (r := (r.changedLocked host).1) a with ⟨_, hnot⟩ | ⟨_, hput⟩
    · exact absurd ((accepts_watch host).2 haccepts) hnot
    · rw [hput]
      exact put_wakes hr _ host
  simp only [heq, hwakes]
  generalize normalized u a = a at *
  constructor
  · -- the host the ID moves away from loses its route
    rintro hall ⟨_, hfree, current, hcurrent, _⟩
    have hid := hr.id _ _ hcurrent
    have howner := hr.indexed.owner hcurrent
    have hne : current.host ≠ a.host := by
      intro hhost
      rw [hhost, hfree] at howner
      cases howner
    refine hne (hall current.host fun hroute => ?_)
    have hgone : (r.put a).byHost.lookup current.host = none := by
      rw [put_byHost, lookup_insert_if, if_neg hne, hcurrent]
      exact AList.lookup_erase _ _
    rw [routeAt_eq_some hr (hid.symm ▸ hcurrent) rfl, routeAt, hgone] at hroute
    cases hroute
  · intro hnot host hdiff
    by_contra hne
    refine hdiff (routeAt_put hr hne fun current hcurrent hhost => hnot ?_).symm
    have hlt : current.revision < a.revision := by
      have hstale := haccepts.current current hcurrent
      rcases (revision_le_of_not_stale hstale).lt_or_eq with hlt | heq
      · exact hlt
      · -- with the same revision the route, and with it the host, would be the same
        simp only [staleFor, ← heq, lt_irrefl, decide_false, beq_self_eq_true, Bool.true_and, Bool.false_or,
          Bool.not_eq_false'] at hstale
        exact absurd (hhost.symm.trans (congrArg (·.host) (of_decide_eq_true hstale))) hne
    refine ⟨haccepts.attachable, ?_, current, hcurrent, hlt⟩
    cases howner : r.byHost.lookup a.host with
    | none => rfl
    | some owner =>
      obtain ⟨t, ht, hkey⟩ := (hr.indexed _ _).1 howner
      rw [haccepts.free owner howner, hcurrent] at ht
      cases ht
      exact absurd (hhost.symm.trans hkey) hne

theorem detach_wakes (id : String) (revision : ℕ) (host : String)
    (hdiff : r.routeAt host ≠ (r.step u (.detach id revision)).routeAt host) :
      r.Wakes u (.detach id revision) host := by
  simp only [Wakes, step, perform] at hdiff ⊢
  rcases detach_cases (r := r) id revision with hsame | ⟨a, ha, rfl⟩
  · rw [hsame] at hdiff
    exact absurd rfl hdiff
  · rw [detach_eq ha] at hdiff
    rw [detach_eq ((changedLocked_keeps (r := r) host).1.symm ▸ ha)]
    have hhost : host = a.host := by
      by_contra hne
      refine hdiff (routeAt_congr ?_ fun i hi => ?_).symm
      · simp only [signalChangedLocked_keeps, lookup_erase_if, if_neg hne]
      · obtain ⟨t, ht, hkey⟩ := (hr.indexed _ _).1 hi
        simp only [signalChangedLocked_keeps, lookup_erase_if]
        rw [if_neg]
        rintro rfl
        rw [ha] at ht
        cases ht
        exact hne hkey.symm
    subst hhost
    exact mem_closed_signal (hr.channels.changedLocked _).2

omit hr in
theorem mem_changedHosts (hdiff : r.routeAt host ≠ next.routeAt host) : host ∈ r.changedHosts next := by
  unfold changedHosts
  rw [List.mem_append, List.mem_map, List.mem_map]
  cases hhere : r.byHost.lookup host with
  | some id =>
    refine .inl ⟨⟨host, id⟩, List.mem_filter.2 ⟨AList.mem_lookup_iff.1 hhere, ?_⟩, rfl⟩
    simp only [Bool.or_eq_true, bne_iff_ne]
    by_contra hsame
    rw [not_or, not_not, not_not] at hsame
    refine hdiff ?_
    simp only [routeAt, hhere, hsame.1, Option.bind_some]
    have hrouted := congrArg (Option.map fun a => (id, a)) hsame.2
    simpa only [Option.map_map, Function.comp_def] using hrouted
  | none =>
    cases hthere : next.byHost.lookup host with
    | none => exact absurd (by simp [routeAt, hhere, hthere]) hdiff
    | some id =>
      exact .inr ⟨⟨host, id⟩, List.mem_filter.2 ⟨AList.mem_lookup_iff.1 hthere, by simp [hhere]⟩, rfl⟩

theorem replace_wakes (as : List Attachment) (host : String)
    (hdiff : r.routeAt host ≠ (r.step u (.replace as)).routeAt host) : r.Wakes u (.replace as) host := by
  simp only [Wakes, step, perform] at hdiff ⊢
  rcases replace_cases (u := u) (r := r) as with hsame | ⟨next, h⟩
  · rw [hsame] at hdiff
    exact absurd rfl hdiff
  · have hwatch : (r.changedLocked host).1.Replaces u as next := by
      refine ⟨?_, ?_⟩
      · simpa only [changedLocked_keeps] using h.built
      · simpa only [staleIn, changedLocked_keeps] using h.current
    have hhosts : (r.changedLocked host).1.changedHosts next = r.changedHosts next := by
      simp only [changedHosts, changedLocked_keeps]
    obtain ⟨hw, hc⟩ := hr.channels.changedLocked host
    rw [replace_eq hwatch, hhosts]
    refine mem_closed_signalAll (hw.of_tables _ _) _ (mem_changedHosts ?_) hc
    rw [replace_eq h] at hdiff
    simpa only [routeAt, signalAll_keeps] using hdiff

/-- waiters are woken whenever a route changes, just if the operation does not move an ID -/
theorem wakes_iff (op : AttachOp) :
    (∀ host, r.routeAt host ≠ (r.step u op).routeAt host → r.Wakes u op host) ↔ ¬r.Moves u op := by
  cases op with
  | attach a => exact attach_wakes_iff hr a
  | detach id revision => exact ⟨fun _ hmoves => hmoves, fun _ => detach_wakes hr id revision⟩
  | replace as => exact ⟨fun _ => id, fun _ => replace_wakes hr as⟩
  | watch host =>
    refine ⟨fun _ => id, fun _ h hdiff => absurd ?_ hdiff⟩
    simp only [routeAt, step, perform, changedLocked_keeps]

end

/-! ## Runs of the registry -/

section

variable (u : Unicode) (preview runtime : String)

/-- revisions of an ID along a run in which it stays attached -/
theorem attached_revision (ops more : List AttachOp) {id : String}
    (hstays : ∀ pre, pre <+: more → (attached u preview runtime (ops ++ pre)).byID.lookup id ≠ none)
    (ha : (attached u preview runtime ops).byID.lookup id = some a)
    (hb : (attached u preview runtime (ops ++ more)).byID.lookup id = some b) : a.revision ≤ b.revision := by
  induction more using List.reverseRecOn generalizing b with
  | nil =>
    rw [List.append_nil, ha] at hb
    cases hb
    exact le_rfl
  | append_singleton more op ih =>
    obtain ⟨c, hc⟩ := Option.ne_none_iff_exists'.1 (hstays more (List.prefix_append more [op]))
    have hbefore := ih (fun pre hpre => hstays pre (hpre.trans (List.prefix_append more [op]))) hc
    rw [← List.append_assoc, attached, run_snoc] at hb
    exact hbefore.trans (step_revision op hc hb)

/-- **The route registry.** In every run: the hosts are the inverse of the attachments; a revision does not go down
while its ID stays attached; an operation that fails changes nothing; and every caller that waits for a host whose
route changes is woken, just if the operation does not move an attached ID to another host. -/
theorem attachments_consistent (ops : List AttachOp) :
    (∀ host id, (attached u preview runtime ops).byHost.lookup host = some id ↔
      ∃ a, (attached u preview runtime ops).byID.lookup id = some a ∧ a.host = host) ∧
    (∀ more id a b, (∀ pre, pre <+: more → (attached u preview runtime (ops ++ pre)).byID.lookup id ≠ none) →
      (attached u preview runtime ops).byID.lookup id = some a →
      (attached u preview runtime (ops ++ more)).byID.lookup id = some b → a.revision ≤ b.revision) ∧
    (∀ op e, ((attached u preview runtime ops).perform u op).2 = .error e →
      attached u preview runtime (ops ++ [op]) = attached u preview runtime ops) ∧
    ∀ op, (∀ host, (attached u preview runtime ops).routeAt host ≠ (attached u preview runtime
      (ops ++ [op])).routeAt host →
      (attached u preview runtime ops).Wakes u op host) ↔ ¬(attached u preview runtime ops).Moves u op := by
  have hinv : (attached u preview runtime ops).Inv :=
    run_inv (I := fun _ r => Inv r) _ _ (newRegistry_inv _ _) (fun _ op ih => ih.step op) ops
  refine ⟨hinv.indexed, fun more id a b => attached_revision u preview runtime ops more, fun op e h => ?_, fun op => ?_⟩
  · rw [attached, run_snoc]
    exact step_error op h
  · simp only [attached, run_snoc]
    exact wakes_iff hinv op

end

/-- a helper route of environment e on node n -/
def helperRoute (revision : ℕ) (host : String) : Attachment :=
  { id := "a", revision := revision, environment := "e", node := "n", generation := 1, kind := .helperHTTPSWSS,
    host := host, target := "t" }

theorem helperRoute_detach_wakes :
    ((attached ascii "p" "r" [.attach (helperRoute 1 "x.r")]).routeAt "x.r").isSome = true ∧
      (attached ascii "p" "r" ([.attach (helperRoute 1 "x.r")] ++ [.detach "a" 1])).routeAt "x.r" = none ∧
      (attached ascii "p" "r" [.attach (helperRoute 1 "x.r")]).Wakes ascii (.detach "a" 1) "x.r" := by
  have hroutes : ((attached ascii "p" "r" [.attach (helperRoute 1 "x.r")]).routeAt "x.r").isSome = true ∧
      (attached ascii "p" "r" ([.attach (helperRoute 1 "x.r")] ++ [.detach "a" 1])).routeAt "x.r" = none := by
    decide +kernel
  refine ⟨hroutes.1, hroutes.2, ?_⟩
  obtain ⟨_, _, _, hwakes⟩ := attachments_consistent ascii "p" "r" [.attach (helperRoute 1 "x.r")]
  refine (hwakes (.detach "a" 1)).2 id "x.r" fun hsame => ?_
  rw [hsame] at hroutes
  cases hroutes.1

/-- the host an ID moves away from loses its route, and whoever waits for it is not woken -/
theorem moved_unnoticed :
    (attached ascii "p" "r" [.attach (helperRoute 1 "x.r")]).routeAt "x.r" ≠
      (attached ascii "p" "r" [.attach (helperRoute 1 "x.r"), .attach (helperRoute 2 "y.r")]).routeAt "x.r" ∧
    ¬(attached ascii "p" "r" [.attach (helperRoute 1 "x.r")]).Wakes ascii (.attach (helperRoute 2 "y.r")) "x.r" := by
  unfold Wakes
  decide +kernel

end Paperboat.Route
