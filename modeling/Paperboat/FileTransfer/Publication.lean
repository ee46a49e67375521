/-
How a received file gets its place in the Inbox
(`hostruntime/filetransfer/publication.go`,
`hostruntime/store/file_transfer_publication.go`).

PublishedPath reserves a path in the store and then makes a hard link to the content
there. A call may be cut off between any two of its steps, other programs may do
anything to their own files in between, and at the next call the Inbox may be another
folder.

Results:
- `Inv.advance`, `Inv.step`: a link is only where the receipt in the store says, and the
  receipt moves only while there is no link and no call has succeeded
- `published_once`: all calls that succeed return one path, there is never a second
  link, and no other program's file is touched or returned

Witnesses:
- `published_once_retry`: the reserved name is taken by a stranger before a crash, and
  the Inbox is moved; the retry stays in the folder and takes the next name

Premises:
- the calls for one transfer wait for each other (the batch lock)
- a path names one directory entry, and paths are those of Unix
-/
import Paperboat.Core.Filepath
import Paperboat.Core.Machine

namespace Paperboat.FileTransfer

open Machine Text Filepath

/-! ## The model -/

/-- the row of a transfer, as far as its publication reads it -/
structure Transfer where
  id : String
  destinationMachineID : String
  state : String
  basename : String
  receiptPath : String
deriving DecidableEq, Repr

structure Config where
  root : String
  localMachineID : String

inductive Code where
  | invalidPath
  | storageUnavailable
deriving DecidableEq, Repr

/-- a folder for the link, and the name the link gets there -/
structure Place where
  root : String
  base : String
  root_abs : isAbs root = true

/-- where a call is in its loop -/
inductive Stage where
  | look (index : ℕ)
  | reserve (index : ℕ) (path : String) (linked : Bool)
  | link (index : ℕ) (path : String)
  | sync (path : String)

/-- a call, with its own copy of the receipt -/
structure Call where
  receiptPath : String
  place : Place
  stage : Stage

structure World (α : Type) where
  /-- where the file of the content is -/
  links : List String
  /-- what other programs have at the other paths -/
  others : String → Option α
  transfer : Transfer
  call : Option Call := none
  /-- what the calls returned, the last one first -/
  results : List (Except Code String) := []

def publishedName (basename : String) (index : ℕ) : String :=
  if index ≤ 1 then basename
  else trimSuffix basename (ext basename) ++ " (" ++ toString index ++ ")" ++ ext basename

def validRoot (root base : String) : Option Place :=
  if h : isAbs root = true ∧ clean root = root then some ⟨root, base, h.1⟩ else none

/-- the Inbox setting may be absent, unreadable or a folder -/
def publicationRoot (cfg : Config) (t : Transfer) (publishRoot : Option (Option String)) : Option Place :=
  match publishRoot with
  | none => validRoot cfg.root (t.id ++ "-" ++ t.basename)
  | some none => none
  | some (some root) => validRoot root t.basename

/-- a transfer with a receipt stays in its folder, whatever the Inbox is now -/
def destination (cfg : Config) (t : Transfer) (publishRoot : Option (Option String)) : Option Place :=
  if t.receiptPath = "" then publicationRoot cfg t publishRoot
  else if h : isAbs t.receiptPath = true ∧ clean t.receiptPath = t.receiptPath then
    some ⟨dir t.receiptPath, t.basename, dir_isAbs h.1⟩
  else none

def contentPath (cfg : Config) (id : String) : String := join cfg.root (id ++ ".content")

variable {α : Type}

/-- the path of one round of the loop -/
def Call.path (c : Call) (index : ℕ) : String :=
  if index = 0 then c.receiptPath else join c.place.root (publishedName c.place.base index)

namespace World

variable (cfg : Config) (w : World α)

def done (result : Except Code String) : World α := { w with call := none, results := result :: w.results }

def fail : World α := w.done (.error .storageUnavailable)

def goOn (c : Call) (stage : Stage) : World α := { w with call := some { c with stage := stage } }

/-- the check of PublishedPath and of the store's update -/
def publishes : Bool := w.transfer.destinationMachineID == cfg.localMachineID && w.transfer.state == "published"

/-- PublishedPath up to its loop; `prepared` when the folder could be made and the content found -/
def publishedPath (publishRoot : Option (Option String)) (prepared : Bool) : World α :=
  if w.call.isSome then w
  else if !w.publishes cfg then w.done (.error .invalidPath)
  else
    match destination cfg w.transfer publishRoot, prepared with
    | some place, true => { w with call := some ⟨w.transfer.receiptPath, place, .look 0⟩ }
    | _, _ => w.fail

/-- one step of the loop; `ok` when the system does what is asked of it -/
def advance (c : Call) (ok : Bool) : World α :=
  match c.stage with
  | .look index =>
    if 10000 < index then w.fail
    else if index = 0 ∧ c.receiptPath = "" then w.goOn c (.look 1)
    else if !ok then w.fail
    else if c.path index ∈ w.links then w.goOn c (.reserve index (c.path index) true)
    else if (w.others (c.path index)).isSome then w.goOn c (.look (index + 1))
    else w.goOn c (.reserve index (c.path index) false)
  | .reserve index path linked =>
    if c.receiptPath = path then if linked then w.done (.ok path) else w.goOn c (.link index path)
    -- SetFileTransferPublicationPath
    else if ok && w.publishes cfg && w.transfer.receiptPath == c.receiptPath then
      { w with transfer := { w.transfer with receiptPath := path }, call := some { c with receiptPath := path } }
    else w.fail
  | .link index path =>
    if path ∈ w.links ∨ (w.others path).isSome then w.goOn c (.look (index + 1))
    else if ok then { w.goOn c (.sync path) with links := path :: w.links }
    else w.fail
  | .sync path => if ok then w.done (.ok path) else w.fail

end World

inductive Op (α : Type) where
  | publishedPath (publishRoot : Option (Option String)) (prepared : Bool)
  | advance (ok : Bool)
  | crash
  /-- another program makes, changes or removes a file of its own -/
  | other (path : String) (file : Option α)

def World.step (cfg : Config) (w : World α) : Op α → World α
  | .publishedPath publishRoot prepared => w.publishedPath cfg publishRoot prepared
  | .advance ok => w.call.elim w fun c => w.advance cfg c ok
  | .crash => { w with call := none }
  | .other path file => if path ∈ w.links then w else { w with others := Function.update w.others path file }

/-- a transfer that was just published, among the files of other programs -/
def World.start (cfg : Config) (t : Transfer) (others : String → Option α) : World α where
  links := [contentPath cfg t.id]
  others := others
  transfer := { t with receiptPath := "" }

/-! ## The invariant -/

section

variable (spool : String) (links : List String) (receipt : String) (results : List (Except Code String))

/-- there is no link, and no call has succeeded -/
def Unlinked : Prop := (∀ p ∈ links, p = spool) ∧ ∀ p, .ok p ∉ results

/-- what a call knows at each stage -/
def Stage.Knows : Stage → Prop
  | .look index => index ≠ 0 → Unlinked spool links results
  | .reserve _ path linked =>
    path ≠ "" ∧ (linked = true → path ∈ links) ∧ (linked = false ∨ receipt ≠ path → Unlinked spool links results)
  | .link _ path => path ≠ "" ∧ receipt = path ∧ Unlinked spool links results
  | .sync path => path ≠ "" ∧ receipt = path ∧ path ∈ links

end

/-- a link is only at the receipt, and so is what a call returned -/
structure World.Inv (spool : String) (w : World α) : Prop where
  linked : ∀ p ∈ w.links, p = spool ∨ p = w.transfer.receiptPath ∧ p ≠ ""
  returned : ∀ p, .ok p ∈ w.results → p = w.transfer.receiptPath ∧ p ≠ "" ∧ p ∈ w.links
  call : ∀ c, w.call = some c → c.receiptPath = w.transfer.receiptPath ∧
    c.stage.Knows spool w.links w.transfer.receiptPath w.results

theorem Call.path_ne {c : Call} {index : ℕ} (h : ¬(index = 0 ∧ c.receiptPath = "")) : c.path index ≠ "" := by
  unfold Call.path
  split_ifs with hindex
  · exact fun hempty => h ⟨hindex, hempty⟩
  · exact join_ne_empty _ c.place.root_abs

open World

namespace World.Inv

variable {spool : String} {w : World α} (h : w.Inv spool)
include h

/-- without a link at the receipt there is none -/
theorem unlinked (hnot : w.transfer.receiptPath = "" ∨ w.transfer.receiptPath ∉ w.links) :
    Unlinked spool w.links w.results := by
  have hno : ∀ p, p = w.transfer.receiptPath → p ≠ "" → p ∉ w.links := by
    rintro _ rfl hne
    exact hnot.resolve_left hne
  refine ⟨fun p hp => (h.linked p hp).resolve_right fun hr => hno p hr.1 hr.2 hp, fun p hp => ?_⟩
  obtain ⟨hr, hne, hlinks⟩ := h.returned p hp
  exact hno p hr hne hlinks

theorem done {result : Except Code String}
    (hr : ∀ p, result = .ok p → p = w.transfer.receiptPath ∧ p ≠ "" ∧ p ∈ w.links) : (w.done result).Inv spool :=
  { h with
    returned := fun p hp => (List.mem_cons.1 hp).elim (fun heq => hr p heq.symm) (h.returned p)
    call := nofun }

theorem fail : w.fail.Inv spool := h.done nofun

variable {c : Call} (hc : c.receiptPath = w.transfer.receiptPath)
include hc

theorem goOn {stage : Stage} (hstage : stage.Knows spool w.links w.transfer.receiptPath w.results) :
    (w.goOn c stage).Inv spool :=
  { h with call := by rintro _ ⟨⟩; exact ⟨hc, hstage⟩ }

/-- after a look at a path that is not the content there is no link -/
theorem looked {index : ℕ} (hindex : index ≠ 0 → Unlinked spool w.links w.results) (hnot : c.path index ∉ w.links) :
    Unlinked spool w.links w.results := by
  by_cases hfirst : index = 0
  · rw [Call.path, if_pos hfirst, hc] at hnot
    exact h.unlinked (.inr hnot)
  · exact hindex hfirst

theorem advance (cfg : Config) (ok : Bool) (hstage : c.stage.Knows spool w.links w.transfer.receiptPath w.results) :
    (w.advance cfg c ok).Inv spool := by
  obtain ⟨receipt, place, stage⟩ := c
  cases stage with
  | look index =>
    simp only [advance]
    split_ifs with hlast hskip hok hmem hother
    · exact h.fail
    · exact h.goOn hc fun _ => h.unlinked (.inl (hc ▸ hskip.2))
    · exact h.fail
    · refine h.goOn hc ⟨Call.path_ne hskip, fun _ => hmem, fun hno => hstage fun hfirst => ?_⟩
      simp [Call.path, hfirst, ← hc] at hno
    · exact h.goOn hc fun _ => h.looked hc hstage hmem
    · exact h.goOn hc ⟨Call.path_ne hskip, nofun, fun _ => h.looked hc hstage hmem⟩
  | reserve index path linked =>
    obtain ⟨hne, hlinks, hunlinked⟩ := hstage
    simp only [advance]
    split_ifs with heq hlinked hstore
    · exact h.done fun p hp => by cases hp; exact ⟨heq.symm.trans hc, hne, hlinks hlinked⟩
    · exact h.goOn hc ⟨hne, hc.symm.trans heq, hunlinked (.inl (by simpa using hlinked))⟩
    · -- the receipt moves while there is no link
      have hu := hunlinked (.inr (hc ▸ heq))
      refine ⟨fun p hp => .inl (hu.1 p hp), fun p hp => absurd hp (hu.2 p), ?_⟩
      rintro _ ⟨⟩
      exact ⟨rfl, hne, hlinks, fun _ => hu⟩
    · exact h.fail
  | link index path =>
    obtain ⟨hne, heq, hu⟩ := hstage
    simp only [advance]
    split_ifs
    · exact h.goOn hc fun _ => hu
    · refine ⟨fun p hp => ?_, fun p hp => absurd hp (hu.2 p), ?_⟩
      · rcases List.mem_cons.1 hp with rfl | hp
        · exact .inr ⟨heq.symm, hne⟩
        · exact .inl (hu.1 p hp)
      · rintro _ ⟨⟩
        exact ⟨hc, hne, heq, List.mem_cons_self⟩
    · exact h.fail
  | sync path =>
    obtain ⟨hne, heq, hlinks⟩ := hstage
    simp only [advance]
    split_ifs
    · exact h.done fun p hp => by cases hp; exact ⟨heq.symm, hne, hlinks⟩
    · exact h.fail

omit hc in
theorem step (cfg : Config) (op : Op α) : (w.step cfg op).Inv spool := by
  cases op with
  | publishedPath publishRoot prepared =>
    simp only [World.step, World.publishedPath]
    split_ifs
    · exact h
    · exact h.done nofun
    · split
      · exact { h with call := by rintro _ ⟨⟩; exact ⟨rfl, fun hindex => absurd rfl hindex⟩ }
      · exact h.fail
  | advance ok =>
    cases hcall : w.call with
    | none => simpa [World.step, hcall] using h
    | some c => simpa [World.step, hcall] using h.advance (h.call c hcall).1 cfg ok (h.call c hcall).2
  | crash => exact { h with call := nofun }
  | other path file =>
    simp only [World.step]
    split_ifs
    · exact h
    · exact { h with }

end World.Inv

/-- the steps of the service itself -/
def Op.ours : Op α → Prop
  | .other _ _ => False
  | _ => True

/-- a step of the service leaves the files of others alone, and makes a link only where there is nothing -/
theorem World.step_spares (cfg : Config) (w : World α) {op : Op α} (hop : op.ours) :
    (w.step cfg op).others = w.others ∧ ∀ p ∈ (w.step cfg op).links, p ∈ w.links ∨ w.others p = none := by
  have hsame : w.others = w.others ∧ ∀ p ∈ w.links, p ∈ w.links ∨ w.others p = none := ⟨rfl, fun _ => .inl⟩
  cases op with
  | publishedPath publishRoot prepared =>
    simp only [step, publishedPath]
    repeat' split
    all_goals exact hsame
  | advance ok =>
    cases hcall : w.call with
    | none => simpa [step, hcall] using hsame
    | some c =>
      simp only [step, hcall, Option.elim_some, advance]
      split
      case h_3 index path hs =>
        split_ifs with hexists
        · exact hsame
        · refine ⟨rfl, fun p hp => (List.mem_cons.1 hp).symm.imp_right ?_⟩
          rintro rfl
          simpa using not_or.1 hexists |>.2
        · exact hsame
      all_goals
        repeat' split
        all_goals exact hsame
  | crash => exact hsame
  | other => exact hop.elim

/-- **One place for one transfer.** Whatever happens between the steps of the calls, all that succeed return one
path, and the content is there; outside the spool there is at most one link to it; no step of the service changes
another program's file or makes a link in its place. -/
theorem published_once (cfg : Config) (t : Transfer) (others : String → Option α) (ops : List (Op α)) :
    let w := run (step cfg) (start cfg t others : World α) ops
    (∀ p q, .ok p ∈ w.results → .ok q ∈ w.results → p = q) ∧ (∀ p, .ok p ∈ w.results → p ∈ w.links) ∧
      (∀ p ∈ w.links, ∀ q ∈ w.links, p ≠ contentPath cfg t.id → q ≠ contentPath cfg t.id → p = q) ∧
      ∀ op : Op α, op.ours →
        (w.step cfg op).others = w.others ∧ ∀ p ∈ (w.step cfg op).links, p ∈ w.links ∨ w.others p = none := by
  intro w
  have h : w.Inv (contentPath cfg t.id) :=
    run_inv (step cfg) _ (I := fun _ w => w.Inv (contentPath cfg t.id))
      ⟨fun p hp => .inl (List.mem_singleton.1 hp), fun p hp => absurd hp List.not_mem_nil, fun c hc => by cases hc⟩
      (fun _ op hw => hw.step cfg op) ops
  refine ⟨fun p q hp hq => (h.returned p hp).1.trans (h.returned q hq).1.symm, fun p hp => (h.returned p hp).2.2,
    fun p hp q hq hps hqs => ?_, fun op hop => w.step_spares cfg hop⟩
  exact ((h.linked p hp).resolve_left hps).1.trans ((h.linked q hq).resolve_left hqs).1.symm

/-! ## A retry -/

def spool : Config := { root := "/spool", localMachineID := "laptop" }

def letter : Transfer :=
  { id := "t1", destinationMachineID := "laptop", state := "published", basename := "letter.txt", receiptPath := "" }

/-- the path is reserved, a stranger's file appears there, the call is cut off, and the Inbox is moved -/
def takenBefore : List (Op ℕ) :=
  [.publishedPath (some (some "/inbox")) true] ++ List.replicate 3 (.advance true) ++
    [.other "/inbox/letter.txt" (some 7), .crash]

/-- the next call goes over the names until one is free, reserves it and makes the link -/
def retried : List (Op ℕ) :=
  takenBefore ++ .publishedPath (some (some "/elsewhere")) true :: List.replicate 7 (.advance true)

theorem published_once_retry :
    let w := run (step spool) (start spool letter fun _ => none) retried
    w.results = [.ok "/inbox/letter (2).txt"] ∧ w.links = ["/inbox/letter (2).txt", "/spool/t1.content"] ∧
      (w.step spool .crash).others "/inbox/letter.txt" = some 7 := by
  intro w
  have h := published_once spool letter (fun _ => none) retried
  refine ⟨by decide +kernel, by decide +kernel, ?_⟩
  rw [(h.2.2.2 .crash trivial).1]
  decide +kernel

end Paperboat.FileTransfer
