/-
The bracketed pastes in what a terminal sends: how the bytes that arrive in chunks are
cut into normal output and pastes.

Modelled: `Interceptor.drain`, `drainNormal`, `drainPaste` (cli/internal/paste/paste.go)
and `partialSuffix` (paste_candidates.go).

Results:
- `drain_append`: draining before more bytes arrive changes nothing
- `drain_parse`: one drain against the parse of all its bytes
- `chunks_parse`: however the input is cut: the output, the pastes and what is withheld
  are those of the whole input

Premises:
- the destination takes every write, and the flush timer does not fire
- a byte is the character of its code; normal output is listed byte by byte, since only
  the chunks decide how it is cut into writes
-/
import Mathlib.Data.List.Infix
import Paperboat.Core.Text

namespace Paperboat.Paste

open Text (cutList cutList_eq_some)

def startMarker : List Char := "\x1b[200~".toList

def endMarker : List Char := "\x1b[201~".toList

/-- the loop of partialSuffix, from a length downwards -/
def longestFrom (buf marker : List Char) : ℕ → ℕ
  | 0 => 0
  | n + 1 => if buf.drop (buf.length - (n + 1)) = marker.take (n + 1) then n + 1 else longestFrom buf marker n

def partialSuffix (buf marker : List Char) : ℕ := longestFrom buf marker (min (marker.length - 1) buf.length)

/-- a byte of normal output, or the body of a paste that goes to rewrite -/
inductive Item where
  | byte (ch : Char)
  | paste (body : List Char)
  deriving DecidableEq

structure Interceptor where
  inPaste : Bool := false
  buf : List Char := []
  out : List Item := []

theorem length_rest {marker buf before rest : List Char} (h : cutList marker buf = some (before, rest))
    (hne : marker ≠ []) : rest.length < buf.length := by
  rw [cutList_eq_some marker _ _ _ h, List.length_append, List.length_append]
  have := List.length_pos_iff.2 hne
  omega

namespace Interceptor

def drain (i : Interceptor) : Interceptor :=
  if i.inPaste then
    match _h : cutList endMarker i.buf with
    | none => i
    | some (body, rest) => drain { inPaste := false, buf := rest, out := i.out ++ [.paste body] }
  else
    match _h : cutList startMarker i.buf with
    | none =>
      let flush := i.buf.length - partialSuffix i.buf startMarker
      { i with buf := i.buf.drop flush, out := i.out ++ (i.buf.take flush).map .byte }
    | some (before, rest) => drain { inPaste := true, buf := rest, out := i.out ++ before.map .byte }
termination_by i.buf.length
decreasing_by all_goals exact length_rest ‹_› (by decide)

/-- the next bytes of the input -/
def write (i : Interceptor) (p : List Char) : Interceptor := { i with buf := i.buf ++ p }.drain

end Interceptor

/-! ## the parse of a whole input -/

/-- the marker that ends the part: of a paste, or of what comes before one -/
def marker (inPaste : Bool) : List Char := if inPaste then endMarker else startMarker

def part (inPaste : Bool) (bytes : List Char) : List Item := if inPaste then [.paste bytes] else bytes.map .byte

/-- the normal bytes and the pastes of an input, from inside a paste or from outside, and the paste that is left open -/
def parse (inPaste : Bool) (input : List Char) : List Item × Option (List Char) :=
  match _h : cutList (marker inPaste) input with
  | some (bytes, rest) => (part inPaste bytes ++ (parse (!inPaste) rest).1, (parse (!inPaste) rest).2)
  | none => if inPaste then ([], some input) else (input.map .byte, none)
termination_by input.length
decreasing_by all_goals exact length_rest ‹_› (by cases inPaste <;> decide)

/-- the longest suffix of the input that is a proper part of the marker, from its first byte -/
structure Withheld (sep input keep : List Char) : Prop where
  suffix : keep <:+ input
  start : keep <+: sep
  proper : keep.length < sep.length
  longest : ∀ v, v <:+ input → v <+: sep → v.length < sep.length → v.length ≤ keep.length

/-! ## what is withheld -/

variable {sep input more keep : List Char} {keep' : List Char}

theorem Withheld.unique (h : Withheld sep input keep) (h' : Withheld sep input keep') : keep = keep' := by
  have hle := h'.longest keep h.suffix h.start h.proper
  have hge := h.longest keep' h'.suffix h'.start h'.proper
  exact (List.suffix_of_suffix_length_le h.suffix h'.suffix hle).eq_of_length (le_antisymm hle hge)

theorem partialSuffix_withheld (hne : sep ≠ []) (input : List Char) :
    Withheld sep input (input.drop (input.length - partialSuffix input sep)) := by
  have hpos := List.length_pos_iff.2 hne
  -- every suffix that was tried above `n` is no part of the marker
  suffices hfrom : ∀ n, n ≤ input.length → n < sep.length →
      (∀ v, v <:+ input → v <+: sep → v.length < sep.length → v.length ≤ n) →
      Withheld sep input (input.drop (input.length - longestFrom input sep n)) by
    refine hfrom _ (min_le_right _ _) (by omega) fun v hv _ hlt => ?_
    have := hv.length_le
    omega
  intro n hn hlt hlongest
  induction n with
  | zero =>
    exact ⟨List.drop_suffix _ _, by simp [longestFrom], by simpa [longestFrom], by simpa [longestFrom] using hlongest⟩
  | succ n ih =>
    rw [longestFrom]
    split_ifs with heq
    · have hlen : (input.drop (input.length - (n + 1))).length = n + 1 := by
        rw [List.length_drop]
        omega
      exact ⟨List.drop_suffix _ _, heq ▸ List.take_prefix _ _, by omega, hlen.symm ▸ hlongest⟩
    · refine ih (by omega) (by omega) fun v hv hm hproper => ?_
      have hle := hlongest v hv hm hproper
      by_contra hgt
      have hlen : v.length = n + 1 := by omega
      refine heq ?_
      rw [← hlen, ← List.prefix_iff_eq_take.1 hm]
      exact (List.suffix_iff_eq_drop.1 hv).symm

/-- what comes after the marker of a paste is withheld as if the input began there: no proper part of the start
marker has a `~` -/
theorem Withheld.after (h : Withheld startMarker input keep) (before : List Char) :
    Withheld startMarker (before ++ '~' :: input) keep := by
  refine ⟨h.suffix.trans ⟨before ++ ['~'], by simp⟩, h.start, h.proper, fun v hv hstart hproper => ?_⟩
  by_cases hle : v.length ≤ input.length
  · exact h.longest v (List.suffix_of_suffix_length_le hv ⟨before ++ ['~'], by simp⟩ hle) hstart hproper
  · have hmem : '~' ∈ v :=
      (List.suffix_of_suffix_length_le ⟨before, rfl⟩ hv (by simpa using hle)).subset List.mem_cons_self
    have hpart : v <+: startMarker.dropLast := List.prefix_of_prefix_length_le hstart (List.dropLast_prefix _)
        (by simp; omega)
    exact absurd (hpart.subset hmem) (by decide)

/-- more input after what is withheld -/
theorem Withheld.append (h : Withheld sep input keep) (h' : Withheld sep (keep ++ more) keep') :
    Withheld sep (input ++ more) keep' := by
  have hsuffix : keep ++ more <:+ input ++ more := (List.suffix_append_self_iff).2 h.suffix
  refine ⟨h'.suffix.trans hsuffix, h'.start, h'.proper, fun v hv hstart hproper => ?_⟩
  by_cases hle : v.length ≤ (keep ++ more).length
  · exact h'.longest v (List.suffix_of_suffix_length_le hv hsuffix hle) hstart hproper
  · -- a longer one would begin with a longer part of the marker, at the end of the input
    obtain ⟨u, rfl⟩ := List.suffix_of_suffix_length_le (List.suffix_append input more) hv (by simp at hle; omega)
    have hu := h.longest u ((List.suffix_append_self_iff).1 hv) ((List.prefix_append _ _).trans hstart)
        (by simp at hproper; omega)
    simp at hle
    omega

/-! ## the first marker -/

variable {before rest : List Char}

theorem cutList_append (h : cutList sep input = some (before, rest)) (more : List Char) :
    cutList sep (input ++ more) = some (before, rest ++ more) := by
  induction input generalizing before with
  | nil =>
    simp only [cutList] at h
    split_ifs at h with hnil
    cases h
    cases more <;> simp [cutList, hnil]
  | cons c input ih =>
    rw [cutList] at h
    rw [List.cons_append, cutList, ← List.cons_append]
    split_ifs at h with hmarker
    · cases h
      rw [if_pos (hmarker.trans (List.prefix_append _ _)), List.drop_append_of_le_length hmarker.length_le]
    · obtain ⟨⟨front, rest⟩, hcut, heq⟩ := Option.map_eq_some_iff.1 h
      cases heq
      have hshort : sep.length ≤ (c :: input).length := by
        rw [cutList_eq_some sep _ _ _ hcut]
        simp
        omega
      rw [if_neg fun hlong => hmarker (List.prefix_of_prefix_length_le hlong
        (List.prefix_append (c :: input) more) hshort), ih hcut]
      rfl

/-- without a marker in the input, the first one begins in what is withheld -/
theorem Withheld.cutList_append {flush : List Char} (h : Withheld sep (flush ++ keep) keep)
    (hnone : cutList sep (flush ++ keep) = none) (more : List Char) :
    cutList sep (flush ++ keep ++ more) = (cutList sep (keep ++ more)).map fun p => (flush ++ p.1, p.2) := by
  induction flush with
  | nil => simp
  | cons c flush ih =>
    simp only [cutList, List.cons_append] at hnone ⊢
    split_ifs at hnone with hmarker
    rw [if_neg, ih ⟨List.suffix_append _ _, h.start, h.proper,
      fun v hv => h.longest v (hv.trans (List.suffix_cons _ _))⟩
      (Option.map_eq_none_iff.1 hnone), Option.map_map]
    · rfl
    · intro hlong
      have hwhole : c :: (flush ++ keep) <+: c :: (flush ++ keep ++ more) :=
          List.prefix_append (c :: (flush ++ keep)) more
      by_cases hle : sep.length ≤ (c :: (flush ++ keep)).length
      · exact hmarker (List.prefix_of_prefix_length_le hlong hwhole hle)
      · have hlonger := h.longest (c :: (flush ++ keep)) List.suffix_rfl
          (List.prefix_of_prefix_length_le hwhole hlong (by omega)) (by omega)
        simp at hlonger

/-! ## draining -/

theorem exists_withheld (buf : List Char) : ∃ flush keep, flush ++ keep = buf ∧ Withheld startMarker buf keep := by
  have hkeep := partialSuffix_withheld (by decide : startMarker ≠ []) buf
  obtain ⟨flush, hflush⟩ := hkeep.suffix
  exact ⟨flush, _, hflush, hkeep⟩

namespace Interceptor

variable {m : Bool} {buf bytes : List Char}

/-- both find the marker that ends the part -/
theorem drain_cut (h : cutList (marker m) buf = some (bytes, rest)) (out : List Item) :
    drain ⟨m, buf, out⟩ = drain ⟨!m, rest, out ++ part m bytes⟩ ∧
      parse m buf = (part m bytes ++ (parse (!m) rest).1, (parse (!m) rest).2) := by
  constructor
  · conv_lhs => rw [drain]
    cases m <;> (repeat' split) <;> simp_all [marker, part]
  · conv_lhs => rw [parse]
    split <;> simp_all

theorem drain_open (h : cutList endMarker buf = none) (out : List Item) :
    drain ⟨true, buf, out⟩ = ⟨true, buf, out⟩ ∧ parse true buf = ([], some buf) := by
  rw [drain, parse]
  constructor <;> (repeat' split) <;> simp_all [marker]

/-- without a start marker everything is written but what is withheld -/
theorem drain_rest {flush : List Char} (h : cutList startMarker (flush ++ keep) = none)
    (hkeep : Withheld startMarker (flush ++ keep) keep) (out : List Item) :
    drain ⟨false, flush ++ keep, out⟩ = ⟨false, keep, out ++ flush.map .byte⟩ ∧
      parse false (flush ++ keep) = ((flush ++ keep).map .byte, none) := by
  have hdrop := (partialSuffix_withheld (by decide) (flush ++ keep)).unique hkeep
  have htake := List.take_append_drop ((flush ++ keep).length - partialSuffix (flush ++ keep) startMarker)
      (flush ++ keep)
  rw [hdrop, List.append_cancel_right_eq] at htake
  rw [drain, parse]
  constructor <;> (repeat' split) <;> simp_all [marker]

/-- **Draining before more bytes arrive changes nothing.** -/
theorem drain_append (i : Interceptor) (more : List Char) : i.drain.write more = i.write more := by
  obtain ⟨m, buf, out⟩ := i
  induction hlength : buf.length using Nat.strong_induction_on generalizing m buf out with
  | _ n ih =>
    subst hlength
    unfold write
    cases hcut : cutList (marker m) buf with
    | some parts =>
      rw [(drain_cut hcut _).1, (drain_cut (cutList_append hcut more) _).1]
      exact ih _ (length_rest hcut (by cases m <;> decide)) (!m) parts.2 _ rfl
    | none =>
      cases m with
      | true => rw [(drain_open hcut _).1]
      | false =>
        obtain ⟨flush, keep, rfl, hkeep⟩ := exists_withheld buf
        have hfirst := hkeep.cutList_append hcut more
        rw [(drain_rest hcut hkeep _).1]
        cases hnext : cutList startMarker (keep ++ more) with
        | some parts =>
          rw [hnext] at hfirst
          rw [(drain_cut (m := false) hnext _).1, (drain_cut (m := false) hfirst _).1]
          simp [part]
        | none =>
          rw [hnext] at hfirst
          obtain ⟨front, keep', hfront, hnew⟩ := exists_withheld (keep ++ more)
          have hall := hkeep.append hnew
          dsimp only
          rw [← hfront] at hnext hnew ⊢
          rw [List.append_assoc, ← hfront, ← List.append_assoc] at hfirst hall ⊢
          rw [(drain_rest hnext hnew _).1, (drain_rest hfirst hall _).1, List.map_append, List.append_assoc]

/-- a state that came out of the input, after `out`: the normal bytes and pastes are those of the parse, but for what is
withheld; and that is the open paste, or the longest suffix that may begin a start marker -/
structure Parsed (inPaste : Bool) (input : List Char) (out : List Item) (j : Interceptor) : Prop where
  items : out ++ (parse inPaste input).1 = j.out ++ if j.inPaste then [] else j.buf.map .byte
  opened : (parse inPaste input).2 = if j.inPaste then some j.buf else none
  withheld : j.inPaste = false → Withheld startMarker input j.buf

theorem drain_parse (m : Bool) (buf : List Char) (out : List Item) : Parsed m buf out (drain ⟨m, buf, out⟩) := by
  induction hlength : buf.length using Nat.strong_induction_on generalizing m buf out with
  | _ n ih =>
    subst hlength
    cases hcut : cutList (marker m) buf with
    | some parts =>
      have hnext := ih _ (length_rest hcut (by cases m <;> decide)) (!m) parts.2 (out ++ part m parts.1) rfl
      rw [(drain_cut hcut out).1]
      refine ⟨?_, ?_, fun hclosed => ?_⟩
      · rw [(drain_cut hcut out).2, ← List.append_assoc]
        exact hnext.items
      · rw [(drain_cut hcut out).2]
        exact hnext.opened
      · have hbuf : buf = parts.1 ++ (marker m).dropLast ++ '~' :: parts.2 := by
          rw [cutList_eq_some _ _ _ _ hcut]
          cases m <;> simp [marker, startMarker, endMarker]
        rw [hbuf]
        exact (hnext.withheld hclosed).after _
    | none =>
      cases m with
      | true =>
        rw [(drain_open hcut _).1]
        exact ⟨by simp [drain_open hcut out], by simp [drain_open hcut out], nofun⟩
      | false =>
        obtain ⟨flush, keep, rfl, hkeep⟩ := exists_withheld buf
        rw [(drain_rest hcut hkeep _).1]
        exact ⟨by simp [drain_rest hcut hkeep out], by simp [drain_rest hcut hkeep out], fun _ => hkeep⟩

/-- **However the input is cut into chunks, what is written, what goes to rewrite and what is withheld are those of the
parse of the whole input.** -/
theorem chunks_parse (chunks : List (List Char)) : Parsed false chunks.flatten [] (chunks.foldl write {}) := by
  have hall : ∀ i : Interceptor, chunks.foldl write i.drain = i.write chunks.flatten := by
    induction chunks with
    | nil => simp [write]
    | cons p chunks ih =>
      intro i
      rw [List.foldl_cons, drain_append, write, ih, write, write, List.flatten_cons, ← List.append_assoc]
  have hinit : ({} : Interceptor).drain = {} := (@drain_rest [] [] rfl ⟨by simp, by simp, by decide, by simp⟩ []).1
  rw [← hinit, hall]
  exact drain_parse false _ []

end Interceptor

end Paperboat.Paste
