/-
Package path/filepath of the Go standard library on Unix, for absolute and relative
paths.

A path is a text; Clean goes over its parts from the left and keeps those that are left
in a stack, the last one on top.

Results:
- `isAbs_clean`: an absolute path stays absolute
- `dir_isAbs`: so does its folder
- `join_ne_empty`: a folder and a name never make an empty path
-/
import Mathlib.Data.List.DropRight
import Paperboat.Core.Text

namespace Paperboat.Filepath

open Text

/-- filepath.IsAbs -/
def isAbs (path : String) : Bool := hasPrefix path "/"

/-- one part of a path, after those on the stack -/
def push (rooted : Bool) (stack : List String) (part : String) : List String :=
  if part = "" ∨ part = "." then stack
  else if part = ".." then
    match stack with
    | [] => if rooted then [] else [".."]
    | top :: below => if top = ".." then ".." :: stack else below
  else part :: stack

/-- filepath.Clean -/
def clean (path : String) : String :=
  let rooted := isAbs path
  let body := "/".intercalate ((split path '/').foldl (push rooted) []).reverse
  if rooted then "/" ++ body else if body = "" then "." else body

/-- filepath.Dir: what is up to the last slash -/
def dir (path : String) : String := clean (String.ofList (path.toList.rdropWhile (· ≠ '/')))

/-- filepath.Ext: the last element from its last dot on -/
def ext (path : String) : String :=
  let last := path.toList.rtakeWhile (· ≠ '/')
  if '.' ∈ last then String.ofList ('.' :: last.rtakeWhile (· ≠ '.')) else ""

/-- filepath.Join of two elements -/
def join (root name : String) : String :=
  if root ≠ "" then clean (root ++ "/" ++ name) else if name ≠ "" then clean name else ""

variable {path root : String}

theorem isAbs_iff : isAbs path = true ↔ ∃ rest, path.toList = '/' :: rest := by
  unfold isAbs hasPrefix
  rw [decide_eq_true_eq]
  constructor
  · rintro ⟨rest, hrest⟩
    exact ⟨rest, hrest.symm⟩
  · rintro ⟨rest, hrest⟩
    exact ⟨rest, hrest.symm⟩

theorem isAbs_clean (h : isAbs path = true) : isAbs (clean path) = true := by
  unfold clean
  rw [h, if_pos rfl, isAbs_iff]
  exact ⟨_, by rw [String.toList_append]; rfl⟩

theorem dir_isAbs (h : isAbs path = true) : isAbs (dir path) = true := by
  obtain ⟨rest, hrest⟩ := isAbs_iff.1 h
  refine isAbs_clean (isAbs_iff.2 ?_)
  -- what is left is a first part of the path, and not empty since there is a slash
  obtain ⟨tail, htail⟩ := List.rdropWhile_prefix (· ≠ '/') path.toList
  have hne : path.toList.rdropWhile (· ≠ '/') ≠ [] := by
    rw [ne_eq, List.rdropWhile_eq_nil_iff, hrest]
    simp
  obtain ⟨c, cs, hcs⟩ := List.exists_cons_of_ne_nil hne
  rw [hcs, hrest, List.cons_append, List.cons.injEq] at htail
  exact ⟨cs, by rw [String.toList_ofList, hcs, htail.1]⟩

theorem ne_empty_of_isAbs (h : isAbs path = true) : path ≠ "" := by
  rintro rfl
  obtain ⟨rest, hrest⟩ := isAbs_iff.1 h
  simp at hrest

theorem join_ne_empty (name : String) (h : isAbs root = true) : join root name ≠ "" := by
  unfold join
  rw [if_pos (ne_empty_of_isAbs h)]
  obtain ⟨rest, hrest⟩ := isAbs_iff.1 h
  refine ne_empty_of_isAbs (isAbs_clean (isAbs_iff.2 ⟨rest ++ '/' :: name.toList, ?_⟩))
  rw [String.toList_append, String.toList_append, hrest]
  simp

example : clean "/inbox/../a//./b" = "/a/b" := by decide +kernel

end Paperboat.Filepath
