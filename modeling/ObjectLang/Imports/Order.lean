import ObjectLang.Imports.Line
import ObjectLang.Imports.Path
import ObjectLang.NameMap
import ObjectLang.Source
import ObjectLang.Text.Lines
set_option autoImplicit false

/-!
# The order of files

Files are listed behind the files they import, each once, with the entry file last. Imports are
followed in depth and in the order of their lines; one that leads back to a file already met is
skipped, so cycles do no harm. Every file that is entered leaves one unseen file fewer.
-/

namespace ObjectLang.Imports

def targets (path text : String) : List String :=
  ((Text.lines text.toList).filterMap target?).map (relativeTo path)

structure Search where
  /-- The components of the paths that were met. -/
  seen : List (Option (List Char) × List (List Char)) := []
  /-- The files found so far, each behind those it imports. -/
  sources : List SourceFile := []

namespace Search

def hasSeen (s : Search) (path : String) : Bool := s.seen.contains (components path)

def see (s : Search) (path : String) : Search :=
  { s with seen := components path :: s.seen }

def add (s : Search) (file : SourceFile) : Search := { s with sources := s.sources ++ [file] }

def unseen (s : Search) (paths : List String) : Nat := paths.countP fun p => !s.hasSeen p

theorem unseen_cons (s : Search) (p : String) (rest : List String) :
    s.unseen (p :: rest) = s.unseen rest + if s.hasSeen p then 0 else 1 := by
  simp only [unseen, List.countP_cons]
  cases s.hasSeen p <;> rfl

theorem hasSeen_see (s : Search) (path other : String) :
    (s.see path).hasSeen other = (components other == components path || s.hasSeen other) :=
  rfl

theorem hasSeen_see_self (s : Search) (path : String) : (s.see path).hasSeen path = true := by
  simp [hasSeen_see]

theorem unseen_see_le (s : Search) (path : String) (paths : List String) :
    (s.see path).unseen paths ≤ s.unseen paths := by
  apply List.countP_mono_left
  intro p _ h
  simp only [hasSeen_see, Bool.not_or, Bool.and_eq_true] at h
  exact h.2

theorem unseen_see_lt {s : Search} {path : String} {paths : List String} (hm : path ∈ paths)
    (h : s.hasSeen path = false) : (s.see path).unseen paths < s.unseen paths := by
  induction paths with
  | nil => cases hm
  | cons p rest ih =>
    have hrest := unseen_see_le s path rest
    simp only [unseen_cons]
    rcases List.mem_cons.1 hm with rfl | hm
    · simp only [hasSeen_see_self, h, if_true, Bool.false_eq_true, if_false]
      omega
    · have hlt := ih hm
      have hp : s.hasSeen p = true → (s.see path).hasSeen p = true := by
        simp only [hasSeen_see, Bool.or_eq_true]
        exact Or.inr
      cases hs : s.hasSeen p
      · split <;> simp <;> omega
      · simp only [hp hs, if_true]
        omega

end Search

/-- A search gone on from `s`, with no more unseen files than there were. -/
structure Reached (files : NameMap String) (s : Search) where
  search : Search
  unseen_le : search.unseen files.names ≤ s.unseen files.names

theorem mem_names_of_find? {files : NameMap String} {path text : String}
    (h : files.find? path = some text) : path ∈ files.names := by
  obtain ⟨before, after, he, -⟩ := List.lookup_eq_some_iff.1 h
  simp [NameMap.names, he]

mutual

/-- Lists the file at `path` behind all that it imports; fails with the first missing path. -/
def visitFile (files : NameMap String) (path : String) (s : Search) :
    Except String (Reached files s) :=
  if hs : s.hasSeen path then .ok ⟨s, Nat.le_refl _⟩
  else
    match hf : files.find? path with
    | none => .error path
    | some text =>
      have lt := Search.unseen_see_lt (mem_names_of_find? hf) (Bool.eq_false_iff.2 hs)
      match visitFiles files (targets path text) (s.see path) with
      | .error missing => .error missing
      | .ok r =>
        .ok ⟨r.search.add ⟨path, text⟩, Nat.le_trans r.unseen_le (Nat.le_of_lt lt)⟩
termination_by (s.unseen files.names, 0)

def visitFiles (files : NameMap String) (paths : List String) (s : Search) :
    Except String (Reached files s) :=
  match paths with
  | [] => .ok ⟨s, Nat.le_refl _⟩
  | path :: rest =>
    match visitFile files path s with
    | .error missing => .error missing
    | .ok r =>
      have le := r.unseen_le
      match visitFiles files rest r.search with
      | .error missing => .error missing
      | .ok q => .ok ⟨q.search, Nat.le_trans q.unseen_le le⟩
termination_by (s.unseen files.names, paths.length + 1)
decreasing_by all_goals simp only [Prod.lex_def, List.length_cons, true_and]; omega

end

/-- The files that `entry` needs, in the order in which they are to be compiled, or the first path
    that leads to no file. -/
def order (files : NameMap String) (entry : String) : Except String (List SourceFile) :=
  (visitFile files entry {}).map fun r => r.search.sources

end ObjectLang.Imports
