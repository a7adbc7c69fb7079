import Mathlib.Logic.Relation
import ObjectLang.Imports.Order
set_option autoImplicit false

/-!
# The search for imports

The search as a relation between where it begins and what it comes to, without a measure. Every
search ends, and in one way only.
-/

namespace ObjectLang.Imports

variable {files : NameMap String}

def importsOf (files : NameMap String) (path : String) : List String :=
  match files.find? path with
  | none => []
  | some text => targets path text

theorem importsOf_eq {path text : String} (h : files.find? path = some text) :
    importsOf files path = targets path text := by
  simp [importsOf, h]

/-- A search for some paths in order, from where it begins to what it comes to. A path that was met
    is left out; otherwise the paths that its file imports are searched for first, and then the file is
    listed. The first path that leads to no file ends the search. -/
inductive Visits (files : NameMap String) : List String → Search → Except String Search → Prop
  | nil {s : Search} : Visits files [] s (.ok s)
  | met {path : String} {rest : List String} {s : Search} {r : Except String Search}
      (seen : s.hasSeen path = true) (more : Visits files rest s r) :
      Visits files (path :: rest) s r
  | missing {path : String} {rest : List String} {s : Search} (unseen : s.hasSeen path = false)
      (missing : files.find? path = none) : Visits files (path :: rest) s (.error path)
  | broken {path text lost : String} {rest : List String} {s : Search}
      (unseen : s.hasSeen path = false) (found : files.find? path = some text)
      (inside : Visits files (targets path text) (s.see path) (.error lost)) :
      Visits files (path :: rest) s (.error lost)
  | file {path text : String} {rest : List String} {s t : Search} {r : Except String Search}
      (unseen : s.hasSeen path = false) (found : files.find? path = some text)
      (inside : Visits files (targets path text) (s.see path) (.ok t))
      (more : Visits files rest (t.add ⟨path, text⟩) r) : Visits files (path :: rest) s r

namespace Visits

/-- A search comes to one result only. -/
theorem unique {paths : List String} {s : Search} {r r' : Except String Search}
    (h : Visits files paths s r) (h' : Visits files paths s r') : r = r' := by
  induction h generalizing r' with
  | nil => cases h' with | nil => rfl
  | met seen _ ih =>
    cases h' with
    | met _ more' => exact ih more'
    | missing unseen' | broken unseen' | file unseen' => simp [seen] at unseen'
  | missing unseen missing =>
    cases h' with
    | met seen' => simp [unseen] at seen'
    | missing => rfl
    | broken _ found' | file _ found' => simp [missing] at found'
  | broken unseen found _ ih =>
    cases h' with
    | met seen' => simp [unseen] at seen'
    | missing _ missing' => simp [found] at missing'
    | broken _ found' inside' =>
      obtain rfl := Option.some.inj (found.symm.trans found')
      exact ih inside'
    | file _ found' inside' =>
      obtain rfl := Option.some.inj (found.symm.trans found')
      cases ih inside'
  | file unseen found _ _ ih ih_more =>
    cases h' with
    | met seen' => simp [unseen] at seen'
    | missing _ missing' => simp [found] at missing'
    | broken _ found' inside' =>
      obtain rfl := Option.some.inj (found.symm.trans found')
      cases ih inside'
    | file _ found' inside' more' =>
      obtain rfl := Option.some.inj (found.symm.trans found')
      obtain rfl := Except.ok.inj (ih inside')
      exact ih_more more'

end Visits

theorem visitFile_met {path : String} {s : Search} (seen : s.hasSeen path = true) :
    (visitFile files path s).map Reached.search = .ok s := by
  rw [visitFile, dif_pos seen]
  rfl

theorem visitFile_missing {path : String} {s : Search} (unseen : s.hasSeen path = false)
    (missing : files.find? path = none) : visitFile files path s = .error path := by
  rw [visitFile, dif_neg (by simp [unseen])]
  split
  · rfl
  · rename_i found
    simp [missing] at found

theorem visitFile_found {path text : String} {s : Search} (unseen : s.hasSeen path = false)
    (found : files.find? path = some text) :
    (visitFile files path s).map Reached.search =
      ((visitFiles files (targets path text) (s.see path)).map Reached.search).map
        fun t => t.add ⟨path, text⟩ := by
  rw [visitFile, dif_neg (by simp [unseen])]
  split
  · rename_i missing
    simp [missing] at found
  · rename_i text' found'
    obtain rfl := Option.some.inj (found.symm.trans found')
    cases visitFiles files (targets path text) (s.see path) <;> rfl

theorem visitFiles_nil (s : Search) :
    (visitFiles files [] s).map Reached.search = .ok s := by
  simp only [visitFiles]
  rfl

theorem visitFiles_cons (path : String) (rest : List String) (s : Search) :
    (visitFiles files (path :: rest) s).map Reached.search =
      ((visitFile files path s).map Reached.search).bind fun t =>
        (visitFiles files rest t).map Reached.search := by
  simp only [visitFiles]
  cases visitFile files path s with
  | error lost => rfl
  | ok r =>
    simp only [Except.map, Except.bind]
    cases visitFiles files rest r.search <;> rfl

theorem visits_visitFiles (files : NameMap String) (paths : List String) (s : Search) :
    Visits files paths s ((visitFiles files paths s).map Reached.search) := by
  match paths with
  | [] =>
    rw [visitFiles_nil]
    exact .nil
  | path :: rest =>
    rw [visitFiles_cons]
    cases seen : s.hasSeen path with
    | true =>
      rw [visitFile_met seen]
      exact .met seen (visits_visitFiles files rest s)
    | false =>
      cases found : files.find? path with
      | none =>
        rw [visitFile_missing seen found]
        exact .missing seen found
      | some text =>
        have less := Search.unseen_see_lt (mem_names_of_find? found) seen
        have inside := visits_visitFiles files (targets path text) (s.see path)
        rw [visitFile_found seen found]
        cases reached : visitFiles files (targets path text) (s.see path) with
        | error lost =>
          rw [reached] at inside
          exact .broken seen found inside
        | ok r =>
          rw [reached] at inside
          have le : (r.search.add ⟨path, text⟩).unseen files.names < s.unseen files.names :=
            Nat.lt_of_le_of_lt r.unseen_le less
          exact .file seen found inside (visits_visitFiles files rest _)
termination_by (s.unseen files.names, paths.length)

/-- What is found for an entry is what the steps from it lead to, and these always end. -/
theorem visits_iff (files : NameMap String) (entry : String) (r : Except String Search) :
    Visits files [entry] {} r ↔ (visitFile files entry {}).map Reached.search = r := by
  have run := visits_visitFiles files [entry] {}
  have same : (visitFiles files [entry] {}).map Reached.search =
      (visitFile files entry {}).map Reached.search := by
    rw [visitFiles_cons]
    cases (visitFile files entry {}).map Reached.search with
    | error lost => rfl
    | ok t => exact visitFiles_nil t
  rw [same] at run
  exact ⟨fun h => run.unique h, fun h => h ▸ run⟩

end ObjectLang.Imports
