set_option autoImplicit false

/-!
# Scoped bindings

Names are bound in segments that open and close like brackets. All bindings stand in one list, the
newest first, and every open segment counts the bindings made in it, so closing a segment drops
exactly these. Under the open segments lies a ground that is never closed: closing once more than
was opened empties it.
-/

namespace ObjectLang

structure Scopes (α : Type) where
  bindings : List (String × α) := []
  /-- Bindings made in each open segment, the innermost first. -/
  counts : List Nat := [0]

namespace Scopes

variable {α : Type}

def empty : Scopes α := {}

instance : Inhabited (Scopes α) := ⟨empty⟩

def size (s : Scopes α) : Nat := s.bindings.length

def isEmpty (s : Scopes α) : Bool := s.bindings.isEmpty

def get? (s : Scopes α) (name : String) : Option α := s.bindings.lookup name

def isDeclared (s : Scopes α) (name : String) : Bool := (s.get? name).isSome

def innermost (s : Scopes α) : List (String × α) :=
  match s.counts with
  | [] => s.bindings
  | count :: _ => s.bindings.take count

/-- Whether the newest binding of `name` was made in the innermost segment. -/
def isDeclaredLocal (s : Scopes α) (name : String) : Bool :=
  (s.innermost.lookup name).isSome

def push (s : Scopes α) (name : String) (value : α) : Scopes α where
  bindings := (name, value) :: s.bindings
  counts :=
    match s.counts with
    | [] => []
    | count :: outer => (count + 1) :: outer

/-- Opens a segment that holds `seed`, the last of it the newest. -/
def openSegment (s : Scopes α) (seed : List (String × α)) : Scopes α where
  bindings := seed.reverse ++ s.bindings
  counts := seed.length :: s.counts

def closeSegment (s : Scopes α) : Scopes α :=
  match s.counts with
  | [] => { bindings := [], counts := [] }
  | count :: outer => { bindings := s.bindings.drop count, counts := outer }

/-- Replaces the value of the first entry for `name`; `none` if there is no entry. -/
def replace (name : String) (value : α) : List (String × α) → Option (List (String × α))
  | [] => none
  | (key, old) :: rest =>
    if key = name then some ((key, value) :: rest)
    else (replace name value rest).map ((key, old) :: ·)

def set? (s : Scopes α) (name : String) (value : α) : Option (Scopes α) :=
  (replace name value s.bindings).map fun bindings => { s with bindings }

theorem get?_push_self (s : Scopes α) (name : String) (value : α) :
    (s.push name value).get? name = some value := by
  simp [push, get?]

theorem get?_push_of_ne (s : Scopes α) {name other : String} (h : other ≠ name) (value : α) :
    (s.push name value).get? other = s.get? other := by
  have hb : (other == name) = false := by simpa using h
  simp [push, get?, List.lookup_cons, hb]

theorem closeSegment_openSegment (s : Scopes α) (seed : List (String × α)) :
    (s.openSegment seed).closeSegment = s := by
  have h : (seed.reverse ++ s.bindings).drop seed.length = s.bindings :=
    List.drop_left' List.length_reverse
  simp only [openSegment, closeSegment, h]

end Scopes
end ObjectLang
