import ObjectLang.Proofs.Scoping.Exec
set_option autoImplicit false

/-!
# Frames

Scopes keep all bindings in one list and count those of each segment. They stand for a stack of
frames, each with bindings of its own: cutting the list at the counts gives the frames, every
operation on the scopes is the same operation on the frames, and questions have the same answers.
Nothing is asked of the counts for this, so it also holds behind segments that are closed without
having been opened.
-/

namespace ObjectLang

abbrev Bindings (α : Type) := List (String × α)

namespace Bindings

variable {α : Type}

def names (bindings : Bindings α) : List String := bindings.map Prod.fst

def update (name : String) (change : α → α) : Bindings α → Bindings α
  | [] => []
  | (key, value) :: rest =>
    if key = name then (key, change value) :: rest else (key, value) :: update name change rest

variable {name : String} {change : α → α}

theorem lookup_cons (key : String) (value : α) (rest : Bindings α) :
    List.lookup name ((key, value) :: rest) =
      if key = name then some value else rest.lookup name := by
  rw [List.lookup_cons]
  by_cases same : key = name
  · simp [same]
  · have differs : (name == key) = false := by simpa using Ne.symm same
    simp [same, differs]

theorem update_of_lookup {bindings : Bindings α} {value : α}
    (bound : bindings.lookup name = some value) :
    ∃ newer older, bindings = newer ++ (name, value) :: older ∧ name ∉ newer.names ∧
      bindings.update name change = newer ++ (name, change value) :: older := by
  induction bindings with
  | nil => cases bound
  | cons b rest ih =>
    obtain ⟨key, first⟩ := b
    rw [lookup_cons] at bound
    by_cases same : key = name
    · subst same
      rw [if_pos rfl] at bound
      cases bound
      exact ⟨[], rest, rfl, List.not_mem_nil, by simp [update]⟩
    · rw [if_neg same] at bound
      obtain ⟨newer, older, split, absent, changed⟩ := ih bound
      refine ⟨(key, first) :: newer, older, by rw [split]; rfl, ?_, by simp [update, same, changed]⟩
      rw [names, List.map_cons, List.mem_cons, not_or]
      exact ⟨fun eq => same eq.symm, absent⟩

theorem update_of_unbound {bindings : Bindings α} (unbound : bindings.lookup name = none) :
    bindings.update name change = bindings := by
  induction bindings with
  | nil => rfl
  | cons b rest ih =>
    obtain ⟨key, value⟩ := b
    rw [lookup_cons] at unbound
    split at unbound
    · cases unbound
    · rename_i differs
      rw [update, if_neg differs, ih unbound]

theorem take_update (count : Nat) (bindings : Bindings α) :
    (bindings.update name change).take count = update name change (bindings.take count) := by
  induction bindings generalizing count with
  | nil => simp [update]
  | cons b rest ih =>
    obtain ⟨key, value⟩ := b
    cases count with
    | zero => rfl
    | succ count =>
      by_cases same : key = name
      · simp [update, same]
      · simp [update, same, ih]

theorem drop_update (count : Nat) (bindings : Bindings α) :
    (bindings.update name change).drop count =
      if ((bindings.take count).lookup name).isSome then bindings.drop count
      else update name change (bindings.drop count) := by
  induction bindings generalizing count with
  | nil => simp [update]
  | cons b rest ih =>
    obtain ⟨key, value⟩ := b
    cases count with
    | zero => simp
    | succ count =>
      rw [List.take_succ_cons, lookup_cons]
      by_cases same : key = name
      · simp [update, same]
      · rw [if_neg same, update, if_neg same]
        exact ih count

end Bindings

inductive ScopeOperation (α : Type) where
  | push (name : String) (value : α)
  | openSegment (seed : List (String × α))
  | closeSegment
  | write (name : String) (change : α → α)

/-- A stack of frames. Under the frames that are open lies a ground that is never closed. -/
structure Frames (α : Type) where
  /-- The open frames, the innermost first. -/
  opened : List (Bindings α)
  ground : Bindings α

namespace Frames

variable {α : Type}

def new : Frames α := ⟨[[]], []⟩

def cover (frame : Bindings α) (frames : Frames α) : Frames α :=
  { frames with opened := frame :: frames.opened }

def innermost (frames : Frames α) : Bindings α := frames.opened.headD frames.ground

def all (frames : Frames α) : List (Bindings α) := frames.opened ++ [frames.ground]

def get? (frames : Frames α) (name : String) : Option α :=
  frames.all.findSome? (List.lookup name)

def isDeclared (frames : Frames α) (name : String) : Bool :=
  frames.all.any fun frame => frame.names.contains name

def isDeclaredLocal (frames : Frames α) (name : String) : Bool :=
  frames.innermost.names.contains name

def size (frames : Frames α) : Nat := frames.all.flatten.length

def isEmpty (frames : Frames α) : Bool := frames.all.all List.isEmpty

def push (name : String) (value : α) : Frames α → Frames α
  | ⟨[], ground⟩ => ⟨[], (name, value) :: ground⟩
  | ⟨frame :: outer, ground⟩ => ⟨((name, value) :: frame) :: outer, ground⟩

def closeSegment : Frames α → Frames α
  | ⟨[], _⟩ => ⟨[], []⟩
  | ⟨_ :: outer, ground⟩ => ⟨outer, ground⟩

def write (name : String) (change : α → α) (ground : Bindings α) :
    List (Bindings α) → Frames α
  | [] => ⟨[], ground.update name change⟩
  | frame :: outer =>
    if frame.names.contains name then ⟨frame.update name change :: outer, ground⟩
    else (write name change ground outer).cover frame

def perform (frames : Frames α) : ScopeOperation α → Frames α
  | .push name value => frames.push name value
  | .openSegment seed => frames.cover seed.reverse
  | .closeSegment => frames.closeSegment
  | .write name change => write name change frames.ground frames.opened

def run (frames : Frames α) (operations : List (ScopeOperation α)) : Frames α :=
  operations.foldl perform frames

def ofCounts : List Nat → Bindings α → Frames α
  | [], bindings => ⟨[], bindings⟩
  | count :: outer, bindings => (ofCounts outer (bindings.drop count)).cover (bindings.take count)

variable {name : String} {change : α → α}

theorem contains_names (bindings : Bindings α) (name : String) :
    bindings.names.contains name = (bindings.lookup name).isSome := by
  induction bindings with
  | nil => rfl
  | cons b rest ih =>
    obtain ⟨key, value⟩ := b
    rw [Bindings.lookup_cons, Bindings.names, List.map_cons, List.contains_cons]
    change (name == key || (Bindings.names rest).contains name) = _
    by_cases same : key = name
    · simp [same]
    · have differs : (name == key) = false := by simpa using Ne.symm same
      rw [ih, if_neg same, differs, Bool.false_or]

theorem all_cover (frame : Bindings α) (frames : Frames α) :
    (frames.cover frame).all = frame :: frames.all := rfl

theorem isDeclared_eq (frames : Frames α) (name : String) :
    frames.isDeclared name = (frames.get? name).isSome := by
  rw [isDeclared, get?]
  induction frames.all with
  | nil => rfl
  | cons frame outer ih =>
    rw [List.any_cons, List.findSome?_cons, contains_names, ih]
    cases frame.lookup name with
    | none => rfl
    | some value => rfl

theorem isEmpty_eq (frames : Frames α) : frames.isEmpty = (frames.size == 0) := by
  rw [isEmpty, size]
  induction frames.all with
  | nil => rfl
  | cons frame outer ih =>
    rw [List.all_cons, List.flatten_cons, ih]
    cases frame with
    | nil => rfl
    | cons b rest => simp

theorem get?_ofCounts (counts : List Nat) (bindings : Bindings α) (name : String) :
    (ofCounts counts bindings).get? name = bindings.lookup name := by
  induction counts generalizing bindings with
  | nil =>
    rw [ofCounts, get?, all, List.nil_append, List.findSome?_singleton]
  | cons count outer ih =>
    have split : bindings.lookup name =
        ((bindings.take count).lookup name).or ((bindings.drop count).lookup name) := by
      rw [← List.lookup_append, List.take_append_drop]
    rw [ofCounts, get?, all_cover, List.findSome?_cons, split, ← ih (bindings.drop count)]
    cases (bindings.take count).lookup name with
    | none => rfl
    | some value => rfl

theorem size_ofCounts (counts : List Nat) (bindings : Bindings α) :
    (ofCounts counts bindings).size = bindings.length := by
  induction counts generalizing bindings with
  | nil => simp [ofCounts, size, all]
  | cons count outer ih =>
    rw [ofCounts, size, all_cover, List.flatten_cons, List.length_append]
    change _ + (ofCounts outer (bindings.drop count)).size = _
    rw [ih, ← List.length_append, List.take_append_drop]

theorem write_ofCounts (counts : List Nat) (bindings : Bindings α) :
    write name change (ofCounts counts bindings).ground (ofCounts counts bindings).opened =
      ofCounts counts (bindings.update name change) := by
  induction counts generalizing bindings with
  | nil => rfl
  | cons count outer ih =>
    simp only [ofCounts, cover, write]
    rw [contains_names, Bindings.take_update, Bindings.drop_update]
    cases found : (bindings.take count).lookup name with
    | none =>
      rw [Bindings.update_of_unbound found, ih]
      rfl
    | some value => rfl

end Frames

namespace Scopes

variable {α : Type}

def write (s : Scopes α) (name : String) (change : α → α) : Scopes α :=
  ((s.get? name).bind fun value => s.set? name (change value)).getD s

def perform (s : Scopes α) : ScopeOperation α → Scopes α
  | .push name value => s.push name value
  | .openSegment seed => s.openSegment seed
  | .closeSegment => s.closeSegment
  | .write name change => s.write name change

def run (s : Scopes α) (operations : List (ScopeOperation α)) : Scopes α :=
  operations.foldl perform s

/-- The frames that scopes stand for. -/
def frames (s : Scopes α) : Frames α := Frames.ofCounts s.counts s.bindings

variable {name : String} {change : α → α}

theorem replace_eq_update {bindings : Bindings α} {value : α}
    (bound : bindings.lookup name = some value) :
    replace name (change value) bindings = some (bindings.update name change) := by
  induction bindings with
  | nil => cases bound
  | cons b rest ih =>
    obtain ⟨key, first⟩ := b
    rw [Bindings.lookup_cons] at bound
    by_cases same : key = name
    · rw [if_pos same] at bound
      cases bound
      simp [replace, Bindings.update, same]
    · rw [if_neg same] at bound
      simp [replace, Bindings.update, same, ih bound]

theorem write_eq (s : Scopes α) (name : String) (change : α → α) :
    s.write name change = { s with bindings := Bindings.update name change s.bindings } := by
  rw [write]
  cases bound : s.get? name with
  | none => rw [Bindings.update_of_unbound bound]; rfl
  | some value =>
    change ((replace name (change value) s.bindings).map _).getD s = _
    rw [replace_eq_update bound]
    rfl

theorem frames_push (s : Scopes α) (name : String) (value : α) :
    (s.push name value).frames = s.frames.push name value := by
  obtain ⟨bindings, counts⟩ := s
  cases counts with
  | nil => rfl
  | cons count outer => rfl

theorem frames_openSegment (s : Scopes α) (seed : List (String × α)) :
    (s.openSegment seed).frames = s.frames.cover seed.reverse := by
  rw [frames, openSegment, Frames.ofCounts, List.take_left' List.length_reverse,
    List.drop_left' List.length_reverse]
  rfl

theorem frames_closeSegment (s : Scopes α) : s.closeSegment.frames = s.frames.closeSegment := by
  obtain ⟨bindings, counts⟩ := s
  cases counts with
  | nil => rfl
  | cons count outer => rfl

theorem frames_write (s : Scopes α) (name : String) (change : α → α) :
    (s.write name change).frames =
      Frames.write name change s.frames.ground s.frames.opened := by
  rw [write_eq, frames, frames, Frames.write_ofCounts]

theorem frames_perform (s : Scopes α) (operation : ScopeOperation α) :
    (s.perform operation).frames = s.frames.perform operation := by
  cases operation with
  | push name value => exact frames_push s name value
  | openSegment seed => exact frames_openSegment s seed
  | closeSegment => exact frames_closeSegment s
  | write name change => exact frames_write s name change

theorem frames_run (s : Scopes α) (operations : List (ScopeOperation α)) :
    (s.run operations).frames = s.frames.run operations := by
  induction operations generalizing s with
  | nil => rfl
  | cons operation rest ih =>
    change ((s.perform operation).run rest).frames = (s.frames.perform operation).run rest
    rw [ih, frames_perform]

/-- Scopes and frames give every question the same answer. -/
structure Agrees (s : Scopes α) (frames : Frames α) : Prop where
  get? : ∀ name, s.get? name = frames.get? name
  isDeclared : ∀ name, s.isDeclared name = frames.isDeclared name
  isDeclaredLocal : ∀ name, s.isDeclaredLocal name = frames.isDeclaredLocal name
  size : s.size = frames.size
  isEmpty : s.isEmpty = frames.isEmpty

theorem innermost_frames (s : Scopes α) : s.frames.innermost = s.innermost := by
  obtain ⟨bindings, counts⟩ := s
  cases counts with
  | nil => rfl
  | cons count outer => rfl

theorem agrees_frames (s : Scopes α) : s.Agrees s.frames where
  get? name := (Frames.get?_ofCounts s.counts s.bindings name).symm
  isDeclared name := by
    rw [Frames.isDeclared_eq, frames, Frames.get?_ofCounts]
    rfl
  isDeclaredLocal name := by
    rw [Frames.isDeclaredLocal, innermost_frames, Frames.contains_names]
    rfl
  size := (Frames.size_ofCounts s.counts s.bindings).symm
  isEmpty := by
    rw [Frames.isEmpty_eq, frames, Frames.size_ofCounts, Scopes.isEmpty]
    cases s.bindings with
    | nil => rfl
    | cons b rest => rfl

end Scopes

/-- Operations that close what they open, and nothing else. -/
inductive Paired {α : Type} : List (ScopeOperation α) → Prop where
  | nil : Paired []
  | push (name : String) (value : α) {rest : List (ScopeOperation α)} (paired : Paired rest) :
      Paired (.push name value :: rest)
  | write (name : String) (change : α → α) {rest : List (ScopeOperation α)}
      (paired : Paired rest) : Paired (.write name change :: rest)
  | segment (seed : List (String × α)) {inside behind : List (ScopeOperation α)}
      (paired : Paired inside) (next : Paired behind) :
      Paired (.openSegment seed :: inside ++ .closeSegment :: behind)

/-- How many segments stand open, of those that operations opened, behind one operation more. -/
def ScopeOperation.standing {α : Type} (count : Nat) : ScopeOperation α → Nat
  | .openSegment _ => count + 1
  | .closeSegment => count - 1
  | .push .. | .write .. => count

namespace Frames

variable {α : Type} {frames : Frames α} {count : Nat}

/-- Only frames that operations opened are open, or under them the first one over a bare ground. -/
def Counted (count : Nat) (frames : Frames α) : Prop :=
  frames.opened.length = count ∨ frames.opened.length = count + 1 ∧ frames.ground = []

theorem length_push (name : String) (value : α) (frames : Frames α) :
    (frames.push name value).opened.length = frames.opened.length := by
  obtain ⟨opened, ground⟩ := frames
  cases opened with
  | nil => rfl
  | cons frame outer => rfl

theorem length_closeSegment (frames : Frames α) :
    frames.closeSegment.opened.length = frames.opened.length - 1 := by
  obtain ⟨opened, ground⟩ := frames
  cases opened with
  | nil => rfl
  | cons frame outer => rfl

theorem length_write (name : String) (change : α → α) (ground : Bindings α)
    (opened : List (Bindings α)) :
    (write name change ground opened).opened.length = opened.length := by
  induction opened with
  | nil => rfl
  | cons frame outer ih =>
    rw [write]
    split
    · rfl
    · exact congrArg Nat.succ ih

/-- Above an open frame the ground is not written to, and what is bare has nothing to write to. -/
theorem ground_perform (bare : frames.ground = []) (inside : frames.opened ≠ [])
    (operation : ScopeOperation α) : (frames.perform operation).ground = [] := by
  obtain ⟨opened, ground⟩ := frames
  dsimp only at bare
  subst bare
  cases operation with
  | push name value =>
    cases opened with
    | nil => exact absurd rfl inside
    | cons frame outer => rfl
  | openSegment seed => rfl
  | closeSegment =>
    cases opened with
    | nil => rfl
    | cons frame outer => rfl
  | write name change =>
    change (write name change [] opened).ground = []
    clear inside
    induction opened with
    | nil => rfl
    | cons frame outer ih =>
      rw [write]
      split
      · rfl
      · exact ih

theorem Counted.perform (h : Counted count frames) (operation : ScopeOperation α) :
    Counted (operation.standing count) (frames.perform operation) := by
  have length : (frames.perform operation).opened.length =
      operation.standing frames.opened.length := by
    cases operation with
    | push name value => exact length_push name value frames
    | openSegment seed => rfl
    | closeSegment => exact length_closeSegment frames
    | write name change => exact length_write name change frames.ground frames.opened
  rcases h with same | ⟨more, bare⟩
  · exact .inl (by rw [length, same])
  · have ground := ground_perform bare (List.ne_nil_of_length_eq_add_one more) operation
    rw [more] at length
    cases operation with
    | closeSegment =>
      cases count with
      | zero => exact .inl length
      | succ count => exact .inr ⟨length, ground⟩
    | _ => exact .inr ⟨length, ground⟩

theorem Counted.run (h : Counted count frames) (operations : List (ScopeOperation α)) :
    Counted (operations.foldl ScopeOperation.standing count) (frames.run operations) := by
  induction operations generalizing count frames with
  | nil => exact h
  | cons operation rest ih => exact ih (h.perform operation)

/-- A segment that no operation opened is closed with everything in it. -/
theorem Counted.closeSegment (h : Counted 0 frames) : frames.closeSegment = ⟨[], []⟩ := by
  obtain ⟨opened, ground⟩ := frames
  rcases h with none | ⟨one, bare⟩
  · cases List.length_eq_zero_iff.1 none
    rfl
  · obtain ⟨frame, rfl⟩ := List.length_eq_one_iff.1 one
    cases bare
    rfl

end Frames

namespace Scopes

variable {α : Type}

theorem eq_of_frames {s : Scopes α} (bare : s.frames = ⟨[], []⟩) : s = ⟨[], []⟩ := by
  obtain ⟨bindings, counts⟩ := s
  cases counts with
  | nil =>
    cases bare
    rfl
  | cons count outer => cases congrArg Frames.opened bare

end Scopes
end ObjectLang
