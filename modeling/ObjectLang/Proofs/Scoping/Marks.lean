import ObjectLang.Proofs.Scoping.Frames
set_option autoImplicit false

/-!
# Scopes on one stack with marks

The bindings of all segments can stand on one stack, the newest on top, if a mark for every open segment
keeps the height that the stack had when the segment was opened. Closing the segment cuts the stack
down to its mark. What scopes count is how far the marks are apart. That is a number of bindings because
the marks ascend and none of them stands above the top, whatever is opened and closed.
-/

namespace ObjectLang

structure MarkedStack (α : Type) where
  /-- All bindings, the oldest first. -/
  stack : Bindings α := []
  /-- Where the open segments begin in the stack, the innermost last. -/
  marks : List Nat := [0]

namespace MarkedStack

variable {α : Type}

def empty : MarkedStack α := {}

/-- Where the newest binding of a name stands; it is looked for from the top down. -/
def position? (m : MarkedStack α) (name : String) : Option Nat :=
  (m.stack.reverse.findIdx? (·.1 == name)).map fun above => m.stack.length - 1 - above

def get? (m : MarkedStack α) (name : String) : Option α :=
  (m.position? name).bind fun i => m.stack[i]?.map Prod.snd

def isDeclared (m : MarkedStack α) (name : String) : Bool := (m.position? name).isSome

def floor (m : MarkedStack α) : Nat := m.marks.getLast?.getD 0

def isDeclaredLocal (m : MarkedStack α) (name : String) : Bool :=
  (m.position? name).any fun i => m.floor ≤ i

def size (m : MarkedStack α) : Nat := m.stack.length

def isEmpty (m : MarkedStack α) : Bool := m.stack.isEmpty

def push (m : MarkedStack α) (name : String) (value : α) : MarkedStack α :=
  { m with stack := m.stack ++ [(name, value)] }

def openSegment (m : MarkedStack α) (seed : List (String × α)) : MarkedStack α where
  stack := m.stack ++ seed
  marks := m.marks ++ [m.stack.length]

def closeSegment (m : MarkedStack α) : MarkedStack α where
  stack := m.stack.take m.floor
  marks := m.marks.dropLast

def write (m : MarkedStack α) (name : String) (change : α → α) : MarkedStack α :=
  match m.position? name with
  | none => m
  | some i => { m with stack := m.stack.modify i fun b => (b.1, change b.2) }

def perform (m : MarkedStack α) : ScopeOperation α → MarkedStack α
  | .push name value => m.push name value
  | .openSegment seed => m.openSegment seed
  | .closeSegment => m.closeSegment
  | .write name change => m.write name change

def run (m : MarkedStack α) (operations : List (ScopeOperation α)) : MarkedStack α :=
  operations.foldl perform m

variable {m : MarkedStack α} {name : String} {change : α → α}

/-- The marks ascend, and none stands above the top. -/
structure Formed (m : MarkedStack α) : Prop where
  ascending : m.marks.Pairwise (· ≤ ·)
  below : ∀ mark ∈ m.marks, mark ≤ m.stack.length

theorem formed_empty : (empty : MarkedStack α).Formed :=
  ⟨List.pairwise_singleton _ _, fun _ mem => Nat.le_of_eq (List.mem_singleton.1 mem)⟩

theorem length_write (m : MarkedStack α) (name : String) (change : α → α) :
    (m.write name change).stack.length = m.stack.length := by
  unfold write
  split
  · rfl
  · exact List.length_modify _ _ _

theorem marks_write (m : MarkedStack α) (name : String) (change : α → α) :
    (m.write name change).marks = m.marks := by
  unfold write
  split <;> rfl

theorem formed_push (h : m.Formed) (name : String) (value : α) : (m.push name value).Formed := by
  refine ⟨h.ascending, fun mark mem => ?_⟩
  rw [push, List.length_append]
  exact Nat.le_add_right_of_le (h.below mark mem)

theorem formed_openSegment (h : m.Formed) (seed : List (String × α)) :
    (m.openSegment seed).Formed := by
  refine ⟨List.pairwise_append.2 ⟨h.ascending, List.pairwise_singleton _ _, ?_⟩, fun mark mem => ?_⟩
  · intro mark mem top same
    exact List.mem_singleton.1 same ▸ h.below mark mem
  · rw [openSegment, List.length_append]
    rcases List.mem_append.1 mem with older | top
    · exact Nat.le_add_right_of_le (h.below mark older)
    · exact Nat.le_add_right_of_le (Nat.le_of_eq (List.mem_singleton.1 top))

/-- Marks that stay are not above the one that the stack is cut down to. -/
theorem formed_closeSegment (h : m.Formed) : m.closeSegment.Formed := by
  obtain ⟨stack, marks⟩ := m
  induction marks using List.reverseRecOn with
  | nil => exact ⟨.nil, nofun⟩
  | append_singleton outer mark _ =>
    obtain ⟨ascending, -, under⟩ := List.pairwise_append.1 h.ascending
    have floor : floor ⟨stack, outer ++ [mark]⟩ = mark := by simp [MarkedStack.floor]
    have inside : mark ≤ stack.length := h.below mark (by simp)
    rw [closeSegment, floor, List.dropLast_concat]
    refine ⟨ascending, fun older mem => ?_⟩
    rw [List.length_take, Nat.min_eq_left inside]
    exact under older mem mark (by simp)

theorem formed_perform (h : m.Formed) (operation : ScopeOperation α) :
    (m.perform operation).Formed := by
  cases operation with
  | push name value => exact formed_push h name value
  | openSegment seed => exact formed_openSegment h seed
  | closeSegment => exact formed_closeSegment h
  | write name change =>
    refine ⟨?_, ?_⟩ <;> rw [perform, marks_write]
    · exact h.ascending
    · rw [length_write]
      exact h.below

theorem formed_run (h : m.Formed) (operations : List (ScopeOperation α)) :
    (m.run operations).Formed := by
  induction operations generalizing m with
  | nil => exact h
  | cons operation rest ih => exact ih (formed_perform h operation)

/-- How far marks are apart, from the top down. -/
def counts (top : Nat) : List Nat → List Nat
  | [] => []
  | mark :: outer => (top - mark) :: counts mark outer

/-- The scopes that the stack stands for. -/
def scopes (m : MarkedStack α) : Scopes α := ⟨m.stack.reverse, counts m.stack.length m.marks.reverse⟩

end MarkedStack

namespace Bindings

variable {α : Type} {name : String} {change : α → α}

theorem findIdx?_cons (key : String) (value : α) (rest : Bindings α) :
    List.findIdx? (·.1 == name) ((key, value) :: rest) =
      if key = name then some 0 else (rest.findIdx? (·.1 == name)).map (· + 1) := by
  simp [List.findIdx?_cons]

theorem lookup_eq (bindings : Bindings α) (name : String) :
    bindings.lookup name =
      (bindings.findIdx? (·.1 == name)).bind fun i => bindings[i]?.map Prod.snd := by
  induction bindings with
  | nil => rfl
  | cons b rest ih =>
    obtain ⟨key, value⟩ := b
    rw [lookup_cons, findIdx?_cons]
    split
    · rfl
    · rw [ih, Option.bind_map]
      rfl

theorem isSome_lookup (bindings : Bindings α) (name : String) :
    (bindings.lookup name).isSome = (bindings.findIdx? (·.1 == name)).isSome := by
  rw [lookup_eq]
  cases found : bindings.findIdx? (·.1 == name) with
  | none => rfl
  | some i =>
    obtain ⟨inside, -⟩ := List.findIdx?_eq_some_iff_getElem.1 found
    rw [Option.bind_some, List.getElem?_eq_getElem inside]
    rfl

theorem update_eq_modify {bindings : Bindings α} {i : Nat}
    (found : bindings.findIdx? (·.1 == name) = some i) :
    bindings.update name change = bindings.modify i fun b => (b.1, change b.2) := by
  induction bindings generalizing i with
  | nil => cases found
  | cons b rest ih =>
    obtain ⟨key, value⟩ := b
    rw [findIdx?_cons] at found
    split at found
    · rename_i same
      cases found
      rw [update, if_pos same]
      rfl
    · rename_i differs
      obtain ⟨j, inside, rfl⟩ := Option.map_eq_some_iff.1 found
      rw [update, if_neg differs, ih inside]
      rfl

/-- Counting positions from the other end. -/
theorem reverse_modify (bindings : Bindings α) (change : String × α → String × α) {i : Nat}
    (inside : i < bindings.length) :
    (bindings.modify (bindings.length - 1 - i) change).reverse = bindings.reverse.modify i change := by
  refine List.ext_getElem? fun j => ?_
  by_cases within : j < bindings.length
  · rw [List.getElem?_reverse (by rwa [List.length_modify]), List.getElem?_modify,
      List.getElem?_modify, List.getElem?_reverse within, List.length_modify]
    have same : bindings.length - 1 - i = bindings.length - 1 - j ↔ i = j := by omega
    simp only [same]
  · rw [List.getElem?_eq_none (by simpa using within), List.getElem?_eq_none (by simpa using within)]

end Bindings

namespace MarkedStack

variable {α : Type} {m : MarkedStack α} {name : String} {change : α → α}

theorem scopes_push (h : m.Formed) (name : String) (value : α) :
    (m.push name value).scopes = m.scopes.push name value := by
  obtain ⟨stack, marks⟩ := m
  simp only [scopes, push, Scopes.push, List.reverse_append, List.length_append]
  cases below : marks.reverse with
  | nil => rfl
  | cons mark outer =>
    have inside : mark ≤ stack.length :=
      h.below mark (List.mem_reverse.1 (below ▸ List.mem_cons_self))
    simp only [counts, List.length_singleton, Nat.sub_add_comm inside]
    rfl

theorem scopes_openSegment (m : MarkedStack α) (seed : List (String × α)) :
    (m.openSegment seed).scopes = m.scopes.openSegment seed := by
  simp [scopes, openSegment, Scopes.openSegment, counts]

theorem scopes_closeSegment (h : m.Formed) : m.closeSegment.scopes = m.scopes.closeSegment := by
  obtain ⟨stack, marks⟩ := m
  induction marks using List.reverseRecOn with
  | nil => simp [scopes, closeSegment, Scopes.closeSegment, counts, floor]
  | append_singleton outer mark _ =>
    have inside : mark ≤ stack.length := h.below mark (by simp)
    simp [scopes, closeSegment, Scopes.closeSegment, counts, floor, List.reverse_take, inside]

theorem scopes_write (m : MarkedStack α) (name : String) (change : α → α) :
    (m.write name change).scopes = m.scopes.write name change := by
  rw [Scopes.write_eq, write, position?]
  cases found : m.stack.reverse.findIdx? (·.1 == name) with
  | none =>
    have unbound : m.scopes.bindings.lookup name = none := by
      rw [Bindings.lookup_eq]
      exact congrArg (Option.bind · _) found
    rw [Bindings.update_of_unbound unbound]
    rfl
  | some i =>
    obtain ⟨inside, -⟩ := List.findIdx?_eq_some_iff_getElem.1 found
    rw [List.length_reverse] at inside
    have changed : Bindings.update name change m.stack.reverse = _ := Bindings.update_eq_modify found
    rw [← Bindings.reverse_modify m.stack _ inside] at changed
    simp only [scopes, Option.map_some, List.length_modify]
    rw [← changed]

theorem scopes_perform (h : m.Formed) (operation : ScopeOperation α) :
    (m.perform operation).scopes = m.scopes.perform operation := by
  cases operation with
  | push name value => exact scopes_push h name value
  | openSegment seed => exact scopes_openSegment m seed
  | closeSegment => exact scopes_closeSegment h
  | write name change => exact scopes_write m name change

theorem scopes_run (h : m.Formed) (operations : List (ScopeOperation α)) :
    (m.run operations).scopes = m.scopes.run operations := by
  induction operations generalizing m with
  | nil => rfl
  | cons operation rest ih =>
    change ((m.perform operation).run rest).scopes = (m.scopes.perform operation).run rest
    rw [ih (formed_perform h operation), scopes_perform h]

theorem eq_of_scopes (bare : m.scopes = ⟨[], []⟩) : m = ⟨[], []⟩ := by
  obtain ⟨stack, marks⟩ := m
  have stack : stack = [] := List.reverse_eq_nil_iff.1 (congrArg Scopes.bindings bare)
  have marks : marks = [] := by
    refine List.reverse_eq_nil_iff.1 ?_
    have none : counts _ marks.reverse = [] := congrArg Scopes.counts bare
    cases below : marks.reverse with
    | nil => rfl
    | cons mark outer =>
      rw [below] at none
      cases none
  rw [stack, marks]

structure Agrees (m : MarkedStack α) (frames : Frames α) : Prop where
  get? : ∀ name, m.get? name = frames.get? name
  isDeclared : ∀ name, m.isDeclared name = frames.isDeclared name
  isDeclaredLocal : ∀ name, m.isDeclaredLocal name = frames.isDeclaredLocal name
  size : m.size = frames.size
  isEmpty : m.isEmpty = frames.isEmpty

theorem get?_scopes (m : MarkedStack α) (name : String) : m.scopes.get? name = m.get? name := by
  change m.stack.reverse.lookup name = _
  rw [Bindings.lookup_eq, get?, position?, Option.bind_map]
  refine Option.bind_congr fun i found => ?_
  obtain ⟨inside, -⟩ := List.findIdx?_eq_some_iff_getElem.1 found
  rw [List.length_reverse] at inside
  exact congrArg (Option.map Prod.snd) (List.getElem?_reverse inside)

theorem isDeclared_scopes (m : MarkedStack α) (name : String) :
    m.scopes.isDeclared name = m.isDeclared name := by
  rw [isDeclared, position?, Option.isSome_map]
  exact Bindings.isSome_lookup m.stack.reverse name

/-- What stands on or above the floor is the innermost segment. -/
theorem innermost_scopes (m : MarkedStack α) :
    m.scopes.innermost = m.stack.reverse.take (m.stack.length - m.floor) := by
  obtain ⟨stack, marks⟩ := m
  induction marks using List.reverseRecOn with
  | nil => exact (List.take_of_length_le (Nat.le_of_eq List.length_reverse)).symm
  | append_singleton outer mark _ => simp [scopes, Scopes.innermost, counts, floor]

theorem isDeclaredLocal_scopes (m : MarkedStack α) (name : String) :
    m.scopes.isDeclaredLocal name = m.isDeclaredLocal name := by
  rw [Scopes.isDeclaredLocal, innermost_scopes, Bindings.isSome_lookup, List.findIdx?_take,
    isDeclaredLocal, position?]
  cases found : m.stack.reverse.findIdx? (·.1 == name) with
  | none => rfl
  | some i =>
    obtain ⟨inside, -⟩ := List.findIdx?_eq_some_iff_getElem.1 found
    rw [List.length_reverse] at inside
    have same : i < m.stack.length - m.floor ↔ m.floor ≤ m.stack.length - 1 - i := by omega
    by_cases low : m.floor ≤ m.stack.length - 1 - i
    · simp [Option.guard, same.2 low, low]
    · simp [Option.guard, mt same.1 low, low]

/-- A stack that stands for scopes answers as the frames do that these stand for. -/
theorem agrees_of_scopes {frames : Frames α} (h : m.scopes.Agrees frames) : m.Agrees frames where
  get? name := (get?_scopes m name).symm.trans (h.get? name)
  isDeclared name := (isDeclared_scopes m name).symm.trans (h.isDeclared name)
  isDeclaredLocal name := (isDeclaredLocal_scopes m name).symm.trans (h.isDeclaredLocal name)
  size := List.length_reverse.symm.trans h.size
  isEmpty := List.isEmpty_reverse.symm.trans h.isEmpty

structure Alike (m m' : MarkedStack α) : Prop where
  marks : m.marks = m'.marks
  names : Bindings.names m.stack = Bindings.names m'.stack

theorem alike_write (m : MarkedStack α) (name : String) (change : α → α) :
    m.Alike (m.write name change) := by
  refine ⟨(marks_write m name change).symm, ?_⟩
  unfold write
  split
  · rfl
  · refine List.ext_getElem? fun j => ?_
    simp only [Bindings.names, List.getElem?_map, List.getElem?_modify]
    cases m.stack[j]? with
    | none => rfl
    | some b =>
      change some b.1 = some (ite _ _ _ : String × α).1
      split <;> rfl

theorem Alike.closeSegment {m' : MarkedStack α} (h : m.Alike m') :
    m.closeSegment.Alike m'.closeSegment := by
  have floor : m.floor = m'.floor := by rw [floor, floor, h.marks]
  refine ⟨congrArg List.dropLast h.marks, ?_⟩
  rw [MarkedStack.closeSegment, MarkedStack.closeSegment, Bindings.names, Bindings.names,
    List.map_take, List.map_take, floor]
  exact congrArg (List.take _) h.names

theorem closeSegment_openSegment (m : MarkedStack α) (seed : List (String × α)) :
    (m.openSegment seed).closeSegment = m := by
  simp [openSegment, closeSegment, floor]

theorem closeSegment_push (h : m.Formed) (name : String) (value : α) :
    (m.push name value).closeSegment = m.closeSegment := by
  have inside : m.floor ≤ m.stack.length := by
    rw [floor]
    cases last : m.marks.getLast? with
    | none => exact Nat.zero_le _
    | some mark => exact h.below mark (List.mem_of_getLast? last)
  change (⟨(m.stack ++ [(name, value)]).take m.floor, m.marks.dropLast⟩ : MarkedStack α) = _
  rw [List.take_append_of_le_length inside]
  rfl

theorem run_append (m : MarkedStack α) (first second : List (ScopeOperation α)) :
    m.run (first ++ second) = (m.run first).run second :=
  List.foldl_append

/-- What writes leave of the stack under the innermost segment, paired operations leave. -/
theorem closeSegment_run {R : MarkedStack α → MarkedStack α → Prop} (refl : ∀ m, R m m)
    (trans : ∀ {m m' m''}, R m m' → R m' m'' → R m m'')
    (close : ∀ {m m'}, R m m' → R m.closeSegment m'.closeSegment)
    {operations : List (ScopeOperation α)} (paired : Paired operations)
    (writes : ∀ name change, .write name change ∈ operations → ∀ m, R m (m.write name change))
    (h : m.Formed) : R m.closeSegment (m.run operations).closeSegment := by
  induction paired generalizing m with
  | nil => exact refl _
  | push name value paired ih =>
    have behind := ih (fun name change mem => writes name change (.tail _ mem))
      (formed_push h name value)
    rw [closeSegment_push h] at behind
    exact behind
  | write name change paired ih =>
    have behind := ih (fun name change mem => writes name change (.tail _ mem))
      (formed_perform h (.write name change))
    exact trans (close (writes name change (.head _) m)) behind
  | @segment seed inside behind paired next ihInside ihBehind =>
    have writesInside := fun name change mem =>
      writes name change (.tail _ (List.mem_append_left _ mem))
    have writesBehind := fun name change mem =>
      writes name change (.tail _ (List.mem_append_right _ (.tail _ mem)))
    have opened := formed_openSegment h seed
    have within := ihInside writesInside opened
    rw [closeSegment_openSegment] at within
    have after := ihBehind writesBehind (formed_closeSegment (formed_run opened inside))
    have all : m.run (.openSegment seed :: inside ++ .closeSegment :: behind) =
        ((m.openSegment seed).run inside).closeSegment.run behind :=
      run_append (m.openSegment seed) inside (.closeSegment :: behind)
    rw [all]
    exact trans (close within) after

theorem alike_closed {inside : List (ScopeOperation α)} (paired : Paired inside) (h : m.Formed)
    (seed : List (String × α)) : m.Alike ((m.openSegment seed).run inside).closeSegment := by
  have closed := closeSegment_run (R := Alike) (fun _ => ⟨rfl, rfl⟩)
    (fun h h' => ⟨h.marks.trans h'.marks, h.names.trans h'.names⟩) .closeSegment paired
    (fun name change _ m => alike_write m name change) (formed_openSegment h seed)
  rw [closeSegment_openSegment] at closed
  exact closed

theorem closed_eq {inside : List (ScopeOperation α)} (paired : Paired inside)
    (unwritten : ∀ name change, .write name change ∉ inside) (h : m.Formed)
    (seed : List (String × α)) : ((m.openSegment seed).run inside).closeSegment = m := by
  have closed := closeSegment_run (R := Eq) (fun _ => rfl) Eq.trans (congrArg _) paired
    (fun name change mem => absurd mem (unwritten name change)) (formed_openSegment h seed)
  rw [closeSegment_openSegment] at closed
  exact closed.symm

theorem write_of_get? {value : α} (bound : m.get? name = some value) :
    ∃ older newer, m.stack = older ++ (name, value) :: newer ∧ name ∉ Bindings.names newer ∧
      m.write name change = { m with stack := older ++ (name, change value) :: newer } := by
  have found : m.stack.reverse.lookup name = some value := (get?_scopes m name).trans bound
  obtain ⟨newer, older, split, absent, changed⟩ : ∃ newer older,
      m.stack.reverse = newer ++ (name, value) :: older ∧ name ∉ Bindings.names newer ∧
        Bindings.update name change m.stack.reverse = newer ++ (name, change value) :: older :=
    Bindings.update_of_lookup found
  have written := congrArg Scopes.bindings (scopes_write m name change)
  rw [Scopes.write_eq] at written
  change (m.write name change).stack.reverse = Bindings.update name change m.stack.reverse at written
  rw [changed] at written
  refine ⟨older.reverse, newer.reverse, ?_, ?_, ?_⟩
  · rw [← List.reverse_inj, split]
    simp
  · rwa [Bindings.names, List.map_reverse, List.mem_reverse]
  · have stack : (m.write name change).stack =
        older.reverse ++ (name, change value) :: newer.reverse := by
      rw [← List.reverse_inj, written]
      simp
    rw [← stack, ← marks_write m name change]

theorem write_of_unbound (unbound : m.get? name = none) : m.write name change = m := by
  have none : m.position? name = none := by
    have undeclared := isDeclared_scopes m name
    rw [Scopes.isDeclared, get?_scopes, unbound] at undeclared
    exact Option.not_isSome_iff_eq_none.1 (by rw [← isDeclared, ← undeclared]; simp)
  rw [write, none]

/-- A stack with marks and frames, put through the same operations, give the same answers, and the stack
    stands for what the operations make of scopes. The marks ascend and stay within the stack. Changing
    a variable changes the one binding that its name stands for. A segment is closed with what was
    bound since it was opened and with nothing else, so without writes everything is as before; one
    that was never opened is closed with everything there is, and from then on no frame is open. -/
theorem refines_frames (operations : List (ScopeOperation α)) :
    let m := (empty : MarkedStack α).run operations
    let frames := Frames.new.run operations
    (m.Agrees frames ∧ m.scopes = Scopes.empty.run operations ∧ m.Formed) ∧
    (∀ name change value, m.get? name = some value →
      ∃ older newer, m.stack = older ++ (name, value) :: newer ∧ name ∉ Bindings.names newer ∧
        m.write name change = { m with stack := older ++ (name, change value) :: newer }) ∧
    (∀ name change, m.get? name = none → m.write name change = m) ∧
    (∀ seed inside, Paired inside →
      m.Alike ((m.openSegment seed).run inside).closeSegment ∧
      ((∀ name change, .write name change ∉ inside) →
        ((m.openSegment seed).run inside).closeSegment = m)) ∧
    (operations.foldl ScopeOperation.standing 0 = 0 →
      m.closeSegment = ⟨[], []⟩ ∧ frames.closeSegment = ⟨[], []⟩ ∧
      ∀ later, (m.closeSegment.run later).Agrees (frames.closeSegment.run later)) := by
  intro m frames
  have formed : m.Formed := formed_run formed_empty operations
  have same : m.scopes = Scopes.empty.run operations := scopes_run formed_empty operations
  have stands : m.scopes.frames = frames := by
    rw [same]
    exact Scopes.frames_run Scopes.empty operations
  refine ⟨⟨agrees_of_scopes (stands ▸ m.scopes.agrees_frames), same, formed⟩,
    fun name change value bound => write_of_get? bound,
    fun name change unbound => write_of_unbound unbound,
    fun seed inside paired => ⟨alike_closed paired formed seed, fun unwritten =>
      closed_eq paired unwritten formed seed⟩, fun none => ?_⟩
  have counted : Frames.Counted 0 frames := none ▸ Frames.Counted.run (.inr ⟨rfl, rfl⟩) operations
  have closed : m.closeSegment.scopes.frames = frames.closeSegment := by
    rw [scopes_closeSegment formed, Scopes.frames_closeSegment, stands]
  have bare : m.closeSegment = ⟨[], []⟩ :=
    eq_of_scopes (Scopes.eq_of_frames (closed.trans counted.closeSegment))
  refine ⟨bare, counted.closeSegment, fun later => agrees_of_scopes ?_⟩
  rw [scopes_run (formed_closeSegment formed), ← closed, ← Scopes.frames_run]
  exact Scopes.agrees_frames _

/-- The shadow of a variable is written to and closed, and then more is closed than was opened. -/
theorem refines_frames_shadowed :
    let m := (empty : MarkedStack Nat).run [.push "x" 1]
    ((m.openSegment [("x", 2)]).run [.write "x" (· + 3)]).get? "x" = some 5 ∧
      m.Alike ((m.openSegment [("x", 2)]).run [.write "x" (· + 3)]).closeSegment ∧
      m.closeSegment = ⟨[], []⟩ := by
  intro m
  obtain ⟨-, -, -, closing, emptying⟩ := refines_frames (α := Nat) [.push "x" 1]
  exact ⟨by decide, (closing [("x", 2)] [.write "x" (· + 3)] (.write _ _ .nil)).1, (emptying rfl).1⟩

end MarkedStack
end ObjectLang
