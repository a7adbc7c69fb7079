import Mathlib.Logic.Function.Basic
import ObjectLang.Proofs.Lists.Run
import ObjectLang.Proofs.Machine.Evolution
set_option autoImplicit false

/-!
# Lists as sequences

The lists of a run are sequences of values. A list literal makes the sequence of its elements, and
calls of methods work on it as operations on sequences do, whatever else the run does to the heap in
between, as long as that leaves the fields of lists and their storage alone.
-/

namespace ObjectLang

open ListMethod

theorem Registry.shadow_distinct (inherited own : List (String × TypeId))
    (distinct : ((inherited ++ own).map Prod.fst).Nodup) :
    shadow inherited own = inherited ++ own := by
  induction own generalizing inherited with
  | nil => exact (List.append_nil _).symm
  | cons x rest ih =>
    have other : inherited.filter (fun g => g.1 != x.1) = inherited := by
      rw [List.filter_eq_self]
      intro g hg
      rw [List.map_append, List.nodup_append] at distinct
      exact bne_iff_ne.2 (distinct.2.2 _ (List.mem_map_of_mem hg) _ List.mem_cons_self)
    have next := ih (inherited ++ [x]) (by rwa [List.append_assoc])
    rw [List.append_assoc] at next
    rw [← List.singleton_append, ← next, shadow, shadow, List.singleton_append, List.foldl_cons,
      other]

theorem Registry.fields_list {r : Registry} {list element : TypeId} {members : Members}
    (type : r.get list = .list element members) (distinct : members.fields.names.Nodup) :
    r.fields list = members.fields.entries := by
  have orphan : r.parent? list = none := by
    rw [parent?, type]
    rfl
  have own : r.ownFields list = members.fields.entries := by
    rw [ownFields, type]
    rfl
  rw [fields, ancestry_unfold, orphan]
  change shadow [] (r.ownFields list) = _
  rw [own]
  exact shadow_distinct [] _ distinct

/-- A method of a list, and what it calls, run like the trees that they were made of. -/
structure Program.Serves (p : Program) (host : String → FunctionId) (resize : FunctionId)
    (element list : TypeId) (g : Function) (f : FunctionId) : Prop where
  runs : p.Runs host resize list g f
  moving : (∃ x ∈ (g.asMethod list).body, Resizes x) → p.Runs host resize list (reSize element) resize
  hosts : ∀ native : Machine.Native, p.Hosts native (host native.name)

namespace Compilation

variable {files : List SourceFile} {c : Compilation} {t : Typing.State}
  {element list array : TypeId}

theorem Compiled.layout (h : Compiled files c t)
    (made : (afterReading files).program.ListType element list array) :
    t.program.ListLayout element list array := by
  have evolves : (afterReading files).program.Evolves t.program := h.accepted.later.evolves
  obtain ⟨members, type, distinct⟩ := made.type
  have stored : members.fields.find? "_arr" = some array := by
    have own := made.fields ("_arr", array) List.mem_cons_self
    rwa [type] at own
  have known : (afterReading files).program.types.Knows array := by
    refine Registry.knows_of_get_ne_void fun void => ?_
    rw [made.storage] at void
    cases void
  have fields := Registry.fields_list ((evolves.types.get_eq (knows_listType made)).trans type)
    distinct
  refine ⟨h.accepted.tables.primitives, (evolves.types.get_eq known).trans made.storage, ?_, ?_⟩
  · rw [fields]
    exact distinct
  · rw [fields]
    exact stored

/-- A method of a list that the check has entered runs like the tree that it was made of, and so does
    what it calls. -/
theorem Compiled.serves (h : Compiled files c t)
    (made : (afterReading files).program.ListType element list array) {g : Function}
    (hg : g ∈ ListMethod.all element array) {f : FunctionId}
    (found : t.program.types.findMethod? list g.name = some f) (checked : f ∈ t.checked) :
    ∃ resize, t.program.Serves host resize element list g f := by
  have evolves : (afterReading files).program.Evolves t.program := h.accepted.later.evolves
  have moving : reSize element ∈ ListMethod.all element array := List.mem_cons_self
  obtain ⟨resize, resizing, same⟩ := findMethod?_listType made moving
  obtain ⟨f', found', same'⟩ := findMethod?_listType made hg
  obtain rfl : f = f' := by
    rw [evolves.types.findMethod?_eq (knows_listType made), found'] at found
    exact (Option.some.inj found).symm
  obtain ⟨runs, reaches⟩ := h.runs made resizing hg same' checked
  exact ⟨resize, runs, fun calls => (h.runs made resizing moving same (reaches calls)).1, h.hosts⟩

end Compilation

/-- The sequence that each list holds, as far as it is known. -/
abbrev Sequences : Type := ObjectRef → Option (List Value)

namespace Heap

variable {h h' : Heap} {σ : Sequences} {storage : ObjectRef → ArrayRef}

/-- The lists hold the given sequences, each of them in an array of its own. -/
structure Models (h : Heap) (σ : Sequences) (storage : ObjectRef → ArrayRef) : Prop where
  holds : ∀ a xs, σ a = some xs → h.Holds a (storage a) xs
  apart : ∀ a a' xs xs', σ a = some xs → σ a' = some xs' → storage a = storage a' → a = a'

/-- The heap has gone on to `h'`, and neither the objects of lists nor the arrays that they have for
    storage have changed. -/
def Spares (σ : Sequences) (h h' : Heap) : Prop :=
  Changes (fun a => σ a = none)
    (fun b => ∀ a xs, σ a = some xs → (h.object a).fields.find? "_arr" ≠ some (.array b)) h h'

theorem Models.spares (models : h.Models σ storage) (spares : Spares σ h h') :
    h'.Models σ storage := by
  refine ⟨fun a xs known => ?_, models.apart⟩
  have holds := models.holds a xs known
  refine holds.changes spares (fun unknown => ?_) fun free => free a xs known holds.storage
  rw [known] at unknown
  cases unknown

/-- One list changes, within its storage or to new storage. -/
theorem Models.update (models : h.Models σ storage) {a : ObjectRef} {b : ArrayRef}
    {ys : List Value} (holds : h'.Holds a b ys)
    (changes : Changes (· = a) (fun b' => ∃ xs, σ a = some xs ∧ b' = storage a) h h')
    (place : (∃ xs, σ a = some xs ∧ b = storage a) ∨ h.arrays.size ≤ b.index) :
    h'.Models (Function.update σ a (some ys)) (Function.update storage a b) := by
  have other (a' : ObjectRef) (xs' : List Value) (ne : a' ≠ a) (known : σ a' = some xs') :
      storage a' ≠ b := by
    rintro rfl
    rcases place with ⟨xs, mine, same⟩ | fresh
    · exact ne (models.apart a' a xs' xs known mine same)
    · exact absurd (models.holds a' xs' known).array (Nat.not_lt.2 fresh)
  refine ⟨fun a' xs' known => ?_, fun a₁ a₂ xs₁ xs₂ known₁ known₂ same => ?_⟩
  · by_cases ne : a' = a
    · subst ne
      rw [Function.update_self] at known ⊢
      cases known
      exact holds
    · rw [Function.update_of_ne ne] at known ⊢
      refine (models.holds a' xs' known).changes changes ne ?_
      rintro ⟨xs, mine, shared⟩
      exact ne (models.apart a' a xs' xs known mine shared)
  · by_contra ne
    by_cases first : a₁ = a
    · subst first
      rw [Function.update_of_ne (Ne.symm ne)] at known₂ same
      rw [Function.update_self] at same
      exact other a₂ xs₂ (Ne.symm ne) known₂ same.symm
    · rw [Function.update_of_ne first] at known₁ same
      by_cases second : a₂ = a
      · subst second
        rw [Function.update_self] at same
        exact other a₁ xs₁ first known₁ same
      · rw [Function.update_of_ne second] at known₂ same
        exact ne (models.apart a₁ a₂ xs₁ xs₂ known₁ known₂ same)

end Heap

inductive ListCall
  | append (item : Value)
  | elementAt (index : Word)
  | getSize
  | reSize (slots : Word)

namespace ListCall

def name : ListCall → String
  | append _ => "append"
  | elementAt _ => "at"
  | getSize => "getSize"
  | reSize _ => "reSize"

def arguments : ListCall → List Value
  | append item => [item]
  | elementAt index => [.int index]
  | getSize => []
  | reSize slots => [.int slots]

def method (element : TypeId) : ListCall → Function
  | append _ => ListMethod.append element
  | elementAt _ => ListMethod.elementAt element
  | getSize => ListMethod.getSize
  | reSize _ => ListMethod.reSize element

/-- Storage never gets less than what is in use. -/
def Allowed : ListCall → List Value → Prop
  | reSize slots, xs => xs.length ≤ slots.toInt
  | _, _ => True

def after : ListCall → List Value → List Value
  | append item, xs => xs ++ [item]
  | _, xs => xs

def result : ListCall → List Value → Except Fault.Cause Value
  | elementAt index, xs =>
    if h : 0 ≤ index.toInt ∧ index.toInt < xs.length then
      .ok (xs.get ⟨index.toInt.toNat, by omega⟩)
    else .error (.panic "list index out of range")
  | getSize, xs => .ok (.int (Int64.ofNat xs.length))
  | append _, _ | reSize _, _ => .ok .void

/-- The slots of new storage that the call asks for, with `slots` in the storage there is. -/
def request (slots : Nat) : ListCall → List Value → Nat
  | append _, xs => if xs.length = slots then 2 * slots + 1 else 0
  | reSize slots', _ => slots'.toInt.toNat
  | elementAt _, _ | getSize, _ => 0

theorem method_mem (call : ListCall) (element array : TypeId) :
    call.method element ∈ ListMethod.all element array := by
  cases call <;> simp [method, ListMethod.all]

theorem name_method (call : ListCall) (element : TypeId) :
    (call.method element).name = call.name := by
  cases call <;> rfl

theorem traits_method (call : ListCall) (element list : TypeId) :
    ((call.method element).asMethod list).traits.isVirtual = false ∧
      ((call.method element).asMethod list).traits.isOverride = false := by
  cases call <;> exact ⟨rfl, rfl⟩

end ListCall

namespace Machine

open Heap

section Calls

variable {s : State} {p : Program} {host : String → FunctionId} {resize f : FunctionId}
  {list element array : TypeId} {rounds depth line : Nat} {a : ObjectRef} {b : ArrayRef}
  {xs : List Value} {call : ListCall}

theorem resizes_append : ∃ x ∈ ((ListMethod.append element).asMethod list).body, Resizes x :=
  ⟨_, List.mem_cons_self, .ifThen _ _ _ (.call _)⟩

theorem resizes_constructor : ∃ x ∈ ((constructor array).asMethod list).body, Resizes x :=
  ⟨_, List.mem_cons_of_mem _ (List.mem_cons_of_mem _ List.mem_cons_self), .call _⟩

/-- A call that is given storage, if it asks for any, does to the list what it does to sequences. -/
theorem listCall_done (serves : p.Serves host resize element list (call.method element) f)
    (holds : s.heap.Holds a b xs) (allowed : call.Allowed xs) {value : Value}
    (gives : call.result xs = .ok value)
    (room : call.request (s.heap.array b).size xs ≤ s.heap.room) :
    ∃ h b', callWithin p rounds (depth + 3) f (.object a :: call.arguments) line s =
        .done value { s with heap := h } ∧
      h.Holds a b' (call.after xs) ∧ (b' = b ∨ s.heap.arrays.size ≤ b'.index) ∧
      Changes (· = a) (· = b) s.heap h := by
  have short := holds.length_le
  cases call with
  | append item =>
    cases gives
    refine append_done serves.runs (serves.moving resizes_append) (serves.hosts .memcpy) holds item ?_
    by_cases full : xs.length = (s.heap.array b).size
    · rw [ListCall.request, if_pos full] at room
      exact .inr room
    · exact .inl (by omega)
  | elementAt index =>
    rw [ListCall.result] at gives
    split at gives
    · rename_i inside
      cases gives
      refine ⟨s.heap, b, ?_, holds, .inl rfl, .refl _⟩
      exact at_done serves.runs holds.toStores (k := index.toInt.toNat) (by omega) (by omega)
    · cases gives
  | getSize =>
    cases gives
    obtain ⟨n, counts, done⟩ := getSize_done rounds (depth + 2) line serves.runs holds.toStores
    refine ⟨s.heap, b, ?_, holds, .inl rfl, .refl _⟩
    have same : n = Int64.ofNat xs.length := by
      have bounded := holds.bounded
      rw [addressable] at bounded
      rw [← Int64.toInt_inj, counts, Int64.toInt_ofNat_of_lt (by omega)]
    rw [← same]
    exact done
  | reSize slots =>
    cases gives
    rw [ListCall.Allowed] at allowed
    have counts : slots.toInt = slots.toInt.toNat := by omega
    obtain ⟨h, b', done, holds', -, fresh, changes⟩ := reSize_done rounds (depth + 1) line serves.runs
      (serves.hosts .memcpy) holds.toStores counts (by omega) room
    exact ⟨h, b', done, holds', .inr fresh, changes.mono (fun _ _ same => same) fun _ _ no => no.elim⟩

theorem listCall_panics (serves : p.Serves host resize element list (call.method element) f)
    (holds : s.heap.Holds a b xs) {cause : Fault.Cause} (refuses : call.result xs = .error cause) :
    callWithin p rounds (depth + 3) f (.object a :: call.arguments) line s =
      .fault (.at 0 cause) s := by
  cases call with
  | append item => cases refuses
  | elementAt index =>
    rw [ListCall.result] at refuses
    split at refuses
    · cases refuses
    · rename_i outside
      cases refuses
      exact at_panics serves.runs (serves.hosts .panic) holds.toStores outside
  | getSize => cases refuses
  | reSize slots => cases refuses

theorem listCall_fails (serves : p.Serves host resize element list (call.method element) f)
    (holds : s.heap.Holds a b xs)
    (large : s.heap.room < call.request (s.heap.array b).size xs) :
    ∃ t, callWithin p rounds (depth + 3) f (.object a :: call.arguments) line s =
      .fault (.at 0 (.allocationFailed (call.request (s.heap.array b).size xs))) t := by
  cases call with
  | append item =>
    by_cases full : xs.length = (s.heap.array b).size
    · rw [ListCall.request, if_pos full] at large ⊢
      exact append_fails serves.runs (serves.moving resizes_append) holds item full large
    · rw [ListCall.request, if_neg full] at large
      cases large
  | elementAt index => cases large
  | getSize => cases large
  | reSize slots =>
    rw [ListCall.request] at large ⊢
    have counts : slots.toInt = slots.toInt.toNat := by omega
    exact reSize_fails rounds (depth + 2) line serves.runs holds.toStores counts large

end Calls

/-- The tree of a list literal: its elements, each with its line, and the constructor of the list. -/
def listLiteral (callee : Expr) (element : TypeId) (items : List (Literal × Nat))
    (constructor : FunctionId) (line : Nat) : Expr :=
  .call callee [.array element (items.map fun x => .literal x.1 x.2) line,
    .literal (.int (Int64.ofNat items.length)) line] (some constructor) false line

def literalValues (items : List (Literal × Nat)) : List Value :=
  items.map fun x => .ofLiteral x.1

section Literals

variable {c : Context} {s : State} {p : Program} {host : String → FunctionId}
  {resize f : FunctionId} {list element array : TypeId} {rounds depth : Nat}

theorem evalAll_literals (items : List (Literal × Nat)) :
    evalAll c (items.map fun x => .literal x.1 x.2) s = .done (literalValues items) s := by
  induction items with
  | nil => rfl
  | cons x rest ih => exact evalAll_cons rfl ih

theorem eval_array_literals (items : List (Literal × Nat)) (line : Nat) :
    eval c (.array element (items.map fun x => .literal x.1 x.2) line) s =
      .done (.array ⟨s.heap.arrays.size⟩)
        { s with heap := (s.heap.newArray (literalValues items).toArray).2 } := by
  rw [eval, bind_done (evalAll_literals items)]
  rfl

theorem eval_listLiteral (calls : c.call = callWithin p rounds (depth + 3))
    (serves : p.Serves host resize element list (constructor array) f)
    (layout : p.ListLayout element list array) (callee : Expr) (literalType : TypeId)
    (items : List (Literal × Nat)) (line : Nat) (bounded : items.length ≤ s.heap.room) :
    ∃ h a b, eval c (listLiteral callee literalType items f line) s =
        .done (.object a) { s with heap := h } ∧
      h.Holds a b (literalValues items) ∧ s.heap.objects.size ≤ a.index ∧
      s.heap.arrays.size ≤ b.index ∧ Changes (fun _ => False) (fun _ => False) s.heap h := by
  let b₀ : ArrayRef := ⟨s.heap.arrays.size⟩
  let s₁ : State := { s with heap := (s.heap.newArray (literalValues items).toArray).2 }
  have first : Changes (fun _ => False) (fun _ => False) s.heap s₁.heap := changes_newArray _ _
  have given : b₀.index < s₁.heap.arrays.size :=
    Nat.lt_of_lt_of_eq (Nat.lt_succ_self _) (Array.size_push _).symm
  have stored : (s₁.heap.array b₀).toList = literalValues items := by
    rw [array_newArray]
  have length : (literalValues items).length = items.length := List.length_map _
  have counts : (Int64.ofNat items.length).toInt = (literalValues items).length := by
    have addressable := s.heap.room_le
    rw [Heap.addressable] at addressable
    rw [length, Int64.toInt_ofNat_of_lt (by omega)]
  obtain ⟨h, a, b, done, holds, freshObject, freshArray, changes⟩ := constructor_done
    rounds depth line serves.runs (serves.moving resizes_constructor) (serves.hosts .memcpy) layout
    (s := s₁) given stored counts (length ▸ bounded)
  refine ⟨h, a, b, ?_, holds, Nat.le_trans first.objects freshObject,
    Nat.le_trans first.arrays freshArray, first.trans changes⟩
  have called : callTarget c f false [.array b₀, .int (Int64.ofNat items.length)] line s₁ =
      .done (.object a) { s with heap := h } := (calls ▸ callTarget_free _).trans done
  rw [listLiteral, eval, bind_done (evalAll_cons (eval_array_literals items line)
    (evalAll_cons rfl evalAll_nil))]
  exact called

theorem eval_listLiteral_fails (calls : c.call = callWithin p rounds (depth + 3))
    (serves : p.Serves host resize element list (constructor array) f)
    (layout : p.ListLayout element list array) (callee : Expr) (literalType : TypeId)
    (items : List (Literal × Nat)) (line : Nat) (large : s.heap.room < items.length)
    (counted : items.length < 9223372036854775808) :
    ∃ t, eval c (listLiteral callee literalType items f line) s =
      .fault (.at 0 (.allocationFailed items.length)) t := by
  let b₀ : ArrayRef := ⟨s.heap.arrays.size⟩
  let s₁ : State := { s with heap := (s.heap.newArray (literalValues items).toArray).2 }
  have counts : (Int64.ofNat items.length).toInt = items.length := Int64.toInt_ofNat_of_lt counted
  obtain ⟨t, failed⟩ := constructor_fails rounds depth line serves.runs
    (serves.moving resizes_constructor) layout (s := s₁) (b := b₀) counts large
  refine ⟨t, ?_⟩
  have called : callTarget c f false [.array b₀, .int (Int64.ofNat items.length)] line s₁ =
      .fault (.at 0 (.allocationFailed items.length)) t := (calls ▸ callTarget_free _).trans failed
  rw [listLiteral, eval, bind_done (evalAll_cons (eval_array_literals items line)
    (evalAll_cons rfl evalAll_nil))]
  exact called

end Literals
end Machine

/-- The function is the method of that name of the list type, and the check of the program has entered
    it, as it enters every method that is called in a function that it has entered. -/
structure Program.ListMethod (p : Program) (entered : List FunctionId) (list : TypeId)
    (name : String) (f : FunctionId) : Prop where
  type : ∃ element members, p.types.get list = .list element members
  found : p.types.findMethod? list name = some f
  entered : f ∈ entered

namespace Machine

/-- The body of some function of the program runs, and the bound leaves room for three more nested
    calls. -/
structure Context.Runs (c : Context) (p : Program) : Prop where
  program : c.program = p
  calls : ∃ rounds depth, c.call = callWithin p rounds (depth + 3)

/-- A run up to a state, and the sequences that its lists should hold by then. Between list literals
    and calls of methods of lists anything may happen to the heap that spares them. -/
inductive History (p : Program) (entered : List FunctionId) : State → Sequences → Prop
  | start (s : State) : History p entered s fun _ => none
  | elsewhere {s t : State} {σ : Sequences} (history : History p entered s σ)
    (spares : s.heap.Spares σ t.heap) : History p entered t σ
  | literal {s t : State} {σ : Sequences} {c : Context} {list : TypeId} {f : FunctionId}
    {callee : Expr} {element : TypeId} {items : List (Literal × Nat)} {line : Nat} {a : ObjectRef}
    (history : History p entered s σ) (runs : c.Runs p)
    (method : p.ListMethod entered list constructorName f)
    (counted : items.length < 9223372036854775808)
    (made : eval c (listLiteral callee element items f line) s = .done (.object a) t) :
    History p entered t (Function.update σ a (some (literalValues items)))
  | call {s t : State} {σ : Sequences} {c : Context} {list : TypeId} {f : FunctionId}
    {call : ListCall} {line : Nat} {a : ObjectRef} {xs : List Value} {value : Value}
    (history : History p entered s σ) (runs : c.Runs p)
    (method : p.ListMethod entered list call.name f) (known : σ a = some xs)
    (allowed : call.Allowed xs)
    (done : callTarget c f true (.object a :: call.arguments) line s = .done value t) :
    History p entered t (Function.update σ a (some (call.after xs)))

/-- In this state, the lists are the sequences, and whatever comes next works on both alike. -/
structure Simulates (p : Program) (entered : List FunctionId) (s : State) (σ : Sequences) :
    Prop where
  models : ∃ storage, s.heap.Models σ storage
  literal : ∀ (c : Context) (list : TypeId) (f : FunctionId) (callee : Expr) (element : TypeId)
    (items : List (Literal × Nat)) (line : Nat), c.Runs p →
    p.ListMethod entered list constructorName f →
    if items.length ≤ s.heap.room then
      ∃ a t, eval c (listLiteral callee element items f line) s = .done (.object a) t ∧
        σ a = none ∧ ∃ storage,
          t.heap.Models (Function.update σ a (some (literalValues items))) storage
    else items.length < 9223372036854775808 →
      ∃ t, eval c (listLiteral callee element items f line) s =
        .fault (.at 0 (.allocationFailed items.length)) t
  call : ∀ (c : Context) (list : TypeId) (f : FunctionId) (call : ListCall) (line : Nat)
    (a : ObjectRef) (xs : List Value), c.Runs p → p.ListMethod entered list call.name f →
    σ a = some xs → call.Allowed xs → ∃ b, s.heap.Holds a b xs ∧
    let request := call.request (s.heap.array b).size xs
    let outcome := callTarget c f true (.object a :: call.arguments) line s
    if request ≤ s.heap.room then
      match call.result xs with
      | .ok value => ∃ t, outcome = .done value t ∧ ∃ storage,
          t.heap.Models (Function.update σ a (some (call.after xs))) storage
      | .error cause => outcome = .fault (.at 0 cause) s
    else ∃ t, outcome = .fault (.at 0 (.allocationFailed request)) t

end Machine

namespace Compilation

open Machine

variable {files : List SourceFile} {c : Compilation} {t : Typing.State} {s : State} {σ : Sequences}
  {storage : ObjectRef → ArrayRef}

theorem Compiled.literal (h : Compiled files c t) (models : s.heap.Models σ storage) {m : Context}
    (runs : m.Runs t.program) {list : TypeId} {f : FunctionId}
    (method : t.program.ListMethod t.checked list constructorName f) (callee : Expr)
    (element : TypeId) (items : List (Literal × Nat)) (line : Nat)
    (bounded : items.length ≤ s.heap.room) :
    ∃ a b s', eval m (listLiteral callee element items f line) s = .done (.object a) s' ∧
      σ a = none ∧ s'.heap.Models (Function.update σ a (some (literalValues items)))
        (Function.update storage a b) := by
  obtain ⟨element', members, type⟩ := method.type
  obtain ⟨array, made⟩ := h.listType type
  have constructs : constructor array ∈ ListMethod.all element' array := by simp [ListMethod.all]
  obtain ⟨resize, serves⟩ := h.serves made constructs method.found method.entered
  obtain ⟨rounds, depth, calls⟩ := runs.calls
  have layout := h.layout made
  obtain ⟨heap, a, b, done, holds, freshObject, freshArray, changes⟩ := eval_listLiteral (s := s)
    calls serves layout callee element items line bounded
  refine ⟨a, b, _, done, ?_, models.update holds ?_ (.inr freshArray)⟩
  rotate_left
  · exact changes.mono (fun _ _ no => no.elim) fun _ _ no => no.elim
  rw [Option.eq_none_iff_forall_ne_some]
  intro xs known
  exact absurd (models.holds a xs known).object (Nat.not_lt.2 freshObject)

theorem Compiled.literal_fails (h : Compiled files c t) {m : Context} (runs : m.Runs t.program)
    {list : TypeId} {f : FunctionId}
    (method : t.program.ListMethod t.checked list constructorName f) (callee : Expr)
    (element : TypeId) (items : List (Literal × Nat)) (line : Nat)
    (large : s.heap.room < items.length) (counted : items.length < 9223372036854775808) :
    ∃ s', eval m (listLiteral callee element items f line) s =
      .fault (.at 0 (.allocationFailed items.length)) s' := by
  obtain ⟨element', members, type⟩ := method.type
  obtain ⟨array, made⟩ := h.listType type
  have constructs : constructor array ∈ ListMethod.all element' array := by simp [ListMethod.all]
  obtain ⟨resize, serves⟩ := h.serves made constructs method.found method.entered
  obtain ⟨rounds, depth, calls⟩ := runs.calls
  exact eval_listLiteral_fails calls serves (h.layout made) callee element items line large counted

theorem Compiled.listCall (h : Compiled files c t) {m : Context} (runs : m.Runs t.program)
    {list : TypeId} {f : FunctionId} {call : ListCall}
    (method : t.program.ListMethod t.checked list call.name f) :
    ∃ element resize rounds depth,
      t.program.Serves host resize element list (call.method element) f ∧
      ∀ (a : ObjectRef) (line : Nat) (s : State),
        callTarget m f true (.object a :: call.arguments) line s =
          callWithin t.program rounds (depth + 3) f (.object a :: call.arguments) line s := by
  obtain ⟨element, members, type⟩ := method.type
  obtain ⟨array, made⟩ := h.listType type
  obtain ⟨resize, serves⟩ := h.serves made (call.method_mem element array)
    (call.name_method element ▸ method.found) method.entered
  obtain ⟨rounds, depth, calls⟩ := runs.calls
  refine ⟨element, resize, rounds, depth, serves, fun a line s => ?_⟩
  have traits := congrArg Function.traits serves.runs.declared
  change (t.program.function f).traits = ((call.method element).asMethod list).traits at traits
  have fixed := call.traits_method element list
  rw [← traits, ← runs.program] at fixed
  rw [callTarget_method fixed.1 fixed.2, calls]

theorem Compiled.call (h : Compiled files c t) (models : s.heap.Models σ storage) {m : Context}
    (runs : m.Runs t.program) {list : TypeId} {f : FunctionId} {call : ListCall}
    (method : t.program.ListMethod t.checked list call.name f) (line : Nat) {a : ObjectRef}
    {xs : List Value} (known : σ a = some xs) (allowed : call.Allowed xs) :
    let request := call.request (s.heap.array (storage a)).size xs
    let outcome := callTarget m f true (.object a :: call.arguments) line s
    if request ≤ s.heap.room then
      match call.result xs with
      | .ok value => ∃ s', outcome = .done value s' ∧ ∃ storage,
          s'.heap.Models (Function.update σ a (some (call.after xs))) storage
      | .error cause => outcome = .fault (.at 0 cause) s
    else ∃ s', outcome = .fault (.at 0 (.allocationFailed request)) s' := by
  intro request outcome
  obtain ⟨element, resize, rounds, depth, serves, reached⟩ := h.listCall runs method
  have holds := models.holds a xs known
  have same : outcome = _ := reached a line s
  split
  · rename_i room
    cases gives : call.result xs with
    | ok value =>
      obtain ⟨heap, b, done, holds', place, changes⟩ := listCall_done serves holds allowed gives room
      refine ⟨_, same.trans done, _, models.update holds' (changes.mono (fun _ _ same => same)
        fun b' _ mine => ⟨xs, known, mine⟩) ?_⟩
      exact place.imp (fun mine => ⟨xs, known, mine⟩) id
    | error cause => exact same.trans (listCall_panics serves holds gives)
  · rename_i large
    obtain ⟨s', failed⟩ := listCall_fails serves holds (Nat.not_le.1 large)
    exact ⟨s', same.trans failed⟩

/-- The sequences are what the lists hold after every step of a run. -/
theorem Compiled.models (h : Compiled files c t) (history : History t.program t.checked s σ) :
    ∃ storage, s.heap.Models σ storage := by
  induction history with
  | start s => exact ⟨fun _ => ⟨0⟩, nofun, nofun⟩
  | elsewhere history spares ih =>
    obtain ⟨storage, models⟩ := ih
    exact ⟨storage, models.spares spares⟩
  | @literal s s' σ m list f callee element items line a history runs method counted made ih =>
    obtain ⟨storage, models⟩ := ih
    by_cases bounded : items.length ≤ s.heap.room
    · obtain ⟨a', b, s'', done, -, models'⟩ := h.literal models runs method callee element items line
        bounded
      rw [done] at made
      cases made
      exact ⟨_, models'⟩
    · obtain ⟨s'', failed⟩ := h.literal_fails runs method callee element items line
        (Nat.lt_of_not_le bounded) counted
      rw [failed] at made
      cases made
  | @call s s' σ m list f call line a xs value history runs method known allowed done ih =>
    obtain ⟨storage, models⟩ := ih
    have goes := h.call models runs method line known allowed
    simp only [done] at goes
    split at goes
    · split at goes
      · obtain ⟨s'', same, models'⟩ := goes
        cases same
        exact models'
      · cases goes
    · obtain ⟨s'', same⟩ := goes
      cases same

theorem Compiled.simulates (h : Compiled files c t) (models : s.heap.Models σ storage) :
    Simulates t.program t.checked s σ where
  models := ⟨storage, models⟩
  literal m list f callee element items line runs method := by
    split
    · rename_i bounded
      obtain ⟨a, b, s', done, fresh, models'⟩ := h.literal models runs method callee element items
        line bounded
      exact ⟨a, s', done, fresh, _, models'⟩
    · rename_i large
      exact h.literal_fails runs method callee element items line (Nat.not_le.1 large)
  call m list f call line a xs runs method known allowed :=
    ⟨storage a, models.holds a xs known, h.call models runs method line known allowed⟩

/-- Lists of accepted programs are sequences: after every run, they hold what the literals and calls
    of the run make of sequences, and every literal and call that may come next does to them what it
    does to sequences. -/
theorem lists_refine_sequences (accepted : new.compile files = (.ok (), c)) {s : State}
    {σ : Sequences} (history : History c.program (afterReading files).entered s σ) :
    Simulates c.program (afterReading files).entered s σ := by
  have h := compiled accepted
  unfold entered at history ⊢
  generalize (afterReading files).checkFrom 1 (afterReading files).unchecked = t at h history ⊢
  rw [h.program] at history ⊢
  obtain ⟨storage, models⟩ := h.models history
  exact h.simulates models

/-- A list of two elements that a third is appended to. -/
theorem lists_refine_sequences_appended :
    let c := (new.compile [⟨"m.kv", "let xs = [1, 2]; xs.append(3); ret xs.at(2);"⟩]).2
    let m : Context := { program := c.program, call := callWithin c.program 4 4, rounds := 4 }
    let elements : List (Literal × Nat) := [(.int 1, 1), (.int 2, 1)]
    ∃ new append at_ a s t u, eval m (listLiteral (var "xs") .int elements new 1) {} =
        .done (.object a) s ∧
      callTarget m append true [.object a, .int 3] 1 s = .done .void t ∧
      callTarget m at_ true [.object a, .int 2] 1 t = .done (.int 3) u := by
  intro c m elements
  let files : List SourceFile := [⟨"m.kv", "let xs = [1, 2]; xs.append(3); ret xs.at(2);"⟩]
  let list : TypeId := ⟨7⟩
  have checked : (new.compile files).1 = .ok () ∧
      Registry.isListOf .int (c.program.types.get list) = true ∧
      (c.program.types.findMethod? list "new" = some ⟨11⟩ ∧ ⟨11⟩ ∈ (afterReading files).entered) ∧
      (c.program.types.findMethod? list "append" = some ⟨10⟩ ∧
        ⟨10⟩ ∈ (afterReading files).entered) ∧
      c.program.types.findMethod? list "at" = some ⟨9⟩ ∧ ⟨9⟩ ∈ (afterReading files).entered := by
    decide +kernel
  obtain ⟨ok, isList, ⟨new, enteredNew⟩, ⟨append, enteredAppend⟩, at_, enteredAt⟩ := checked
  have accepted : Compilation.new.compile files = (.ok (), c) := compile_eq_of_ok ok
  have type : ∃ element members, c.program.types.get list = .list element members := by
    generalize c.program.types.get list = type at isList
    cases type <;> first | exact ⟨_, _, rfl⟩ | cases isList
  have runs : m.Runs c.program := ⟨rfl, 4, 1, rfl⟩
  have start : History c.program (afterReading files).entered {} _ := .start {}
  have literal := (lists_refine_sequences accepted start).literal m list ⟨11⟩ (var "xs") .int
    elements 1 runs ⟨type, new, enteredNew⟩
  obtain ⟨a, s, made, -, -⟩ := (if_pos (by decide)).mp literal
  have two := start.literal runs ⟨type, new, enteredNew⟩ (by decide) made
  obtain ⟨b, holds, appends⟩ := (lists_refine_sequences accepted two).call m list ⟨10⟩
    (.append (.int 3)) 1 a _ runs ⟨type, append, enteredAppend⟩ (Function.update_self ..) trivial
  have same : s.heap.room = ({} : State).heap.room :=
    (evolves_eval (.room _) (evolving_within (.room _) 4 4) _).after _ _ made
  have room : (ListCall.append (.int 3)).request (s.heap.array b).size (literalValues elements) ≤
      s.heap.room := by
    rw [ListCall.request, same]
    split
    · rename_i full
      rw [← full]
      decide
    · exact Nat.zero_le _
  obtain ⟨t, appended, -⟩ := (if_pos room).mp appends
  have three : History c.program (afterReading files).entered t
      (Function.update _ a (some ((ListCall.append (.int 3)).after (literalValues elements)))) :=
    two.call runs ⟨type, append, enteredAppend⟩ (Function.update_self ..) trivial appended
  obtain ⟨b', holds', gives⟩ := (lists_refine_sequences accepted three).call m list ⟨9⟩
    (.elementAt 2) 1 a _ runs ⟨type, at_, enteredAt⟩ (Function.update_self ..) trivial
  obtain ⟨u, found, -⟩ := (if_pos (Nat.zero_le _)).mp gives
  exact ⟨_, _, _, a, s, t, u, made, appended, found⟩

end Compilation
end ObjectLang
