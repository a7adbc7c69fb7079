import ObjectLang.Proofs.Lists.Checked
import ObjectLang.Proofs.Scoping.Library
import ObjectLang.Proofs.Program.Builtin
set_option autoImplicit false

/-!
# List methods of accepted programs

In a program that was accepted, every list type has its methods, and those that the check has entered
run like the trees that they were made of, with their calls bound.
-/

namespace ObjectLang

open ListMethod Typing

structure Program.Hosts (p : Program) (native : Machine.Native) (f : FunctionId) : Prop where
  named : (p.function f).name = native.name
  host : (p.function f).isNative = true
  arity : (p.function f).parameters.length = native.arity

/-- A method of a list that runs like the tree it was made of. -/
structure Program.Runs (p : Program) (host : String → FunctionId) (resize : FunctionId)
    (list : TypeId) (f : Function) (id : FunctionId) : Prop where
  declared : (p.function id).declared = (f.asMethod list).declared
  body : ∀ c, Machine.execAll c (p.function id).body =
    Machine.execAll c ((f.asMethod list).body.map (·.bound host resize))

theorem functionScopes_congr (m : Module) (p : Program) {f g : Function}
    (h : f.parameters = g.parameters) : functionScopes m p f = functionScopes m p g := by
  rw [functionScopes, functionScopes, h]

section Trees

variable {element array : TypeId}

theorem begins (list : TypeId) {f : Function} (hf : f ∈ ListMethod.all element array) :
    ((∀ x ∈ (f.asMethod list).body, Plain x) ∧ ∀ m p,
      (functionScopes m p (f.asMethod list)).get? receiverName = some (.value list)) ∨
    ∃ rest, (f.asMethod list).body = .declare (var receiverName) (.new list 0) 0 :: rest ∧
      ∀ x ∈ rest, Plain x := by
  simp only [ListMethod.all, List.mem_cons, List.not_mem_nil, or_false] at hf
  rcases hf with rfl | rfl | rfl | rfl | rfl
  · refine .inl ⟨?_, fun _ _ => rfl⟩
    change ∀ x ∈ (reSize element).body, Plain x
    simp only [reSize, shared, List.forall_mem_cons]
    exact ⟨.declare "arr" _ (by decide) rfl, .assign _ _ rfl rfl, .free _ _ rfl,
      .assign _ _ rfl rfl, List.forall_mem_nil _⟩
  · refine .inl ⟨?_, fun _ _ => rfl⟩
    change ∀ x ∈ getSize.body, Plain x
    simp only [getSize, shared, List.forall_mem_cons]
    exact ⟨.ret _ rfl, List.forall_mem_nil _⟩
  · refine .inl ⟨?_, fun _ _ => rfl⟩
    change ∀ x ∈ (elementAt element).body, Plain x
    simp only [elementAt, shared, List.forall_mem_cons]
    exact ⟨.ifThen _ _ rfl (.free _ _ rfl), .ret _ rfl, List.forall_mem_nil _⟩
  · refine .inl ⟨?_, fun _ _ => rfl⟩
    change ∀ x ∈ (append element).body, Plain x
    simp only [append, shared, List.forall_mem_cons]
    exact ⟨.ifThen _ _ rfl (.method _ rfl), .assign _ _ rfl rfl, .assign _ _ rfl rfl, List.forall_mem_nil _⟩
  · refine .inr ⟨(constructor array).body ++ [.ret (var receiverName) 0], rfl, ?_⟩
    simp only [constructor, shared, List.forall_mem_append, List.forall_mem_cons]
    exact ⟨⟨.assign _ _ rfl rfl, .method _ rfl, .free _ _ rfl, .assign _ _ rfl rfl, List.forall_mem_nil _⟩,
      .ret _ rfl, List.forall_mem_nil _⟩

end Trees

section Check

variable {c : Context} {m : Module} {p : Program} {element array list : TypeId} {s : State}

theorem check_receiver (entered : c.current ∈ s.checked) (evolves : p.Evolves s.program)
    (found : c.modules[(p.function c.current).module]? = some m)
    (ok : (check c (.declare (var receiverName) (.new list 0) 0) s).result = .ok ()) :
    Within c m p list (check c (.declare (var receiverName) (.new list 0) 0) s).state ∧
      Binds (fun name f => f ∈ m.functions ∧ (p.function f).name = name)
        (fun f => p.types.findMethod? list "reSize" = some f)
        (.declare (var receiverName) (.new list 0) 0)
        (check c (.declare (var receiverName) (.new list 0) 0) s).statement := by
  obtain ⟨type, _, noted, at_, same, result, ⟨⟩, rule, checked⟩ := checkAssign_declare ok
  rw [visit] at result rule checked
  cases result
  cases rule
  rw [Statement.declare, check, checked]
  refine ⟨⟨entered, evolves, found, Scopes.get?_push_self _ _ _⟩, ?_⟩
  exact .assign true (var receiverName) _ none (.new list 0) _ 0 rfl rfl

/-- The check of a list method binds its statements. -/
theorem binds_of_check (hc : c.Keeping) (known : p.types.Knows list)
    (direct : p.types.dereference list = list)
    (dynamic : ∀ f, p.types.findMethod? list "reSize" = some f →
      (p.function f).traits.isStatic = false)
    {f : Function} (hf : f ∈ ListMethod.all element array) (entered : c.current ∈ s.checked)
    (evolves : p.Evolves s.program)
    (found : c.modules[(p.function c.current).module]? = some m) {q : Program}
    (scopes : s.scopes = functionScopes m q (f.asMethod list))
    (clean : (checkAll c (f.asMethod list).body s).2.Clean) :
    List.Forall₂ (Binds (fun name f => f ∈ m.functions ∧ (p.function f).name = name)
      (fun f => p.types.findMethod? list "reSize" = some f)) (f.asMethod list).body
      (checkAll c (f.asMethod list).body s).1 := by
  rcases begins list hf with ⟨plain, receiver⟩ | ⟨rest, body, plain⟩
  · exact checkAll_bound hc known direct dynamic plain
      ⟨entered, evolves, found, scopes ▸ receiver m q⟩ clean
  · rw [body] at clean ⊢
    obtain ⟨ok, -⟩ := ok_of_clean hc entered clean
    obtain ⟨within, binds⟩ := check_receiver entered evolves found ok
    rw [checkAll_cons rest ok] at clean ⊢
    exact .cons binds (checkAll_bound hc known direct dynamic plain within clean)

end Check

inductive Resizes : Statement → Prop
  | call (arguments : List Expr) : Resizes (perform (own "reSize") arguments)
  | ifThen (test : Expr) (body : Statement) (line : Nat) (inside : Resizes body) :
    Resizes (.ifThen test body line)

section Reach

variable {free : String → FunctionId → Prop} {resizes callable : FunctionId → Prop}
  {names : List String}

theorem callable_of_binds {statement statement' : Statement} (calls : Resizes statement)
    (h : Binds free resizes statement statement') (sees : statement'.Scoped callable names) :
    ∃ f, resizes f ∧ callable f := by
  induction calls generalizing statement' with
  | call arguments =>
    cases h with
    | method callee _ arguments' f found same => exact ⟨f, found, sees.2 f rfl⟩
  | ifThen test body line inside ih =>
    cases h with
    | ifThen _ test' _ body' _ same bound => exact ih bound sees.2

theorem callable_of_allBinds {statements statements' : List Statement}
    (calls : ∃ x ∈ statements, Resizes x)
    (h : List.Forall₂ (Binds free resizes) statements statements')
    (sees : Statement.AllScoped callable names statements') : ∃ f, resizes f ∧ callable f := by
  induction h generalizing names with
  | nil =>
    obtain ⟨x, hx, -⟩ := calls
    cases hx
  | cons first rest ih =>
    obtain ⟨x, hx, resizing⟩ := calls
    rcases List.mem_cons.1 hx with rfl | hx
    · exact callable_of_binds resizing first sees.1
    · exact ih ⟨x, hx, resizing⟩ sees.2

end Reach

theorem Draft.retains_file {earlier : List Module} {p : Program} (library : Library earlier p)
    {name path : String} {d : Draft} (steps : Steps earlier (.start earlier name path p) d) :
    p.Retains (fun _ => False) d.program := by
  have added : p.Retains (fun _ => False) (p.addFunction (emptyBody earlier.length)).2 :=
    .addFunction p _
  have closed := closed_start library name path
  refine added.trans_fresh (steps.goes closed.toGrounded closed.toMade).retains fun id hid own => ?_
  have body : id = (p.addFunction (emptyBody earlier.length)).1 := (Option.some.inj own).symm
  exact Nat.lt_irrefl _ (body ▸ hid : p.Declares (p.addFunction (emptyBody earlier.length)).1)

namespace Compilation

def host (name : String) : FunctionId :=
  ((new.modules.flatMap Module.functions).find? fun f =>
    (new.program.function f).name == name).getD ⟨0⟩

theorem hosts_new :
    (∀ m ∈ new.modules, ∀ f ∈ m.functions,
      f.index < new.program.functions.size ∧ host (new.program.function f).name = f) ∧
    ∀ native ∈ Machine.Native.all, (host native.name).index < new.program.functions.size ∧
      (new.program.function (host native.name)).name = native.name ∧
      (new.program.function (host native.name)).isNative = true ∧
      (new.program.function (host native.name)).parameters.length = native.arity := by
  simp only [host, new_eq]
  decide +kernel

theorem retains_readAll {c : Compilation} (written : Written c.modules c.program)
    (files : List (String × Lexed)) :
    c.program.Retains (fun _ => False) (c.readAll files).program := by
  induction files generalizing c with
  | nil => exact .refl _ _
  | cons file rest ih =>
    obtain ⟨d, steps, -, program⟩ := steps_read written.library file.1 file.2
    have first := Draft.retains_file written.library steps
    rw [← program] at first
    exact first.trans (ih (written_read written file.1 file.2))

theorem modules_readAll (c : Compilation) (files : List (String × Lexed)) :
    c.modules <+: (c.readAll files).modules := by
  induction files generalizing c with
  | nil => exact List.prefix_rfl
  | cons file rest ih =>
    have first : c.modules <+: (c.read file.1 file.2).modules := List.prefix_append _ _
    exact first.trans (ih _)

variable {files : List SourceFile} {c : Compilation} {t : Typing.State}

/-- Reading files leaves earlier functions as they are. -/
theorem function_readAll {d : Compilation} (written : Written d.modules d.program)
    (files : List SourceFile) {f : FunctionId} (declares : d.program.Declares f) :
    (((d.addSources files).recordLexed (files.map lex)).readAll (files.map lex)).program.function f =
      d.program.function f :=
  (retains_readAll (written_sources written files) _).functions f declares not_false

theorem function_afterReading (files : List SourceFile) {f : FunctionId}
    (declares : new.program.Declares f) :
    (afterReading files).program.function f = new.program.function f :=
  function_readAll written_new files declares

theorem mem_of_module_zero {d : Compilation} (filled : d.modules ≠ []) (files : List SourceFile)
    {m : Module} (h : (((d.addSources files).recordLexed (files.map lex)).readAll
      (files.map lex)).modules[0]? = some m) : m ∈ d.modules := by
  obtain ⟨first, rest, same⟩ := List.exists_cons_of_ne_nil filled
  obtain ⟨more, same'⟩ := modules_readAll
    ((d.addSources files).recordLexed (files.map lex)) (files.map lex)
  rw [modules_sources, same] at same'
  rw [← same'] at h
  cases h
  rw [same]
  exact List.mem_cons_self

theorem Compiled.hosts (h : Compiled files c t) (native : Machine.Native) :
    t.program.Hosts native (host native.name) := by
  have every : native ∈ Machine.Native.all := by cases native <;> decide
  obtain ⟨declares, named, isNative, arity⟩ := hosts_new.2 native every
  have evolves := h.accepted.later.evolves
  have same := function_afterReading files declares
  have read : (afterReading files).unchecked.program = (afterReading files).program := rfl
  refine ⟨?_, ?_, ?_⟩
  · rw [evolves.name_eq, read, same, named]
  · rw [evolves.isNative_eq, read, same, isNative]
  · rw [evolves.parameters_eq, read, same, arity]

theorem Compiled.host_eq (h : Compiled files c t) {m : Module} (builtin : m ∈ new.modules)
    {f : FunctionId} (hf : f ∈ m.functions) : f = host (t.program.function f).name := by
  obtain ⟨declares, same⟩ := hosts_new.1 m builtin f hf
  have read : (afterReading files).unchecked.program = (afterReading files).program := rfl
  rw [h.accepted.later.evolves.name_eq, read, function_afterReading files declares, same]

theorem get_list_of_evolves {p q : Program} {list element : TypeId} {members : Members}
    (evolves : p.Evolves q) (type : q.types.get list = .list element members) :
    p.types.Knows list ∧ p.types.get list = .list element members := by
  have object := evolves.members list
  rw [type] at object
  have known : p.types.Knows list := by
    refine Registry.knows_of_get_ne_void fun void => ?_
    rw [void] at object
    cases object
  exact ⟨known, (evolves.types.get_eq known).symm.trans type⟩

section Methods

variable {element array list : TypeId}

theorem Compiled.listType (h : Compiled files c t) {members : Members}
    (type : t.program.types.get list = .list element members) :
    ∃ array, (afterReading files).program.ListType element list array :=
  (written_afterReading files).library.lists list element members
    (get_list_of_evolves h.accepted.later.evolves type).2

theorem findMethod?_listType {p : Program} (made : p.ListType element list array) {f : Function}
    (hf : f ∈ ListMethod.all element array) :
    ∃ id, p.types.findMethod? list f.name = some id ∧ p.function id = f.asMethod list := by
  obtain ⟨members, type, -⟩ := made.type
  obtain ⟨id, method, -, same⟩ := made.methods f hf
  exact ⟨id, (Program.findMethod?_list type f.name).trans method, same⟩

theorem knows_listType {p : Program} (made : p.ListType element list array) :
    p.types.Knows list := by
  obtain ⟨members, type, -⟩ := made.type
  refine Registry.knows_of_get_ne_void ?_
  rw [type]
  nofun

theorem declared_listMethod (list : TypeId) {f : Function} (hf : f ∈ ListMethod.all element array) :
    (f.asMethod list).module = 0 ∧ (f.asMethod list).isNative = false := by
  simp only [ListMethod.all, List.mem_cons, List.not_mem_nil, or_false] at hf
  rcases hf with rfl | rfl | rfl | rfl | rfl <;> exact ⟨rfl, rfl⟩

/-- Once a method of a list is entered, it runs like the tree that it was made of, and so is the
    method that it calls. -/
theorem Compiled.runs (h : Compiled files c t)
    (made : (afterReading files).program.ListType element list array) {resize : FunctionId}
    (resizing : (afterReading files).program.types.findMethod? list "reSize" = some resize)
    {f : Function} (hf : f ∈ ListMethod.all element array) {id : FunctionId}
    (same : (afterReading files).program.function id = f.asMethod list) (checked : id ∈ t.checked) :
    t.program.Runs host resize list f id ∧
      ((∃ x ∈ (f.asMethod list).body, Resizes x) → resize ∈ t.checked) := by
  have evolves : (afterReading files).program.Evolves t.program := h.accepted.later.evolves
  have declared : (t.program.function id).declared = (f.asMethod list).declared :=
    same ▸ evolves.declared id
  obtain ⟨module, native⟩ := declared_listMethod list hf
  rw [← same, ← evolves.isNative_eq] at native
  rw [← same, ← evolves.module_eq] at module
  have written : ¬(t.program.function id).isNative = true := Bool.eq_false_iff.1 native
  have known := knows_listType made
  obtain ⟨members, type, -⟩ := made.type
  obtain ⟨m, depth, v, found, scopes, entered, later, clean, body⟩ :=
    (h.accepted.walked id checked).resolve_left written
  obtain ⟨m', Γ, -, typed⟩ := (h.accepted.correct id checked).resolve_left written
  -- the check of the method began in a program that knows the list, too
  obtain ⟨known', type'⟩ := get_list_of_evolves later ((evolves.types.get_eq known).trans type)
  have direct : v.program.types.dereference list = list := by
    rw [Registry.dereference, type']
  have method (g : FunctionId) : v.program.types.findMethod? list "reSize" = some g ↔ g = resize := by
    rw [← later.types.findMethod?_eq known', evolves.types.findMethod?_eq known, resizing,
      Option.some.injEq, eq_comm]
  have dynamic (g : FunctionId) (hg : v.program.types.findMethod? list "reSize" = some g) :
      (v.program.function g).traits.isStatic = false := by
    obtain rfl := (method g).1 hg
    have inside : reSize element ∈ ListMethod.all element array := List.mem_cons_self
    obtain ⟨g', found', same'⟩ := findMethod?_listType made inside
    obtain rfl : g = g' := Option.some.inj (resizing.symm.trans found')
    rw [← later.traits_eq, evolves.traits_eq, same']
    rfl
  have builtin : m ∈ new.modules := mem_of_module_zero modules_new_ne_nil files (module ▸ found)
  rw [same] at clean body
  rw [later.module_eq] at found
  have scopes' : v.scopes = functionScopes m t.program (f.asMethod list) := by
    rw [scopes]
    exact functionScopes_congr m t.program ((evolves.parameters_eq id).trans (congrArg _ same))
  have binds := binds_of_check (c := ⟨(afterReading files).modules, id,
    checkWithin (afterReading files).modules depth⟩) (keeps_checkWithin _ _) known' direct dynamic
    hf entered (.refl _) found scopes' clean
  rw [← body] at binds
  refine ⟨⟨declared, fun ctx => Machine.execAll_of_binds ?_ (fun g hg => (method g).1 hg) binds⟩,
    fun calls => ?_⟩
  · rintro name g ⟨mem, named⟩
    rw [← named, ← later.name_eq]
    exact h.host_eq builtin mem
  · have sees : Statement.AllScoped (· ∈ t.checked) _ _ := typed.scoped (fun _ _ known => known.1)
      (covers_functionScopes m' _ _)
    obtain ⟨g, hg, mem⟩ := callable_of_allBinds calls binds sees
    exact (method g).1 hg ▸ mem

end Methods

end Compilation
end ObjectLang
