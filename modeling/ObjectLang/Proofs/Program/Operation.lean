import ObjectLang.Proofs.Grammar.File
import ObjectLang.Proofs.Program.Layout
import ObjectLang.Proofs.Program.Spared
set_option autoImplicit false

/-!
# Operations on programs

What may be done to the tables of a program, whoever does it: types are made or declared, and fields,
functions and methods are added. Reading a file does nothing else, so whatever files and operations
come after one another, the program is made of nothing by operations. Any sequence of operations leaves
the types that it finds what they are, apart from their members, and it leaves the fields of every
type in the order of their names.
-/

namespace ObjectLang

namespace Program

/-- What is left of the program when a function was to become a method of `owner`. -/
def tryMethod (p : Program) (owner : TypeId) (id : FunctionId) : Program :=
  (Shared.left ((Shared.addMethod owner id).run ⟨p, {}⟩)).program

inductive Operation (p : Program) : Program → Prop
  | arrayOf (element : TypeId) (known : p.types.Knows element) : Operation p (p.arrayOf element).2
  | referenceTo (referent : TypeId) (known : p.types.Knows referent) :
    Operation p (p.referenceTo referent).2
  | listOf (element : TypeId) (known : p.types.Knows element) : Operation p (p.listOf element).2
  | declare (name : String) (parent : Option TypeId) (known : ∀ t ∈ parent, p.types.Knows t) :
    Operation p { p with types := (p.types.declare name parent).2 }
  /-- A field may be declared again, with another type. -/
  | addField (owner : TypeId) (name : String) (type : TypeId) :
    Operation p { p with types := p.types.addField owner name type }
  | addFunction (f : Function) : Operation p (p.addFunction f).2
  | modifyFunction (id : FunctionId) (change : Function → Function) :
    Operation p (p.modifyFunction id change)
  | addMethod (owner : TypeId) (id : FunctionId) : Operation p (p.tryMethod owner id)

def Operations : Program → Program → Prop := Relation.ReflTransGen Operation

variable {p q : Program}

theorem tryMethod_cases (p : Program) (owner : TypeId) (id : FunctionId) :
    p.tryMethod owner id = p ∨ p.tryMethod owner id = p.adopt owner id := by
  rw [tryMethod, Shared.run_addMethod]
  cases p.methodFault? owner (p.function id) with
  | some e => exact .inl rfl
  | none => exact .inr rfl

theorem tryMethod_of_joins {owner : TypeId} {id : FunctionId}
    (joins : p.methodFault? owner (p.function id) = none) :
    p.tryMethod owner id = p.adopt owner id := by
  rw [tryMethod, Shared.run_addMethod, joins]
  rfl

theorem keepsShape_adopt (p : Program) (owner : TypeId) (id : FunctionId) :
    p.types.KeepsShape (p.adopt owner id).types :=
  Registry.keepsShape_modifyMembers _ _ _

theorem Operation.keepsShape (step : Operation p q) : p.types.KeepsShape q.types := by
  cases step with
  | arrayOf element known => exact (Registry.grows_arrayOf _ _).keepsShape
  | referenceTo referent known => exact (Registry.grows_referenceTo _ _).keepsShape
  | listOf element known => exact (Spares.listOf known).types.keepsShape
  | declare name parent known => exact (Draft.grows_declare _ _ _).keepsShape
  | addField owner name type => exact Registry.keepsShape_modifyMembers _ _ _
  | addFunction f => exact .refl _
  | modifyFunction id change => exact .refl _
  | addMethod owner id =>
    rcases p.tryMethod_cases owner id with same | same <;> rw [same]
    · exact .refl _
    · exact p.keepsShape_adopt owner id

theorem Operations.keepsShape (steps : Operations p q) : p.types.KeepsShape q.types := by
  induction steps with
  | refl => exact .refl _
  | tail _ step ih => exact ih.trans step.keepsShape

theorem ordered_adopt (h : p.types.Ordered) (owner : TypeId) (id : FunctionId) :
    (p.adopt owner id).types.Ordered := h.modifyMembers owner fun _ ordered => ordered

theorem ordered_withList (h : p.types.Ordered) (element : TypeId) :
    (p.withList element).2.types.Ordered := by
  have first : (p.arrayOf element).2.types.Ordered := h.intern _ rfl nofun
  refine first.intern none rfl fun m hm => ?_
  cases hm
  exact NameMap.ordered_ofList _

theorem ordered_addMethods (h : p.types.Ordered) (owner : TypeId) (methods : List Function) :
    (p.addMethods owner methods).types.Ordered := by
  have added := addFunctions_induct p methods (I := fun _ q => q.types.Ordered) h
    fun _ _ _ _ hq => hq
  rw [addMethods_eq]
  exact adoptAll_induct _ owner _ (I := fun q => q.types.Ordered) added
    fun q id _ hq => ordered_adopt hq owner id

theorem Operation.ordered (step : Operation p q) (h : p.types.Ordered) : q.types.Ordered := by
  cases step with
  | arrayOf element known => exact h.intern _ rfl nofun
  | referenceTo referent known => exact h.intern _ rfl nofun
  | listOf element known =>
    cases found : p.types.findList? element with
    | some list =>
      rw [listOf_eq_known found]
      exact h
    | none =>
      rw [listOf_eq_new found]
      exact ordered_addMethods (ordered_withList h element) (p.withList element).1
        (ListMethod.all element (p.arrayOf element).1)
  | declare name parent known => exact h.declare name parent
  | addField owner name type => exact h.modifyMembers owner fun m ordered => ordered.insert name type
  | addFunction f => exact h
  | modifyFunction id change => exact h
  | addMethod owner id =>
    rcases p.tryMethod_cases owner id with same | same <;> rw [same]
    · exact h
    · exact ordered_adopt h owner id

theorem Operations.ordered (steps : Operations p q) (h : p.types.Ordered) : q.types.Ordered := by
  induction steps with
  | refl => exact h
  | tail _ step ih => exact step.ordered ih

/-- Whatever is made of the builtin types has its fields in order. -/
theorem Operations.ordered_made (made : Operations {} p) : p.types.Ordered :=
  made.ordered Registry.ordered_initial

end Program

namespace Draft

variable {earlier : List Module} {d e : Draft}

/-- Each step of reading a file is made of operations. -/
theorem Step.operations (step : Step earlier d e) : d.program.Operations e.program := by
  cases step with
  | arrayOf element known => exact .single (.arrayOf element known)
  | referenceTo referent known => exact .single (.referenceTo referent known)
  | listOf element known filled => exact .single (.listOf element known)
  | declare name parent objects plain =>
    exact .single (.declare name parent fun t ht => Program.knows_of_isObject (objects t ht))
  | addField owner name type declared fresh known filled =>
    exact .single (.addField owner name type)
  | addFunction f formed own free fresh => exact .single (.addFunction f)
  | addMethod owner f formed own free object constructors admitted joins =>
    refine .tail (.single (.addFunction f)) ?_
    have new : (d.program.addFunction f).2.function (d.program.addFunction f).1 = f := by
      rw [Program.function_addFunction, if_pos rfl]
    rw [← Program.tryMethod_of_joins (new.symm ▸ joins)]
    exact .addMethod owner _
  | refuse f formed own free => exact .single (.addFunction f)
  | importFunction source id read shown offered => exact .refl
  | importType source id read shown => exact .refl
  | setBody id statements body formed => exact .single (.modifyFunction id _)

theorem Steps.operations (steps : Steps earlier d e) : d.program.Operations e.program := by
  induction steps with
  | refl => exact .refl
  | tail _ step ih => exact ih.trans step.operations

end Draft

/-- Programs that come of reading files and of operations, in any order, with the modules of the files. -/
inductive Reachable : List Module → Program → Prop
  | new : Reachable [] {}
  | operation {modules : List Module} {p q : Program} (front : Reachable modules p)
    (step : p.Operation q) : Reachable modules q
  | file {earlier : List Module} {p : Program} {name path : String} {d : Draft}
    (front : Reachable earlier p) (steps : Draft.Steps earlier (.start earlier name path p) d) :
    Reachable (earlier ++ [d.module]) d.program

theorem Reachable.operations {modules : List Module} {p : Program} (reached : Reachable modules p) :
    Program.Operations {} p := by
  induction reached with
  | new => exact .refl
  | operation _ step ih => exact ih.tail step
  | file _ steps ih => exact (ih.tail (.addFunction _)).trans steps.operations

theorem Written.reachable {modules : List Module} {p : Program} (written : Written modules p) :
    Reachable modules p := by
  induction written with
  | nil => exact .new
  | file earlier p name path d _ steps ih => exact ih.file steps

end ObjectLang
