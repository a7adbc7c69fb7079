import ObjectLang.Proofs.Calls.Kept
import ObjectLang.Proofs.Typing.Annotate
import ObjectLang.Proofs.Typing.Compiled
set_option autoImplicit false

/-!
# Bodies of constructors

A constructor is put around what was written for it: before that it allocates `self`, and behind
that it returns `self`. Every method that is named as constructors are has such a body when it has
been read, and also when it has been checked, since a check only adds notes to it.
-/

namespace ObjectLang

theorem Expr.eq_var_of_erased {e : Expr} {name : String} {line : Nat}
    (h : e.erased = .var name none line) : ∃ type, e = .var name type line := by
  cases e with
  | var other type place =>
    cases h
    exact ⟨type, rfl⟩
  | _ => cases h

theorem Expr.eq_new_of_erased {e : Expr} {type : TypeId} {line : Nat}
    (h : e.erased = .new type line) : e = .new type line := by
  cases e with
  | new other place => exact h
  | _ => cases h

namespace Statement

theorem allErased_eq_map (statements : List Statement) :
    allErased statements = statements.map erased := by
  induction statements with
  | nil => rfl
  | cons statement rest ih => rw [allErased, ih, List.map_cons]

theorem eq_ret_of_erased {statement : Statement} {value : Expr} {line : Nat}
    (h : statement.erased = .ret value line) :
    ∃ value', statement = .ret value' line ∧ value'.erased = value := by
  cases statement with
  | ret value' place =>
    cases h
    exact ⟨value', rfl, rfl⟩
  | _ => cases h

theorem eq_declare_of_erased {statement : Statement} {target value : Expr} {line : Nat}
    (h : statement.erased = .declare target value line) :
    ∃ target' value', statement = .declare target' value' line ∧ target'.erased = target ∧
      value'.erased = value := by
  cases statement with
  | assign declares target' written value' place =>
    cases h
    exact ⟨target', value', rfl, rfl, rfl⟩
  | _ => cases h

end Statement

namespace Function

/-- The body allocates an object of the type as `self` before all else, and returns `self` if
    nothing was returned before. -/
def Allocates (f : Function) (owner : TypeId) : Prop :=
  ∃ noted noted' line statements,
    f.body = .declare (.var receiverName noted line) (.new owner line) line ::
      (statements ++ [.ret (.var receiverName noted' line) line])

variable {f g : Function} {owner : TypeId}

theorem allocates_asMethod (f : Function) (owner : TypeId)
    (named : (f.asMethod owner).name = constructorName) : (f.asMethod owner).Allocates owner := by
  rw [name_asMethod] at named
  refine ⟨none, none, f.line, f.body, ?_⟩
  unfold asMethod withReceiver
  dsimp only
  split <;> rfl

theorem Annotates.allocates (h : f.Annotates g) (allocates : f.Allocates owner) :
    g.Allocates owner := by
  obtain ⟨_, _, line, statements, written⟩ := allocates
  have same : g.body.map Statement.erased = f.body.map Statement.erased := by
    rw [← Statement.allErased_eq_map, ← Statement.allErased_eq_map, h.body]
  rw [written, List.map_cons, List.map_append] at same
  obtain ⟨first, more, body, first', more'⟩ := List.map_eq_cons_iff.1 same
  obtain ⟨inside, behind, rfl, -, last⟩ := List.map_eq_append_iff.1 more'
  obtain ⟨final, rfl, final'⟩ := List.map_eq_singleton_iff.1 last
  obtain ⟨target, value, rfl, target', value'⟩ := Statement.eq_declare_of_erased first'
  obtain ⟨result, rfl, result'⟩ := Statement.eq_ret_of_erased final'
  obtain ⟨noted, rfl⟩ := Expr.eq_var_of_erased target'
  obtain rfl := Expr.eq_new_of_erased value'
  obtain ⟨noted', rfl⟩ := Expr.eq_var_of_erased result'
  exact ⟨noted, noted', line, inside, body⟩

def AllocatesIfConstructor (f : Function) : Prop :=
  ∀ owner, f.parent = some owner → f.name = constructorName → f.Allocates owner

theorem allocatesIfConstructor_of_free (free : f.parent = none) : f.AllocatesIfConstructor := by
  intro owner owned
  rw [free] at owned
  cases owned

theorem allocatesIfConstructor_asMethod (f : Function) (owner : TypeId) :
    (f.asMethod owner).AllocatesIfConstructor := by
  intro other owned named
  rw [parent_asMethod] at owned
  cases owned
  exact allocates_asMethod f owner named

theorem Annotates.allocatesIfConstructor (h : f.Annotates g)
    (allocates : f.AllocatesIfConstructor) : g.AllocatesIfConstructor := by
  intro owner owned named
  have parent := congrArg Function.parent h.declared
  have name := congrArg Function.name h.declared
  exact h.allocates (allocates owner (parent.symm.trans owned) (name.symm.trans named))

theorem parent_listMethod {element array : TypeId} (h : f ∈ ListMethod.all element array) :
    f.parent = none := by
  simp only [ListMethod.all, List.mem_cons, List.not_mem_nil, or_false] at h
  rcases h with rfl | rfl | rfl | rfl | rfl <;> rfl

end Function

def Program.ConstructorsAllocate (p : Program) : Prop :=
  ∀ id, (p.function id).AllocatesIfConstructor

namespace Draft

variable {earlier : List Module} {d e : Draft}

theorem Step.constructorsAllocate (made : d.Made) (h : d.program.ConstructorsAllocate)
    (step : Step earlier d e) : e.program.ConstructorsAllocate := by
  have added {f : Function} (free : f.parent = none) :
      (d.program.addFunction f).2.ConstructorsAllocate :=
    Program.forall_addFunction h (Function.allocatesIfConstructor_of_free free)
  cases step with
  | listOf element known filled =>
    exact Program.forall_listOf h
      (fun _ f hf => Function.allocatesIfConstructor_of_free (Function.parent_listMethod hf))
      fun list f _ => f.allocatesIfConstructor_asMethod list
  | addFunction f formed own free fresh => exact added free
  | addMethod owner f formed own free object constructors admitted joins =>
    exact Program.forall_modifyFunction (added free) _
      (Function.allocatesIfConstructor_asMethod _ owner)
  | refuse f formed own free => exact added free
  | setBody id statements body formed =>
    exact Program.forall_modifyFunction h id
      (Function.allocatesIfConstructor_of_free (made.body id body))
  | _ => exact h

theorem Steps.constructorsAllocate (hd : d.Closed earlier) (h : d.program.ConstructorsAllocate)
    (steps : Steps earlier d e) : e.program.ConstructorsAllocate := by
  induction steps with
  | refl => exact h
  | tail front step ih => exact step.constructorsAllocate (Steps.closed hd front).1.toMade ih

end Draft

/-- All constructors that are read allocate an object of their owner. -/
theorem Written.constructorsAllocate {modules : List Module} {p : Program} (h : Written modules p) :
    p.ConstructorsAllocate := by
  induction h with
  | nil => exact fun _ => Function.allocatesIfConstructor_of_free rfl
  | file earlier p name path d front steps ih =>
    exact steps.constructorsAllocate (Draft.closed_start front.library name path)
      (Program.forall_addFunction ih (Function.allocatesIfConstructor_of_free rfl))

namespace Compilation

theorem annotates_checkFrom (c : Compilation) (first : Nat) (s : Typing.State) :
    s.program.Annotates (c.checkFrom first s).program := by
  unfold checkFrom
  generalize (List.range c.modules.length).drop first = indices
  induction indices generalizing s with
  | nil => exact .refl _
  | cons index rest ih => exact (Typing.annotates_checkModule c.modules index s).trans (ih _)

theorem constructorsAllocate {files : List SourceFile} {c : Compilation}
    (accepted : new.compile files = (.ok (), c)) : c.program.ConstructorsAllocate := by
  intro id
  have h := compiled accepted
  have annotated := annotates_checkFrom (afterReading files) 1 (afterReading files).unchecked
  rw [h.program]
  exact (annotated.functions id).allocatesIfConstructor
    ((written_afterReading files).constructorsAllocate id)

end Compilation
end ObjectLang
