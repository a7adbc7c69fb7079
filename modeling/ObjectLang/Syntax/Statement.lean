import ObjectLang.Syntax.Expr
set_option autoImplicit false

/-!
# Statements

Every statement knows its line. A call that stands as a statement has the same parts as one inside
an expression.
-/

namespace ObjectLang

inductive Statement
  | block (statements : List Statement) (line : Nat)
  /-- An assignment, or the declaration of a variable with its first value. -/
  | assign (declares : Bool) (target : Expr) (written : Option TypeId) (value : Expr)
      (line : Nat)
  | ret (value : Expr) (line : Nat)
  | ifThen (condition : Expr) (body : Statement) (line : Nat)
  | ifElse (condition : Expr) (body otherwise : Statement) (line : Nat)
  | whileLoop (condition : Expr) (body : Statement) (line : Nat)
  /-- The first statement and the variable it may declare belong to the loop alone. -/
  | forLoop (first : Statement) (condition : Expr) (step body : Statement) (line : Nat)
  /-- A call whose value is dropped, with the parts of the expression of that name. -/
  | call (callee : Expr) (arguments : List Expr) (target : Option FunctionId)
      (receiverInjected : Bool) (line : Nat)
  deriving Repr, Inhabited

namespace Statement

def line : Statement → Nat
  | block _ line | assign _ _ _ _ line | ret _ line | ifThen _ _ line | ifElse _ _ _ line
  | whileLoop _ _ line | forLoop _ _ _ _ line | call _ _ _ _ line => line

def declare (target value : Expr) (line : Nat) : Statement := assign true target none value line

def isAssignment : Statement → Bool
  | assign .. => true
  | _ => false

end Statement
end ObjectLang
