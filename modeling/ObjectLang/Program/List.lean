import ObjectLang.Program.Method
set_option autoImplicit false

/-!
# Lists

A list is an object over an array. `_arr` is its storage, `size` counts the elements in use and
`max_size` the slots. Its methods are ordinary functions, written here as trees: `reSize` moves the
elements into fresh storage, `append` grows full storage to `2 * max_size + 1` slots, `at` refuses
places that are not in use, and the constructor copies an array.
-/

namespace ObjectLang

namespace ListMethod

/- Shorthands for trees without a place in any file. -/
def var (name : String) : Expr := .var name none 0

def int (value : Word) : Expr := .literal (.int value) 0

def own (field : String) : Expr := .field (var receiverName) field none 0

def binary (op : BinaryOperator) (lhs rhs : Expr) : Expr := .binary op lhs rhs 0

def perform (callee : Expr) (arguments : List Expr) : Statement :=
  .call callee arguments none false 0

def assign (target value : Expr) : Statement := .assign false target none value 0

def shared (name : String) (returnType : TypeId) (parameters : List Parameter)
    (body : List Statement) (traits : Traits := {}) : Function where
  name
  returnType
  parameters
  body
  traits := traits.union { isPublic := true, isExplicit := true }
  module := 0
  line := 0

def reSize (element : TypeId) : Function :=
  shared "reSize" .void [⟨"new_size", .int, 0⟩]
    [.declare (var "arr") (own "_arr") 0,
      assign (own "_arr") (.allocate element (var "new_size") 0),
      perform (var "memcpy") [own "_arr", var "arr", own "size"],
      assign (own "max_size") (var "new_size")]

def getSize : Function :=
  shared "getSize" .int [] [.ret (own "size") 0] { isConst := true }

def elementAt (element : TypeId) : Function :=
  shared "at" element [⟨"index", .int, 0⟩]
    [.ifThen
        (binary .or (binary .less (var "index") (int 0))
          (binary .greaterEqual (var "index") (own "size")))
        (perform (var "panic") [.literal (.char "list index out of range") 0]) 0,
      .ret (.index (own "_arr") (var "index") 0) 0]
    { isConst := true }

def append (element : TypeId) : Function :=
  shared "append" .void [⟨"item", element, 0⟩]
    [.ifThen (binary .equal (own "size") (own "max_size"))
        (perform (own "reSize")
          [binary .add (binary .multiply (own "max_size") (int 2)) (int 1)]) 0,
      assign (.index (own "_arr") (own "size") 0) (var "item"),
      assign (own "size") (binary .add (own "size") (int 1))]

def constructor (array : TypeId) : Function :=
  shared constructorName .void [⟨"initializer", array, 0⟩, ⟨"arr_size", .int, 0⟩]
    [assign (own "size") (int 0),
      perform (own "reSize") [var "arr_size"],
      perform (var "memcpy") [own "_arr", var "initializer", var "arr_size"],
      assign (own "size") (var "arr_size")]
    { isStatic := true, isConst := true }

def all (element array : TypeId) : List Function :=
  [reSize element, getSize, elementAt element, append element, constructor array]

end ListMethod

namespace Program

def addMethods (p : Program) (owner : TypeId) (methods : List Function) : Program :=
  let (ids, p) := methods.foldl
    (fun (ids, p) f => let (id, p) := p.addFunction f; (ids ++ [id], p)) ([], p)
  ids.foldl (fun p id => p.adopt owner id) p

/-- The list type of an element type, made on first use. -/
def listOf (p : Program) (element : TypeId) : TypeId × Program :=
  match p.types.findList? element with
  | some list => (list, p)
  | none =>
    let (array, p) := p.arrayOf element
    let fields := NameMap.ofList [("_arr", array), ("size", .int), ("max_size", .int)]
    let (list, types) := p.types.addList element { fields }
    (list, { p with types }.addMethods list (ListMethod.all element array))

end Program
end ObjectLang
