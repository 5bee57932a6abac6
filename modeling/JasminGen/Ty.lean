/-
  JasminGen.Ty

  Static types of the source language, how they are written, and the class that
  represents each of them at run time.

  Every value is boxed: an `int` is a `java/lang/Integer`, a `bool` is a
  `java/lang/Boolean`, lists and function pointers are instances of the support
  classes `List` and `Fptr`, and a struct is an instance of the class of its name.

  Main functions: `Ty.render`, `Ty.className?`, `Ty.descriptor`, `methodDescriptor`.
-/

namespace JasminGen

/-- The support class of lists. -/
def listClass : String := "List"

/-- The support class of function pointers. -/
def fptrClass : String := "Fptr"

/-- A static type. `void` is the type of a call or an append that gives no value. -/
inductive Ty where
  | int
  | bool
  | void
  | struct (name : String)
  | list (element : Ty)
  | fptr (params : List Ty) (result : Ty)

namespace Ty

/-! ## Decidable equality -/

mutual

/-- Whether two types are the same. -/
def same : Ty → Ty → Bool
  | .int, .int => true
  | .bool, .bool => true
  | .void, .void => true
  | .struct a, .struct b => a == b
  | .list a, .list b => same a b
  | .fptr ps r, .fptr qs s => sameAll ps qs && same r s
  | _, _ => false

/-- Whether two lists of types are the same. -/
def sameAll : List Ty → List Ty → Bool
  | [], [] => true
  | a :: as, b :: bs => same a b && sameAll as bs
  | _, _ => false

end

mutual

theorem eq_of_same : ∀ {a b : Ty}, same a b = true → a = b
  | .int, b, h => by cases b <;> simp_all [same]
  | .bool, b, h => by cases b <;> simp_all [same]
  | .void, b, h => by cases b <;> simp_all [same]
  | .struct _, b, h => by cases b <;> simp_all [same]
  | .list a, b, h => by
    cases b <;> simp only [same, Bool.false_eq_true] at h
    rw [eq_of_same h]
  | .fptr ps r, b, h => by
    cases b <;> simp only [same, Bool.false_eq_true, Bool.and_eq_true] at h
    rw [eq_of_sameAll h.1, eq_of_same h.2]

theorem eq_of_sameAll : ∀ {as bs : List Ty}, sameAll as bs = true → as = bs
  | [], bs, h => by cases bs <;> simp_all [sameAll]
  | a :: as, bs, h => by
    cases bs <;> simp only [sameAll, Bool.false_eq_true, Bool.and_eq_true] at h
    rw [eq_of_same h.1, eq_of_sameAll h.2]

end

mutual

theorem same_refl : ∀ a : Ty, same a a = true
  | .int => by simp [same]
  | .bool => by simp [same]
  | .void => by simp [same]
  | .struct _ => by simp [same]
  | .list a => by simp [same, same_refl a]
  | .fptr ps r => by simp [same, sameAll_refl ps, same_refl r]

theorem sameAll_refl : ∀ as : List Ty, sameAll as as = true
  | [] => by simp [sameAll]
  | a :: as => by simp [sameAll, same_refl a, sameAll_refl as]

end

instance : DecidableEq Ty := fun a b =>
  if h : same a b = true then isTrue (eq_of_same h)
  else isFalse fun e => h (e ▸ same_refl a)

instance : Inhabited Ty := ⟨.void⟩

/-! ## Rendering -/

mutual

/-- A type as it is written in the source language. -/
def render : Ty → String
  | .int => "int"
  | .bool => "bool"
  | .void => "void"
  | .struct name => "struct " ++ name
  | .list element => "list # " ++ element.render
  | .fptr [] result => "fptr<void -> " ++ result.render ++ ">"
  | .fptr (p :: ps) result => "fptr<" ++ p.render ++ renderTail ps ++ " -> " ++ result.render ++ ">"

/-- Further parameters of a function pointer type, each after a comma. -/
def renderTail : List Ty → String
  | [] => ""
  | p :: ps => ", " ++ p.render ++ renderTail ps

end

/-! ## Representation -/

/-- Values of the type are wrapper objects, which are unboxed before an
    operation on primitive values. -/
def isBoxedPrimitive : Ty → Bool
  | .int | .bool => true
  | _ => false

def isVoid : Ty → Bool
  | .void => true
  | _ => false

/-- The class that represents values of the type; `void` has none. -/
def className? : Ty → Option String
  | .int => some "java/lang/Integer"
  | .bool => some "java/lang/Boolean"
  | .void => none
  | .struct name => some name
  | .list _ => some listClass
  | .fptr _ _ => some fptrClass

/-- The descriptor of a field, parameter or result of the type. -/
def descriptor (ty : Ty) : String :=
  match ty.className? with
  | some name => "L" ++ name ++ ";"
  | none => "V"

end Ty

/-- The descriptor of a method, such as `(Ljava/lang/Integer;LList;)V`. -/
def methodDescriptor (params : List Ty) (result : Ty) : String :=
  "(" ++ String.join (params.map Ty.descriptor) ++ ")" ++ result.descriptor

end JasminGen
