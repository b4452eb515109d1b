/-!
# JSON values

The values that trees, tokens and reports are written as. Numbers are whole. The fields of an
object keep their order.
-/
namespace MapScript

inductive Json where
  | null
  | bool (value : Bool)
  | number (value : Int)
  | string (value : String)
  | array (items : List Json)
  | object (fields : List (String × Json))
deriving Inhabited

namespace Json

def ofNat (n : Nat) : Json := .number n

def ofOption {α : Type} (f : α → Json) : Option α → Json
  | none => .null
  | some a => f a

def ofList {α : Type} (f : α → Json) (as : List α) : Json := .array (as.map f)

/-- The value of the first field of a name. A field that is missing reads as `null`, and fields that
nobody asks for are passed over. -/
def lookup (name : String) : List (String × Json) → Json
  | [] => .null
  | (key, value) :: fields => if key = name then value else lookup name fields

theorem sizeOf_lookup_le (name : String) (fields : List (String × Json)) :
    sizeOf (lookup name fields) ≤ sizeOf fields := by
  fun_induction lookup name fields with
  | case1 => simp
  | case2 => simp; omega
  | case3 _ _ _ _ ih => simp; omega

/-- The value of a field. What is no object has no fields. -/
def field (name : String) : Json → Json
  | .object fields => lookup name fields
  | _ => .null

theorem sizeOf_field_le (name : String) (value : Json) :
    sizeOf (value.field name) ≤ sizeOf value := by
  unfold field
  split
  · have := sizeOf_lookup_le name ‹_›
    simp only [Json.object.sizeOf_spec]
    omega
  · cases value <;> simp

def string? : Json → Option String
  | .string value => some value
  | _ => none

def bool? : Json → Option Bool
  | .bool value => some value
  | _ => none

def array? : Json → Option (List Json)
  | .array items => some items
  | _ => none

def isNull : Json → Bool
  | .null => true
  | _ => false

/-- A whole number below `bound`. -/
def nat? (bound : Nat) : Json → Option Nat
  | .number value => if 0 ≤ value ∧ value < bound then some value.toNat else none
  | _ => none

/-- What `f` reads, where `null` stands for nothing. -/
def optional? {α : Type} (f : Json → Option α) (value : Json) : Option (Option α) :=
  if value.isNull then some none else (f value).map some

/-- What `f` reads from each item. -/
def list? {α : Type} (f : Json → Option α) (value : Json) : Option (List α) := do
  (← value.array?).mapM f

end Json

end MapScript
