import Mathlib.Logic.Function.Basic
import Stad.AnnotationCore

/-!
Executable model of `StadSerializer.LoadDataAsync` and of the reflection lookups
it makes. Objects live in a heap. A variable of a class type holds a reference;
one of a struct type holds the members themselves, and boxing it copies them.
-/

namespace Stad

inductive EncodingType where
  | undefined
  | messagePack
  | json
  deriving DecidableEq, Repr

structure DataSetItem where
  name : String
  sizeBytes : Int32
  encodingType : EncodingType
  deriving DecidableEq, Repr

structure FieldMember (τ : Type) where
  name : String
  fieldType : τ
  deriving DecidableEq, Repr

structure PropertyMember (τ : Type) where
  name : String
  propertyType : τ
  canWrite : Bool
  deriving DecidableEq, Repr

/-- Where an object keeps the value of a member: its position among the fields or properties. -/
inductive Slot where
  | field (position : Nat)
  | property (position : Nat)
  deriving DecidableEq, Repr

abbrev Contents (ν : Type) := Slot → ν

/-- The public instance members, those of a derived type before those of its base. The
constructor returns, and setting a property stores the value and nothing else. -/
structure TargetType (τ ν : Type) where
  isValueType : Bool
  fields : List (FieldMember τ)
  properties : List (PropertyMember τ)
  constructed : Contents ν
  zeroed : Contents ν

structure DataSet (τ ν : Type) where
  name : String
  getItems : Option (List DataSetItem)
  loadAsync : Option τ → DataSetItem → Except Thrown ν

abbrev Heap (ν : Type) := List (Contents ν)

inductive Variable (ν : Type) where
  | null
  | reference (address : Nat)
  | inline (contents : Contents ν)

variable {τ ν : Type}

/-- Passing a variable as an `object`. -/
def box (heap : Heap ν) : Variable ν → Except Thrown (Heap ν × Nat)
  | .null => .error .nullReference
  | .reference address => .ok (heap, address)
  | .inline contents => .ok (heap ++ [contents], heap.length)

def contentsOf (heap : Heap ν) : Variable ν → Option (Contents ν)
  | .null => none
  | .reference address => heap[address]?
  | .inline contents => some contents

namespace TargetType

variable (type : TargetType τ ν)

def getField (name : String) : Option (FieldMember τ × Nat) :=
  type.fields.zipIdx.find? fun field => field.1.name = name

def getProperty (name : String) : Except Thrown (Option (PropertyMember τ × Nat)) :=
  match type.properties.zipIdx.filter fun property => property.1.name = name with
  | [] => .ok none
  | [property] => .ok (some property)
  | _ => .error .ambiguousMatch

end TargetType

namespace ReflectionUtility

variable (type : TargetType τ ν)

def findMember (item : DataSetItem) : Except Thrown (Option (Slot × τ)) :=
  match type.getField item.name with
  | some field => .ok (some (.field field.2, field.1.fieldType))
  | none => do
    match ← type.getProperty item.name with
    | some property => return some (.property property.2, property.1.propertyType)
    | none => return none

def assign (isInstance : τ → ν → Bool) (heap : Heap ν) (address : Nat) (slot : Slot)
    (memberType : τ) (value : ν) : Except Thrown (Heap ν) :=
  if isInstance memberType value then
    .ok (heap.modify address fun contents => Function.update contents slot value)
  else .error .argument

def setValue (isInstance : τ → ν → Bool) (heap : Heap ν) (address : Nat) (item : DataSetItem)
    (value : ν) : Except Thrown (Heap ν × Bool) :=
  match type.getField item.name with
  | some field => do
    return (← assign isInstance heap address (.field field.2) field.1.fieldType value, true)
  | none => do
    match ← type.getProperty item.name with
    | some property =>
      if property.1.canWrite then
        return (← assign isInstance heap address (.property property.2) property.1.propertyType
          value, true)
      else throw .argument
    | none => return (heap, false)

end ReflectionUtility

namespace StadSerializer

variable (type : TargetType τ ν) (isInstance : τ → ν → Bool)

def new : Heap ν × Variable ν :=
  if type.isValueType then ([], .inline type.constructed) else ([type.constructed], .reference 0)

def default : Heap ν × Variable ν :=
  if type.isValueType then ([], .inline type.zeroed) else ([], .null)

/-- Both lookups take `result` as an `object`, so each boxes it anew. -/
def loadItem (dataSet : DataSet τ ν) (state : Heap ν × Variable ν) (item : DataSetItem) :
    Except Thrown (Heap ν × Variable ν) := do
  let target ← box state.1 state.2
  let memberInfo ← ReflectionUtility.findMember type item
  let value ← dataSet.loadAsync (memberInfo.map Prod.snd) item
  let target ← box target.1 state.2
  let assigned ← ReflectionUtility.setValue type isInstance target.1 target.2 item value
  return (assigned.1, state.2)

def loadDataAsync (dataSet : Option (DataSet τ ν)) : Except Thrown (Heap ν × Variable ν) :=
  match dataSet with
  | none => .ok (default type)
  | some dataSet =>
    match dataSet.getItems with
    | none => .ok (default type)
    | some items => items.foldlM (loadItem type isInstance dataSet) (new type)

end StadSerializer

end Stad
