import Mathlib.Data.List.Infix

/-!
Annotations and the neutral form in which the collectors hand them to the
analyzer. A nullable string is an `Option String`, a default `ImmutableArray` is
`none`, and `new AnnotationInfo()` is the one whose annotations are null.
-/

namespace Stad

inductive Thrown where
  | exception (message : String)
  | nullReference
  | indexOutOfRange
  | invalidCast
  | invalidOperation
  | argument
  | ambiguousMatch
  deriving DecidableEq, Repr

def contains (text part : String) : Bool := decide (part.toList <:+: text.toList)

inductive Argument where
  | null
  | int (value : Int32)
  | float (bits : UInt32)
  | string (value : String)
  | stringArray (lines : List (Option String))
  | type (fullName : Option String)
  | other (typeName : String)
  deriving DecidableEq, Repr

def item (arguments : List Argument) (index : Nat) : Except Thrown Argument :=
  match arguments[index]? with
  | some argument => .ok argument
  | none => .error .indexOutOfRange

def castInt : Argument → Except Thrown Int32
  | .int value => .ok value
  | .null => .error .nullReference
  | _ => .error .invalidCast

def castString : Argument → Except Thrown (Option String)
  | .string value => .ok (some value)
  | .null => .ok none
  | _ => .error .invalidCast

def castStringArray : Argument → Except Thrown (Option (List (Option String)))
  | .stringArray lines => .ok (some lines)
  | .null => .ok none
  | _ => .error .invalidCast

structure RangeAttribute where
  intStart : Int32
  intEnd : Int32
  floatStart : UInt32
  floatEnd : UInt32
  deriving DecidableEq, Repr

def RangeAttribute.ofInts (start stop : Int32) : RangeAttribute := ⟨start, stop, 0, 0⟩

def RangeAttribute.ofFloats (start stop : UInt32) : RangeAttribute := ⟨0, 0, start, stop⟩

def RangeAttribute.fromArgument (arguments : List Argument) : Except Thrown RangeAttribute := do
  let start ← castInt (← item arguments 0)
  let stop ← castInt (← item arguments 1)
  return RangeAttribute.ofInts start stop

structure NameAttribute where
  name : Option String
  deriving DecidableEq, Repr

def NameAttribute.fromArgument (arguments : List Argument) : Except Thrown NameAttribute := do
  return ⟨← castString (← item arguments 0)⟩

structure DescAttribute where
  descLines : Option (List (Option String))
  deriving DecidableEq, Repr

def DescAttribute.fromArgument (arguments : List Argument) : Except Thrown DescAttribute := do
  return ⟨← castStringArray (← item arguments 0)⟩

structure ReferenceAttribute where
  typeFullName : Option String
  deriving DecidableEq, Repr

def ReferenceAttribute.fromArgument (arguments : List Argument) :
    Except Thrown ReferenceAttribute := do
  return ⟨← castString (← item arguments 0)⟩

structure JsonFormatterProxyAttribute where
  type : String
  deriving DecidableEq, Repr

def JsonFormatterProxyAttribute.ofArguments (arguments : List Argument) :
    Except Thrown JsonFormatterProxyAttribute := do
  match ← item arguments 0 with
  | .type (some fullName) => return ⟨fullName⟩
  | _ => return ⟨""⟩

inductive StadAnnotation where
  | dataSetDefinition
  | range (value : RangeAttribute)
  | name (value : NameAttribute)
  | desc (value : DescAttribute)
  | reference (value : ReferenceAttribute)
  | ignoreMember
  | jsonFormatterProxy (value : JsonFormatterProxyAttribute)
  deriving DecidableEq, Repr

structure AnnotationInfo where
  annotations : Option (List StadAnnotation)
  deriving DecidableEq, Repr

structure NeutralAttributeData where
  type : Option String
  arguments : List Argument
  deriving DecidableEq, Repr

/-- An attribute as reflection shows it: what its constructor does, and what `GetValue`
gives for each of its public fields and properties, in the order of `GetMembers`. A getter
may throw, and a property without a getter or with parameters always does. -/
structure CustomAttribute where
  classFullName : String
  inherited : Bool
  allowMultiple : Bool
  created : Except Thrown Unit
  memberValues : List (Except Thrown Argument)
  deriving DecidableEq, Repr

namespace NeutralAttributeData

def fromCustomAttribute (custom : CustomAttribute) : Except Thrown NeutralAttributeData := do
  return ⟨some custom.classFullName, ← custom.memberValues.mapM id⟩

def fromCustomAttributeArray (array : List CustomAttribute) :
    Except Thrown (List NeutralAttributeData) :=
  array.mapM fromCustomAttribute

end NeutralAttributeData

def isDefaultOrEmpty (attributes : Option (List NeutralAttributeData)) : Bool :=
  (attributes.getD []).isEmpty

namespace StadAnalyzer

/-- One round of the loop of `MakeAnnotationInfo`; `none` is its `continue`. -/
def handleAttribute (data : NeutralAttributeData) : Except Thrown (Option StadAnnotation) :=
  match data.type with
  | none => .ok none
  | some type =>
    if type = "" then .ok none
    else if contains type "System." then .ok none
    else if type = "Utf8Json.JsonFormatterAttribute" then
      do return some (.jsonFormatterProxy (← JsonFormatterProxyAttribute.ofArguments data.arguments))
    else if type = "ReferenceAttribute" then
      do return some (.reference (← ReferenceAttribute.fromArgument data.arguments))
    else if type = "RangeAttribute" then
      do return some (.range (← RangeAttribute.fromArgument data.arguments))
    else if type = "IgnoreMemberAttribute" then .ok (some .ignoreMember)
    else if type = "NameAttribute" then
      do return some (.name (← NameAttribute.fromArgument data.arguments))
    else if type = "DescAttribute" then
      do return some (.desc (← DescAttribute.fromArgument data.arguments))
    else if type = "DataSetDefinition" then .ok (some .dataSetDefinition)
    else .error (.exception ("Not handled attribute : " ++ type))

def makeAnnotations : List NeutralAttributeData → Except Thrown (List StadAnnotation)
  | [] => .ok []
  | data :: rest => do
    let made ← handleAttribute data
    let later ← makeAnnotations rest
    return made.toList ++ later

def makeAnnotationInfo (attributeDatas : Option (List NeutralAttributeData)) :
    Except Thrown AnnotationInfo :=
  if isDefaultOrEmpty attributeDatas then .ok ⟨none⟩
  else do return ⟨some (← makeAnnotations (attributeDatas.getD []))⟩

end StadAnalyzer

end Stad
