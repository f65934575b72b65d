import Mathlib.Data.List.AList
import Stad.AnnotationCore
import Stad.Histories

/-!
`StadCache` keeps data sets as objects under their static types and casts them back
on reading. `Set` adds an entry and never replaces one, and a missing entry is cast
like a null, so the cache is a map by type only along histories without a second
`Set` and without a `Get` that has nothing to unbox.
-/

namespace Stad

open Histories

/-- The types of a program. Unboxing as a struct reads the boxes of some other structs
too, an enum as its underlying type. -/
structure TypeSystem where
  Class : Type
  Struct : Type
  Fields : Struct → Type
  zero : ∀ type, Fields type
  derives : Class → Class → Bool
  implements : Struct → Class → Bool
  reinterpret : ∀ stored type, Fields stored → Option (Fields type)
  reinterpret_self : ∀ type value, reinterpret type type value = some value
  decidableClass : DecidableEq Class
  decidableStruct : DecidableEq Struct

attribute [instance] TypeSystem.decidableClass TypeSystem.decidableStruct

inductive TypeArgument (types : TypeSystem) where
  | reference (type : types.Class)
  | struct (type : types.Struct)
  | nullable (type : types.Struct)
  deriving DecidableEq

inductive Object (types : TypeSystem) where
  | null
  | allocated (type : types.Class) (address : Nat)
  | boxed (type : types.Struct) (value : types.Fields type)

variable {types : TypeSystem}

def Object.fits (type : types.Class) : Object types → Bool
  | .null => true
  | .allocated actual _ => types.derives actual type
  | .boxed stored _ => types.implements stored type

/-- A reference is null or refers to an object of the type or of one derived from it. -/
def ValueOf : TypeArgument types → Type
  | .reference type => { object : Object types // object.fits type = true }
  | .struct type => types.Fields type
  | .nullable type => Option (types.Fields type)

def TypeArgument.admitsNull : TypeArgument types → Bool
  | .struct _ => false
  | _ => true

def defaultOf : (type : TypeArgument types) → ValueOf type
  | .reference _ => ⟨.null, rfl⟩
  | .struct type => types.zero type
  | .nullable _ => none

def toObject : {type : TypeArgument types} → ValueOf type → Object types
  | .reference _, reference => reference.1
  | .struct type, value => .boxed type value
  | .nullable _, none => .null
  | .nullable type, some value => .boxed type value

def castTo : (type : TypeArgument types) → Object types → Except Thrown (ValueOf type)
  | .reference type, object =>
    if fits : object.fits type = true then .ok ⟨object, fits⟩ else .error .invalidCast
  | .struct _, .null => .error .nullReference
  | .struct _, .allocated _ _ => .error .invalidCast
  | .struct type, .boxed stored value =>
    match types.reinterpret stored type value with
    | none => .error .invalidCast
    | some value => .ok value
  | .nullable _, .null => .ok none
  | .nullable _, .allocated _ _ => .error .invalidCast
  | .nullable type, .boxed stored value =>
    if same : stored = type then .ok (some (same ▸ value)) else .error .invalidCast

theorem castTo_toObject {type : TypeArgument types} (value : ValueOf type) :
    castTo type (toObject value) = .ok value := by
  cases type with
  | reference type =>
      obtain ⟨object, fits⟩ := value
      simp [castTo, toObject, fits]
  | struct type =>
      have read := types.reinterpret_self type value
      simp only [castTo, toObject]
      rw [read]
  | nullable type =>
      cases value with
      | none => rfl
      | some value => simp [castTo, toObject]

theorem castTo_null (type : TypeArgument types) :
    castTo type .null =
      if type.admitsNull = true then .ok (defaultOf type) else .error .nullReference := by
  cases type with
  | reference type => rfl
  | struct type => rfl
  | nullable type => rfl

namespace StadCache

abbrev Dictionary (types : TypeSystem) := AList fun _ : TypeArgument types => Object types

/-- `Dictionary.Add`, which refuses a key that is there. -/
def set (type : TypeArgument types) (dataSet : ValueOf type) (dictionary : Dictionary types) :
    Except Thrown (Dictionary types) :=
  if type ∈ dictionary then .error .argument else .ok (dictionary.insert type (toObject dataSet))

/-- `TryGetValue` puts null into `dataSetRaw` when there is no entry. -/
def get (type : TypeArgument types) (dictionary : Dictionary types) :
    Except Thrown (ValueOf type) :=
  let dataSetRaw := (dictionary.lookup type).getD .null
  castTo type dataSetRaw

def clear (_ : Dictionary types) : Dictionary types := ∅

inductive Call (types : TypeSystem) where
  | set (type : TypeArgument types) (dataSet : ValueOf type)
  | get (type : TypeArgument types)
  | clear

def Answer : Call types → Type
  | .set _ _ => Unit
  | .get type => ValueOf type
  | .clear => Unit

def invoke (dictionary : Dictionary types) :
    (call : Call types) → Except Thrown (Answer call) × Dictionary types
  | .set type dataSet =>
    match set type dataSet dictionary with
    | .ok added => (.ok (), added)
    | .error thrown => (.error thrown, dictionary)
  | .get type => (get type dictionary, dictionary)
  | .clear => (.ok (), clear dictionary)

def dictionaryAfter (calls : List (Call types)) : Dictionary types :=
  calls.foldl (fun dictionary call => (invoke dictionary call).2) ∅

/-! What the cache is for. -/

abbrev TypeMap (types : TypeSystem) := ∀ type : TypeArgument types, Option (ValueOf type)

def Call.change : Call types → Change fun type : TypeArgument types => ValueOf type
  | .set type dataSet => .write type dataSet
  | .get _ => .keep
  | .clear => .reset

def Call.expected (store : TypeMap types) : (call : Call types) → Answer call
  | .set _ _ => ()
  | .get type => (store type).getD (defaultOf type)
  | .clear => ()

/-- The call succeeds, and reads what was last set for its type since the last `Clear`. -/
def Served (before : List (Call types)) (call : Call types) : Prop :=
  (invoke (dictionaryAfter before) call).1 = .ok (call.expected (latest Call.change before))

def MapByType (calls : List (Call types)) : Prop := Along Served calls

/-- `Set` finds no data set of its type, and `Get` finds one unless null is a value of the type. -/
def Call.Fits (store : TypeMap types) : Call types → Prop
  | .set type _ => store type = none
  | .get type => type.admitsNull = true ∨ store type ≠ none
  | .clear => True

instance (store : TypeMap types) : (call : Call types) → Decidable (call.Fits store)
  | .set type _ => decidable_of_iff ((store type).isNone = true) Option.isNone_iff_eq_none
  | .get type => decidable_of_iff (type.admitsNull = true ∨ (store type).isSome = true)
      (or_congr_right Option.isSome_iff_ne_none)
  | .clear => isTrue trivial

def Call.effect (store : TypeMap types) (call : Call types) : TypeMap types :=
  if call.Fits store then call.change.apply store else store

def contents (calls : List (Call types)) : TypeMap types :=
  calls.foldl Call.effect fun _ => none

def Admissible (before : List (Call types)) (call : Call types) : Prop :=
  call.Fits (latest Call.change before)

def Holds (dictionary : Dictionary types) (store : TypeMap types) : Prop :=
  ∀ type, dictionary.lookup type = (store type).map toObject

section
variable {dictionary : Dictionary types} {store : TypeMap types}

theorem holds_empty : Holds (∅ : Dictionary types) fun _ => none := fun _ => rfl

theorem Holds.mem_iff (holds : Holds dictionary store) (type : TypeArgument types) :
    type ∈ dictionary ↔ store type ≠ none := by
  rw [← AList.lookup_isSome, holds type]
  cases store type <;> simp

theorem Holds.insert (holds : Holds dictionary store) (type : TypeArgument types)
    (dataSet : ValueOf type) :
    Holds (dictionary.insert type (toObject dataSet)) (Function.update store type (some dataSet)) := by
  intro other
  by_cases same : other = type
  · subst same
    rw [AList.lookup_insert, Function.update_self]
    rfl
  · rw [AList.lookup_insert_ne same, Function.update_of_ne same]
    exact holds other

theorem Holds.set_eq (holds : Holds dictionary store) (type : TypeArgument types)
    (dataSet : ValueOf type) : set type dataSet dictionary =
      if store type = none then .ok (dictionary.insert type (toObject dataSet))
      else .error .argument := by
  rw [set]
  by_cases absent : store type = none
  · rw [if_pos absent, if_neg]
    rw [holds.mem_iff]
    exact not_not.mpr absent
  · rw [if_neg absent, if_pos ((holds.mem_iff type).mpr absent)]

theorem Holds.get_eq (holds : Holds dictionary store) (type : TypeArgument types) :
    get type dictionary =
      if type.admitsNull = true ∨ store type ≠ none then .ok ((store type).getD (defaultOf type))
      else .error .nullReference := by
  rw [get, holds type]
  cases store type with
  | none => simpa using castTo_null type
  | some dataSet => simpa using castTo_toObject dataSet

theorem Holds.answer_eq (holds : Holds dictionary store) {call : Call types}
    (fits : call.Fits store) : (invoke dictionary call).1 = .ok (call.expected store) := by
  cases call with
  | set type dataSet =>
      have absent : store type = none := fits
      rw [invoke, holds.set_eq, if_pos absent]
      rfl
  | get type =>
      have found : type.admitsNull = true ∨ store type ≠ none := fits
      rw [invoke, holds.get_eq, if_pos found]
      rfl
  | clear => rfl

theorem Holds.refused (holds : Holds dictionary store) {call : Call types}
    (unfit : ¬call.Fits store) : ∃ thrown, (invoke dictionary call).1 = .error thrown := by
  cases call with
  | set type dataSet =>
      have present : store type ≠ none := unfit
      rw [invoke, holds.set_eq, if_neg present]
      exact ⟨.argument, rfl⟩
  | get type =>
      have missing : ¬(type.admitsNull = true ∨ store type ≠ none) := unfit
      rw [invoke, holds.get_eq, if_neg missing]
      exact ⟨.nullReference, rfl⟩
  | clear => exact absurd trivial unfit

theorem Holds.answer_iff (holds : Holds dictionary store) (call : Call types) :
    (invoke dictionary call).1 = .ok (call.expected store) ↔ call.Fits store := by
  by_cases fits : call.Fits store
  · exact iff_of_true (holds.answer_eq fits) fits
  · obtain ⟨thrown, failed⟩ := holds.refused fits
    rw [failed]
    exact iff_of_false nofun fits

theorem Holds.change (holds : Holds dictionary store) {call : Call types}
    (fits : call.Fits store) : Holds (invoke dictionary call).2 (call.change.apply store) := by
  cases call with
  | set type dataSet =>
      have absent : store type = none := fits
      rw [invoke, holds.set_eq, if_pos absent]
      exact holds.insert type dataSet
  | get type => exact holds
  | clear => exact holds_empty

theorem invoke_failed {call : Call types} {thrown : Thrown}
    (failed : (invoke dictionary call).1 = .error thrown) :
    (invoke dictionary call).2 = dictionary := by
  cases call with
  | set type dataSet =>
      rw [invoke] at failed ⊢
      cases added : set type dataSet dictionary with
      | ok next => simp [added] at failed
      | error thrown => rfl
  | get type => rfl
  | clear => simp [invoke] at failed

theorem Holds.effect (holds : Holds dictionary store) (call : Call types) :
    Holds (invoke dictionary call).2 (call.effect store) := by
  rw [Call.effect]
  by_cases fits : call.Fits store
  · rw [if_pos fits]
    exact holds.change fits
  · obtain ⟨thrown, failed⟩ := holds.refused fits
    rw [if_neg fits, invoke_failed failed]
    exact holds

end

theorem dictionaryAfter_append_singleton (calls : List (Call types)) (last : Call types) :
    dictionaryAfter (calls ++ [last]) = (invoke (dictionaryAfter calls) last).2 := by
  rw [dictionaryAfter, List.foldl_append]
  rfl

/-- After any history, refused calls included, the dictionary holds the contents. -/
theorem holds_contents (calls : List (Call types)) :
    Holds (dictionaryAfter calls) (contents calls) := by
  induction calls using List.reverseRecOn with
  | nil => exact holds_empty
  | append_singleton before call ih =>
      rw [dictionaryAfter_append_singleton, contents, List.foldl_append]
      exact ih.effect call

theorem holds_step (before : List (Call types)) (call : Call types)
    (holds : Holds (dictionaryAfter before) (latest Call.change before))
    (admissible : Admissible before call) :
    Holds (dictionaryAfter (before ++ [call])) (latest Call.change (before ++ [call])) := by
  rw [dictionaryAfter_append_singleton, latest_append_singleton]
  exact holds.change admissible

/-- The cache is a map by type exactly along the histories of admissible calls. -/
theorem mapByType_iff (calls : List (Call types)) :
    MapByType calls ↔ Along Admissible calls :=
  along_congr holds_empty holds_step (fun _ call holds => holds.answer_iff call) calls

theorem get_mostRecent {earlier later : List (Call types)} {type : TypeArgument types}
    {dataSet : ValueOf type}
    (admissible : Along Admissible (earlier ++ .set type dataSet :: later))
    (spared : ∀ call ∈ later, call.change.Spares type) :
    (invoke (dictionaryAfter (earlier ++ .set type dataSet :: later)) (.get type)).1 =
      .ok dataSet := by
  have holds := admissible.invariant holds_empty holds_step
  have found : latest Call.change (earlier ++ .set type dataSet :: later) type = some dataSet :=
    latest_eq_some_iff.mpr ⟨earlier, .set type dataSet, later, rfl, rfl, spared⟩
  rw [invoke, holds.get_eq, found, if_pos (Or.inr (by simp))]
  rfl

/-! `class Table { }` and `struct Limits { public int Count; }`. -/

def tableAndLimits : TypeSystem where
  Class := Unit
  Struct := Unit
  Fields _ := Int32
  zero _ := 0
  derives _ _ := true
  implements _ _ := false
  reinterpret _ _ value := some value
  reinterpret_self _ _ := rfl
  decidableClass := inferInstance
  decidableStruct := inferInstance

def limits : TypeArgument tableAndLimits := .struct ()

def setLimits (count : Int32) : Call tableAndLimits := .set limits count

example : (invoke (dictionaryAfter [setLimits 3]) (.get limits)).1 = .ok (3 : Int32) := by rfl

theorem limits_not_mapByType :
    ¬MapByType [setLimits 3, setLimits 4] ∧ ¬MapByType [.get limits] := by
  constructor
  · intro served
    have again := served [setLimits 3] (setLimits 4) [] rfl
    have refused : (invoke (dictionaryAfter [setLimits 3]) (setLimits 4)).1 = .error .argument := by
      rfl
    rw [Served, refused] at again
    cases again
  · intro served
    have first := served [] (.get limits) [] rfl
    have failed : (invoke (dictionaryAfter []) (.get limits)).1 = .error .nullReference := by rfl
    rw [Served, failed] at first
    cases first

end StadCache

end Stad
