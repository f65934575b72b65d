import Mathlib.Data.List.Nodup
import Stad.Bounded
import Stad.JsonText

/-!
Executable model of `ModelKey`, of `StadKeyValueCollection` and of the formatters
that write them as JSON. How the JSON library escapes strings and how the values
are formatted are parameters. A string is the list of its characters, and the
depth bounds how many properties are read.
-/

namespace Stad

open Bounded JsonText

inductive JsonFailure where
  | parsing
  | overflow
  | duplicateKey
  | exception (message : String)
  deriving DecidableEq, Repr

/-- A key made by either constructor: a string key has the integer 0. -/
structure ModelKey where
  intValue : Int32
  stringValue : Option Text
  constructed : stringValue = none ∨ intValue = 0
  deriving DecidableEq

def ModelKey.ofInt (intValue : Int32) : ModelKey := ⟨intValue, none, Or.inl rfl⟩

def ModelKey.ofString (stringValue : Option Text) : ModelKey := ⟨0, stringValue, Or.inr rfl⟩

def ModelKey.isIntKey (key : ModelKey) : Bool := key.stringValue.isNone

structure StadKeyValueCollection (τ : Type) where
  entries : List (ModelKey × τ)
  nodup : (entries.map Prod.fst).Nodup

namespace StadKeyValueCollection

variable {τ : Type}

def empty : StadKeyValueCollection τ := ⟨[], List.nodup_nil⟩

/-- `Dictionary.Add`, which refuses a key that is there. -/
def add (collection : StadKeyValueCollection τ) (key : ModelKey) (value : τ) :
    Except JsonFailure (StadKeyValueCollection τ) :=
  if present : key ∈ collection.entries.map Prod.fst then .error .duplicateKey
  else .ok ⟨collection.entries ++ [(key, value)], by
    rw [List.map_append, List.map_singleton]
    exact List.Nodup.append collection.nodup (List.nodup_singleton key)
      (List.disjoint_singleton.mpr present)⟩

end StadKeyValueCollection

/-! The JSON library. -/

/-- What `WriteString` puts between the quotes, and what `ReadString` makes of it. -/
structure StringCodec where
  escape : Text → Text
  unescape : Text → Option Text

structure ValueFormatter (τ : Type) where
  serialize : τ → Text
  deserialize : Text → Except JsonFailure (τ × Text)

inductive JsonToken where
  | number
  | string
  | other
  deriving DecidableEq, Repr

def isDigit (letter : Char) : Bool := letter.isDigit

def skipWhiteSpace (text : Text) : Text := text.dropWhile fun letter => kind letter = .blank

def getCurrentJsonToken (text : Text) : JsonToken :=
  match skipWhiteSpace text with
  | [] => .other
  | letter :: _ =>
    if isDigit letter ∨ letter = '-' then .number
    else if letter = '"' then .string
    else .other

def expect (letter : Char) (text : Text) : Except JsonFailure Text :=
  match skipWhiteSpace text with
  | [] => .error .parsing
  | head :: rest => if head = letter then .ok rest else .error .parsing

def readIsNull (text : Text) : Except JsonFailure (Option Text) :=
  match skipWhiteSpace text with
  | 'n' :: 'u' :: 'l' :: 'l' :: rest => .ok (some rest)
  | 'n' :: _ => .error .parsing
  | _ => .ok none

def writeInt32 (value : Int32) : Text :=
  (if value.toInt < 0 then ['-'] else []) ++ Nat.toDigits 10 value.toInt.natAbs

def digitsValue (digits : Text) : Nat :=
  digits.foldl (fun number digit => 10 * number + (digit.toNat - '0'.toNat)) 0

def readSign : Text → Bool × Text
  | '-' :: rest => (true, rest)
  | text => (false, text)

def checkedInt32 (value : Int) : Except JsonFailure Int32 :=
  if Int32.minValue.toInt ≤ value ∧ value ≤ Int32.maxValue.toInt then .ok (Int32.ofInt value)
  else .error .overflow

def readInt32 (text : Text) : Except JsonFailure (Int32 × Text) :=
  let signed := readSign (skipWhiteSpace text)
  let digits := signed.2.takeWhile isDigit
  if digits = [] then .error .parsing
  else do
    let value ← checkedInt32 (if signed.1 then -digitsValue digits else digitsValue digits)
    return (value, signed.2.dropWhile isDigit)

def writeString (codec : StringCodec) : Option Text → Text
  | none => "null".toList
  | some value => '"' :: codec.escape value ++ ['"']

def readString (codec : StringCodec) (text : Text) : Except JsonFailure (Text × Text) := do
  let text ← expect '"' text
  match closeString false text with
  | none => .error .parsing
  | some (raw, rest) =>
    match codec.unescape raw with
    | none => .error .parsing
    | some value => return (value, rest)

namespace ModelKeyJsonFormatter

def serializeToPropertyName (codec : StringCodec) (key : ModelKey) : Text :=
  '"' :: (if key.isIntKey then writeInt32 key.intValue else writeString codec key.stringValue) ++ ['"']

def deserializeFromPropertyName (codec : StringCodec) (text : Text) :
    Except JsonFailure (ModelKey × Text) :=
  if getCurrentJsonToken text = .number then do
    let number ← readInt32 text
    return (.ofInt number.1, number.2)
  else if getCurrentJsonToken text = .string then do
    let string ← readString codec text
    return (.ofString (some string.1), string.2)
  else .error (.exception "Not model key! Utf8Json.JsonReader")

end ModelKeyJsonFormatter

/-! The dictionary formatter of the library. -/

section Dictionary

variable {τ : Type} (codec : StringCodec) (formatter : ValueFormatter τ)

def writeEntry (entry : ModelKey × τ) : Text :=
  ModelKeyJsonFormatter.serializeToPropertyName codec entry.1 ++ ':' :: formatter.serialize entry.2

def writeEntries (count : Nat) : List (ModelKey × τ) → Text
  | [] => ['}']
  | entry :: rest =>
    (if count = 0 then [] else [',']) ++ writeEntry codec formatter entry ++
      writeEntries (count + 1) rest

structure Reading (τ : Type) where
  count : Nat
  dictionary : StadKeyValueCollection τ
  text : Text

def skipValueSeparator (count : Nat) (text : Text) : Except JsonFailure Text :=
  if count = 0 then .ok text else expect ',' text

def readEntry (reading : Reading τ) : Except JsonFailure (Reading τ) := do
  let text ← skipValueSeparator reading.count reading.text
  let key ← ModelKeyJsonFormatter.deserializeFromPropertyName codec text
  let text ← expect ':' key.2
  let value ← formatter.deserialize text
  let dictionary ← reading.dictionary.add key.1 value.1
  return ⟨reading.count + 1, dictionary, value.2⟩

def readEntriesBody (call : Reading τ → Outcome JsonFailure (StadKeyValueCollection τ × Text)) :
    Reading τ → Outcome JsonFailure (StadKeyValueCollection τ × Text) :=
  fun reading =>
    match skipWhiteSpace reading.text with
    | '}' :: rest => return (reading.dictionary, rest)
    | _ => do
      let next ← .ofExcept (readEntry codec formatter reading)
      call next

end Dictionary

namespace StadKeyValueCollectionJsonFormatter

variable {τ : Type} (codec : StringCodec) (formatter : ValueFormatter τ)

def serialize (value : Option (StadKeyValueCollection τ)) : Text :=
  match value with
  | none => "null".toList
  | some collection => '{' :: writeEntries codec formatter 0 collection.entries

def deserialize (depth : Nat) (text : Text) :
    Outcome JsonFailure (Option (StadKeyValueCollection τ) × Text) := do
  let null ← .ofExcept (readIsNull text)
  match null with
  | some rest => return (none, rest)
  | none =>
    let begun ← .ofExcept (expect '{' text)
    let dictionary ← unroll (readEntriesBody codec formatter) depth ⟨0, .empty, begun⟩
    return (some dictionary.1, dictionary.2)

end StadKeyValueCollectionJsonFormatter

end Stad
