import Mathlib.Logic.Relation
import Stad.Incremental

/-!
`StadJsonFormatter.Deserialize` copies the input into an array of the shared
pool and hands the whole array to the JSON library. How the library finds the
end of a value is a parameter, and a target type is what it makes of the text of
a value; `none` stands for an exception.
-/

namespace Stad.StadJsonFormatter

open Incremental

abbrev Bytes := List UInt8

variable {σ : Type}

def jsonDeserialize {α : Type} (reader : Reader σ UInt8) (convert : Bytes → Option α)
    (array : Bytes) : Option α :=
  (reader.textOf array).bind convert

/-- `ArrayPool.Rent`: an array that was returned and is long enough, or a new one. -/
inductive Rents : List Bytes → Nat → Bytes → List Bytes → Prop
  | returned {pool : List Bytes} {count : Nat} {array : Bytes} (present : array ∈ pool)
      (enough : count ≤ array.length) : Rents pool count array (pool.erase array)
  | new {pool : List Bytes} {count length : Nat} (enough : count ≤ length) :
      Rents pool count (List.replicate length 0) pool

def copyTo (input array : Bytes) : Bytes := input ++ array.drop input.length

/-- One call of `Deserialize`. The array goes back to the pool, also after an exception. -/
inductive Deserializes {α : Type} (reader : Reader σ UInt8) (convert : Bytes → Option α)
    (pool : List Bytes) (input : Bytes) : Option α → List Bytes → Prop
  | call {rent : Bytes} {rest : List Bytes} (rented : Rents pool input.length rent rest) :
      Deserializes reader convert pool input
        (jsonDeserialize reader convert (copyTo input rent)) (copyTo input rent :: rest)

inductive Reachable (reader : Reader σ UInt8) : List Bytes → Prop
  | unused : Reachable reader []
  | call {α : Type} {convert : Bytes → Option α} {pool pool' : List Bytes} {input : Bytes}
      {outcome : Option α} (earlier : Reachable reader pool)
      (deserialized : Deserializes reader convert pool input outcome pool') :
      Reachable reader pool'

def DecodesInputOnly (reader : Reader σ UInt8) (input : Bytes) : Prop :=
  ∀ (α : Type) (convert : Bytes → Option α) (pool : List Bytes), Reachable reader pool →
    ∀ outcome pool', Deserializes reader convert pool input outcome pool' →
      outcome = jsonDeserialize reader convert input

theorem deserializes_after {α : Type} (reader : Reader σ UInt8) (convert : Bytes → Option α)
    (input more : Bytes) :
    ∃ pool, Reachable reader pool ∧ ∃ pool',
      Deserializes reader convert pool input (jsonDeserialize reader convert (input ++ more)) pool' := by
  have filled : copyTo (input ++ more) (List.replicate (input ++ more).length 0) = input ++ more := by
    simp [copyTo]
  have first : Deserializes reader convert [] (input ++ more) _ _ :=
    .call (.new (Nat.le_refl (input ++ more).length))
  rw [filled] at first
  refine ⟨[input ++ more], .call .unused first, (input ++ more) :: [], ?_⟩
  have reused : copyTo input (input ++ more) = input ++ more := by
    simp [copyTo]
  have second : Deserializes reader convert [input ++ more] input _ _ :=
    .call (.returned (List.mem_singleton_self (input ++ more)) (by simp))
  rw [reused] at second
  simpa using second

/-- The input decides alone exactly when a value ends in it, or it cannot begin one. -/
theorem decodesInputOnly_iff {reader : Reader σ UInt8} (continuable : reader.Continuable)
    (input : Bytes) :
    DecodesInputOnly reader input ↔ ∀ state, reader.read input ≠ .unfinished state := by
  constructor
  · intro alone state unfinished
    obtain ⟨more, text, read, longer⟩ := continuable input state unfinished
    obtain ⟨pool, reachable, pool', deserialized⟩ := deserializes_after reader some input more
    have same := alone Bytes some pool reachable _ _ deserialized
    rw [jsonDeserialize, read] at same
    have exactly : reader.textOf input = some text := by
      simpa [jsonDeserialize] using same.symm
    have whole := Reader.textOf_unfinished unfinished exactly
    rw [whole] at longer
    omega
  · intro decided α convert pool _ outcome pool' deserialized
    cases deserialized with
    | call rented =>
        rw [jsonDeserialize, copyTo, Reader.textOf_append decided]
        rfl

/-- Numbers without a sign; the state tells whether there was a digit. -/
def numberReader : Reader Bool UInt8 where
  start := false
  step digits byte :=
    if 48 ≤ byte ∧ byte ≤ 57 then .more true else if digits then .endedBefore else .broken
  mayEnd := id

theorem numberReader_continuable : numberReader.Continuable := by
  intro input state unfinished
  have read : numberReader.read (input ++ [48]) = .unfinished true :=
    Reader.run_append_unfinished unfinished [48]
  refine ⟨[48], input ++ [48], ?_, by simp⟩
  rw [Reader.textOf, read]
  rfl

theorem delimited_decodesInputOnly : DecodesInputOnly numberReader [49, 50, 32] :=
  (decodesInputOnly_iff numberReader_continuable [49, 50, 32]).mpr (by decide)

def decimal (text : Bytes) : Option Nat :=
  some (text.foldl (fun number digit => 10 * number + (digit.toNat - 48)) 0)

/-! After a call with `1234`, the input `12` is read as 1234. -/

theorem bareNumber_absorbs :
    jsonDeserialize numberReader decimal [49, 50] = some 12 ∧
      (∃ pool, Reachable numberReader pool ∧ ∃ pool',
        Deserializes numberReader decimal pool [49, 50] (some 1234) pool') ∧
      ¬ DecodesInputOnly numberReader [49, 50] := by
  have absorbed : ∃ pool, Reachable numberReader pool ∧ ∃ pool',
      Deserializes numberReader decimal pool [49, 50] (some 1234) pool' :=
    deserializes_after numberReader decimal [49, 50] [51, 52]
  refine ⟨by decide, absorbed, ?_⟩
  intro alone
  obtain ⟨pool, reachable, pool', deserialized⟩ := absorbed
  have same := alone Nat decimal pool reachable _ _ deserialized
  exact absurd same (by decide)

end Stad.StadJsonFormatter
