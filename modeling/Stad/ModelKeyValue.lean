import Stad.ModelKeyRoundTrip

/-!
A key as a value. It is written as a plain number or string, and read as a property
name with a value behind it, so nothing that is written can be read.
-/

namespace Stad

open Bounded JsonText

structure StadReference where
  key : ModelKey
  deriving DecidableEq

def readNullableString (codec : StringCodec) (text : Text) :
    Except JsonFailure (Option Text × Text) := do
  match ← readIsNull text with
  | some rest => return (none, rest)
  | none =>
    let string ← readString codec text
    return (some string.1, string.2)

def readPropertyName (codec : StringCodec) (text : Text) :
    Except JsonFailure (Option Text × Text) := do
  let name ← readNullableString codec text
  let rest ← expect ':' name.2
  return (name.1, rest)

namespace ModelKeyJsonFormatter

def serialize (codec : StringCodec) (key : ModelKey) : Text :=
  if key.isIntKey then writeInt32 key.intValue else writeString codec key.stringValue

def deserialize (codec : StringCodec) (text : Text) : Except JsonFailure (ModelKey × Text) := do
  match ← readIsNull text with
  | some rest => return (.ofInt 0, rest)
  | none =>
    let name ← readPropertyName codec text
    if name.1 = some "IntKey".toList then
      let number ← readInt32 name.2
      return (.ofInt number.1, number.2)
    else if name.1 = some "StrKey".toList then
      let string ← readNullableString codec name.2
      return (.ofString string.1, string.2)
    else throw (.exception "Not model key! Utf8Json.JsonReader")

/-- The key is read back from what is written for it, up to the text behind it. -/
def ReadsBack (codec : StringCodec) (key : ModelKey) (behind : Text) : Prop :=
  deserialize codec (serialize codec key ++ behind) = .ok (key, behind)

variable {codec : StringCodec}

theorem readIsNull_other {letter : Char} (solid : kind letter ≠ .blank) (notNull : letter ≠ 'n')
    (rest : Text) : readIsNull (letter :: rest) = .ok none := by
  rw [readIsNull, skipWhiteSpace_cons solid]
  split
  · rename_i same
    exact absurd (List.cons.inj same).1 notNull
  · rename_i same
    exact absurd (List.cons.inj same).1 notNull
  · rfl

theorem deserialize_nameless {letter : Char} (solid : kind letter ≠ .blank) (notNull : letter ≠ 'n')
    {rest : Text} (nameless : readPropertyName codec (letter :: rest) = .error .parsing) :
    deserialize codec (letter :: rest) = .error .parsing := by
  simp only [deserialize, readIsNull_other solid notNull, nameless, bind, Except.bind]

theorem readPropertyName_number {letter : Char} (numeric : isDigit letter = true ∨ letter = '-')
    (rest : Text) : readPropertyName codec (letter :: rest) = .error .parsing := by
  have plain := kind_numeric numeric
  have solid : kind letter ≠ .blank := by simp [plain]
  have notNull : letter ≠ 'n' := by
    rintro rfl
    revert numeric
    decide
  have notQuote : letter ≠ '"' := by
    rintro rfl
    simp [kind] at plain
  simp only [readPropertyName, readNullableString, readIsNull_other solid notNull, readString,
    expect_other solid notQuote, bind, Except.bind]

theorem expect_missing {letter : Char} {text : Text}
    (missing : ∀ rest, skipWhiteSpace text ≠ letter :: rest) :
    expect letter text = .error .parsing := by
  unfold expect
  split
  · rfl
  · rename_i head rest skipped
    split
    · rename_i same
      rw [same] at skipped
      exact absurd skipped (missing rest)
    · rfl

theorem readPropertyName_unnamed (lawful : codec.Lawful) (value : Text) {behind : Text}
    (unnamed : ∀ rest, skipWhiteSpace behind ≠ ':' :: rest) :
    readPropertyName codec ('"' :: (codec.escape value ++ '"' :: behind)) = .error .parsing := by
  have solid : kind '"' ≠ .blank := by decide
  simp only [readPropertyName, readNullableString, readIsNull_other solid (by decide), readString,
    expect_here solid, lawful.closed value behind, lawful.unescape_escape value,
    expect_missing unnamed, bind, Except.bind, pure, Except.pure]

/-- A written key is no property name, whatever stands behind it except a colon. -/
theorem deserialize_written (lawful : codec.Lawful) (key : ModelKey) {behind : Text}
    (unnamed : ∀ rest, skipWhiteSpace behind ≠ ':' :: rest) :
    deserialize codec (serialize codec key ++ behind) = .error .parsing := by
  cases held : key.stringValue with
  | none =>
      have numeric := numeric_writeInt32 key.intValue
      have written : serialize codec key = writeInt32 key.intValue := by
        simp [serialize, ModelKey.isIntKey, held]
      rw [written]
      cases digits : writeInt32 key.intValue with
      | nil => simp [writeInt32, Nat.toDigits_ne_nil] at digits
      | cons letter rest =>
          rw [digits] at numeric
          have first := numeric letter List.mem_cons_self
          have solid : kind letter ≠ .blank := by simp [kind_numeric first]
          have notNull : letter ≠ 'n' := by
            rintro rfl
            revert first
            decide
          exact deserialize_nameless solid notNull (readPropertyName_number first _)
  | some value =>
      have written : serialize codec key ++ behind =
          '"' :: (codec.escape value ++ '"' :: behind) := by
        simp [serialize, ModelKey.isIntKey, held, writeString]
      rw [written]
      exact deserialize_nameless (by decide) (by decide)
        (readPropertyName_unnamed lawful value unnamed)

/-- No key survives as a value, neither alone nor as the key of a reference, which the
bracket of the object follows. -/
theorem never_readsBack (lawful : codec.Lawful) :
    (∀ key, ¬ReadsBack codec key []) ∧
      ∀ (reference : StadReference) (rest : Text), ¬ReadsBack codec reference.key ('}' :: rest) := by
  constructor
  · intro key readsBack
    rw [ReadsBack, deserialize_written lawful key (by simp [skipWhiteSpace])] at readsBack
    cases readsBack
  · intro reference rest readsBack
    have solid : kind '}' ≠ .blank := by decide
    have unnamed : ∀ tail, skipWhiteSpace ('}' :: rest) ≠ ':' :: tail := by
      intro tail same
      rw [skipWhiteSpace_cons solid] at same
      exact absurd (List.cons.inj same).1 (by decide)
    rw [ReadsBack, deserialize_written lawful reference.key unnamed] at readsBack
    cases readsBack

theorem one_never_readsBack :
    ¬ReadsBack backslashCodec (.ofInt 1) [] ∧
      ¬ReadsBack backslashCodec (StadReference.mk (.ofInt 1)).key ['}'] := by
  obtain ⟨alone, inReference⟩ := never_readsBack backslashCodec_lawful
  exact ⟨alone (.ofInt 1), inReference ⟨.ofInt 1⟩ []⟩

theorem one_unreadable :
    serialize backslashCodec (.ofInt 1) = "1".toList ∧
    deserialize backslashCodec "1".toList = .error .parsing ∧
    ¬ReadsBack backslashCodec (.ofInt 1) [] := by
  refine ⟨by rfl, by rfl, ?_⟩
  intro readsBack
  cases readsBack

end ModelKeyJsonFormatter

end Stad
