import Stad.ModelKeyCore

/-!
Which collections survive JSON. A property name is quoted once by
`SerializeToPropertyName` and a string key once more by `WriteString`, so every
string that can be read where a property name stands holds digits only: it is
the empty one between two quotes or the numeral of an integer key.
-/

namespace Stad

open Bounded Bounded.Outcome JsonText

structure StringCodec.Lawful (codec : StringCodec) : Prop where
  closed : ∀ value rest,
    closeString false (codec.escape value ++ '"' :: rest) = some (codec.escape value, rest)
  unescape_escape : ∀ value, codec.unescape (codec.escape value) = some value
  plain : ∀ value, (∀ letter ∈ value, isDigit letter = true ∨ letter = '-') →
    codec.escape value = value

/-- The formatter round-trips in front of a separator and reads one value of JSON. -/
structure ValueFormatter.Lawful {τ : Type} (formatter : ValueFormatter τ) : Prop where
  roundTrip : ∀ value rest letter, letter = ',' ∨ letter = '}' →
    formatter.deserialize (formatter.serialize value ++ letter :: rest) = .ok (value, letter :: rest)
  oneValue : ∀ text value rest, formatter.deserialize text = .ok (value, rest) →
    ∃ used, text = used ++ rest ∧ Bracketed used

def Numeric (text : Text) : Prop := ∀ letter ∈ text, isDigit letter = true ∨ letter = '-'

def NumericKey (key : ModelKey) : Prop := ∀ text ∈ key.stringValue, Numeric text

theorem kind_numeric {letter : Char} (numeric : isDigit letter = true ∨ letter = '-') :
    kind letter = .plain := by
  have apart : ∀ other, isDigit other = false → other ≠ '-' → letter ≠ other := by
    rintro other notDigit notSign rfl
    rcases numeric with digit | sign
    · rw [digit] at notDigit
      exact absurd notDigit (by decide)
    · exact notSign sign
  unfold kind
  simp [apart ' ' rfl (by decide), apart '\t' rfl (by decide), apart '\n' rfl (by decide),
    apart '\r' rfl (by decide), apart '"' rfl (by decide), apart '\\' rfl (by decide),
    apart '{' rfl (by decide), apart '[' rfl (by decide), apart '}' rfl (by decide),
    apart ']' rfl (by decide), apart ',' rfl (by decide), apart ':' rfl (by decide)]

theorem Numeric.plain {text : Text} (numeric : Numeric text) :
    ∀ letter ∈ text, kind letter = .plain :=
  fun letter listed => kind_numeric (numeric letter listed)

theorem numeric_writeInt32 (value : Int32) : Numeric (writeInt32 value) := by
  intro letter listed
  rcases List.mem_append.mp listed with sign | digit
  · split at sign
    · exact Or.inr (List.mem_singleton.mp sign)
    · simp at sign
  · exact Or.inl (Nat.isDigit_of_mem_toDigits (by omega) (by omega) digit)

/-! Reading a token off a text. -/

theorem skipWhiteSpace_split (text : Text) :
    ∃ blanks, text = blanks ++ skipWhiteSpace text ∧
      ∀ depth fresh, scan (atDepth depth fresh) blanks = some (atDepth depth fresh) := by
  induction text with
  | nil => exact ⟨[], rfl, fun _ _ => rfl⟩
  | cons letter rest ih =>
      by_cases blank : kind letter = .blank
      · obtain ⟨blanks, split, scanned⟩ := ih
        have skipped : skipWhiteSpace (letter :: rest) = skipWhiteSpace rest := by
          simp [skipWhiteSpace, blank]
        refine ⟨letter :: blanks, by rw [skipped, List.cons_append, ← split], ?_⟩
        intro depth fresh
        rw [scan_cons]
        simp [step, atDepth, blank]
        exact scanned depth fresh
      · exact ⟨[], by simp [skipWhiteSpace, blank], fun _ _ => rfl⟩

theorem skipWhiteSpace_cons {letter : Char} (solid : kind letter ≠ .blank) (rest : Text) :
    skipWhiteSpace (letter :: rest) = letter :: rest := by
  simp [skipWhiteSpace, solid]

theorem expect_split {letter : Char} {text rest : Text} (expected : expect letter text = .ok rest) :
    ∃ blanks, text = blanks ++ letter :: rest ∧
      ∀ depth fresh, scan (atDepth depth fresh) blanks = some (atDepth depth fresh) := by
  obtain ⟨blanks, split, scanned⟩ := skipWhiteSpace_split text
  refine ⟨blanks, ?_, scanned⟩
  unfold expect at expected
  cases skipped : skipWhiteSpace text with
  | nil => simp [skipped] at expected
  | cons head tail =>
      simp only [skipped] at expected
      split at expected
      · rename_i same
        rw [split, skipped, same, Except.ok.inj expected]
      · simp at expected

theorem expect_here {letter : Char} (solid : kind letter ≠ .blank) (rest : Text) :
    expect letter (letter :: rest) = .ok rest := by
  simp [expect, skipWhiteSpace_cons solid]

theorem expect_other {letter head : Char} (solid : kind head ≠ .blank) (different : head ≠ letter)
    (rest : Text) : expect letter (head :: rest) = .error .parsing := by
  simp [expect, skipWhiteSpace_cons solid, different]

theorem scan_numeric {text : Text} (numeric : Numeric text) (depth : Nat) (fresh : Bool) :
    ∃ fresh', scan (atDepth depth fresh) text = some (atDepth depth fresh') := by
  induction text generalizing fresh with
  | nil => exact ⟨fresh, rfl⟩
  | cons letter rest ih =>
      have plain := kind_numeric (numeric letter List.mem_cons_self)
      obtain ⟨fresh', scanned⟩ := ih (fun other listed => numeric other (List.mem_cons_of_mem _ listed))
        false
      refine ⟨fresh', ?_⟩
      rw [scan_cons]
      simpa [step, atDepth, plain] using scanned

theorem readInt32_split {text rest : Text} {value : Int32}
    (read : readInt32 text = .ok (value, rest)) :
    ∃ used, text = used ++ rest ∧ ∀ depth fresh, ∃ fresh',
      scan (atDepth depth fresh) used = some (atDepth depth fresh') := by
  obtain ⟨blanks, split, scanned⟩ := skipWhiteSpace_split text
  have signed : ∃ sign, skipWhiteSpace text = sign ++ (readSign (skipWhiteSpace text)).2 ∧
      Numeric sign := by
    unfold readSign
    split
    · rename_i rest same
      exact ⟨['-'], by simpa using same, by simp [Numeric]⟩
    · exact ⟨[], rfl, by simp [Numeric]⟩
  obtain ⟨sign, afterSign, numeric⟩ := signed
  have digits : Numeric ((readSign (skipWhiteSpace text)).2.takeWhile isDigit) :=
    fun letter listed => Or.inl (List.all_eq_true.mp List.all_takeWhile letter listed)
  have ended : (readSign (skipWhiteSpace text)).2.dropWhile isDigit = rest := by
    simp only [readInt32] at read
    split at read
    · simp at read
    · obtain ⟨number, _, made⟩ := except_bind_eq_ok.mp read
      exact congrArg Prod.snd (Except.ok.inj made)
  have whole := List.takeWhile_append_dropWhile (p := isDigit)
    (l := (readSign (skipWhiteSpace text)).2)
  refine ⟨blanks ++ (sign ++ (readSign (skipWhiteSpace text)).2.takeWhile isDigit), ?_, ?_⟩
  · rw [← ended, List.append_assoc, List.append_assoc, whole, ← afterSign, ← split]
  · intro depth fresh
    have both : Numeric (sign ++ (readSign (skipWhiteSpace text)).2.takeWhile isDigit) := by
      intro letter listed
      rcases List.mem_append.mp listed with early | late
      · exact numeric letter early
      · exact digits letter late
    rw [scan_append_of (scanned depth fresh)]
    exact scan_numeric both depth fresh

/-! Where a property name can stand. -/

def NumericName (text : Text) : Prop := ∃ raw rest, text = raw ++ '"' :: rest ∧ Numeric raw

/-- Wherever a property name can be read in the text, it is a numeric one. -/
def NumericNames (state : Scan) (text : Text) : Prop :=
  ∀ before after, text = before ++ '"' :: after → scan state before = some (atDepth 1 true) →
    NumericName after

theorem NumericNames.suffix {state middle : Scan} {first second : Text}
    (names : NumericNames state (first ++ second)) (scanned : scan state first = some middle) :
    NumericNames middle second := by
  intro before after split reached
  apply names (first ++ before) after
  · rw [split, List.append_assoc]
  · rw [scan_append_of scanned, reached]

theorem numericNames_cons {state : Scan} {letter : Char} {text : Text}
    (here : letter = '"' → state = atDepth 1 true → NumericName text)
    (later : ∀ next, step state letter = some next → NumericNames next text) :
    NumericNames state (letter :: text) := by
  intro before after split reached
  cases before with
  | nil =>
      obtain ⟨same, rest⟩ := List.cons.inj split
      rw [← rest]
      exact here same (Option.some.inj reached)
  | cons head before =>
      obtain ⟨same, rest⟩ := List.cons.inj split
      rw [← same, scan_cons] at reached
      obtain ⟨next, stepped, reached⟩ := Option.bind_eq_some_iff.mp reached
      exact later next stepped before after rest reached

theorem numericNames_append {state : Scan} {first second : Text}
    (here : ∀ before after, first = before ++ '"' :: after →
      scan state before ≠ some (atDepth 1 true))
    (later : ∀ next, scan state first = some next → NumericNames next second) :
    NumericNames state (first ++ second) := by
  intro before after split reached
  rcases List.append_eq_append_iff.mp split with ⟨between, rfl, rest⟩ | ⟨between, rfl, rest⟩
  · rw [scan_append] at reached
    obtain ⟨next, scanned, reached⟩ := Option.bind_eq_some_iff.mp reached
    exact later next scanned between after rest reached
  · cases between with
    | nil =>
        rw [List.append_nil] at later
        exact later _ reached [] after rest.symm rfl
    | cons head between =>
        obtain ⟨same, _⟩ := List.cons.inj rest
        exact absurd reached (here before between (by rw [same]))

theorem numericNames_string {raw rest : Text} (plain : ∀ letter ∈ raw, kind letter = .plain)
    {depth : Nat} (names : NumericNames (atDepth depth false) rest) :
    NumericNames (inString false depth) (raw ++ '"' :: rest) := by
  induction raw with
  | nil =>
      apply numericNames_cons
      · intro _ same
        simp [inString, atDepth] at same
      · intro next stepped
        have same : atDepth depth false = next := Option.some.inj stepped
        rw [← same]
        exact names
  | cons letter raw ih =>
      have ordinary := plain letter List.mem_cons_self
      apply numericNames_cons
      · rintro rfl
        simp [kind] at ordinary
      · intro next stepped
        have same : inString false depth = next := by
          simpa [step, inString, ordinary] using stepped
        rw [← same]
        exact ih fun other listed => plain other (List.mem_cons_of_mem letter listed)

theorem numericNames_quoted {raw rest : Text} (numeric : Numeric raw) {state : Scan}
    (outside : state.mode = .outside)
    (later : ∀ depth, NumericNames (atDepth depth false) rest) :
    NumericNames state ('"' :: (raw ++ '"' :: rest)) := by
  apply numericNames_cons
  · exact fun _ _ => ⟨raw, rest, rfl, numeric⟩
  · intro next stepped
    have quote : kind '"' = .quote := rfl
    have same : inString false state.depth = next := by
      simpa [step, outside, quote, inString] using stepped
    rw [← same]
    exact numericNames_string numeric.plain (later state.depth)

section Written

variable {τ : Type} {codec : StringCodec} {formatter : ValueFormatter τ}

theorem ValueFormatter.Lawful.bracketed (lawful : formatter.Lawful) (value : τ) :
    Bracketed (formatter.serialize value) := by
  have read := lawful.roundTrip value [] '}' (Or.inr rfl)
  obtain ⟨used, split, bracketed⟩ := lawful.oneValue _ _ _ read
  rw [List.append_left_inj] at split
  rw [split]
  exact bracketed

theorem numericNames_value (lawful : formatter.Lawful) (value : τ) {state : Scan}
    (outside : state.mode = .outside) {rest : Text}
    (later : ∀ depth, NumericNames (atDepth depth false) rest) :
    NumericNames state (':' :: (formatter.serialize value ++ rest)) := by
  have bracketed := lawful.bracketed value
  apply numericNames_cons
  · intro same
    simp at same
  · intro next stepped
    have below : 0 < state.depth ∧ atDepth state.depth false = next := by
      have colon : kind ':' = .colon := rfl
      simp only [step, outside, colon] at stepped
      split at stepped
      · simp at stepped
      · exact ⟨by omega, by simpa [atDepth] using stepped⟩
    rw [← below.2]
    apply numericNames_append
    · intro before after split
      rw [split] at bracketed
      exact bracketed.no_name below.1
    · intro last scanned
      rw [bracketed.anywhere] at scanned
      rw [← Option.some.inj scanned]
      exact later state.depth

theorem numericNames_key (lawful : codec.Lawful) (key : ModelKey) {state : Scan}
    (outside : state.mode = .outside) {rest : Text}
    (later : ∀ state : Scan, state.mode = .outside → NumericNames state rest) :
    NumericNames state (ModelKeyJsonFormatter.serializeToPropertyName codec key ++ rest) := by
  have laterAt : ∀ depth, NumericNames (atDepth depth false) rest := fun depth => later _ rfl
  have noLetter : Numeric [] := by simp [Numeric]
  unfold ModelKeyJsonFormatter.serializeToPropertyName
  cases named : key.stringValue with
  | none =>
      simp only [ModelKey.isIntKey, named, Option.isNone_none, if_true, List.cons_append,
        List.append_assoc, List.nil_append]
      exact numericNames_quoted (numeric_writeInt32 key.intValue) outside laterAt
  | some text =>
      simp only [ModelKey.isIntKey, named, Option.isNone_some, Bool.false_eq_true, if_false,
        writeString, List.cons_append, List.append_assoc, List.nil_append]
      apply numericNames_quoted noLetter outside
      intro depth
      have between : (atDepth depth false).mode = .outside := rfl
      have held := closeString_outside (lawful.closed text []) between
      apply numericNames_append
      · intro before after split
        rw [held.1 before after split]
        exact nofun
      · intro next scanned
        exact numericNames_quoted noLetter (held.2 next scanned) laterAt

theorem numericNames_entries (codecLawful : codec.Lawful) (formatterLawful : formatter.Lawful)
    (entries : List (ModelKey × τ)) (count : Nat) {state : Scan} (outside : state.mode = .outside) :
    NumericNames state (writeEntries codec formatter count entries) := by
  induction entries generalizing count state with
  | nil =>
      apply numericNames_cons
      · intro same
        simp at same
      · intro next _ before after split
        simp at split
  | cons entry rest ih =>
      have written : ∀ state : Scan, state.mode = .outside →
          NumericNames state (writeEntry codec formatter entry ++
            writeEntries codec formatter (count + 1) rest) := by
        intro state outside
        rw [writeEntry, List.append_assoc, List.cons_append]
        apply numericNames_key codecLawful entry.1 outside
        intro state outside
        apply numericNames_value formatterLawful entry.2 outside
        intro depth
        exact ih (count + 1) rfl
      rw [writeEntries, List.append_assoc]
      split
      · exact written state outside
      · apply numericNames_cons
        · intro same
          simp at same
        · intro next stepped
          exact written next (step_outside outside (by decide) stepped)

end Written

/-! What a run reads. -/

section Read

variable {τ : Type} {codec : StringCodec} {formatter : ValueFormatter τ}

theorem expect_names {letter : Char} {text rest : Text} (expected : expect letter text = .ok rest)
    {depth : Nat} {fresh : Bool} {next : Scan} (stepped : step (atDepth depth fresh) letter = some next)
    (names : NumericNames (atDepth depth fresh) text) : NumericNames next rest := by
  obtain ⟨blanks, split, scanned⟩ := expect_split expected
  rw [split] at names
  have before := names.suffix (scanned depth fresh)
  have letterScanned : scan (atDepth depth fresh) [letter] = some next := by
    simp [stepped]
  exact before.suffix letterScanned

theorem StringCodec.Lawful.unescape_numeric (lawful : codec.Lawful) {raw : Text}
    (numeric : Numeric raw) : codec.unescape raw = some raw := by
  have escaped := lawful.plain raw numeric
  have back := lawful.unescape_escape raw
  rwa [escaped] at back

theorem readString_numeric (lawful : codec.Lawful) {raw : Text} (numeric : Numeric raw)
    (rest : Text) : readString codec ('"' :: (raw ++ '"' :: rest)) = .ok (raw, rest) := by
  have solid : kind '"' ≠ .blank := by decide
  simp only [readString, expect_here solid, bind, Except.bind,
    closeString_plain numeric.plain, lawful.unescape_numeric numeric]
  rfl

/-- A key that is read where all names are numeric is an integer or a numeric string. -/
theorem readKey_names (lawful : codec.Lawful) {text rest : Text} {key : ModelKey}
    (names : NumericNames (atDepth 1 true) text)
    (read : ModelKeyJsonFormatter.deserializeFromPropertyName codec text = .ok (key, rest)) :
    NumericKey key ∧ ∃ fresh, NumericNames (atDepth 1 fresh) rest := by
  unfold ModelKeyJsonFormatter.deserializeFromPropertyName at read
  split at read
  · obtain ⟨⟨number, after⟩, number_read, made⟩ := except_bind_eq_ok.mp read
    simp only [pure, Except.pure, Except.ok.injEq, Prod.mk.injEq] at made
    obtain ⟨rfl, rfl⟩ := made
    obtain ⟨used, split, scanned⟩ := readInt32_split number_read
    obtain ⟨fresh, scanned⟩ := scanned 1 true
    rw [split] at names
    exact ⟨by simp [NumericKey, ModelKey.ofInt], fresh, names.suffix scanned⟩
  · split at read
    · obtain ⟨⟨string, after⟩, string_read, made⟩ := except_bind_eq_ok.mp read
      simp only [pure, Except.pure, Except.ok.injEq, Prod.mk.injEq] at made
      obtain ⟨rfl, rfl⟩ := made
      obtain ⟨opened, expected, string_read⟩ := except_bind_eq_ok.mp string_read
      obtain ⟨blanks, split, scanned⟩ := expect_split expected
      rw [split] at names
      obtain ⟨raw, behind, named, numeric⟩ := names blanks opened rfl (scanned 1 true)
      have closed := closeString_plain numeric.plain behind
      rw [named] at string_read
      simp only [closed, lawful.unescape_numeric numeric, pure, Except.pure, Except.ok.injEq,
        Prod.mk.injEq] at string_read
      obtain ⟨rfl, rfl⟩ := string_read
      refine ⟨?_, false, ?_⟩
      · intro text held
        rw [← Option.mem_some.mp held]
        exact numeric
      · have opening : scan (atDepth 1 true) ['"'] = some (inString false 1) := rfl
        have closing := (closeString_scan closed 1).2
        have quoted : NumericNames (atDepth 1 true) (['"'] ++ ((raw ++ ['"']) ++ behind)) := by
          simpa [named] using names.suffix (scanned 1 true)
        exact (quoted.suffix opening).suffix closing
    · simp at read

theorem add_entries {dictionary dictionary' : StadKeyValueCollection τ} {key : ModelKey} {value : τ}
    (added : dictionary.add key value = .ok dictionary') :
    ∀ entry ∈ dictionary'.entries, entry ∈ dictionary.entries ∨ entry = (key, value) := by
  intro entry listed
  unfold StadKeyValueCollection.add at added
  split at added
  · simp at added
  · rw [← Except.ok.inj added] at listed
    rcases List.mem_append.mp listed with old | new
    · exact Or.inl old
    · exact Or.inr (List.mem_singleton.mp new)

/-- The state of a run over a text in which all names are numeric. -/
structure Readable (reading : Reading τ) : Prop where
  names : ∃ fresh, NumericNames (atDepth 1 fresh) reading.text ∧ (reading.count = 0 → fresh = true)
  keys : ∀ entry ∈ reading.dictionary.entries, NumericKey entry.1

theorem readEntry_readable (codecLawful : codec.Lawful) (formatterLawful : formatter.Lawful)
    {reading next : Reading τ} (readable : Readable reading)
    (read : readEntry codec formatter reading = .ok next) : Readable next := by
  obtain ⟨fresh, names, first⟩ := readable.names
  rw [readEntry] at read
  obtain ⟨text, separated, read⟩ := except_bind_eq_ok.mp read
  obtain ⟨⟨key, afterKey⟩, keyRead, read⟩ := except_bind_eq_ok.mp read
  obtain ⟨behind, expected, read⟩ := except_bind_eq_ok.mp read
  obtain ⟨⟨value, rest⟩, valueRead, read⟩ := except_bind_eq_ok.mp read
  obtain ⟨dictionary, added, made⟩ := except_bind_eq_ok.mp read
  have beforeKey : NumericNames (atDepth 1 true) text := by
    unfold skipValueSeparator at separated
    split at separated
    · rename_i start
      rw [← Except.ok.inj separated, ← first start]
      exact names
    · exact expect_names separated rfl names
  obtain ⟨numeric, fresh', namesAfter⟩ := readKey_names codecLawful beforeKey keyRead
  have colon : step (atDepth 1 fresh') ':' = some (atDepth 1 false) := rfl
  have beforeValue := expect_names expected colon namesAfter
  obtain ⟨used, split, bracketed⟩ := formatterLawful.oneValue behind value rest valueRead
  rw [split] at beforeValue
  have afterValue := beforeValue.suffix (bracketed.anywhere 1)
  have sameNext : (⟨reading.count + 1, dictionary, rest⟩ : Reading τ) = next := Except.ok.inj made
  rw [← sameNext]
  refine ⟨⟨false, afterValue, by simp⟩, ?_⟩
  intro entry listed
  rcases add_entries added entry listed with old | new
  · exact readable.keys entry old
  · rw [new]
    exact numeric

theorem readEntries_keys (codecLawful : codec.Lawful) (formatterLawful : formatter.Lawful)
    {depth : Nat} {reading : Reading τ} {result : StadKeyValueCollection τ × Text}
    (readable : Readable reading)
    (returned : unroll (readEntriesBody codec formatter) depth reading = value result) :
    ∀ entry ∈ result.1.entries, NumericKey entry.1 := by
  induction depth generalizing reading with
  | zero => simp at returned
  | succ depth ih =>
      rw [unroll_succ, readEntriesBody] at returned
      split at returned
      · rw [← value.inj returned]
        exact readable.keys
      · obtain ⟨next, read, later⟩ := bind_eq_value.mp returned
        exact ih (readEntry_readable codecLawful formatterLawful readable
          (ofExcept_eq_value.mp read)) later

end Read

/-! What a run makes of the entries that were written. -/

section Back

variable {τ : Type} {codec : StringCodec} {formatter : ValueFormatter τ}

theorem readKey_quoted (lawful : codec.Lawful) {raw : Text} (numeric : Numeric raw) (rest : Text) :
    ModelKeyJsonFormatter.deserializeFromPropertyName codec ('"' :: (raw ++ '"' :: rest)) =
      .ok (.ofString (some raw), rest) := by
  have solid : kind '"' ≠ .blank := by decide
  have token : getCurrentJsonToken ('"' :: (raw ++ '"' :: rest)) = .string := by
    rw [getCurrentJsonToken, skipWhiteSpace_cons solid]
    rfl
  simp [ModelKeyJsonFormatter.deserializeFromPropertyName, token, readString_numeric lawful numeric,
    bind, Except.bind, pure, Except.pure]

theorem writeEntries_more (codec : StringCodec) (formatter : ValueFormatter τ) (count : Nat)
    (entries : List (ModelKey × τ)) :
    ∃ letter rest, writeEntries codec formatter (count + 1) entries = letter :: rest ∧
      (letter = ',' ∨ letter = '}') := by
  cases entries with
  | nil => exact ⟨'}', [], rfl, Or.inr rfl⟩
  | cons entry rest =>
      refine ⟨',', writeEntry codec formatter entry ++ writeEntries codec formatter (count + 2) rest,
        ?_, Or.inl rfl⟩
      simp [writeEntries]

theorem skipValueSeparator_written (codec : StringCodec) (formatter : ValueFormatter τ)
    (count : Nat) (entry : ModelKey × τ) (rest : List (ModelKey × τ)) :
    skipValueSeparator count (writeEntries codec formatter count (entry :: rest)) =
      .ok (writeEntry codec formatter entry ++ writeEntries codec formatter (count + 1) rest) := by
  unfold skipValueSeparator
  split
  · rename_i start
    simp [writeEntries, start]
  · rename_i notStart
    have solid : kind ',' ≠ .blank := by decide
    simp [writeEntries, notStart, expect_here solid]

theorem writeEntry_int {key : ModelKey} (int : key.isIntKey = true) (value : τ) (rest : Text) :
    writeEntry codec formatter (key, value) ++ rest =
      '"' :: (writeInt32 key.intValue ++ '"' :: ':' :: (formatter.serialize value ++ rest)) := by
  simp [writeEntry, ModelKeyJsonFormatter.serializeToPropertyName, int]

theorem writeEntry_string {key : ModelKey} {text : Text} (named : key.stringValue = some text)
    (value : τ) (rest : Text) :
    writeEntry codec formatter (key, value) ++ rest =
      '"' :: ([] ++ '"' :: (codec.escape text ++ '"' :: '"' :: ':' ::
        (formatter.serialize value ++ rest))) := by
  simp [writeEntry, ModelKeyJsonFormatter.serializeToPropertyName, ModelKey.isIntKey, named,
    writeString]

theorem readEntry_of {reading : Reading τ} {text afterKey behind rest : Text} {key : ModelKey}
    {value : τ} (separated : skipValueSeparator reading.count reading.text = .ok text)
    (keyRead : ModelKeyJsonFormatter.deserializeFromPropertyName codec text = .ok (key, afterKey))
    (expected : expect ':' afterKey = .ok behind)
    (valueRead : formatter.deserialize behind = .ok (value, rest)) :
    readEntry codec formatter reading = reading.dictionary.add key value >>= fun dictionary =>
      .ok ⟨reading.count + 1, dictionary, rest⟩ := by
  rw [readEntry, separated]
  simp only [bind, Except.bind, keyRead, expected, valueRead]
  rfl

theorem readEntry_int (codecLawful : codec.Lawful) (formatterLawful : formatter.Lawful)
    {key : ModelKey} (int : key.isIntKey = true) {value : τ} {rest : List (ModelKey × τ)}
    {count : Nat} {dictionary : StadKeyValueCollection τ} {next : Reading τ}
    (read : readEntry codec formatter
      ⟨count, dictionary, writeEntries codec formatter count ((key, value) :: rest)⟩ = .ok next) :
    next.count = count + 1 ∧ next.text = writeEntries codec formatter (count + 1) rest ∧
      ∀ entry ∈ next.dictionary.entries,
        entry ∈ dictionary.entries ∨ entry.1.isIntKey = false := by
  have numeric := numeric_writeInt32 key.intValue
  have solid : kind ':' ≠ .blank := by decide
  obtain ⟨letter, tail, more, separator⟩ := writeEntries_more codec formatter count rest
  have valueRead := formatterLawful.roundTrip value tail letter separator
  rw [← more] at valueRead
  have separated := skipValueSeparator_written codec formatter count (key, value) rest
  rw [writeEntry_int int] at separated
  rw [readEntry_of separated (readKey_quoted codecLawful numeric _) (expect_here solid _) valueRead]
    at read
  obtain ⟨dictionary', added, made⟩ := except_bind_eq_ok.mp read
  rw [← Except.ok.inj made]
  refine ⟨rfl, rfl, ?_⟩
  intro entry listed
  rcases add_entries added entry listed with old | new
  · exact Or.inl old
  · rw [new]
    exact Or.inr rfl

theorem readEntry_string (codecLawful : codec.Lawful) {key : ModelKey} (string : key.isIntKey = false)
    (numericKey : NumericKey key) (value : τ) (rest : List (ModelKey × τ)) (count : Nat)
    (dictionary : StadKeyValueCollection τ) (next : Reading τ) :
    readEntry codec formatter
      ⟨count, dictionary, writeEntries codec formatter count ((key, value) :: rest)⟩ ≠ .ok next := by
  intro read
  obtain ⟨text, named⟩ : ∃ text, key.stringValue = some text := by
    rw [ModelKey.isIntKey, Option.isNone_eq_false_iff] at string
    exact Option.isSome_iff_exists.mp string
  have numeric : Numeric text := numericKey text (Option.mem_def.mpr named)
  have noLetter : Numeric [] := by simp [Numeric]
  have separated := skipValueSeparator_written codec formatter count (key, value) rest
  rw [writeEntry_string named, codecLawful.plain text numeric] at separated
  rw [readEntry, separated] at read
  obtain ⟨opened, same, read⟩ := except_bind_eq_ok.mp read
  rw [← Except.ok.inj same] at read
  rw [readKey_quoted codecLawful noLetter] at read
  obtain ⟨keyed, same, read⟩ := except_bind_eq_ok.mp read
  rw [← Except.ok.inj same] at read
  obtain ⟨behind, expected, _⟩ := except_bind_eq_ok.mp read
  cases text with
  | nil =>
      have solid : kind '"' ≠ .blank := by decide
      have notColon : '"' ≠ ':' := by decide
      simp [expect_other solid notColon] at expected
  | cons letter tail =>
      have plain := kind_numeric (numeric letter List.mem_cons_self)
      have notColon : letter ≠ ':' := by
        rintro rfl
        simp [kind] at plain
      have solid : kind letter ≠ .blank := by simp [plain]
      simp [expect_other solid notColon] at expected

theorem readEntriesBody_written
    (call : Reading τ → Outcome JsonFailure (StadKeyValueCollection τ × Text)) (count : Nat)
    (dictionary : StadKeyValueCollection τ) (entry : ModelKey × τ) (rest : List (ModelKey × τ)) :
    readEntriesBody codec formatter call
        ⟨count, dictionary, writeEntries codec formatter count (entry :: rest)⟩ =
      ofExcept (readEntry codec formatter
        ⟨count, dictionary, writeEntries codec formatter count (entry :: rest)⟩) >>= call := by
  obtain ⟨letter, tail, written, head⟩ : ∃ letter tail,
      writeEntries codec formatter count (entry :: rest) = letter :: tail ∧
        (letter = '"' ∨ letter = ',') := by
    cases count with
    | zero => exact ⟨'"', _, rfl, Or.inl rfl⟩
    | succ count => exact ⟨',', _, rfl, Or.inr rfl⟩
  have solid : kind letter ≠ .blank := by
    rcases head with rfl | rfl <;> decide
  have notEnd : letter ≠ '}' := by
    rcases head with rfl | rfl <;> decide
  rw [written, readEntriesBody, skipWhiteSpace_cons solid]
  split
  · rename_i same
    exact absurd (List.cons.inj same).1 notEnd
  · rfl

theorem readEntries_written (codecLawful : codec.Lawful) (formatterLawful : formatter.Lawful)
    (depth : Nat) (entries : List (ModelKey × τ)) (count : Nat)
    (dictionary : StadKeyValueCollection τ) {result : StadKeyValueCollection τ × Text}
    (returned : unroll (readEntriesBody codec formatter) depth
      ⟨count, dictionary, writeEntries codec formatter count entries⟩ = value result) :
    (∃ entry ∈ entries, ¬ NumericKey entry.1) ∨
      ((∀ entry ∈ entries, entry.1.isIntKey = true) ∧
        ∀ entry ∈ result.1.entries, entry ∈ dictionary.entries ∨ entry.1.isIntKey = false) := by
  induction depth generalizing entries count dictionary with
  | zero => simp at returned
  | succ depth ih =>
      cases entries with
      | nil =>
          have same : (dictionary, []) = result := value.inj returned
          rw [← same]
          exact Or.inr ⟨by simp, fun entry listed => Or.inl listed⟩
      | cons entry rest =>
          rw [unroll_succ, readEntriesBody_written] at returned
          obtain ⟨next, read, later⟩ := bind_eq_value.mp returned
          have entryRead := ofExcept_eq_value.mp read
          by_cases numeric : NumericKey entry.1
          · cases int : entry.1.isIntKey with
            | false =>
                exact absurd entryRead
                  (readEntry_string codecLawful int numeric entry.2 rest count dictionary next)
            | true =>
                obtain ⟨sameCount, sameText, added⟩ :=
                  readEntry_int codecLawful formatterLawful int entryRead
                have state : next = ⟨count + 1, next.dictionary,
                    writeEntries codec formatter (count + 1) rest⟩ := by
                  rw [← sameText, ← sameCount]
                rw [state] at later
                rcases ih rest (count + 1) next.dictionary later with
                  ⟨other, listed, notNumeric⟩ | ⟨ints, kept⟩
                · exact Or.inl ⟨other, List.mem_cons_of_mem entry listed, notNumeric⟩
                · refine Or.inr ⟨List.forall_mem_cons.mpr ⟨int, ints⟩, ?_⟩
                  intro other listed
                  rcases kept other listed with old | string
                  · exact added other old
                  · exact Or.inr string
          · exact Or.inl ⟨entry, List.mem_cons_self, numeric⟩

end Back

namespace StadKeyValueCollectionJsonFormatter

variable {τ : Type}

def SameContent : Option (StadKeyValueCollection τ) → Option (StadKeyValueCollection τ) → Prop
  | none, none => True
  | some collection, some collection' =>
    ∀ entry, entry ∈ collection.entries ↔ entry ∈ collection'.entries
  | _, _ => False

def RoundTrips (codec : StringCodec) (formatter : ValueFormatter τ)
    (collection : Option (StadKeyValueCollection τ)) : Prop :=
  ∃ depth back rest,
    deserialize codec formatter depth (serialize codec formatter collection) = value (back, rest) ∧
      SameContent back collection

theorem deserialize_written {codec : StringCodec} {formatter : ValueFormatter τ}
    {collection : StadKeyValueCollection τ} {depth : Nat}
    {back : Option (StadKeyValueCollection τ)} {rest : Text}
    (returned : deserialize codec formatter depth (serialize codec formatter (some collection)) =
      value (back, rest)) :
    ∃ dictionary, back = some dictionary ∧ unroll (readEntriesBody codec formatter) depth
      ⟨0, .empty, writeEntries codec formatter 0 collection.entries⟩ = value (dictionary, rest) := by
  obtain ⟨null, nullRead, returned⟩ := bind_eq_value.mp returned
  have notNull : null = none := Except.ok.inj (ofExcept_eq_value.mp nullRead).symm
  rw [notNull] at returned
  obtain ⟨begun, opened, returned⟩ := bind_eq_value.mp returned
  have solid : kind '{' ≠ .blank := by decide
  have opening := expect_here solid (writeEntries codec formatter 0 collection.entries)
  have same := Except.ok.inj (opening.symm.trans (ofExcept_eq_value.mp opened))
  rw [← same] at returned
  obtain ⟨⟨dictionary, after⟩, read, made⟩ := bind_eq_value.mp returned
  obtain ⟨sameBack, sameRest⟩ := Prod.mk.inj (value.inj made)
  refine ⟨dictionary, sameBack.symm, ?_⟩
  rw [read]
  exact congrArg (fun behind => value (dictionary, behind)) sameRest

theorem not_roundTrips {codec : StringCodec} {formatter : ValueFormatter τ}
    (codecLawful : codec.Lawful) (formatterLawful : formatter.Lawful)
    {collection : StadKeyValueCollection τ} {entry : ModelKey × τ}
    (listed : entry ∈ collection.entries) : ¬ RoundTrips codec formatter (some collection) := by
  rintro ⟨depth, back, rest, returned, same⟩
  obtain ⟨dictionary, rfl, read⟩ := deserialize_written returned
  have outside : (atDepth 1 true).mode = .outside := rfl
  have names := numericNames_entries codecLawful formatterLawful collection.entries 0 outside
  have numeric := readEntries_keys codecLawful formatterLawful
    ⟨⟨true, names, fun _ => rfl⟩, by simp [StadKeyValueCollection.empty]⟩ read
  rcases readEntries_written codecLawful formatterLawful depth _ 0 .empty read with
    ⟨other, isListed, notNumeric⟩ | ⟨ints, strings⟩
  · exact notNumeric (numeric other ((same other).mpr isListed))
  · rcases strings entry ((same entry).mpr listed) with old | string
    · simp [StadKeyValueCollection.empty] at old
    · rw [ints entry listed] at string
      exact absurd string (by decide)

/-- A collection survives JSON exactly when there is nothing in it. -/
theorem roundTrips_iff {codec : StringCodec} {formatter : ValueFormatter τ}
    (codecLawful : codec.Lawful) (formatterLawful : formatter.Lawful)
    (collection : Option (StadKeyValueCollection τ)) :
    RoundTrips codec formatter collection ↔ ∀ content ∈ collection, content.entries = [] := by
  constructor
  · rintro roundTrips content rfl
    by_contra filled
    obtain ⟨entry, listed⟩ := List.exists_mem_of_ne_nil _ filled
    exact not_roundTrips codecLawful formatterLawful listed roundTrips
  · intro nothing
    cases collection with
    | none => exact ⟨0, none, [], rfl, trivial⟩
    | some content =>
        have noEntry := nothing content rfl
        refine ⟨1, some .empty, [], ?_, ?_⟩
        · rw [serialize, noEntry]
          rfl
        · intro entry
          rw [noEntry]
          rfl

end StadKeyValueCollectionJsonFormatter

/-! A codec and a formatter that keep the laws. -/

def escapeLetter (letter : Char) : Text :=
  if kind letter = .quote ∨ kind letter = .backslash then ['\\', letter] else [letter]

def unescapeText : Text → Option Text
  | [] => some []
  | letter :: rest =>
    if kind letter = .backslash then
      match rest with
      | [] => none
      | escaped :: rest => (unescapeText rest).map (escaped :: ·)
    else (unescapeText rest).map (letter :: ·)

def backslashCodec : StringCodec := ⟨fun value => value.flatMap escapeLetter, unescapeText⟩

theorem unescapeText_cons {letter : Char} (ordinary : kind letter ≠ .backslash) (rest : Text) :
    unescapeText (letter :: rest) = (unescapeText rest).map (letter :: ·) := by
  cases rest <;> simp [unescapeText, ordinary]

theorem backslashCodec_lawful : backslashCodec.Lawful where
  closed value rest := by
    induction value with
    | nil => rfl
    | cons letter value ih =>
        have later : closeString false (value.flatMap escapeLetter ++ '"' :: rest) =
            some (value.flatMap escapeLetter, rest) := ih
        by_cases special : kind letter = .quote ∨ kind letter = .backslash
        · simp [backslashCodec, escapeLetter, special, closeString, later,
            show kind '\\' = .backslash from rfl]
        · rw [not_or] at special
          simp [backslashCodec, escapeLetter, special, closeString, later]
  unescape_escape value := by
    induction value with
    | nil => rfl
    | cons letter value ih =>
        have later : unescapeText (value.flatMap escapeLetter) = some value := ih
        by_cases special : kind letter = .quote ∨ kind letter = .backslash
        · simp [backslashCodec, escapeLetter, special, unescapeText, later,
            show kind '\\' = .backslash from rfl]
        · rw [not_or] at special
          simp [backslashCodec, escapeLetter, special, unescapeText_cons special.2, later]
  plain value numeric := by
    induction value with
    | nil => rfl
    | cons letter value ih =>
        have later : value.flatMap escapeLetter = value :=
          ih fun other listed => numeric other (List.mem_cons_of_mem letter listed)
        have ordinary := kind_numeric (numeric letter List.mem_cons_self)
        simp [backslashCodec, escapeLetter, ordinary, later]

def booleanFormatter : ValueFormatter Bool where
  serialize flag := if flag then "true".toList else "false".toList
  deserialize text :=
    match skipWhiteSpace text with
    | 't' :: 'r' :: 'u' :: 'e' :: rest => .ok (true, rest)
    | 'f' :: 'a' :: 'l' :: 's' :: 'e' :: rest => .ok (false, rest)
    | _ => .error .parsing

theorem booleanFormatter_lawful : booleanFormatter.Lawful where
  roundTrip flag rest letter _ := by
    cases flag <;> rfl
  oneValue text flag rest read := by
    obtain ⟨blanks, split, scanned⟩ := skipWhiteSpace_split text
    have bracketed : ∀ word : Text, Bracketed word → Bracketed (blanks ++ word) := by
      intro word wordBracketed
      rw [Bracketed, scan_append_of (scanned 0 false)]
      exact wordBracketed
    simp only [booleanFormatter] at read
    split at read
    · rename_i rest' same
      obtain ⟨rfl, rfl⟩ := Prod.mk.inj (Except.ok.inj read)
      exact ⟨blanks ++ "true".toList, by rw [split, same]; simp, bracketed _ rfl⟩
    · rename_i rest' same
      obtain ⟨rfl, rfl⟩ := Prod.mk.inj (Except.ok.inj read)
      exact ⟨blanks ++ "false".toList, by rw [split, same]; simp, bracketed _ rfl⟩
    · simp at read

namespace StadKeyValueCollectionJsonFormatter

def oneTrue : StadKeyValueCollection Bool := ⟨[(.ofInt 1, true)], by simp⟩

def oneTrueBack : StadKeyValueCollection Bool := ⟨[(.ofString (some ['1']), true)], by simp⟩

theorem empty_roundTrips :
    RoundTrips backslashCodec booleanFormatter (some .empty) ∧
      ¬RoundTrips backslashCodec booleanFormatter (some oneTrue) := by
  constructor
  · refine (roundTrips_iff backslashCodec_lawful booleanFormatter_lawful _).mpr ?_
    rintro content ⟨⟩
    rfl
  · rw [roundTrips_iff backslashCodec_lawful booleanFormatter_lawful]
    intro nothing
    cases nothing oneTrue rfl

theorem oneTrue_lost :
    deserialize backslashCodec booleanFormatter 2
        (serialize backslashCodec booleanFormatter (some oneTrue)) =
      value (some oneTrueBack, []) ∧
    ¬ RoundTrips backslashCodec booleanFormatter (some oneTrue) :=
  ⟨rfl, not_roundTrips backslashCodec_lawful booleanFormatter_lawful (List.mem_singleton_self _)⟩

end StadKeyValueCollectionJsonFormatter

end Stad
