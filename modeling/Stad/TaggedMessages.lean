import Stad.PrefixCodes
import Mathlib.Algebra.GroupWithZero.Nat
import Mathlib.Algebra.Order.BigOperators.Group.List
import Mathlib.Algebra.Order.Group.Nat

/-!
Messages that travel as a row of tagged fields. A message is read by a loop that
takes a tag and then what the tag announces, so a text may be cut between two
fields and read in parts, and a message that is written is read back by adding
its fields one after another to whatever was there before.
-/

namespace TaggedMessages

open PrefixCodes

/-! The loop over the fields of a message. -/

section Loop

variable {β μ : Type} (tag : Code β Nat) (field : Nat → μ → List β → Option (μ × List β))

def mergeLoop : Nat → μ → List β → Option μ
  | _, state, [] => some state
  | 0, _, _ :: _ => none
  | fuel + 1, state, byte :: text =>
      (tag.read (byte :: text)).bind fun announced =>
        (field announced.1 state announced.2).bind fun merged => mergeLoop fuel merged.1 merged.2

/-- Every field takes up some of the text, so its length is enough fuel. -/
def mergeText (state : μ) (text : List β) : Option μ :=
  mergeLoop tag field text.length state text

variable {tag field}

theorem mergeLoop_enough (front : ∀ number state, TakesFront (field number state)) :
    ∀ fuel fuel' state text, text.length ≤ fuel → text.length ≤ fuel' →
      mergeLoop tag field fuel state text = mergeLoop tag field fuel' state text := by
  intro fuel
  induction fuel with
  | zero =>
      intro fuel' state text enough _
      rw [List.length_eq_zero_iff.mp (Nat.le_zero.mp enough)]
      simp [mergeLoop]
  | succ fuel ih =>
      intro fuel' state text enough enough'
      cases text with
      | nil => simp [mergeLoop]
      | cons byte text =>
          cases fuel' with
          | zero => simp at enough'
          | succ fuel' =>
              simp only [mergeLoop]
              cases announced : tag.read (byte :: text) with
              | none => rfl
              | some found =>
                  have shorter := tag.read_shorter announced
                  simp only [Option.bind_some]
                  cases merged : field found.1 state found.2 with
                  | none => rfl
                  | some next =>
                      have shrunk := (front found.1 state).shrinks merged
                      simp only [List.length_cons] at shorter enough enough'
                      exact ih fuel' next.1 next.2 (by omega) (by omega)

@[simp] theorem mergeText_nil (state : μ) : mergeText tag field state [] = some state := by
  simp [mergeText, mergeLoop]

theorem mergeText_step (front : ∀ number state, TakesFront (field number state))
    {state next : μ} {text afterTag rest : List β} {number : Nat}
    (announced : tag.read text = some (number, afterTag))
    (merged : field number state afterTag = some (next, rest)) :
    mergeText tag field state text = mergeText tag field next rest := by
  have shorter := tag.read_shorter announced
  have shrunk := (front number state).shrinks merged
  cases text with
  | nil => simp at shorter
  | cons byte text =>
      simp only [mergeText, List.length_cons, mergeLoop, announced, merged, Option.bind_some]
      simp only [List.length_cons] at shorter
      exact mergeLoop_enough front _ _ _ _ (by omega) (Nat.le_refl _)

theorem mergeText_cases (front : ∀ number state, TakesFront (field number state))
    {state last : μ} {text : List β} (accepted : mergeText tag field state text = some last) :
    (text = [] ∧ state = last) ∨ ∃ number afterTag next rest,
      tag.read text = some (number, afterTag) ∧ field number state afterTag = some (next, rest) ∧
      rest.length < text.length ∧ mergeText tag field next rest = some last := by
  cases text with
  | nil => exact .inl ⟨rfl, by simpa using accepted⟩
  | cons byte text =>
      right
      have unfolded := accepted
      simp only [mergeText, List.length_cons, mergeLoop, Option.bind_eq_some_iff] at unfolded
      obtain ⟨⟨number, afterTag⟩, announced, ⟨next, rest⟩, merged, -⟩ := unfolded
      have shorter := tag.read_shorter announced
      have shrunk := (front number state).shrinks merged
      rw [mergeText_step front announced merged] at accepted
      exact ⟨number, afterTag, next, rest, announced, merged, Nat.lt_of_le_of_lt shrunk shorter,
        accepted⟩

theorem mergeText_keeps (front : ∀ number state, TakesFront (field number state))
    {Keeps : μ → Prop}
    (each : ∀ {number state afterTag next rest}, tag.Valid number →
      field number state afterTag = some (next, rest) → Keeps state → Keeps next)
    {state last : μ} {text : List β} (start : Keeps state)
    (accepted : mergeText tag field state text = some last) : Keeps last := by
  induction len : text.length using Nat.strongRecOn generalizing state text with
  | _ count ih =>
      rcases mergeText_cases front accepted with ⟨_, same⟩ | ⟨number, afterTag, next, rest, found⟩
      · exact same ▸ start
      · obtain ⟨announced, merged, shorter, accepted⟩ := found
        exact ih rest.length (len ▸ shorter) (each (tag.read_valid announced) merged start)
          accepted rfl

theorem mergeText_append (front : ∀ number state, TakesFront (field number state))
    {state middle : μ} {text : List β} (accepted : mergeText tag field state text = some middle)
    (more : List β) :
    mergeText tag field state (text ++ more) = mergeText tag field middle more := by
  induction len : text.length using Nat.strongRecOn generalizing state text with
  | _ count ih =>
      rcases mergeText_cases front accepted with ⟨rfl, rfl⟩ | ⟨number, afterTag, next, rest, found⟩
      · rfl
      · obtain ⟨announced, merged, shorter, accepted⟩ := found
        rw [mergeText_step front (tag.read_append announced more)
          ((front number state).append merged more)]
        exact ih rest.length (len ▸ shorter) accepted rfl

/-! A text made of fields that are each read back. -/

inductive Feeds (tag : Code β Nat) (field : Nat → μ → List β → Option (μ × List β)) :
    μ → List β → μ → Prop where
  | nil (state : μ) : Feeds tag field state [] state
  | cons {number : Nat} {state next last : μ} {content text : List β} (valid : tag.Valid number)
      (readBack : ∀ rest, field number state (content ++ rest) = some (next, rest))
      (tail : Feeds tag field next text last) :
      Feeds tag field state (tag.write number ++ content ++ text) last

theorem Feeds.single {number : Nat} {state next : μ} {content : List β}
    (valid : tag.Valid number)
    (readBack : ∀ rest, field number state (content ++ rest) = some (next, rest)) :
    Feeds tag field state (tag.write number ++ content) next := by
  have none : Feeds tag field next [] next := .nil next
  simpa using Feeds.cons valid readBack none

theorem Feeds.append {state middle last : μ} {text text' : List β}
    (first : Feeds tag field state text middle) (second : Feeds tag field middle text' last) :
    Feeds tag field state (text ++ text') last := by
  induction first with
  | nil state => exact second
  | cons valid readBack _ ih =>
      rw [List.append_assoc]
      exact Feeds.cons valid readBack (ih second)

theorem Feeds.repeated {α : Type} {place : List α → μ} {segment : α → List β} {values : List α}
    (each : ∀ value ∈ values, ∀ present,
      Feeds tag field (place present) (segment value) (place (present ++ [value])))
    (present : List α) :
    Feeds tag field (place present) (values.flatMap segment) (place (present ++ values)) := by
  induction values generalizing present with
  | nil =>
      have none : Feeds tag field (place present) [] (place present) := .nil _
      simpa using none
  | cons value rest ih =>
      rw [List.flatMap_cons]
      have head := each value (by simp) present
      have tail := ih (fun other member => each other (by simp [member])) (present ++ [value])
      simpa using head.append tail

theorem Feeds.mergeText (front : ∀ number state, TakesFront (field number state))
    {state last : μ} {text : List β} (feeds : Feeds tag field state text last) :
    mergeText tag field state text = some last := by
  induction feeds with
  | nil state => exact mergeText_nil state
  | @cons number state next last content text valid readBack tail ih =>
      have announced : tag.read (tag.write number ++ content ++ text) =
          some (number, content ++ text) := by
        rw [List.append_assoc]
        exact tag.read_write number valid _
      rw [mergeText_step front announced (readBack text)]
      exact ih

end Loop

/-! What a runtime offers to write and read the parts of a message. -/

/-- Where a reader keeps the fields that it has no name for. -/
structure UnknownFields (β υ : Type) where
  Payload : Type
  payload : Nat → Code β Payload
  empty : υ
  add : υ → Nat → Payload → υ
  items : υ → List (Nat × Payload)
  items_empty : items empty = []
  items_add : ∀ store number content,
    (items (add store number content)).Perm ((number, content) :: items store)
  refold : ∀ store, (items store).foldl (fun kept item => add kept item.1 item.2) empty = store

structure Runtime (β υ : Type) where
  tag : Code β Nat
  length : Code β Nat
  string : Code β String
  int32 : Code β (BitVec 32)
  unknown : UnknownFields β υ
  limit : Nat
  tag_valid : ∀ number, 8 ≤ number → number < 2 ^ 32 → tag.Valid number
  tag_size : ∀ number, number < 128 → tag.size number = 1
  length_valid : ∀ count, count < limit → length.Valid count
  string_valid : ∀ text, string.size text < limit → string.Valid text
  int32_valid : ∀ value, int32.Valid value

section Parts

variable {β υ μ α : Type} (runtime : Runtime β υ)

/-! A plain value is written unless it is the default one. -/

section Scalars

variable [DecidableEq α] (code : Code β α) (default : α) (number : Nat)

def writeScalar (value : α) : List β :=
  if value = default then [] else runtime.tag.write number ++ code.write value

def scalarSize (value : α) : Nat :=
  if value = default then 0 else 1 + code.size value

def mergeScalar (present other : α) : α :=
  if other = default then present else other

@[simp] theorem mergeScalar_default (other : α) : mergeScalar default default other = other := by
  unfold mergeScalar
  split
  · exact Eq.symm ‹_›
  · rfl

theorem scalarSize_eq {number : Nat} (short : number < 128) (value : α) :
    scalarSize code default value = (writeScalar runtime code default number value).length := by
  unfold scalarSize writeScalar
  split
  · rfl
  · rw [List.length_append, ← runtime.tag.size_eq, ← code.size_eq, runtime.tag_size number short]

variable {runtime code default number}

theorem feeds_scalar (field : Nat → μ → List β → Option (μ × List β)) (place : α → μ)
    (valid : runtime.tag.Valid number)
    (reads : ∀ present, field number (place present) = readMap code.read place)
    {value : α} (fits : value ≠ default → code.Valid value) (present : α) :
    Feeds runtime.tag field (place present) (writeScalar runtime code default number value)
      (place (mergeScalar default present value)) := by
  unfold writeScalar mergeScalar
  split
  · exact Feeds.nil _
  · rename_i changed
    refine Feeds.single valid fun rest => ?_
    rw [reads]
    exact code.readMap_write place (fits changed) rest

theorem fits_of_scalarSize {limit : Nat} {value : α} (fits : scalarSize code default value < limit)
    (changed : value ≠ default) : code.size value < limit := by
  rw [scalarSize, if_neg changed] at fits
  omega

end Scalars

variable {runtime} in
theorem Runtime.string_fits {text : String} (fits : scalarSize runtime.string "" text < runtime.limit)
    (changed : text ≠ "") : runtime.string.Valid text :=
  runtime.string_valid text (fits_of_scalarSize fits changed)

variable {runtime} in
theorem Runtime.int32_fits (value : BitVec 32) (_ : value ≠ 0) : runtime.int32.Valid value :=
  runtime.int32_valid value

/-! The unknown fields are written last, each with its own tag. -/

def writeUnknown (store : υ) : List β :=
  (runtime.unknown.items store).flatMap fun item =>
    runtime.tag.write item.1 ++ (runtime.unknown.payload item.1).write item.2

def unknownSize (store : υ) : Nat :=
  ((runtime.unknown.items store).map fun item =>
    runtime.tag.size item.1 + (runtime.unknown.payload item.1).size item.2).sum

def mergeUnknown (store other : υ) : υ :=
  (runtime.unknown.items other).foldl (fun kept item => runtime.unknown.add kept item.1 item.2) store

def readUnknown (number : Nat) (store : υ) (text : List β) : Option (υ × List β) :=
  readMap (runtime.unknown.payload number).read (runtime.unknown.add store number) text

/-- The unknown fields are none of the known ones and can be written. -/
def Settled (known : List Nat) (store : υ) : Prop :=
  ∀ item ∈ runtime.unknown.items store, item.1 ∉ known ∧ runtime.tag.Valid item.1 ∧
    (runtime.unknown.payload item.1).Valid item.2

theorem unknownSize_eq (store : υ) :
    unknownSize runtime store = (writeUnknown runtime store).length := by
  simp only [unknownSize, writeUnknown, List.length_flatMap, List.length_append, Code.size_eq]

theorem takesFront_readUnknown (number : Nat) (store : υ) :
    TakesFront (readUnknown runtime number store) :=
  (runtime.unknown.payload number).takesFront.map _

@[simp] theorem mergeUnknown_empty (store : υ) :
    mergeUnknown runtime runtime.unknown.empty store = store := runtime.unknown.refold store

variable {runtime}

theorem settled_empty (known : List Nat) : Settled runtime known runtime.unknown.empty := by
  intro item member
  rw [runtime.unknown.items_empty] at member
  simp at member

theorem Settled.read {known : List Nat} {store store' : υ} (settled : Settled runtime known store)
    {number : Nat} (other : number ∉ known) (valid : runtime.tag.Valid number)
    {text rest : List β} (found : readUnknown runtime number store text = some (store', rest)) :
    Settled runtime known store' := by
  obtain ⟨content, read, rfl⟩ := readMap_eq_some.mp found
  intro item member
  rcases List.mem_cons.mp ((runtime.unknown.items_add store number content).mem_iff.mp member) with
    rfl | kept
  · exact ⟨other, valid, (runtime.unknown.payload _).read_valid read⟩
  · exact settled item kept

theorem feeds_unknown (field : Nat → μ → List β → Option (μ × List β)) (place : υ → μ)
    {known : List Nat}
    (reads : ∀ number, number ∉ known → ∀ store,
      field number (place store) = readMap (readUnknown runtime number store) place)
    {other : υ} (settled : Settled runtime known other) (store : υ) :
    Feeds runtime.tag field (place store) (writeUnknown runtime other)
      (place (mergeUnknown runtime store other)) := by
  unfold writeUnknown mergeUnknown
  unfold Settled at settled
  revert settled
  generalize runtime.unknown.items other = items
  intro settled
  induction items generalizing store with
  | nil => exact Feeds.nil _
  | cons item rest ih =>
      obtain ⟨foreign, valid, fits⟩ := settled item (by simp)
      have head : Feeds runtime.tag field (place store)
          (runtime.tag.write item.1 ++ (runtime.unknown.payload item.1).write item.2)
          (place (runtime.unknown.add store item.1 item.2)) := by
        refine Feeds.single valid fun more => ?_
        rw [reads item.1 foreign]
        exact readMap_eq_some.mpr
          ⟨_, (runtime.unknown.payload item.1).readMap_write _ fits more, rfl⟩
      rw [List.flatMap_cons, List.foldl_cons]
      exact head.append (ih (runtime.unknown.add store item.1 item.2)
        fun other member => settled other (List.mem_cons_of_mem _ member))

end Parts

/-- A kind of message, with what its writer and its reader agree on. -/
structure Message {β υ : Type} (runtime : Runtime β υ) (μ : Type) where
  fresh : μ
  writeTo : μ → List β
  calculateSize : μ → Nat
  mergeFrom : μ → μ → μ
  mergeField : Nat → μ → List β → Option (μ × List β)
  Proper : μ → Prop
  size_eq : ∀ value, calculateSize value = (writeTo value).length
  takesFront : ∀ number state, TakesFront (mergeField number state)
  feeds : ∀ state value, Proper value → calculateSize value < runtime.limit →
    Feeds runtime.tag mergeField state (writeTo value) (mergeFrom state value)
  fresh_mergeFrom : ∀ value, mergeFrom fresh value = value
  proper_fresh : Proper fresh
  proper_field : ∀ {number state text next rest}, runtime.tag.Valid number →
    mergeField number state text = some (next, rest) → Proper state → Proper next

namespace Message

variable {β υ μ ν : Type} {runtime : Runtime β υ} (message : Message runtime μ)

def mergeFromText (state : μ) (text : List β) : Option μ :=
  mergeText runtime.tag message.mergeField state text

def parseFrom (text : List β) : Option μ := message.mergeFromText message.fresh text

/-- Reading what was written is merging. -/
theorem mergeFromText_writeTo (state : μ) {value : μ} (proper : message.Proper value)
    (fits : message.calculateSize value < runtime.limit) :
    message.mergeFromText state (message.writeTo value) = some (message.mergeFrom state value) :=
  (message.feeds state value proper fits).mergeText message.takesFront

theorem parseFrom_writeTo {value : μ} (proper : message.Proper value)
    (fits : message.calculateSize value < runtime.limit) :
    message.parseFrom (message.writeTo value) = some value := by
  rw [parseFrom, message.mergeFromText_writeTo _ proper fits, message.fresh_mergeFrom]

theorem mergeFromText_append {state middle : μ} {text : List β}
    (accepted : message.mergeFromText state text = some middle) (more : List β) :
    message.mergeFromText state (text ++ more) = message.mergeFromText middle more :=
  mergeText_append message.takesFront accepted more

theorem mergeFromText_proper {state last : μ} {text : List β} (proper : message.Proper state)
    (accepted : message.mergeFromText state text = some last) : message.Proper last :=
  mergeText_keeps message.takesFront message.proper_field proper accepted

theorem parseFrom_proper {value : μ} {text : List β}
    (accepted : message.parseFrom text = some value) : message.Proper value :=
  message.mergeFromText_proper message.proper_fresh accepted

/-! A message inside another one travels behind its length. -/

def writeEmbedded (value : μ) : List β :=
  runtime.length.write (message.calculateSize value) ++ message.writeTo value

def embeddedSize (value : μ) : Nat :=
  runtime.length.size (message.calculateSize value) + message.calculateSize value

def readInto (state : μ) (text : List β) : Option (μ × List β) :=
  (runtime.length.read text).bind fun counted =>
    if counted.2.length < counted.1 then none
    else (message.mergeFromText state (counted.2.take counted.1)).map fun merged =>
      (merged, counted.2.drop counted.1)

theorem embeddedSize_eq (value : μ) :
    message.embeddedSize value = (message.writeEmbedded value).length := by
  rw [embeddedSize, writeEmbedded, List.length_append, ← runtime.length.size_eq, message.size_eq]

theorem readInto_eq_some {state last : μ} {text rest : List β} :
    message.readInto state text = some (last, rest) ↔
      ∃ count body, runtime.length.read text = some (count, body ++ rest) ∧ body.length = count ∧
        message.mergeFromText state body = some last := by
  constructor
  · intro found
    obtain ⟨⟨count, afterCount⟩, counted, found⟩ := Option.bind_eq_some_iff.mp found
    split at found
    · cases found
    · rename_i enough
      obtain ⟨merged, accepted, same⟩ := Option.map_eq_some_iff.mp found
      cases same
      refine ⟨count, afterCount.take count, ?_, ?_, accepted⟩
      · rw [List.take_append_drop, counted]
      · rw [List.length_take]
        simp only at enough
        omega
  · rintro ⟨count, body, counted, rfl, accepted⟩
    simp [readInto, counted, accepted]

theorem takesFront_readInto (state : μ) : TakesFront (message.readInto state) := by
  constructor
  · intro text last rest found
    obtain ⟨count, body, counted, _, _⟩ := message.readInto_eq_some.mp found
    have shorter := runtime.length.read_shorter counted
    rw [List.length_append] at shorter
    omega
  · intro text last rest found more
    obtain ⟨count, body, counted, measured, accepted⟩ := message.readInto_eq_some.mp found
    refine message.readInto_eq_some.mpr ⟨count, body, ?_, measured, accepted⟩
    rw [runtime.length.read_append counted, List.append_assoc]

theorem readInto_write (state : μ) {value : μ} (proper : message.Proper value)
    (fits : message.calculateSize value < runtime.limit) (rest : List β) :
    message.readInto state (message.writeEmbedded value ++ rest) =
      some (message.mergeFrom state value, rest) := by
  refine message.readInto_eq_some.mpr ⟨message.calculateSize value, message.writeTo value, ?_,
    (message.size_eq value).symm, message.mergeFromText_writeTo state proper fits⟩
  rw [writeEmbedded, List.append_assoc]
  exact runtime.length.read_write _ (runtime.length_valid _ fits) _

theorem readInto_proper {state last : μ} {text rest : List β} (proper : message.Proper state)
    (found : message.readInto state text = some (last, rest)) : message.Proper last := by
  obtain ⟨count, body, _, _, accepted⟩ := message.readInto_eq_some.mp found
  exact message.mergeFromText_proper proper accepted

/-! A field that may hold a message. -/

section Optional

variable (number : Nat)

def writeOptional : Option μ → List β
  | none => []
  | some value => runtime.tag.write number ++ message.writeEmbedded value

def optionalSize : Option μ → Nat
  | none => 0
  | some value => 1 + message.embeddedSize value

def mergeOptional : Option μ → Option μ → Option μ
  | present, none => present
  | none, some other => some (message.mergeFrom message.fresh other)
  | some present, some other => some (message.mergeFrom present other)

def readOptional (present : Option μ) (text : List β) : Option (Option μ × List β) :=
  readMap (message.readInto (present.getD message.fresh)) some text

def ProperOptional (present : Option μ) : Prop := ∀ value ∈ present, message.Proper value

@[simp] theorem mergeOptional_none (other : Option μ) : message.mergeOptional none other = other := by
  cases other with
  | none => rfl
  | some value => simp [mergeOptional, message.fresh_mergeFrom]

theorem optionalSize_eq {number : Nat} (short : number < 128) (present : Option μ) :
    message.optionalSize present = (message.writeOptional number present).length := by
  cases present with
  | none => rfl
  | some value =>
      rw [optionalSize, writeOptional, List.length_append, ← runtime.tag.size_eq,
        ← message.embeddedSize_eq, runtime.tag_size number short]

theorem takesFront_readOptional (present : Option μ) : TakesFront (message.readOptional present) :=
  (message.takesFront_readInto _).map some

variable {message number}

theorem ProperOptional.read {present last : Option μ} (proper : message.ProperOptional present)
    {text rest : List β} (found : message.readOptional present text = some (last, rest)) :
    message.ProperOptional last := by
  obtain ⟨value, entry, rfl⟩ := readMap_eq_some.mp found
  have start : message.Proper (present.getD message.fresh) := by
    cases present with
    | none => exact message.proper_fresh
    | some before => exact proper before rfl
  intro other member
  cases member
  exact message.readInto_proper start entry

theorem feeds_optional (field : Nat → ν → List β → Option (ν × List β)) (place : Option μ → ν)
    (valid : runtime.tag.Valid number)
    (reads : ∀ present,
      field number (place present) = readMap (message.readOptional present) place)
    {other : Option μ} (proper : message.ProperOptional other)
    (fits : message.optionalSize other < runtime.limit) (present : Option μ) :
    Feeds runtime.tag field (place present) (message.writeOptional number other)
      (place (message.mergeOptional present other)) := by
  cases other with
  | none =>
      cases present with
      | none => exact Feeds.nil _
      | some before => exact Feeds.nil _
  | some value =>
      have small : message.calculateSize value < runtime.limit := by
        simp only [optionalSize, embeddedSize] at fits
        omega
      refine Feeds.single valid fun rest => ?_
      rw [reads]
      have found := message.readInto_write (present.getD message.fresh) (proper value rfl) small rest
      refine readMap_eq_some.mpr ⟨_, readMap_eq_some.mpr ⟨_, found, rfl⟩, ?_⟩
      cases present with
      | none => rfl
      | some before => rfl

end Optional

/-! A field that may be repeated. -/

section Repeated

variable (number : Nat)

def writeRepeated (values : List μ) : List β :=
  values.flatMap fun value => runtime.tag.write number ++ message.writeEmbedded value

def repeatedSize (values : List μ) : Nat :=
  (values.map fun value => runtime.tag.size number + message.embeddedSize value).sum

/-- The entries that follow with the same tag are left to the next rounds of the loop. -/
def addEntriesFrom (values : List μ) (text : List β) : Option (List μ × List β) :=
  readMap (message.readInto message.fresh) (fun value => values ++ [value]) text

def ProperRepeated (values : List μ) : Prop := ∀ value ∈ values, message.Proper value

theorem repeatedSize_eq (values : List μ) :
    message.repeatedSize number values = (message.writeRepeated number values).length := by
  simp only [repeatedSize, writeRepeated, List.length_flatMap, List.length_append,
    ← Code.size_eq, ← message.embeddedSize_eq]

theorem takesFront_addEntriesFrom (values : List μ) : TakesFront (message.addEntriesFrom values) :=
  (message.takesFront_readInto _).map fun value => values ++ [value]

variable {message number}

theorem ProperRepeated.read {values last : List μ} (proper : message.ProperRepeated values)
    {text rest : List β} (found : message.addEntriesFrom values text = some (last, rest)) :
    message.ProperRepeated last := by
  obtain ⟨value, entry, rfl⟩ := readMap_eq_some.mp found
  intro other member
  rcases List.mem_append.mp member with before | new
  · exact proper other before
  · rw [List.mem_singleton.mp new]
    exact message.readInto_proper message.proper_fresh entry

theorem calculateSize_le_repeated (number : Nat) {values : List μ} {value : μ}
    (member : value ∈ values) :
    message.calculateSize value ≤ message.repeatedSize number values := by
  have part : runtime.tag.size number + message.embeddedSize value ≤
      message.repeatedSize number values :=
    List.single_le_sum (fun _ _ => Nat.zero_le _) _ (List.mem_map_of_mem member)
  simp only [embeddedSize] at part
  omega

theorem feeds_repeated (field : Nat → ν → List β → Option (ν × List β)) (place : List μ → ν)
    (valid : runtime.tag.Valid number)
    (reads : ∀ present,
      field number (place present) = readMap (message.addEntriesFrom present) place)
    {values : List μ} (proper : message.ProperRepeated values)
    (fits : message.repeatedSize number values < runtime.limit) (present : List μ) :
    Feeds runtime.tag field (place present) (message.writeRepeated number values)
      (place (present ++ values)) := by
  refine Feeds.repeated (fun value member present => Feeds.single valid fun rest => ?_) present
  have small := Nat.lt_of_le_of_lt (calculateSize_le_repeated number member) fits
  have found := message.readInto_write message.fresh (proper value member) small rest
  rw [message.fresh_mergeFrom] at found
  rw [reads]
  exact readMap_eq_some.mpr ⟨_, readMap_eq_some.mpr ⟨_, found, rfl⟩, rfl⟩

end Repeated

end Message

/-! A runtime that writes numbers in base 128 and text in UTF-8. -/

namespace Base128

def tag : Code UInt8 Nat :=
  varint.via id (fun number => if 8 ≤ number ∧ number < 2 ^ 32 then some number else none) (by
    intro number found valid viewed
    split at viewed
    · cases viewed
      exact ⟨valid, if_pos ‹_›⟩
    · cases viewed)

def length : Code UInt8 Nat :=
  varint.via id (fun count => if count < 2 ^ 31 then some count else none) (by
    intro count found valid viewed
    split at viewed
    · cases viewed
      exact ⟨valid, if_pos ‹_›⟩
    · cases viewed)

theorem ofNat_signExtend (value : BitVec 32) :
    BitVec.ofNat 32 (value.signExtend 64).toNat = value := by
  rw [BitVec.ofNat_toNat]
  apply BitVec.eq_of_getLsbD_eq
  intro index inside
  have before : index < 64 := by omega
  rw [BitVec.getLsbD_setWidth, BitVec.getLsbD_signExtend]
  simp only [inside, before, decide_true, Bool.true_and, if_true]

/-- A negative number is extended to 64 bits, and its upper half is dropped again. -/
def int32 : Code UInt8 (BitVec 32) :=
  varint.via (fun value => (value.signExtend 64).toNat) (fun number => some (BitVec.ofNat 32 number))
    (by
      intro number found valid viewed
      have bound := (found.signExtend 64).isLt
      exact ⟨Nat.lt_trans bound (by decide), by rw [ofNat_signExtend]⟩)

def string : Code UInt8 String :=
  (Code.delimited length).via (fun text => text.toByteArray.data.toList)
    (fun bytes => String.fromUTF8? ⟨bytes.toArray⟩) (by
      intro bytes found valid viewed
      unfold String.fromUTF8? at viewed
      split at viewed
      · rename_i utf8
        cases viewed
        exact ⟨by simpa [String.fromUTF8] using valid, by simp [String.fromUTF8?, String.fromUTF8, utf8]⟩
      · cases viewed)

theorem fromUTF8?_toByteArray (text : String) :
    String.fromUTF8? ⟨text.toByteArray.data.toList.toArray⟩ = some text := by
  simp [String.fromUTF8?, String.fromUTF8, text.isValidUTF8]

/-- What follows the tag of a field goes by the last three bits of the tag. -/
def content (number : Nat) : Code UInt8 (Nat ⊕ List UInt8) :=
  match number % 8 with
  | 0 => varint.via (Sum.elim id fun _ => 0) (some ∘ Sum.inl) (by
      intro value found valid viewed
      cases viewed
      exact ⟨valid, rfl⟩)
  | 1 => (Code.fixed 8 (by decide)).via (Sum.elim (fun _ => []) id) (some ∘ Sum.inr) (by
      intro value found valid viewed
      cases viewed
      exact ⟨valid, rfl⟩)
  | 2 => (Code.delimited length).via (Sum.elim (fun _ => []) id) (some ∘ Sum.inr) (by
      intro value found valid viewed
      cases viewed
      exact ⟨valid, rfl⟩)
  | 5 => (Code.fixed 4 (by decide)).via (Sum.elim (fun _ => []) id) (some ∘ Sum.inr) (by
      intro value found valid viewed
      cases viewed
      exact ⟨valid, rfl⟩)
  | _ => Code.void

def unknown : UnknownFields UInt8 (List (Nat × (Nat ⊕ List UInt8))) where
  Payload := Nat ⊕ List UInt8
  payload := content
  empty := []
  add store number value := store ++ [(number, value)]
  items store := store
  items_empty := rfl
  items_add store number value := List.perm_append_singleton (number, value) store
  refold store := by
    have snoc : ∀ kept : List (Nat × (Nat ⊕ List UInt8)),
        store.foldl (fun kept item => kept ++ [(item.1, item.2)]) kept = kept ++ store := by
      induction store with
      | nil => simp
      | cons item rest ih =>
          intro kept
          rw [List.foldl_cons, ih, List.append_assoc]
          rfl
    exact snoc []

def runtime : Runtime UInt8 (List (Nat × (Nat ⊕ List UInt8))) where
  tag := tag
  length := length
  string := string
  int32 := int32
  unknown := unknown
  limit := 2 ^ 31
  tag_valid number atLeast below :=
    ⟨Nat.lt_trans below (by decide), if_pos ⟨atLeast, below⟩⟩
  tag_size number short := by
    change (writeGroups 9 number).length = 1
    unfold writeGroups
    rw [if_pos short]
    rfl
  length_valid count small := ⟨Nat.lt_trans small (by decide), if_pos small⟩
  string_valid text small := by
    have short : text.toByteArray.data.toList.length < 2 ^ 31 :=
      Nat.lt_of_le_of_lt (Nat.le_add_left _ _) small
    exact ⟨⟨Nat.lt_trans short (by decide), if_pos short⟩, fromUTF8?_toByteArray text⟩
  int32_valid value :=
    ⟨Nat.lt_trans (value.signExtend 64).isLt (by decide), congrArg some (ofNat_signExtend value)⟩

end Base128

end TaggedMessages
