import Mathlib.Data.List.Basic
import Mathlib.Algebra.Order.Group.Nat

/-!
Codes whose words are read off the front of a longer text. Numbers travel in
groups of seven bits, longer items behind their length, and a code for one kind
of item serves for another through a view.
-/

namespace PrefixCodes

/-- Items written so that they can be read off the front of a longer text. -/
structure Code (β α : Type) where
  Valid : α → Prop
  write : α → List β
  size : α → Nat
  read : List β → Option (α × List β)
  size_eq : ∀ item, size item = (write item).length
  read_write : ∀ item, Valid item → ∀ rest, read (write item ++ rest) = some (item, rest)
  read_valid : ∀ {text item rest}, read text = some (item, rest) → Valid item
  read_shorter : ∀ {text item rest}, read text = some (item, rest) → rest.length < text.length
  read_append : ∀ {text item rest}, read text = some (item, rest) →
    ∀ more, read (text ++ more) = some (item, rest ++ more)

/-- A reader that does not look at what follows the part it takes. -/
structure TakesFront {β α : Type} (read : List β → Option (α × List β)) : Prop where
  shrinks : ∀ {text item rest}, read text = some (item, rest) → rest.length ≤ text.length
  append : ∀ {text item rest}, read text = some (item, rest) →
    ∀ more, read (text ++ more) = some (item, rest ++ more)

section Readers

variable {β α μ : Type}

theorem Code.takesFront (code : Code β α) : TakesFront code.read :=
  ⟨fun found => Nat.le_of_lt (code.read_shorter found), code.read_append⟩

def readMap (read : List β → Option (α × List β)) (view : α → μ) (text : List β) :
    Option (μ × List β) :=
  (read text).map fun found => (view found.1, found.2)

theorem readMap_eq_some {read : List β → Option (α × List β)} {view : α → μ} {text rest : List β}
    {result : μ} : readMap read view text = some (result, rest) ↔
      ∃ item, read text = some (item, rest) ∧ view item = result := by
  simp [readMap]

theorem TakesFront.map {read : List β → Option (α × List β)} (front : TakesFront read)
    (view : α → μ) : TakesFront (readMap read view) := by
  constructor
  · intro text item rest found
    obtain ⟨inner, found, _⟩ := readMap_eq_some.mp found
    exact front.shrinks found
  · intro text item rest found more
    obtain ⟨inner, found, same⟩ := readMap_eq_some.mp found
    exact readMap_eq_some.mpr ⟨inner, front.append found more, same⟩

theorem Code.readMap_write (code : Code β α) (view : α → μ) {item : α} (valid : code.Valid item)
    (rest : List β) : readMap code.read view (code.write item ++ rest) = some (view item, rest) :=
  readMap_eq_some.mpr ⟨item, code.read_write item valid rest, rfl⟩

end Readers

/-! Codes made of other codes. -/

namespace Code

variable {β α γ : Type}

def via (code : Code β α) (put : γ → α) (view : α → Option γ)
    (back : ∀ {item found}, code.Valid item → view item = some found →
      code.Valid (put found) ∧ view (put found) = some found) : Code β γ where
  Valid item := code.Valid (put item) ∧ view (put item) = some item
  write item := code.write (put item)
  size item := code.size (put item)
  read text := (code.read text).bind fun found => (view found.1).map fun item => (item, found.2)
  size_eq item := code.size_eq (put item)
  read_write := by
    rintro item ⟨valid, viewed⟩ rest
    simp [code.read_write (put item) valid rest, viewed]
  read_valid := by
    intro text item rest found
    simp only [Option.bind_eq_some_iff, Option.map_eq_some_iff, Prod.mk.injEq] at found
    obtain ⟨⟨inner, left⟩, read, viewed, view, rfl, _⟩ := found
    exact back (code.read_valid read) view
  read_shorter := by
    intro text item rest found
    simp only [Option.bind_eq_some_iff, Option.map_eq_some_iff, Prod.mk.injEq] at found
    obtain ⟨⟨inner, left⟩, read, viewed, _, _, rfl⟩ := found
    exact code.read_shorter read
  read_append := by
    intro text item rest found more
    simp only [Option.bind_eq_some_iff, Option.map_eq_some_iff, Prod.mk.injEq] at found ⊢
    obtain ⟨⟨inner, left⟩, read, viewed, view, same, rfl⟩ := found
    exact ⟨_, code.read_append read more, viewed, view, same, rfl⟩

def fixed (count : Nat) (positive : 0 < count) : Code β (List β) where
  Valid item := item.length = count
  write item := item
  size item := item.length
  read text := if text.length < count then none else some (text.take count, text.drop count)
  size_eq _ := rfl
  read_write := by
    rintro item rfl rest
    simp
  read_valid := by
    intro text item rest found
    split at found
    · cases found
    · cases found
      rw [List.length_take]
      omega
  read_shorter := by
    intro text item rest found
    split at found
    · cases found
    · cases found
      rw [List.length_drop]
      omega
  read_append := by
    intro text item rest found more
    split at found
    · cases found
    · rename_i enough
      cases found
      have long : ¬ (text ++ more).length < count := by
        rw [List.length_append]
        omega
      have before : count ≤ text.length := by omega
      rw [if_neg long, List.take_append_of_le_length before, List.drop_append_of_le_length before]

def delimited (length : Code β Nat) : Code β (List β) where
  Valid item := length.Valid item.length
  write item := length.write item.length ++ item
  size item := length.size item.length + item.length
  read text := (length.read text).bind fun counted =>
    if counted.2.length < counted.1 then none
    else some (counted.2.take counted.1, counted.2.drop counted.1)
  size_eq := by
    intro item
    rw [List.length_append, length.size_eq]
  read_write := by
    intro item valid rest
    simp [length.read_write item.length valid]
  read_valid := by
    intro text item rest found
    obtain ⟨⟨count, after⟩, counted, found⟩ := Option.bind_eq_some_iff.mp found
    split at found
    · cases found
    · rename_i enough
      cases found
      have taken : (after.take count).length = count := by
        simp only at enough
        rw [List.length_take]
        omega
      rw [taken]
      exact length.read_valid counted
  read_shorter := by
    intro text item rest found
    obtain ⟨⟨count, after⟩, counted, found⟩ := Option.bind_eq_some_iff.mp found
    split at found
    · cases found
    · cases found
      have shorter : after.length < text.length := length.read_shorter counted
      simp only [List.length_drop]
      omega
  read_append := by
    intro text item rest found more
    obtain ⟨⟨count, after⟩, counted, found⟩ := Option.bind_eq_some_iff.mp found
    split at found
    · cases found
    · rename_i enough
      cases found
      have before : count ≤ after.length := by
        simp only at enough
        omega
      have long : ¬ (after ++ more).length < count := by
        rw [List.length_append]
        omega
      simp only [length.read_append counted more, Option.bind_some]
      rw [if_neg long, List.take_append_of_le_length before, List.drop_append_of_le_length before]

def void : Code β α where
  Valid _ := False
  write _ := []
  size _ := 0
  read _ := none
  size_eq _ := rfl
  read_write := by simp
  read_valid := by simp
  read_shorter := by simp
  read_append := by simp

end Code

/-! Numbers in groups of seven bits, the lowest first; all but the last are marked. -/

def writeGroups : Nat → Nat → List UInt8
  | 0, number => [UInt8.ofNat number]
  | more + 1, number =>
      if number < 128 then [UInt8.ofNat number]
      else UInt8.ofNat (number % 128 + 128) :: writeGroups more (number / 128)

def readGroups : Nat → List UInt8 → Option (Nat × List UInt8)
  | _, [] => none
  | 0, group :: rest => if group.toNat < 128 then some (group.toNat, rest) else none
  | more + 1, group :: rest =>
      if group.toNat < 128 then some (group.toNat, rest)
      else (readGroups more rest).map fun found =>
        (group.toNat - 128 + 128 * found.1, found.2)

theorem toNat_ofNat_of_lt {number : Nat} (small : number < 256) :
    (UInt8.ofNat number).toNat = number := by
  rw [UInt8.toNat_ofNat']
  exact Nat.mod_eq_of_lt small

theorem readGroups_writeGroups (more number : Nat) (small : number < 128 ^ (more + 1))
    (rest : List UInt8) :
    readGroups more (writeGroups more number ++ rest) = some (number, rest) := by
  induction more generalizing number with
  | zero =>
      have byte := toNat_ofNat_of_lt (show number < 256 by omega)
      simp only [writeGroups, List.singleton_append, readGroups, byte]
      rw [if_pos (by omega)]
  | succ more ih =>
      unfold writeGroups
      split
      · rename_i last
        have byte := toNat_ofNat_of_lt (show number < 256 by omega)
        simp only [List.singleton_append, readGroups, byte]
        rw [if_pos last]
      · have byte := toNat_ofNat_of_lt (show number % 128 + 128 < 256 by omega)
        have higher : number / 128 < 128 ^ (more + 1) := by
          rw [Nat.div_lt_iff_lt_mul (by decide)]
          rw [pow_succ] at small
          exact small
        simp only [List.cons_append, readGroups, byte, ih (number / 128) higher, Option.map_some]
        rw [if_neg (by omega)]
        congr 2
        omega

theorem readGroups_front (more : Nat) {text rest : List UInt8} {number : Nat}
    (found : readGroups more text = some (number, rest)) :
    number < 128 ^ (more + 1) ∧ rest.length < text.length ∧
      ∀ after, readGroups more (text ++ after) = some (number, rest ++ after) := by
  induction more generalizing text rest number with
  | zero =>
      cases text with
      | nil => simp [readGroups] at found
      | cons group left =>
          simp only [readGroups] at found
          split at found
          · rename_i small
            cases found
            refine ⟨by simpa using small, by simp, fun after => ?_⟩
            simp [readGroups, small]
          · cases found
  | succ more ih =>
      cases text with
      | nil => simp [readGroups] at found
      | cons group left =>
          simp only [readGroups] at found
          split at found
          · rename_i small
            cases found
            have enough : 128 ≤ 128 ^ (more + 1 + 1) := Nat.le_self_pow (by omega) 128
            refine ⟨by omega, by simp, fun after => ?_⟩
            simp [readGroups, small]
          · rename_i marked
            obtain ⟨⟨inner, left'⟩, read, same⟩ := Option.map_eq_some_iff.mp found
            cases same
            obtain ⟨bound, shorter, longer⟩ := ih read
            have byte := group.toNat_lt
            refine ⟨?_, by simp only [List.length_cons]; omega, fun after => ?_⟩
            · rw [pow_succ]
              omega
            · simp [readGroups, marked, longer after]

def varint : Code UInt8 Nat where
  Valid number := number < 128 ^ 10
  write := writeGroups 9
  size number := (writeGroups 9 number).length
  read := readGroups 9
  size_eq _ := rfl
  read_write number small rest := readGroups_writeGroups 9 number small rest
  read_valid found := (readGroups_front 9 found).1
  read_shorter found := (readGroups_front 9 found).2.1
  read_append found := (readGroups_front 9 found).2.2

end PrefixCodes
