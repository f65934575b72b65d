import Mathlib.Data.Nat.ModEq
import Mathlib.Data.Nat.Prime.Basic

/-!
Steps of hash functions on machine words. Adding a word shifted to the left keeps
words apart. Folding in a word shifted to the right with its sign does not: a word
and its complement shift to complements, and so they come out the same. Words that
agree in low bits still do after such steps, in fewer of them after a fold.
-/

namespace BitMixing

variable {w k : Nat}

theorem toNat_add_shiftLeft (x : BitVec w) (k : Nat) :
    (x + x <<< k).toNat = x.toNat * (1 + 2 ^ k) % 2 ^ w := by
  rw [BitVec.toNat_add, BitVec.toNat_shiftLeft, Nat.shiftLeft_eq, Nat.add_mod_mod, Nat.mul_add,
    Nat.mul_one]

theorem add_shiftLeft_inj (positive : 0 < k) {x y : BitVec w} :
    x + x <<< k = y + y <<< k ↔ x = y := by
  constructor
  · intro same
    have products : x.toNat * (1 + 2 ^ k) ≡ y.toNat * (1 + 2 ^ k) [MOD 2 ^ w] := by
      rw [Nat.ModEq, ← toNat_add_shiftLeft, ← toNat_add_shiftLeft, same]
    have odd : Nat.Coprime (2 ^ w) (1 + 2 ^ k) := by
      apply Nat.Coprime.pow_left
      rw [Nat.coprime_two_left]
      exact Odd.add_even odd_one ((Nat.even_pow.mpr ⟨even_two, by omega⟩))
    have residues := Nat.ModEq.cancel_right_of_coprime odd products
    rw [Nat.ModEq, Nat.mod_eq_of_lt x.isLt, Nat.mod_eq_of_lt y.isLt] at residues
    exact BitVec.eq_of_toNat_eq residues
  · rintro rfl
    rfl

theorem getLsbD_eq_msb (positive : 0 < k) {x : BitVec w} (fixed : x = x.sshiftRight k) :
    ∀ distance i, w ≤ i + distance → i < w → x.getLsbD i = x.msb := by
  intro distance
  induction distance with
  | zero => omega
  | succ distance ih =>
      intro i near bound
      have bit := congrArg (BitVec.getLsbD · i) fixed
      simp only [BitVec.getLsbD_sshiftRight] at bit
      by_cases inside : k + i < w
      · rw [bit, if_pos inside, ih (k + i) (by omega) inside]
        simp [bound]
      · rw [bit, if_neg inside]
        simp [bound]

theorem eq_sshiftRight_iff (positive : 0 < k) (x : BitVec w) :
    x = x.sshiftRight k ↔ x = 0#w ∨ x = BitVec.allOnes w := by
  constructor
  · intro fixed
    have bits : ∀ i, i < w → x.getLsbD i = x.msb :=
      fun i bound => getLsbD_eq_msb positive fixed w i (by omega) bound
    cases sign : x.msb with
    | false =>
        left
        apply BitVec.eq_of_getLsbD_eq
        intro i bound
        rw [bits i bound, sign, BitVec.getLsbD_zero]
    | true =>
        right
        apply BitVec.eq_of_getLsbD_eq
        intro i bound
        rw [bits i bound, sign, BitVec.getLsbD_allOnes, decide_eq_true bound]
  · rintro (rfl | rfl)
    · rw [BitVec.zero_sshiftRight]
    · rw [← BitVec.not_zero, ← BitVec.not_sshiftRight, BitVec.zero_sshiftRight]

theorem xor_eq_xor_iff (a b c d : BitVec w) : a ^^^ b = c ^^^ d ↔ a ^^^ c = b ^^^ d := by
  have regrouped : a ^^^ b ^^^ (c ^^^ d) = a ^^^ c ^^^ (b ^^^ d) := by ac_rfl
  rw [← BitVec.xor_eq_zero_iff, regrouped, BitVec.xor_eq_zero_iff]

theorem xor_eq_allOnes_iff (x y : BitVec w) : x ^^^ y = BitVec.allOnes w ↔ y = ~~~x := by
  have own : x ^^^ ~~~x = BitVec.allOnes w := by
    rw [← BitVec.not_xor_right, BitVec.xor_self, BitVec.not_zero]
  rw [← own, BitVec.xor_right_inj]

/-- The words that a signed shift and fold merges are the complements. -/
theorem xor_sshiftRight_eq_iff (positive : 0 < k) (x y : BitVec w) :
    x ^^^ x.sshiftRight k = y ^^^ y.sshiftRight k ↔ x = y ∨ y = ~~~x := by
  rw [xor_eq_xor_iff, ← BitVec.sshiftRight_xor_distrib, eq_sshiftRight_iff positive,
    BitVec.xor_eq_zero_iff, xor_eq_allOnes_iff]

/-! Words that agree in their low bits. -/

def LowEqual (count : Nat) (x y : BitVec w) : Prop := x.toNat ≡ y.toNat [MOD 2 ^ count]

variable {count : Nat} {x y x' y' : BitVec w}

theorem lowEqual_iff : LowEqual count x y ↔ ∀ i < count, x.getLsbD i = y.getLsbD i := by
  constructor
  · intro same i inside
    have bits := congrArg (Nat.testBit · i) same
    simpa [inside, BitVec.testBit_toNat] using bits
  · intro bits
    refine Nat.eq_of_testBit_eq fun i => ?_
    by_cases inside : i < count
    · simpa [inside, BitVec.testBit_toNat] using bits i inside
    · simp [inside]

theorem LowEqual.mono {fewer : Nat} (same : LowEqual count x y) (le : fewer ≤ count) :
    LowEqual fewer x y :=
  Nat.ModEq.of_dvd (Nat.pow_dvd_pow 2 le) same

theorem LowEqual.add (same : LowEqual count x y) (same' : LowEqual count x' y')
    (fits : count ≤ w) : LowEqual count (x + x') (y + y') := by
  have divides : 2 ^ count ∣ 2 ^ w := Nat.pow_dvd_pow 2 fits
  rw [LowEqual, Nat.ModEq, BitVec.toNat_add, BitVec.toNat_add, Nat.mod_mod_of_dvd _ divides,
    Nat.mod_mod_of_dvd _ divides]
  exact Nat.ModEq.add same same'

theorem LowEqual.add_shiftLeft (same : LowEqual count x y) (fits : count ≤ w) (k : Nat) :
    LowEqual count (x + x <<< k) (y + y <<< k) := by
  have divides : 2 ^ count ∣ 2 ^ w := Nat.pow_dvd_pow 2 fits
  rw [LowEqual, Nat.ModEq, toNat_add_shiftLeft, toNat_add_shiftLeft, Nat.mod_mod_of_dvd _ divides,
    Nat.mod_mod_of_dvd _ divides]
  exact Nat.ModEq.mul_right _ same

theorem LowEqual.fold (same : LowEqual (count + k) x y) (fits : count + k ≤ w) :
    LowEqual count (x ^^^ x.sshiftRight k) (y ^^^ y.sshiftRight k) := by
  rw [lowEqual_iff] at same ⊢
  intro i inside
  have here := same i (by omega)
  have above := same (k + i) (by omega)
  have bound : k + i < w := by omega
  simp only [BitVec.getLsbD_xor, BitVec.getLsbD_sshiftRight, bound, if_true, here, above]

theorem LowEqual.ne_not (same : LowEqual count x y) (positive : 0 < count) (fits : 0 < w) :
    y ≠ ~~~x := by
  rintro rfl
  have bit := lowEqual_iff.mp same 0 positive
  simp [fits] at bit

/-! Small words: the sign bit is free, and a fold adds little. -/

theorem xor_le_add (a b : Nat) : a ^^^ b ≤ a + b := by
  induction a using Nat.strongRecOn generalizing b with
  | ind a ih =>
      rcases Nat.eq_zero_or_pos a with rfl | positive
      · simp
      · have upper := ih (a / 2) (Nat.div_lt_self positive (by decide)) (b / 2)
        rw [← Nat.xor_div_two] at upper
        have last := Nat.xor_mod_two_eq_one (a := a) (b := b)
        omega

theorem toNat_fold_le (small : 2 * x.toNat < 2 ^ w) (k : Nat) :
    (x ^^^ x.sshiftRight k).toNat ≤ x.toNat + x.toNat / 2 ^ k := by
  have positive : x.msb = false := BitVec.msb_eq_false_iff_two_mul_lt.mpr small
  rw [BitVec.sshiftRight_eq_of_msb_false positive, BitVec.toNat_xor, BitVec.toNat_ushiftRight,
    Nat.shiftRight_eq_div_pow]
  exact xor_le_add _ _

end BitMixing
