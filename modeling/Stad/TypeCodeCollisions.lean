import Stad.AnalyzerCore
import Stad.BitMixing

/-!
When two names that differ in one unit get the same code. Adding a unit and the
shifts to the left keep two runs apart, but `hash ^= hash >> 6` and the
`hash ^= hash >> 11` of the end bring them together where they are complements. Units
that agree in enough low bits, and short names, are kept apart.
-/

namespace Stad.Utility

open BitMixing

def spreadUnit (hash : BitVec 32) (unit : BitVec 16) : BitVec 32 :=
  let added := hash + unit.zeroExtend 32
  added + added <<< 10

def spreadEnd (hash : BitVec 32) : BitVec 32 := hash + hash <<< 3

/-- Two runs over the same units are about to fold complements, in some round or at the end. -/
def MeetComplements (first second : BitVec 32) : List (BitVec 16) → Prop
  | [] => spreadEnd second = ~~~spreadEnd first
  | unit :: rest => spreadUnit second unit = ~~~spreadUnit first unit ∨
      MeetComplements (mixUnit first unit) (mixUnit second unit) rest

theorem mixUnit_eq_iff (hash hash' : BitVec 32) (unit unit' : BitVec 16) :
    mixUnit hash unit = mixUnit hash' unit' ↔
      hash + unit.zeroExtend 32 = hash' + unit'.zeroExtend 32 ∨
        spreadUnit hash' unit' = ~~~spreadUnit hash unit := by
  have folded := xor_sshiftRight_eq_iff (k := 6) (by omega) (spreadUnit hash unit)
    (spreadUnit hash' unit')
  have spread : spreadUnit hash unit = spreadUnit hash' unit' ↔
      hash + unit.zeroExtend 32 = hash' + unit'.zeroExtend 32 := add_shiftLeft_inj (by omega)
  rw [spread] at folded
  exact folded

theorem scramble_eq_iff (hash hash' : BitVec 32) :
    scramble hash = scramble hash' ↔ hash = hash' ∨ spreadEnd hash' = ~~~spreadEnd hash := by
  have folded := xor_sshiftRight_eq_iff (k := 11) (by omega) (spreadEnd hash) (spreadEnd hash')
  have spread : spreadEnd hash = spreadEnd hash' ↔ hash = hash' := add_shiftLeft_inj (by omega)
  rw [spread] at folded
  exact (add_shiftLeft_inj (by omega)).trans folded

theorem scramble_foldl_eq_iff (rest : List (BitVec 16)) (hash hash' : BitVec 32) :
    scramble (rest.foldl mixUnit hash) = scramble (rest.foldl mixUnit hash') ↔
      hash = hash' ∨ MeetComplements hash hash' rest := by
  induction rest generalizing hash hash' with
  | nil => exact scramble_eq_iff hash hash'
  | cons unit rest ih =>
      rw [List.foldl_cons, List.foldl_cons, ih, mixUnit_eq_iff, BitVec.add_left_inj, or_assoc]
      rfl

theorem zeroExtend_inj {unit unit' : BitVec 16} :
    unit.zeroExtend 32 = unit'.zeroExtend 32 ↔ unit = unit' := by
  constructor
  · intro same
    apply BitVec.eq_of_toNat_eq
    have values := congrArg BitVec.toNat same
    simp only [BitVec.toNat_setWidth] at values
    omega
  · rintro rfl
    rfl

/-- One changed unit changes the code unless the two runs fold complements, when
they read that unit or later. -/
theorem toTypeCode_ne_iff (before after : List (BitVec 16)) {unit unit' : BitVec 16}
    (different : unit ≠ unit') :
    toTypeCode (before ++ unit :: after) ≠ toTypeCode (before ++ unit' :: after) ↔
      ¬(spreadUnit (before.foldl mixUnit 0) unit' = ~~~spreadUnit (before.foldl mixUnit 0) unit ∨
        MeetComplements (mixUnit (before.foldl mixUnit 0) unit)
          (mixUnit (before.foldl mixUnit 0) unit') after) := by
  have apart : before.foldl mixUnit 0 + unit.zeroExtend 32 ≠
      before.foldl mixUnit 0 + unit'.zeroExtend 32 := by
    rw [ne_eq, BitVec.add_right_inj, zeroExtend_inj]
    exact different
  simp only [toTypeCode, List.foldl_append, List.foldl_cons, ne_eq, scramble_foldl_eq_iff,
    mixUnit_eq_iff, apart, false_or]

/-! Units that agree in their low bits. -/

theorem spreadUnit_lowEqual {count : Nat} {hash hash' : BitVec 32} {unit unit' : BitVec 16}
    (same : LowEqual count hash hash') (units : LowEqual count unit unit') (fits : count ≤ 32) :
    LowEqual count (spreadUnit hash unit) (spreadUnit hash' unit') := by
  have extended : LowEqual count (unit.zeroExtend 32) (unit'.zeroExtend 32) := by
    have wide : unit.toNat < 2 ^ 32 := by omega
    have wide' : unit'.toNat < 2 ^ 32 := by omega
    rw [LowEqual, BitVec.toNat_setWidth, BitVec.toNat_setWidth, Nat.mod_eq_of_lt wide,
      Nat.mod_eq_of_lt wide']
    exact units
  exact (same.add extended fits).add_shiftLeft fits 10

theorem mixUnit_lowEqual {count : Nat} {hash hash' : BitVec 32} {unit unit' : BitVec 16}
    (same : LowEqual (count + 6) hash hash') (units : LowEqual (count + 6) unit unit')
    (fits : count + 6 ≤ 32) : LowEqual count (mixUnit hash unit) (mixUnit hash' unit') :=
  (spreadUnit_lowEqual same units fits).fold fits

theorem not_meetComplements_of_lowEqual {rest : List (BitVec 16)} {hash hash' : BitVec 32}
    (same : LowEqual (6 * rest.length + 1) hash hash') (fits : 6 * rest.length + 1 ≤ 32) :
    ¬MeetComplements hash hash' rest := by
  induction rest generalizing hash hash' with
  | nil => exact (same.add_shiftLeft fits 3).ne_not (by decide) (by decide)
  | cons unit rest ih =>
      rw [List.length_cons] at same fits
      rintro (here | later)
      · exact (spreadUnit_lowEqual same rfl fits).ne_not (by omega) (by decide) here
      · have fewer : 6 * (rest.length + 1) + 1 = 6 * rest.length + 1 + 6 := by omega
        rw [fewer] at same fits
        exact ih (mixUnit_lowEqual same rfl fits) (by omega) later

/-! Short names. -/

def weightFrom (sum : Nat) : List (BitVec 16) → Nat
  | [] => sum
  | unit :: rest => weightFrom (1042 * sum + unit.toNat) rest

/-- What a name comes to when its units are the digits of a number. -/
def weight (name : List (BitVec 16)) : Nat := weightFrom 0 name

theorem le_weightFrom (rest : List (BitVec 16)) (sum : Nat) : sum ≤ weightFrom sum rest := by
  induction rest generalizing sum with
  | nil => exact Nat.le_refl sum
  | cons unit rest ih => exact Nat.le_trans (by omega) (ih (1042 * sum + unit.toNat))

theorem weightFrom_append (before after : List (BitVec 16)) (sum : Nat) :
    weightFrom sum (before ++ after) = weightFrom (weightFrom sum before) after := by
  induction before generalizing sum with
  | nil => rfl
  | cons unit rest ih => exact ih (1042 * sum + unit.toNat)

theorem toNat_spreadUnit {hash : BitVec 32} {unit : BitVec 16}
    (small : hash.toNat + unit.toNat < 1000000) :
    (spreadUnit hash unit).toNat = 1025 * (hash.toNat + unit.toNat) := by
  have added : (hash + unit.zeroExtend 32).toNat = hash.toNat + unit.toNat := by
    rw [BitVec.toNat_add, BitVec.toNat_setWidth]
    omega
  simp only [spreadUnit, toNat_add_shiftLeft, added]
  omega

theorem toNat_mixUnit_le (hash : BitVec 32) (unit : BitVec 16)
    (small : hash.toNat + unit.toNat < 1000000) :
    (mixUnit hash unit).toNat ≤ 1042 * (hash.toNat + unit.toNat) := by
  have spread := toNat_spreadUnit small
  have folded : (mixUnit hash unit).toNat ≤ _ :=
    toNat_fold_le (x := spreadUnit hash unit) (by omega) 6
  omega

theorem toNat_foldl_le (before : List (BitVec 16)) (hash : BitVec 32) {sum : Nat}
    (bounded : hash.toNat ≤ 1042 * sum) (small : weightFrom sum before < 1000000) :
    (before.foldl mixUnit hash).toNat ≤ 1042 * weightFrom sum before := by
  induction before generalizing hash sum with
  | nil => exact bounded
  | cons unit rest ih =>
      have below := Nat.lt_of_le_of_lt (le_weightFrom rest (1042 * sum + unit.toNat)) small
      have mixed := toNat_mixUnit_le hash unit (by omega)
      have grown : (mixUnit hash unit).toNat ≤ 1042 * (1042 * sum + unit.toNat) := by omega
      exact ih (mixUnit hash unit) grown small

theorem toNat_spreadEnd (hash : BitVec 32) :
    (spreadEnd hash).toNat = hash.toNat * 9 % 4294967296 := toNat_add_shiftLeft hash 3

theorem spreadEnd_ne_not {hash hash' : BitVec 32} (small : hash.toNat < 1042000000)
    (small' : hash'.toNat < 1042000000) : spreadEnd hash' ≠ ~~~spreadEnd hash := by
  intro complements
  have values := congrArg BitVec.toNat complements
  rw [BitVec.toNat_not, toNat_spreadEnd, toNat_spreadEnd] at values
  omega

theorem spreadUnit_ne_not {hash hash' : BitVec 32} {unit unit' : BitVec 16}
    (small : hash.toNat + unit.toNat < 1000000) (small' : hash'.toNat + unit'.toNat < 1000000) :
    spreadUnit hash' unit' ≠ ~~~spreadUnit hash unit := by
  intro complements
  have values := congrArg BitVec.toNat complements
  rw [BitVec.toNat_not, toNat_spreadUnit small, toNat_spreadUnit small'] at values
  omega

theorem not_meetComplements_of_small {rest : List (BitVec 16)} {hash hash' : BitVec 32}
    {sum sum' : Nat} (bounded : hash.toNat ≤ 1042 * sum) (bounded' : hash'.toNat ≤ 1042 * sum')
    (small : weightFrom sum rest < 1000000) (small' : weightFrom sum' rest < 1000000) :
    ¬MeetComplements hash hash' rest := by
  induction rest generalizing hash hash' sum sum' with
  | nil =>
      rw [weightFrom] at small small'
      exact spreadEnd_ne_not (by omega) (by omega)
  | cons unit rest ih =>
      have below := Nat.lt_of_le_of_lt (le_weightFrom rest (1042 * sum + unit.toNat)) small
      have below' := Nat.lt_of_le_of_lt (le_weightFrom rest (1042 * sum' + unit.toNat)) small'
      rintro (here | later)
      · exact spreadUnit_ne_not (by omega) (by omega) here
      · have mixed := toNat_mixUnit_le hash unit (by omega)
        have mixed' := toNat_mixUnit_le hash' unit (by omega)
        have grown : (mixUnit hash unit).toNat ≤ 1042 * (1042 * sum + unit.toNat) := by omega
        have grown' : (mixUnit hash' unit).toNat ≤ 1042 * (1042 * sum' + unit.toNat) := by omega
        exact ih grown grown' small small' later

/-- The two units agree in more low bits than the folds behind them use up, or both names
are short. -/
def KeepsApart (before : List (BitVec 16)) (unit unit' : BitVec 16) (after : List (BitVec 16)) :
    Prop :=
  unit.toNat ≡ unit'.toNat [MOD 2 ^ (6 * after.length + 7)] ∨
    weight (before ++ unit :: after) < 1000000 ∧ weight (before ++ unit' :: after) < 1000000

theorem toTypeCode_ne_of_lowEqual {before after : List (BitVec 16)} {unit unit' : BitVec 16}
    (different : unit ≠ unit')
    (agree : unit.toNat ≡ unit'.toNat [MOD 2 ^ (6 * after.length + 7)]) :
    toTypeCode (before ++ unit :: after) ≠ toTypeCode (before ++ unit' :: after) := by
  have fits : 6 * after.length + 7 ≤ 32 := by
    by_contra long
    have values : unit.toNat ≡ unit'.toNat [MOD 2 ^ 32] :=
      LowEqual.mono (x := unit) (y := unit') agree (by omega)
    refine different (BitVec.eq_of_toNat_eq ?_)
    rwa [Nat.ModEq, Nat.mod_eq_of_lt (by omega), Nat.mod_eq_of_lt (by omega)] at values
  rw [toTypeCode_ne_iff before after different]
  rintro (here | later)
  · exact (spreadUnit_lowEqual rfl agree fits).ne_not (by omega) (by decide) here
  · exact not_meetComplements_of_lowEqual (mixUnit_lowEqual rfl agree fits) (by omega) later

theorem toTypeCode_ne_of_weight {before after : List (BitVec 16)} {unit unit' : BitVec 16}
    (different : unit ≠ unit') (small : weight (before ++ unit :: after) < 1000000)
    (small' : weight (before ++ unit' :: after) < 1000000) :
    toTypeCode (before ++ unit :: after) ≠ toTypeCode (before ++ unit' :: after) := by
  rw [weight, weightFrom_append, weightFrom] at small small'
  generalize total : weightFrom 0 before = sum at small small'
  have below := Nat.lt_of_le_of_lt (le_weightFrom after (1042 * sum + unit.toNat)) small
  have below' := Nat.lt_of_le_of_lt (le_weightFrom after (1042 * sum + unit'.toNat)) small'
  have bounded := toNat_foldl_le before 0 (Nat.zero_le (1042 * 0)) (by omega)
  rw [total] at bounded
  have mixed := toNat_mixUnit_le (before.foldl mixUnit 0) unit (by omega)
  have mixed' := toNat_mixUnit_le (before.foldl mixUnit 0) unit' (by omega)
  rw [toTypeCode_ne_iff before after different]
  rintro (here | later)
  · exact spreadUnit_ne_not (by omega) (by omega) here
  · exact not_meetComplements_of_small (by omega) (by omega) small small' later

example : toTypeCode (utf16 "BNWd3" ++ 0x36 :: []) = toTypeCode (utf16 "BNWd3" ++ 0x76 :: []) := by
  decide

example : toTypeCode (utf16 "AgwY" ++ 0x41 :: utf16 "F") =
    toTypeCode (utf16 "AgwY" ++ 0x1041 :: utf16 "F") := by
  decide

/-! `A47GTA` and `A47GTZ`. -/

end Stad.Utility
