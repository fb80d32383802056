import ApiContract.Proofs.Number.Rounding

/-!
The rational that a floating point number stands for, and rounding by nearness: no number is nearer
to a fraction than the one it rounds to, and a tie goes to the even mantissa. No two numbers of
different value satisfy this, since between two even mantissas there is always another number.
-/

namespace ApiContract.Binary64

def sign (negative : Bool) : ℚ :=
  if negative then -1 else 1

def value (x : Binary64) : ℚ :=
  sign x.negative * (x.mantissa * 2 ^ x.exponent)

/-- Round to nearest, ties to even: no number is nearer to `q`, and if another one is as near, the
mantissa of `x` is even. -/
structure Nearest (x : Binary64) (q : ℚ) : Prop where
  le : ∀ y : Binary64, |q - x.value| ≤ |q - y.value|
  even : ∀ y : Binary64, y.value ≠ x.value → |q - y.value| = |q - x.value| → x.mantissa % 2 = 0

def opposite (x : Binary64) : Binary64 :=
  ⟨!x.negative, x.mantissa, x.exponent, x.canonical⟩

section Value

variable {x y : Binary64}

@[simp] theorem value_opposite (x : Binary64) : x.opposite.value = -x.value := by
  cases h : x.negative <;> simp [value, opposite, sign, h]

@[simp] theorem opposite_opposite (x : Binary64) : x.opposite.opposite = x := by
  simp [opposite]

theorem abs_value (x : Binary64) : |x.value| = x.mantissa * 2 ^ x.exponent := by
  have hpos : (0 : ℚ) ≤ x.mantissa * 2 ^ x.exponent := by positivity
  cases h : x.negative <;> simp [value, sign, h, abs_of_nonneg hpos]

theorem value_eq_zero_iff : x.value = 0 ↔ x.mantissa = 0 := by
  have hunit : (2 : ℚ) ^ x.exponent ≠ 0 := zpow_ne_zero _ two_ne_zero
  rw [← abs_eq_zero, abs_value]
  simp [hunit]

theorem value_of_nonneg (h : 0 ≤ x.value) : x.value = x.mantissa * 2 ^ x.exponent := by
  rw [← abs_value, abs_of_nonneg h]

theorem eq_of_abs_value (hsign : x.negative = y.negative) (h : |x.value| = |y.value|) : x = y := by
  rw [abs_value, abs_value, ← ratio_value, ← ratio_value] at h
  have hround := ofRatio_congr x.negative x.ratio_den_pos y.ratio_den_pos h
  rw [ofRatio_ratio, hsign, ofRatio_ratio] at hround
  exact Option.some.inj hround

theorem sameValue_iff : x.sameValue y = true ↔ x.value = y.value := by
  simp only [sameValue, isZero, Bool.or_eq_true, decide_eq_true_eq, Bool.and_eq_true, beq_iff_eq,
    ← value_eq_zero_iff]
  constructor
  · rintro (rfl | ⟨hx, hy⟩)
    · rfl
    · rw [hx, hy]
  · intro h
    by_cases hzero : x.value = 0
    · exact .inr ⟨hzero, h ▸ hzero⟩
    · refine .inl (eq_of_abs_value ?_ (congrArg abs h))
      -- opposite signs would make the values opposite, so both zero
      by_contra hsign
      have hneg : x = y.opposite := by
        apply eq_of_abs_value
        · cases hx : x.negative <;> cases hy : y.negative <;> simp_all [opposite]
        · rw [value_opposite, abs_neg, h]
      apply hzero
      have : x.value = -y.value := by rw [hneg, value_opposite]
      linarith

end Value

section Nearest

variable {x y : Binary64} {q : ℚ}

theorem Nearest.opposite (h : x.Nearest q) : x.opposite.Nearest (-q) := by
  have hdist (y : Binary64) : |-q - y.value| = |q - y.opposite.value| := by
    rw [value_opposite, ← abs_neg]
    congr 1
    ring
  constructor
  · intro y
    rw [hdist, hdist, opposite_opposite]
    exact h.le y.opposite
  · intro y hne heq
    rw [hdist, hdist, opposite_opposite] at heq
    apply h.even y.opposite _ heq
    intro hvalue
    apply hne
    rw [value_opposite, ← hvalue, value_opposite, neg_neg]

theorem nearest_of_value_eq (h : x.value = q) : x.Nearest q := by
  constructor
  · intro y
    rw [h, sub_self, abs_zero]
    exact abs_nonneg _
  · intro y hne heq
    rw [h, sub_self, abs_zero, abs_eq_zero, sub_eq_zero] at heq
    exact absurd (heq.symm.trans h.symm) hne

theorem Nearest.congr (h : x.Nearest q) (hvalue : y.value = x.value) : y.Nearest q := by
  have hsame : y = x ∨ y.isZero = true ∧ x.isZero = true := by
    simpa [sameValue] using sameValue_iff.2 hvalue
  rcases hsame with rfl | ⟨hzero, _⟩
  · exact h
  · constructor
    · intro z
      rw [hvalue]
      exact h.le z
    · intro z _ _
      have : y.mantissa = 0 := by simpa [isZero] using hzero
      omega

theorem abs_value_lt (x : Binary64) : |x.value| < 2 ^ 53 * 2 ^ x.exponent := by
  rw [abs_value]
  refine mul_lt_mul_of_pos_right ?_ (zpow_pos two_pos x.exponent)
  exact_mod_cast x.canonical.1

theorem le_abs_value {k : Int} (hk : -1074 ≤ k) (h : k < x.exponent) :
    2 ^ 53 * 2 ^ k ≤ |x.value| := by
  -- a mantissa fills its bits unless the exponent is the least one, so a larger exponent wins
  obtain ⟨-, -, -, hlarge⟩ := x.canonical
  have hmantissa : (2 : ℚ) ^ 52 ≤ x.mantissa := by
    exact_mod_cast hlarge.resolve_right (by omega)
  rw [abs_value]
  calc (2 : ℚ) ^ 53 * 2 ^ k = 2 ^ 52 * 2 ^ (k + 1) := by
        rw [zpow_add_one₀ two_ne_zero]
        ring
    _ ≤ (x.mantissa : ℚ) * 2 ^ x.exponent := by
        gcongr
        · norm_num
        · omega

theorem exists_between_of_nonneg (hx : x.mantissa % 2 = 0) (hy : y.mantissa % 2 = 0)
    (hnonneg : 0 ≤ x.value) (h : x.value < y.value) :
    ∃ z : Binary64, x.value < z.value ∧ z.value < y.value := by
  have hpos : 0 ≤ y.value := hnonneg.trans h.le
  obtain ⟨hfits, hlow, hhigh, hlarge⟩ := x.canonical
  have hnext : Canonical (x.mantissa + 1) x.exponent :=
    ⟨by omega, hlow, hhigh, hlarge.imp_left (by omega)⟩
  let z : Binary64 := ⟨false, x.mantissa + 1, x.exponent, hnext⟩
  have hz : z.value = (x.mantissa + 1) * 2 ^ x.exponent := by
    simp [value, sign, z]
  have hunit : (0 : ℚ) < 2 ^ x.exponent := zpow_pos two_pos x.exponent
  refine ⟨z, ?_, ?_⟩
  · rw [hz, value_of_nonneg hnonneg]
    linarith
  · rcases lt_trichotomy x.exponent y.exponent with hlt | heq | hgt
    · have hsmall : |z.value| < 2 ^ 53 * 2 ^ x.exponent := z.abs_value_lt
      calc z.value ≤ |z.value| := le_abs_self _
        _ < 2 ^ 53 * 2 ^ x.exponent := hsmall
        _ ≤ |y.value| := le_abs_value hlow hlt
        _ = y.value := abs_of_nonneg hpos
    · rw [value_of_nonneg hnonneg, value_of_nonneg hpos, ← heq,
        mul_lt_mul_iff_of_pos_right hunit] at h
      have hmantissa : x.mantissa < y.mantissa := by exact_mod_cast h
      have hstep : x.mantissa + 1 < y.mantissa := by omega
      rw [hz, value_of_nonneg hpos, ← heq, mul_lt_mul_iff_of_pos_right hunit]
      exact_mod_cast hstep
    · have hlarge := le_abs_value y.canonical.2.1 hgt
      have hsmall := y.abs_value_lt
      rw [abs_of_nonneg hnonneg] at hlarge
      rw [abs_of_nonneg hpos] at hsmall
      linarith

theorem exists_between (hx : x.mantissa % 2 = 0) (hy : y.mantissa % 2 = 0)
    (h : x.value < y.value) : ∃ z : Binary64, x.value < z.value ∧ z.value < y.value := by
  rcases le_or_gt 0 x.value with hnonneg | hneg
  · exact exists_between_of_nonneg hx hy hnonneg h
  · rcases lt_or_ge 0 y.value with hpos | hnonpos
    · refine ⟨zero false, ?_⟩
      rw [value_eq_zero_iff.2 (show (zero false).mantissa = 0 from rfl)]
      exact ⟨hneg, hpos⟩
    · obtain ⟨z, hlow, hhigh⟩ := exists_between_of_nonneg (x := y.opposite) (y := x.opposite) hy hx
        (by simpa using hnonpos) (by simpa using h)
      rw [value_opposite] at hlow hhigh
      refine ⟨z.opposite, ?_⟩
      rw [value_opposite]
      constructor <;> linarith

theorem Nearest.value_eq (hx : x.Nearest q) (hy : y.Nearest q) : x.value = y.value := by
  have htie : |q - y.value| = |q - x.value| := le_antisymm (hy.le x) (hx.le y)
  by_contra hne
  have hxeven := hx.even y (Ne.symm hne) htie
  have hyeven := hy.even x hne htie.symm
  -- the fraction is half way between the two, and so nearer to anything that lies between them
  wlog hlt : x.value < y.value generalizing x y
  · exact this hy hx htie.symm (Ne.symm hne) hyeven hxeven
      (lt_of_le_of_ne (not_lt.1 hlt) (Ne.symm hne))
  obtain ⟨z, hlow, hhigh⟩ := exists_between hxeven hyeven hlt
  have hmiddle : q - x.value = y.value - q := by
    rcases abs_eq_abs.1 htie with h | h
    · exact absurd (by linarith) hne
    · linarith
  have hnear : |q - z.value| < |q - x.value| := by
    rw [abs_of_pos (show 0 < q - x.value by linarith), abs_lt]
    constructor <;> linarith
  exact absurd (hx.le z) (not_le.2 hnear)

end Nearest

section Remainder

variable (num : Nat) {den : Nat}

theorem ratio_eq_quotient_add (hden : 0 < den) :
    (num : ℚ) / den = (num / den : Nat) + ((num % den : Nat) : ℚ) / den := by
  have hd : (den : ℚ) ≠ 0 := by exact_mod_cast hden.ne'
  rw [div_eq_iff hd, add_mul, div_mul_cancel₀ _ hd, add_comm]
  exact_mod_cast (Nat.mod_add_div' num den).symm

theorem remainder_lt_half_iff (hden : 0 < den) :
    ((num % den : Nat) : ℚ) / den < 1 / 2 ↔ 2 * (num % den) < den := by
  have hd : (0 : ℚ) < den := by exact_mod_cast hden
  rw [div_lt_div_iff₀ hd two_pos, one_mul, mul_comm]
  exact_mod_cast Iff.rfl

theorem remainder_eq_half_iff (hden : 0 < den) :
    ((num % den : Nat) : ℚ) / den = 1 / 2 ↔ 2 * (num % den) = den := by
  have hd : (den : ℚ) ≠ 0 := by exact_mod_cast hden.ne'
  rw [div_eq_div_iff hd two_ne_zero, one_mul, mul_comm]
  exact_mod_cast Iff.rfl

end Remainder

theorem roundDiv_near (num : Nat) {den : Nat} (hden : 0 < den) :
    |(num : ℚ) / den - roundDiv num den| ≤ 1 / 2 ∧
      (|(num : ℚ) / den - roundDiv num den| = 1 / 2 → roundDiv num den % 2 = 0) := by
  have hnonneg : (0 : ℚ) ≤ ((num % den : Nat) : ℚ) / den := by positivity
  have hlt : ((num % den : Nat) : ℚ) / den < 1 := by
    rw [div_lt_one (by exact_mod_cast hden)]
    exact_mod_cast Nat.mod_lt num hden
  rw [ratio_eq_quotient_add num hden]
  simp only [roundDiv, ← remainder_lt_half_iff num hden, ← remainder_eq_half_iff num hden]
  generalize ((num % den : Nat) : ℚ) / den = part at *
  generalize num / den = whole at *
  split
  · rename_i h
    rw [add_sub_cancel_left, abs_of_nonneg hnonneg]
    rcases h with h | ⟨h, heven⟩
    · exact ⟨h.le, fun heq => absurd heq h.ne⟩
    · exact ⟨h.le, fun _ => heven⟩
  · rename_i h
    rw [not_or, not_lt] at h
    have hdist : |(whole : ℚ) + part - (whole + 1 : Nat)| = 1 - part := by
      push_cast
      rw [abs_sub_comm, abs_of_nonneg (by linarith)]
      ring
    rw [hdist]
    refine ⟨by linarith [h.1], ?_⟩
    intro heq
    have hodd : whole % 2 ≠ 0 := fun heven => h.2 ⟨by linarith, heven⟩
    omega

theorem abs_sub_roundDiv_le (num : Nat) {den : Nat} (hden : 0 < den) (k : Int) :
    |(num : ℚ) / den - roundDiv num den| ≤ |(num : ℚ) / den - k| ∧
      ((k : ℚ) ≠ roundDiv num den →
        |(num : ℚ) / den - k| = |(num : ℚ) / den - roundDiv num den| →
          roundDiv num den % 2 = 0) := by
  obtain ⟨hnear, heven⟩ := roundDiv_near num hden
  by_cases hk : (k : ℚ) = roundDiv num den
  · rw [hk]
    exact ⟨le_rfl, fun hne => absurd rfl hne⟩
  · -- another whole number is at least one away
    have hstep : (1 : ℚ) ≤ |(k : ℚ) - roundDiv num den| := by
      have hne : k - (roundDiv num den : Int) ≠ 0 := by
        intro h
        apply hk
        exact_mod_cast sub_eq_zero.1 h
      exact_mod_cast Int.one_le_abs hne
    have htriangle := abs_sub_le (k : ℚ) ((num : ℚ) / den) (roundDiv num den)
    rw [abs_sub_comm (k : ℚ) ((num : ℚ) / den)] at htriangle
    exact ⟨by linarith, fun _ heq => heven (by linarith)⟩

def unitExponent (num den : Nat) : Int :=
  max (floorLog2 num den - 52) (-1074)

def roundedMantissa (num den : Nat) : Nat :=
  roundDiv (scale 2 (unitExponent num den) num den).1 (scale 2 (unitExponent num den) num den).2

def carried (mantissa : Nat) (exponent : Int) : Nat × Int :=
  if mantissa = 9007199254740992 then (4503599627370496, exponent + 1) else (mantissa, exponent)

theorem carried_value (mantissa : Nat) (exponent : Int) :
    ((carried mantissa exponent).1 : ℚ) * 2 ^ (carried mantissa exponent).2 =
      mantissa * 2 ^ exponent := by
  rw [carried]
  split
  · rename_i h
    rw [h, zpow_add_one₀ two_ne_zero]
    push_cast
    ring
  · rfl

theorem carried_even {mantissa : Nat} {exponent : Int} (h : mantissa % 2 = 0) :
    (carried mantissa exponent).1 % 2 = 0 := by
  rw [carried]
  split
  · exact Nat.mod_eq_zero_of_dvd (by norm_num)
  · exact h

theorem ofRatio_of_pos (negative : Bool) {num den : Nat} (hnum : 0 < num) :
    ofRatio negative num den =
      if h : Canonical (carried (roundedMantissa num den) (unitExponent num den)).1
          (carried (roundedMantissa num den) (unitExponent num den)).2 then
        some ⟨negative, _, _, h⟩
      else none := by
  simp only [ofRatio, hnum.ne', if_false]
  rfl

theorem ofRatio_not (negative : Bool) (num den : Nat) :
    ofRatio (!negative) num den = (ofRatio negative num den).map opposite := by
  rcases Nat.eq_zero_or_pos num with rfl | hnum
  · rfl
  · rw [ofRatio_of_pos _ hnum, ofRatio_of_pos _ hnum]
    split <;> rfl

theorem abs_sub_rounded_le (num : Nat) {den : Nat} (hden : 0 < den) (k : Int) :
    |(num : ℚ) / den - roundedMantissa num den * 2 ^ unitExponent num den| ≤
        |(num : ℚ) / den - k * 2 ^ unitExponent num den| ∧
      ((k : ℚ) ≠ roundedMantissa num den →
        |(num : ℚ) / den - k * 2 ^ unitExponent num den| =
            |(num : ℚ) / den - roundedMantissa num den * 2 ^ unitExponent num den| →
          roundedMantissa num den % 2 = 0) := by
  have hunit : (0 : ℚ) < 2 ^ unitExponent num den := zpow_pos two_pos _
  have hscaled := scale_value 2 Nat.two_pos (unitExponent num den) num den
  rw [Nat.cast_ofNat] at hscaled
  have hdist (a : ℚ) : |(num : ℚ) / den - a * 2 ^ unitExponent num den| =
      |(num : ℚ) / den / 2 ^ unitExponent num den - a| * 2 ^ unitExponent num den := by
    rw [← abs_of_pos hunit, ← abs_mul, abs_of_pos hunit, sub_mul, div_mul_cancel₀ _ hunit.ne']
  have hpos : 0 < (scale 2 (unitExponent num den) num den).2 :=
    scale_den_pos 2 Nat.two_pos (unitExponent num den) hden
  have hnear := abs_sub_roundDiv_le (scale 2 (unitExponent num den) num den).1 hpos k
  rw [hscaled] at hnear
  rw [hdist, hdist]
  refine ⟨mul_le_mul_of_nonneg_right hnear.1 hunit.le, ?_⟩
  intro hne heq
  exact hnear.2 hne (mul_right_cancel₀ hunit.ne' heq)

section OfRatio

variable {num den : Nat} {x y : Binary64}

theorem exists_value_eq_mul {k : Int} (h : k ≤ x.exponent) : ∃ n : Int, x.value = n * 2 ^ k := by
  have hsplit : (2 : ℚ) ^ x.exponent = 2 ^ (x.exponent - k).toNat * 2 ^ k := by
    rw [← zpow_natCast, ← zpow_add₀ two_ne_zero]
    congr 1
    omega
  refine ⟨(if x.negative then -1 else 1) * (x.mantissa * 2 ^ (x.exponent - k).toNat), ?_⟩
  rw [value, sign, hsplit]
  push_cast
  ring

theorem le_ratio (hnum : 0 < num) (hden : 0 < den) (h : -1074 < unitExponent num den) :
    (2 : ℚ) ^ 52 * 2 ^ unitExponent num den ≤ num / den := by
  calc (2 : ℚ) ^ 52 * 2 ^ unitExponent num den = 2 ^ floorLog2 num den := by
        rw [← zpow_natCast, ← zpow_add₀ two_ne_zero]
        congr 1
        rw [unitExponent] at h ⊢
        omega
    _ ≤ (num : ℚ) / den := (floorLog2_spec hnum hden).1

theorem ratio_lt (hnum : 0 < num) (hden : 0 < den) :
    (num : ℚ) / den < 2 ^ 53 * 2 ^ unitExponent num den := by
  calc (num : ℚ) / den < 2 ^ (floorLog2 num den + 1) := (floorLog2_spec hnum hden).2
    _ ≤ 2 ^ (53 + unitExponent num den) := by
        apply zpow_le_zpow_right₀ one_le_two
        rw [unitExponent]
        omega
    _ = 2 ^ 53 * 2 ^ unitExponent num den := by
        rw [zpow_add₀ two_ne_zero]
        rfl

theorem abs_sub_rounded_lt (hnum : 0 < num) (hden : 0 < den)
    (h : y.exponent < unitExponent num den) :
    |(num : ℚ) / den - roundedMantissa num den * 2 ^ unitExponent num den| <
      |(num : ℚ) / den - y.value| := by
  -- a number of a smaller exponent lies below the binade of the fraction
  have hbinade := le_ratio hnum hden (y.canonical.2.1.trans_lt h)
  have hbelow : |y.value| < 2 ^ 52 * 2 ^ unitExponent num den := by
    calc |y.value| < 2 ^ 53 * 2 ^ y.exponent := y.abs_value_lt
      _ ≤ 2 ^ 53 * 2 ^ (unitExponent num den - 1) := by
          gcongr
          · norm_num
          · omega
      _ = 2 ^ 52 * 2 ^ unitExponent num den := by
          rw [zpow_sub_one₀ two_ne_zero]
          ring
  calc |(num : ℚ) / den - roundedMantissa num den * 2 ^ unitExponent num den|
      ≤ |(num : ℚ) / den - (2 ^ 52 : Int) * 2 ^ unitExponent num den| :=
        (abs_sub_rounded_le num hden (2 ^ 52)).1
    _ = num / den - 2 ^ 52 * 2 ^ unitExponent num den := by
        rw [Int.cast_pow, Int.cast_ofNat, abs_of_nonneg (by linarith)]
    _ < num / den - |y.value| := by linarith
    _ ≤ |(num : ℚ) / den - y.value| := by
        refine le_trans ?_ (le_abs_self _)
        linarith [le_abs_self y.value]

theorem ofRatio_eq_some {negative : Bool} (hnum : 0 < num)
    (h : ofRatio negative num den = some x) :
    x.value = sign negative * (roundedMantissa num den * 2 ^ unitExponent num den) ∧
      (roundedMantissa num den % 2 = 0 → x.mantissa % 2 = 0) := by
  rw [ofRatio_of_pos _ hnum] at h
  split at h
  · obtain rfl := Option.some.inj h
    refine ⟨?_, carried_even⟩
    rw [value, carried_value]
  · cases h

theorem nearest_of_ofRatio_false (hden : 0 < den) (h : ofRatio false num den = some x) :
    x.Nearest (num / den) := by
  rcases Nat.eq_zero_or_pos num with rfl | hnum
  · apply nearest_of_value_eq
    rw [ofRatio, if_pos rfl] at h
    rw [← Option.some.inj h, Nat.cast_zero, zero_div, value_eq_zero_iff]
    rfl
  · obtain ⟨hvalue, heven⟩ := ofRatio_eq_some hnum h
    rw [sign, if_neg Bool.false_ne_true, one_mul] at hvalue
    constructor
    · intro y
      rw [hvalue]
      rcases le_or_gt (unitExponent num den) y.exponent with hle | hlt
      · obtain ⟨k, hk⟩ := exists_value_eq_mul hle
        rw [hk]
        exact (abs_sub_rounded_le num hden k).1
      · exact (abs_sub_rounded_lt hnum hden hlt).le
    · intro y hne heq
      apply heven
      rw [hvalue] at hne heq
      rcases le_or_gt (unitExponent num den) y.exponent with hle | hlt
      · obtain ⟨k, hk⟩ := exists_value_eq_mul hle
        rw [hk] at hne heq
        exact (abs_sub_rounded_le num hden k).2 (fun h => hne (by rw [h])) heq
      · exact absurd heq (abs_sub_rounded_lt hnum hden hlt).ne'

theorem nearest_of_ofRatio {negative : Bool} (hden : 0 < den)
    (h : ofRatio negative num den = some x) : x.Nearest (sign negative * (num / den)) := by
  cases negative with
  | false => simpa [sign] using nearest_of_ofRatio_false hden h
  | true =>
    have hopposite : ofRatio false num den = some x.opposite := by
      rw [← Bool.not_true, ofRatio_not, h, Option.map_some]
    simpa [sign] using (nearest_of_ofRatio_false hden hopposite).opposite

theorem roundedMantissa_le (hnum : 0 < num) (hden : 0 < den) :
    roundedMantissa num den ≤ 2 ^ 53 := by
  have hunit : (0 : ℚ) < 2 ^ unitExponent num den := zpow_pos two_pos _
  have hbound := (abs_sub_rounded_le num hden (2 ^ 53)).1
  rw [Int.cast_pow, Int.cast_ofNat, abs_sub_comm _ (2 ^ 53 * _),
    abs_of_pos (sub_pos.2 (ratio_lt hnum hden)), abs_sub_comm] at hbound
  have hle := (le_abs_self _).trans hbound
  rw [sub_le_sub_iff_right, mul_le_mul_iff_of_pos_right hunit] at hle
  exact_mod_cast hle

theorem le_roundedMantissa (hnum : 0 < num) (hden : 0 < den) (h : -1074 < unitExponent num den) :
    2 ^ 52 ≤ roundedMantissa num den := by
  have hunit : (0 : ℚ) < 2 ^ unitExponent num den := zpow_pos two_pos _
  have hbound := (abs_sub_rounded_le num hden (2 ^ 52)).1
  rw [Int.cast_pow, Int.cast_ofNat, abs_of_nonneg (a := _ - 2 ^ 52 * _)
    (sub_nonneg.2 (le_ratio hnum hden h))] at hbound
  have hle := (le_abs_self _).trans hbound
  rw [sub_le_sub_iff_left, mul_le_mul_iff_of_pos_right hunit] at hle
  exact_mod_cast hle

theorem exists_ofRatio (negative : Bool) (hnum : 0 < num) (hden : 0 < den)
    (h : floorLog2 num den ≤ 1022) : ∃ x, ofRatio negative num den = some x := by
  have hcanonical : Canonical (carried (roundedMantissa num den) (unitExponent num den)).1
      (carried (roundedMantissa num den) (unitExponent num den)).2 := by
    have hle := roundedMantissa_le hnum hden
    have hge := le_roundedMantissa hnum hden
    have hlow : -1074 ≤ unitExponent num den := le_max_right _ _
    have hhigh : unitExponent num den ≤ 970 := by
      rw [unitExponent]
      omega
    rw [carried]
    split
    · exact ⟨by norm_num, by omega, by omega, .inl le_rfl⟩
    · rename_i hne
      refine ⟨by omega, hlow, by omega, ?_⟩
      rcases hlow.lt_or_eq with hlt | heq
      · exact .inl (by simpa using hge hlt)
      · exact .inr heq.symm
  rw [ofRatio_of_pos _ hnum, dif_pos hcanonical]
  exact ⟨_, rfl⟩

end OfRatio

end ApiContract.Binary64
