import ApiContract.Number.Shortest
import Mathlib

namespace ApiContract

namespace Binary64

theorem zpow_eq_div {b : ℚ} (hb : b ≠ 0) (power : Int) :
    b ^ power = b ^ power.toNat / b ^ (-power).toNat := by
  rw [← zpow_natCast, ← zpow_natCast, ← zpow_sub₀ hb]
  congr 1
  omega

theorem scale_value (base : Nat) (hbase : 0 < base) (power : Int) (num den : Nat) :
    ((scale base power num den).1 : ℚ) / (scale base power num den).2 =
      num / den / (base : ℚ) ^ power := by
  have hb : (base : ℚ) ≠ 0 := by positivity
  simp only [scale, Nat.pow_eq, zpow_eq_div hb]
  push_cast
  field_simp

theorem scale_den_pos (base : Nat) (hbase : 0 < base) (power : Int) {num den : Nat}
    (hden : 0 < den) : 0 < (scale base power num den).2 := by
  simp only [scale, Nat.pow_eq]
  positivity

theorem scale_mul (base : Nat) (power : Int) (num den k : Nat) :
    scale base power (num * k) (den * k) =
      ((scale base power num den).1 * k, (scale base power num den).2 * k) := by
  simp only [scale, Nat.mul_right_comm]

theorem roundDiv_mul (num den : Nat) {k : Nat} (hk : 0 < k) :
    roundDiv (num * k) (den * k) = roundDiv num den := by
  have hlt : 2 * (num % den * k) < den * k ↔ 2 * (num % den) < den := by
    rw [← Nat.mul_assoc]
    exact Nat.mul_lt_mul_right hk
  have heq : 2 * (num % den * k) = den * k ↔ 2 * (num % den) = den := by
    rw [← Nat.mul_assoc]
    exact Nat.mul_left_inj hk.ne'
  simp only [roundDiv, Nat.mul_div_mul_right _ _ hk, Nat.mul_mod_mul_right, hlt, heq]

theorem roundDiv_eq_or (num den : Nat) :
    roundDiv num den = num / den ∨ roundDiv num den = num / den + 1 := by
  simp only [roundDiv]
  split
  · exact .inl rfl
  · exact .inr rfl

theorem roundDiv_mul_self (m : Nat) {den : Nat} (hden : 0 < den) : roundDiv (m * den) den = m := by
  simp [roundDiv, Nat.mul_div_cancel _ hden, hden]

theorem roundDiv_eq_zero {num den : Nat} (h : 2 * num < den) : roundDiv num den = 0 := by
  have hlt : num < den := by omega
  simp [roundDiv, Nat.div_eq_of_lt hlt, Nat.mod_eq_of_lt hlt, h]

theorem floorLog2_spec {num den : Nat} (hnum : 0 < num) (hden : 0 < den) :
    (2 : ℚ) ^ floorLog2 num den ≤ num / den ∧ (num : ℚ) / den < 2 ^ (floorLog2 num den + 1) := by
  have hd : (0 : ℚ) < den := by positivity
  have two_pos : (0 : ℚ) < 2 := by norm_num
  have hlow {n : Nat} (hn : 0 < n) : (2 : ℚ) ^ (n.log2 : Int) ≤ n := by
    rw [zpow_natCast]
    exact_mod_cast Nat.log2_self_le hn.ne'
  have hhigh (n : Nat) : (n : ℚ) ≤ 2 ^ ((n.log2 : Int) + 1) := by
    rw [← Nat.cast_succ, zpow_natCast]
    exact_mod_cast (Nat.lt_log2_self (n := n)).le
  have hhigh' : (num : ℚ) < 2 ^ ((num.log2 : Int) + 1) := by
    rw [← Nat.cast_succ, zpow_natCast]
    exact_mod_cast Nat.lt_log2_self (n := num)
  generalize hguess : (num.log2 - den.log2 : Int) = guess
  -- the quotient lies between `2 ^ (guess - 1)` and `2 ^ (guess + 1)`
  have habove : (2 : ℚ) ^ (guess - 1) ≤ num / den := by
    rw [le_div_iff₀ hd]
    calc (2 : ℚ) ^ (guess - 1) * den ≤ 2 ^ (guess - 1) * 2 ^ ((den.log2 : Int) + 1) :=
          mul_le_mul_of_nonneg_left (hhigh den) (zpow_pos two_pos _).le
      _ = 2 ^ (num.log2 : Int) := by
          rw [← zpow_add₀ two_ne_zero]
          congr 1
          omega
      _ ≤ num := hlow hnum
  have hbelow : (num : ℚ) / den < 2 ^ (guess + 1) := by
    rw [div_lt_iff₀ hd]
    calc (num : ℚ) < 2 ^ ((num.log2 : Int) + 1) := hhigh'
      _ = 2 ^ (guess + 1) * 2 ^ (den.log2 : Int) := by
          rw [← zpow_add₀ two_ne_zero]
          congr 1
          omega
      _ ≤ 2 ^ (guess + 1) * den := mul_le_mul_of_nonneg_left (hlow hden) (zpow_pos two_pos _).le
  have htest : (scale 2 guess num den).1 < (scale 2 guess num den).2 ↔
      (num : ℚ) / den < 2 ^ guess := by
    have hpos : (0 : ℚ) < (scale 2 guess num den).2 := by
      exact_mod_cast scale_den_pos 2 Nat.two_pos guess hden
    have hvalue := scale_value 2 Nat.two_pos guess num den
    push_cast at hvalue
    rw [← div_lt_one (zpow_pos two_pos guess), ← hvalue, div_lt_one hpos]
    exact_mod_cast Iff.rfl
  simp only [floorLog2, hguess]
  split
  · rename_i h
    refine ⟨habove, ?_⟩
    rw [sub_add_cancel]
    exact htest.1 h
  · rename_i h
    exact ⟨not_lt.1 fun hlt => h (htest.2 hlt), hbelow⟩

theorem floorLog2_eq {num den : Nat} (hnum : 0 < num) (hden : 0 < den) {k : Int}
    (hlow : (2 : ℚ) ^ k ≤ num / den) (hhigh : (num : ℚ) / den < 2 ^ (k + 1)) :
    floorLog2 num den = k := by
  obtain ⟨h1, h2⟩ := floorLog2_spec hnum hden
  have h3 := (zpow_lt_zpow_iff_right₀ (one_lt_two (α := ℚ))).1 (hlow.trans_lt h2)
  have h4 := (zpow_lt_zpow_iff_right₀ (one_lt_two (α := ℚ))).1 (h1.trans_lt hhigh)
  omega

theorem floorLog2_mul {num den k : Nat} (hnum : 0 < num) (hden : 0 < den) (hk : 0 < k) :
    floorLog2 (num * k) (den * k) = floorLog2 num den := by
  obtain ⟨h1, h2⟩ := floorLog2_spec hnum hden
  have hvalue : ((num * k : Nat) : ℚ) / (den * k : Nat) = num / den := by
    push_cast
    field_simp
  exact floorLog2_eq (by positivity) (by positivity) (hvalue ▸ h1) (hvalue ▸ h2)

theorem ofRatio_mul (negative : Bool) (num : Nat) {den k : Nat} (hden : 0 < den) (hk : 0 < k) :
    ofRatio negative (num * k) (den * k) = ofRatio negative num den := by
  rcases Nat.eq_zero_or_pos num with rfl | hnum
  · simp [ofRatio]
  · simp only [ofRatio, Nat.mul_eq_zero, hnum.ne', hk.ne', or_self, if_false,
      floorLog2_mul hnum hden hk, scale_mul, roundDiv_mul _ _ hk]

theorem ofRatio_congr (negative : Bool) {num den num' den' : Nat} (hden : 0 < den)
    (hden' : 0 < den') (h : (num : ℚ) / den = num' / den') :
    ofRatio negative num den = ofRatio negative num' den' := by
  have hcross : num * den' = num' * den := by
    rw [div_eq_div_iff (by positivity) (by positivity)] at h
    exact_mod_cast h
  rw [← ofRatio_mul negative num hden hden', ← ofRatio_mul negative num' hden' hden, hcross,
    Nat.mul_comm den den']

theorem exponent_eq_of_mantissa_eq_zero (x : Binary64) (h : x.mantissa = 0) :
    x.exponent = -1074 := by
  obtain ⟨-, -, -, hlarge | hleast⟩ := x.canonical
  · omega
  · exact hleast

theorem ratio_value (x : Binary64) :
    (x.ratio.1 : ℚ) / x.ratio.2 = x.mantissa * 2 ^ x.exponent := by
  simp only [ratio, Nat.pow_eq, zpow_eq_div two_ne_zero x.exponent]
  push_cast
  ring

theorem ratio_den_pos (x : Binary64) : 0 < x.ratio.2 := by
  simp only [ratio, Nat.pow_eq]
  positivity

theorem floorLog2_ratio (x : Binary64) (h : x.mantissa ≠ 0) :
    max (floorLog2 x.ratio.1 x.ratio.2 - 52) (-1074) = x.exponent := by
  -- the mantissa fills its binade or the exponent is the least one; rounding chooses the same
  have hlog : floorLog2 x.ratio.1 x.ratio.2 = x.mantissa.log2 + x.exponent := by
    have hpower : (0 : ℚ) < 2 ^ x.exponent := zpow_pos (by norm_num) _
    apply floorLog2_eq _ x.ratio_den_pos
    · rw [ratio_value, zpow_add₀ two_ne_zero, zpow_natCast]
      refine mul_le_mul_of_nonneg_right ?_ hpower.le
      exact_mod_cast Nat.log2_self_le h
    · rw [ratio_value, add_right_comm, zpow_add₀ two_ne_zero, ← Nat.cast_succ, zpow_natCast]
      refine mul_lt_mul_of_pos_right ?_ hpower
      exact_mod_cast Nat.lt_log2_self (n := x.mantissa)
    · simp only [ratio, Nat.pow_eq]
      positivity
  obtain ⟨hfits, hlow, -, hlarge⟩ := x.canonical
  have hbits : x.mantissa.log2 < 53 := (Nat.log2_lt h).2 hfits
  rcases hlarge with hlarge | hleast
  · have : 52 ≤ x.mantissa.log2 := (Nat.le_log2 h).2 hlarge
    omega
  · omega

theorem ofRatio_ratio (x : Binary64) : ofRatio x.negative x.ratio.1 x.ratio.2 = some x := by
  by_cases h : x.mantissa = 0
  · have hexp := x.exponent_eq_of_mantissa_eq_zero h
    obtain ⟨negative, mantissa, exponent, canonical⟩ := x
    subst h hexp
    simp only [ofRatio, ratio, zero, Nat.zero_mul, if_true]
  · have hnum : x.ratio.1 ≠ 0 := by
      simp only [ratio, Nat.pow_eq]
      positivity
    have hfits := x.canonical.1
    have hrounded : roundDiv (scale 2 x.exponent x.ratio.1 x.ratio.2).1
        (scale 2 x.exponent x.ratio.1 x.ratio.2).2 = x.mantissa := by
      have hscaled : (scale 2 x.exponent x.ratio.1 x.ratio.2).1 =
          x.mantissa * (scale 2 x.exponent x.ratio.1 x.ratio.2).2 := by
        simp only [scale, ratio, Nat.pow_eq]
        ring
      rw [hscaled]
      exact roundDiv_mul_self _ (scale_den_pos 2 Nat.two_pos _ x.ratio_den_pos)
    simp only [ofRatio, hnum, if_false, floorLog2_ratio x h, hrounded, if_neg hfits.ne,
      dif_pos x.canonical]

theorem ofRatio_eq_zero (negative : Bool) {num den : Nat} (hden : 0 < den)
    (h : num * 2 ^ 1075 < den) : ofRatio negative num den = some (zero negative) := by
  rcases Nat.eq_zero_or_pos num with rfl | hnum
  · simp [ofRatio]
  · have hsmall : (num : ℚ) / den < 2 ^ (-1075 : Int) := by
      rw [zpow_neg, div_lt_iff₀ (by positivity), lt_inv_mul_iff₀ (by positivity), mul_comm]
      exact_mod_cast h
    have hlog : floorLog2 num den < -1075 :=
      (zpow_lt_zpow_iff_right₀ (one_lt_two (α := ℚ))).1
        ((floorLog2_spec hnum hden).1.trans_lt hsmall)
    have hexp : max (floorLog2 num den - 52) (-1074) = -1074 := by omega
    have hrounded : roundDiv (scale 2 (-1074) num den).1 (scale 2 (-1074) num den).2 = 0 := by
      have hpos : (0 : ℚ) < (scale 2 (-1074) num den).2 := by
        exact_mod_cast scale_den_pos 2 Nat.two_pos (-1074) hden
      have hhalf : ((scale 2 (-1074) num den).1 : ℚ) / (scale 2 (-1074) num den).2 <
          2 ^ (-1 : Int) := by
        rw [scale_value 2 Nat.two_pos, div_lt_iff₀ (by positivity), Nat.cast_ofNat,
          ← zpow_add₀ two_ne_zero]
        exact hsmall
      rw [zpow_neg_one, div_lt_iff₀ hpos, lt_inv_mul_iff₀ (by norm_num)] at hhalf
      exact roundDiv_eq_zero (by exact_mod_cast hhalf)
    have hcanonical : Canonical 0 (-1074) := by decide
    simp [ofRatio, hnum.ne', hexp, hrounded, hcanonical, zero]

theorem ofRatio_eq_none (negative : Bool) {num den : Nat} (hden : 0 < den)
    (h : den * 2 ^ 1024 ≤ num) : ofRatio negative num den = none := by
  have hnum : 0 < num := by
    have : 0 < den * 2 ^ 1024 := by positivity
    omega
  have hlarge : (2 : ℚ) ^ (1024 : Int) ≤ num / den := by
    rw [le_div_iff₀ (by positivity), mul_comm]
    exact_mod_cast h
  have hlog : (1024 : Int) < floorLog2 num den + 1 :=
    (zpow_lt_zpow_iff_right₀ (one_lt_two (α := ℚ))).1
      (hlarge.trans_lt (floorLog2_spec hnum hden).2)
  have hexp (mantissa : Nat) (exponent : Int)
      (hle : max (floorLog2 num den - 52) (-1074) ≤ exponent) : ¬Canonical mantissa exponent := by
    rintro ⟨-, -, hfits, -⟩
    omega
  simp only [ofRatio, hnum.ne', if_false]
  split
  · exact dif_neg (hexp _ _ (Int.le_add_one le_rfl))
  · exact dif_neg (hexp _ _ le_rfl)

theorem two_pow_le_ten_pow {k n : Nat} (h : k ≤ 3 * n) : 2 ^ k ≤ 10 ^ n :=
  calc 2 ^ k ≤ 2 ^ (3 * n) := Nat.pow_le_pow_right (by decide) h
    _ = (2 ^ 3) ^ n := pow_mul ..
    _ ≤ 10 ^ n := Nat.pow_le_pow_left (by decide) n

theorem ofDecimal_eq_ofRatio (negative : Bool) (digits : Nat) (power : Int) :
    ofDecimal negative digits power =
      ofRatio negative (digits * 10 ^ power.toNat) (10 ^ (-power).toNat) := by
  rw [ofDecimal]
  split
  · rename_i h
    symm
    apply ofRatio_eq_zero negative (by positivity)
    rcases h with rfl | h
    · rw [zero_mul, zero_mul]
      exact Nat.pow_pos (by decide)
    · -- the digits are fewer than their bits, so the value is below `10 ^ -400`
      have hzero : power.toNat = 0 := by omega
      have hsplit : (-power).toNat =
          (digits.log2 + 1) + 400 + ((-power).toNat - digits.log2 - 401) := by
        omega
      have hdigits : digits < 10 ^ (digits.log2 + 1) :=
        Nat.lt_log2_self.trans_le (Nat.pow_le_pow_left (by decide) _)
      have hpow : 2 ^ 1075 ≤ 10 ^ 400 := two_pow_le_ten_pow (by decide)
      rw [hzero, pow_zero, mul_one, hsplit, pow_add, pow_add]
      calc digits * 2 ^ 1075 ≤ digits * 10 ^ 400 := Nat.mul_le_mul_left _ hpow
        _ < 10 ^ (digits.log2 + 1) * 10 ^ 400 := Nat.mul_lt_mul_of_pos_right hdigits (by positivity)
        _ ≤ _ := Nat.le_mul_of_pos_right _ (by positivity)
  · rename_i h
    split
    · rename_i hlarge
      symm
      apply ofRatio_eq_none negative (by positivity)
      have hzero : (-power).toNat = 0 := by omega
      have hsplit : power.toNat = 400 + (power.toNat - 400) := by omega
      have hdigits : 1 ≤ digits := by omega
      have hpow : 2 ^ 1024 ≤ 10 ^ 400 := two_pow_le_ten_pow (by decide)
      rw [hzero, pow_zero, one_mul, hsplit, pow_add]
      calc 2 ^ 1024 ≤ 1 * (10 ^ 400 * 1) := by rwa [one_mul, mul_one]
        _ ≤ digits * (10 ^ 400 * 10 ^ (power.toNat - 400)) :=
          Nat.mul_le_mul hdigits (Nat.mul_le_mul_left _ (Nat.one_le_pow _ _ (by decide)))
    · rfl

theorem decimal_value (digits : Nat) (power : Int) :
    ((digits * 10 ^ power.toNat : Nat) : ℚ) / (10 ^ (-power).toNat : Nat) =
      digits * 10 ^ power := by
  rw [zpow_eq_div (by norm_num) power]
  push_cast
  ring

theorem ofDecimal_congr (negative : Bool) {digits digits' : Nat} {power power' : Int}
    (h : (digits : ℚ) * 10 ^ power = digits' * 10 ^ power') :
    ofDecimal negative digits power = ofDecimal negative digits' power' := by
  rw [ofDecimal_eq_ofRatio, ofDecimal_eq_ofRatio]
  refine ofRatio_congr negative (Nat.pow_pos (by decide)) (Nat.pow_pos (by decide)) ?_
  rw [decimal_value, decimal_value, h]

theorem ofDecimal_mul_ten_pow (negative : Bool) (digits k : Nat) (power : Int) :
    ofDecimal negative (digits * 10 ^ k) power = ofDecimal negative digits (power + k) := by
  apply ofDecimal_congr
  rw [zpow_add₀ (by norm_num), zpow_natCast]
  push_cast
  ring

end Binary64

namespace Decimal

open Binary64

theorem reads_exact (x : Binary64) : (exact x).reads x = true := by
  simp only [reads, exact, Nat.pow_eq, beq_iff_eq]
  rw [ofDecimal_eq_ofRatio, ← ofRatio_ratio x]
  refine ofRatio_congr _ (Nat.pow_pos (by decide)) x.ratio_den_pos ?_
  rw [decimal_value, ratio_value]
  have htwo : (2 : ℚ) ^ x.exponent = 2 ^ x.exponent.toNat * 2 ^ min x.exponent 0 := by
    rw [← zpow_natCast, ← zpow_add₀ two_ne_zero]
    congr 1
    omega
  have hfive : (5 : ℚ) ^ (-x.exponent).toNat * 5 ^ min x.exponent 0 = 1 := by
    rw [← zpow_natCast, ← zpow_add₀ (by norm_num)]
    have : (((-x.exponent).toNat : Int) + min x.exponent 0) = 0 := by omega
    rw [this, zpow_zero]
  have hten : (10 : ℚ) ^ min x.exponent 0 = 2 ^ min x.exponent 0 * 5 ^ min x.exponent 0 := by
    rw [← mul_zpow]
    norm_num
  push_cast
  calc (x.mantissa : ℚ) * 2 ^ x.exponent.toNat * 5 ^ (-x.exponent).toNat * 10 ^ min x.exponent 0
      = x.mantissa * (2 ^ x.exponent.toNat * 2 ^ min x.exponent 0) *
          (5 ^ (-x.exponent).toNat * 5 ^ min x.exponent 0) := by
        rw [hten]
        ring
    _ = x.mantissa * 2 ^ x.exponent := by rw [hfive, mul_one, htwo]

theorem reads_of_onGrid {x : Binary64} {power : Int} {d : Decimal} (h : onGrid x power = some d) :
    d.reads x = true := by
  simp only [onGrid] at h
  split at h
  · rename_i hbelow habove
    obtain rfl := Option.some.inj h
    rcases roundDiv_eq_or (scale 10 power x.ratio.1 x.ratio.2).1
      (scale 10 power x.ratio.1 x.ratio.2).2 with hround | hround
    · rwa [hround]
    · rwa [hround]
  · rename_i hbelow habove
    obtain rfl := Option.some.inj h
    exact hbelow
  · rename_i hbelow habove
    obtain rfl := Option.some.inj h
    exact habove
  · exact absurd h (by simp)

theorem reads_shortest (x : Binary64) : (shortest x).reads x = true := by
  rw [shortest]
  split
  · rename_i h
    have hzero : x.mantissa = 0 := by simpa [isZero] using h
    have hexp := x.exponent_eq_of_mantissa_eq_zero hzero
    obtain ⟨negative, mantissa, exponent, canonical⟩ := x
    subst hzero hexp
    simp [reads, ofDecimal, zero]
  · dsimp only
    cases hfound : (List.range 17).findSome? fun (n : Nat) =>
        onGrid x (floorLog10 x.ratio.1 x.ratio.2 - n) with
    | none => exact reads_exact x
    | some d =>
      obtain ⟨n, -, hgrid⟩ := List.exists_of_findSome?_eq_some hfound
      exact reads_of_onGrid hgrid

end Decimal

end ApiContract
