import ApiContract.Proofs.Number.Nearest
import ApiContract.Schema.Basic

namespace ApiContract

namespace Binary64

theorem shifted_bounds {n : Nat} (hpos : 0 < n) (h : n.log2 ≤ 52) :
    2 ^ 52 ≤ n * 2 ^ (52 - n.log2) ∧ n * 2 ^ (52 - n.log2) < 2 ^ 53 := by
  have hsplit (k : Nat) : 2 ^ (n.log2 + k) * 2 ^ (52 - n.log2) = 2 ^ (52 + k) := by
    rw [← pow_add]
    congr 1
    omega
  constructor
  · calc 2 ^ 52 = 2 ^ n.log2 * 2 ^ (52 - n.log2) := (hsplit 0).symm
      _ ≤ n * 2 ^ (52 - n.log2) := Nat.mul_le_mul_right _ (Nat.log2_self_le hpos.ne')
  · calc n * 2 ^ (52 - n.log2) < 2 ^ (n.log2 + 1) * 2 ^ (52 - n.log2) :=
          Nat.mul_lt_mul_of_pos_right Nat.lt_log2_self (by positivity)
      _ = 2 ^ 53 := hsplit 1

theorem exists_value_eq_natCast {n : Nat} (h : n ≤ 2 ^ 53) : ∃ x : Binary64, x.value = n := by
  rcases Nat.eq_zero_or_pos n with rfl | hpos
  · refine ⟨zero false, ?_⟩
    rw [Nat.cast_zero, value_eq_zero_iff]
    rfl
  · rcases h.lt_or_eq with hlt | rfl
    · have hlog : n.log2 ≤ 52 := Nat.lt_succ_iff.1 ((Nat.log2_lt hpos.ne').2 hlt)
      obtain ⟨hlow, hhigh⟩ := shifted_bounds hpos hlog
      refine ⟨⟨false, n * 2 ^ (52 - n.log2), n.log2 - 52, hhigh, by omega, by omega, .inl hlow⟩, ?_⟩
      have hpower : (2 : ℚ) ^ (52 - n.log2) * 2 ^ ((n.log2 : Int) - 52) = 1 := by
        rw [← zpow_natCast, ← zpow_add₀ two_ne_zero, Nat.cast_sub hlog]
        simp
      simp only [value, sign, Bool.false_eq_true, if_false, one_mul]
      push_cast
      rw [mul_assoc, hpower, mul_one]
    · exact ⟨⟨false, 2 ^ 52, 1, by decide⟩, by norm_num [value, sign]⟩

theorem exists_value_eq_intCast {n : Int} (h : |n| ≤ 2 ^ 53) : ∃ x : Binary64, x.value = n := by
  rw [Int.abs_eq_natAbs] at h
  obtain ⟨x, hx⟩ := exists_value_eq_natCast (n := n.natAbs) (by exact_mod_cast h)
  rcases Int.natAbs_eq n with hn | hn
  · refine ⟨x, ?_⟩
    rw [hx, hn]
    simp
  · refine ⟨x.opposite, ?_⟩
    rw [value_opposite, hx, hn]
    simp

theorem exists_ofInt {n : Int} (h : Number.Fits n) : ∃ x, ofInt n = some x ∧ x.Nearest n := by
  have hvalue : sign (decide (n < 0)) * ((n.natAbs : ℚ) / (1 : Nat)) = n := by
    rw [Nat.cast_one, div_one, Nat.cast_natAbs, sign]
    rcases lt_or_ge n 0 with hneg | hnonneg
    · simp [hneg, abs_of_neg]
    · simp [hnonneg.not_gt, abs_of_nonneg hnonneg]
  have hexists : ∃ x, ofInt n = some x := by
    rcases Nat.eq_zero_or_pos n.natAbs with hzero | hpos
    · exact ⟨zero (decide (n < 0)), by rw [ofInt, hzero, ofRatio, if_pos rfl]⟩
    · apply exists_ofRatio _ hpos Nat.one_pos
      have hle : n.natAbs ≤ 2 ^ 64 := by
        rw [Number.Fits] at h
        omega
      have hlog : (2 : ℚ) ^ floorLog2 n.natAbs 1 ≤ 2 ^ (64 : Int) := by
        refine (floorLog2_spec hpos Nat.one_pos).1.trans ?_
        rw [Nat.cast_one, div_one]
        exact_mod_cast hle
      have := (zpow_le_zpow_iff_right₀ (one_lt_two (α := ℚ))).1 hlog
      omega
  obtain ⟨x, hx⟩ := hexists
  have hnearest := nearest_of_ofRatio Nat.one_pos hx
  rw [hvalue] at hnearest
  exact ⟨x, hx, hnearest⟩

end Binary64

namespace Number

def value : Number → ℚ
  | .int n _ => n
  | .float x => x.value

/-- An integer and the float nearest to it, if their values differ. -/
def Blurs (a b : Number) : Prop :=
  ∃ n fits x, a = .int n fits ∧ b = .float x ∧ x.Nearest n ∧ x.value ≠ n

theorem nearest_toBinary64 {n : Int} (fits : Fits n) : (toBinary64 (.int n fits)).Nearest n := by
  obtain ⟨x, hx, hnearest⟩ := Binary64.exists_ofInt fits
  rwa [toBinary64, hx, Option.getD_some]

theorem same_float (a : Number) (x : Binary64) :
    a.same (.float x) = a.toBinary64.sameValue x := by
  rw [same]
  cases a.signed? <;> cases a.unsigned? <;> rfl

theorem float_same (x : Binary64) (b : Number) :
    (float x).same b = x.sameValue b.toBinary64 := by
  rw [same]
  cases b.signed? <;> cases b.unsigned? <;> rfl

theorem sameValue_of_opposite {n m : Int} {hn : Fits n} {hm : Fits m} (hpos : 0 < n)
    (hneg : m < 0) :
    (toBinary64 (.int n hn)).sameValue (toBinary64 (.int m hm)) = false := by
  -- no float is nearest both to a positive and to a negative integer
  rw [Bool.eq_false_iff, Ne, Binary64.sameValue_iff]
  intro h
  obtain ⟨one, hone⟩ := Binary64.exists_value_eq_natCast (n := 1) (by norm_num)
  have hle := (nearest_toBinary64 hn).le one
  have hle' := (nearest_toBinary64 hm).le one.opposite
  rw [Binary64.value_opposite, ← h] at hle'
  rw [hone, Nat.cast_one] at hle hle'
  have hn : (1 : ℚ) ≤ n := by exact_mod_cast hpos
  have hm : (m : ℚ) ≤ -1 := by exact_mod_cast (by omega : m ≤ -1)
  rw [abs_of_nonneg (a := (n : ℚ) - 1) (by linarith)] at hle
  rw [abs_of_nonpos (a := (m : ℚ) - -1) (by linarith)] at hle'
  linarith [le_abs_self (n - (toBinary64 (.int n ‹_›)).value),
    neg_abs_le (m - (toBinary64 (.int n ‹_›)).value)]

theorem sameValue_comm (x y : Binary64) : x.sameValue y = y.sameValue x := by
  rw [Bool.eq_iff_iff, Binary64.sameValue_iff, Binary64.sameValue_iff, eq_comm]

theorem same_int (n m : Int) (hn : Fits n) (hm : Fits m) :
    (int n hn).same (int m hm) =
      if n < 9223372036854775808 ∧ m < 9223372036854775808 ∨ 0 ≤ n ∧ 0 ≤ m then n == m
      else (toBinary64 (.int n hn)).sameValue (toBinary64 (.int m hm)) := by
  by_cases hsigned : n < 9223372036854775808 ∧ m < 9223372036854775808
  · simp [same, signed?, hsigned]
  · have hnone : signed? (.int n hn) = none ∨ signed? (.int m hm) = none := by
      rw [not_and_or] at hsigned
      exact hsigned.imp (if_neg ·) (if_neg ·)
    by_cases hunsigned : 0 ≤ n ∧ 0 ≤ m
    · rcases hnone with h | h <;> simp [same, unsigned?, h, hunsigned]
    · have hnone' : unsigned? (.int n hn) = none ∨ unsigned? (.int m hm) = none := by
        rw [not_and_or] at hunsigned
        exact hunsigned.imp (if_neg ·) (if_neg ·)
      rcases hnone with h | h <;> rcases hnone' with h' | h' <;>
        simp [same, h, h', hsigned, hunsigned]

theorem same_int_int {n m : Int} (hn : Fits n) (hm : Fits m) :
    (int n hn).same (int m hm) = true ↔ n = m := by
  rw [same_int]
  split
  · exact beq_iff_eq
  · rename_i hmixed
    have hne : n ≠ m := by omega
    rcases lt_or_ge n 0 with hneg | hnonneg
    · rw [sameValue_comm, sameValue_of_opposite (by omega) hneg]
      simp [hne]
    · rw [sameValue_of_opposite (by omega) (by omega)]
      simp [hne]

theorem same_int_float {n : Int} (fits : Fits n) (x : Binary64) :
    (int n fits).same (float x) = true ↔ x.Nearest n := by
  have hnearest := nearest_toBinary64 fits
  rw [same_float, Binary64.sameValue_iff]
  constructor
  · intro h
    exact hnearest.congr h.symm
  · intro h
    exact hnearest.value_eq h

theorem same_float_int {n : Int} (fits : Fits n) (x : Binary64) :
    (float x).same (int n fits) = true ↔ x.Nearest n := by
  rw [float_same, sameValue_comm, ← same_float, same_int_float]

theorem same_float_float (x y : Binary64) :
    (float x).same (float y) = true ↔ x.value = y.value := by
  rw [same_float, toBinary64, Binary64.sameValue_iff]

theorem blurs_iff {n : Int} {fits : Fits n} {x : Binary64} :
    (int n fits).Blurs (float x) ↔ x.Nearest n ∧ x.value ≠ n := by
  constructor
  · rintro ⟨_, _, _, ⟨⟩, ⟨⟩, h⟩
    exact h
  · intro h
    exact ⟨n, fits, x, rfl, rfl, h⟩

theorem nearest_iff {n : Int} (fits : Fits n) {x : Binary64} :
    x.Nearest n ↔ x.value = n ∨ (int n fits).Blurs (float x) := by
  rw [blurs_iff]
  by_cases h : x.value = n
  · simp [h, Binary64.nearest_of_value_eq h]
  · simp [h]

theorem not_blurs_int (a : Number) {n : Int} (fits : Fits n) : ¬a.Blurs (.int n fits) := by
  simp [Blurs]

theorem not_float_blurs (x : Binary64) (b : Number) : ¬(float x).Blurs b := by
  simp [Blurs]

theorem same_iff (a b : Number) :
    a.same b = true ↔ a.value = b.value ∨ a.Blurs b ∨ b.Blurs a := by
  cases a with
  | int n hn =>
    cases b with
    | int m hm => simp [same_int_int, value, not_blurs_int]
    | float x =>
      simp [same_int_float, nearest_iff hn, value, not_float_blurs, eq_comm (a := (n : ℚ))]
  | float x =>
    cases b with
    | int n hn => simp [same_float_int, nearest_iff hn, value, not_float_blurs]
    | float y => simp [same_float_float, value, not_float_blurs]

theorem Blurs.beyond {a b : Number} (h : a.Blurs b) :
    a.value ≠ b.value ∧ 2 ^ 53 < |a.value| := by
  obtain ⟨n, fits, x, rfl, rfl, hnearest, hne⟩ := h
  refine ⟨Ne.symm hne, ?_⟩
  by_contra hle
  have hsmall : |n| ≤ 2 ^ 53 := by
    rw [value, not_lt] at hle
    exact_mod_cast hle
  -- up to 53 bits the whole number itself would be nearer
  obtain ⟨y, hy⟩ := Binary64.exists_value_eq_intCast hsmall
  exact hne ((hnearest.value_eq (Binary64.nearest_of_value_eq hy)).trans hy)

end Number

/-- A number literal admits the numbers of its value, and beyond that only an integer of more than
53 bits against the float nearest to it. -/
theorem Literal.admits_num_iff (a b : Number) :
    ((Literal.number a).admits (.num b) = true ↔ a.value = b.value ∨ a.Blurs b ∨ b.Blurs a) ∧
      (a.Blurs b → a.value ≠ b.value ∧ 2 ^ 53 < |a.value|) :=
  ⟨a.same_iff b, Number.Blurs.beyond⟩

theorem Literal.admits_num_iff_beyond_53_bits :
    let a : Number := .int 9007199254740993 (by decide)
    let b : Number := .float ⟨false, 4503599627370496, 1, by decide⟩
    (Literal.number a).admits (.num b) = true ∧ a.Blurs b ∧ 2 ^ 53 < |a.value| := by
  intro a b
  have hadmits : (Literal.number a).admits (.num b) = true := by decide
  have hvalue : a.value ≠ b.value := by
    norm_num [a, b, Number.value, Binary64.value, Binary64.sign]
  obtain ⟨hiff, hbeyond⟩ := Literal.admits_num_iff a b
  have hblurs : a.Blurs b := by
    rcases hiff.1 hadmits with h | h | h
    · exact absurd h hvalue
    · exact h
    · exact absurd h (Number.not_float_blurs _ a)
  exact ⟨hadmits, hblurs, (hbeyond hblurs).2⟩

theorem Literal.admits_num_blurred :
    let a : Number := .int 9007199254740993 (by decide)
    let b : Number := .float ⟨false, 4503599627370496, 1, by decide⟩
    let c : Number := .int 9007199254740992 (by decide)
    ¬((Literal.number a).admits (.num b) = true ↔ a.value = b.value) ∧
      (Literal.number b).admits (.num c) = true ∧ (Literal.number a).admits (.num c) = false := by
  intro a b c
  refine ⟨?_, by decide, by decide⟩
  intro h
  have hvalue : a.value = b.value := h.1 (by decide)
  norm_num [a, b, Number.value, Binary64.value, Binary64.sign] at hvalue

end ApiContract
