import ApiContract.Json.Parse
import ApiContract.Json.Text
import ApiContract.Proofs.Number.Rounding

namespace ApiContract

namespace Numeral

theorem digitsValue_eq_ofDigitChars {digits : List Char} (h : ∀ c ∈ digits, c.isDigit) :
    digitsValue 10 digits = Nat.ofDigitChars 10 digits 0 := by
  rw [digitsValue, Nat.ofDigitChars]
  generalize 0 = start
  induction digits generalizing start with
  | nil => rfl
  | cons c rest ih =>
    have hc : digitsValue.hexValue c = c.toNat - '0'.toNat := by
      simp [digitsValue.hexValue, h c (by simp)]
    rw [List.foldl_cons, List.foldl_cons, hc, Nat.mul_comm start]
    exact ih (fun c hc => h c (by simp [hc])) _

theorem digitsValue_toDigits (n : Nat) : digitsValue 10 (Nat.toDigits 10 n) = n := by
  rw [digitsValue_eq_ofDigitChars, Nat.ofDigitChars_ten_toDigits]
  intro c hc
  exact Nat.isDigit_of_mem_toDigits (by decide) (by decide) hc

theorem digitsValue_append_zeros {digits : List Char} (h : ∀ c ∈ digits, c.isDigit) (k : Nat) :
    digitsValue 10 (digits ++ List.replicate k '0') = digitsValue 10 digits * 10 ^ k := by
  have hzeros : ∀ c ∈ digits ++ List.replicate k '0', c.isDigit := by
    intro c hc
    rcases List.mem_append.1 hc with hc | hc
    · exact h c hc
    · rw [List.eq_of_mem_replicate hc]
      decide
  rw [digitsValue_eq_ofDigitChars hzeros, digitsValue_eq_ofDigitChars h, Nat.ofDigitChars_append,
    Nat.ofDigitChars_replicate_zero, Nat.mul_comm]

theorem digitsValue_zeros_append (digits : List Char) (k : Nat) :
    digitsValue 10 (List.replicate k '0' ++ digits) = digitsValue 10 digits := by
  have hzero : digitsValue 10 (List.replicate k '0') = 0 := by
    simpa [digitsValue] using @digitsValue_append_zeros [] (by simp) k
  rw [digitsValue] at hzero
  simp only [digitsValue, List.foldl_append, hzero]

theorem head?_toDigits_ne_zero {n : Nat} (hn : 0 < n) : (Nat.toDigits 10 n).head? ≠ some '0' := by
  induction n using Nat.strongRecOn with
  | ind n ih =>
    rw [Nat.toDigits_eq_if (by decide)]
    split
    · rename_i hlt
      have hdigits : ∀ m < 10, 0 < m → [m.digitChar].head? ≠ some '0' := by decide
      exact hdigits n hlt hn
    · have hlt : n / 10 < n := Nat.div_lt_self hn (by decide)
      rw [List.head?_append_of_ne_nil _ Nat.toDigits_ne_nil]
      exact ih (n / 10) hlt (by omega)

def exponentChars : Option (Bool × List Char) → List Char
  | some (negative, digits) => 'e' :: (if negative then '-' else '+') :: digits
  | none => []

def chars (n : Numeral) : List Char :=
  match n.fraction with
  | some digits => n.whole ++ '.' :: digits ++ exponentChars n.exponent
  | none => n.whole ++ exponentChars n.exponent

structure WellFormed (n : Numeral) : Prop where
  whole : ∀ c ∈ n.whole, c.isDigit
  fraction : ∀ digits ∈ n.fraction, ∀ c ∈ digits, c.isDigit
  exponent : ∀ e ∈ n.exponent, ∀ c ∈ e.2, c.isDigit
  complete : n.isComplete
  leading : 1 < n.whole.length → n.whole.head? ≠ some '0'

theorem takeWhile_digits {digits rest : List Char} (hdigits : ∀ c ∈ digits, c.isDigit)
    (hrest : ∀ c ∈ rest.head?, ¬c.isDigit) :
    (digits ++ rest).takeWhile Char.isDigit = digits ∧
      (digits ++ rest).dropWhile Char.isDigit = rest := by
  rw [List.takeWhile_append_of_pos hdigits, List.dropWhile_append_of_pos hdigits]
  cases rest with
  | nil => simp
  | cons c rest =>
    have hc : ¬c.isDigit := hrest c (by simp)
    simp [hc]

theorem scanExponent_exponentChars {exponent : Option (Bool × List Char)}
    (h : ∀ e ∈ exponent, ∀ c ∈ e.2, c.isDigit) :
    scanExponent (exponentChars exponent) = (exponent, []) := by
  rcases exponent with _ | ⟨negative, digits⟩
  · rfl
  · have hdigits := @takeWhile_digits _ [] (h _ rfl) (by simp)
    rw [List.append_nil] at hdigits
    cases negative <;> simp [exponentChars, scanExponent, splitSign, hdigits]

theorem scan_chars {n : Numeral} (h : n.WellFormed) : scan n.chars = (n, []) := by
  obtain ⟨whole, fraction, exponent⟩ := n
  have hexponent := scanExponent_exponentChars h.exponent
  have hhead : ∀ c ∈ (exponentChars exponent).head?, ¬c.isDigit := by
    rcases exponent with _ | ⟨negative, digits⟩ <;> simp [exponentChars]
  cases fraction with
  | none =>
    have hwhole := takeWhile_digits h.whole hhead
    simp only [scan, chars, hwhole.1, hwhole.2]
    rcases exponent with _ | ⟨negative, digits⟩
    · rfl
    · exact congrArg (fun r => ((⟨whole, none, r.1⟩ : Numeral), r.2)) hexponent
  | some digits =>
    have hwhole := @takeWhile_digits _ ('.' :: (digits ++ exponentChars exponent)) h.whole (by simp)
    have hfraction := takeWhile_digits (h.fraction _ rfl) hhead
    simp [scan, chars, hwhole, hfraction, hexponent]

end Numeral

namespace Decimal

structure Trimmed (digits : List Char) (power : Int) : Prop where
  isDigit : ∀ c ∈ digits, c.isDigit
  ne_nil : digits ≠ []
  leading : digits.head? = some '0' → digits = ['0'] ∧ power = 0

theorem append_zeros_of_trim (digits : List Char) :
    ∃ k, digits = (digits.reverse.dropWhile (· = '0')).reverse ++ List.replicate k '0' := by
  have hsplit := List.takeWhile_append_dropWhile (p := (· = '0')) (l := digits.reverse)
  have hzeros : digits.reverse.takeWhile (· = '0') =
      List.replicate (digits.reverse.takeWhile (· = '0')).length '0' := by
    apply List.eq_replicate_of_mem
    intro c hc
    simpa using List.all_eq_true.1 List.all_takeWhile c hc
  refine ⟨(digits.reverse.takeWhile (· = '0')).length, ?_⟩
  rw [← List.reverse_replicate, ← hzeros, ← List.reverse_append, hsplit, List.reverse_reverse]

theorem trimmed_spec (d : Decimal) : Trimmed d.trimmed.1 d.trimmed.2 ∧ ∀ negative,
    Binary64.ofDecimal negative (Numeral.digitsValue 10 d.trimmed.1) d.trimmed.2 =
      Binary64.ofDecimal negative d.digits d.power := by
  obtain ⟨digits, power⟩ := d
  rcases Nat.eq_zero_or_pos digits with rfl | hpos
  · have htrimmed : trimmed ⟨0, power⟩ = (['0'], 0) := by
      simp [trimmed, Nat.toDigits_of_lt_base, Nat.digitChar]
    rw [htrimmed]
    refine ⟨⟨?_, by simp, fun _ => ⟨rfl, rfl⟩⟩, fun negative => ?_⟩
    · intro c hc
      rw [List.mem_singleton.1 hc]
      rfl
    apply Binary64.ofDecimal_congr
    simp [Numeral.digitsValue, Numeral.digitsValue.hexValue]
  · obtain ⟨k, hk⟩ := append_zeros_of_trim (Nat.toDigits 10 digits)
    simp only [trimmed]
    generalize ((Nat.toDigits 10 digits).reverse.dropWhile (· = '0')).reverse = kept at hk ⊢
    have hdigits : ∀ c ∈ kept, c.isDigit := by
      intro c hc
      have hmem : c ∈ Nat.toDigits 10 digits := by
        rw [hk]
        exact List.mem_append_left _ hc
      exact Nat.isDigit_of_mem_toDigits (by decide) (by decide) hmem
    have hvalue : Numeral.digitsValue 10 kept * 10 ^ k = digits := by
      rw [← Numeral.digitsValue_append_zeros hdigits, ← hk, Numeral.digitsValue_toDigits]
    have hne : kept ≠ [] := by
      rintro rfl
      simp [Numeral.digitsValue] at hvalue
      omega
    have hlength : (Nat.toDigits 10 digits).length - kept.length = k := by
      rw [hk]
      simp
    rw [if_neg (by simpa using hne), hlength]
    refine ⟨⟨hdigits, hne, fun hzero => ?_⟩, fun negative => ?_⟩
    · refine absurd ?_ (Numeral.head?_toDigits_ne_zero hpos)
      rw [hk, List.head?_append_of_ne_nil _ hne, hzero]
    · rw [← Binary64.ofDecimal_mul_ten_pow, hvalue]

/-- A numeral with a fraction or an exponent that has the value of the trimmed digits. -/
structure Spells (n : Numeral) (digits : List Char) (power : Int) : Prop where
  wellFormed : n.WellFormed
  isWhole : n.isWhole = false
  value : ∀ negative, n.toBinary64? negative =
    Binary64.ofDecimal negative (Numeral.digitsValue 10 digits) power

theorem positional_spells {digits : List Char} {power : Int} (h : Trimmed digits power) :
    ∃ n, Spells n digits power ∧ n.chars = positional digits power := by
  have hlength : 0 < digits.length := List.length_pos_iff.2 h.ne_nil
  have hzero (k : Nat) : ∀ c ∈ List.replicate k '0', c.isDigit := by
    intro c hc
    rw [List.eq_of_mem_replicate hc]
    decide
  rw [positional]
  split
  · -- all digits stand before the point
    rename_i hpower
    obtain ⟨k, rfl⟩ := Int.eq_ofNat_of_zero_le hpower
    refine ⟨⟨digits ++ List.replicate k '0', some ['0'], none⟩, ⟨⟨?_, ?_, ?_, ?_, ?_⟩, rfl, ?_⟩, ?_⟩
    · intro c hc
      rcases List.mem_append.1 hc with hc | hc
      · exact h.isDigit c hc
      · exact hzero k c hc
    · simp
    · simp
    · simp [Numeral.isComplete, h.ne_nil]
    · intro hlong hhead
      rw [List.head?_append_of_ne_nil _ h.ne_nil] at hhead
      obtain ⟨rfl, hk⟩ := h.leading hhead
      simp at hk hlong
      omega
    · intro negative
      have hvalue : Numeral.digitsValue 10 (digits ++ List.replicate k '0' ++ ['0']) =
          Numeral.digitsValue 10 digits * 10 ^ (k + 1) := by
        rw [← Numeral.digitsValue_append_zeros h.isDigit, List.replicate_succ',
          List.append_assoc]
      rw [Numeral.toBinary64?, Option.getD_some, hvalue, Binary64.ofDecimal_mul_ten_pow]
      congr 1
      simp [Numeral.power]
    · simp [Numeral.chars, Numeral.exponentChars]
  · rename_i hpower
    split
    · -- the point stands among the digits
      rename_i hwhole
      obtain ⟨k, hk⟩ := Int.eq_ofNat_of_zero_le hwhole.le
      rw [hk, Int.toNat_natCast]
      refine ⟨⟨digits.take k, some (digits.drop k), none⟩, ⟨⟨?_, ?_, ?_, ?_, ?_⟩, rfl, ?_⟩, ?_⟩
      · exact fun c hc => h.isDigit c (List.mem_of_mem_take hc)
      · rintro _ ⟨⟩ c hc
        exact h.isDigit c (List.mem_of_mem_drop hc)
      · simp
      · simp [Numeral.isComplete, h.ne_nil]
        omega
      · intro hlong hhead
        rw [List.head?_take, if_neg (by omega)] at hhead
        have := (h.leading hhead).2
        omega
      · intro negative
        rw [Numeral.toBinary64?, Option.getD_some, List.take_append_drop]
        congr 1
        simp [Numeral.power]
        omega
      · simp [Numeral.chars, Numeral.exponentChars]
    · -- zeros stand between the point and the digits
      rename_i hwhole
      refine ⟨⟨['0'], some (List.replicate (-(digits.length + power)).toNat '0' ++ digits), none⟩,
        ⟨⟨?_, ?_, ?_, ?_, ?_⟩, rfl, ?_⟩, ?_⟩
      · exact hzero 1
      · rintro _ ⟨⟩ c hc
        rcases List.mem_append.1 hc with hc | hc
        · exact hzero _ c hc
        · exact h.isDigit c hc
      · simp
      · simp [Numeral.isComplete, h.ne_nil]
      · simp
      · intro negative
        rw [Numeral.toBinary64?, Option.getD_some, List.singleton_append, ← List.cons_append,
          ← List.replicate_succ, Numeral.digitsValue_zeros_append]
        congr 1
        simp [Numeral.power]
        omega
      · simp [Numeral.chars, Numeral.exponentChars]

theorem power_signed (whole : List Char) (fraction : Option (List Char)) (exponent : Int) :
    Numeral.power ⟨whole, fraction, some (exponent < 0, Nat.toDigits 10 exponent.natAbs)⟩ =
      exponent - (fraction.getD []).length := by
  by_cases h : exponent < 0
  · simp only [Numeral.power, h, decide_true, Numeral.digitsValue_toDigits]
    omega
  · simp only [Numeral.power, h, decide_false, Numeral.digitsValue_toDigits]
    omega

theorem scientific_spells {digits : List Char} {power : Int} (h : Trimmed digits power) :
    ∃ n, Spells n digits power ∧ n.chars = scientific digits (power + digits.length - 1) := by
  obtain ⟨c, rest, rfl⟩ := List.exists_cons_of_ne_nil h.ne_nil
  generalize hexponent : power + (c :: rest).length - 1 = exponent
  have hdigits : ∀ e ∈ some (decide (exponent < 0), Nat.toDigits 10 exponent.natAbs),
      ∀ c ∈ e.2, c.isDigit := by
    rintro _ ⟨⟩ c
    exact Nat.isDigit_of_mem_toDigits (by decide) (by decide)
  have hfirst : ∀ d ∈ [c], d.isDigit := by
    intro d hd
    exact h.isDigit d (by simp_all)
  rw [List.length_cons] at hexponent
  cases rest with
  | nil =>
    refine ⟨⟨[c], none, some (exponent < 0, Nat.toDigits 10 exponent.natAbs)⟩,
      ⟨⟨hfirst, by simp, hdigits, ?_, by simp⟩, rfl, ?_⟩, ?_⟩
    · simp [Numeral.isComplete, Nat.toDigits_ne_nil]
    · intro negative
      rw [Numeral.toBinary64?, power_signed]
      congr 1
      simp at hexponent ⊢
      omega
    · simp [Numeral.chars, Numeral.exponentChars, scientific]
  | cons d rest =>
    refine ⟨⟨[c], some (d :: rest), some (exponent < 0, Nat.toDigits 10 exponent.natAbs)⟩,
      ⟨⟨hfirst, ?_, hdigits, ?_, by simp⟩, rfl, ?_⟩, ?_⟩
    · rintro _ ⟨⟩ e he
      exact h.isDigit e (List.mem_cons_of_mem _ he)
    · simp [Numeral.isComplete, Nat.toDigits_ne_nil]
    · intro negative
      rw [Numeral.toBinary64?, power_signed]
      congr 1
      simp at hexponent ⊢
      omega
    · simp [Numeral.chars, Numeral.exponentChars, scientific]

theorem text_spells (d : Decimal) : ∃ n : Numeral, n.WellFormed ∧ n.isWhole = false ∧
    n.chars = d.text ∧
    ∀ negative, n.toBinary64? negative = Binary64.ofDecimal negative d.digits d.power := by
  obtain ⟨htrimmed, hvalue⟩ := d.trimmed_spec
  have hspells : ∃ n, Spells n d.trimmed.1 d.trimmed.2 ∧ n.chars = d.text := by
    simp only [text]
    split
    · exact positional_spells htrimmed
    · exact scientific_spells htrimmed
  obtain ⟨n, hn, hchars⟩ := hspells
  refine ⟨n, hn.wellFormed, hn.isWhole, hchars, fun negative => ?_⟩
  rw [hn.value, hvalue]

end Decimal

def Number.WrittenAs (number : Number) (negative : Bool) (n : Numeral) : Prop :=
  number.text.toList = (if negative then ['-'] else []) ++ n.chars ∧ n.WellFormed ∧
    Json.numberOfNumeral? negative n = some number

theorem Numeral.WellFormed.numberOfNumeral? {n : Numeral} (h : n.WellFormed) (negative : Bool) :
    Json.numberOfNumeral? negative n =
      if n.isWhole && !(negative && digitsValue 10 n.whole == 0) then
        Number.ofInt? (if negative then -digitsValue 10 n.whole else digitsValue 10 n.whole)
      else
        (n.toBinary64? negative).map .float := by
  have hleading : (decide (n.whole.length > 1) && n.whole.head? == some '0') = false := by
    by_cases hlong : 1 < n.whole.length
    · simp [hlong, h.leading hlong]
    · simp [hlong]
  simp [Json.numberOfNumeral?, h.complete, hleading]

theorem Numeral.wellFormed_toDigits (n : Nat) : WellFormed ⟨Nat.toDigits 10 n, none, none⟩ := by
  refine ⟨fun c => ?_, by simp, by simp, ?_, fun hlong => ?_⟩
  · exact Nat.isDigit_of_mem_toDigits (by decide) (by decide)
  · simp [isComplete, Nat.toDigits_ne_nil]
  · apply head?_toDigits_ne_zero
    apply Nat.pos_of_ne_zero
    rintro rfl
    simp [Nat.toDigits_of_lt_base] at hlong

theorem Number.writtenAs (number : Number) : ∃ negative n, number.WrittenAs negative n := by
  cases number with
  | int value fits =>
    cases value with
    | ofNat m =>
      have hm := Numeral.wellFormed_toDigits m
      refine ⟨false, _, ?_, hm, ?_⟩
      · change m.repr.toList = _
        simp [Numeral.chars, Numeral.exponentChars]
      · rw [hm.numberOfNumeral?, if_pos (by simp [Numeral.isWhole]), Numeral.digitsValue_toDigits]
        exact dif_pos fits
    | negSucc m =>
      have hm := Numeral.wellFormed_toDigits (m + 1)
      refine ⟨true, _, ?_, hm, ?_⟩
      · change ("-" ++ (m + 1).repr).toList = _
        simp [Numeral.chars, Numeral.exponentChars]
      · rw [hm.numberOfNumeral?, Numeral.digitsValue_toDigits, if_pos (by simp [Numeral.isWhole])]
        exact dif_pos fits
  | float x =>
    obtain ⟨n, hn, hwhole, hchars, hvalue⟩ := (Decimal.shortest x).text_spells
    refine ⟨x.negative, n, ?_, hn, ?_⟩
    · simp [Number.text, Binary64.text, hchars]
    · have hreads := Decimal.reads_shortest x
      rw [Decimal.reads, beq_iff_eq] at hreads
      simp [hn.numberOfNumeral?, hwhole, hvalue, hreads]

theorem Numeral.WellFormed.chars_eq_cons {n : Numeral} (h : n.WellFormed) :
    ∃ c rest, n.chars = c :: rest ∧ c.isDigit := by
  obtain ⟨whole, fraction, exponent⟩ := n
  cases whole with
  | nil =>
    have := h.complete
    simp [isComplete] at this
  | cons c whole => cases fraction <;> exact ⟨c, _, rfl, h.whole c (by simp)⟩

theorem Numeral.WellFormed.isWordChar {n : Numeral} (h : n.WellFormed) :
    ∀ c ∈ n.chars, Json.isWordChar c := by
  obtain ⟨whole, fraction, exponent⟩ := n
  have hword {c : Char} (hc : c.isDigit) : Json.isWordChar c := by
    simp [Json.isWordChar, Char.isAlphanum, hc]
  have hexponent : ∀ c ∈ exponentChars exponent, Json.isWordChar c := by
    rcases exponent with _ | ⟨negative, digits⟩
    · simp [exponentChars]
    · intro c hc
      simp only [exponentChars, List.mem_cons] at hc
      rcases hc with rfl | rfl | hc
      · decide
      · cases negative <;> decide
      · exact hword (h.exponent _ rfl c hc)
  intro c hc
  cases fraction with
  | none =>
    rcases List.mem_append.1 hc with hc | hc
    · exact hword (h.whole c hc)
    · exact hexponent c hc
  | some digits =>
    simp only [chars, List.mem_append, List.mem_cons] at hc
    rcases hc with (hc | rfl | hc) | hc
    · exact hword (h.whole c hc)
    · decide
    · exact hword (h.fraction _ rfl c hc)
    · exact hexponent c hc

theorem Number.text_eq_cons (n : Number) :
    ∃ c rest, n.text.toList = c :: rest ∧ (c = '-' ∨ c.isDigit) := by
  obtain ⟨negative, numeral, htext, hnumeral, -⟩ := n.writtenAs
  obtain ⟨c, rest, hchars, hdigit⟩ := hnumeral.chars_eq_cons
  cases negative with
  | true => exact ⟨'-', numeral.chars, by simp [htext], .inl rfl⟩
  | false => exact ⟨c, rest, by simp [htext, hchars], .inr hdigit⟩

namespace Json

theorem isWordChar_of_mem_number_text {number : Number} {c : Char}
    (hc : c ∈ number.text.toList) : isWordChar c := by
  obtain ⟨negative, n, htext, hn, -⟩ := number.writtenAs
  rw [htext, List.mem_append] at hc
  rcases hc with hc | hc
  · cases negative with
    | false => simp at hc
    | true =>
      obtain rfl := List.mem_singleton.1 hc
      decide
  · exact hn.isWordChar c hc

theorem wordToken?_number (number : Number) :
    wordToken? number.text.toList = some (.scalar (.num number)) := by
  obtain ⟨negative, n, htext, hn, hvalue⟩ := number.writtenAs
  have hscan := Numeral.scan_chars hn
  rw [htext]
  cases negative with
  | true =>
    change wordToken? ('-' :: n.chars) = _
    simp [wordToken?, hscan, hvalue]
  | false =>
    obtain ⟨c, rest, hcons, hc⟩ := hn.chars_eq_cons
    -- a digit starts none of the words that are spelled out
    have hne : c ≠ 'n' ∧ c ≠ 't' ∧ c ≠ 'f' ∧ c ≠ '-' := by
      refine ⟨?_, ?_, ?_, ?_⟩ <;> rintro rfl <;> exact absurd hc (by decide)
    rw [wordToken?]
    · simp [hscan, hvalue]
    all_goals simp [hcons, hne]

end Json

end ApiContract
