import ApiContract.Json.Parse
import ApiContract.Json.Text

namespace ApiContract

namespace Json

inductive Enclosed : List Char → Prop
  | nil : Enclosed []
  | plain {c : Char} {rest : List Char} (hquote : c ≠ '"') (hbackslash : c ≠ '\\')
      (hrest : Enclosed rest) : Enclosed (c :: rest)
  | escape {c : Char} {rest : List Char} (hrest : Enclosed rest) : Enclosed ('\\' :: c :: rest)

structure Denotes (escaped : List Char) (c : Char) : Prop where
  enclosed : ∀ {rest}, Enclosed rest → Enclosed (escaped ++ rest)
  units : ∀ rest, Json.units (escaped ++ rest) = (Json.units rest).map (c.toNat :: ·)

theorem joinUnits_toNat (cs : List Char) : joinUnits (cs.map Char.toNat) = some cs := by
  induction cs with
  | nil => rfl
  | cons c rest ih =>
    have hvalid : ¬(isHighSurrogate c.toNat) ∧ ¬(isLowSurrogate c.toNat) := by
      have := c.valid
      simp only [UInt32.isValidChar, Nat.isValidChar] at this
      simp only [isHighSurrogate, isLowSurrogate, Char.toNat, Bool.and_eq_true, decide_eq_true_eq]
      omega
    rw [List.map_cons]
    unfold joinUnits
    simp [hvalid, ih]

theorem units_flatMap {escape : Char → List Char} {cs : List Char}
    (h : ∀ c ∈ cs, Denotes (escape c) c) :
    units (cs.flatMap escape) = some (cs.map Char.toNat) := by
  induction cs with
  | nil => rfl
  | cons c rest ih =>
    rw [List.flatMap_cons, (h c (by simp)).units, ih fun c hc => h c (by simp [hc])]
    rfl

theorem enclosed_flatMap {escape : Char → List Char} {cs : List Char}
    (h : ∀ c ∈ cs, Denotes (escape c) c) : Enclosed (cs.flatMap escape) := by
  induction cs with
  | nil => exact .nil
  | cons c rest ih =>
    rw [List.flatMap_cons]
    exact (h c (by simp)).enclosed (ih fun c hc => h c (by simp [hc]))

theorem stringOfBody_flatMap {escape : Char → List Char} {s : String}
    (h : ∀ c ∈ s.toList, Denotes (escape c) c) :
    stringOfBody (s.toList.flatMap escape) = some s := by
  simp [stringOfBody, units_flatMap h, joinUnits_toNat]

theorem denotes_self {c : Char} (hquote : c ≠ '"') (hbackslash : c ≠ '\\') (hcontrol : ¬c < ' ') :
    Denotes [c] c := by
  refine ⟨fun hrest => .plain hquote hbackslash hrest, fun rest => ?_⟩
  rw [List.singleton_append, units]
  · simp [hbackslash, hcontrol]
  · simp [hbackslash]
  · simp [hbackslash]

theorem hex4_spec : ∀ n < 32, (hex4 n).length = 4 ∧ (hex4 n).all Numeral.isHexDigit ∧
    Numeral.digitsValue 16 (hex4 n) = n := by
  decide +kernel

theorem denotes_hex4 {c : Char} (hcontrol : c < ' ') : Denotes ('\\' :: 'u' :: hex4 c.toNat) c := by
  obtain ⟨hlength, hhex, hvalue⟩ := hex4_spec c.toNat hcontrol
  have hne {d : Char} (hd : Numeral.isHexDigit d) : d ≠ '"' ∧ d ≠ '\\' := by
    constructor <;> rintro rfl <;> exact absurd hd (by decide)
  match hex4 c.toNat, hlength, hhex, hvalue with
  | [w, x, y, z], _, hhex, hvalue =>
    refine ⟨fun hrest => ?_, fun rest => ?_⟩
    · simp only [List.all_cons, List.all_nil, Bool.and_eq_true] at hhex
      obtain ⟨hw, hx, hy, hz, -⟩ := hhex
      have hdigits := Enclosed.plain (hne hz).1 (hne hz).2 hrest
      have hdigits := hdigits.plain (hne hy).1 (hne hy).2
      have hdigits := hdigits.plain (hne hx).1 (hne hx).2
      exact .escape (hdigits.plain (hne hw).1 (hne hw).2)
    · simp only [List.cons_append, List.nil_append]
      rw [units, if_pos hhex, hvalue]

theorem denotes_escape {c d : Char}
    (h : ∀ rest, units ('\\' :: d :: rest) = (units rest).map (c.toNat :: ·)) :
    Denotes ['\\', d] c :=
  ⟨.escape, h⟩

theorem denotes_escapedChar (c : Char) : Denotes (escapedChar c) c := by
  unfold escapedChar
  split
  case h_8 hquote hbackslash _ _ _ _ _ =>
    split
    · rename_i hcontrol
      exact denotes_hex4 hcontrol
    · rename_i hcontrol
      exact denotes_self hquote hbackslash hcontrol
  all_goals exact denotes_escape fun rest => by simp [units]

theorem denotes_quoted {c : Char} (hbackslash : c ≠ '\\') (hcontrol : ¬c < ' ') :
    Denotes (if c = '"' then ['\\', '"'] else [c]) c := by
  split
  · rename_i hquote
    subst hquote
    exact denotes_escape fun rest => by simp [units]
  · rename_i hquote
    exact denotes_self hquote hbackslash hcontrol

end Json

end ApiContract
