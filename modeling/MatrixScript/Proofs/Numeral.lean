import MatrixScript.Number.Decimal
import MatrixScript.Proofs.Double

/-!
# Numbers as texts

Which texts are numbers, told in two steps. In the first step a text is read as any double, with a
sign of either kind and with the names of what is not finite (`parse?`). In the second step it is
asked whether the double is finite and how the text starts (`IsNumber`). A numeral is read in one
step, and both ways come to the same (`read?_eq_some_iff`).

The bits of a numeral's double are computed as a natural number. That number is the pattern of the
double that is made of it (`ofFloat_of_ofPattern?`), so what is known about patterns is known about
numerals.
-/

namespace MatrixScript.Number

open Float.Model Float.Model.UnpackedFloat

/-! ### Doubles made of patterns -/

/-- A pattern without the exponent of all ones is kept by the double that is made of it. -/
theorem toBits_ofBits {b : UInt64} (h : b.toNat / 2 ^ 52 % 2048 ≠ 2047) :
    (Float.ofBits b).toBits = b := by
  have hvalid : Format.binary64.Valid b.toBitVec := by
    refine ⟨fun hones _ ↦ absurd ?_ h⟩
    have hparts := toNat_packComponents (Sign.ofBitVec (@unpackSign Format.binary64 b.toBitVec))
      (@unpackExponent Format.binary64 b.toBitVec) (@unpackMantissa Format.binary64 b.toBitVec)
    rw [packComponents_unpack] at hparts
    have hexponent : (@unpackExponent Format.binary64 b.toBitVec).toNat = 2047 := by
      rw [hones]
      rfl
    have hmantissa := (@unpackMantissa Format.binary64 b.toBitVec).isLt
    change _ < 2 ^ 52 at hmantissa
    change b.toNat = _ at hparts
    omega
  exact congrArg Float.toBits (ofModel_pack_unpack ⟨⟨b, hvalid⟩⟩)

/-- **What a pattern stands for**: a finite double with its sign, and with the mantissa and the
exponent that the pattern is made of. -/
theorem ofFloat_of_ofPattern? {negative : Bool} {pattern : ℕ} {x : Float}
    (h : ofPattern? negative pattern = some x) :
    ∃ m q, Parts.ofFloat x = .finite negative m q ∧ Canonical m q ∧ q ≤ 971 ∧
      (q + 1074).toNat * 2 ^ 52 + m = pattern := by
  have hinfinity := infinityPattern_eq
  rw [ofPattern?] at h
  split at h
  · next hlt =>
    obtain rfl := Option.some.inj h
    generalize hn : pattern + (if negative then pow2 63 else 0) = n
    have hsign : n = pattern + negative.toNat * 2 ^ 63 := by
      rw [← hn]
      rcases negative with _ | _
      · rfl
      · exact congrArg (pattern + ·) (Nat.one_mul _).symm
    have hbit := negative.toNat_lt
    have hnat : (UInt64.ofNat n).toNat = n := by
      rw [UInt64.toNat_ofNat']
      exact Nat.mod_eq_of_lt (by omega)
    have hfinite : (UInt64.ofNat n).toNat / 2 ^ 52 % 2048 ≠ 2047 := by
      rw [hnat]
      omega
    have hminus : (n / pow2 63 % 2 == 1) = negative := by
      have hdiv : n / 2 ^ 63 % 2 = negative.toNat := by omega
      show (n / 2 ^ 63 % 2 == 1) = negative
      rw [hdiv]
      cases negative <;> rfl
    have hexponent : n / pow2 52 % 2048 = pattern / 2 ^ 52 := by
      show n / 2 ^ 52 % 2048 = _
      omega
    have hmantissa : n % pow2 52 = pattern % 2 ^ 52 := by
      show n % 2 ^ 52 = _
      omega
    rw [Parts.ofFloat, toBits_ofBits hfinite, hnat, Parts.ofPattern]
    simp only [hminus, hexponent, hmantissa]
    rw [if_neg (by omega)]
    -- the patterns of the least exponent have no leading one
    split
    · exact ⟨_, _, rfl, ⟨le_rfl, by omega, Or.inl rfl⟩, by omega, by omega⟩
    · have hone : pow2 52 = 2 ^ 52 := rfl
      exact ⟨_, _, rfl, ⟨by omega, by omega, Or.inr (by omega)⟩, by omega, by omega⟩
  · cases h

theorem isFinite_of_ofFloat_eq {x : Float} {negative : Bool} {m : ℕ} {q : ℤ}
    (h : Parts.ofFloat x = .finite negative m q) : x.isFinite = true := by
  rw [ofFloat_eq_ofUnpacked] at h
  show x.toModel.unpack.isFinite = true
  rcases hx : x.toModel.unpack with s | _ | s | ⟨s, m', q', hm⟩
  · rw [hx] at h
    cases h
  · rw [hx] at h
    cases h
  · rfl
  · rfl

/-! ### Texts of any doubles -/

/-- The infinity with a sign. -/
def infinity (negative : Bool) : Float :=
  if negative then -1.0 / 0.0 else 1.0 / 0.0

/-- The double nearest to a decimal. What rounds beyond the largest one is infinite. -/
def Decimal.toDouble (d : Decimal) : Float :=
  d.toFloat?.getD (infinity d.negative)

/-- The double that is not finite and has the given name, in small letters or capitals. -/
def nonFinite? (negative : Bool) (cs : List Char) : Option Float :=
  let name := String.ofList (cs.map Char.toLower)
  if name = "inf" ∨ name = "infinity" then some (infinity negative)
  else if name = "nan" then some (0.0 / 0.0)
  else none

/-- The double that a text without a sign denotes. -/
def parseUnsigned? (negative : Bool) (cs : List Char) : Option Float :=
  (nonFinite? negative cs).or ((Decimal.readUnsigned? negative cs).map Decimal.toDouble)

/-- The double that a text denotes, finite or not. -/
def parse? : List Char → Option Float
  | '+' :: cs => parseUnsigned? false cs
  | '-' :: cs => parseUnsigned? true cs
  | cs => parseUnsigned? false cs

/-- Whether a text starts like a number. -/
def startsNumber : List Char → Bool
  | [] => false
  | c :: _ => c == '-' || c == '.' || c.isDigit

/-- A text is a number if it denotes a finite double and starts with a minus, a point or a digit. -/
structure IsNumber (cs : List Char) (x : Float) : Prop where
  parse : parse? cs = some x
  finite : x.isFinite = true
  starts : startsNumber cs = true

/-! ### Numerals -/

theorem isFinite_infinity (negative : Bool) : (infinity negative).isFinite = false := by
  cases negative <;> decide +kernel

theorem Decimal.toFloat?_eq_some_iff {d : Decimal} {x : Float} :
    d.toFloat? = some x ↔ d.toDouble = x ∧ x.isFinite = true := by
  rw [toDouble]
  rcases hfloat : d.toFloat? with _ | y
  · refine ⟨nofun, ?_⟩
    rintro ⟨rfl, hfinite⟩
    rw [Option.getD_none, isFinite_infinity] at hfinite
    cases hfinite
  · obtain ⟨m, q, hparts, -⟩ := ofFloat_of_ofPattern? hfloat
    have hfinite := isFinite_of_ofFloat_eq hparts
    rw [Option.getD_some, Option.some_inj]
    exact ⟨fun h ↦ ⟨h, h ▸ hfinite⟩, fun h ↦ h.1⟩

/-- What has no minus in front has no sign. -/
theorem Decimal.read?_of_not_minus {cs : List Char} (h : ¬ ∃ ds, cs = '-' :: ds) :
    read? cs = readUnsigned? false cs := by
  unfold read?
  split
  · exact absurd ⟨_, rfl⟩ h
  · rfl

/-- A numeral without a sign starts with a digit or a point. -/
theorem Decimal.starts_of_readUnsigned? {negative : Bool} {cs : List Char} {d : Decimal}
    (h : readUnsigned? negative cs = some d) :
    ∃ c ds, cs = c :: ds ∧ (c = '.' ∨ c.isDigit = true) := by
  rcases cs with _ | ⟨c, ds⟩
  · cases h
  · refine ⟨c, ds, rfl, ?_⟩
    by_contra! hc
    have hspan : (c :: ds).span Char.isDigit = ([], c :: ds) := by
      rw [List.span_eq_takeWhile_dropWhile, List.takeWhile_cons_of_neg hc.2,
        List.dropWhile_cons_of_neg hc.2]
    have hfraction : splitFraction (c :: ds) = ([], c :: ds) := by
      rw [splitFraction]
      rintro ds' ⟨⟩
      exact hc.1 rfl
    simp only [readUnsigned?, hspan, hfraction] at h
    cases h

/-- Points and digits are the same in small letters. -/
theorem toLower_of_starts {c : Char} (h : c = '.' ∨ c.isDigit = true) : c.toLower = c := by
  have hle : c.val ≤ 57 := by
    rcases h with rfl | h
    · decide
    · rw [Char.isDigit, Bool.and_eq_true, decide_eq_true_iff, decide_eq_true_iff] at h
      exact h.2
  unfold Char.toLower
  split
  · next hupper => exact absurd (UInt32.le_trans hupper.1 hle) (by decide)
  · rfl

/-- A numeral is not the name of what is not finite. -/
theorem nonFinite?_of_readUnsigned? {negative : Bool} {cs : List Char} {d : Decimal}
    (h : Decimal.readUnsigned? negative cs = some d) : nonFinite? negative cs = none := by
  obtain ⟨c, ds, rfl, hc⟩ := Decimal.starts_of_readUnsigned? h
  have hname : ∀ name : String, name.toList.head? = some 'i' ∨ name.toList.head? = some 'n' →
      String.ofList ((c :: ds).map Char.toLower) ≠ name := by
    rintro name hletter rfl
    rw [String.toList_ofList, List.map_cons, List.head?_cons, toLower_of_starts hc] at hletter
    rcases hletter with hletter | hletter
    · obtain rfl := Option.some.inj hletter
      exact absurd hc (by decide)
    · obtain rfl := Option.some.inj hletter
      exact absurd hc (by decide)
  have hinfinity : ¬ (String.ofList ((c :: ds).map Char.toLower) = "inf" ∨
      String.ofList ((c :: ds).map Char.toLower) = "infinity") := by
    rintro (hinf | hinf)
    · exact hname _ (.inl (by decide)) hinf
    · exact hname _ (.inl (by decide)) hinf
  rw [nonFinite?, if_neg hinfinity, if_neg (hname _ (.inr (by decide)))]

theorem isFinite_of_nonFinite? {negative : Bool} {cs : List Char} {x : Float}
    (h : nonFinite? negative cs = some x) : x.isFinite = false := by
  simp only [nonFinite?] at h
  split at h
  · obtain rfl := Option.some.inj h
    exact isFinite_infinity negative
  · split at h
    · obtain rfl := Option.some.inj h
      decide +kernel
    · cases h

/-- Without a sign, the texts of finite doubles are the numerals. -/
theorem parseUnsigned?_eq_some_iff {negative : Bool} {cs : List Char} {x : Float} :
    (parseUnsigned? negative cs = some x ∧ x.isFinite = true) ↔
      (Decimal.readUnsigned? negative cs).bind Decimal.toFloat? = some x := by
  rw [parseUnsigned?]
  rcases hread : Decimal.readUnsigned? negative cs with _ | d
  · rw [Option.map_none, Option.or_none, Option.bind_none]
    refine ⟨fun ⟨hname, hfinite⟩ ↦ ?_, nofun⟩
    rw [isFinite_of_nonFinite? hname] at hfinite
    cases hfinite
  · rw [nonFinite?_of_readUnsigned? hread, Option.none_or, Option.map_some, Option.some_inj,
      Option.bind_some, Decimal.toFloat?_eq_some_iff]

/-- **Numerals are the numbers among the texts of doubles.** -/
theorem read?_eq_some_iff {cs : List Char} {x : Float} : read? cs = some x ↔ IsNumber cs x := by
  have hiff : IsNumber cs x ↔ (parse? cs = some x ∧ x.isFinite = true) ∧ startsNumber cs = true :=
    ⟨fun h ↦ ⟨⟨h.parse, h.finite⟩, h.starts⟩, fun h ↦ ⟨h.1.1, h.1.2, h.2⟩⟩
  rw [hiff, read?]
  by_cases hminus : ∃ ds, cs = '-' :: ds
  · obtain ⟨ds, rfl⟩ := hminus
    exact parseUnsigned?_eq_some_iff.symm.trans (and_iff_left rfl).symm
  have hstarts : (Decimal.readUnsigned? false cs).bind Decimal.toFloat? = some x →
      startsNumber cs = true := by
    intro h
    obtain ⟨d, hd, -⟩ := Option.bind_eq_some_iff.1 h
    obtain ⟨c, ds, rfl, hc⟩ := Decimal.starts_of_readUnsigned? hd
    rcases hc with rfl | hc
    · rfl
    · rw [startsNumber, hc, Bool.or_true]
  rw [Decimal.read?_of_not_minus hminus]
  by_cases hplus : ∃ ds, cs = '+' :: ds
  · -- a text with a plus in front does not start like a number
    obtain ⟨ds, rfl⟩ := hplus
    exact iff_of_false (fun h ↦ Bool.false_ne_true (hstarts h)) fun h ↦ Bool.false_ne_true h.2
  · have hparse : parse? cs = parseUnsigned? false cs := by
      unfold parse?
      split
      · exact absurd ⟨_, rfl⟩ hplus
      · exact absurd ⟨_, rfl⟩ hminus
      · rfl
    rw [hparse, parseUnsigned?_eq_some_iff]
    exact ⟨fun h ↦ ⟨h, hstarts h⟩, fun h ↦ h.1⟩

end MatrixScript.Number
