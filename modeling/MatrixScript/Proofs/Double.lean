import MatrixScript.Proofs.Nearest

/-!
# Doubles as numbers

What doubles stand for, told on integers and rational numbers. A finite double has a value, and
every double that is a number has a rank: its bit pattern as a signed integer, with the infinities
at both ends. Comparing doubles is comparing ranks (`le_iff`, `lt_iff`, `beq_iff`); a sign in front
of a double is a sign in front of its rank (`rank_neg`, `rank_abs`).

Doubles are unpacked before an operation and packed after it. What is unpacked has a canonical
mantissa and exponent (`Canonical`), and what is canonical comes back from its pattern
(`ofFloat_pack_finite`), so the rest can be said about mantissas and exponents.
-/

namespace MatrixScript.Number

open Float.Model Float.Model.UnpackedFloat

/-! ### Values and ranks -/

/-- An integer with a sign. -/
def signed (negative : Bool) (n : ℤ) : ℤ :=
  if negative then -n else n

theorem signed_eq_zero_iff {negative : Bool} {n : ℤ} : signed negative n = 0 ↔ n = 0 := by
  rw [signed]
  split
  · exact neg_eq_zero
  · rfl

theorem signed_not (negative : Bool) (n : ℤ) : signed (!negative) n = -signed negative n := by
  rcases negative with _ | _
  · rfl
  · exact (neg_neg n).symm

theorem abs_signed (negative : Bool) (n : ℕ) : |signed negative n| = n := by
  rcases negative with _ | _
  · exact Nat.abs_cast n
  · exact (abs_neg _).trans (Nat.abs_cast n)

/-- The value of a finite double; zero for the others. -/
def Parts.value : Parts → ℚ
  | .finite negative m q => signed negative m * 2 ^ q
  | _ => 0

/-- The place of a number among the doubles. Both zeros have the same one. -/
def Parts.rank : Parts → Option ℤ
  | .nan => none
  | .infinite negative => some (signed negative infinityPattern)
  | .finite negative m q => some (signed negative ((q + 1074).toNat * 2 ^ 52 + m : ℕ))

/-- The value of a finite double; zero for the others. -/
def value (x : Float) : ℚ :=
  (Parts.ofFloat x).value

/-- The place of a double among the doubles, if it is a number. -/
def rank (x : Float) : Option ℤ :=
  (Parts.ofFloat x).rank

/-- The mantissas and exponents of finite doubles, up to the greatest exponent. -/
structure Canonical (m : ℕ) (q : ℤ) : Prop where
  least : -1074 ≤ q
  lt : m < 2 ^ 53
  full : q = -1074 ∨ 2 ^ 52 ≤ m

theorem infinityPattern_eq : infinityPattern = 2047 * 2 ^ 52 := rfl

/-! ### Reading bit patterns -/

/-- Whether a sign is a minus. -/
def isMinus : Sign → Bool
  | .negative => true
  | .positive => false

/-- What an unpacked double stands for. -/
def Parts.ofUnpacked : UnpackedFloat → Parts
  | .notANumber => .nan
  | .infinity s => .infinite (isMinus s)
  | .zero s => .finite (isMinus s) 0 (-1074)
  | .finite s m e _ => .finite (isMinus s) m e

theorem toNat_packComponents (s : Sign) (e : BitVec 11) (m : BitVec 52) :
    (packComponents Format.binary64 s e m).toNat =
      s.toBitVec.toNat * 2 ^ 63 + e.toNat * 2 ^ 52 + m.toNat := by
  simp only [packComponents, BitVec.toNat_append]
  rw [← Nat.shiftLeft_add_eq_or_of_lt m.isLt, ← Nat.shiftLeft_add_eq_or_of_lt e.isLt]
  simp only [Nat.shiftLeft_eq]
  omega

/-- A pattern is made up of the components that it is taken apart into. -/
theorem packComponents_unpack (b : BitVec 64) :
    packComponents Format.binary64 (Sign.ofBitVec (@unpackSign Format.binary64 b))
      (@unpackExponent Format.binary64 b) (@unpackMantissa Format.binary64 b) = b := by
  have hsign : (Sign.ofBitVec (@unpackSign Format.binary64 b)).toBitVec.toNat =
      b.toNat / 2 ^ 63 := by
    have hback : ∀ c : BitVec 1, (Sign.ofBitVec c).toBitVec = c := by decide
    rw [hback]
    show (b.toNat >>> 63) % 2 ^ 1 = _
    rw [Nat.shiftRight_eq_div_pow]
    omega
  have hexponent : (@unpackExponent Format.binary64 b).toNat = b.toNat / 2 ^ 52 % 2 ^ 11 := by
    show (b.toNat >>> 52) % 2 ^ 11 = _
    rw [Nat.shiftRight_eq_div_pow]
  have hmantissa : (@unpackMantissa Format.binary64 b).toNat = b.toNat % 2 ^ 52 := by
    show (b.toNat >>> 0) % 2 ^ 52 = _
    rw [Nat.shiftRight_zero]
  apply BitVec.eq_of_toNat_eq
  rw [toNat_packComponents, hsign, hexponent, hmantissa]
  omega

/-- What a pattern stands for, given its sign, its exponent and its mantissa. -/
theorem ofPattern_packComponents (s : Sign) (e : BitVec 11) (m : BitVec 52) :
    Parts.ofPattern (packComponents Format.binary64 s e m).toNat =
      if e = -1#11 then if m = 0#52 then .infinite (isMinus s) else .nan
      else if e = 0#11 then .finite (isMinus s) m.toNat (-1074)
      else .finite (isMinus s) (2 ^ 52 + m.toNat) (e.toNat - 1075) := by
  have he := e.isLt
  have hm := m.isLt
  have hs : s.toBitVec.toNat = (isMinus s).toNat := by cases s <;> rfl
  rw [toNat_packComponents, hs]
  generalize hn : (isMinus s).toNat * 2 ^ 63 + e.toNat * 2 ^ 52 + m.toNat = n
  have hs' := (isMinus s).toNat_lt
  have hsign : (n / pow2 63 % 2 == 1) = isMinus s := by
    have h : n / 2 ^ 63 % 2 = (isMinus s).toNat := by omega
    show (n / 2 ^ 63 % 2 == 1) = _
    rw [h]
    cases isMinus s <;> rfl
  have hexp : n / pow2 52 % 2048 = e.toNat := by
    show n / 2 ^ 52 % 2048 = _
    omega
  have hman : n % pow2 52 = m.toNat := by
    show n % 2 ^ 52 = _
    omega
  have hones : e = -1#11 ↔ e.toNat = 2047 := BitVec.toNat_inj.symm
  have hzero : e = 0#11 ↔ e.toNat = 0 := BitVec.toNat_inj.symm
  have hm0 : m = 0#52 ↔ m.toNat = 0 := BitVec.toNat_inj.symm
  simp only [Parts.ofPattern, hsign, hexp, hman, hones, hzero, hm0]
  rfl

/-- Bit patterns are read as doubles are unpacked. -/
theorem ofFloat_eq_ofUnpacked (x : Float) : Parts.ofFloat x = .ofUnpacked x.toModel.unpack := by
  let b : BitVec 64 := x.toModel.toBits.toBitVec
  let s : Sign := .ofBitVec (@unpackSign Format.binary64 b)
  let e : BitVec 11 := @unpackExponent Format.binary64 b
  let m : BitVec 52 := @unpackMantissa Format.binary64 b
  have hpattern : Parts.ofFloat x =
      Parts.ofPattern (packComponents Format.binary64 s e m).toNat := by
    rw [packComponents_unpack]
    rfl
  rw [hpattern, ofPattern_packComponents]
  show _ = Parts.ofUnpacked (UnpackedFloat.unpack Format.binary64 b)
  -- both sides ask the same questions in the same order
  by_cases hones : e = -1#11
  · rw [if_pos hones]
    by_cases hm : m = 0#52
    · have hunpack : UnpackedFloat.unpack Format.binary64 b = .infinity s :=
        (if_pos hones).trans (if_pos hm)
      rw [if_pos hm, hunpack]
      rfl
    · have hunpack : UnpackedFloat.unpack Format.binary64 b = .notANumber :=
        (if_pos hones).trans (if_neg hm)
      rw [if_neg hm, hunpack]
      rfl
  · rw [if_neg hones]
    by_cases hzero : e = 0#11
    · rw [if_pos hzero]
      by_cases hm : m = 0#52
      · have hunpack : UnpackedFloat.unpack Format.binary64 b = .zero s :=
          (if_neg hones).trans ((if_pos hzero).trans (dif_pos hm))
        rw [hunpack, hm]
        rfl
      · have hunpack : ∃ hpos, UnpackedFloat.unpack Format.binary64 b =
            .finite s m.toNat ((e.toNat : ℤ) - 1075 + 1) hpos :=
          ⟨_, (if_neg hones).trans ((if_pos hzero).trans (dif_neg hm))⟩
        obtain ⟨hpos, hunpack⟩ := hunpack
        rw [hunpack, hzero]
        rfl
    · have hunpack : ∃ hpos, UnpackedFloat.unpack Format.binary64 b =
          .finite s (1#1 ++ m).toNat ((e.toNat : ℤ) - 1075) hpos :=
        ⟨_, (if_neg hones).trans (if_neg hzero)⟩
      obtain ⟨hpos, hunpack⟩ := hunpack
      have hfull : (1#1 ++ m).toNat = 2 ^ 52 + m.toNat := by
        rw [BitVec.toNat_append, ← Nat.shiftLeft_add_eq_or_of_lt m.isLt]
        rfl
      rw [if_neg hzero, hunpack, ← hfull]
      rfl

/-- Finite doubles have canonical mantissas and exponents. -/
theorem canonical_of_unpack {x : Float} {s : Sign} {m : ℕ} {q : ℤ} {hm : 0 < m}
    (h : x.toModel.unpack = .finite s m q hm) : Canonical m q ∧ q ≤ 971 := by
  have hparts := ofFloat_eq_ofUnpacked x
  rw [h] at hparts
  generalize hn : x.toBits.toNat = n
  have hpattern : Parts.ofPattern n = .finite (isMinus s) m q := by
    rw [← hn]
    exact hparts
  have hmod : n % pow2 52 < 2 ^ 52 := Nat.mod_lt _ (by decide)
  simp only [Parts.ofPattern] at hpattern
  split at hpattern
  · split at hpattern
    · cases hpattern
    · cases hpattern
  · next hones =>
    split at hpattern
    · obtain ⟨-, rfl, rfl⟩ := Parts.finite.inj hpattern
      exact ⟨⟨le_rfl, by omega, Or.inl rfl⟩, by decide⟩
    · next hzero =>
      obtain ⟨-, rfl, rfl⟩ := Parts.finite.inj hpattern
      have hexp : n / pow2 52 % 2048 < 2048 := Nat.mod_lt _ (by decide)
      have hone : pow2 52 = 2 ^ 52 := rfl
      refine ⟨⟨by omega, by omega, Or.inr (by omega)⟩, by omega⟩

/-! ### Packing -/

theorem ofFloat_pack_zero (s : Sign) :
    Parts.ofFloat (.ofModel (.pack (.zero s))) = .finite (isMinus s) 0 (-1074) := by
  cases s <;> rfl

theorem ofFloat_pack_infinity (s : Sign) :
    Parts.ofFloat (.ofModel (.pack (.infinity s))) = .infinite (isMinus s) := by
  cases s <;> rfl

/-- A canonical mantissa and exponent come back from the pattern, unless the exponent is too
great. -/
theorem ofFloat_pack_finite (s : Sign) {m : ℕ} {q : ℤ} (hm : 0 < m) (h : Canonical m q) :
    Parts.ofFloat (.ofModel (.pack (.finite s m q hm))) =
      if 971 < q then .infinite (isMinus s) else .finite (isMinus s) m q := by
  have hleast := h.least
  have hlt := h.lt
  have hlog : m.log2 + 1 = 53 ↔ 2 ^ 52 ≤ m := by
    rw [← Nat.le_log2 hm.ne']
    have := (Nat.log2_lt hm.ne').2 hlt
    omega
  have hpack : UnpackedFloat.pack Format.binary64 (.finite s m q hm) =
      if 2048 ≤ (q + 1075).toNat + 1 then packedInfinity Format.binary64 s
      else if m.log2 + 1 = 53 then
        packComponents Format.binary64 s (BitVec.ofNat 11 (q + 1075).toNat) (BitVec.ofNat 52 m)
      else packComponents Format.binary64 s 0#11 (BitVec.ofNat 52 m) := by
    have hbias : q + 1075 = q + Format.binary64.exponentBias + 52 := by
      show q + 1075 = q + 1023 + 52
      omega
    rw [hbias]
    rfl
  show Parts.ofPattern (UnpackedFloat.pack Format.binary64 (.finite s m q hm)).toNat = _
  rw [hpack]
  rcases lt_or_ge 971 q with hbig | hsmall
  · rw [if_pos hbig, if_pos (by omega)]
    exact ofFloat_pack_infinity s
  · rw [if_neg hsmall.not_gt, if_neg (by omega)]
    rcases le_or_gt (2 ^ 52) m with hnormal | hsubnormal
    · have he : (BitVec.ofNat 11 (q + 1075).toNat).toNat = (q + 1075).toNat := by
        rw [BitVec.toNat_ofNat]
        omega
      have hman : 2 ^ 52 + (BitVec.ofNat 52 m).toNat = m := by
        rw [BitVec.toNat_ofNat]
        omega
      have hones : BitVec.ofNat 11 (q + 1075).toNat ≠ -1#11 := fun heq ↦ by
        have := congrArg BitVec.toNat heq
        rw [he] at this
        change _ = 2047 at this
        omega
      have hzero : BitVec.ofNat 11 (q + 1075).toNat ≠ 0#11 := fun heq ↦ by
        have := congrArg BitVec.toNat heq
        rw [he] at this
        change _ = 0 at this
        omega
      rw [if_pos (hlog.2 hnormal), ofPattern_packComponents, if_neg hones, if_neg hzero, he, hman]
      congr 1
      omega
    · have hman : (BitVec.ofNat 52 m).toNat = m := by
        rw [BitVec.toNat_ofNat]
        omega
      rw [if_neg fun h ↦ hsubnormal.not_ge (hlog.1 h), ofPattern_packComponents,
        if_neg (by decide), if_pos rfl, hman, h.full.resolve_right hsubnormal.not_ge]

theorem rank_pack_zero (s : Sign) : rank (.ofModel (.pack (.zero s))) = some 0 := by
  rw [rank, ofFloat_pack_zero]
  exact congrArg some (signed_eq_zero_iff.2 rfl)

theorem rank_pack_infinity (s : Sign) :
    rank (.ofModel (.pack (.infinity s))) = some (signed (isMinus s) infinityPattern) := by
  rw [rank, ofFloat_pack_infinity]
  rfl

/-- The rank of what is packed, where too great an exponent counts as infinity. -/
theorem rank_pack_finite (s : Sign) {m : ℕ} {q : ℤ} (hm : 0 < m) (h : Canonical m q) :
    rank (.ofModel (.pack (.finite s m q hm))) =
      some (signed (isMinus s) (min infinityPattern ((q + 1074).toNat * 2 ^ 52 + m) : ℕ)) := by
  have hleast := h.least
  have hlt := h.lt
  have hinfinity := infinityPattern_eq
  rw [rank, ofFloat_pack_finite s hm h]
  split
  · next hbig =>
    have hfull := h.full.resolve_left (by omega)
    rw [Nat.min_eq_left (by omega)]
    rfl
  · rw [Nat.min_eq_right (by omega)]
    rfl

/-! ### Comparing -/

/-- Finite doubles have canonical mantissas, and exponents that are not too great. -/
def Fits : UnpackedFloat → Prop
  | .finite _ m q _ => Canonical m q ∧ q ≤ 971
  | _ => True

theorem fits_unpack (x : Float) : Fits x.toModel.unpack := by
  rcases hx : x.toModel.unpack with s | _ | s | ⟨s, m, q, hm⟩
  · trivial
  · trivial
  · trivial
  · exact canonical_of_unpack hx

/-- Comparing exponents and then mantissas is comparing patterns. -/
theorem compare_pattern {m n : ℕ} {p q : ℤ} (hm : Canonical m p) (hn : Canonical n q) :
    (compare p q).then (compare m n) =
      compare (((p + 1074).toNat * 2 ^ 52 + m : ℕ) : ℤ) ((q + 1074).toNat * 2 ^ 52 + n : ℕ) := by
  obtain ⟨hp, hm', hmfull⟩ := hm
  obtain ⟨hq, hn', hnfull⟩ := hn
  rcases lt_trichotomy p q with h | rfl | h
  · rw [Int.compare_eq_lt.2 h, eq_comm]
    exact Int.compare_eq_lt.2 (by omega)
  · rw [Int.compare_eq_eq.2 rfl]
    show compare m n = _
    rcases lt_trichotomy m n with h | rfl | h
    · rw [Nat.compare_eq_lt.2 h, eq_comm]
      exact Int.compare_eq_lt.2 (by omega)
    · rw [Nat.compare_eq_eq.2 rfl, Int.compare_eq_eq.2 rfl]
    · rw [Nat.compare_eq_gt.2 h, eq_comm]
      exact Int.compare_eq_gt.2 (by omega)
  · rw [Int.compare_eq_gt.2 h, eq_comm]
    exact Int.compare_eq_gt.2 (by omega)

/-- The pattern of a finite double other than zero. -/
theorem Canonical.pattern_bounds {m : ℕ} {q : ℤ} (h : Canonical m q) (hm : 0 < m) (hq : q ≤ 971) :
    0 < (q + 1074).toNat * 2 ^ 52 + m ∧ (q + 1074).toNat * 2 ^ 52 + m < infinityPattern := by
  obtain ⟨hleast, hlt, -⟩ := h
  rw [infinityPattern_eq]
  omega

theorem Canonical.pattern_inj {m n : ℕ} {p q : ℤ} (hm : Canonical m p) (hn : Canonical n q)
    (h : (p + 1074).toNat * 2 ^ 52 + m = (q + 1074).toNat * 2 ^ 52 + n) : m = n ∧ p = q := by
  obtain ⟨hp, hm', hmfull⟩ := hm
  obtain ⟨hq, hn', hnfull⟩ := hn
  omega

theorem compare_eq_swap_compare_neg (a b : ℤ) : (compare a b).swap = compare (-a) (-b) := by
  rcases lt_trichotomy a b with h | rfl | h
  · rw [Int.compare_eq_lt.2 h, Int.compare_eq_gt.2 (neg_lt_neg h)]
    rfl
  · rw [Int.compare_eq_eq.2 rfl, Int.compare_eq_eq.2 rfl]
    rfl
  · rw [Int.compare_eq_gt.2 h, Int.compare_eq_lt.2 (neg_lt_neg h)]
    rfl

section Compare

variable {s s' : Sign} {m n : ℕ} {p q : ℤ} {hm : 0 < m} {hn : 0 < n}

/-- A zero is between the negative and the positive doubles. -/
theorem compare_zero_finite {b : ℕ} (hb : 0 < b) :
    UnpackedFloat.compare (.zero s) (.finite s' n q hn) =
      some (compare 0 (signed (isMinus s') b)) := by
  rcases s' with _ | _
  · exact congrArg some (Int.compare_eq_gt.2 (show -(b : ℤ) < 0 by omega)).symm
  · exact congrArg some (Int.compare_eq_lt.2 (show (0 : ℤ) < b by omega)).symm

theorem compare_finite_zero {a : ℕ} (ha : 0 < a) :
    UnpackedFloat.compare (.finite s m p hm) (.zero s') =
      some (compare (signed (isMinus s) a) 0) := by
  rcases s with _ | _
  · exact congrArg some (Int.compare_eq_lt.2 (show -(a : ℤ) < 0 by omega)).symm
  · exact congrArg some (Int.compare_eq_gt.2 (show (0 : ℤ) < a by omega)).symm

theorem compare_infinity_finite {b : ℕ} (hb : b < infinityPattern) :
    UnpackedFloat.compare (.infinity s) (.finite s' n q hn) =
      some (compare (signed (isMinus s) infinityPattern) (signed (isMinus s') b)) := by
  have hsigned : |signed (isMinus s') b| < infinityPattern := by
    rw [abs_signed]
    exact_mod_cast hb
  rcases s with _ | _
  · exact congrArg some (Int.compare_eq_lt.2 (abs_lt.1 hsigned).1).symm
  · exact congrArg some (Int.compare_eq_gt.2 (abs_lt.1 hsigned).2).symm

theorem compare_finite_infinity {a : ℕ} (ha : a < infinityPattern) :
    UnpackedFloat.compare (.finite s m p hm) (.infinity s') =
      some (compare (signed (isMinus s) a) (signed (isMinus s') infinityPattern)) := by
  have hsigned : |signed (isMinus s) a| < infinityPattern := by
    rw [abs_signed]
    exact_mod_cast ha
  rcases s' with _ | _
  · exact congrArg some (Int.compare_eq_gt.2 (abs_lt.1 hsigned).1).symm
  · exact congrArg some (Int.compare_eq_lt.2 (abs_lt.1 hsigned).2).symm

theorem compare_finite_finite {a b : ℕ} (ha : 0 < a) (hb : 0 < b)
    (h : (compare p q).then (compare m n) = compare (a : ℤ) b) :
    UnpackedFloat.compare (.finite s m p hm) (.finite s' n q hn) =
      some (compare (signed (isMinus s) a) (signed (isMinus s') b)) := by
  rcases s with _ | _
  · rcases s' with _ | _
    · show some ((compare p q).then (compare m n)).swap = _
      rw [h, compare_eq_swap_compare_neg]
      rfl
    · exact congrArg some (Int.compare_eq_lt.2 (show -(a : ℤ) < b by omega)).symm
  · rcases s' with _ | _
    · exact congrArg some (Int.compare_eq_gt.2 (show -(b : ℤ) < a by omega)).symm
    · exact congrArg some h

end Compare

/-- **Comparing doubles is comparing ranks.** -/
theorem compare_eq_of_rank {u v : UnpackedFloat} (hu : Fits u) (hv : Fits v) {a b : ℤ}
    (ha : (Parts.ofUnpacked u).rank = some a) (hb : (Parts.ofUnpacked v).rank = some b) :
    u.compare v = some (compare a b) := by
  rcases u with s | _ | s | ⟨s, m, p, hm⟩
  · obtain rfl := Option.some.inj ha
    rcases v with s' | _ | s' | ⟨s', n, q, hn⟩
    · obtain rfl := Option.some.inj hb
      rcases s with _ | _ <;> rcases s' with _ | _ <;> rfl
    · cases hb
    · obtain rfl := Option.some.inj hb
      rcases s with _ | _ <;> rcases s' with _ | _ <;> rfl
    · obtain rfl := Option.some.inj hb
      exact compare_infinity_finite (hv.1.pattern_bounds hn hv.2).2
  · cases ha
  · obtain rfl : signed (isMinus s) 0 = a := Option.some.inj ha
    rw [signed_eq_zero_iff.2 rfl]
    rcases v with s' | _ | s' | ⟨s', n, q, hn⟩
    · obtain rfl := Option.some.inj hb
      rcases s with _ | _ <;> rcases s' with _ | _ <;> rfl
    · cases hb
    · obtain rfl : signed (isMinus s') 0 = b := Option.some.inj hb
      rw [signed_eq_zero_iff.2 rfl]
      rfl
    · obtain rfl := Option.some.inj hb
      exact compare_zero_finite (hv.1.pattern_bounds hn hv.2).1
  · obtain rfl := Option.some.inj ha
    rcases v with s' | _ | s' | ⟨s', n, q, hn⟩
    · obtain rfl := Option.some.inj hb
      exact compare_finite_infinity (hu.1.pattern_bounds hm hu.2).2
    · cases hb
    · obtain rfl : signed (isMinus s') 0 = b := Option.some.inj hb
      rw [signed_eq_zero_iff.2 rfl]
      exact compare_finite_zero (hu.1.pattern_bounds hm hu.2).1
    · obtain rfl := Option.some.inj hb
      exact compare_finite_finite (hu.1.pattern_bounds hm hu.2).1 (hv.1.pattern_bounds hn hv.2).1
        (compare_pattern hu.1 hv.1)

theorem rank_eq (x : Float) : rank x = (Parts.ofUnpacked x.toModel.unpack).rank := by
  rw [rank, ofFloat_eq_ofUnpacked]

theorem unpack_of_rank_eq_none {x : Float} (h : rank x = none) :
    x.toModel.unpack = .notANumber := by
  rw [rank_eq] at h
  rcases hx : x.toModel.unpack with s | _ | s | ⟨s, m, q, hm⟩
  · rw [hx] at h
    cases h
  · rfl
  · rw [hx] at h
    cases h
  · rw [hx] at h
    cases h

theorem compare_unpack (x y : Float) :
    x.toModel.unpack.compare y.toModel.unpack =
      (rank x).bind fun a ↦ (rank y).map fun b ↦ compare a b := by
  rcases hx : rank x with _ | a
  · rw [unpack_of_rank_eq_none hx]
    rfl
  · rcases hy : rank y with _ | b
    · rw [unpack_of_rank_eq_none hy]
      rcases x.toModel.unpack with _ | _ | _ | _ <;> rfl
    · rw [rank_eq] at hx hy
      exact compare_eq_of_rank (fits_unpack x) (fits_unpack y) hx hy

theorem le_iff {x y : Float} :
    x ≤ y ↔ ∃ a b, rank x = some a ∧ rank y = some b ∧ a ≤ b := by
  have hle : x ≤ y ↔ x.toModel.unpack.le y.toModel.unpack = true := decide_eq_true_iff
  rw [hle, UnpackedFloat.le, compare_unpack]
  rcases rank x with _ | a
  · simp
  · rcases rank y with _ | b
    · simp
    · simp [Int.isLE_compare]

theorem lt_iff {x y : Float} :
    x < y ↔ ∃ a b, rank x = some a ∧ rank y = some b ∧ a < b := by
  have hlt : x < y ↔ x.toModel.unpack.lt y.toModel.unpack = true := decide_eq_true_iff
  rw [hlt, UnpackedFloat.lt, compare_unpack]
  rcases rank x with _ | a
  · simp
  · rcases rank y with _ | b
    · simp
    · simp [Int.compare_eq_lt]

theorem beq_iff {x y : Float} : (x == y) = true ↔ ∃ a, rank x = some a ∧ rank y = some a := by
  show x.toModel.unpack.beq y.toModel.unpack = true ↔ _
  unfold UnpackedFloat.beq
  rw [compare_unpack]
  rcases rank x with _ | a
  · simp
  · rcases rank y with _ | b
    · simp
    · show (some (compare a b) == some .eq) = true ↔ _
      rw [beq_iff_eq, Option.some_inj, Int.compare_eq_eq]
      refine ⟨fun h ↦ ⟨a, rfl, h ▸ rfl⟩, ?_⟩
      rintro ⟨c, hc, hc'⟩
      exact (Option.some.inj hc).trans (Option.some.inj hc').symm

theorem float_le_of_lt {x y : Float} (h : x < y) : x ≤ y := by
  obtain ⟨a, b, ha, hb, hab⟩ := lt_iff.1 h
  exact le_iff.2 ⟨a, b, ha, hb, hab.le⟩

theorem float_le_trans {x y z : Float} (hxy : x ≤ y) (hyz : y ≤ z) : x ≤ z := by
  obtain ⟨a, b, ha, hb, hab⟩ := le_iff.1 hxy
  obtain ⟨b', c, hb', hc, hbc⟩ := le_iff.1 hyz
  obtain rfl := Option.some.inj (hb.symm.trans hb')
  exact le_iff.2 ⟨a, c, ha, hc, hab.trans hbc⟩

theorem float_not_lt_of_le {x y : Float} (h : x ≤ y) : ¬ y < x := by
  intro hlt
  obtain ⟨a, b, ha, hb, hab⟩ := le_iff.1 h
  obtain ⟨b', a', hb', ha', hba⟩ := lt_iff.1 hlt
  obtain rfl := Option.some.inj (ha.symm.trans ha')
  obtain rfl := Option.some.inj (hb.symm.trans hb')
  exact hab.not_gt hba

/-! ### Signs -/

/-- Parts with another sign. -/
def Parts.withSign (g : Bool → Bool) : Parts → Parts
  | .nan => .nan
  | .infinite negative => .infinite (g negative)
  | .finite negative m q => .finite (g negative) m q

/-- An unpacked double with another sign. -/
def withSign (f : Sign → Sign) : UnpackedFloat → UnpackedFloat
  | .notANumber => .notANumber
  | .infinity s => .infinity (f s)
  | .zero s => .zero (f s)
  | .finite s m q hm => .finite (f s) m q hm

/-- A change of sign can be made before packing. -/
theorem ofFloat_pack_withSign {f : Sign → Sign} {g : Bool → Bool}
    (hsign : ∀ s, isMinus (f s) = g (isMinus s)) (u : UnpackedFloat) :
    Parts.ofFloat (.ofModel (.pack (withSign f u))) =
      (Parts.ofFloat (.ofModel (.pack u))).withSign g := by
  have hcomponents : ∀ (s : Sign) (e : BitVec 11) (m : BitVec 52),
      Parts.ofPattern (packComponents Format.binary64 (f s) e m).toNat =
        (Parts.ofPattern (packComponents Format.binary64 s e m).toNat).withSign g := by
    intro s e m
    rw [ofPattern_packComponents, ofPattern_packComponents, hsign]
    split
    · split
      · rfl
      · rfl
    · split
      · rfl
      · rfl
  have hnan : Parts.ofFloat (.ofModel (.pack .notANumber)) = .nan := rfl
  rcases u with s | _ | s | ⟨s, m, q, hm⟩
  · exact hcomponents s _ _
  · show Parts.ofFloat (.ofModel (.pack .notANumber)) = _
    rw [hnan]
    rfl
  · exact hcomponents s _ _
  · show Parts.ofPattern (UnpackedFloat.pack Format.binary64 (.finite (f s) m q hm)).toNat =
      (Parts.ofPattern (UnpackedFloat.pack Format.binary64 (.finite s m q hm)).toNat).withSign g
    unfold UnpackedFloat.pack
    dsimp only
    split
    · exact hcomponents s _ _
    · split
      · exact hcomponents s _ _
      · exact hcomponents s _ _

/-- What is unpacked and packed again stands for the same. -/
theorem ofFloat_pack_unpack (x : Float) :
    Parts.ofFloat (.ofModel (.pack x.toModel.unpack)) = Parts.ofFloat x := by
  have hfits := fits_unpack x
  rw [ofFloat_eq_ofUnpacked x]
  generalize x.toModel.unpack = u at hfits ⊢
  rcases u with s | _ | s | ⟨s, m, q, hm⟩
  · exact ofFloat_pack_infinity s
  · rfl
  · exact ofFloat_pack_zero s
  · rw [ofFloat_pack_finite s hm hfits.1, if_neg hfits.2.not_gt]
    rfl

theorem ofFloat_pack_neg (u : UnpackedFloat) :
    Parts.ofFloat (.ofModel (.pack u.neg)) =
      (Parts.ofFloat (.ofModel (.pack u))).withSign (!·) := by
  have hneg : u.neg = withSign (- ·) u := by rcases u with _ | _ | _ | _ <;> rfl
  rw [hneg]
  exact ofFloat_pack_withSign (by rintro (_ | _) <;> rfl) u

theorem ofFloat_neg (x : Float) : Parts.ofFloat (-x) = (Parts.ofFloat x).withSign (!·) := by
  refine (ofFloat_pack_neg x.toModel.unpack).trans ?_
  rw [ofFloat_pack_unpack]

theorem ofFloat_abs (x : Float) :
    Parts.ofFloat x.abs = (Parts.ofFloat x).withSign fun _ ↦ false := by
  have habs : x.toModel.unpack.abs = withSign (fun _ ↦ .positive) x.toModel.unpack := by
    rcases x.toModel.unpack with _ | _ | _ | _ <;> rfl
  show Parts.ofFloat (.ofModel (.pack x.toModel.unpack.abs)) = _
  rw [habs, ofFloat_pack_withSign (g := fun _ ↦ false) fun _ ↦ rfl, ofFloat_pack_unpack]

theorem rank_neg (x : Float) : rank (-x) = (rank x).map (- ·) := by
  rw [rank, rank, ofFloat_neg]
  rcases Parts.ofFloat x with _ | negative | ⟨negative, m, q⟩
  · rfl
  · exact congrArg some (signed_not negative _)
  · exact congrArg some (signed_not negative _)

theorem rank_abs (x : Float) : rank x.abs = (rank x).map fun a ↦ |a| := by
  rw [rank, rank, ofFloat_abs]
  rcases Parts.ofFloat x with _ | negative | ⟨negative, m, q⟩
  · rfl
  · exact congrArg some (abs_signed negative _).symm
  · exact congrArg some (abs_signed negative _).symm

theorem ofUnpacked_injective : Function.Injective Parts.ofUnpacked := by
  have hsign : Function.Injective isMinus := by
    rintro (_ | _) (_ | _) h
    · rfl
    · cases h
    · cases h
    · rfl
  rintro (s | _ | s | ⟨s, m, p, hm⟩) (s' | _ | s' | ⟨s', n, q, hn⟩) h
  any_goals cases h
  · rw [hsign (Parts.infinite.inj h)]
  · rfl
  · rw [hsign (Parts.finite.inj h).1]
  · exact absurd (Parts.finite.inj h).2.1 hn.ne
  · exact absurd (Parts.finite.inj h).2.1 hm.ne'
  · obtain ⟨hs, rfl, rfl⟩ := Parts.finite.inj h
    rw [hsign hs]

/-- The bit pattern of a number. -/
def Parts.pattern : Parts → ℕ
  | .nan => 0
  | .infinite negative => negative.toNat * 2 ^ 63 + infinityPattern
  | .finite negative m q => negative.toNat * 2 ^ 63 + ((q + 1074).toNat * 2 ^ 52 + m)

/-- A pattern is known by what it stands for, if that is a number. -/
theorem pattern_eq_of_ofPattern {n : ℕ} (hn : n < 2 ^ 64) {p : Parts} (h : Parts.ofPattern n = p)
    (hp : p ≠ .nan) : p.pattern = n := by
  have hsign : (n / 2 ^ 63 % 2 == 1).toNat = n / 2 ^ 63 := by
    obtain h | h : n / 2 ^ 63 = 0 ∨ n / 2 ^ 63 = 1 := by omega
    · rw [h]
      rfl
    · rw [h]
      rfl
  have h52 : pow2 52 = 2 ^ 52 := rfl
  have h63 : pow2 63 = 2 ^ 63 := rfl
  simp only [Parts.ofPattern, h52, h63] at h
  split at h
  · split at h
    · subst h
      simp only [Parts.pattern, hsign, infinityPattern_eq]
      omega
    · exact absurd h.symm hp
  · split at h
    · subst h
      have hleast : ((-1074 : ℤ) + 1074).toNat = 0 := rfl
      simp only [Parts.pattern, hsign, hleast]
      omega
    · subst h
      simp only [Parts.pattern, hsign]
      omega

/-- There is one double that is no number. -/
theorem toBits_of_ofFloat_eq_nan {x : Float} (h : Parts.ofFloat x = .nan) :
    x.toBits.toBitVec = packedNaN Format.binary64 := by
  have hpattern : Parts.ofPattern x.toBits.toBitVec.toNat = .nan := h
  rw [← packComponents_unpack x.toBits.toBitVec, ofPattern_packComponents] at hpattern
  split at hpattern
  · next hexponent =>
    split at hpattern
    · cases hpattern
    · next hmantissa => exact x.toModel.valid.eq_packedNaN hexponent hmantissa
  · split at hpattern
    · cases hpattern
    · cases hpattern

/-- A double is known by what it stands for. -/
theorem ofFloat_injective : Function.Injective Parts.ofFloat := by
  intro x y h
  have hbits : x.toBits.toBitVec = y.toBits.toBitVec := by
    by_cases hnan : Parts.ofFloat x = .nan
    · rw [toBits_of_ofFloat_eq_nan hnan, toBits_of_ofFloat_eq_nan (h ▸ hnan)]
    · have hx := pattern_eq_of_ofPattern x.toBits.toBitVec.isLt rfl hnan
      have hy := pattern_eq_of_ofPattern y.toBits.toBitVec.isLt h.symm hnan
      exact BitVec.eq_of_toNat_eq (hx.symm.trans hy)
  obtain ⟨⟨⟨b⟩, hb⟩⟩ := x
  obtain ⟨⟨⟨b'⟩, hb'⟩⟩ := y
  obtain rfl : b = b' := hbits
  rfl

theorem ofModel_pack_unpack (x : Float) : Float.ofModel (.pack x.toModel.unpack) = x :=
  ofFloat_injective (ofFloat_pack_unpack x)

theorem unpack_neg (x : Float) : (-x).toModel.unpack = x.toModel.unpack.neg := by
  apply ofUnpacked_injective
  rw [← ofFloat_eq_ofUnpacked, ofFloat_neg, ofFloat_eq_ofUnpacked]
  rcases x.toModel.unpack with s | _ | s | ⟨s, m, q, hm⟩
  · rcases s with _ | _ <;> rfl
  · rfl
  · rcases s with _ | _ <;> rfl
  · rcases s with _ | _ <;> rfl

theorem float_neg_neg (x : Float) : - -x = x := by
  apply ofFloat_injective
  rw [ofFloat_neg, ofFloat_neg]
  rcases Parts.ofFloat x with _ | negative | ⟨negative, m, q⟩
  · rfl
  · exact congrArg Parts.infinite (Bool.not_not negative)
  · exact congrArg (Parts.finite · m q) (Bool.not_not negative)

/-! ### Finite doubles -/

/-- A finite double has a canonical mantissa and exponent. -/
theorem exists_ofFloat_eq_finite {x : Float} (h : x.isFinite = true) :
    ∃ negative m q, Parts.ofFloat x = .finite negative m q ∧ Canonical m q ∧ q ≤ 971 := by
  have hfits := fits_unpack x
  have hunpack : x.toModel.unpack.isFinite = true := h
  rw [ofFloat_eq_ofUnpacked]
  generalize x.toModel.unpack = u at hfits hunpack ⊢
  rcases u with s | _ | s | ⟨s, m, q, hm⟩
  · cases hunpack
  · cases hunpack
  · exact ⟨_, _, _, rfl, ⟨le_rfl, by norm_num, Or.inl rfl⟩, by norm_num⟩
  · exact ⟨_, _, _, rfl, hfits⟩

end MatrixScript.Number
