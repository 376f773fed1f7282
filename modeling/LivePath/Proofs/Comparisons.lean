import LivePath.Value
import Mathlib.Algebra.Group.Nat.Defs

/-!
# Comparing values

Values compare as if they stood in one order, as far as they compare at all. There is one exception.
An integer is compared with a float by way of the nearest float, and beyond `2 ^ 53` two integers
may have the same nearest float, so that both count as equal to it and yet differ from each other.
Rounding never turns integers round (`Binary64.key_ofInt64_le`), and up to `2 ^ 53` it keeps them
apart (`Binary64.key_ofInt64_lt`), so that there is no other exception
(`Value.compare_ordered_up_to_rounding`).
-/

namespace LivePath

namespace Binary64

/-! ### Rounding natural numbers -/

theorem roundShift_eq (n s : Nat) : roundShift n s =
    if 2 * (n % 2 ^ s) < 2 ^ s ∨ (2 * (n % 2 ^ s) = 2 ^ s ∧ n / 2 ^ s % 2 = 0) then n / 2 ^ s
      else n / 2 ^ s + 1 := by
  simp only [roundShift, Nat.shiftRight_eq_div_pow, Nat.one_shiftLeft]

theorem roundShift_bounds (n s : Nat) :
    n / 2 ^ s ≤ roundShift n s ∧ roundShift n s ≤ n / 2 ^ s + 1 := by
  rw [roundShift_eq]
  split <;> omega

theorem roundShift_mono {n m : Nat} (h : n ≤ m) (s : Nat) : roundShift n s ≤ roundShift m s := by
  have hq : n / 2 ^ s ≤ m / 2 ^ s := Nat.div_le_div_right h
  by_cases heq : n / 2 ^ s = m / 2 ^ s
  · -- Of two numbers with the same quotient, the one with the greater rest is rounded up if the
    -- other is.
    have hn := Nat.div_add_mod n (2 ^ s)
    have hm := Nat.div_add_mod m (2 ^ s)
    have hr : n % 2 ^ s ≤ m % 2 ^ s := by rw [heq] at hn; omega
    rw [roundShift_eq, roundShift_eq, heq]
    split <;> split <;> omega
  · have hn := (roundShift_bounds n s).2
    have hm := (roundShift_bounds m s).1
    omega

/-- The leading bits of a number, fifty-three of them unless rounding carries. -/
def significand (n : Nat) : Nat :=
  if n.log2 ≤ 52 then n <<< (52 - n.log2) else roundShift n (n.log2 - 52)

theorem magnitudeOf_eq {n : Nat} (h : n ≠ 0) :
    magnitudeOf n 0 = (n.log2 + 1022) * 2 ^ 52 + significand n := by
  have hexp : ((n.log2 : Int) + 0 + 1022).toNat = n.log2 + 1022 := by omega
  rw [magnitudeOf, if_neg h]
  show ((n.log2 : Int) + 0 + 1022).toNat <<< 52 + significand n = _
  rw [hexp, Nat.shiftLeft_eq]

theorem significand_bounds {n : Nat} (h : n ≠ 0) :
    2 ^ 52 ≤ significand n ∧ significand n ≤ 2 ^ 53 := by
  have hle := Nat.log2_self_le h
  have hlt := Nat.lt_log2_self (n := n)
  unfold significand
  split
  · next hlog =>
    rw [Nat.shiftLeft_eq]
    have h52 : 2 ^ n.log2 * 2 ^ (52 - n.log2) = 2 ^ 52 := by rw [← Nat.pow_add]; congr 1; omega
    have h53 : 2 ^ (n.log2 + 1) * 2 ^ (52 - n.log2) = 2 ^ 53 := by
      rw [← Nat.pow_add]; congr 1; omega
    rw [← h52, ← h53]
    exact ⟨Nat.mul_le_mul_right _ hle, Nat.mul_le_mul_right _ (Nat.le_of_lt hlt)⟩
  · next hlog =>
    have h52 : 2 ^ 52 * 2 ^ (n.log2 - 52) = 2 ^ n.log2 := by rw [← Nat.pow_add]; congr 1; omega
    have h53 : 2 ^ 53 * 2 ^ (n.log2 - 52) = 2 ^ (n.log2 + 1) := by
      rw [← Nat.pow_add]; congr 1; omega
    have hlow : 2 ^ 52 ≤ n / 2 ^ (n.log2 - 52) :=
      (Nat.le_div_iff_mul_le (Nat.two_pow_pos _)).2 (by rw [h52]; exact hle)
    have hhigh : n / 2 ^ (n.log2 - 52) < 2 ^ 53 :=
      (Nat.div_lt_iff_lt_mul (Nat.two_pow_pos _)).2 (by rw [h53]; exact hlt)
    have hround := roundShift_bounds n (n.log2 - 52)
    omega

theorem significand_mono {n m : Nat} (h : n ≤ m) (hlog : n.log2 = m.log2) :
    significand n ≤ significand m := by
  unfold significand
  rw [hlog]
  split
  · rw [Nat.shiftLeft_eq, Nat.shiftLeft_eq]
    exact Nat.mul_le_mul_right _ h
  · exact roundShift_mono h _

theorem log2_mono {n m : Nat} (hn : n ≠ 0) (h : n ≤ m) : n.log2 ≤ m.log2 :=
  (Nat.le_log2 (by omega)).2 (Nat.le_trans (Nat.log2_self_le hn) h)

theorem magnitudeOf_mono {n m : Nat} (h : n ≤ m) : magnitudeOf n 0 ≤ magnitudeOf m 0 := by
  by_cases hn : n = 0
  · rw [hn]
    exact Nat.zero_le _
  · have hm : m ≠ 0 := by omega
    have hlog := log2_mono hn h
    rw [magnitudeOf_eq hn, magnitudeOf_eq hm]
    by_cases heq : n.log2 = m.log2
    · have hsig := significand_mono h heq
      rw [heq]
      omega
    · -- A carry reaches the least number with more bits, and no further.
      have hsn := (significand_bounds hn).2
      have hsm := (significand_bounds hm).1
      omega

/-- Up to `2 ^ 53` nothing is lost. -/
theorem magnitudeOf_lt {n m : Nat} (h : n < m) (hm : m ≤ 2 ^ 53) :
    magnitudeOf n 0 < magnitudeOf m 0 := by
  have hm0 : m ≠ 0 := by omega
  have hsm := (significand_bounds hm0).1
  rw [magnitudeOf_eq hm0]
  by_cases hn : n = 0
  · rw [hn, magnitudeOf, if_pos rfl]
    omega
  · have hlog := log2_mono hn (Nat.le_of_lt h)
    have hlogn : n.log2 < 53 := (Nat.log2_lt hn).2 (by omega)
    have hshift : significand n = n * 2 ^ (52 - n.log2) := by
      rw [significand, if_pos (by omega), Nat.shiftLeft_eq]
    rw [magnitudeOf_eq hn]
    by_cases heq : n.log2 = m.log2
    · have hlt : n * 2 ^ (52 - n.log2) < m * 2 ^ (52 - n.log2) :=
        Nat.mul_lt_mul_of_pos_right h (Nat.two_pow_pos _)
      have hshiftm : significand m = m * 2 ^ (52 - n.log2) := by
        rw [significand, ← heq, if_pos (by omega), Nat.shiftLeft_eq]
      omega
    · -- The significand of the smaller number is exact, and so below a carry.
      have hexact : n * 2 ^ (52 - n.log2) < 2 ^ 53 := by
        have hpow : 2 ^ (n.log2 + 1) * 2 ^ (52 - n.log2) = 2 ^ 53 := by
          rw [← Nat.pow_add]; congr 1; omega
        rw [← hpow]
        exact Nat.mul_lt_mul_of_pos_right Nat.lt_log2_self (Nat.two_pow_pos _)
      omega

theorem magnitudeOf_lt_infinity {n : Nat} (h : n ≤ 2 ^ 63) : magnitudeOf n 0 < infinity := by
  have hmax : magnitudeOf n 0 ≤ magnitudeOf (2 ^ 63) 0 := magnitudeOf_mono h
  have hval : magnitudeOf (2 ^ 63) 0 < infinity := by decide
  omega

/-! ### Rounding integers -/

section
variable {negative : Bool} {k : Nat} (h : k < 2 ^ 63)
include h

theorem toNat_ofMagnitude :
    (ofMagnitude negative k).bits.toNat = k + if negative then 2 ^ 63 else 0 := by
  show (UInt64.ofNat _).toNat = _
  rw [UInt64.toNat_ofNat', Nat.one_shiftLeft]
  apply Nat.mod_eq_of_lt
  split <;> omega

theorem magnitude_ofMagnitude : (ofMagnitude negative k).magnitude = k := by
  rw [magnitude, toNat_ofMagnitude h, Nat.one_shiftLeft]
  split <;> omega

theorem key_ofMagnitude : (ofMagnitude negative k).key = if negative then -(k : Int) else k := by
  have hsign : (ofMagnitude negative k).isNegative = negative := by
    rw [isNegative, toNat_ofMagnitude h, Nat.one_shiftLeft]
    cases negative with
    | false => exact decide_eq_false (Nat.not_le_of_lt h)
    | true => exact decide_eq_true (Nat.le_add_left _ _)
  rw [key, hsign, magnitude_ofMagnitude h]

end

theorem natAbs_le (n : Int64) : n.toInt.natAbs ≤ 2 ^ 63 := by
  have hlow := n.le_toInt
  have hhigh := n.toInt_lt
  omega

theorem magnitudeOf_natAbs_lt (n : Int64) : magnitudeOf n.toInt.natAbs 0 < 2 ^ 63 :=
  Nat.lt_trans (magnitudeOf_lt_infinity (natAbs_le n)) (by decide)

theorem isNaN_ofInt64 (n : Int64) : (ofInt64 n).isNaN = false := by
  rw [isNaN, ofInt64, magnitude_ofMagnitude (magnitudeOf_natAbs_lt n)]
  exact decide_eq_false (Nat.lt_asymm (magnitudeOf_lt_infinity (natAbs_le n)))

theorem key_ofInt64 (n : Int64) : (ofInt64 n).key =
    if n.toInt < 0 then -(magnitudeOf n.toInt.natAbs 0 : Int)
      else magnitudeOf n.toInt.natAbs 0 := by
  rw [ofInt64, key_ofMagnitude (magnitudeOf_natAbs_lt n)]
  simp only [decide_eq_true_eq, Int64.lt_iff_toInt_lt, Int64.toInt_zero]

theorem key_ofInt64_le {m n : Int64} (h : m.toInt ≤ n.toInt) :
    (ofInt64 m).key ≤ (ofInt64 n).key := by
  rw [key_ofInt64, key_ofInt64]
  split <;> split
  · have hmag := magnitudeOf_mono (n := n.toInt.natAbs) (m := m.toInt.natAbs) (by omega)
    omega
  · omega
  · omega
  · have hmag := magnitudeOf_mono (n := m.toInt.natAbs) (m := n.toInt.natAbs) (by omega)
    omega

theorem key_ofInt64_lt {m n : Int64} (h : m.toInt < n.toInt) (hm : m.toInt.natAbs ≤ 2 ^ 53)
    (hn : n.toInt.natAbs ≤ 2 ^ 53) : (ofInt64 m).key < (ofInt64 n).key := by
  rw [key_ofInt64, key_ofInt64]
  split <;> split
  · have hmag := magnitudeOf_lt (n := n.toInt.natAbs) (m := m.toInt.natAbs) (by omega) hm
    omega
  · have hmag := magnitudeOf_lt (n := 0) (m := m.toInt.natAbs) (by omega) hm
    omega
  · omega
  · have hmag := magnitudeOf_lt (n := m.toInt.natAbs) (m := n.toInt.natAbs) (by omega) hn
    omega

theorem compare?_swap (x y : Binary64) : y.compare? x = (x.compare? y).map Ordering.swap := by
  have hkey : compare y.key x.key = (compare x.key y.key).swap := Std.OrientedOrd.eq_swap
  unfold compare?
  rw [Bool.or_comm, hkey]
  split <;> rfl

end Binary64

namespace Value

/-! ### Values of one kind, and numbers -/

/-- The place of a number in the order of floats, which for an integer is that of the nearest
float. -/
def key? : Value → Option Int
  | int n => some (Binary64.ofInt64 n).key
  | float x => if x.isNaN then none else some x.key
  | _ => none

theorem compare?_swap (a b : Value) : b.compare? a = (a.compare? b).map Ordering.swap := by
  cases a <;> cases b
  case bool.bool => exact congrArg some Std.OrientedOrd.eq_swap
  case int.int => exact congrArg some Std.OrientedOrd.eq_swap
  case str.str => exact congrArg some Std.OrientedOrd.eq_swap
  case int.float => exact Binary64.compare?_swap _ _
  case float.int => exact Binary64.compare?_swap _ _
  case float.float => exact Binary64.compare?_swap _ _
  all_goals rfl

theorem compare?_of_key? {a b : Value} {i j : Int} (ha : a.key? = some i) (hb : b.key? = some j)
    (h : ∀ m n, a = .int m → b ≠ .int n) : a.compare? b = some (compare i j) := by
  cases a <;> cases b <;> simp_all [key?, compare?, Binary64.compare?, Binary64.isNaN_ofInt64]

theorem exists_key?_of_compare? {a b : Value} {o : Ordering} {j : Int} (h : a.compare? b = some o)
    (hb : b.key? = some j) : ∃ i, a.key? = some i := by
  cases a <;> cases b <;> simp_all [key?, compare?, Binary64.compare?]

theorem isLE_compare_int {m n : Int64} : (compare m n).isLE = true ↔ m.toInt ≤ n.toInt :=
  Std.isLE_compare.trans Int64.le_iff_toInt_le

theorem key?_le_of_isLE {a b : Value} {o : Ordering} {i j : Int} (h : a.compare? b = some o)
    (ho : o.isLE = true) (ha : a.key? = some i) (hb : b.key? = some j) : i ≤ j := by
  by_cases hints : ∃ m n, a = .int m ∧ b = .int n
  · obtain ⟨m, n, rfl, rfl⟩ := hints
    cases h
    cases ha
    cases hb
    exact Binary64.key_ofInt64_le (isLE_compare_int.1 ho)
  · cases h.symm.trans (compare?_of_key? ha hb fun m n hm hn => hints ⟨m, n, hm, hn⟩)
    exact Std.isLE_compare.1 ho

theorem compare?_trans_of_not_number {a b c : Value} {o o' : Ordering} (h : a.compare? b = some o)
    (h' : b.compare? c = some o') (ho : o.isLE = true) (ho' : o'.isLE = true) (hb : b.key? = none) :
    ∃ o'', a.compare? c = some o'' ∧ o''.isLE = true := by
  cases b with
  | bool b =>
    cases a <;> cases h
    cases c <;> cases h'
    exact ⟨_, rfl, Std.TransOrd.isLE_trans ho ho'⟩
  | str b =>
    cases a <;> cases h
    cases c <;> cases h'
    exact ⟨_, rfl, Std.TransOrd.isLE_trans ho ho'⟩
  | int n => cases hb
  | float x =>
    cases a <;> simp_all [key?, compare?, Binary64.compare?]
  | array id => cases a <;> cases h
  | model id => cases a <;> cases h
  | collection id => cases a <;> cases h

/-- If two integers are the wrong way round and yet something stands between them, it is a float
that both are rounded to. One of them is too large then to be told from its neighbours by floats. -/
theorem eq_of_between_ints {m n : Int64} {b : Value} {o o' : Ordering}
    (h : (int m).compare? b = some o) (h' : b.compare? (int n) = some o') (ho : o.isLE = true)
    (ho' : o'.isLE = true) (hgt : n.toInt < m.toInt) :
    o = .eq ∧ o' = .eq ∧ (∃ x, b = .float x) ∧
      (2 ^ 53 < m.toInt.natAbs ∨ 2 ^ 53 < n.toInt.natAbs) := by
  obtain ⟨j, hj⟩ := exists_key?_of_compare? h' rfl
  have hmj := key?_le_of_isLE h ho rfl hj
  have hjn := key?_le_of_isLE h' ho' hj rfl
  cases b with
  | int k =>
    cases h
    cases h'
    have hmk := isLE_compare_int.1 ho
    have hkn := isLE_compare_int.1 ho'
    omega
  | float x =>
    -- Rounding keeps the order, so that the two floats and the one between them are all the same.
    have hnm := Binary64.key_ofInt64_le (Int.le_of_lt hgt)
    have hmx := h.symm.trans (compare?_of_key? rfl hj fun _ _ _ => nofun)
    have hxn := h'.symm.trans (compare?_of_key? hj rfl nofun)
    have hlarge : 2 ^ 53 < m.toInt.natAbs ∨ 2 ^ 53 < n.toInt.natAbs := by
      by_cases hm : m.toInt.natAbs ≤ 2 ^ 53
      · by_cases hn : n.toInt.natAbs ≤ 2 ^ 53
        · have hlt := Binary64.key_ofInt64_lt hgt hn hm
          omega
        · exact .inr (Nat.lt_of_not_le hn)
      · exact .inl (Nat.lt_of_not_le hm)
    obtain rfl : j = (Binary64.ofInt64 m).key := by omega
    have heq : (Binary64.ofInt64 m).key = (Binary64.ofInt64 n).key := by omega
    rw [← heq] at hxn
    cases hmx
    cases hxn
    exact ⟨Std.ReflOrd.compare_self, Std.ReflOrd.compare_self, ⟨x, rfl⟩, hlarge⟩
  | _ => cases h

/-- To be no greater is transitive, but for two integers that are both rounded to the float between
them. -/
theorem compare?_trans_or_rounded {a b c : Value} {o o' : Ordering} (h : a.compare? b = some o)
    (h' : b.compare? c = some o') (hgt : o ≠ .gt) (hgt' : o' ≠ .gt) :
    ∃ o'', a.compare? c = some o'' ∧
      (o'' = .gt → o = .eq ∧ o' = .eq ∧ ∃ m x n, a = .int m ∧ b = .float x ∧ c = .int n ∧
        (2 ^ 53 < m.toInt.natAbs ∨ 2 ^ 53 < n.toInt.natAbs)) := by
  have ho := Ordering.ne_gt_iff_isLE.1 hgt
  have ho' := Ordering.ne_gt_iff_isLE.1 hgt'
  cases hb : b.key? with
  | none =>
    obtain ⟨o'', hac, hle⟩ := compare?_trans_of_not_number h h' ho ho' hb
    exact ⟨o'', hac, fun hgt'' => absurd hle (by rw [hgt'']; decide)⟩
  | some j =>
    obtain ⟨i, ha⟩ := exists_key?_of_compare? h hb
    have hcb : c.compare? b = some o'.swap := by rw [compare?_swap b c, h']; rfl
    obtain ⟨k, hc⟩ := exists_key?_of_compare? hcb hb
    by_cases hints : ∃ m n, a = .int m ∧ c = .int n
    · obtain ⟨m, n, rfl, rfl⟩ := hints
      refine ⟨compare m n, rfl, fun hgt'' => ?_⟩
      have hnm : n.toInt < m.toInt := Int64.lt_iff_toInt_lt.1 (Std.compare_eq_gt.1 hgt'')
      obtain ⟨hoe, hoe', ⟨x, rfl⟩, hlarge⟩ := eq_of_between_ints h h' ho ho' hnm
      exact ⟨hoe, hoe', m, x, n, rfl, rfl, rfl, hlarge⟩
    · refine ⟨compare i k, compare?_of_key? ha hc fun m n hm hn => hints ⟨m, n, hm, hn⟩,
        fun hgt'' => ?_⟩
      -- Unless two integers meet, it is their keys that are compared.
      have hij := key?_le_of_isLE h ho ha hb
      have hjk := key?_le_of_isLE h' ho' hb hc
      have hki := Std.compare_eq_gt.1 hgt''
      omega

/--
Comparing values either way round gives opposite answers. And if `a` is not greater than `b`, and
`b` is not greater than `c`, then `a` compares with `c` and is not greater. There is one exception:
two integers that are both rounded to the same float count as equal to it, whatever their order is.
One of them lies beyond `2 ^ 53` then.
-/
theorem compare_ordered_up_to_rounding (a b c : Value) :
    b.compare? a = (a.compare? b).map Ordering.swap ∧
    ∀ o o', a.compare? b = some o → b.compare? c = some o' → o ≠ .gt → o' ≠ .gt →
      ∃ o'', a.compare? c = some o'' ∧
        (o'' = .gt → o = .eq ∧ o' = .eq ∧ ∃ m x n, a = .int m ∧ b = .float x ∧ c = .int n ∧
          (2 ^ 53 < m.toInt.natAbs ∨ 2 ^ 53 < n.toInt.natAbs)) :=
  ⟨compare?_swap a b, fun _ _ => compare?_trans_or_rounded⟩

/-- An integer less than the float, and one that is rounded to it. -/
theorem compare_ordered_up_to_rounding_beyond :
    (Value.int 9007199254740991).compare? (.float ⟨0x4340000000000000⟩) = some .lt ∧
      (Value.float ⟨0x4340000000000000⟩).compare? (.int 9007199254740993) = some .eq ∧
      ∃ o, (Value.int 9007199254740991).compare? (.int 9007199254740993) = some o ∧ o ≠ .gt := by
  have hlow : (Value.int 9007199254740991).compare? (.float ⟨0x4340000000000000⟩) = some .lt := by
    decide
  have hhigh : (Value.float ⟨0x4340000000000000⟩).compare? (.int 9007199254740993) = some .eq := by
    decide
  obtain ⟨o, ho, hex⟩ :=
    (compare_ordered_up_to_rounding _ _ _).2 _ _ hlow hhigh (by decide) (by decide)
  refine ⟨hlow, hhigh, o, ho, fun hgt => ?_⟩
  cases (hex hgt).1

/-- `2 ^ 53 + 1` counts as equal to `2 ^ 53` as a float, and this to `2 ^ 53` as an integer. -/
theorem compare_not_transitive :
    (Value.int 9007199254740993).compare? (.float ⟨0x4340000000000000⟩) = some .eq ∧
      (Value.float ⟨0x4340000000000000⟩).compare? (.int 9007199254740992) = some .eq ∧
      (Value.int 9007199254740993).compare? (.int 9007199254740992) = some .gt := by
  decide

end Value
end LivePath
