import RecordSchema.Number.Shortest
import RecordSchema.Proofs.Number.Nearest

/-!
# The shortest decimal reads back

`Binary64.shortest` looks for a point of a decimal grid between the middles around a double. On
the grid of seventeen digits two points lie less than a unit of the double's last digit apart,
and there is always one to be found. So rounding takes the shortest decimal back to the double.

Main statements: `Binary64.covers_shortest` and `Binary64.nearest?_of_shortest`.
-/

namespace RecordSchema

namespace Binary64

/-! ## Comparing powers of ten with powers of two -/

theorem zpow_mul_toNat {b : ℚ} (hb : b ≠ 0) (k : ℤ) : b ^ k * b ^ (-k).toNat = b ^ k.toNat := by
  rw [← zpow_natCast, ← zpow_natCast, ← zpow_add₀ hb]
  congr 1
  have hk := k.toNat_sub_toNat_neg
  omega

theorem zpow_eq_div {b : ℚ} (hb : b ≠ 0) (k : ℤ) : b ^ k = b ^ k.toNat / b ^ (-k).toNat := by
  rw [eq_div_iff (pow_ne_zero _ hb), zpow_mul_toNat hb]

section

variable (a : ℕ) (k : ℤ) (b : ℕ) (q : ℤ)

/-- The factor by which both sides are multiplied to make them whole. -/
theorem cast_scaled :
    ((a * 10 ^ k.toNat * 2 ^ (-q).toNat : ℕ) : ℚ) =
        a * 10 ^ k * (10 ^ (-k).toNat * 2 ^ (-q).toNat) ∧
      ((b * 2 ^ q.toNat * 10 ^ (-k).toNat : ℕ) : ℚ) =
        b * 2 ^ q * (10 ^ (-k).toNat * 2 ^ (-q).toNat) := by
  push_cast
  rw [← zpow_mul_toNat (by norm_num) k, ← zpow_mul_toNat two_ne_zero q]
  constructor <;> ring

theorem compareScaled_eq : compareScaled a k b q = cmp (a * 10 ^ k : ℚ) (b * 2 ^ q) := by
  have hpos : (0 : ℚ) < 10 ^ (-k).toNat * 2 ^ (-q).toNat := by positivity
  obtain ⟨hleft, hright⟩ := cast_scaled a k b q
  rw [compareScaled, ← cmp_eq_compare, ← (Nat.strictMono_cast (α := ℚ)).cmp_map_eq]
  rw [Nat.pow_eq, Nat.pow_eq, Nat.pow_eq, Nat.pow_eq, hleft, hright, cmp_mul_pos_right hpos]

end

/-! ## The interval -/

variable {x : Binary64}

/-- The middles around a double, as whole numbers of quarters of its unit. -/
theorem cast_middles (hx : x.significand ≠ 0) :
    ((4 * x.significand -
        (if x.significand = 4503599627370496 ∧ -1074 < x.exponent then 1 else 2) : ℕ) : ℚ) *
          2 ^ (x.exponent - 2) = (x.significand - x.gapBelow) * 2 ^ x.exponent ∧
      ((4 * x.significand + 2 : ℕ) : ℚ) * 2 ^ (x.exponent - 2) =
        (x.significand + 1 / 2) * 2 ^ x.exponent := by
  have hquarter : (2 : ℚ) ^ (x.exponent - 2) = 2 ^ x.exponent / 4 := by
    rw [zpow_sub₀ two_ne_zero]
    norm_num
  rw [hquarter, gapBelow]
  constructor
  · split
    · rw [Nat.cast_sub (by omega)]
      push_cast
      ring
    · rw [Nat.cast_sub (by omega)]
      push_cast
      ring
  · push_cast
    ring

theorem accepts_iff (hx : x.significand ≠ 0) (a : ℕ) (k : ℤ) :
    x.accepts a k = true ↔ x.Covers (a * 10 ^ k) := by
  have hunit : (0 : ℚ) < 2 ^ x.exponent := zpow_pos two_pos _
  obtain ⟨hlow, hhigh⟩ := cast_middles hx
  rw [accepts]
  split
  · case isTrue heven =>
      rw [compareScaled_eq, compareScaled_eq, hlow, hhigh, Bool.and_eq_true, bne_iff_ne, bne_iff_ne,
        Ne, Ne, cmp_eq_lt_iff, cmp_eq_gt_iff, not_lt, not_lt, ← le_div_iff₀ hunit,
        ← div_le_iff₀ hunit]
      exact ⟨fun h => ⟨h.1, h.2, fun _ => Nat.even_iff.mpr heven⟩, fun h => ⟨h.low, h.high⟩⟩
  · case isFalse hodd =>
      rw [compareScaled_eq, compareScaled_eq, hlow, hhigh, Bool.and_eq_true, beq_iff_eq, beq_iff_eq,
        cmp_eq_gt_iff, cmp_eq_lt_iff, ← lt_div_iff₀ hunit, ← div_lt_iff₀ hunit]
      rw [← Nat.even_iff] at hodd
      refine ⟨fun h => .of_lt h.1 h.2, fun h => ⟨?_, ?_⟩⟩
      · exact lt_of_le_of_ne h.low fun heq => hodd (h.even (.inl heq.symm))
      · exact lt_of_le_of_ne h.high fun heq => hodd (h.even (.inr heq))

/-! ## The points of a grid around a double -/

theorem gridPoint?_eq_some {k : ℤ} {a : ℕ} (h : x.gridPoint? k = some a) :
    x.accepts a k = true := by
  rw [gridPoint?] at h
  split at h
  · cases h
  · cases h
    assumption
  · cases h
    assumption
  · split at h
    · cases h
      assumption
    · cases h
      assumption
    · split at h <;> cases h <;> assumption

theorem magnitude_eq_div (x : Binary64) :
    x.magnitude = (x.significand * 2 ^ x.exponent.toNat : ℕ) / (2 ^ (-x.exponent).toNat : ℕ) := by
  rw [magnitude, zpow_eq_div two_ne_zero]
  push_cast
  ring

/-- The double lies between two points of the grid. -/
theorem gridFloor_bounds (x : Binary64) (k : ℤ) :
    x.gridFloor k * 10 ^ k ≤ x.magnitude ∧ x.magnitude < (x.gridFloor k + 1) * 10 ^ k := by
  have hstep : (0 : ℚ) < 10 ^ k := by positivity
  have hfloor : x.gridFloor k = ⌊x.magnitude / 10 ^ k⌋₊ := by
    rw [magnitude_eq_div, zpow_eq_div (by norm_num) k, gridFloor, ← Nat.floor_div_eq_div (K := ℚ)]
    congr 1
    push_cast [Nat.pow_eq]
    field_simp
  rw [hfloor, ← le_div_iff₀ hstep, ← div_lt_iff₀ hstep]
  exact ⟨Nat.floor_le (div_nonneg x.magnitude_nonneg hstep.le), Nat.lt_floor_add_one _⟩

/-- A step of less than a unit of the double's last digit does not pass over the interval around
it. At the power of two where the unit changes such a step is less than half a unit. -/
theorem accepts_gridFloor (hx : x.significand ≠ 0) {k : ℤ}
    (hk : (10 : ℚ) ^ k * 10 ^ 16 ≤ x.magnitude) :
    x.accepts (x.gridFloor k) k = true ∨ x.accepts (x.gridFloor k + 1) k = true := by
  have hunit : (0 : ℚ) < 2 ^ x.exponent := zpow_pos two_pos _
  obtain ⟨hlow, hhigh⟩ := x.gridFloor_bounds k
  rw [accepts_iff hx, accepts_iff hx]
  push_cast
  rw [magnitude, ← div_le_iff₀ hunit, mul_div_right_comm] at hk
  rw [magnitude, ← div_le_iff₀ hunit, mul_div_assoc] at hlow
  rw [magnitude, ← lt_div_iff₀ hunit, mul_div_assoc] at hhigh
  -- the length of a step in units of the last digit
  generalize hstep : (10 : ℚ) ^ k / 2 ^ x.exponent = step at hk hlow hhigh
  have htop : (x.significand : ℚ) < 9007199254740992 := by exact_mod_cast x.canonical.1
  by_cases hup : (x.gridFloor k + 1) * step < x.significand + 1 / 2
  · right
    apply Covers.of_lt
    · rw [mul_div_assoc, hstep]
      have hgap : 0 < x.gapBelow := by
        rw [gapBelow]
        split <;> norm_num
      linarith
    · rwa [mul_div_assoc, hstep]
  · left
    apply Covers.of_lt
    · rw [mul_div_assoc, hstep, gapBelow]
      split
      · case isTrue h =>
          rw [h.1] at hk hup ⊢
          push_cast at hk hup ⊢
          linarith
      · linarith
    · rw [mul_div_assoc, hstep]
      linarith

theorem exists_gridPoint? (hx : x.significand ≠ 0) {k : ℤ}
    (hk : (10 : ℚ) ^ k * 10 ^ 16 ≤ x.magnitude) : ∃ a, x.gridPoint? k = some a := by
  rw [gridPoint?]
  split
  · case h_1 hfloor hnext =>
      rcases accepts_gridFloor hx hk with h | h
      · cases hfloor.symm.trans h
      · cases hnext.symm.trans h
  · exact ⟨_, rfl⟩
  · exact ⟨_, rfl⟩
  · split <;> exact ⟨_, rfl⟩

/-! ## The leading digit -/

theorem ten_pow_length_toDigits_le {n : ℕ} (hn : 0 < n) :
    10 ^ ((Nat.toDigits 10 n).length - 1) ≤ n := by
  by_contra hless
  have hpos : 0 < (Nat.toDigits 10 n).length - 1 := by
    by_contra hone
    rw [Nat.eq_zero_of_not_pos hone] at hless
    omega
  have hlength := (Nat.length_toDigits_le_iff (by norm_num) hpos).mpr (not_le.mp hless)
  omega

theorem lt_ten_pow_length_toDigits (n : ℕ) : n < 10 ^ (Nat.toDigits 10 n).length :=
  (Nat.length_toDigits_le_iff (by norm_num) Nat.length_toDigits_pos).mp le_rfl

theorem leadingPower_le (hx : x.significand ≠ 0) : (10 : ℚ) ^ x.leadingPower ≤ x.magnitude := by
  have hnum : 0 < x.significand * 2 ^ x.exponent.toNat := by positivity
  have hden : 0 < 2 ^ (-x.exponent).toNat := by positivity
  rw [magnitude_eq_div, leadingPower, Nat.pow_eq, Nat.pow_eq]
  generalize x.significand * 2 ^ x.exponent.toNat = num at hnum
  generalize 2 ^ (-x.exponent).toNat = den at hden
  have hpos : (0 : ℚ) < den := Nat.cast_pos.mpr hden
  split
  · case isTrue h =>
      rw [zpow_eq_div (by norm_num), div_le_div_iff₀ (by positivity) hpos, mul_comm]
      exact_mod_cast h
  · have hlow : (10 : ℚ) ^ (((Nat.toDigits 10 num).length : ℤ) - 1) ≤ num := by
      have hone : 1 ≤ (Nat.toDigits 10 num).length := Nat.length_toDigits_pos
      rw [← Int.natCast_pred_of_pos hone, zpow_natCast]
      exact_mod_cast ten_pow_length_toDigits_le hnum
    have hhigh : (den : ℚ) ≤ 10 ^ ((Nat.toDigits 10 den).length : ℤ) := by
      rw [zpow_natCast]
      exact_mod_cast (lt_ten_pow_length_toDigits den).le
    rw [le_div_iff₀ hpos]
    calc (10 : ℚ) ^ (((Nat.toDigits 10 num).length : ℤ) - (Nat.toDigits 10 den).length - 1) * den
        ≤ 10 ^ (((Nat.toDigits 10 num).length : ℤ) - (Nat.toDigits 10 den).length - 1) *
            10 ^ ((Nat.toDigits 10 den).length : ℤ) := by gcongr
      _ = 10 ^ (((Nat.toDigits 10 num).length : ℤ) - 1) := by
          rw [← zpow_add₀ (by norm_num)]
          congr 1
          ring
      _ ≤ num := hlow

/-! ## The shortest decimal -/

/-- The shortest decimal of a double other than zero is a point of a grid, and one that rounds to
the double. -/
theorem exists_shortest (hx : x.significand ≠ 0) :
    ∃ a k, x.shortest = ⟨x.negative, a, k⟩ ∧ x.accepts a k = true := by
  have hzero : x.isZero = false := beq_eq_false_iff_ne.mpr hx
  rw [shortest, hzero]
  dsimp only
  rw [if_neg Bool.false_ne_true]
  generalize hsearch : (List.range 17).findSome? (fun n : ℕ =>
    (x.gridPoint? (x.leadingPower - n)).map fun a =>
      Decimal.mk x.negative a (x.leadingPower - n)) = found
  cases found with
  | none =>
      -- the grid of seventeen digits is fine enough
      have hlast := List.findSome?_eq_none_iff.mp hsearch 16 (by decide)
      have hfine : (10 : ℚ) ^ (x.leadingPower - (16 : ℕ)) * 10 ^ 16 ≤ x.magnitude := by
        rw [← zpow_natCast, ← zpow_add₀ (by norm_num), sub_add_cancel]
        exact leadingPower_le hx
      obtain ⟨a, ha⟩ := exists_gridPoint? hx hfine
      rw [ha] at hlast
      cases hlast
  | some d =>
      obtain ⟨n, -, hn⟩ := List.exists_of_findSome?_eq_some hsearch
      obtain ⟨a, ha, rfl⟩ := Option.map_eq_some_iff.mp hn
      exact ⟨a, _, rfl, gridPoint?_eq_some ha⟩

theorem covers_shortest (hx : x.significand ≠ 0) : x.Covers x.shortest.size := by
  obtain ⟨a, k, hshortest, haccepts⟩ := exists_shortest hx
  rw [hshortest]
  exact (accepts_iff hx a k).mp haccepts

/-- A decimal of the same size and sign as the shortest one of a double is rounded to this
double. -/
theorem nearest?_of_shortest (hx : x.significand ≠ 0) {d : Decimal}
    (hsize : d.size = x.shortest.size) (hnegative : d.negative = x.negative) :
    d.nearest? = some x := by
  apply Decimal.nearest?_of_covers hx hnegative
  rw [hsize]
  exact covers_shortest hx

end Binary64

end RecordSchema
