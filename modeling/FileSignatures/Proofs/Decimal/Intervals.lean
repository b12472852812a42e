import FileSignatures.Decimal.Shortest
import Mathlib

/-!
# Decimals around a number

The search for a decimal compares products of natural numbers. This module says what these
comparisons mean for the rational numbers behind them: whether a grid point lies in the
interval (`contains_iff`), which grid point is the last one below the number
(`le_floorAt_iff`), and to which of its two neighbours the number is closer.

A grid point in the interval is never nearer to the number than the neighbour on its side,
and that one lies in the interval as well, because it is between the point and the number.
So the two neighbours decide for the whole grid (`nearer_of_nearestOn?`).

## Main definitions

* `Nearer`: Which of two numbers is to be preferred around a third one.
* `RealInterval.number`: The number of an interval.
* `RealInterval.Inside`: What lies in an interval.
* `RealInterval.Proper`: The number lies in its interval, and that above zero.

## Theorems

* `scaled_le_iff`, `le_scaled_iff`: A scale is a power of ten on one side or the other.
* `Nearer.trans`, `Nearer.antisymm`: Preferring is an order.
* `contains_iff`: Which grid points lie in an interval.
* `le_floorAt_iff`: Which grid points do not exceed the number.
* `nearer_of_nearestOn?`: The grid point that is found is preferred to all others.
* `not_inside_of_nearestOn?`: If none is found, no grid point lies in the interval.
-/

namespace FileSignatures

theorem tenTo_pos (n : Nat) : 0 < tenTo n :=
  Nat.pow_pos (by omega)

theorem cast_tenTo (n : Nat) : (tenTo n : ℚ) = 10 ^ n :=
  Nat.cast_pow 10 n

/-- Only one of the two powers of a scale differs from one, and their quotient is the scale. -/
theorem tenTo_toNat (scale : Int) :
    (tenTo scale.toNat : ℚ) = 10 ^ scale * tenTo (-scale).toNat := by
  have hten : (10 : ℚ) ≠ 0 := by norm_num
  rw [cast_tenTo, cast_tenTo, ← zpow_natCast, ← zpow_natCast, ← zpow_add₀ hten]
  congr 1
  omega

section Scaled

variable (a b : Nat) (scale : Int)

theorem scaled_le_iff :
    a * tenTo (-scale).toNat ≤ b * tenTo scale.toNat ↔ (a : ℚ) ≤ b * 10 ^ scale := by
  have hpos : (0 : ℚ) < tenTo (-scale).toNat := Nat.cast_pos.2 (tenTo_pos _)
  rw [← Nat.cast_le (α := ℚ), Nat.cast_mul, Nat.cast_mul, tenTo_toNat scale, ← mul_assoc,
    mul_le_mul_iff_left₀ hpos]

theorem le_scaled_iff :
    b * tenTo scale.toNat ≤ a * tenTo (-scale).toNat ↔ (b : ℚ) * 10 ^ scale ≤ a := by
  have hpos : (0 : ℚ) < tenTo (-scale).toNat := Nat.cast_pos.2 (tenTo_pos _)
  rw [← Nat.cast_le (α := ℚ), Nat.cast_mul, Nat.cast_mul, tenTo_toNat scale, ← mul_assoc,
    mul_le_mul_iff_left₀ hpos]

theorem scaled_lt_iff :
    a * tenTo (-scale).toNat < b * tenTo scale.toNat ↔ (a : ℚ) < b * 10 ^ scale := by
  rw [← not_le, le_scaled_iff, not_le]

theorem lt_scaled_iff :
    b * tenTo scale.toNat < a * tenTo (-scale).toNat ↔ (b : ℚ) * 10 ^ scale < a := by
  rw [← not_le, scaled_le_iff, not_le]

end Scaled

theorem ten_zpow_pos (scale : Int) : (0 : ℚ) < 10 ^ scale :=
  zpow_pos (by norm_num) scale

/-- Around a number the first of two others is preferred to the second: it is nearer, or as
    near and not less. -/
def Nearer (number first second : ℚ) : Prop :=
  |first - number| < |second - number|
    ∨ |first - number| = |second - number| ∧ second ≤ first

namespace Nearer

variable (number first second third : ℚ)

theorem of_below (h : first ≤ second) (hnumber : second ≤ number) :
    Nearer number second first := by
  unfold Nearer
  rw [abs_of_nonpos (sub_nonpos.2 hnumber), abs_of_nonpos (sub_nonpos.2 (h.trans hnumber))]
  rcases h.lt_or_eq with hlt | rfl
  · exact Or.inl (by linarith)
  · exact Or.inr ⟨rfl, le_rfl⟩

theorem of_above (h : first ≤ second) (hnumber : number ≤ first) :
    Nearer number first second := by
  unfold Nearer
  rw [abs_of_nonneg (sub_nonneg.2 hnumber), abs_of_nonneg (sub_nonneg.2 (hnumber.trans h))]
  rcases h.lt_or_eq with hlt | rfl
  · exact Or.inl (by linarith)
  · exact Or.inr ⟨rfl, le_rfl⟩

theorem refl : Nearer number first first :=
  Or.inr ⟨rfl, le_rfl⟩

/-- Of two numbers around a third the nearer one is below or above their middle. -/
theorem of_middle (hfirst : first ≤ number) (hsecond : number ≤ second) :
    if 2 * number < first + second then Nearer number first second
    else Nearer number second first := by
  unfold Nearer
  rw [abs_of_nonpos (sub_nonpos.2 hfirst), abs_of_nonneg (sub_nonneg.2 hsecond)]
  by_cases hmiddle : 2 * number < first + second
  · rw [if_pos hmiddle]
    exact Or.inl (by linarith)
  · rw [if_neg hmiddle]
    rcases (not_lt.1 hmiddle).lt_or_eq with hlt | heq
    · exact Or.inl (by linarith)
    · exact Or.inr ⟨by linarith, hfirst.trans hsecond⟩

variable {number first second third}

theorem trans (h : Nearer number first second) (hnext : Nearer number second third) :
    Nearer number first third := by
  rcases h with hlt | ⟨heq, hle⟩
  · rcases hnext with hlt' | ⟨heq', -⟩
    · exact Or.inl (hlt.trans hlt')
    · exact Or.inl (hlt.trans_eq heq')
  · rcases hnext with hlt' | ⟨heq', hle'⟩
    · exact Or.inl (heq.trans_lt hlt')
    · exact Or.inr ⟨heq.trans heq', hle'.trans hle⟩

theorem antisymm (h : Nearer number first second) (hback : Nearer number second first) :
    first = second := by
  rcases h with hlt | ⟨heq, hle⟩
  · rcases hback with hlt' | ⟨heq', -⟩
    · exact absurd hlt' hlt.not_gt
    · exact absurd heq' hlt.ne'
  · rcases hback with hlt' | ⟨-, hle'⟩
    · exact absurd heq hlt'.ne'
    · exact le_antisymm hle' hle

end Nearer

namespace RealInterval

/-- The number of an interval. -/
def number (interval : RealInterval) : ℚ :=
  interval.value / interval.unit

/-- A number lies in an interval, the ends included or not. -/
def Inside (interval : RealInterval) (q : ℚ) : Prop :=
  if interval.closed then
    (interval.low : ℚ) / interval.unit ≤ q ∧ q ≤ (interval.high : ℚ) / interval.unit
  else (interval.low : ℚ) / interval.unit < q ∧ q < (interval.high : ℚ) / interval.unit

/-- The number lies between the ends of its interval, and these above zero. -/
structure Proper (interval : RealInterval) : Prop where
  unit_pos : 0 < interval.unit
  low_pos : 0 < interval.low
  low_lt : interval.low < interval.value
  lt_high : interval.value < interval.high

section Points

variable (interval : RealInterval) (h : interval.Proper)
include h

theorem unit_cast_pos : (0 : ℚ) < interval.unit :=
  Nat.cast_pos.2 h.unit_pos

theorem lt_number : (interval.low : ℚ) / interval.unit < interval.number :=
  div_lt_div_of_pos_right (Nat.cast_lt.2 h.low_lt) (unit_cast_pos interval h)

theorem number_lt : interval.number < (interval.high : ℚ) / interval.unit :=
  div_lt_div_of_pos_right (Nat.cast_lt.2 h.lt_high) (unit_cast_pos interval h)

theorem pos_of_inside (q : ℚ) (hq : interval.Inside q) : 0 < q := by
  have hlow : 0 < (interval.low : ℚ) / interval.unit :=
    div_pos (Nat.cast_pos.2 h.low_pos) (unit_cast_pos interval h)
  unfold Inside at hq
  split at hq
  · exact hlow.trans_le hq.1
  · exact hlow.trans hq.1

/-- What lies between the number and something inside is inside. -/
theorem inside_of_between (q r : ℚ) (hr : interval.Inside r)
    (hbetween : r ≤ q ∧ q ≤ interval.number ∨ interval.number ≤ q ∧ q ≤ r) :
    interval.Inside q := by
  have hlow := lt_number interval h
  have hhigh := number_lt interval h
  -- With its ends or without them, an interval holds all that is between two of its points.
  unfold Inside at hr ⊢
  split at hr
  · rename_i hclosed
    rw [if_pos hclosed]
    rcases hbetween with ⟨hrq, hqn⟩ | ⟨hnq, hqr⟩
    · exact ⟨hr.1.trans hrq, hqn.trans hhigh.le⟩
    · exact ⟨hlow.le.trans hnq, hqr.trans hr.2⟩
  · rename_i hopen
    rw [if_neg hopen]
    rcases hbetween with ⟨hrq, hqn⟩ | ⟨hnq, hqr⟩
    · exact ⟨hr.1.trans_le hrq, hqn.trans_lt hhigh⟩
    · exact ⟨hlow.trans_le hnq, hqr.trans_lt hr.2⟩

/-- Which grid points lie in an interval. -/
theorem contains_iff (n : Nat) (scale : Int) :
    interval.contains n scale = true ↔ interval.Inside (n * 10 ^ scale) := by
  have hunit := unit_cast_pos interval h
  -- The point stands on the left of two comparisons and on the right of the others.
  have hpoint : n * tenTo scale.toNat * interval.unit
      = (n * interval.unit) * tenTo scale.toNat := Nat.mul_right_comm n _ _
  have hcast : ((n * interval.unit : Nat) : ℚ) * 10 ^ scale
      = n * 10 ^ scale * interval.unit := by
    push_cast
    ring
  unfold contains Inside
  simp only [hpoint]
  by_cases hclosed : interval.closed = true
  · rw [if_pos hclosed, if_pos hclosed, Bool.and_eq_true, decide_eq_true_eq, decide_eq_true_eq,
      scaled_le_iff, le_scaled_iff, hcast, div_le_iff₀ hunit, le_div_iff₀ hunit]
  · rw [if_neg hclosed, if_neg hclosed, Bool.and_eq_true, decide_eq_true_eq, decide_eq_true_eq,
      scaled_lt_iff, lt_scaled_iff, hcast, div_lt_iff₀ hunit, lt_div_iff₀ hunit]

/-- Which grid points do not exceed the number. -/
theorem le_floorAt_iff (n : Nat) (scale : Int) :
    n ≤ interval.floorAt scale ↔ n * 10 ^ scale ≤ interval.number := by
  have hunit := unit_cast_pos interval h
  have hcast : ((n * interval.unit : Nat) : ℚ) * 10 ^ scale
      = n * 10 ^ scale * interval.unit := by
    push_cast
    ring
  unfold floorAt number
  rw [Nat.le_div_iff_mul_le (Nat.mul_pos h.unit_pos (tenTo_pos _)), ← Nat.mul_assoc,
    le_scaled_iff, hcast, le_div_iff₀ hunit]

theorem floorAt_le (scale : Int) :
    interval.floorAt scale * 10 ^ scale ≤ interval.number :=
  (le_floorAt_iff interval h _ scale).1 le_rfl

theorem lt_floorAt (scale : Int) :
    interval.number < (interval.floorAt scale + 1 : Nat) * 10 ^ scale := by
  rw [← not_le, ← le_floorAt_iff interval h]
  omega

/-- Whether the number is below the middle of two grid points. -/
theorem isCloserBelow_iff (n : Nat) (scale : Int) :
    interval.isCloserBelow n scale = true
      ↔ 2 * interval.number < n * 10 ^ scale + (n + 1 : Nat) * 10 ^ scale := by
  have hunit := unit_cast_pos interval h
  unfold isCloserBelow number
  rw [decide_eq_true_eq, scaled_lt_iff, ← mul_div_assoc, div_lt_iff₀ hunit]
  push_cast
  ring_nf

/-- A grid point in the interval shows that the neighbour on its side lies there as well. -/
theorem inside_neighbour (n : Nat) (scale : Int) (hn : interval.Inside (n * 10 ^ scale)) :
    (n ≤ interval.floorAt scale ∧ interval.Inside (interval.floorAt scale * 10 ^ scale))
      ∨ (interval.floorAt scale + 1 ≤ n
        ∧ interval.Inside ((interval.floorAt scale + 1 : Nat) * 10 ^ scale)) := by
  have hten := ten_zpow_pos scale
  rcases Nat.lt_or_ge (interval.floorAt scale) n with habove | hbelow
  · refine Or.inr ⟨habove, inside_of_between interval h _ _ hn (Or.inr
      ⟨(lt_floorAt interval h scale).le, ?_⟩)⟩
    exact mul_le_mul_of_nonneg_right (Nat.cast_le.2 habove) hten.le
  · refine Or.inl ⟨hbelow, inside_of_between interval h _ _ hn (Or.inl
      ⟨?_, floorAt_le interval h scale⟩)⟩
    exact mul_le_mul_of_nonneg_right (Nat.cast_le.2 hbelow) hten.le

/-- If no grid point is found, none lies in the interval. -/
theorem not_inside_of_nearestOn? (scale : Int) (hnone : interval.nearestOn? scale = none)
    (n : Nat) : ¬ interval.Inside (n * 10 ^ scale) := by
  intro hn
  unfold nearestOn? at hnone
  simp only at hnone
  split at hnone
  · exact absurd hnone (by simp only [reduceCtorEq, not_false_eq_true])
  · exact absurd hnone (by simp only [reduceCtorEq, not_false_eq_true])
  · exact absurd hnone (by simp only [reduceCtorEq, not_false_eq_true])
  · -- The search gives up only if neither neighbour of the number lies in the interval.
    rename_i hbelow habove
    rcases inside_neighbour interval h n scale hn with ⟨-, hinside⟩ | ⟨-, hinside⟩
    · exact absurd ((contains_iff interval h _ scale).2 hinside) (ne_true_of_eq_false hbelow)
    · exact absurd ((contains_iff interval h _ scale).2 hinside) (ne_true_of_eq_false habove)

/-- What is preferred to the neighbours that lie in the interval is preferred to all grid
    points that do. -/
theorem nearer_of_neighbours (q : ℚ) (scale : Int)
    (hbelow : interval.Inside (interval.floorAt scale * 10 ^ scale) →
      Nearer interval.number q (interval.floorAt scale * 10 ^ scale))
    (habove : interval.Inside ((interval.floorAt scale + 1 : Nat) * 10 ^ scale) →
      Nearer interval.number q ((interval.floorAt scale + 1 : Nat) * 10 ^ scale))
    (n : Nat) (hn : interval.Inside (n * 10 ^ scale)) :
    Nearer interval.number q (n * 10 ^ scale) := by
  have hten := ten_zpow_pos scale
  -- A grid point on one side is no nearer than the neighbour on that side.
  rcases inside_neighbour interval h n scale hn with ⟨hle, hinside⟩ | ⟨hle, hinside⟩
  · exact (hbelow hinside).trans (.of_below _ _ _
      (mul_le_mul_of_nonneg_right (Nat.cast_le.2 hle) hten.le) (floorAt_le interval h scale))
  · exact (habove hinside).trans (.of_above _ _ _
      (mul_le_mul_of_nonneg_right (Nat.cast_le.2 hle) hten.le) (lt_floorAt interval h scale).le)

/-- The grid point that is found lies in the interval and is preferred to all others that
    do. -/
theorem nearer_of_nearestOn? (scale : Int) (found : Nat)
    (hfound : interval.nearestOn? scale = some found) :
    interval.Inside (found * 10 ^ scale)
      ∧ ∀ n : Nat, interval.Inside (n * 10 ^ scale) →
        Nearer interval.number (found * 10 ^ scale) (n * 10 ^ scale) := by
  have hmiddle := Nearer.of_middle interval.number _ _ (floorAt_le interval h scale)
    (lt_floorAt interval h scale).le
  have hcloser := isCloserBelow_iff interval h (interval.floorAt scale) scale
  have hprefers := fun q => nearer_of_neighbours interval h q scale
  simp only [← contains_iff interval h (interval.floorAt scale) scale,
    ← contains_iff interval h (interval.floorAt scale + 1) scale] at hprefers
  unfold nearestOn? at hfound
  simp only at hfound
  split at hfound
  · rename_i hbelow habove
    rw [contains_iff interval h] at hbelow habove
    -- Both neighbours lie in the interval, and the middle between them decides.
    by_cases hcloses : interval.isCloserBelow (interval.floorAt scale) scale = true
    · rw [if_pos (hcloser.1 hcloses)] at hmiddle
      rw [if_pos hcloses, Option.some.injEq] at hfound
      exact hfound ▸ ⟨hbelow, hprefers _ (fun _ => .refl _ _) fun _ => hmiddle⟩
    · rw [if_neg (mt hcloser.2 hcloses)] at hmiddle
      rw [if_neg hcloses, Option.some.injEq] at hfound
      exact hfound ▸ ⟨habove, hprefers _ (fun _ => hmiddle) fun _ => .refl _ _⟩
  · rename_i hbelow habove
    rw [Option.some.injEq] at hfound
    exact hfound ▸ ⟨(contains_iff interval h _ scale).1 hbelow, hprefers _ (fun _ => .refl _ _)
      fun hinside => absurd hinside (ne_true_of_eq_false habove)⟩
  · rename_i hbelow habove
    rw [Option.some.injEq] at hfound
    exact hfound ▸ ⟨(contains_iff interval h _ scale).1 habove, hprefers _
      (fun hinside => absurd hinside (ne_true_of_eq_false hbelow)) fun _ => .refl _ _⟩
  · exact absurd hfound (by simp only [reduceCtorEq, not_false_eq_true])

end Points

end RealInterval

end FileSignatures
