import Mathlib.Algebra.Order.Field.Power
import Mathlib.Data.Nat.Cast.Order.Field
import Mathlib.Data.List.Basic
import Mathlib.Data.List.TakeWhile
import Mathlib.Data.Rat.Cast.Order
import Mathlib.Tactic.Linarith
import Mathlib.Tactic.NormNum
import Mathlib.Tactic.Ring
import Lobby.Json.Record.Lemmas

/-! The shortest decimal of a word lies in the interval that rounds to it, so it is not zero and is
spelled the way numbers are read. -/
namespace Lobby

namespace Number

namespace Ratio

def value (r : Ratio) : ℚ := r.num / r.den

theorem lt_iff {a b : Ratio} (ha : 0 < a.den) (hb : 0 < b.den) :
    a.lt b = true ↔ a.value < b.value := by
  have ha' : (0 : ℚ) < a.den := by exact_mod_cast ha
  have hb' : (0 : ℚ) < b.den := by exact_mod_cast hb
  rw [lt, decide_eq_true_eq, value, value, div_lt_div_iff₀ ha' hb']
  exact_mod_cast Iff.rfl

theorem le_iff {a b : Ratio} (ha : 0 < a.den) (hb : 0 < b.den) :
    a.le b = true ↔ a.value ≤ b.value := by
  have ha' : (0 : ℚ) < a.den := by exact_mod_cast ha
  have hb' : (0 : ℚ) < b.den := by exact_mod_cast hb
  rw [le, decide_eq_true_eq, value, value, div_le_div_iff₀ ha' hb']
  exact_mod_cast Iff.rfl

theorem den_scale_pos {r : Ratio} {base : Nat} (hr : 0 < r.den) (hb : 0 < base) (e : Int) :
    0 < (r.scale base e).den := by
  cases e with
  | ofNat k => exact hr
  | negSucc k => exact Nat.mul_pos hr (Nat.pow_pos hb)

@[simp] theorem value_ofNat (n : Nat) : (ofNat n).value = n := by simp [value, ofNat]

theorem value_scale (r : Ratio) {base : Nat} (hb : 0 < base) (e : Int) :
    (r.scale base e).value = r.value * (base : ℚ) ^ e := by
  have hb' : (base : ℚ) ≠ 0 := by exact_mod_cast hb.ne'
  cases e with
  | ofNat k =>
    simp only [scale, value, Nat.pow_eq, Nat.cast_mul, Nat.cast_pow, Int.ofNat_eq_natCast,
      zpow_natCast]
    ring
  | negSucc k =>
    simp only [scale, value, Nat.pow_eq, Nat.cast_mul, Nat.cast_pow, zpow_negSucc]
    rw [div_mul_eq_div_div, div_eq_mul_inv (_ / _)]

/-- A quotient is less than one above its whole part. -/
theorem value_lt_floor {r : Ratio} (hr : 0 < r.den) : r.value < (r.num / r.den : Nat) + 1 := by
  have hr' : (0 : ℚ) < r.den := by exact_mod_cast hr
  rw [value, div_lt_iff₀ hr']
  have := Nat.lt_mul_div_succ r.num hr
  rw [mul_comm] at this
  exact_mod_cast this

theorem floor_le_value (r : Ratio) : ((r.num / r.den : Nat) : ℚ) ≤ r.value := Nat.cast_div_le

end Ratio

theorem Decimal.value_ratio (d : Decimal) : d.ratio.value = d.digits * (10 : ℚ) ^ d.power := by
  rw [ratio, Ratio.value_scale _ (by decide), Ratio.value_ofNat]
  rfl

theorem Decimal.den_ratio_pos (d : Decimal) : 0 < d.ratio.den :=
  Ratio.den_scale_pos Nat.one_pos (by decide) _

theorem Scaled.value_ratio (s : Scaled) : s.ratio.value = s.mantissa * (2 : ℚ) ^ s.exponent := by
  rw [ratio, Ratio.value_scale _ (by decide), Ratio.value_ofNat]
  rfl

theorem Scaled.den_ratio_pos (s : Scaled) : 0 < s.ratio.den :=
  Ratio.den_scale_pos Nat.one_pos (by decide) _

structure Interval.Positive (i : Interval) : Prop where
  den_low : 0 < i.low.den
  den_high : 0 < i.high.den
  low : 0 < i.low.value

namespace Interval
variable {i : Interval}

theorem contains_of_lt (h : i.Positive) {r : Ratio} (hr : 0 < r.den) (hlow : i.low.value < r.value)
    (hhigh : r.value < i.high.value) : i.contains r = true := by
  rw [contains]
  split
  · rw [Bool.and_eq_true]
    exact ⟨(Ratio.le_iff h.den_low hr).mpr hlow.le, (Ratio.le_iff hr h.den_high).mpr hhigh.le⟩
  · rw [Bool.and_eq_true]
    exact ⟨(Ratio.lt_iff h.den_low hr).mpr hlow, (Ratio.lt_iff hr h.den_high).mpr hhigh⟩

theorem low_le_of_contains (h : i.Positive) {r : Ratio} (hr : 0 < r.den)
    (hc : i.contains r = true) : i.low.value ≤ r.value := by
  rw [contains] at hc
  split at hc
  · exact (Ratio.le_iff h.den_low hr).mp (Bool.and_eq_true_iff.mp hc).1
  · exact ((Ratio.lt_iff h.den_low hr).mp (Bool.and_eq_true_iff.mp hc).1).le

/-- No decimal that such an interval contains is zero. -/
theorem digits_ne_zero_of_contains (h : i.Positive) {d : Decimal}
    (hc : i.contains d.ratio = true) : d.digits ≠ 0 := by
  intro hzero
  have hle := low_le_of_contains h d.den_ratio_pos hc
  rw [Decimal.value_ratio, hzero, Nat.cast_zero, zero_mul] at hle
  exact absurd h.low (not_lt.mpr hle)

/-- What is found on a grid lies in the interval. -/
theorem contains_of_onGrid? {r : Ratio} {power : Int} {d : Decimal}
    (h : i.onGrid? r power = some d) : i.contains d.ratio = true := by
  rw [onGrid?] at h
  split at h
  next hbelow habove =>
    obtain rfl := Option.some.inj h
    -- the nearest point of the grid is one of the two neighbours
    rw [Ratio.nearest]
    split
    · exact habove
    · exact hbelow
  next hbelow _ =>
    obtain rfl := Option.some.inj h
    exact hbelow
  next _ habove =>
    obtain rfl := Option.some.inj h
    exact habove
  next => contradiction

/-- On a grid that is finer than the part of the interval below `r` there is a point of it. -/
theorem isSome_onGrid? (h : i.Positive) {r : Ratio} (hr : 0 < r.den)
    (hhigh : r.value < i.high.value) {power : Int}
    (hfine : (10 : ℚ) ^ power < r.value - i.low.value) : (i.onGrid? r power).isSome = true := by
  have hpow : (0 : ℚ) < 10 ^ power := zpow_pos (by norm_num) power
  have hsteps : (r.scale 10 (-power)).value * 10 ^ power = r.value := by
    rw [Ratio.value_scale _ (by decide), mul_assoc, Nat.cast_ofNat, ← zpow_add₀ (by norm_num)]
    simp
  have hbelow : i.contains (Decimal.ratio
      ⟨(r.scale 10 (-power)).num / (r.scale 10 (-power)).den, power⟩) = true := by
    apply contains_of_lt h (Decimal.den_ratio_pos _)
    · have hlt := Ratio.value_lt_floor (Ratio.den_scale_pos hr (by decide : 0 < 10) (-power))
      have := mul_lt_mul_of_pos_right hlt hpow
      rw [Decimal.value_ratio]
      linarith
    · have hle := Ratio.floor_le_value (r.scale 10 (-power))
      have := mul_le_mul_of_nonneg_right hle hpow.le
      rw [Decimal.value_ratio]
      linarith
  rw [onGrid?]
  dsimp only
  rw [hbelow]
  split <;> simp_all

/-- The search ends on the first grid with a point of the interval. -/
theorem contains_firstOnGrid {r : Ratio} (fuel : Nat) (power : Int) {k : Nat} (hk : k < fuel)
    (h : (i.onGrid? r (power - k)).isSome = true) :
    i.contains (i.firstOnGrid r fuel power).ratio = true := by
  induction fuel generalizing power k with
  | zero => omega
  | succ fuel ih =>
    rw [firstOnGrid]
    split
    next d hd => exact contains_of_onGrid? hd
    next hd =>
      cases k with
      | zero => simp [hd] at h
      | succ k =>
        refine ih (power - 1) (k := k) (by omega) ?_
        rwa [show power - 1 - (k : Int) = power - (k + 1 : Nat) by omega]

end Interval

theorem Scaled.positive_interval {s : Scaled} (hm : s.mantissa ≠ 0) : s.interval.Positive := by
  have hpow (e : Int) : (0 : ℚ) < 2 ^ e := zpow_pos (by norm_num) e
  constructor
  · rw [interval]
    split <;> exact Ratio.den_scale_pos Nat.one_pos (by decide) _
  · exact Ratio.den_scale_pos Nat.one_pos (by decide) _
  · rw [interval]
    split
    · rw [Ratio.value_scale _ (by decide), Ratio.value_ofNat]
      exact mul_pos (by exact_mod_cast (by omega : 0 < 4 * s.mantissa - 1)) (hpow _)
    · rw [Ratio.value_scale _ (by decide), Ratio.value_ofNat]
      exact mul_pos (by exact_mod_cast (by omega : 0 < 2 * s.mantissa - 1)) (hpow _)

/-- A magnitude lies at least a quarter of its unit above what rounds to its lower neighbour. -/
theorem Scaled.low_interval_le {s : Scaled} (hm : s.mantissa ≠ 0) :
    s.interval.low.value + 2 ^ (s.exponent - 2) ≤ s.ratio.value := by
  have hpow : (0 : ℚ) < 2 ^ (s.exponent - 2) := zpow_pos (by norm_num) _
  have hone : (2 : ℚ) ^ (s.exponent - 1) = 2 * 2 ^ (s.exponent - 2) := by
    rw [show s.exponent - 1 = 1 + (s.exponent - 2) by ring, zpow_one_add₀ (by norm_num)]
  have htwo : (2 : ℚ) ^ s.exponent = 4 * 2 ^ (s.exponent - 2) := by
    rw [show s.exponent = 2 + (s.exponent - 2) by ring, zpow_add₀ (by norm_num)]
    norm_num
  rw [s.value_ratio, htwo, interval]
  split
  · rw [Ratio.value_scale _ (by decide), Ratio.value_ofNat,
      Nat.cast_sub (by omega : 1 ≤ 4 * s.mantissa)]
    push_cast
    linarith
  · rw [Ratio.value_scale _ (by decide), Ratio.value_ofNat,
      Nat.cast_sub (by omega : 1 ≤ 2 * s.mantissa)]
    push_cast
    rw [hone]
    linarith

theorem Scaled.lt_high_interval (s : Scaled) : s.ratio.value < s.interval.high.value := by
  have hpow : (0 : ℚ) < 2 ^ (s.exponent - 1) := zpow_pos (by norm_num) _
  have htwo : (2 : ℚ) ^ s.exponent = 2 * 2 ^ (s.exponent - 1) := by
    rw [show s.exponent = 1 + (s.exponent - 1) by ring, zpow_one_add₀ (by norm_num)]
    simp
  rw [s.value_ratio, htwo, interval, Ratio.value_scale _ (by decide), Ratio.value_ofNat]
  push_cast
  linarith

/-- The shortest decimal of a magnitude rounds to it. -/
theorem Scaled.contains_shortest {s : Scaled} (hm : s.mantissa ≠ 0) (he : -149 ≤ s.exponent) :
    s.interval.contains s.shortest.ratio = true := by
  have hfine : (10 : ℚ) ^ (-54 : Int) < s.ratio.value - s.interval.low.value := by
    have hunit : (2 : ℚ) ^ (-151 : Int) ≤ 2 ^ (s.exponent - 2) :=
      zpow_le_zpow_right₀ (by norm_num) (by omega)
    have hgrid : (10 : ℚ) ^ (-54 : Int) < 2 ^ (-151 : Int) := by norm_num
    have := low_interval_le hm
    linarith
  exact Interval.contains_firstOnGrid 94 39 (k := 93) (by decide)
    (Interval.isSome_onGrid? (positive_interval hm) s.den_ratio_pos s.lt_high_interval hfine)

theorem Scaled.digits_shortest_ne_zero {s : Scaled} (hm : s.mantissa ≠ 0)
    (he : -149 ≤ s.exponent) : s.shortest.digits ≠ 0 :=
  Interval.digits_ne_zero_of_contains (positive_interval hm) (contains_shortest hm he)

theorem Binary32.finest_le_magnitude (x : Binary32) : -149 ≤ x.magnitude.exponent := by
  rw [magnitude]
  split
  · exact Int.le_refl _
  · dsimp only
    omega

end Number

namespace Json
open Number

structure Significant (digits : List Char) : Prop where
  isDigits : IsDigits digits
  head : digits.head? ≠ some '0'

theorem head?_toDigits_of_ne_zero {n : Nat} (hn : n ≠ 0) :
    (Nat.toDigits 10 n).head? ≠ some '0' := by
  intro hhead
  have hten : n < 10 := by
    by_contra hge
    have hlen := head?_toDigits n hhead
    have hpos := Nat.length_toDigits_pos (b := 10) (n := n / 10)
    rw [Nat.toDigits_of_base_le (by omega) (by omega), List.length_append] at hlen
    simp at hlen
  have hdigit : ∀ d : Fin 10, Nat.digitChar d = '0' → d.val = 0 := by decide
  rw [Nat.toDigits_of_lt_base hten, List.head?_cons] at hhead
  exact hn (hdigit ⟨n, hten⟩ (Option.some.inj hhead))

/-- Dropping the zeros at the end leaves the leading digit. -/
theorem significant_dropTrailingZeros {n : Nat} (hn : n ≠ 0) :
    Significant (Binary32.dropTrailingZeros (Nat.toDigits 10 n)) := by
  obtain ⟨c, cs, hcons⟩ := List.exists_cons_of_ne_nil (Nat.toDigits_ne_nil (n := n) (b := 10))
  have hc : c ≠ '0' := by
    rintro rfl
    exact head?_toDigits_of_ne_zero hn (by rw [hcons]; rfl)
  have hsub : Binary32.dropTrailingZeros (Nat.toDigits 10 n) <+: Nat.toDigits 10 n := by
    rw [Binary32.dropTrailingZeros, ← List.reverse_suffix, List.reverse_reverse]
    exact List.dropWhile_suffix _
  have hne : Binary32.dropTrailingZeros (Nat.toDigits 10 n) ≠ [] := by
    rw [Binary32.dropTrailingZeros, Ne, List.reverse_eq_nil_iff, List.dropWhile_eq_nil_iff, hcons]
    intro hall
    exact hc (beq_iff_eq.mp (hall c (by simp)))
  refine ⟨⟨hne, fun d hd => ?_⟩, ?_⟩
  · exact Nat.isDigit_of_mem_toDigits (by decide) (by decide) (hsub.subset hd)
  · obtain ⟨d, ds, hds⟩ := List.exists_cons_of_ne_nil hne
    rw [hds, hcons] at hsub
    rw [hds, List.head?_cons, (List.cons_prefix_cons.mp hsub).1]
    exact fun h => hc (Option.some.inj h)

private theorem isDigits_zeros_append (n : Nat) {digits : List Char} (h : IsDigits digits) :
    IsDigits (List.replicate n '0' ++ digits) := by
  refine ⟨List.append_ne_nil_of_right_ne_nil _ h.1, fun c hc => ?_⟩
  rcases List.mem_append.mp hc with hc | hc
  · rw [List.eq_of_mem_replicate hc]
    rfl
  · exact h.2 c hc

/-- Whatever the exponent, significant digits are spelled the way numbers are read. -/
theorem isSpelled_spell (negative : Bool) {digits : List Char} (h : Significant digits)
    (exponent : Int) : IsSpelled (Binary32.spell negative digits exponent) := by
  obtain ⟨⟨hne, hall⟩, hhead⟩ := h
  have hzero : ('0' : Char).isDigit := rfl
  have hdrop (n : Nat) (hn : digits.drop n ≠ []) : IsDigits (digits.drop n) :=
    ⟨hn, fun c hc => hall c (List.mem_of_mem_drop hc)⟩
  have htake (n : Nat) : digits.take (n + 1) ≠ [] := by simp [List.take_eq_nil_iff, hne]
  rw [Binary32.spell]
  split
  · -- all digits are ahead of the point, or the point stands among them
    refine ⟨⟨List.append_ne_nil_of_left_ne_nil (htake _) _, fun c hc => ?_⟩, fun hh => ?_, ?_, ?_⟩
    · rcases List.mem_append.mp hc with hc | hc
      · exact hall c (List.mem_of_mem_take hc)
      · rw [List.eq_of_mem_replicate hc]
        rfl
    · rw [List.head?_append_of_ne_nil _ (htake _), List.head?_take] at hh
      exact absurd hh hhead
    · rintro _ ⟨⟩
      split
      · exact ⟨by simp, by simp [hzero]⟩
      · exact hdrop _ ‹_›
    · rintro _ _ ⟨⟩
  · split
    · refine ⟨⟨by simp, by simp [hzero]⟩, fun _ => rfl, ?_, ?_⟩
      · rintro _ ⟨⟩
        exact isDigits_zeros_append _ ⟨hne, hall⟩
      · rintro _ _ ⟨⟩
    · -- one digit is ahead of the point
      refine ⟨⟨htake 0, fun c hc => hall c (List.mem_of_mem_take hc)⟩, fun hh => ?_, ?_, ?_⟩
      · rw [List.head?_take] at hh
        exact absurd hh hhead
      · intro fraction hf
        dsimp only at hf
        split at hf
        · contradiction
        · obtain rfl := Option.some.inj hf
          exact hdrop 1 (by rw [Ne, List.drop_eq_nil_iff]; assumption)
      · rintro _ _ ⟨⟩
        exact ⟨Nat.toDigits_ne_nil,
          fun c hc => Nat.isDigit_of_mem_toDigits (by decide) (by decide) hc⟩

theorem isSpelled_toLiteral? {x : Binary32} {l : Literal} (h : x.toLiteral? = some l) :
    IsSpelled l := by
  rw [Binary32.toLiteral?] at h
  dsimp only at h
  split at h
  · split at h
    · obtain rfl := Option.some.inj h
      constructor
      · exact ⟨by simp, by simp⟩
      · exact fun _ => rfl
      · rintro _ ⟨⟩
        exact ⟨by simp, by simp⟩
      · rintro _ _ ⟨⟩
    next hm =>
      obtain rfl := Option.some.inj h
      exact isSpelled_spell _ (significant_dropTrailingZeros
        (Scaled.digits_shortest_ne_zero hm x.finest_le_magnitude)) _
  · contradiction

/-- Every word is written as a number that can be read, or as `null`. -/
theorem isWritten_ofBinary32 (x : Binary32) : (ofBinary32 x).IsWritten := by
  rw [ofBinary32]
  split
  next l hl =>
    intro t ht
    rw [List.mem_singleton.mp (show t ∈ [Token.number l] from ht)]
    exact isSpelled_toLiteral? hl
  next =>
    intro t ht
    rw [List.mem_singleton.mp (show t ∈ [Token.null] from ht)]
    trivial

end Json

end Lobby
