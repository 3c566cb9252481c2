import MakerSpace.Servo.Model

/-! Angles and pulse widths.

A handle's range is kept in two bytes, in steps of four microseconds, so it is never
narrower than 836 µs: an angle in whole degrees survives the way to ticks and back
(`read_write`). -/
namespace MakerSpace.Servo

theorem servoMin_range (o : Handle) : 36 ≤ o.servoMin ∧ o.servoMin ≤ 1056 := by
  have hlow := o.min.le_toInt
  have hhigh := o.min.toInt_lt
  rw [Handle.servoMin, minPulseWidth]
  omega

theorem servoMax_range (o : Handle) : 1892 ≤ o.servoMax ∧ o.servoMax ≤ 2912 := by
  have hlow := o.max.le_toInt
  have hhigh := o.max.toInt_lt
  rw [Handle.servoMax, maxPulseWidth]
  omega

theorem width_between (o : Handle) (value : Int) :
    o.servoMin ≤ o.width value ∧ o.width value ≤ o.servoMax := by
  have hmin := servoMin_range o
  have hmax := servoMax_range o
  by_cases hlt : value < o.servoMin
  · rw [Handle.width, if_pos hlt]
    omega
  · by_cases hgt : value > o.servoMax
    · rw [Handle.width, if_neg hlt, if_pos hgt]
      omega
    · rw [Handle.width, if_neg hlt, if_neg hgt]
      omega

/-- The ticks of a width. -/
theorem ticks_width (o : Handle) (value : Int) :
    ((BitVec.ofInt 16 (usToTicks (o.width value - trimDuration))).toNat : Int) = 2 * (o.width value - 2) := by
  have hmin := servoMin_range o
  have hmax := servoMax_range o
  have hwidth := width_between o value
  have hticks : usToTicks (o.width value - trimDuration) = 2 * (o.width value - 2) := by
    rw [usToTicks, trimDuration, Int.tdiv_eq_ediv_of_nonneg (by omega)]
    omega
  rw [hticks, BitVec.toNat_ofInt]
  omega

theorem writeMicroseconds_self (value : Int) {o : Handle} (h : o.servoIndex < servosPerTimer) (servos : Table) :
    (writeMicroseconds value o servos)[o.servoIndex]? =
      some {servos.get ⟨o.servoIndex, h⟩ with
        ticks := BitVec.ofInt 16 (usToTicks (o.width value - trimDuration))} := by
  rw [writeMicroseconds, dif_pos h, Vector.getElem?_set_self]

/-- Widths come back as they were set. -/
theorem readMicroseconds_write (value : Int) {o : Handle} (h : o.servoIndex < servosPerTimer)
    (servos : Table) : (readMicroseconds o (writeMicroseconds value o servos)).toInt = o.width value := by
  have hmin := servoMin_range o
  have hmax := servoMax_range o
  have hwidth := width_between o value
  have hticks := ticks_width o value
  rw [readMicroseconds, writeMicroseconds_self value h]
  dsimp only
  generalize BitVec.ofInt 16 (usToTicks (o.width value - trimDuration)) = ticks at hticks ⊢
  have hnat : (ticksToUs ticks + BitVec.ofInt 16 trimDuration).toNat = ticks.toNat / 2 + 2 := by
    have htrim : (BitVec.ofInt 16 trimDuration).toNat = 2 := by decide
    have height : (8 : BitVec 16).toNat = 8 := rfl
    have hsixteen : (16 : BitVec 16).toNat = 16 := rfl
    rw [BitVec.toNat_add, ticksToUs, BitVec.toNat_udiv, BitVec.toNat_mul, htrim, height, hsixteen]
    omega
  rw [BitVec.toInt_eq_toNat_of_lt (by omega), hnat]
  omega

/-- `map` to a range of widths wider than the angles, and back: the one added before the
way back makes up for both roundings. -/
theorem map_map {angle low high : Int} (hangle : 0 ≤ angle ∧ angle ≤ 180) (hwide : 180 < high - low) :
    (low ≤ map angle 0 180 low high ∧ map angle 0 180 low high ≤ high) ∧
      map (map angle 0 180 low high + 1) low high 0 180 = angle := by
  obtain ⟨hlow, hhigh⟩ := hangle
  have hpos : 0 < high - low := by omega
  have hprod : 0 ≤ angle * (high - low) := Int.mul_nonneg hlow (Int.le_of_lt hpos)
  have hwidth : map angle 0 180 low high = angle * (high - low) / 180 + low := by
    rw [map, Int.sub_zero, Int.sub_zero, Int.tdiv_eq_ediv_of_nonneg hprod]
  have htop : angle * (high - low) ≤ 180 * (high - low) :=
    Int.mul_le_mul_of_nonneg_right hhigh (Int.le_of_lt hpos)
  rw [hwidth]
  refine ⟨⟨by omega, by omega⟩, ?_⟩
  have hback : map (angle * (high - low) / 180 + low + 1) low high 0 180 =
      (angle * (high - low) / 180 + 1) * 180 / (high - low) := by
    rw [map, Int.sub_zero, Int.add_zero, Int.tdiv_eq_ediv_of_nonneg (by omega)]
    congr 2
    omega
  rw [hback]
  have hfirst : angle * (high - low) ≤ (angle * (high - low) / 180 + 1) * 180 := by omega
  have hnext : (angle + 1) * (high - low) = angle * (high - low) + (high - low) := by
    rw [Int.add_mul, Int.one_mul]
  have hlast : (angle * (high - low) / 180 + 1) * 180 < (angle + 1) * (high - low) := by omega
  exact Int.le_antisymm (Int.lt_add_one_iff.mp ((Int.ediv_lt_iff_lt_mul hpos).mpr hlast))
    ((Int.le_ediv_iff_mul_le hpos).mpr hfirst)

/-- **What is written is read back**, in every range a handle can keep: widths in
microseconds, clipped to the range, and angles, clipped to 0 and 180. -/
theorem read_write (value : Int) {o : Handle} (h : o.servoIndex < servosPerTimer) (servos : Table) :
    (readMicroseconds o (writeMicroseconds value o servos)).toInt = o.width value ∧
      (value < minPulseWidth → read o (write value o servos) = max 0 (min value 180)) := by
  refine ⟨readMicroseconds_write value h servos, fun hangle => ?_⟩
  have hclip : (if (if value < 0 then 0 else value) > 180 then 180 else if value < 0 then 0 else value) =
      max 0 (min value 180) := by
    split <;> split at * <;> omega
  have hmin := servoMin_range o
  have hmax := servoMax_range o
  obtain ⟨⟨hlow, hhigh⟩, hback⟩ := @map_map (max 0 (min value 180)) o.servoMin o.servoMax (by omega) (by omega)
  rw [write, if_pos hangle]
  dsimp only
  rw [hclip, read, readMicroseconds_write _ h, Handle.width, if_neg (by omega), if_neg (by omega), hback]

/-- A quarter turn, of a servo with a range of its own. -/
theorem read_write_quarter :
    read ⟨3, 0xF1, 0x10⟩ (write 90 ⟨3, 0xF1, 0x10⟩ (Vector.replicate servosPerTimer {})) = 90 :=
  ((read_write 90 (by decide) (Vector.replicate servosPerTimer {})).2 (by decide)).trans (by decide)

end MakerSpace.Servo
