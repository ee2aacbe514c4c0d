/-
  What is kept of a wait that settings are given.

  A wait is kept in milliseconds, as a number of 64 bits. Of a wait with fewer than 2⁶⁴ milliseconds less
  than one is lost, and longer ones are kept as longer ones. Of any other wait only the rest modulo 2⁶⁴
  is kept, which may be nothing at all.
-/
import EndToEnd.Settings

namespace EndToEnd

namespace Span

/-- The milliseconds of a span are its nanoseconds, rounded down. -/
theorem milliseconds_eq (d : Span) : d.milliseconds = d.total / 1000000 := by
  unfold milliseconds total
  omega

theorem toNat_nanoseconds_ofMilliseconds (ms : UInt64) :
    (ofMilliseconds ms).nanoseconds.toNat = ms.toNat % 1000 * 1000000 := by
  have hrest : ms.toNat % 1000 < 1000 := Nat.mod_lt _ (by decide)
  unfold ofMilliseconds
  rw [UInt64.toNat_toUInt32, UInt64.toNat_mul, UInt64.toNat_mod]
  show ms.toNat % 1000 * 1000000 % 2 ^ 64 % 2 ^ 32 = ms.toNat % 1000 * 1000000
  omega

theorem total_ofMilliseconds (ms : UInt64) : (ofMilliseconds ms).total = ms.toNat * 1000000 := by
  have hseconds : (ofMilliseconds ms).seconds.toNat = ms.toNat / 1000 := UInt64.toNat_div ms 1000
  rw [total, hseconds, toNat_nanoseconds_ofMilliseconds]
  omega

end Span

namespace Settings

/-- What is kept of a wait, in nanoseconds. -/
theorem total_withThrottleCooldown (s : Settings) (d : Span) :
    (s.withThrottleCooldown d).throttleCooldown.total = d.milliseconds % 2 ^ 64 * 1000000 := by
  show (Span.ofMilliseconds (UInt64.ofNat d.milliseconds)).total = _
  rw [Span.total_ofMilliseconds, UInt64.toNat_ofNat']

/-- The milliseconds of a wait are kept modulo 2⁶⁴. The wait that is kept is no longer than the one that
was given, and by less than a millisecond shorter, if and only if the one that was given has fewer than
2⁶⁴ milliseconds. Of such waits a longer one is never kept as a shorter one. -/
theorem withThrottleCooldown_keeps_iff (s : Settings) (d : Span) :
    let kept := fun d => (s.withThrottleCooldown d).throttleCooldown
    (kept d).nanoseconds.toNat < 1000000000 ∧
      (kept d).total = d.milliseconds % 2 ^ 64 * 1000000 ∧
      ((kept d).total ≤ d.total ∧ d.total < (kept d).total + 1000000 ↔ d.milliseconds < 2 ^ 64) ∧
      ∀ d' : Span, d.total ≤ d'.total → d'.milliseconds < 2 ^ 64 → (kept d).total ≤ (kept d').total := by
  intro kept
  have hkept (d : Span) : (kept d).total = d.milliseconds % 2 ^ 64 * 1000000 :=
    total_withThrottleCooldown s d
  have hd := d.milliseconds_eq
  refine ⟨?_, hkept d, ?_, fun d' hle hfits => ?_⟩
  · have hrest := Span.toNat_nanoseconds_ofMilliseconds (UInt64.ofNat d.milliseconds)
    change (kept d).nanoseconds.toNat = _ at hrest
    omega
  · rw [hkept]
    constructor
    · intro h
      omega
    · intro h
      rw [Nat.mod_eq_of_lt h]
      omega
  · have hd' := d'.milliseconds_eq
    have hms : d.milliseconds ≤ d'.milliseconds := by
      rw [hd, hd']
      exact Nat.div_le_div_right hle
    rw [hkept, hkept, Nat.mod_eq_of_lt hfits, Nat.mod_eq_of_lt (Nat.lt_of_le_of_lt hms hfits)]
    exact Nat.mul_le_mul_right _ hms

/-- The longest wait that is kept whole but for less than a millisecond. -/
theorem keeps_longest_wait :
    let s := Settings.new "alice"
    let d : Span := ⟨18446744073709551, 615999999⟩
    (s.withThrottleCooldown d).throttleCooldown = ⟨18446744073709551, 615000000⟩ ∧
      d.total < (s.withThrottleCooldown d).throttleCooldown.total + 1000000 ∧
      (s.withThrottleCooldown ⟨2, 0⟩).throttleCooldown.total ≤
        (s.withThrottleCooldown d).throttleCooldown.total := by
  intro s d
  have hd := withThrottleCooldown_keeps_iff s d
  have hshort := withThrottleCooldown_keeps_iff s ⟨2, 0⟩
  exact ⟨by decide +kernel, (hd.2.2.1.2 (by decide +kernel)).2,
    hshort.2.2.2 d (by decide +kernel) (by decide +kernel)⟩

/-- Nothing is kept of a wait of 2⁶⁴ milliseconds, although a wait of a second is kept and so is a wait
that is shorter than this one by a nanosecond. -/
theorem longer_wait_lost :
    let kept := fun d : Span => ((Settings.new "alice").withThrottleCooldown d).throttleCooldown
    let d : Span := ⟨18446744073709551, 616000000⟩
    d.nanoseconds.toNat < 1000000000 ∧ kept d = ⟨0, 0⟩ ∧ ¬ d.total < (kept d).total + 1000000 ∧
      kept d ≠ Span.ofMilliseconds (UInt64.ofNat (2 ^ 64 - 1)) ∧
      (⟨1, 0⟩ : Span).total ≤ d.total ∧ ¬ (kept ⟨1, 0⟩).total ≤ (kept d).total ∧
      kept ⟨18446744073709551, 615999999⟩ = ⟨18446744073709551, 615000000⟩ := by
  decide +kernel

end Settings

end EndToEnd
