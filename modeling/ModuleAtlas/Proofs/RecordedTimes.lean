import ModuleAtlas.Millis

/-!
# Recorded times

What is recorded of a time is its exact distance from the start of the epoch in milliseconds, with
the fraction dropped and moved into the range of recorded times.  The fraction is dropped towards
the start of the epoch, so that times before it are moved up and times after it down.  No step of
the computation leaves the range of its numbers.

Times are recorded in order, and apart if they are a millisecond apart on one side of the start.  On
both sides of it this fails: all times less than a millisecond away from it are recorded as its
start.

## Main definitions

* `EpochTime.signedNanos`, `EpochTime.signedMillis` — the exact distance, and its whole
  milliseconds.
* `EpochTime.InRange`, `EpochTime.SameSide` — times within the range, and times on one side of the
  start.

## Main results

* `EpochTime.toInt_millis_eq` — **what is recorded of a time, as an integer.**
* `EpochTime.millis_mono` — times are recorded in order.
* `EpochTime.signedMillis_ne` — times that are a millisecond apart have different whole
  milliseconds.
* `EpochTime.millis_exact` — **times are recorded exactly, in order and apart.**
-/

namespace ModuleAtlas

namespace EpochTime

/-! ### Exact times -/

/-- The nanoseconds from the start of the epoch to a time, negative if it lies before. -/
def signedNanos (t : EpochTime) : Int :=
  let nanos : Nat := t.secs * 1000000000 + t.nanos
  if t.before then -nanos else nanos

/-- The whole milliseconds from the start of the epoch to a time, without the fraction. -/
def signedMillis (t : EpochTime) : Int := t.signedNanos.tdiv 1000000

/-- The whole milliseconds of a time are in the range of recorded times. -/
def InRange (t : EpochTime) : Prop :=
  Millis.least ≤ t.signedMillis ∧ t.signedMillis ≤ Millis.greatest

/-- Two times are on one side of the start of the epoch, which itself is on both sides. -/
def SameSide (t u : EpochTime) : Prop :=
  0 ≤ t.signedNanos ∧ 0 ≤ u.signedNanos ∨ t.signedNanos ≤ 0 ∧ u.signedNanos ≤ 0

variable {t u : EpochTime}

/-- The seconds and nanoseconds of a duration have the milliseconds that are counted. -/
theorem wholeMillis_eq (t : EpochTime) :
    t.wholeMillis = (t.secs * 1000000000 + t.nanos) / 1000000 := by
  rw [wholeMillis]
  omega

theorem signedMillis_eq (t : EpochTime) :
    t.signedMillis = if t.before then -(t.wholeMillis : Int) else t.wholeMillis := by
  rw [signedMillis, signedNanos, wholeMillis_eq, Int.ofNat_tdiv]
  split
  · exact Int.neg_tdiv _ _
  · rfl

/-- The count of milliseconds of a duration with 64 bits for its seconds takes at most 128 bits. -/
theorem wholeMillis_lt (hsecs : t.secs < UInt64.size) (hnanos : t.nanos < 1000000000) :
    t.wholeMillis < UInt64.size * UInt64.size := by
  rw [wholeMillis]
  simp only [UInt64.size] at hsecs ⊢
  omega

/-! ### What is recorded -/

/-- **What is recorded of a time**: its whole milliseconds, moved into the range. -/
theorem toInt_millis_eq (t : EpochTime) :
    t.millis.toInt = max Millis.least (min Millis.greatest t.signedMillis) := by
  rw [toInt_millis, clamped, signedMillis_eq]
  unfold Millis.least Millis.greatest
  split <;> omega

theorem toInt_millis_of_inRange (h : t.InRange) : t.millis.toInt = t.signedMillis := by
  rw [toInt_millis_eq, Int.min_eq_right h.2, Int.max_eq_right h.1]

/-- Times are recorded in order. -/
theorem millis_mono (h : t.signedNanos ≤ u.signedNanos) : t.millis ≤ u.millis := by
  have hwhole : t.signedMillis ≤ u.signedMillis := Int.tdiv_le_tdiv (by decide) h
  rw [Int64.le_iff_toInt_le, toInt_millis_eq, toInt_millis_eq]
  omega

/-- Times on one side of the start of the epoch have different whole milliseconds if they are a
millisecond apart. -/
theorem signedMillis_ne (hside : SameSide t u)
    (hapart : 1000000 ≤ (t.signedNanos - u.signedNanos).natAbs) :
    t.signedMillis ≠ u.signedMillis := by
  unfold signedMillis
  rcases hside with ⟨ht, hu⟩ | ⟨ht, hu⟩
  · rw [Int.tdiv_eq_ediv_of_nonneg ht, Int.tdiv_eq_ediv_of_nonneg hu]
    omega
  · -- the fraction is dropped from the length of the duration
    have hneg : ∀ n : Int, n ≤ 0 → n.tdiv 1000000 = -(-n / 1000000) := by
      intro n hn
      rw [← Int.tdiv_eq_ediv_of_nonneg (Int.neg_nonneg.2 hn), Int.neg_tdiv, Int.neg_neg]
    rw [hneg _ ht, hneg _ hu]
    omega

/-- **Times are recorded exactly, in order and apart.**  The count of milliseconds takes at most 128
bits.  A count that is in range is recorded as it is, and can be made negative.  What is recorded is
the exact distance from the start of the epoch in milliseconds, rounded towards zero and moved into
the range.  Later times are not recorded as earlier ones, and times in range which are a millisecond
apart on one side of the start are recorded apart. -/
theorem millis_exact :
    (∀ t : EpochTime, t.secs < UInt64.size → t.nanos < 1000000000 →
      t.wholeMillis < UInt64.size * UInt64.size)
      ∧ (∀ (t : EpochTime) (ms : Millis), Millis.ofCount? t.wholeMillis = some ms →
          ms.toInt = t.wholeMillis ∧ (-ms).toInt = -(t.wholeMillis : Int))
      ∧ (∀ t : EpochTime,
          t.millis.toInt = max Millis.least (min Millis.greatest (t.signedNanos.tdiv 1000000)))
      ∧ (∀ t u : EpochTime, t.signedNanos ≤ u.signedNanos → t.millis ≤ u.millis)
      ∧ ∀ t u : EpochTime, SameSide t u → 1000000 ≤ (t.signedNanos - u.signedNanos).natAbs →
          t.InRange → u.InRange → t.millis ≠ u.millis := by
  refine ⟨fun t => wholeMillis_lt, ?_, toInt_millis_eq, fun t u => millis_mono, ?_⟩
  · intro t ms hcount
    have hms := Millis.toInt_of_ofCount? hcount
    refine ⟨hms, ?_⟩
    rw [Millis.toInt_neg (by omega), hms]
  · intro t u hside hapart ht hu heq
    apply signedMillis_ne hside hapart
    rw [← toInt_millis_of_inRange ht, ← toInt_millis_of_inRange hu, heq]

/-- The last time whose milliseconds are in range and one of the millisecond before it, the first
such time, a time beyond it, and the two times next to the start of the epoch. -/
theorem millis_exact_atTheEnds :
    let last : EpochTime := ⟨false, 9223372036854775, 807999999⟩
    let previous : EpochTime := ⟨false, 9223372036854775, 806999999⟩
    let first : EpochTime := ⟨true, 9223372036854775, 808999999⟩
    let beyond : EpochTime := ⟨true, 18446744073709551615, 999999999⟩
    last.millis ≠ previous.millis ∧ previous.millis ≤ last.millis ∧ beyond.millis ≤ first.millis ∧
      first.millis.toInt = Millis.least ∧ beyond.wholeMillis < UInt64.size * UInt64.size ∧
      (-(Int64.ofNat 9223372036854775807)).toInt = -9223372036854775807 ∧
      (EpochTime.millis ⟨true, 0, 999999⟩).toInt = 0 ∧
        (EpochTime.millis ⟨false, 0, 999999⟩).toInt = 0 := by
  obtain ⟨hcount, hnegated, hexact, hmono, hapart⟩ := millis_exact
  refine ⟨?_, ?_, ?_, ?_, ?_, ?_, ?_, ?_⟩
  · exact hapart _ _ (.inl ⟨by decide, by decide⟩) (by decide) ⟨by decide, by decide⟩
      ⟨by decide, by decide⟩
  · exact hmono _ _ (by decide)
  · exact hmono _ _ (by decide)
  · exact (hexact _).trans (by decide)
  · exact hcount _ (by decide) (by decide)
  · exact (hnegated ⟨false, 9223372036854775, 807999999⟩ _ (by decide)).2
  · exact (hexact _).trans (by decide)
  · exact (hexact _).trans (by decide)

end EpochTime

end ModuleAtlas
