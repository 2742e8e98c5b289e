/-!
# Times in milliseconds

File times are recorded as milliseconds since the start of the epoch, in 64 bits with a sign.  A
time is given as a duration after or before that start, in whole seconds and nanoseconds.  The
fraction of a millisecond is dropped, and times beyond the range are moved to its nearer end.

## Main definitions

* `Millis`, with `Millis.least` and `Millis.greatest` — recorded times and their range.
* `Millis.ofCount?` — a count of milliseconds as a recorded time.
* `EpochTime`, `EpochTime.millis` — times as durations, and what is recorded of them.
-/

namespace ModuleAtlas

/-- A time in milliseconds since the start of the epoch. -/
abbrev Millis : Type := Int64

/-- The milliseconds of the earliest recorded time. -/
def Millis.least : Int := -9223372036854775808

/-- The milliseconds of the latest recorded time. -/
def Millis.greatest : Int := 9223372036854775807

/-- A count of milliseconds as a recorded time, unless it is beyond the latest one. -/
def Millis.ofCount? (count : Nat) : Option Millis :=
  if (count : Int) ≤ greatest then some (.ofNat count) else none

/-- A time as the duration between it and the start of the epoch. -/
structure EpochTime where
  /-- Whether the time lies before the start. -/
  before : Bool
  /-- The whole seconds of the duration. -/
  secs : Nat
  /-- The nanoseconds beyond them. -/
  nanos : Nat
  deriving DecidableEq, Repr

/-- The length of the duration in milliseconds, without the fraction. -/
def EpochTime.wholeMillis (t : EpochTime) : Nat := t.secs * 1000 + t.nanos / 1000000

/-- The milliseconds of a time as an integer, moved into the range of `Millis`. -/
def EpochTime.clamped (t : EpochTime) : Int :=
  if t.before then max (-(t.wholeMillis : Int)) Millis.least
  else min (t.wholeMillis : Int) Millis.greatest

/-- What is recorded of a time.  The count of its milliseconds is made negative for a time before
the epoch; a count that is too large gives the end of the range. -/
def EpochTime.millis (t : EpochTime) : Millis :=
  if t.before then (Millis.ofCount? t.wholeMillis).elim Int64.minValue (- ·)
  else (Millis.ofCount? t.wholeMillis).getD Int64.maxValue

theorem EpochTime.clamped_mem_range (t : EpochTime) :
    Millis.least ≤ t.clamped ∧ t.clamped ≤ Millis.greatest := by
  unfold clamped Millis.least Millis.greatest
  split <;> omega

theorem Millis.ofCount?_eq_none_iff {count : Nat} : ofCount? count = none ↔ greatest < count := by
  simp [ofCount?]

/-- A count that is in range is recorded as it is. -/
theorem Millis.toInt_of_ofCount? {count : Nat} {ms : Millis} (h : ofCount? count = some ms) :
    ms.toInt = count := by
  rw [ofCount?] at h
  split at h
  · next hle =>
    obtain rfl := Option.some.inj h
    unfold greatest at hle
    exact Int64.toInt_ofNat_of_lt (by omega)
  · cases h

/-- A time that is not negative can be made negative. -/
theorem Millis.toInt_neg {ms : Millis} (h : 0 ≤ ms.toInt) : (-ms).toInt = -ms.toInt := by
  have hlt := ms.toInt_lt
  rw [Int64.toInt_neg, Int.bmod_eq_of_le (by omega) (by omega)]

theorem EpochTime.toInt_millis (t : EpochTime) : t.millis.toInt = t.clamped := by
  rw [millis, clamped]
  cases hcount : Millis.ofCount? t.wholeMillis with
  | none =>
    have hlarge := Millis.ofCount?_eq_none_iff.1 hcount
    unfold Millis.greatest at hlarge
    cases t.before with
    | true =>
      show Int64.minValue.toInt = max _ _
      rw [Int64.toInt_minValue]
      unfold Millis.least
      omega
    | false =>
      show Int64.maxValue.toInt = min _ _
      rw [Int64.toInt_maxValue]
      unfold Millis.greatest
      omega
  | some ms =>
    have hms := Millis.toInt_of_ofCount? hcount
    have hlt := ms.toInt_lt
    cases t.before with
    | true =>
      show (-ms).toInt = max _ _
      rw [Millis.toInt_neg (by omega), hms]
      unfold Millis.least
      omega
    | false =>
      show ms.toInt = min _ _
      rw [hms]
      unfold Millis.greatest
      omega

end ModuleAtlas
