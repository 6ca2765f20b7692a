import LoadFeedback.Proofs.Exact.Rounding
import LoadFeedback.Proofs.Sender.Pacer

/-! The rate of a paced window against that of its bucket. A bucket whose interval is about a granule or
more is followed up to half a millisecond. A shorter interval is lifted to a granule, which the pacer
excludes only where the links measure over two granules or more. -/
namespace LoadFeedback

namespace Span

section

variable {α : Type} [Scalar α] {s : Nat}

theorem granule_dvd_roundTo_down (s : Span) : timerGranule ∣ roundTo α timerGranule .down s := by
  have hMultiple := granule_dvd_roundTo α timerGranule .down s
  rwa [granuleMillis_timerGranule] at hMultiple

theorem granule_le_roundTo_down (reads : ReadsMillis α s) (long : timerGranule ≤ s) :
    timerGranule ≤ roundTo α timerGranule .down s := by
  have hLong : 10000000 ≤ s := long
  have hReads : s ≤ nearestMillis α s * 1000000 + 500000 := reads.2
  have hLess : nearestMillis α s * 1000000 < roundTo α timerGranule .down s + 10000000 :=
    lt_roundTo_down_add α timerGranule s
  exact Nat.le_of_dvd (by omega) (granule_dvd_roundTo_down s)

end

end Span

namespace Pacer

variable {α : Type} [Scalar α] {p : Pacer} {window : α} {roundTrip interval bucket : Span}

/-- The bucket of a window that is paced is the least power of two that is not below it. -/
theorem nextPowerOfTwo_eq :
    ∀ packets ≤ maxWindow, 2 ≤ packets → packets.nextPowerOfTwo = 2 ^ Nat.clog 2 packets := by
  decide +kernel

theorem bucketInterval?_eq_some :
    bucketInterval? window roundTrip = some bucket ↔
      (1 < Scalar.floor window ∧ Scalar.floor window ≤ maxWindow) ∧
        bucket = roundTrip / 2 ^ Nat.clog 2 (Scalar.floor window) := by
  unfold bucketInterval?
  dsimp only
  split
  · next hNone =>
      refine ⟨nofun, fun ⟨hRange, _⟩ => ?_⟩
      omega
  · next hSome =>
      have hRange : 1 < Scalar.floor window ∧ Scalar.floor window ≤ maxWindow := by omega
      rw [nextPowerOfTwo_eq _ hRange.2 hRange.1, Option.some_inj, eq_comm, and_iff_right hRange]

theorem granule_dvd_interval (h : p.interval? window roundTrip = some interval) :
    timerGranule ∣ interval := by
  obtain ⟨_, bucket, _, _, rfl⟩ := interval?_eq_some.mp h
  rcases Nat.le_total (Span.roundTo α timerGranule .down bucket) timerGranule with hShort | hLong
  · rw [Nat.max_eq_right hShort]
  · rw [Nat.max_eq_left hLong]
    exact Span.granule_dvd_roundTo_down bucket

/-- A paced bucket is followed up to half a millisecond, or its interval is lifted to a granule. -/
theorem interval_eq_granule_or_le (h : p.interval? window roundTrip = some interval)
    (paced : bucketInterval? window roundTrip = some bucket) (reads : Span.ReadsMillis α bucket) :
    interval = timerGranule ∨ interval ≤ bucket + 500000 := by
  obtain ⟨_, found, hFound, _, rfl⟩ := interval?_eq_some.mp h
  obtain rfl : found = bucket := Option.some_inj.mp (hFound.symm.trans paced)
  rcases Nat.le_total (Span.roundTo α timerGranule .down found) timerGranule with hShort | hLong
  · exact Or.inl (Nat.max_eq_right hShort)
  · right
    rw [Nat.max_eq_left hLong]
    exact (Span.roundTo_down_le α timerGranule found).trans reads.1

/-- As many intervals as a window has packets take one round trip at most. -/
theorem floor_mul_bucket_le (h : bucketInterval? window roundTrip = some bucket) :
    Scalar.floor window * bucket ≤ roundTrip := by
  obtain ⟨_, rfl⟩ := bucketInterval?_eq_some.mp h
  calc Scalar.floor window * (roundTrip / 2 ^ Nat.clog 2 (Scalar.floor window))
      ≤ 2 ^ Nat.clog 2 (Scalar.floor window) *
          (roundTrip / 2 ^ Nat.clog 2 (Scalar.floor window)) :=
        Nat.mul_le_mul_right _ (Nat.le_pow_clog (by decide) _)
    _ ≤ roundTrip := Nat.mul_div_le roundTrip _

/-- As long as spans are read to their nearest millisecond: the interval of a paced window is a positive
multiple of the granule, and that of its bucket is above the shortest one. The window is not slower than its
bucket, up to half a millisecond for each packet, if and only if the interval of the bucket is not more than
that below a granule; otherwise it is sent at one packet a granule. Links that measure over two granules or
more exclude this, and a window whose interval is below a granule is then sent as a burst. -/
theorem paced_at_bucket_rate {longest linkInterval : Span}
    (reads : ∀ s ≤ longest, Span.ReadsMillis α s) (hLink : linkInterval ≤ longest)
    (hTrip : roundTrip ≤ longest) (enabled : Bool) (window : α) :
    let p := start α enabled linkInterval
    let packets := Scalar.floor window
    (∀ interval, p.interval? window roundTrip = some interval →
      timerGranule ∣ interval ∧ 0 < interval ∧
      ∃ n bucket, IsLeast {k | packets ≤ 2 ^ k} n ∧ bucket = roundTrip / 2 ^ n ∧
        bucketInterval? window roundTrip = some bucket ∧ p.shortest < bucket ∧
        (interval ≤ bucket + 500000 ↔ timerGranule ≤ bucket + 500000) ∧
        (interval ≤ bucket + 500000 ∧ packets * interval ≤ roundTrip + packets * 500000 ∨
          interval = timerGranule)) ∧
    (p.interval? window roundTrip = none ↔ enabled = false ∨
      ∀ bucket, bucketInterval? window roundTrip = some bucket → bucket ≤ p.shortest) ∧
    (2 * timerGranule ≤ linkInterval → timerGranule ≤ p.shortest ∧
      ∀ interval, p.interval? window roundTrip = some interval →
        ∃ bucket, bucketInterval? window roundTrip = some bucket ∧ timerGranule < bucket ∧
          interval ≤ bucket + 500000) := by
  intro p packets
  have hFollows {interval bucket : Span} (h : p.interval? window roundTrip = some interval)
      (paced : bucketInterval? window roundTrip = some bucket) :
      interval = timerGranule ∨ interval ≤ bucket + 500000 := by
    obtain ⟨_, hBucket⟩ := bucketInterval?_eq_some.mp paced
    have hShort : bucket ≤ longest := hBucket.trans_le ((Nat.div_le_self _ _).trans hTrip)
    exact interval_eq_granule_or_le h paced (reads bucket hShort)
  refine ⟨fun interval h => ?_, interval?_eq_none, fun hTwice => ?_⟩
  · obtain ⟨_, bucket, hBucket, hAbove, _⟩ := interval?_eq_some.mp h
    have hGranule := granule_le_interval h
    have hTurns := floor_mul_bucket_le hBucket
    obtain ⟨_, hPart⟩ := bucketInterval?_eq_some.mp hBucket
    have hLeast : IsLeast {k | packets ≤ 2 ^ k} (Nat.clog 2 packets) :=
      ⟨Nat.le_pow_clog (by decide) packets, fun k hk => Nat.clog_le_of_le_pow hk⟩
    refine ⟨granule_dvd_interval h, interval?_pos h, _, bucket, hLeast, hPart, hBucket, hAbove,
      ⟨hGranule.trans, fun hNear => ?_⟩, ?_⟩
    · rcases hFollows h hBucket with hLifted | hKept
      · rw [hLifted]
        exact hNear
      · exact hKept
    · rcases hFollows h hBucket with hLifted | hKept
      · exact Or.inr hLifted
      · refine Or.inl ⟨hKept, ?_⟩
        calc packets * interval ≤ packets * (bucket + 500000) := Nat.mul_le_mul_left _ hKept
          _ = packets * bucket + packets * 500000 := Nat.mul_add _ _ _
          _ ≤ roundTrip + packets * 500000 := Nat.add_le_add_right hTurns _
  · have hHalf : linkInterval / 2 ≤ longest := (Nat.div_le_self _ _).trans hLink
    have hLong : timerGranule ≤ linkInterval / 2 :=
      (Nat.le_div_iff_mul_le (by decide)).mpr (Nat.mul_comm _ _ ▸ hTwice)
    have hShortest : timerGranule ≤ p.shortest :=
      Span.granule_le_roundTo_down (reads _ hHalf) hLong
    refine ⟨hShortest, fun interval h => ?_⟩
    obtain ⟨_, bucket, hBucket, hAbove, _⟩ := interval?_eq_some.mp h
    have hLong : timerGranule < bucket := hShortest.trans_lt hAbove
    refine ⟨bucket, hBucket, hLong, ?_⟩
    rcases hFollows h hBucket with hLifted | hKept
    · rw [hLifted]
      exact hLong.le.trans (Nat.le_add_right _ _)
    · exact hKept

/-- Over a round trip of one second a window of three packets is paced at a quarter of it. A round trip of
a year is paced as exactly where nothing is rounded. -/
theorem second_paced_in_quarters :
    (∀ s ≤ Span.secs 1, Span.ReadsMillis Float s) ∧ (∀ s ≤ Span.secs 31536000, Span.ReadsMillis ℝ s) ∧
      2 * timerGranule ≤ Span.millis 200 ∧
      (start Float true (Span.millis 200)).interval? (3.0 : Float) (Span.secs 1) =
        some (Span.millis 250) ∧
      bucketInterval? (3.0 : Float) (Span.secs 1) = some (Span.millis 250) ∧
      3 * Span.millis 250 ≤ Span.secs 1 + 3 * 500000 ∧
      ∀ interval, (start ℝ true (Span.millis 200)).interval? (3 : ℝ) (Span.secs 31536000) = some interval →
        ∃ bucket, bucketInterval? (3 : ℝ) (Span.secs 31536000) = some bucket ∧ timerGranule < bucket ∧
          interval ≤ bucket + 500000 := by
  have hReads : ∀ s ≤ Span.secs 1, Span.ReadsMillis Float s :=
    fun s hs => Binary64.readsMillis (hs.trans_lt (by decide))
  have hExact : ∀ s ≤ Span.secs 31536000, Span.ReadsMillis ℝ s := fun s _ => Span.readsMillis_exact s
  have hInterval : (start Float true (Span.millis 200)).interval? (3.0 : Float) (Span.secs 1) =
      some (Span.millis 250) := by
    decide +kernel
  have hPackets : Scalar.floor (3.0 : Float) = 3 := by decide +kernel
  have hLink : Span.millis 200 ≤ Span.secs 1 := by decide
  have hLinkYear : Span.millis 200 ≤ Span.secs 31536000 := by decide
  obtain ⟨hPaced, _, _⟩ := paced_at_bucket_rate hReads hLink (le_refl (Span.secs 1)) true 3.0
  obtain ⟨_, _, n, bucket, _, _, hBucket, _, _, hRate⟩ := hPaced _ hInterval
  obtain ⟨_, _, hYear⟩ :=
    paced_at_bucket_rate hExact hLinkYear (le_refl (Span.secs 31536000)) true 3
  refine ⟨hReads, hExact, by decide, hInterval, by decide +kernel, ?_, (hYear (by decide)).2⟩
  rcases hRate with ⟨_, hTurn⟩ | hLifted
  · rw [hPackets] at hTurn
    exact hTurn
  · cases hLifted

/-- Where links measure over ten milliseconds no interval is too short to be paced: sixty-four packets over
a round trip of a hundred milliseconds leave one granule apart, although the interval of their bucket is
below half of what the links measure over, and take more than six round trips. -/
theorem short_bucket_slowed_to_granule :
    let p := start Float true (Span.millis 10)
    0 < Span.millis 10 ∧ p.shortest = 0 ∧ Scalar.floor (64.0 : Float) = 64 ∧
      bucketInterval? (64.0 : Float) (Span.millis 100) = some 1562500 ∧ 1562500 < Span.millis 10 / 2 ∧
      p.interval? (64.0 : Float) (Span.millis 100) = some timerGranule ∧
      1562500 + 500000 < timerGranule ∧ 6 * Span.millis 100 < 64 * timerGranule := by
  decide +kernel

end Pacer
end LoadFeedback
