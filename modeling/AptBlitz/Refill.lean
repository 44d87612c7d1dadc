import AptBlitz.BucketRuns

/-! # How fast a bucket refills

    A refill adds a whole number of tokens for the time since the last one,
    at a price per token that is itself a whole number of nanoseconds.  Both
    divisions round down, and what they drop is lost: the price makes the
    bucket faster than its rate, the refills make it slower.

    `refill` is the call of one thread with no other between its steps;
    `refill_run` takes it from the bucket's steps. -/

namespace BlitzRefill

open BlitzBucket TokenBucket Runs

variable {b : TokenBucket} {s : Shared} {op : Op} {w now last elapsed created q : Nat}
  {perSec maxTokens : Nat} {times : List Nat}

/-- `refill`, and the test before each of its calls. -/
def refill (b : TokenBucket) (now : Nat) : TokenBucket :=
  if b.refillRateNanos = 0 then b
  else
    let elapsed := now - b.lastRefillNanos
    if elapsed = 0 then b
    else
      let refill := b.refillFor elapsed
      if refill = 0 then { b with lastRefillNanos := now }
      else { b with lastRefillNanos := now, tokens := b.addRefill b.tokens refill }

/-- Refills at the times of a list, one after the other. -/
def refills (b : TokenBucket) (times : List Nat) : TokenBucket :=
  times.foldl refill b

/-- No two of them are more than one apart. -/
def UpToOne (m n : Nat) : Prop := m ≤ n + 1 ∧ n ≤ m + 1

/-! ## One thread's call -/

/-- A call in which the thread is not interrupted: `refill` happens between
    the clock reading and what the call does next. -/
theorem refill_run (hw : s.threads w = .clock op) (hrate : s.bucket.refillRateNanos ≠ 0) :
    ∃ n, (run step s (.clock w now :: List.replicate n (.go w))).map
        (fun t => (t.bucket, t.threads w)) = some (refill s.bucket now, afterRefill op) := by
  by_cases helapsed : now - s.bucket.lastRefillNanos = 0
  · -- the clock has not moved on
    refine ⟨1, ?_⟩
    simp [run, step, goStep, hw, Shared.goto, refill, hrate, helapsed]
  by_cases hrefill : s.bucket.refillFor (now - s.bucket.lastRefillNanos) = 0
  · -- too little time for a token, and the timestamp moves all the same
    refine ⟨2, ?_⟩
    simp [run, step, goStep, hw, Shared.goto, Shared.setLast, refill, hrate, helapsed, hrefill,
      List.replicate]
  · refine ⟨4, ?_⟩
    simp [run, step, goStep, hw, Shared.goto, Shared.setLast, Shared.setTokens, refill, hrate,
      helapsed, hrefill, List.replicate, addRefill]

/-- A refill leaves the capacity alone. -/
@[simp] theorem maxTokens_refill (b : TokenBucket) (now : Nat) :
    (refill b now).maxTokens = b.maxTokens := by
  simp only [refill]
  split_ifs <;> rfl

@[simp] theorem refillRateNanos_refill (b : TokenBucket) (now : Nat) :
    (refill b now).refillRateNanos = b.refillRateNanos := by
  simp only [refill]
  split_ifs <;> rfl

/-- The timestamp never goes back. -/
theorem lastRefillNanos_refill (hprice : 0 < b.refillRateNanos) :
    (refill b now).lastRefillNanos = max b.lastRefillNanos now := by
  simp only [refill, if_neg hprice.ne']
  split_ifs
  · omega
  · dsimp only
    omega
  · dsimp only
    omega

/-- What a refill adds where the sum does not wrap; a bucket without a rate
    has a price of zero and gets nothing. -/
theorem tokens_refill (htokens : b.tokens ≤ b.maxTokens)
    (hfits : b.tokens + b.refillFor (now - b.lastRefillNanos) < 2 ^ 64) :
    (refill b now).tokens
      = min (b.tokens + b.refillFor (now - b.lastRefillNanos)) b.maxTokens := by
  have hnone : b.refillFor (now - b.lastRefillNanos) = 0 →
      b.tokens = min (b.tokens + b.refillFor (now - b.lastRefillNanos)) b.maxTokens := by
    intro hzero
    rw [hzero, Nat.add_zero, min_eq_left htokens]
  rw [refill]
  split
  next hrate => exact hnone (by simp [refillFor, hrate])
  next =>
    dsimp only
    split
    next helapsed => exact hnone (by simp [refillFor, helapsed])
    next =>
      split
      next hzero => exact hnone hzero
      next => rw [addRefill, Nat.mod_eq_of_lt hfits]

/-! ## The rate -/

/-- A bucket of `new` with no token left. -/
def emptied (maxTokens perSec last : Nat) : TokenBucket :=
  { TokenBucket.new maxTokens perSec last with tokens := 0 }

/-- However long the time between two refills, an empty bucket gets what the
    rate is worth in that time. -/
def RefillsAtRate (maxTokens perSec : Nat) : Prop :=
  ∀ last elapsed, last + elapsed ≤ u64Max →
    UpToOne (refill (emptied maxTokens perSec last) (last + elapsed)).tokens
      (min maxTokens (elapsed * perSec / nanosPerSec))

/-- What an empty bucket gets after some time. -/
theorem tokens_refill_emptied (hmax : maxTokens ≤ u64Max) :
    (refill (emptied maxTokens perSec last) (last + elapsed)).tokens
      = min (elapsed / (nanosPerSec / perSec)) maxTokens := by
  have hfor : (emptied maxTokens perSec last).refillFor (last + elapsed - last)
      = min (elapsed / (nanosPerSec / perSec)) maxTokens := by
    rw [Nat.add_sub_cancel_left]
    rfl
  have hfits : 0 + min (elapsed / (nanosPerSec / perSec)) maxTokens < 2 ^ 64 := by
    rw [u64Max] at hmax
    omega
  rw [tokens_refill (Nat.zero_le _) (hfor.symm ▸ hfits)]
  show min (0 + (emptied maxTokens perSec last).refillFor (last + elapsed - last)) maxTokens = _
  rw [hfor, Nat.zero_add, min_assoc, min_self]

/-- The price of a token is rounded down, so a bucket is never slow. -/
theorem ideal_le_credited (hprice : 0 < nanosPerSec / perSec) :
    elapsed * perSec / nanosPerSec ≤ elapsed / (nanosPerSec / perSec) := by
  have hrate : 0 < perSec := by
    by_contra hzero
    rw [Nat.eq_zero_of_not_pos hzero, Nat.div_zero] at hprice
    exact absurd hprice (Nat.lt_irrefl 0)
  calc elapsed * perSec / nanosPerSec
      ≤ elapsed * perSec / (nanosPerSec / perSec * perSec) :=
        Nat.div_le_div_left (Nat.div_mul_le_self ..) (Nat.mul_pos hprice hrate)
    _ = elapsed / (nanosPerSec / perSec) := Nat.mul_div_mul_right _ _ hrate

/-- So many tokens cost their real price, less what the rounding drops. -/
theorem real_price (n perSec : Nat) :
    n * nanosPerSec = n * (nanosPerSec / perSec) * perSec + n * (nanosPerSec % perSec) := by
  rw [Nat.mul_assoc, ← Nat.mul_add, Nat.div_add_mod']

/-- What the rounded price gives out beyond the rate. -/
theorem credited_le_ideal (hprice : 0 < nanosPerSec / perSec) {n : Nat}
    (hn : n ≤ elapsed / (nanosPerSec / perSec))
    (hdrop : n * (nanosPerSec % perSec) ≤ nanosPerSec) :
    n ≤ elapsed * perSec / nanosPerSec + 1 := by
  have hpaid : n * (nanosPerSec / perSec) * perSec ≤ elapsed * perSec :=
    Nat.mul_le_mul_right _ ((Nat.le_div_iff_mul_le hprice).mp hn)
  have hworth : n * nanosPerSec ≤ elapsed * perSec + nanosPerSec := by
    rw [real_price _ perSec]
    exact Nat.add_le_add hpaid hdrop
  calc n = n * nanosPerSec / nanosPerSec := (Nat.mul_div_cancel _ (by decide)).symm
    _ ≤ (elapsed * perSec + nanosPerSec) / nanosPerSec := Nat.div_le_div_right hworth
    _ = elapsed * perSec / nanosPerSec + 1 := Nat.add_div_right _ (by decide)

/-- A time in which a bucket gets two tokens too many. -/
theorem exists_too_fast (hprice : 0 < nanosPerSec / perSec)
    (hdrop : nanosPerSec < maxTokens * (nanosPerSec % perSec)) :
    ∃ elapsed, elapsed ≤ u64Max ∧
      min maxTokens (elapsed * perSec / nanosPerSec) + 1
        < min (elapsed / (nanosPerSec / perSec)) maxTokens := by
  have hpos : 0 < nanosPerSec % perSec := by
    by_contra hzero
    rw [Nat.eq_zero_of_not_pos hzero, Nat.mul_zero] at hdrop
    exact absurd hdrop (Nat.not_lt_zero _)
  -- the fewest tokens on which the rounding drops more than one
  let n := nanosPerSec / (nanosPerSec % perSec) + 1
  have hn : nanosPerSec < n * (nanosPerSec % perSec) := by
    rw [Nat.mul_comm]
    exact Nat.lt_mul_div_succ _ hpos
  have hle : n ≤ maxTokens := (Nat.div_lt_iff_lt_mul hpos).mpr hdrop
  have hideal : n * (nanosPerSec / perSec) * perSec / nanosPerSec + 1 < n := by
    have hreal := real_price n perSec
    have hlt : n * (nanosPerSec / perSec) * perSec + nanosPerSec < n * nanosPerSec := by omega
    have hdiv := (Nat.div_lt_iff_lt_mul (by decide : 0 < nanosPerSec)).mpr hlt
    rwa [Nat.add_div_right _ (by decide)] at hdiv
  refine ⟨n * (nanosPerSec / perSec), ?_, ?_⟩
  · calc n * (nanosPerSec / perSec) ≤ (nanosPerSec + 1) * nanosPerSec :=
          Nat.mul_le_mul (Nat.add_le_add_right (Nat.div_le_self ..) 1) (Nat.div_le_self ..)
      _ ≤ u64Max := by decide
  · rw [Nat.mul_div_cancel _ hprice, min_eq_left hle]
    omega

/-- A rate above one token a nanosecond has no price. -/
theorem le_of_no_price (hrate : 1 ≤ perSec) (hprice : nanosPerSec / perSec = 0) :
    maxTokens * (nanosPerSec % perSec) ≤ nanosPerSec ↔ maxTokens ≤ 1 := by
  have hlt : nanosPerSec < perSec := by
    rcases Nat.div_eq_zero_iff.mp hprice with hzero | hlt
    · omega
    · exact hlt
  rw [Nat.mod_eq_of_lt hlt, nanosPerSec]
  omega

/-- **The rate**: a bucket refills at the rate it was built with if, over a
    whole capacity, the rounding of the price drops at most one token. -/
theorem refillsAtRate_iff (hrate : 1 ≤ perSec) (hmax : maxTokens ≤ u64Max) :
    RefillsAtRate maxTokens perSec ↔ maxTokens * (nanosPerSec % perSec) ≤ nanosPerSec := by
  constructor
  · intro h
    by_contra hnot
    have hdrop : nanosPerSec < maxTokens * (nanosPerSec % perSec) := not_le.mp hnot
    rcases Nat.eq_zero_or_pos (nanosPerSec / perSec) with hprice | hprice
    · -- no token has a price of zero: the bucket is never refilled
      have hmore : ¬ maxTokens ≤ 1 := fun hone => hnot ((le_of_no_price hrate hprice).mpr hone)
      have hnear := h 0 (2 * nanosPerSec) (by decide)
      rw [tokens_refill_emptied hmax, hprice, Nat.div_zero, Nat.mul_right_comm,
        Nat.mul_div_cancel _ (by decide)] at hnear
      have hideal := hnear.2
      omega
    · obtain ⟨elapsed, hle, hlt⟩ := exists_too_fast hprice hdrop
      have hnear := h 0 elapsed (by omega)
      rw [tokens_refill_emptied hmax] at hnear
      exact absurd hnear.1 (not_le.mpr hlt)
  · intro hdrop last elapsed _
    rw [tokens_refill_emptied hmax]
    rcases Nat.eq_zero_or_pos (nanosPerSec / perSec) with hprice | hprice
    · have hone : maxTokens ≤ 1 := (le_of_no_price hrate hprice).mp hdrop
      constructor
      · exact (min_le_right ..).trans (hone.trans (Nat.le_add_left ..))
      · exact (min_le_left ..).trans (hone.trans (Nat.le_add_left ..))
    · have hcredited : min (elapsed / (nanosPerSec / perSec)) maxTokens
          ≤ elapsed * perSec / nanosPerSec + 1 :=
        credited_le_ideal hprice (min_le_left ..)
          ((Nat.mul_le_mul_right _ (min_le_right ..)).trans hdrop)
      have hideal : elapsed * perSec / nanosPerSec ≤ elapsed / (nanosPerSec / perSec) :=
        ideal_le_credited hprice
      constructor <;> omega

theorem refillsAtRate_tenKib : 1 ≤ 10240 ∧ 10240 ≤ u64Max ∧ RefillsAtRate 10240 10240 :=
  ⟨by decide, by decide, (refillsAtRate_iff (by decide) (by decide)).mpr (by decide)⟩

/-- At 600 million tokens a second the price is one nanosecond: three of them
    bring three tokens, where the rate gives one. -/
theorem not_refillsAtRate : ¬ RefillsAtRate 600000000 600000000 := by
  intro h
  have hthree := (h 0 3 (by decide)).1
  exact absurd hthree (by decide)

/-! ## The polling -/

/-- The tokens for a sequence of refills, each rounded down. -/
def gained (q : Nat) : Nat → List Nat → Nat
  | _, [] => 0
  | last, t :: ts => (t - last) / q + gained q (max last t) ts

/-- The nanoseconds that the refills round off. -/
def roundedOff (q : Nat) : Nat → List Nat → Nat
  | _, [] => 0
  | last, t :: ts => (t - last) % q + roundedOff q (max last t) ts

/-- There is room for what the time until `now` is worth. -/
def Room (b : TokenBucket) (now : Nat) : Prop :=
  b.tokens + (now - b.lastRefillNanos) / b.refillRateNanos ≤ b.maxTokens

/-- There is room at any time before. -/
theorem Room.mono (h : Room b now) (hle : last ≤ now) : Room b last :=
  (Nat.add_le_add_left (Nat.div_le_div_right (Nat.sub_le_sub_right hle _)) _).trans h

/-- A refill with room for all of it. -/
theorem Room.tokens_refill (h : Room b now) (hmax : b.maxTokens ≤ u64Max) :
    (refill b now).tokens = b.tokens + (now - b.lastRefillNanos) / b.refillRateNanos := by
  have hfor : b.refillFor (now - b.lastRefillNanos)
      = (now - b.lastRefillNanos) / b.refillRateNanos :=
    min_eq_left ((Nat.le_add_left ..).trans h)
  have hfits : b.tokens + b.refillFor (now - b.lastRefillNanos) < 2 ^ 64 := by
    rw [hfor]
    have hlt : u64Max < 2 ^ 64 := by decide
    exact (h.trans hmax).trans_lt hlt
  rw [BlitzRefill.tokens_refill ((Nat.le_add_right ..).trans h) hfits, hfor, min_eq_left h]

/-- Room until the end is left by a refill on the way. -/
theorem Room.refill (h : Room b now) (hprice : 0 < b.refillRateNanos)
    (hmax : b.maxTokens ≤ u64Max) (hle : last ≤ now) : Room (refill b last) now := by
  rw [Room, (h.mono hle).tokens_refill hmax, maxTokens_refill, refillRateNanos_refill,
    lastRefillNanos_refill hprice, Nat.add_assoc]
  refine (Nat.add_le_add_left (Nat.div_add_div_le_add_div.trans ?_) _).trans h
  exact Nat.div_le_div_right (by omega)

/-- Refills with room for all of them. -/
theorem tokens_refills (hprice : 0 < b.refillRateNanos) (hmax : b.maxTokens ≤ u64Max)
    (hle : ∀ t ∈ times, t ≤ now) (hroom : Room b now) :
    (refills b times).tokens = b.tokens + gained b.refillRateNanos b.lastRefillNanos times := by
  induction times generalizing b with
  | nil => rfl
  | cons t times ih =>
      obtain ⟨ht, htimes⟩ := List.forall_mem_cons.mp hle
      have hrest := ih (b := refill b t) (by rwa [refillRateNanos_refill])
        (by rwa [maxTokens_refill]) htimes (hroom.refill hprice hmax ht)
      rw [refillRateNanos_refill, lastRefillNanos_refill hprice,
        (hroom.mono ht).tokens_refill hmax, Nat.add_assoc] at hrest
      exact hrest

/-- The time that has gone by is what the refills count and what they round
    off. -/
theorem gained_add_roundedOff (q last : Nat) (hle : ∀ t ∈ times, t ≤ now) :
    gained q last (times ++ [now]) * q + roundedOff q last (times ++ [now]) = now - last := by
  induction times generalizing last with
  | nil =>
      show ((now - last) / q + 0) * q + ((now - last) % q + 0) = now - last
      rw [Nat.add_zero, Nat.add_zero, Nat.div_add_mod']
  | cons t times ih =>
      obtain ⟨ht, htimes⟩ := List.forall_mem_cons.mp hle
      have hrest := ih (max last t) htimes
      have hsplit := Nat.div_add_mod' (t - last) q
      show ((t - last) / q + gained q (max last t) (times ++ [now])) * q
        + ((t - last) % q + roundedOff q (max last t) (times ++ [now])) = now - last
      rw [Nat.add_mul]
      omega

/-- **Polling**: a sequence of refills credits what its last one alone would
    have credited, up to a token, if the refills round off less than the
    price of two. -/
theorem refills_upToOne_iff (hprice : 0 < b.refillRateNanos) (hmax : b.maxTokens ≤ u64Max)
    (hsorted : (times ++ [now]).Pairwise (· ≤ ·))
    (hroom : b.tokens + (now - b.lastRefillNanos) / b.refillRateNanos ≤ b.maxTokens) :
    UpToOne (refills b (times ++ [now])).tokens (refill b now).tokens ↔
      roundedOff b.refillRateNanos b.lastRefillNanos (times ++ [now])
        < 2 * b.refillRateNanos := by
  have hle : ∀ t ∈ times, t ≤ now := fun t ht =>
    (List.pairwise_append.mp hsorted).2.2 t ht now (List.mem_singleton_self now)
  have hall : ∀ t ∈ times ++ [now], t ≤ now := by
    intro t ht
    rcases List.mem_append.mp ht with hmem | hmem
    · exact hle t hmem
    · exact (List.mem_singleton.mp hmem).le
  rw [tokens_refills hprice hmax hall hroom, Room.tokens_refill hroom hmax]
  have htime := gained_add_roundedOff b.refillRateNanos b.lastRefillNanos hle
  rw [← htime, Nat.add_comm (_ * _), Nat.add_mul_div_right _ _ hprice,
    ← Nat.div_lt_iff_lt_mul hprice, UpToOne]
  generalize roundedOff b.refillRateNanos b.lastRefillNanos (times ++ [now]) / b.refillRateNanos
    = dropped
  omega

section Examples

/-- A bucket of ten tokens, one in two milliseconds, with none left. -/
def slowBucket : TokenBucket := emptied 10 500 0

theorem refills_upToOne_three :
    UpToOne (refills slowBucket ([1000000, 4000000] ++ [6500000])).tokens
        (refill slowBucket 6500000).tokens ↔
      roundedOff 2000000 0 ([1000000, 4000000] ++ [6500000]) < 2 * 2000000 :=
  refills_upToOne_iff (b := slowBucket) (by decide) (by decide) (by decide) (by decide)

/-- Polled every millisecond, it never gets a token; left alone for as long
    it gets two. -/
theorem not_refills_upToOne :
    ¬ UpToOne (refills slowBucket ([1000000, 2000000, 3000000] ++ [4000000])).tokens
      (refill slowBucket 4000000).tokens := by
  intro h
  exact absurd h.2 (by decide)

end Examples

end BlitzRefill
