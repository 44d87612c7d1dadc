import AptBlitz.Refill
import AptBlitz.Throttle

/-! # How long to wait

    `wait_time_nanos` multiplies the tokens that are missing by the price of
    one, and a refill divides the time that has gone by by that price.  The
    call itself refills, and so the time counts from there; after the wait
    that it answers the division gives back what is missing:
    `waitTime_suffices`.

    The calls here are those of a thread that no other comes between;
    `available_run` and `tryConsume_run` take them from the bucket's steps. -/

namespace BlitzWaitTime

open BlitzBucket BlitzBucketRuns BlitzRefill TokenBucket Runs
open BlitzThrottle (waitTimeNanos)

/-- `available`. -/
def available (b : TokenBucket) (now : Nat) : TokenBucket × Nat :=
  if b.isUnlimited then (b, u64Max) else (refill b now, (refill b now).tokens)

/-- `try_consume`. -/
def tryConsume (b : TokenBucket) (amount now : Nat) : TokenBucket × Bool :=
  if b.isUnlimited then (b, true)
  else
    let b := refill b now
    if b.tokens < amount then (b, false) else ({ b with tokens := b.tokens - amount }, true)

/-- `wait_time_nanos`. -/
def waitTime (b : TokenBucket) (amount now : Nat) : TokenBucket × Nat :=
  let (b, avail) := available b now
  (b, waitTimeNanos b avail amount)

variable {s t : Shared} {acts : List Act} {op : Op} {b : TokenBucket}
  {v now later amount created perSec : Nat}

/-! ## The calls, step by step -/

/-- A call up to the end of its `refill`. -/
theorem call_run (now : Nat) (hrest : (s.threads v).resting = true)
    (henter : enter s.bucket op = .clock op) (hrate : s.bucket.refillRateNanos ≠ 0) :
    ∃ n t, run step s (.call v op :: .clock v now :: List.replicate n (.go v)) = some t ∧
      t.bucket = refill s.bucket now ∧ t.threads v = afterRefill op := by
  have hcall : step s (.call v op) = some (s.goto v (.clock op)) := by
    rw [step, if_pos hrest, henter]
  have hclock : (s.goto v (.clock op)).threads v = .clock op := Function.update_self ..
  obtain ⟨n, hrun⟩ := @refill_run (s.goto v (.clock op)) op v now hclock hrate
  obtain ⟨t, ht, heq⟩ := Option.map_eq_some_iff.mp hrun
  refine ⟨n, t, ?_, congrArg Prod.fst heq, congrArg Prod.snd heq⟩
  rw [run_cons hcall]
  exact ht

theorem isUnlimited_of_rate (hrate : s.bucket.refillRateNanos ≠ 0) :
    s.bucket.isUnlimited = false := by
  rw [TokenBucket.isUnlimited, beq_false_of_ne hrate, Bool.and_false]

/-- The steps of a call, one after the other. -/
def alone (v : Nat) (op : Op) (now n : Nat) : List Act :=
  .call v op :: .clock v now :: List.replicate n (.go v)

/-- A thread goes on by itself. -/
theorem run_alone_add {u : Shared} {n k : Nat} (h : run step s (alone v op now n) = some t)
    (hrest : run step t (List.replicate k (.go v)) = some u) :
    run step s (alone v op now (n + k)) = some u := by
  have happend : alone v op now (n + k) = alone v op now n ++ List.replicate k (.go v) := by
    rw [alone, alone, List.replicate_add]
    rfl
  rw [happend]
  exact run_append h hrest

theorem goto_threads_self (s : Shared) (pc : Pc) : (s.goto v pc).threads v = pc :=
  Function.update_self ..

/-- `available`, from the bucket's steps. -/
theorem available_run (hrest : (s.threads v).resting = true)
    (hrate : s.bucket.refillRateNanos ≠ 0) :
    ∃ n t, run step s (alone v .available now n) = some t ∧
      t.bucket = (available s.bucket now).1 ∧ t.threads v = .saw (available s.bucket now).2 := by
  have hlim := isUnlimited_of_rate hrate
  have henter : enter s.bucket .available = .clock .available := by
    rw [enter, hlim, if_neg Bool.false_ne_true, if_pos (Nat.pos_of_ne_zero hrate)]
  obtain ⟨n, t, hrun, hbucket, hpc⟩ := call_run now hrest henter hrate
  have hload : step t (.go v) = some (t.goto v (.saw t.bucket.tokens)) := by
    simp only [step, goStep, hpc, afterRefill]
  rw [available, hlim, if_neg Bool.false_ne_true]
  refine ⟨n + 1, _, run_alone_add hrun (run_cons hload), hbucket, ?_⟩
  rw [goto_threads_self, hbucket]

/-- `try_consume`, from the bucket's steps. -/
theorem tryConsume_run (hrest : (s.threads v).resting = true)
    (hrate : s.bucket.refillRateNanos ≠ 0) :
    ∃ n t, run step s (alone v (.tryConsume amount) now n) = some t ∧
      t.bucket = (tryConsume s.bucket amount now).1 ∧
      t.threads v = .tried amount (tryConsume s.bucket amount now).2 := by
  have hlim := isUnlimited_of_rate hrate
  have henter : enter s.bucket (.tryConsume amount) = .clock (.tryConsume amount) := by
    rw [enter, hlim, if_neg Bool.false_ne_true, if_pos (Nat.pos_of_ne_zero hrate)]
  obtain ⟨n, t, hrun, hbucket, hpc⟩ := call_run now hrest henter hrate
  rw [tryConsume, hlim, if_neg Bool.false_ne_true, ← hbucket]
  dsimp only
  by_cases hlt : t.bucket.tokens < amount
  · have hload : step t (.go v) = some (t.goto v (.tried amount false)) := by
      simp only [step, goStep, hpc, afterRefill, if_pos hlt]
    rw [if_pos hlt]
    exact ⟨n + 1, _, run_alone_add hrun (run_cons hload), rfl, goto_threads_self ..⟩
  · have hload : step t (.go v) = some (t.goto v (.casConsume amount t.bucket.tokens)) := by
      simp only [step, goStep, hpc, afterRefill, if_neg hlt]
    have htake : step (t.goto v (.casConsume amount t.bucket.tokens)) (.go v)
        = some ({ (t.goto v (.casConsume amount t.bucket.tokens)).setTokens
            (t.bucket.tokens - amount) with consumed := t.consumed + amount }.goto v
              (.tried amount true)) := by
      simp only [step, goStep, goto_threads_self]
      exact if_pos rfl
    rw [if_neg hlt]
    exact ⟨n + 2, _, run_alone_add hrun ((run_cons hload).trans (run_cons htake)), rfl,
      goto_threads_self ..⟩

/-! ## The wait -/

/-- What there is to know of a bucket built with one number for both. -/
structure Square (perSec now : Nat) (b : TokenBucket) : Prop where
  max_eq : b.maxTokens = perSec
  rate_eq : b.refillRateNanos = nanosPerSec / perSec
  tokens_le : b.tokens ≤ b.maxTokens
  last_le : b.lastRefillNanos ≤ now

/-- In every reachable state the bucket is square with the clock. -/
theorem square_of_run (hprice : 0 < nanosPerSec / perSec)
    (hrun : run step (start perSec perSec created) acts = some s) :
    Square perSec s.clock s.bucket := by
  have hinv : BucketInv perSec (nanosPerSec / perSec) created s :=
    run_invariant (fun _ _ _ => bucketInv_step) (bucketInv_start (Or.inr hprice)) hrun
  exact ⟨hinv.max_eq, hinv.rate_eq, hinv.tokens_le.trans_eq hinv.max_eq.symm, hinv.last_le⟩

namespace Square

/-- What is missing never costs more than a second. -/
theorem cost_le (h : Square perSec now b) (hamount : amount ≤ b.maxTokens) (avail : Nat) :
    (amount - avail) * b.refillRateNanos ≤ nanosPerSec := by
  calc (amount - avail) * b.refillRateNanos
      ≤ perSec * (nanosPerSec / perSec) := by
        rw [h.rate_eq]
        exact Nat.mul_le_mul_right _ ((Nat.sub_le _ _).trans (hamount.trans_eq h.max_eq))
    _ ≤ nanosPerSec := Nat.mul_div_le _ _

variable (h : Square perSec now b) (hprice : 0 < nanosPerSec / perSec)

include h hprice

theorem rate_pos : 0 < b.refillRateNanos := h.rate_eq ▸ hprice

theorem isUnlimited_eq : b.isUnlimited = false := by
  rw [TokenBucket.isUnlimited, beq_false_of_ne (h.rate_pos hprice).ne', Bool.and_false]

/-- A refill adds what the time is worth, as far as there is room. -/
theorem tokens_refill : (refill b later).tokens
    = min (b.tokens + (later - b.lastRefillNanos) / b.refillRateNanos) b.maxTokens := by
  have hsmall : perSec ≤ nanosPerSec := (Nat.div_pos_iff.mp hprice).2
  have hnanos : nanosPerSec = 1000000000 := rfl
  have hmax := h.max_eq
  have htokens := h.tokens_le
  have hfor : b.refillFor (later - b.lastRefillNanos)
      = min ((later - b.lastRefillNanos) / b.refillRateNanos) b.maxTokens := rfl
  rw [BlitzRefill.tokens_refill htokens (by omega), hfor]
  omega

/-- A refill leaves the bucket square with the later clock. -/
theorem refill (hle : now ≤ later) :
    Square perSec later (refill b later) ∧ (BlitzRefill.refill b later).lastRefillNanos = later := by
  have hlast : (BlitzRefill.refill b later).lastRefillNanos = later := by
    rw [lastRefillNanos_refill (h.rate_pos hprice)]
    exact max_eq_right (h.last_le.trans hle)
  refine ⟨⟨?_, ?_, ?_, hlast.le⟩, hlast⟩
  · rw [maxTokens_refill]
    exact h.max_eq
  · rw [refillRateNanos_refill]
    exact h.rate_eq
  · rw [h.tokens_refill hprice, maxTokens_refill]
    exact min_le_right _ _

/-- What `try_consume` answers later. -/
theorem tryConsume_eq (later : Nat) :
    (tryConsume b amount later).2 = decide (amount ≤ (BlitzRefill.refill b later).tokens) := by
  rw [tryConsume, h.isUnlimited_eq hprice, if_neg Bool.false_ne_true]
  dsimp only
  by_cases hlt : (BlitzRefill.refill b later).tokens < amount
  · rw [if_pos hlt, decide_eq_false (not_le.mpr hlt)]
  · rw [if_neg hlt, decide_eq_true (not_lt.mp hlt)]

/-- What `wait_time` says. -/
theorem waitTime_eq (hamount : amount ≤ b.maxTokens) (later : Nat) :
    waitTime b amount later = (BlitzRefill.refill b later,
      (amount - (BlitzRefill.refill b later).tokens) * b.refillRateNanos) := by
  have hnanos : nanosPerSec < 2 ^ 64 := by decide
  have hcost := h.cost_le hamount (BlitzRefill.refill b later).tokens
  have hlim : (BlitzRefill.refill b later).isUnlimited = false := by
    rw [TokenBucket.isUnlimited, refillRateNanos_refill, beq_false_of_ne (h.rate_pos hprice).ne',
      Bool.and_false]
  rw [waitTime, available, h.isUnlimited_eq hprice, if_neg Bool.false_ne_true]
  dsimp only
  rw [waitTimeNanos, hlim, if_neg Bool.false_ne_true, refillRateNanos_refill]
  by_cases hle : amount ≤ (BlitzRefill.refill b later).tokens
  · rw [if_pos hle, Nat.sub_eq_zero_of_le hle, Nat.zero_mul]
  · rw [if_neg hle, Nat.mod_eq_of_lt (hcost.trans_lt hnanos)]

end Square

/-- **Long enough, and no longer than needed**: after the wait that
    `wait_time_nanos` answers, the amount is there; without the wait it was
    not; and the product in the answer does not overflow. -/
theorem waitTime_suffices (hprice : 0 < nanosPerSec / perSec)
    (hrun : run step (start perSec perSec created) acts = some s) (hclock : s.clock ≤ now)
    (hamount : amount ≤ s.bucket.maxTokens) :
    (∀ later, now + (waitTime s.bucket amount now).2 ≤ later →
        (tryConsume (waitTime s.bucket amount now).1 amount later).2 = true) ∧
      (0 < (waitTime s.bucket amount now).2 →
        (tryConsume s.bucket amount now).2 = false ∧
          (tryConsume (waitTime s.bucket amount now).1 amount now).2 = false) ∧
      (amount - (available s.bucket now).2) * s.bucket.refillRateNanos < 2 ^ 64 := by
  have hsquare : Square perSec s.clock s.bucket := square_of_run hprice hrun
  obtain ⟨hafter, hlast⟩ := hsquare.refill hprice hclock
  have hnanos : nanosPerSec < 2 ^ 64 := by decide
  rw [hsquare.waitTime_eq hprice hamount]
  dsimp only
  refine ⟨?_, ?_, (hsquare.cost_le hamount _).trans_lt hnanos⟩
  · intro later hlater
    rw [hafter.tryConsume_eq hprice, decide_eq_true_eq, hafter.tokens_refill hprice, hlast,
      refillRateNanos_refill, maxTokens_refill]
    -- the time since the call is worth what was missing then
    have hworth : amount - (refill s.bucket now).tokens ≤ (later - now) / s.bucket.refillRateNanos := by
      rw [Nat.le_div_iff_mul_le (hsquare.rate_pos hprice)]
      omega
    exact le_min (by omega) hamount
  · intro hwait
    have hmissing : (refill s.bucket now).tokens < amount := by
      by_contra hnot
      rw [Nat.sub_eq_zero_of_le (not_lt.mp hnot), Nat.zero_mul] at hwait
      exact absurd hwait (Nat.lt_irrefl 0)
    refine ⟨?_, ?_⟩
    · rw [hsquare.tryConsume_eq hprice, decide_eq_false (not_le.mpr hmissing)]
    · rw [hafter.tryConsume_eq hprice, hafter.tokens_refill hprice, hlast, Nat.sub_self,
        Nat.zero_div, Nat.add_zero, min_eq_left hafter.tokens_le,
        decide_eq_false (not_le.mpr hmissing)]

/-- A bucket of a hundred with one token left, and fifty wanted. -/
theorem waitTime_suffices_hundred :
    ∃ s, run step (start 100 100 0) consumedTwice = some s ∧
      (waitTime s.bucket 50 20000000).2 = 490000000 ∧
      (∀ later, 20000000 + (waitTime s.bucket 50 20000000).2 ≤ later →
        (tryConsume (waitTime s.bucket 50 20000000).1 50 later).2 = true) ∧
      (0 < (waitTime s.bucket 50 20000000).2 →
        (tryConsume s.bucket 50 20000000).2 = false ∧
          (tryConsume (waitTime s.bucket 50 20000000).1 50 20000000).2 = false) ∧
      (50 - (available s.bucket 20000000).2) * s.bucket.refillRateNanos < 2 ^ 64 := by
  have hany : (run step (start 100 100 0) consumedTwice).any (fun s =>
      s.clock == 20000000 && s.bucket == ⟨1, 100, 10000000, 20000000⟩) = true := by decide
  obtain ⟨s, hrun, hs⟩ := run_of_any hany
  rw [Bool.and_eq_true, beq_iff_eq, beq_iff_eq] at hs
  obtain ⟨hclock, hbucket⟩ := hs
  refine ⟨s, hrun, by rw [hbucket]; decide, ?_⟩
  exact waitTime_suffices (by decide) hrun hclock.le (by rw [hbucket]; decide)

end BlitzWaitTime
