import AptBlitz.Bucket
import AptBlitz.Library.Ledger
import AptBlitz.Library.Runs
import Mathlib.Data.Nat.ModEq

/-! # What a token bucket gives out

    Every refill takes the time since the last one for itself by a
    `compare_exchange` on the timestamp, so the times that are credited do
    not overlap, whatever the clock shows and whichever threads win.  Between
    that step and the one that adds the tokens a thread holds a credit; the
    tokens, the amounts consumed and the credits together never exceed what
    the time up to the last refill is worth. -/

namespace BlitzBucketRuns

open BlitzBucket TokenBucket Runs Ledger

variable {s s' : Shared} {a : Act} {acts : List Act} {w : Nat} {pc pc' : Pc} {op : Op}
  {b r created : Nat} {bucket : TokenBucket}

/-! ## Steps -/

/-- The steps in a call that leave the bucket alone. -/
inductive Moves (b : TokenBucket) : Pc → Pc → Prop
  | noTime {o now} : Moves b (.loadLast o now) (afterRefill o)
  | readLast {o now} (hlt : b.lastRefillNanos < now) :
      Moves b (.loadLast o now) (.casLast o now b.lastRefillNanos)
  | lostLast {o now last} : Moves b (.casLast o now last) (afterRefill o)
  | readRefill {o refill} : Moves b (.loadRefill o refill) (.casRefill o refill b.tokens)
  | lostRefill {o refill prev} : Moves b (.casRefill o refill prev) (.loadRefill o refill)
  | refuse {amount} (hlt : b.tokens < amount) :
      Moves b (.loadConsume amount) (.tried amount false)
  | readConsume {amount} (hle : amount ≤ b.tokens) :
      Moves b (.loadConsume amount) (.casConsume amount b.tokens)
  | lostConsume {amount prev} : Moves b (.casConsume amount prev) (.loadConsume amount)
  | read : Moves b .loadAvailable (.saw b.tokens)

/-- Where a thread goes that has won the timestamp. -/
def credited (op : Op) (refill : Nat) : Pc :=
  if refill = 0 then afterRefill op else .loadRefill op refill

/-- What a step can be. -/
inductive Stepped (s : Shared) : Act → Shared → Prop
  | called {v o} (hrest : (s.threads v).resting = true) :
      Stepped s (.call v o) (s.goto v (enter s.bucket o))
  | moved {v p} (hm : Moves s.bucket (s.threads v) p) : Stepped s (.go v) (s.goto v p)
  | clocked {v now o} (hw : s.threads v = .clock o) :
      Stepped s (.clock v now) ({ s with clock := max s.clock now }.goto v (.loadLast o now))
  | won {v o now} (hw : s.threads v = .casLast o now s.bucket.lastRefillNanos) :
      Stepped s (.go v) ((s.setLast now).goto v
        (credited o (s.bucket.refillFor (now - s.bucket.lastRefillNanos))))
  | refilled {v o refill} (hw : s.threads v = .casRefill o refill s.bucket.tokens) :
      Stepped s (.go v) ((s.setTokens (s.bucket.addRefill s.bucket.tokens refill)).goto v
        (afterRefill o))
  | took {v amount} (hw : s.threads v = .casConsume amount s.bucket.tokens) :
      Stepped s (.go v)
        ({ s.setTokens (s.bucket.tokens - amount) with consumed := s.consumed + amount }.goto v
          (.tried amount true))

/-- Only the thread that takes a step gets another state. -/
theorem goto_threads {t : Shared} (ht : t.threads = s.threads) (v w : Nat) (pc : Pc) :
    (t.goto v pc).threads w = if w = v then pc else s.threads w := by
  show Function.update t.threads v pc w = _
  rw [Function.update_apply, ht]

theorem moved_of (hw : s.threads w = pc) (hm : Moves s.bucket pc pc') :
    Stepped s (.go w) (s.goto w pc') :=
  .moved (hw ▸ hm)

/-- `goStep` does nothing but this. -/
theorem stepped_of_goStep (h : goStep s w = some s') : Stepped s (.go w) s' := by
  rw [goStep] at h
  split at h
  next op now hw =>
    dsimp only at h
    split at h
    · cases h
      exact moved_of hw .noTime
    next hne =>
      cases h
      exact moved_of hw (.readLast (by omega))
  next op now last hw =>
    split at h
    next heq =>
      subst heq
      -- `credited` has the two branches on a refill of zero
      dsimp only at h
      split at h
      next hzero =>
        cases h
        have hwon := Stepped.won hw
        rwa [credited, if_pos hzero] at hwon
      next hpos =>
        cases h
        have hwon := Stepped.won hw
        rwa [credited, if_neg hpos] at hwon
    · cases h
      exact moved_of hw .lostLast
  next op refill hw =>
    cases h
    exact moved_of hw .readRefill
  next op refill prev hw =>
    split at h
    next heq =>
      subst heq
      cases h
      exact .refilled hw
    · cases h
      exact moved_of hw .lostRefill
  next amount hw =>
    dsimp only at h
    split at h
    next hlt =>
      cases h
      exact moved_of hw (.refuse hlt)
    next hle =>
      cases h
      exact moved_of hw (.readConsume (not_lt.mp hle))
  next amount prev hw =>
    split at h
    next heq =>
      subst heq
      cases h
      exact .took hw
    · cases h
      exact moved_of hw .lostConsume
  next hw =>
    cases h
    exact moved_of hw .read
  next => exact nomatch h

/-- **What the bucket does**: `step` does nothing but this. -/
theorem stepped_of_step (h : step s a = some s') : Stepped s a s' := by
  cases a with
  | call w op =>
      simp only [step] at h
      split at h
      next hrest =>
        cases h
        exact .called hrest
      next => exact nomatch h
  | clock w now =>
      simp only [step] at h
      split at h
      next hw =>
        cases h
        exact .clocked hw
      next => exact nomatch h
  | go w => exact stepped_of_goStep h

/-! ## The invariant -/

/-- What a thread has taken from the time and not yet added to the tokens. -/
def credit : Pc → Nat
  | .loadRefill _ refill => refill
  | .casRefill _ refill _ => refill
  | _ => 0

/-- What a thread knows. -/
def PcOk (bucket : TokenBucket) (clock : Nat) : Pc → Prop
  | .clock _ => 0 < bucket.refillRateNanos
  | .loadLast _ now => 0 < bucket.refillRateNanos ∧ now ≤ clock
  | .casLast _ now last => 0 < bucket.refillRateNanos ∧ now ≤ clock ∧ last < now
  | .loadRefill _ refill => 0 < bucket.refillRateNanos ∧ refill ≤ bucket.maxTokens
  | .casRefill _ refill prev =>
      0 < bucket.refillRateNanos ∧ refill ≤ bucket.maxTokens ∧ prev ≤ bucket.maxTokens
  | .casConsume amount prev => amount ≤ prev ∧ prev ≤ bucket.maxTokens
  | _ => True

/-- The invariant of a bucket of capacity `b` that gets a token in `r`
    nanoseconds, and is not the unlimited one. -/
structure BucketInv (b r created : Nat) (s : Shared) : Prop where
  limited : s.bucket.isUnlimited = false
  max_eq : s.bucket.maxTokens = b
  rate_eq : s.bucket.refillRateNanos = r
  tokens_le : s.bucket.tokens ≤ b
  created_le : created ≤ s.bucket.lastRefillNanos
  last_le : s.bucket.lastRefillNanos ≤ s.clock
  threads : ∀ w, PcOk s.bucket s.clock (s.threads w)
  covers : Covers credit s.threads (s.consumed + s.bucket.tokens)
    (b + (s.bucket.lastRefillNanos - created) / s.bucket.refillRateNanos)

theorem credit_afterRefill (op : Op) : credit (afterRefill op) = 0 := by
  cases op <;> rfl

/-- Behind the refill a thread has nothing to keep to. -/
theorem pcOk_afterRefill (bucket : TokenBucket) (clock : Nat) (op : Op) :
    PcOk bucket clock (afterRefill op) := by
  cases op <;> trivial

/-- Behind the refill there is no answer yet. -/
theorem afterRefill_ne_tried {amount : Nat} {ok : Bool} : afterRefill op ≠ .tried amount ok := by
  cases op <;> exact nofun

/-- Behind the exchange there is no answer yet. -/
theorem credited_ne_tried {refill amount : Nat} {ok : Bool} :
    credited op refill ≠ .tried amount ok := by
  rw [credited]
  split
  · exact afterRefill_ne_tried
  · exact nofun

/-- A call of a limited bucket begins with a clock reading or a load. -/
theorem enter_ok (hlim : bucket.isUnlimited = false) (op : Op) (clock : Nat) :
    PcOk bucket clock (enter bucket op) ∧ credit (enter bucket op) = 0 ∧
      ∀ amount ok, enter bucket op ≠ .tried amount ok := by
  cases op with
  | tryConsume amount =>
      simp only [enter, hlim, Bool.false_eq_true, if_false]
      split
      next hrate => exact ⟨hrate, rfl, nofun⟩
      next => exact ⟨trivial, rfl, nofun⟩
  | available =>
      simp only [enter, hlim, Bool.false_eq_true, if_false]
      split
      next hrate => exact ⟨hrate, rfl, nofun⟩
      next => exact ⟨trivial, rfl, nofun⟩
  | refill =>
      simp only [enter]
      split
      next hrate => exact ⟨hrate, rfl, nofun⟩
      next => exact ⟨trivial, rfl, nofun⟩

/-- A thread that only looks keeps its credit, and knows what it needs. -/
theorem moves_ok {clock : Nat}
    (hle : bucket.tokens ≤ bucket.maxTokens) (hm : Moves bucket pc pc')
    (hpc : PcOk bucket clock pc) :
    PcOk bucket clock pc' ∧ credit pc' ≤ credit pc := by
  cases hm with
  | noTime =>
      refine ⟨pcOk_afterRefill .., ?_⟩
      rw [credit_afterRefill]
      exact Nat.zero_le _
  | readLast hlt => exact ⟨⟨hpc.1, hpc.2, hlt⟩, le_refl _⟩
  | lostLast =>
      refine ⟨pcOk_afterRefill .., ?_⟩
      rw [credit_afterRefill]
      exact Nat.zero_le _
  | readRefill => exact ⟨⟨hpc.1, hpc.2, hle⟩, le_refl _⟩
  | lostRefill => exact ⟨⟨hpc.1, hpc.2.1⟩, le_refl _⟩
  | refuse => exact ⟨trivial, le_refl _⟩
  | readConsume hamount => exact ⟨⟨hamount, hle⟩, le_refl _⟩
  | lostConsume => exact ⟨trivial, le_refl _⟩
  | read => exact ⟨trivial, le_refl _⟩

/-- A later clock does no harm. -/
theorem pcOk_clock {clock clock' : Nat} (hle : clock ≤ clock') (h : PcOk bucket clock pc) :
    PcOk bucket clock' pc := by
  cases pc with
  | loadLast op now => exact ⟨h.1, h.2.trans hle⟩
  | casLast op now last => exact ⟨h.1, h.2.1.trans hle, h.2.2⟩
  | _ => exact h

/-- What a thread knows does not depend on the counters. -/
theorem pcOk_congr {clock : Nat} {bucket' : TokenBucket}
    (hmax : bucket'.maxTokens = bucket.maxTokens)
    (hrate : bucket'.refillRateNanos = bucket.refillRateNanos) (h : PcOk bucket clock pc) :
    PcOk bucket' clock pc := by
  cases pc <;> simp only [PcOk, hmax, hrate] at h ⊢ <;> exact h

/-- What holds of all threads and of the new place. -/
theorem threads_goto {P : Pc → Prop} (h : ∀ v, P (s.threads v)) (hpc : P pc) :
    ∀ v, P ((s.goto w pc).threads v) :=
  (Function.forall_update_iff s.threads fun _ => P).mpr ⟨hpc, fun v _ => h v⟩

/-! ## Steps and the invariant -/

/-- A call begins. -/
theorem BucketInv.called (h : BucketInv b r created s) (op : Op) :
    BucketInv b r created (s.goto w (enter s.bucket op)) := by
  obtain ⟨hok, hcredit, -⟩ := enter_ok h.limited op s.clock
  refine ⟨h.limited, h.max_eq, h.rate_eq, h.tokens_le, h.created_le, h.last_le,
    threads_goto h.threads hok, ?_⟩
  exact h.covers.spend (Nat.add_le_add_left (hcredit.trans_le (Nat.zero_le _)) _)

/-- A thread moves. -/
theorem BucketInv.moved (h : BucketInv b r created s)
    (hm : Moves s.bucket (s.threads w) pc') : BucketInv b r created (s.goto w pc') := by
  obtain ⟨hok, hcredit⟩ := moves_ok (h.tokens_le.trans_eq h.max_eq.symm) hm (h.threads w)
  refine ⟨h.limited, h.max_eq, h.rate_eq, h.tokens_le, h.created_le, h.last_le,
    threads_goto h.threads hok, ?_⟩
  exact h.covers.spend (Nat.add_le_add_left hcredit _)

/-- A thread reads the clock. -/
theorem BucketInv.clocked {now : Nat} (h : BucketInv b r created s)
    (hw : s.threads w = .clock op) :
    BucketInv b r created ({ s with clock := max s.clock now }.goto w (.loadLast op now)) := by
  have hpc : PcOk s.bucket s.clock (.clock op) := hw ▸ h.threads w
  refine ⟨h.limited, h.max_eq, h.rate_eq, h.tokens_le, h.created_le, le_max_of_le_left h.last_le,
    threads_goto (fun v => pcOk_clock (le_max_left ..) (h.threads v))
      ⟨hpc, le_max_right ..⟩, ?_⟩
  exact h.covers.spend (Nat.add_le_add_left (Nat.zero_le _) _)

/-- The thread that wins the timestamp gets no more than its interval is
    worth. -/
theorem BucketInv.won {now : Nat} (h : BucketInv b r created s)
    (hw : s.threads w = .casLast op now s.bucket.lastRefillNanos) :
    BucketInv b r created ((s.setLast now).goto w
      (credited op (s.bucket.refillFor (now - s.bucket.lastRefillNanos)))) := by
  have hpc : PcOk s.bucket s.clock (.casLast op now s.bucket.lastRefillNanos) := hw ▸ h.threads w
  obtain ⟨hrate, hnow, hlt⟩ := hpc
  have hlast := h.created_le
  have hcredit : credit (credited op (s.bucket.refillFor (now - s.bucket.lastRefillNanos)))
      ≤ (now - s.bucket.lastRefillNanos) / s.bucket.refillRateNanos := by
    rw [credited]
    split
    · rw [credit_afterRefill]
      exact Nat.zero_le _
    · exact min_le_left ..
  -- the interval is credited once: the rounded parts add up to at most
  -- the rounded whole
  have hdiv : (s.bucket.lastRefillNanos - created) / s.bucket.refillRateNanos
      + (now - s.bucket.lastRefillNanos) / s.bucket.refillRateNanos
      ≤ (now - created) / s.bucket.refillRateNanos := by
    have hsplit : now - created
        = (s.bucket.lastRefillNanos - created) + (now - s.bucket.lastRefillNanos) := by omega
    rw [hsplit]
    exact Nat.div_add_div_le_add_div
  have hok : PcOk (s.setLast now).bucket s.clock
      (credited op (s.bucket.refillFor (now - s.bucket.lastRefillNanos))) := by
    rw [credited]
    split
    · exact pcOk_afterRefill ..
    · exact ⟨hrate, min_le_right ..⟩
  refine ⟨h.limited, h.max_eq, h.rate_eq, h.tokens_le, hlast.trans hlt.le, hnow,
    threads_goto (fun v => pcOk_congr rfl rfl (h.threads v)) hok, ?_⟩
  refine h.covers.update ?_
  show s.consumed + s.bucket.tokens + _ + _ ≤ s.consumed + s.bucket.tokens + _
    + (b + (now - created) / s.bucket.refillRateNanos)
  rw [hw]
  show _ ≤ s.consumed + s.bucket.tokens + 0 + _
  omega

/-- A thread puts its refill into the bucket. -/
theorem BucketInv.refilled {refill : Nat} (h : BucketInv b r created s)
    (hw : s.threads w = .casRefill op refill s.bucket.tokens) :
    BucketInv b r created ((s.setTokens (s.bucket.addRefill s.bucket.tokens refill)).goto w
      (afterRefill op)) := by
  refine ⟨h.limited, h.max_eq, h.rate_eq, (min_le_right ..).trans_eq h.max_eq, h.created_le, h.last_le,
    threads_goto (fun v => pcOk_congr rfl rfl (h.threads v)) (pcOk_afterRefill ..), ?_⟩
  refine h.covers.spend ?_
  have hadd : s.bucket.addRefill s.bucket.tokens refill ≤ s.bucket.tokens + refill :=
    (min_le_left ..).trans (Nat.mod_le _ _)
  rw [hw, credit_afterRefill]
  show s.consumed + s.bucket.addRefill s.bucket.tokens refill + 0
    ≤ s.consumed + s.bucket.tokens + refill
  omega

/-- A thread takes its tokens. -/
theorem BucketInv.took {amount : Nat} (h : BucketInv b r created s)
    (hw : s.threads w = .casConsume amount s.bucket.tokens) :
    BucketInv b r created
      ({ s.setTokens (s.bucket.tokens - amount) with consumed := s.consumed + amount }.goto w
        (.tried amount true)) := by
  have hpc : PcOk s.bucket s.clock (.casConsume amount s.bucket.tokens) := hw ▸ h.threads w
  have hle : amount ≤ s.bucket.tokens := hpc.1
  refine ⟨h.limited, h.max_eq, h.rate_eq, (Nat.sub_le ..).trans h.tokens_le, h.created_le, h.last_le,
    threads_goto (fun v => pcOk_congr rfl rfl (h.threads v)) trivial, ?_⟩
  refine h.covers.spend ?_
  rw [hw]
  show s.consumed + amount + (s.bucket.tokens - amount) + 0 ≤ s.consumed + s.bucket.tokens + 0
  omega

/-- **Step** of any thread. -/
theorem bucketInv_step (h : BucketInv b r created s) (hs : step s a = some s') :
    BucketInv b r created s' := by
  cases stepped_of_step hs with
  | called => exact h.called _
  | moved hm => exact h.moved hm
  | clocked hw => exact h.clocked hw
  | won hw => exact h.won hw
  | refilled hw => exact h.refilled hw
  | took hw => exact h.took hw

/-- At the start. -/
theorem bucketInv_start {perSec : Nat} (hlim : b < u64Max ∨ 0 < nanosPerSec / perSec) :
    BucketInv b (nanosPerSec / perSec) created (start b perSec created) := by
  refine ⟨?_, rfl, rfl, le_refl _, le_refl _, le_refl _, fun _ => trivial, ?_⟩
  · simp only [isUnlimited, Bool.and_eq_false_iff, beq_eq_false_iff_ne]
    exact hlim.imp ne_of_lt ne_of_gt
  · exact covers_of_zero (fun _ => rfl) ((Nat.zero_add b).trans_le (Nat.le_add_right b _))

/-! ## Runs -/

/-- Nothing is given out that was not there, or has not been waited for. -/
structure Sound (b created : Nat) (s : Shared) : Prop where
  tokens_le : s.bucket.tokens ≤ s.bucket.maxTokens
  no_overflow : ∀ w op refill prev, s.threads w = .casRefill op refill prev →
    prev + refill < 2 ^ 64
  given_out : s.consumed + s.bucket.tokens ≤
    if s.bucket.refillRateNanos = 0 then b
    else b + (s.clock - created) / s.bucket.refillRateNanos

/-- A `try_consume` that succeeds takes its amount out of the tokens that are
    there. -/
def TakesItsAmount (s : Shared) (a : Act) : Prop :=
  ∀ s' w amount, step s a = some s' → s.threads w ≠ .tried amount true →
    s'.threads w = .tried amount true → s'.bucket.tokens + amount = s.bucket.tokens

/-- What the invariant says of the bucket. -/
theorem BucketInv.sound (h : BucketInv b (nanosPerSec / b) created s) : Sound b created s := by
  refine ⟨h.tokens_le.trans_eq h.max_eq.symm, ?_, ?_⟩
  · intro w op refill prev hw
    have hpc : PcOk s.bucket s.clock (.casRefill op refill prev) := hw ▸ h.threads w
    obtain ⟨hrate, hrefill, hprev⟩ := hpc
    rw [h.max_eq] at hrefill hprev
    -- a bucket with a rate holds at most as many tokens as a second has nanoseconds
    have hsmall : b ≤ nanosPerSec := by
      rw [h.rate_eq] at hrate
      exact (Nat.div_pos_iff.mp hrate).2
    have hnanos : nanosPerSec = 1000000000 := rfl
    omega
  · have hcovers := h.covers.amount_le
    split
    next hzero =>
      rw [hzero, Nat.div_zero] at hcovers
      exact hcovers
    next =>
      refine hcovers.trans (Nat.add_le_add_left (Nat.div_le_div_right ?_) b)
      have hlast := h.last_le
      omega

theorem moves_ne_tried {amount : Nat} (hm : Moves bucket pc pc') : pc' ≠ .tried amount true := by
  cases hm with
  | noTime => exact afterRefill_ne_tried
  | lostLast => exact afterRefill_ne_tried
  | _ => exact nofun

/-- A step takes what its call asked for. -/
theorem takesItsAmount_of_inv (h : BucketInv b r created s) :
    TakesItsAmount s a := by
  intro s' w amount hs hw hw'
  have hself : ∀ {t : Shared} {v : Nat} {pc : Pc}, t.threads = s.threads →
      (t.goto v pc).threads w = .tried amount true → w = v ∧ pc = .tried amount true := by
    intro t v pc ht hgoto
    rw [goto_threads ht] at hgoto
    split at hgoto
    next hwv => exact ⟨hwv, hgoto⟩
    next => exact absurd hgoto hw
  cases stepped_of_step hs with
  | called => exact absurd (hself rfl hw').2 ((enter_ok h.limited _ 0).2.2 amount true)
  | moved hm => exact absurd (hself rfl hw').2 (moves_ne_tried hm)
  | clocked => exact nomatch (hself rfl hw').2
  | won => exact absurd (hself rfl hw').2 credited_ne_tried
  | refilled => exact absurd (hself rfl hw').2 afterRefill_ne_tried
  | took hwv =>
      obtain ⟨rfl, hpc⟩ := hself rfl hw'
      cases hpc
      have hle : PcOk s.bucket s.clock (.casConsume amount s.bucket.tokens) := hwv ▸ h.threads _
      exact Nat.sub_add_cancel hle.1

/-- **The bound**: the tokens of a bucket and all that was ever consumed from
    it are no more than it began with and the time since has earned. -/
theorem tokenBucket_sound (hb : b < u64Max) :
    Always step (Sound b created) (start b b created) acts ∧
      Along step TakesItsAmount (start b b created) acts := by
  have hstart : BucketInv b (nanosPerSec / b) created (start b b created) :=
    bucketInv_start (Or.inl hb)
  constructor
  · exact always_of_step (fun _ _ _ => bucketInv_step) (fun _ h => h.sound) hstart
  · exact along_of_step (fun _ _ _ => bucketInv_step) (fun _ _ h => takesItsAmount_of_inv h) hstart

section Examples

/-- One thread consumes; a second one, two token times later, wins the
    timestamp, and the refill finds room. -/
def consumedTwice : List Act :=
  [.call 0 (.tryConsume 60), .clock 0 0, .go 0, .go 0, .go 0,
    .call 1 (.tryConsume 41), .clock 1 20000000, .go 1, .go 1, .go 1, .go 1, .go 1, .go 1]

theorem tokenBucket_sound_hundred :
    (run step (start 100 100 0) consumedTwice).any
        (fun s => s.consumed == 101 && s.bucket.tokens == 1) = true ∧
      Always step (Sound 100 0) (start 100 100 0) consumedTwice ∧
      Along step TakesItsAmount (start 100 100 0) consumedTwice :=
  ⟨by decide, tokenBucket_sound (by decide)⟩

end Examples

end BlitzBucketRuns
