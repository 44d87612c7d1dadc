import AptBlitz.ThrottleRuns

/-! # The timer of a throttled body

    `schedule_wake` asks for the tokens of all that is queued, while the next
    `try_deliver` takes those of the front alone, and a bucket holds one
    piece.  The delay is right where what is queued behind the front costs
    less than the rounding to milliseconds: `delaysForFront_iff`. -/

namespace BlitzThrottleWakes

open BlitzBuffer BlitzThrottle Throttled BlitzThrottleRuns Runs
open BlitzBucketRuns (stepped_of_step)
open BlitzWaitConsume (isCallOf)
open BlitzBucket hiding Act step start

variable {s t : Throttled} {shared : Shared} {limit : Option Nat} {a : Act} {acts : List Act}
  {bucket : TokenBucket} {avail front wait maxTokens price : Nat} {pending : List Bytes}

/-! ## What is armed -/

/-- The bucket and the tokens that `schedule_wake` has been shown. -/
def waking (s : Throttled) : Option (TokenBucket × Nat) :=
  match s.bucket with
  | none => none
  | some shared =>
      match s.pc, shared.threads s.me with
      | .waking, .saw avail => some (shared.bucket, avail)
      | _, _ => none

/-- `remaining` in `schedule_wake`. -/
def remaining (pending : List Bytes) : Nat := (pending.map List.length).sum

/-- The milliseconds for which the stream is about to arm the timer. -/
def armed (s : Throttled) : Option Nat :=
  (waking s).map fun w => wakeMs (waitTimeNanos w.1 w.2 (remaining s.pending))

/-! ## One delay -/

/-- The wait for an amount, of the type of the code. -/
def waitFor (bucket : TokenBucket) (avail amount : Nat) : Nat :=
  (amount - avail) * bucket.refillRateNanos % 2 ^ 64

/-- The wait for the queue is below two milliseconds or, without the part of a
    millisecond, no longer than that for the front. -/
def Short (bucket : TokenBucket) (avail front : Nat) (pending : List Bytes) : Prop :=
  let wait := waitFor bucket avail (remaining pending)
  wait < 2000000 ∨ wait - wait % 1000000 ≤ (front - avail) * bucket.refillRateNanos

/-- A step that arms the timer does so for a short delay. -/
def ArmsShort (s : Throttled) (a : Act) : Prop :=
  a = .result → ∀ w ∈ waking s, ∀ piece ∈ s.pending.head?,
    Short w.1 w.2 piece.length s.pending

/-- The delay that `schedule_wake` arms is at most a millisecond, or what the
    bucket needs for the piece at the front. -/
def DelaysForFront (s : Throttled) (bucket : TokenBucket) (avail front : Nat) : Prop :=
  ∃ t ms, step s .result = some t ∧ t.timer = some ms ∧
    ms * 1000000 ≤ max 1000000 ((front - avail) * bucket.refillRateNanos)

instance (bucket : TokenBucket) (avail front : Nat) (pending : List Bytes) :
    Decidable (Short bucket avail front pending) :=
  inferInstanceAs (Decidable (_ ∨ _))

instance (s : Throttled) (a : Act) : Decidable (ArmsShort s a) :=
  inferInstanceAs (Decidable (a = .result → _))

/-- `wait_time_nanos` is the wait of the abstract bucket. -/
theorem waitTimeNanos_eq (bucket : TokenBucket) (avail amount : Nat) :
    waitTimeNanos bucket avail amount = waitFor bucket avail amount := by
  rw [waitTimeNanos, waitFor]
  split
  next hunl =>
    rw [TokenBucket.isUnlimited, Bool.and_eq_true, beq_iff_eq, beq_iff_eq] at hunl
    rw [hunl.2, Nat.mul_zero, Nat.zero_mod]
  next =>
    split
    next hle => rw [Nat.sub_eq_zero_of_le hle, Nat.zero_mul, Nat.zero_mod]
    next => rfl

/-- When the timer, in whole milliseconds and at least one, is no longer than
    `limit`. -/
theorem wakeMs_le_iff (wait limit : Nat) :
    wakeMs wait * 1000000 ≤ max 1000000 limit ↔
      wait < 2000000 ∨ wait - wait % 1000000 ≤ limit := by
  rw [wakeMs]
  split
  · omega
  · omega

/-- The step that arms the timer. -/
theorem result_of_waking (hw : waking s = some (bucket, avail)) :
    step s .result = some { s with
      timer := some (wakeMs (waitFor bucket avail (remaining s.pending))), pc := .out } := by
  rw [waking] at hw
  split at hw
  · cases hw
  next shared hb =>
    split at hw
    next avail' hpc hthread =>
      cases hw
      simp only [step, hb, result, hpc, hthread, waitTimeNanos_eq, remaining]
    · cases hw

/-- The timer is no longer than the front chunk's wait exactly in these cases.
    -/
theorem delaysForFront_iff (hw : waking s = some (bucket, avail)) :
    DelaysForFront s bucket avail front ↔ Short bucket avail front s.pending := by
  rw [Short, ← wakeMs_le_iff]
  constructor
  · rintro ⟨t, ms, ht, hms, hle⟩
    rw [result_of_waking hw] at ht
    cases ht
    cases hms
    exact hle
  · intro hle
    exact ⟨_, _, result_of_waking hw, rfl, hle⟩

/-! ## Steps -/

/-- What a poll can be, of a stream whose queue is in order. -/
inductive Polled (s : Throttled) : Throttled → Prop
  | same : Polled s s
  | ended (e : Ending) : Polled s { s with ended := some e }
  | failed (e : String) : Polled s { s with produced := s.produced ++ [.error e],
                                            delivered := s.delivered ++ [.error e] }
  | asked {timer : Option Nat} {shared : Shared} {front : Bytes} {rest : List Bytes}
      (hb : s.bucket = some shared) (hp : s.pending = front :: rest) :
      Polled s ({ s with timer }.call shared (.tryConsume front.length) .trying)
  | received {shared : Shared} {chunk front : Bytes} {rest : List Bytes}
      (hb : s.bucket = some shared) (hnil : s.pending = [])
      (hqueue : enqueueChunk (some shared.bucket) [] chunk = some (front :: rest)) :
      Polled s ({ s with pending := front :: rest, produced := s.produced ++ [Except.ok chunk] }.call
        shared (.tryConsume front.length) .trying)
  | passed {chunk : Bytes} (hb : s.bucket = none) :
      Polled s ({ s with produced := s.produced ++ [Except.ok chunk] }.deliver chunk [])

/-- What `poll_next` can do with the answer of the bucket. -/
inductive Answered (s : Throttled) (shared : Shared) : Throttled → Prop
  | delivered {front : Bytes} {rest : List Bytes} (hpc : s.pc = .trying)
      (hp : s.pending = front :: rest) : Answered s shared (s.deliver front rest)
  | refused {amount : Nat} (hpc : s.pc = .trying)
      (hthread : shared.threads s.me = .tried amount false) : Answered s shared s.undelivered
  | armed {avail ms : Nat} (hpc : s.pc = .waking) (hthread : shared.threads s.me = .saw avail) :
      Answered s shared { s with timer := some ms, pc := .out }

/-- With a chunk queued `try_deliver` asks the bucket for it. -/
theorem tryDeliver_of_pending {front : Bytes} {rest : List Bytes} (hb : s.bucket = some shared)
    (hp : s.pending = front :: rest) :
    s.tryDeliver = s.call shared (.tryConsume front.length) .trying := by
  rw [tryDeliver, hb, hp]

/-- `receive` does nothing to the queue but this. -/
theorem polled_of_receive {item : Item} (h : Queued limit s)
    (hlimit : ∀ m, limit = some m → 1 ≤ m) (hnil : s.pending = [])
    (hr : s.receive item = some t) : Polled s t := by
  cases item with
  | error e =>
      cases hr
      exact .failed e
  | ok chunk =>
      obtain ⟨pieces, henqueue, hne, -⟩ :=
        enqueueChunk_pieces s.pending chunk (fits_of_limit h hlimit)
      obtain ⟨front, rest, rfl⟩ := List.exists_cons_of_ne_nil hne
      rw [hnil, List.nil_append] at henqueue
      simp only [receive, hnil, henqueue] at hr
      cases hb : s.bucket with
      | none =>
          simp only [hb, Option.map_none] at henqueue hr
          cases henqueue
          cases hr
          have hpassed := @Polled.passed s chunk hb
          simp only [hb] at hpassed
          exact hpassed
      | some shared =>
          simp only [hb, Option.map_some, tryDeliver] at henqueue hr
          cases hr
          exact .received hb hnil henqueue

/-- `poll_next` does nothing to the queue but this. -/
theorem polled_of_pollNext {cancelled timerPending : Bool} {inner : Poll (Option Item)}
    (h : Queued limit s) (hlimit : ∀ m, limit = some m → 1 ≤ m)
    (hs : s.pollNext cancelled timerPending inner = some t) : Polled s t := by
  cases cancelled with
  | true =>
      cases hs
      exact .ended _
  | false =>
      rw [pollNext.eq_def, if_neg nofun] at hs
      split at hs
      next =>
        by_cases hnil : s.pending = []
        · have hskip : ¬ (s.bucket.isSome && !s.pending.isEmpty) = true := by simp [hnil]
          rw [if_neg hskip] at hs
          split at hs
          next =>
            rw [if_neg hskip] at hs
            cases hs
            exact .same
          next =>
            rw [if_pos (List.isEmpty_iff.mpr hnil)] at hs
            cases hs
            exact .ended _
          next => exact polled_of_receive h hlimit hnil hs
        · obtain ⟨front, rest, hp⟩ := List.exists_cons_of_ne_nil hnil
          obtain ⟨shared, hb⟩ := h.exists_bucket hnil
          rw [if_pos (by rw [hb, hp]; rfl), tryDeliver_of_pending hb hp] at hs
          cases hs
          exact .asked hb hp
      next hstate =>
        obtain ⟨front, rest, hp⟩ := List.exists_cons_of_ne_nil (h.waits hstate)
        obtain ⟨shared, hb⟩ := h.exists_bucket (h.waits hstate)
        split at hs
        · cases hs
          exact .same
        · have hask : ({ s with timer := none } : Throttled).tryDeliver = _ :=
            tryDeliver_of_pending hb hp
          rw [hask] at hs
          cases hs
          exact .asked hb hp

/-- The answer of the bucket does nothing to the queue but this. -/
theorem answered_of_result (hr : s.result shared = some t) : Answered s shared t := by
  rw [result] at hr
  split at hr
  next amount hpc hthread =>
    rw [popFront] at hr
    split at hr
    next => cases hr
    next front rest hp =>
      cases hr
      exact .delivered hpc hp
  next amount hpc hthread =>
    cases hr
    exact .refused hpc hthread
  next avail hpc hthread =>
    cases hr
    exact .armed hpc hthread
  next => cases hr

/-! ## The number of pieces -/

/-- The pieces of a chunk: the whole ones, and one for the rest. -/
def pieceCount (size length : Nat) : Nat := max 1 ((length + size - 1) / size)

/-- The pieces of what the inner stream has produced. -/
def pieceSum (size : Nat) (items : List Item) : Nat :=
  ((chunks items).map fun chunk => pieceCount size chunk.length).sum

/-- The number of pieces that a chunk is split into. -/
theorem length_splitLoop {chunk : Bytes} {size fuel offset : Nat} {queue : List Bytes}
    (hsize : 1 ≤ size) (hle : offset ≤ chunk.length)
    (h : splitLoop chunk size fuel offset pending = some queue) :
    queue.length = pending.length + (chunk.length - offset + size - 1) / size := by
  induction fuel generalizing offset pending with
  | zero => cases h
  | succ fuel ih =>
      rw [splitLoop] at h
      split at h
      next hlt =>
        rw [ih (min_le_right ..) h, List.length_append, List.length_singleton, Nat.add_assoc]
        congr 1
        rcases le_or_gt (offset + size) chunk.length with hwhole | hrest
        · -- a whole piece
          have hlen : chunk.length - offset + size - 1
              = chunk.length - (offset + size) + size - 1 + size := by omega
          rw [min_eq_left hwhole, hlen, Nat.add_div_right _ hsize, Nat.add_comm]
        · -- the rest is shorter than a piece
          have hone : (chunk.length - offset + size - 1) / size = 1 :=
            Nat.div_eq_of_lt_le (by omega) (by omega)
          have hnone : (chunk.length - chunk.length + size - 1) / size = 0 :=
            Nat.div_eq_of_lt (by omega)
          rw [min_eq_right hrest.le, hone, hnone]
      next hge =>
        cases h
        rw [Nat.div_eq_of_lt (by omega), Nat.add_zero]

/-- The queue grows by the pieces of the chunk. -/
theorem length_enqueueChunk {chunk : Bytes} {queue : List Bytes} (hsize : 1 ≤ bucket.maxTokens)
    (h : enqueueChunk (some bucket) pending chunk = some queue) :
    queue.length = pending.length + pieceCount bucket.maxTokens chunk.length := by
  rw [enqueueChunk] at h
  split at h
  next hle =>
    cases h
    have hone : (chunk.length + bucket.maxTokens - 1) / bucket.maxTokens < 2 :=
      (Nat.div_lt_iff_lt_mul hsize).mpr (by omega)
    rw [List.length_append, List.length_singleton, pieceCount]
    omega
  next hgt =>
    have hpos : 1 ≤ (chunk.length + bucket.maxTokens - 1) / bucket.maxTokens :=
      (Nat.le_div_iff_mul_le hsize).mpr (by omega)
    rw [length_splitLoop hsize (Nat.zero_le _) h, pieceCount, max_eq_right hpos]
    rfl

/-- The size and the price of the stream's bucket. -/
def terms (s : Throttled) : Option (Nat × Nat) :=
  s.bucket.map fun shared => (shared.bucket.maxTokens, shared.bucket.refillRateNanos)

/-- A stream with a bucket, whose pieces are counted. -/
structure Metered (size price : Nat) (s : Throttled) : Prop where
  terms_eq : terms s = some (size, price)
  counted : (chunks s.delivered).length + s.pending.length ≤ pieceSum size s.produced

/-- The calls of the bucket leave the queue alone. -/
structure Frame (s t : Throttled) : Prop where
  terms_eq : terms t = terms s
  delivered : t.delivered = s.delivered
  pending : t.pending = s.pending
  produced : t.produced = s.produced

/-- A step that leaves queue and counters alone keeps the count. -/
theorem Metered.frame {size : Nat} (h : Metered size price s) (hf : Frame s t) :
    Metered size price t := by
  refine ⟨hf.terms_eq.trans h.terms_eq, ?_⟩
  rw [hf.delivered, hf.pending, hf.produced]
  exact h.counted

theorem frame_call (hb : s.bucket = some shared) (op : Op) (pc : PollPc) :
    Frame s (s.call shared op pc) := by
  refine ⟨?_, rfl, rfl, rfl⟩
  rw [terms, terms, hb]
  rfl

theorem frame_scheduleWake (s : Throttled) : Frame s s.scheduleWake := by
  rw [scheduleWake]
  split
  next => exact ⟨rfl, rfl, rfl, rfl⟩
  next shared hb =>
    split
    · exact ⟨rfl, rfl, rfl, rfl⟩
    · exact frame_call hb _ _

theorem frame_undelivered (s : Throttled) : Frame s s.undelivered := by
  rw [undelivered]
  split
  · have hf := frame_scheduleWake { s with state := .waiting }
    exact ⟨hf.terms_eq, hf.delivered, hf.pending, hf.produced⟩
  · split
    · exact ⟨rfl, rfl, rfl, rfl⟩
    · exact frame_scheduleWake s

theorem refillRateNanos_step {act : BlitzBucket.Act} {next : Shared}
    (hs : BlitzBucket.step shared act = some next) :
    next.bucket.refillRateNanos = shared.bucket.refillRateNanos := by
  cases stepped_of_step hs <;> rfl

/-- A poll keeps the count. -/
theorem Metered.polled {size : Nat} (h : Metered size price s) (hsize : 1 ≤ size)
    (hp : Polled s t) : Metered size price t := by
  cases hp with
  | same => exact h
  | ended e => exact ⟨h.terms_eq, h.counted⟩
  | failed e =>
      refine ⟨h.terms_eq, ?_⟩
      rw [pieceSum, chunks_append, chunks_append, chunks_error, List.append_nil, List.append_nil]
      exact h.counted
  | @asked timer shared front rest hb hp =>
      have htimer : Metered size price { s with timer } := ⟨h.terms_eq, h.counted⟩
      refine htimer.frame (frame_call ?_ _ _)
      exact hb
  | @received shared chunk front rest hb hnil hqueue =>
      have hterms := h.terms_eq
      rw [terms, hb] at hterms
      cases hterms
      have hqueued : Metered shared.bucket.maxTokens shared.bucket.refillRateNanos
          { s with pending := front :: rest, produced := s.produced ++ [Except.ok chunk] } := by
        refine ⟨h.terms_eq, ?_⟩
        have hcount := h.counted
        have hlen := length_enqueueChunk hsize hqueue
        rw [hnil] at hcount
        rw [pieceSum, chunks_append, List.map_append, List.sum_append]
        show _ + (front :: rest).length ≤ pieceSum shared.bucket.maxTokens s.produced
          + (pieceCount shared.bucket.maxTokens chunk.length + 0)
        rw [hlen]
        simp only [List.length_nil] at hcount ⊢
        omega
      refine hqueued.frame (frame_call ?_ _ _)
      exact hb
  | passed hb =>
      have hterms := h.terms_eq
      rw [terms, hb] at hterms
      cases hterms

/-- The answer of the bucket keeps the count. -/
theorem Metered.answered {size : Nat} (h : Metered size price s) (ha : Answered s shared t) :
    Metered size price t := by
  cases ha with
  | @delivered front rest hpc hp =>
      refine ⟨h.terms_eq, ?_⟩
      have hcount := h.counted
      rw [hp, List.length_cons] at hcount
      show (chunks (s.delivered ++ [.ok front])).length + rest.length ≤ _
      rw [chunks_append, List.length_append]
      show _ + 1 + rest.length ≤ pieceSum size s.produced
      omega
  | refused => exact h.frame (frame_undelivered s)
  | armed => exact ⟨h.terms_eq, h.counted⟩

/-! ## The steps of a stream -/

theorem of_step_bucket {act : BlitzBucket.Act} (hs : step s (.bucket act) = some t) :
    ∃ shared next paid, s.bucket = some shared ∧ isCallOf s.me act = false ∧
      BlitzBucket.step shared act = some next ∧ t = { s with bucket := some next, paid } := by
  simp only [step] at hs
  split at hs
  next => cases hs
  next shared hb =>
    split at hs
    next => cases hs
    next hcall =>
      obtain ⟨next, hnext, rfl⟩ := Option.map_eq_some_iff.mp hs
      exact ⟨shared, next, _, hb, Bool.eq_false_iff.mpr hcall, hnext, rfl⟩

theorem of_step_poll {cancelled timerPending : Bool} {inner : Poll (Option Item)}
    (hs : step s (.poll cancelled timerPending inner) = some t) :
    s.pc = .out ∧ s.pollNext cancelled timerPending inner = some t := by
  simp only [step] at hs
  split at hs
  next hout => exact ⟨hout.1, hs⟩
  next => cases hs

theorem of_step_result (hs : step s .result = some t) :
    ∃ shared, s.bucket = some shared ∧ s.result shared = some t := by
  simp only [step] at hs
  split at hs
  next => cases hs
  next shared hb => exact ⟨shared, hb, hs⟩

/-- **Step** of a throttled stream: the count is kept. -/
theorem Metered.step {size : Nat} (h : Metered size price s) (hsound : Sound (some size) s)
    (hsize : 1 ≤ size) (hs : BlitzThrottle.step s a = some t) : Metered size price t := by
  cases a with
  | bucket act =>
      obtain ⟨shared, next, paid, hb, -, hnext, rfl⟩ := of_step_bucket hs
      refine ⟨?_, h.counted⟩
      have hterms := h.terms_eq
      rw [terms, hb, Option.map_some, ← maxTokens_step hnext, ← refillRateNanos_step hnext]
        at hterms
      exact hterms
  | poll cancelled timerPending inner =>
      refine h.polled hsize (polled_of_pollNext hsound.queued ?_ (of_step_poll hs).2)
      rintro _ ⟨⟩
      exact hsize
  | result =>
      obtain ⟨shared, hb, hr⟩ := of_step_result hs
      exact h.answered (answered_of_result hr)

theorem terms_of_waking (hw : waking s = some (bucket, avail)) :
    terms s = some (bucket.maxTokens, bucket.refillRateNanos) := by
  rw [waking] at hw
  split at hw
  · cases hw
  next shared hb =>
    split at hw
    · cases hw
      rw [terms, hb]
      rfl
    · cases hw

/-! ## All delays -/

/-- The delays of a stream whose bucket holds `size` tokens, at `price`
    nanoseconds each, if they are short. -/
theorem armed_le {size ms : Nat} (h : Sound (some size) s) (hm : Metered size price s)
    (ha : ArmsShort s .result) (hms : armed s = some ms) :
    ms * 1000000 ≤ max 1000000 (size * price) := by
  obtain ⟨⟨bucket, avail⟩, hw, rfl⟩ := Option.map_eq_some_iff.mp hms
  rw [waitTimeNanos_eq]
  have hterms : some (bucket.maxTokens, bucket.refillRateNanos) = some (size, price) := by
    rw [← terms_of_waking hw]
    exact hm.terms_eq
  cases hterms
  cases hp : s.pending with
  | nil =>
      have hzero : waitFor bucket avail (remaining []) = 0 := by
        simp [waitFor, remaining]
      rw [hzero]
      exact le_max_left ..
  | cons front rest =>
      have hshort : Short bucket avail front.length s.pending :=
        ha rfl _ hw front (by rw [hp]; rfl)
      rw [Short, ← wakeMs_le_iff, hp] at hshort
      refine hshort.trans (max_le_max (le_refl _) (Nat.mul_le_mul_right _ ?_))
      have hsmall : front.length ≤ bucket.maxTokens :=
        h.queued.small _ rfl front (by rw [hp]; simp)
      omega

/-- What a run of the stream keeps. -/
def Counted (size price : Nat) (s : Throttled) : Prop :=
  Sound (some size) s ∧ Metered size price s

/-- **Step** that the run lemmas use. -/
theorem counted_step {size : Nat} (hsize : 1 ≤ size) :
    ∀ s a t, Counted size price s → step s a = some t → Counted size price t := by
  rintro s a t ⟨hsound, hmetered⟩ hs
  refine ⟨sound_step ?_ hsound hs, hmetered.step hsound hsize hs⟩
  rintro _ ⟨⟩
  exact hsize

/-- A new stream has delivered nothing. -/
theorem counted_wrap (shared : Shared) (me : Nat) :
    Counted shared.bucket.maxTokens shared.bucket.refillRateNanos (wrap (some shared) me) :=
  ⟨sound_wrap (some shared) me, rfl, Nat.zero_le _⟩

/-- A sum is bounded by its length times the bound of its terms. -/
theorem sum_mul_le {xs : List Nat} {unit bound : Nat} (h : ∀ x ∈ xs, x * unit ≤ bound) :
    xs.sum * unit ≤ xs.length * bound := by
  induction xs with
  | nil => simp
  | cons x xs ih =>
      obtain ⟨hx, hxs⟩ := List.forall_mem_cons.mp h
      rw [List.sum_cons, List.length_cons, Nat.add_mul, Nat.add_mul, Nat.one_mul, Nat.add_comm]
      exact Nat.add_le_add (ih hxs) hx

end BlitzThrottleWakes
