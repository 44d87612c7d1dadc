import AptBlitz.BucketAlone
import AptBlitz.ThrottleWakes

/-! # All delays of a throttled body

    A delay is cut to whole milliseconds, and a refill drops the time that
    does not make a whole token.  A token that costs no more than a
    millisecond, or whole milliseconds, is there after at most three delays;
    any other price lets a piece be delayed for ever.

    So the delays of a chunk are linear in its pieces, in the runs in which
    the bucket is the stream's own while it waits: `scheduleWake_linear`. -/

namespace BlitzThrottleDelays

open BlitzBuffer BlitzThrottle Throttled BlitzThrottleRuns BlitzThrottleWakes BlitzBucketAlone Runs
open BlitzWaitConsume (tryAmount goto_self isCallOf)
open BlitzWaitConsumeRuns (resting_of_moves)
open BlitzBucketRuns hiding Sound
open BlitzBucket hiding Act step start
open BlitzBucket.TokenBucket hiding new

/-! ## What is noted -/

/-- What is noted of a stream. -/
structure Noted where
  /-- what the clock has shown the polling thread last -/
  readAt : Nat
  /-- when the timer fires -/
  dueAt : Nat
  /-- the delays there have been, in milliseconds -/
  delays : List Nat
  deriving DecidableEq, Repr

variable {s t : Throttled} {h : Noted} {x y : Throttled × Noted} {a : Act} {acts : List Act}
  {shared next : Shared} {bucket : TokenBucket}
  {b q created size front missing wait : Nat} {pc : Pc}

/-- What a step adds to the notes. -/
def note (s : Throttled) (h : Noted) : Act → Noted
  | .bucket (.clock w now) => if w = s.me then { h with readAt := now } else h
  | .result =>
      match armed s with
      | some ms => { h with dueAt := h.readAt + ms * 1000000, delays := h.delays ++ [ms] }
      | none => h
  | _ => h

/-- Nothing has been noted yet. -/
def fresh : Noted := ⟨0, 0, []⟩

/-! ## The runs in question -/

/-- The clock does not go back, and when the timer has fired it shows at least
    the time that the timer was set for. -/
def OnTime (x : Throttled × Noted) : Act → Prop
  | .bucket (.clock w now) =>
      (∀ shared ∈ x.1.bucket, shared.clock ≤ now) ∧
        (w = x.1.me → x.1.state = .waiting → x.1.pc = .trying → x.2.dueAt ≤ now)
  | _ => True

/-- While the stream waits, no other thread uses its bucket. -/
def Undisturbed (s : Throttled) : Act → Prop
  | .bucket (.call _ _) => s.state ≠ .waiting
  | .bucket (.clock w _) => s.state = .waiting → w = s.me
  | .bucket (.go w) => s.state = .waiting → w = s.me
  | _ => True

/-- The wait for what is queued is a number of the type of the code. -/
def ArmsFit (s : Throttled) (a : Act) : Prop :=
  a = .result → ∀ w ∈ waking s, (remaining s.pending - w.2) * w.1.refillRateNanos < 2 ^ 64

/-- A step of a run in which the delays are linear. -/
def Paced (x : Throttled × Noted) (a : Act) : Prop :=
  (OnTime x a ∧ Undisturbed x.1 a) ∧ ArmsShort x.1 a ∧ ArmsFit x.1 a

instance : ∀ (x : Throttled × Noted) (a : Act), Decidable (OnTime x a)
  | _, .bucket (.clock _ _) => inferInstanceAs (Decidable (_ ∧ _))
  | _, .bucket (.call _ _) => isTrue trivial
  | _, .bucket (.go _) => isTrue trivial
  | _, .poll _ _ _ => isTrue trivial
  | _, .result => isTrue trivial

instance : ∀ (s : Throttled) (a : Act), Decidable (Undisturbed s a)
  | s, .bucket (.call _ _) => inferInstanceAs (Decidable (s.state ≠ .waiting))
  | s, .bucket (.clock w _) => inferInstanceAs (Decidable (s.state = .waiting → w = s.me))
  | s, .bucket (.go w) => inferInstanceAs (Decidable (s.state = .waiting → w = s.me))
  | _, .poll _ _ _ => isTrue trivial
  | _, .result => isTrue trivial

instance (s : Throttled) (a : Act) : Decidable (ArmsFit s a) :=
  inferInstanceAs (Decidable (a = .result → _))

instance (x : Throttled × Noted) (a : Act) : Decidable (Paced x a) :=
  inferInstanceAs (Decidable (_ ∧ _))

/-! ## How many delays a piece needs -/

/-- A token costs no more than a millisecond, or whole milliseconds. -/
def WholeMillis (q : Nat) : Prop := 0 < q ∧ (q ≤ 1000000 ∨ 1000000 ∣ q)

instance (q : Nat) : Decidable (WholeMillis q) := inferInstanceAs (Decidable (_ ∧ _))

/-- The delays after which `missing` tokens are there, at most. -/
def needs (q missing : Nat) : Nat :=
  if missing = 0 then 0
  else if 1000000 ∣ q ∨ missing * q ≤ 1000000 then 1
  else if (missing - 1) * q ≤ 1000000 then 2
  else 3

/-- Three sleeps are enough for any front piece. -/
theorem needs_le (q missing : Nat) : needs q missing ≤ 3 := by
  rw [needs]
  split
  · decide
  · split
    · decide
    · split <;> decide

/-- Fewer tokens take no more sleeps. -/
theorem needs_mono {missing' : Nat} (hle : missing' ≤ missing) :
    needs q missing' ≤ needs q missing := by
  have hmul : missing' * q ≤ missing * q := Nat.mul_le_mul_right q hle
  have hmul' : (missing' - 1) * q ≤ (missing - 1) * q := Nat.mul_le_mul_right q (by omega)
  rw [needs, needs]
  split_ifs <;> omega

/-- One sleep is enough where the tokens are worth a millisecond. -/
theorem needs_le_one (hcheap : missing * q ≤ 1000000) : needs q missing ≤ 1 := by
  rw [needs, if_pos (Or.inr hcheap)]
  split <;> decide

/-- Two sleeps are enough where all but one of them are. -/
theorem needs_le_two (hcheap : (missing - 1) * q ≤ 1000000) : needs q missing ≤ 2 := by
  rw [needs, if_pos hcheap]
  split
  · decide
  · split <;> decide

/-- **One delay** credits enough tokens to need one delay less.  What it is
    cut by is less than a millisecond. -/
theorem needs_after (hq : WholeMillis q) (hmissing : 0 < missing) (hwait : missing * q ≤ wait) :
    needs q (missing - wakeMs wait * 1000000 / q) + 1 ≤ needs q missing := by
  obtain ⟨hpos, hprice⟩ := hq
  have hms : 1 ≤ wakeMs wait ∧ wait < wakeMs wait * 1000000 + 1000000 := by
    rw [wakeMs]
    split <;> omega
  obtain ⟨hone, hcut⟩ := hms
  have hcredit : wakeMs wait * 1000000 < (wakeMs wait * 1000000 / q + 1) * q :=
    Nat.lt_mul_of_div_lt (Nat.lt_succ_self _) hpos
  rw [Nat.add_mul, Nat.one_mul] at hcredit
  by_cases hwhole : 1000000 ∣ q ∨ missing * q ≤ 1000000
  · -- the delay is no shorter than what the tokens cost
    have hcovers : missing * q ≤ wakeMs wait * 1000000 := by
      obtain ⟨k, rfl⟩ | hcheap := hwhole
      · have hcost : missing * (1000000 * k) = missing * k * 1000000 := by
          rw [Nat.mul_comm 1000000 k, Nat.mul_assoc]
        rw [hcost] at hwait ⊢
        omega
      · omega
    have hall : missing ≤ wakeMs wait * 1000000 / q := (Nat.le_div_iff_mul_le hpos).mpr hcovers
    rw [Nat.sub_eq_zero_of_le hall, needs, needs, if_pos rfl, if_neg hmissing.ne',
      if_pos hwhole]
  · have hprice' : q ≤ 1000000 := hprice.resolve_right fun hdvd => hwhole (Or.inl hdvd)
    by_cases hclose : (missing - 1) * q ≤ 1000000
    · -- at most one token is still missing
      have hmost : missing - 1 ≤ wakeMs wait * 1000000 / q :=
        (Nat.le_div_iff_mul_le hpos).mpr (by omega)
      have hless := needs_mono (q := q)
        (by omega : missing - wakeMs wait * 1000000 / q ≤ 1)
      have hlast : needs q 1 ≤ 1 := needs_le_one (by omega)
      have hnow : needs q missing = 2 := by
        rw [needs, if_neg hmissing.ne', if_neg hwhole, if_pos hclose]
      omega
    · have hnow : needs q missing = 3 := by
        rw [needs, if_neg hmissing.ne', if_neg hwhole, if_neg hclose]
      have hless : needs q (missing - wakeMs wait * 1000000 / q) ≤ 2 := by
        apply needs_le_two
        rcases le_or_gt missing (wakeMs wait * 1000000 / q + 1) with hall | hsome
        · rw [(by omega : missing - wakeMs wait * 1000000 / q - 1 = 0)]
          omega
        · have hsplit : (missing - wakeMs wait * 1000000 / q - 1) * q
              + (wakeMs wait * 1000000 / q + 1) * q = missing * q := by
            rw [← Nat.add_mul]
            congr 1
            omega
          rw [Nat.add_mul (wakeMs wait * 1000000 / q), Nat.one_mul] at hsplit
          omega
      omega

/-! ## The delays that are left -/

/-- The tokens that are there when the timer has fired, at least. -/
def soon (bucket : TokenBucket) (dueAt : Nat) : Nat :=
  min (bucket.tokens + (dueAt - bucket.lastRefillNanos) / bucket.refillRateNanos) bucket.maxTokens

/-- The delays that the front piece may still need.  A call of `available`
    ends in a delay, whatever it has credited. -/
def left (q : Nat) (bucket : TokenBucket) (dueAt front : Nat) : ThrottleState → PollPc → Pc → Nat
  | .idle, _, _ => 3
  | .waiting, .out, _ => needs q (front - soon bucket dueAt)
  | .waiting, .trying, .clock _ => needs q (front - soon bucket dueAt)
  | .waiting, .trying, pc =>
      if (answer bucket front pc).1 then 0
      else max 1 (needs q (front - (answer bucket front pc).2))
  | .waiting, .waking, _ => max 1 (needs q (front - bucket.tokens))

/-- The delays that all the queue may still need. -/
def budget (q : Nat) (x : Throttled × Noted) : Nat :=
  match x.1.bucket, x.1.pending with
  | some shared, front :: rest =>
      3 * rest.length + left q shared.bucket x.2.dueAt front.length x.1.state x.1.pc
        (shared.threads x.1.me)
  | _, _ => 0

/-- The budget of the pieces, the front one first. -/
theorem budget_cons {piece : Bytes} {rest : List Bytes} (hb : x.1.bucket = some shared)
    (hp : x.1.pending = piece :: rest) :
    budget q x = 3 * rest.length + left q shared.bucket x.2.dueAt piece.length x.1.state x.1.pc
      (shared.threads x.1.me) := by
  simp only [budget, hb, hp]

theorem budget_nil (hp : x.1.pending = []) : budget q x = 0 := by
  rw [budget, hp]
  split
  next heq => cases heq
  next => rfl

/-- A front piece has three sleeps at most. -/
theorem left_le {dueAt : Nat} (state : ThrottleState) (pollPc : PollPc) :
    left q bucket dueAt front state pollPc pc ≤ 3 := by
  have hone : ∀ n, max 1 (needs q n) ≤ 3 := fun n => max_le (by decide) (needs_le q n)
  rw [left.eq_def]
  split
  · exact le_refl _
  · exact needs_le ..
  · exact needs_le ..
  · split
    · decide
    · exact hone _
  · exact hone _

/-- What is left while the stream is in its call. -/
theorem left_trying {dueAt : Nat} (hpc : ∀ op, pc ≠ .clock op) :
    left q bucket dueAt front .waiting .trying pc
      = if (answer bucket front pc).1 then 0
        else max 1 (needs q (front - (answer bucket front pc).2)) := by
  cases pc with
  | clock op => exact absurd rfl (hpc op)
  | _ => rfl

/-- What is read when the timer has fired. -/
theorem left_read {dueAt now : Nat} {op : Op} (htokens : bucket.tokens ≤ bucket.maxTokens)
    (hmax : bucket.maxTokens < 2 ^ 63) (hnow : dueAt ≤ now) :
    left q bucket dueAt front .waiting .trying (.loadLast op now)
      ≤ left q bucket dueAt front .waiting .trying (.clock op) := by
  have hread : ∀ o, Pc.loadLast op now ≠ .clock o := fun o h => nomatch h
  have hrefill : bucket.refillFor (now - bucket.lastRefillNanos) ≤ bucket.maxTokens :=
    min_le_right ..
  have htime : (dueAt - bucket.lastRefillNanos) / bucket.refillRateNanos
      ≤ (now - bucket.lastRefillNanos) / bucket.refillRateNanos :=
    Nat.div_le_div_right (by omega)
  have hsoon : soon bucket dueAt
      ≤ refilled bucket (bucket.refillFor (now - bucket.lastRefillNanos)) := by
    rw [refilled_eq htokens (by omega), soon, refillFor]
    omega
  rw [left_trying hread, answer_loadLast]
  split
  · exact Nat.zero_le _
  next hless =>
    show max 1 (needs q (front - refilled bucket _)) ≤ needs q (front - soon bucket dueAt)
    refine max_le ?_ (needs_mono (by omega))
    -- something is missing, so that a delay is needed
    have hmissing : front - soon bucket dueAt ≠ 0 := by omega
    rw [needs, if_neg hmissing]
    split
    · exact le_refl _
    · split <;> decide

/-! ## Steps of the bucket -/

/-- Behind the refill a load comes first. -/
theorem afterRefill_ne_saw {op : Op} {v : Nat} : afterRefill op ≠ .saw v := by
  cases op <;> exact nofun

/-- What a thread has seen are the tokens of the bucket. -/
theorem saw_of_moves {pc' : Pc} {v : Nat} (hm : Moves bucket pc pc') (hv : pc' = .saw v) :
    v = bucket.tokens := by
  cases hm with
  | noTime => exact absurd hv afterRefill_ne_saw
  | lostLast => exact absurd hv afterRefill_ne_saw
  | read =>
      cases hv
      rfl
  | readLast => cases hv
  | readRefill => cases hv
  | lostRefill => cases hv
  | refuse => cases hv
  | readConsume => cases hv
  | lostConsume => cases hv

/-- In `available` the thread leaves no less than it finds, and what it sees
    is there. -/
theorem tokens_le_go {w : Nat} (h : BucketInv b q created shared) (hb : b < 2 ^ 63)
    (hs : goStep shared w = some next) (hamount : tryAmount (shared.threads w) = none) :
    shared.bucket.tokens ≤ next.bucket.tokens ∧ next.clock = shared.clock ∧
      ∀ v, next.threads w = .saw v → v = next.bucket.tokens := by
  cases stepped_of_goStep hs with
  | @moved _ p hm =>
      refine ⟨le_refl _, rfl, fun v hv => ?_⟩
      rw [goto_self] at hv
      exact saw_of_moves hm hv
  | @won _ op now hw =>
      refine ⟨le_refl _, rfl, fun v hv => ?_⟩
      rw [goto_self, credited] at hv
      split at hv
      · exact absurd hv afterRefill_ne_saw
      · cases hv
  | @refilled _ op refill hw =>
      have hpc := h.threads w
      rw [hw] at hpc
      have hrefill : refill ≤ b := h.max_eq ▸ hpc.2.1
      have htokens := h.tokens_le
      refine ⟨?_, rfl, fun v hv => ?_⟩
      · show shared.bucket.tokens ≤ shared.bucket.addRefill shared.bucket.tokens refill
        rw [addRefill, h.max_eq, Nat.mod_eq_of_lt (by omega)]
        omega
      · rw [goto_self] at hv
        exact absurd hv afterRefill_ne_saw
  | took hw =>
      rw [hw] at hamount
      cases hamount

/-! ## The invariant -/

/-- The invariant of a stream, in runs whose every step is `Paced`: the delays
    there have been, and those that are left, are at most three for each
    piece. -/
structure DelayInv (b q created : Nat) (x : Throttled × Noted) : Prop where
  counted : Counted b q x.1
  bucket : ∀ shared, x.1.bucket = some shared → BucketInv b q created shared
  waking : x.1.pc = .waking → x.1.state = .waiting
  read : ∀ shared, x.1.bucket = some shared → x.1.pc = .waking →
    (∀ op, shared.threads x.1.me ≠ .clock op) → shared.clock ≤ x.2.readAt
  saw : ∀ shared, x.1.bucket = some shared → x.1.pc = .waking →
    ∀ v, shared.threads x.1.me = .saw v → v = shared.bucket.tokens
  paid : x.2.delays.length + budget q x
    ≤ 3 * ((chunks x.1.delivered).length + x.1.pending.length)
  short : ∀ ms ∈ x.2.delays, ms * 1000000 ≤ max 1000000 (b * q)

/-- At the start. -/
theorem delayInv_wrap {me : Nat} (h : BucketInv b q created shared) :
    DelayInv b q created (wrap (some shared) me, fresh) := by
  have hcounted := counted_wrap shared me
  rw [h.max_eq, h.rate_eq] at hcounted
  refine ⟨hcounted, ?_, nofun, ?_, ?_, Nat.zero_le _, nofun⟩
  · rintro _ ⟨⟩
    refine ⟨h.limited, h.max_eq, h.rate_eq, h.tokens_le, h.created_le, h.last_le,
      threads_goto h.threads trivial, ?_⟩
    exact h.covers.spend (Nat.add_le_add_left (Nat.zero_le _) _)
  · rintro _ _ ⟨⟩
  · rintro _ _ ⟨⟩

/-- The front piece of a stream that waits. -/
theorem DelayInv.exists_front (h : DelayInv b q created x) (hstate : x.1.state = .waiting) :
    ∃ shared piece rest, x.1.bucket = some shared ∧ x.1.pending = piece :: rest := by
  have hne := h.counted.1.queued.waits hstate
  obtain ⟨shared, hb⟩ := h.counted.1.queued.exists_bucket hne
  obtain ⟨piece, rest, hp⟩ := List.exists_cons_of_ne_nil hne
  exact ⟨shared, piece, rest, hb, hp⟩

/-- A step that leaves the stream as it is, and the front piece no more to
    wait for. -/
theorem DelayInv.paid_le (h : DelayInv b q created x)
    (hdelays : y.2.delays = x.2.delays) (hdelivered : y.1.delivered = x.1.delivered)
    (hpending : y.1.pending = x.1.pending) (hbudget : budget q y ≤ budget q x) :
    y.2.delays.length + budget q y
      ≤ 3 * ((chunks y.1.delivered).length + y.1.pending.length) := by
  have hpaid := h.paid
  rw [hdelays, hdelivered, hpending]
  omega

/-- While the stream waits, the bucket takes the steps of its thread. -/
theorem own_of_waiting {act : BlitzBucket.Act} (hpaced : Undisturbed s (.bucket act))
    (hstate : s.state = .waiting) : (∃ now, act = .clock s.me now) ∨ act = .go s.me := by
  cases act with
  | call w op => exact absurd hstate hpaced
  | clock w now =>
      obtain rfl := hpaced hstate
      exact Or.inl ⟨now, rfl⟩
  | go w =>
      obtain rfl := hpaced hstate
      exact Or.inr rfl

/-- A thread that goes on is in a call. -/
theorem not_resting_go {w : Nat} (hs : goStep shared w = some next) :
    (shared.threads w).resting = false := by
  cases stepped_of_goStep hs with
  | moved hm => exact resting_of_moves hm
  | won hw => rw [hw]; rfl
  | refilled hw => rw [hw]; rfl
  | took hw => rw [hw]; rfl

/-- Before its clock is read, a thread does not go on. -/
theorem ne_clock_of_go {w : Nat} (hs : goStep shared w = some next) (op : Op) :
    shared.threads w ≠ .clock op := by
  intro hw
  simp only [goStep, hw] at hs
  cases hs

theorem of_clock {w now : Nat} (hs : BlitzBucket.step shared (.clock w now) = some next) :
    ∃ op, shared.threads w = .clock op ∧
      next = { shared with clock := max shared.clock now }.goto w (.loadLast op now) := by
  cases stepped_of_step hs with
  | clocked hw => exact ⟨_, hw, rfl⟩

/-- **A step of the bucket** while the stream waits leaves no more to wait
    for. -/
theorem left_step {act : BlitzBucket.Act} {piece : Bytes} {rest : List Bytes}
    (hbound : b < 2 ^ 63) (h : DelayInv b q created x) (hpaced : Paced x (.bucket act))
    (hstate : x.1.state = .waiting) (hb : x.1.bucket = some shared)
    (hp : x.1.pending = piece :: rest) (hs : BlitzBucket.step shared act = some next) :
    left q next.bucket x.2.dueAt piece.length .waiting x.1.pc (next.threads x.1.me)
      ≤ left q shared.bucket x.2.dueAt piece.length .waiting x.1.pc (shared.threads x.1.me) := by
  have hinv := h.bucket shared hb
  have hcall := (h.counted.1.paying shared hb).1
  obtain ⟨now, rfl⟩ | rfl := own_of_waiting hpaced.1.2 hstate
  · obtain ⟨op, hw, rfl⟩ := of_clock hs
    rw [goto_self, hw]
    cases hpc : x.1.pc with
    | out =>
        rw [hpc, hw] at hcall
        cases hcall
    | waking => exact le_refl _
    | trying =>
        have hnow := hpaced.1.1.2 rfl hstate hpc
        exact left_read (hinv.max_eq.symm ▸ hinv.tokens_le) (hinv.max_eq.symm ▸ hbound) hnow
  · have hgo : goStep shared x.1.me = some next := hs
    cases hpc : x.1.pc with
    | out =>
        rw [hpc] at hcall
        exact absurd hcall (by rw [InCall, not_resting_go hgo]; exact nofun)
    | waking =>
        rw [hpc] at hcall
        obtain ⟨htokens, -, -⟩ := tokens_le_go hinv hbound hgo hcall
        exact max_le_max (le_refl _) (needs_mono (by omega))
    | trying =>
        rw [hpc] at hcall
        obtain ⟨front, rest', hp', hamount⟩ := hcall
        obtain ⟨rfl, rfl⟩ := List.cons.inj (hp.symm.trans hp')
        have hrest := not_resting_go hgo
        have hclock := ne_clock_of_go hgo
        have htried : ∀ ok, shared.threads x.1.me ≠ .tried piece.length ok := by
          intro ok hw
          rw [hw] at hrest
          cases hrest
        obtain ⟨next', hnext', hkeeps⟩ := keeps_go (hinv.threads _) hamount hclock htried
        obtain rfl := Option.some.inj (hgo.symm.trans hnext')
        rw [left_trying hkeeps.notClock, left_trying hclock, hkeeps.answer_eq]

/-- A step of a thread that is in `available`. -/
theorem waking_step {act : BlitzBucket.Act} (hbound : b < 2 ^ 63) (h : DelayInv b q created x)
    (hpaced : Paced x (.bucket act)) (hpc : x.1.pc = .waking) (hb : x.1.bucket = some shared)
    (hs : BlitzBucket.step shared act = some next) :
    ((∀ op, next.threads x.1.me ≠ .clock op) →
      next.clock ≤ (note x.1 x.2 (.bucket act)).readAt) ∧
    ∀ v, next.threads x.1.me = .saw v → v = next.bucket.tokens := by
  have hcall := (h.counted.1.paying shared hb).1
  rw [hpc] at hcall
  obtain ⟨now, rfl⟩ | rfl := own_of_waiting hpaced.1.2 (h.waking hpc)
  · obtain ⟨op, hw, rfl⟩ := of_clock hs
    have hnow : shared.clock ≤ now := hpaced.1.1.1 shared hb
    constructor
    · intro _
      rw [note, if_pos rfl]
      exact max_le hnow (le_refl _)
    · intro v hv
      rw [goto_self] at hv
      cases hv
  · have hgo : goStep shared x.1.me = some next := hs
    obtain ⟨-, hclock, hsaw⟩ := tokens_le_go (h.bucket shared hb) hbound hgo hcall
    refine ⟨fun _ => ?_, hsaw⟩
    rw [hclock]
    exact h.read shared hb hpc (ne_clock_of_go hgo)

/-- **A step of the bucket** keeps the invariant. -/
theorem delayInv_bucket {act : BlitzBucket.Act} (hb : 1 ≤ b) (hbound : b < 2 ^ 63)
    (h : DelayInv b q created x) (hpaced : Paced x (.bucket act))
    (hs : watch step note x (.bucket act) = some y) : DelayInv b q created y := by
  obtain ⟨hstep, hnote⟩ := watch_some hs
  obtain ⟨shared, next, paid, hbucket, -, hnext, hy⟩ := of_step_bucket hstep
  have hcounted := counted_step hb _ _ _ h.counted hstep
  have hdue : y.2.dueAt = x.2.dueAt := by
    rw [hnote]
    cases act with
    | clock w now =>
        simp only [note]
        split <;> rfl
    | _ => rfl
  have hdelays : y.2.delays = x.2.delays := by
    rw [hnote]
    cases act with
    | clock w now =>
        simp only [note]
        split <;> rfl
    | _ => rfl
  have hinv := h.bucket shared hbucket
  have hyb : y.1.bucket = some next := by rw [hy]
  have hpc : y.1.pc = x.1.pc := by rw [hy]
  have hstate : y.1.state = x.1.state := by rw [hy]
  have hme : y.1.me = x.1.me := by rw [hy]
  have hdelivered : y.1.delivered = x.1.delivered := by rw [hy]
  have hpending : y.1.pending = x.1.pending := by rw [hy]
  refine ⟨hcounted, ?_, ?_, ?_, ?_, ?_, ?_⟩
  · intro shared' hb'
    rw [hyb] at hb'
    cases hb'
    exact bucketInv_step hinv hnext
  · rw [hpc, hstate]
    exact h.waking
  · intro shared' hb' hwaking
    rw [hyb] at hb'
    cases hb'
    rw [hme, hnote]
    exact (waking_step hbound h hpaced (hpc ▸ hwaking) hbucket hnext).1
  · intro shared' hb' hwaking
    rw [hyb] at hb'
    cases hb'
    rw [hme]
    exact (waking_step hbound h hpaced (hpc ▸ hwaking) hbucket hnext).2
  · refine h.paid_le hdelays hdelivered hpending ?_
    cases hp : x.1.pending with
    | nil => rw [budget_nil (hpending.trans hp), budget_nil hp]
    | cons piece rest =>
        rw [budget_cons hyb (hpending.trans hp), budget_cons hbucket hp, hdue, hpc, hstate, hme]
        refine Nat.add_le_add_left ?_ _
        cases hwaiting : x.1.state with
        | idle => exact le_refl _
        | waiting => exact left_step hbound h hpaced hwaiting hbucket hp hnext
  · rw [hdelays]
    exact h.short

/-- Where the stream is not in `schedule_wake`. -/
theorem DelayInv.of_not_waking (h : DelayInv b q created x) (hcounted : Counted b q y.1)
    (hbucket : ∀ shared, y.1.bucket = some shared → BucketInv b q created shared)
    (hpc : y.1.pc ≠ .waking) (hdelays : y.2.delays = x.2.delays)
    (hpaid : y.2.delays.length + budget q y
      ≤ 3 * ((chunks y.1.delivered).length + y.1.pending.length)) :
    DelayInv b q created y := by
  refine ⟨hcounted, hbucket, fun hwaking => absurd hwaking hpc,
    fun _ _ hwaking => absurd hwaking hpc, fun _ _ hwaking => absurd hwaking hpc, hpaid, ?_⟩
  rw [hdelays]
  exact h.short

/-- The bucket of a stream that calls it. -/
theorem DelayInv.called {op : Op} {pollPc : PollPc} {s : Throttled} (h : DelayInv b q created x)
    (hb : x.1.bucket = some shared) :
    ∀ shared', (s.call shared op pollPc).bucket = some shared' → BucketInv b q created shared' := by
  rintro _ ⟨⟩
  exact (h.bucket shared hb).called op

/-- A call of `try_consume` begins with the clock. -/
theorem DelayInv.asks (h : DelayInv b q created x) (hq : 0 < q) (hb : x.1.bucket = some shared)
    (n : Nat) : enter shared.bucket (.tryConsume n) = .clock (.tryConsume n) := by
  have hinv := h.bucket shared hb
  exact enter_clock hinv.limited (hinv.rate_eq.symm ▸ hq)

/-- The budget when the stream calls the bucket. -/
theorem budget_call {op : Op} {pollPc : PollPc} {piece : Bytes} {rest : List Bytes}
    {noted : Noted} (hp : s.pending = piece :: rest) :
    budget q (s.call shared op pollPc, noted)
      = 3 * rest.length + left q shared.bucket noted.dueAt piece.length s.state pollPc
          (enter shared.bucket op) := by
  have hself : (shared.goto s.me (enter shared.bucket op)).threads s.me = enter shared.bucket op :=
    goto_self ..
  have hcall : budget q (s.call shared op pollPc, noted) = _ :=
    budget_cons (x := (s.call shared op pollPc, noted)) rfl hp
  rw [hcall]
  show _ + left q shared.bucket _ _ _ _
    ((shared.goto s.me (enter shared.bucket op)).threads s.me) = _
  rw [hself]
  rfl

/-- A poll asks for the front piece as soon as it may. -/
theorem left_asked {dueAt : Nat} {op : Op} {state : ThrottleState} :
    left q bucket dueAt front state .trying (.clock op)
      ≤ left q bucket dueAt front state .out pc := by
  cases state <;> exact le_refl _

/-- **A poll** keeps the invariant. -/
theorem delayInv_poll (hq : 0 < q) (h : DelayInv b q created x) (hcounted : Counted b q y.1)
    (hpc : x.1.pc = .out) (hp : Polled x.1 y.1) (hnote : y.2 = x.2) : DelayInv b q created y := by
  obtain ⟨s, noted⟩ := x
  obtain ⟨t, noted'⟩ := y
  obtain rfl : noted' = noted := hnote
  have hout : s.pc ≠ .waking := by
    rw [hpc]
    exact nofun
  cases hp with
  | same => exact h
  | ended e => exact h.of_not_waking hcounted h.bucket hout rfl h.paid
  | failed e =>
      refine h.of_not_waking hcounted h.bucket hout rfl ?_
      rw [chunks_append, chunks_error, List.append_nil]
      exact h.paid
  | @asked timer shared front rest hb hpending =>
      refine h.of_not_waking hcounted (h.called hb) nofun rfl ?_
      refine h.paid_le rfl rfl rfl ?_
      have hbefore : budget q (s, noted') = _ := budget_cons hb hpending
      refine (budget_call (s := { s with timer }) hpending).trans_le ?_
      rw [hbefore, h.asks hq hb, hpc]
      exact Nat.add_le_add_left left_asked _
  | @received shared chunk front rest hb hnil hqueue =>
      refine h.of_not_waking hcounted (h.called hb) nofun rfl ?_
      have hpaid := h.paid
      rw [budget_nil hnil, hnil] at hpaid
      have hleft : left q shared.bucket noted'.dueAt front.length s.state .trying
          (enter shared.bucket (.tryConsume front.length)) ≤ 3 := left_le _ _
      refine (Nat.add_le_add_left (budget_call (s := { s with
        pending := front :: rest, produced := s.produced ++ [Except.ok chunk] }) rfl).le _).trans ?_
      show _ ≤ 3 * ((chunks s.delivered).length + (front :: rest).length)
      simp only [List.length_nil, List.length_cons] at hpaid ⊢
      omega
  | passed hb =>
      have hterms := h.counted.2.terms_eq
      rw [terms, hb] at hterms
      cases hterms

/-! ## The answers of the bucket -/

/-- Three sleeps for each piece. -/
theorem budget_le (q : Nat) (x : Throttled × Noted) : budget q x ≤ 3 * x.1.pending.length := by
  rw [budget]
  split
  next shared piece rest _ hp =>
    rw [hp, List.length_cons, Nat.mul_succ]
    exact Nat.add_le_add_left (left_le _ _) _
  next => exact Nat.zero_le _

/-- **The delay that is armed** leaves one less to wait for. -/
theorem left_armed {readAt amount : Nat} (hq : WholeMillis q) (hrate : bucket.refillRateNanos = q)
    (hlast : bucket.lastRefillNanos ≤ readAt) (hfront : front ≤ bucket.maxTokens)
    (hamount : front ≤ amount) (hfit : (amount - bucket.tokens) * q < 2 ^ 64) :
    needs q (front - soon bucket
        (readAt + wakeMs (waitFor bucket bucket.tokens amount) * 1000000)) + 1
      ≤ max 1 (needs q (front - bucket.tokens)) := by
  have hwait : waitFor bucket bucket.tokens amount = (amount - bucket.tokens) * q := by
    rw [waitFor, hrate, Nat.mod_eq_of_lt hfit]
  rw [hwait, soon, hrate]
  have htime : wakeMs ((amount - bucket.tokens) * q) * 1000000 / q
      ≤ (readAt + wakeMs ((amount - bucket.tokens) * q) * 1000000
          - bucket.lastRefillNanos) / q :=
    Nat.div_le_div_right (by omega)
  generalize (readAt + wakeMs ((amount - bucket.tokens) * q) * 1000000
    - bucket.lastRefillNanos) / q = credit at htime ⊢
  by_cases hthere : front ≤ bucket.tokens
  · -- `available` has credited what was missing
    have hnone : front - min (bucket.tokens + credit) bucket.maxTokens = 0 := by omega
    rw [hnone]
    exact le_max_left ..
  · have hmissing : 0 < front - bucket.tokens := by omega
    have hcost : (front - bucket.tokens) * q ≤ (amount - bucket.tokens) * q :=
      Nat.mul_le_mul_right q (by omega)
    refine le_trans ?_ (le_max_right ..)
    refine le_trans (Nat.succ_le_succ (needs_mono ?_)) (needs_after hq hmissing hcost)
    omega

/-- In its call the stream arms no sleep. -/
theorem armed_of_trying (hpc : s.pc = .trying) : armed s = none := by
  rw [armed, waking]
  split
  · rfl
  · rw [hpc]
    rfl

/-- A piece that was not delivered waits for its tokens. -/
theorem undelivered_eq {piece : Bytes} {rest : List Bytes} (hp : s.pending = piece :: rest) :
    s.undelivered = { s with state := .waiting }.scheduleWake := by
  cases hstate : s.state with
  | idle => simp only [undelivered, hstate]
  | waiting =>
      have hsame : { s with state := .waiting } = s := by
        cases s
        cases hstate
        rfl
      rw [undelivered, hstate, hsame]
      dsimp only
      rw [hp]
      rfl

/-- What `schedule_wake` does with a bucket. -/
theorem scheduleWake_some (hb : s.bucket = some shared) :
    s.scheduleWake = if (s.pending.map List.length).sum = 0 then { s with pc := .out }
      else s.call shared .available .waking := by
  rw [scheduleWake]
  split
  next hnone => cases hnone.symm.trans hb
  next shared' hb' =>
    cases hb.symm.trans hb'
    rfl

/-- `available` begins with the clock, too. -/
theorem enter_available (hlim : bucket.isUnlimited = false) (hq : 0 < bucket.refillRateNanos) :
    enter bucket .available = .clock .available := by
  simp only [enter, hlim, Bool.false_eq_true, if_false, if_pos hq]

/-- The front piece goes out. -/
theorem delayInv_delivered {noted : Noted} {piece : Bytes} {rest : List Bytes}
    (h : DelayInv b q created (s, noted)) (hcounted : Counted b q (s.deliver piece rest))
    (hb : s.bucket = some shared) (hp : s.pending = piece :: rest) :
    DelayInv b q created (s.deliver piece rest, noted) := by
  refine h.of_not_waking hcounted h.bucket nofun rfl ?_
  have hpaid : noted.delays.length + budget q (s, noted)
      ≤ 3 * ((chunks s.delivered).length + s.pending.length) := h.paid
  rw [budget_cons (x := (s, noted)) hb hp, hp, List.length_cons] at hpaid
  refine (Nat.add_le_add_left (budget_le q _) _).trans ?_
  show noted.delays.length + 3 * rest.length
    ≤ 3 * ((chunks (s.delivered ++ [.ok piece])).length + rest.length)
  rw [chunks_append, chunks_ok, List.length_append, List.length_singleton]
  omega

/-- A piece that is refused waits for what is missing. -/
theorem delayInv_refused {noted : Noted} {amount : Nat} {piece : Bytes} {rest : List Bytes}
    (hq : 0 < q) (h : DelayInv b q created (s, noted)) (hcounted : Counted b q s.undelivered)
    (hb : s.bucket = some shared) (hp : s.pending = piece :: rest) (hpc : s.pc = .trying)
    (hthread : shared.threads s.me = .tried amount false) :
    DelayInv b q created (s.undelivered, noted) := by
  have hbefore : budget q (s, noted) = _ := budget_cons (x := (s, noted)) hb hp
  have hwaiting : max 1 (needs q (piece.length - shared.bucket.tokens))
      ≤ left q shared.bucket noted.dueAt piece.length s.state s.pc (shared.threads s.me) := by
    rw [hpc, hthread]
    cases s.state with
    | idle => exact max_le (by decide : 1 ≤ 3) (needs_le ..)
    | waiting => exact le_refl _
  have hmissing := le_max_right 1 (needs q (piece.length - shared.bucket.tokens))
  rw [undelivered_eq hp, scheduleWake_some (s := { s with state := .waiting }) hb] at hcounted ⊢
  dsimp only at hcounted ⊢
  by_cases hzero : (s.pending.map List.length).sum = 0
  · -- an empty piece is not waited for
    rw [if_pos hzero] at hcounted ⊢
    refine h.of_not_waking hcounted h.bucket nofun rfl (h.paid_le rfl rfl rfl ?_)
    have hempty : piece.length = 0 := by
      rw [hp, List.map_cons, List.sum_cons] at hzero
      omega
    rw [hbefore]
    refine (budget_cons (x := ({ s with state := .waiting, pc := .out }, noted)) hb hp).trans_le ?_
    refine Nat.add_le_add_left ?_ _
    show needs q (piece.length - _) ≤ _
    rw [hempty, Nat.zero_sub]
    exact Nat.zero_le _
  · rw [if_neg hzero] at hcounted ⊢
    have hinv := h.bucket shared hb
    have henter : enter shared.bucket .available = .clock .available :=
      enter_available hinv.limited (hinv.rate_eq.symm ▸ hq)
    have hself : ∀ {shared' : Shared},
        (Throttled.call { s with state := .waiting } shared .available .waking).bucket
          = some shared' → shared'.threads s.me = .clock .available := by
      rintro _ ⟨⟩
      exact (goto_self ..).trans henter
    refine ⟨hcounted, h.called (s := { s with state := .waiting }) hb, fun _ => rfl, ?_, ?_, ?_,
      h.short⟩
    · intro shared' hb' _ hclock
      exact absurd (hself hb') (hclock _)
    · intro shared' hb' _ v hv
      cases (hself hb').symm.trans hv
    · refine h.paid_le rfl rfl rfl ?_
      rw [hbefore]
      refine (budget_call (s := { s with state := .waiting }) hp).trans_le ?_
      exact Nat.add_le_add_left hwaiting _

/-- The delay that is armed is one of those that were left. -/
theorem delayInv_armed {noted : Noted} {avail ms : Nat} (hq : WholeMillis q)
    (h : DelayInv b q created (s, noted))
    (hcounted : Counted b q { s with timer := some ms, pc := .out })
    (hb : s.bucket = some shared) (hpc : s.pc = .waking)
    (hthread : shared.threads s.me = .saw avail)
    (hshort : ArmsShort s .result) (hfit : ArmsFit s .result) :
    DelayInv b q created ({ s with timer := some ms, pc := .out }, note s noted .result) := by
  have hinv := h.bucket shared hb
  have hwaiting : s.state = .waiting := h.waking hpc
  obtain ⟨_, piece, rest, -, hp⟩ := h.exists_front hwaiting
  obtain rfl : avail = shared.bucket.tokens := h.saw shared hb hpc avail hthread
  have hread : shared.clock ≤ noted.readAt := by
    refine h.read shared hb hpc fun op hw => ?_
    cases hw.symm.trans hthread
  have hw : waking s = some (shared.bucket, shared.bucket.tokens) := by
    simp only [waking, hb, hpc, hthread]
  have hless : needs q (piece.length - soon shared.bucket (noted.readAt + wakeMs (waitFor
        shared.bucket shared.bucket.tokens (remaining s.pending)) * 1000000)) + 1
      ≤ max 1 (needs q (piece.length - shared.bucket.tokens)) := by
    refine left_armed hq hinv.rate_eq (hinv.last_le.trans hread) ?_ ?_ ?_
    · rw [hinv.max_eq]
      exact h.counted.1.queued.small b rfl piece (by rw [hp]; simp)
    · rw [remaining, hp, List.map_cons, List.sum_cons]
      exact Nat.le_add_right ..
    · rw [← hinv.rate_eq]
      exact hfit rfl _ hw
  have harmed : armed s = some (wakeMs (waitFor shared.bucket shared.bucket.tokens
      (remaining s.pending))) := by
    rw [armed, hw, Option.map_some, waitTimeNanos_eq]
  generalize wakeMs (waitFor shared.bucket shared.bucket.tokens (remaining s.pending)) = delay
    at hless harmed
  have hnote : note s noted .result = ⟨noted.readAt, noted.readAt + delay * 1000000,
      noted.delays ++ [delay]⟩ := by
    rw [note, harmed]
  rw [hnote]
  refine ⟨hcounted, h.bucket, by rintro ⟨⟩, by rintro _ _ ⟨⟩, by rintro _ _ ⟨⟩, ?_, ?_⟩
  · have hpaid : noted.delays.length + budget q (s, noted)
        ≤ 3 * ((chunks s.delivered).length + s.pending.length) := h.paid
    have hbefore : budget q (s, noted) = _ := budget_cons (x := (s, noted)) hb hp
    have hafter : budget q ({ s with timer := some ms, pc := .out }, ⟨noted.readAt,
        noted.readAt + delay * 1000000, noted.delays ++ [delay]⟩) = _ :=
      budget_cons (x := ({ s with timer := some ms, pc := .out }, ⟨noted.readAt,
        noted.readAt + delay * 1000000, noted.delays ++ [delay]⟩)) hb hp
    dsimp only at hbefore hafter ⊢
    rw [hwaiting, hpc, left] at hbefore
    rw [hwaiting, left] at hafter
    rw [hwaiting, hafter, List.length_append, List.length_singleton]
    omega
  · intro ms' hms
    rcases List.mem_append.mp hms with hold | hnew
    · exact h.short ms' hold
    · rw [List.mem_singleton.mp hnew]
      exact armed_le h.counted.1 h.counted.2 hshort harmed

/-! ## Runs -/

/-- **One step** keeps the invariant. -/
theorem delayInv_step (hb : 1 ≤ b) (hbound : b < 2 ^ 63) (hq : WholeMillis q)
    (h : DelayInv b q created x) (hpaced : Paced x a) (hs : watch step note x a = some y) :
    DelayInv b q created y := by
  obtain ⟨hstep, hnote⟩ := watch_some hs
  have hcounted := counted_step hb _ _ _ h.counted hstep
  cases a with
  | bucket act => exact delayInv_bucket hb hbound h hpaced hs
  | poll cancelled timerPending inner =>
      obtain ⟨hpc, hpoll⟩ := of_step_poll hstep
      refine delayInv_poll hq.1 h hcounted hpc
        (polled_of_pollNext h.counted.1.queued ?_ hpoll) hnote
      rintro _ ⟨⟩
      exact hb
  | result =>
      obtain ⟨shared, hbucket, hr⟩ := of_step_result hstep
      obtain ⟨s, noted⟩ := x
      obtain ⟨t, noted'⟩ := y
      obtain rfl : noted' = note s noted .result := hnote
      obtain ⟨-, hshort, hfit⟩ := hpaced
      cases answered_of_result hr with
      | @delivered piece rest hpc hp =>
          have hsame : note s noted .result = noted := by
            rw [note, armed_of_trying hpc]
          rw [hsame]
          exact delayInv_delivered h hcounted hbucket hp
      | @refused amount hpc hthread =>
          have hsame : note s noted .result = noted := by
            rw [note, armed_of_trying hpc]
          obtain ⟨hin, -⟩ := h.counted.1.paying shared hbucket
          rw [hpc] at hin
          obtain ⟨piece, rest, hp, -⟩ := hin
          rw [hsame]
          exact delayInv_refused hq.1 h hcounted hbucket hp hpc hthread
      | armed hpc hthread => exact delayInv_armed hq h hcounted hbucket hpc hthread hshort hfit

/-- **All delays** of a stream: at most three for each piece of what the inner
    stream has produced. -/
theorem sum_delays_le (hb : 1 ≤ b) (hbound : b < 2 ^ 63) (hq : WholeMillis q)
    (h : DelayInv b q created x) (hpaced : Along (watch step note) Paced x acts)
    (hrun : run (watch step note) x acts = some y) :
    y.2.delays.sum * 1000000 ≤ 3 * pieceSum b y.1.produced * max 1000000 (b * q) := by
  have hy := along_invariant (I := DelayInv b q created)
    (fun _ _ _ h hpaced hs => delayInv_step hb hbound hq h hpaced hs) h hpaced hrun
  have hcounted := hy.counted.2.counted
  have hpaid := hy.paid
  refine (sum_mul_le hy.short).trans (Nat.mul_le_mul_right _ ?_)
  omega

/-- A chunk of `n` times the bucket is cut into `n` pieces. -/
theorem pieceCount_mul {size : Nat} (hsize : 1 ≤ size) (n : Nat) :
    pieceCount size (n * size) = max 1 n := by
  rw [pieceCount, Nat.add_sub_assoc hsize, Nat.add_comm, Nat.add_mul_div_right _ _ hsize,
    Nat.div_eq_of_lt (Nat.sub_lt hsize Nat.one_pos), Nat.zero_add]

/-- **The timer**: a delay is no longer than what the front piece needs if
    what is queued behind it costs no more than the rounding.  If all delays
    are so, and a token costs no more than a millisecond or whole
    milliseconds, then a stream that has the bucket to itself while it waits
    is delayed by at most three times the bucket for each piece. -/
theorem scheduleWake_linear {perSec : Nat} (hb : 1 ≤ b) :
    (∀ s bucket avail front rest, waking s = some (bucket, avail) → s.pending = front :: rest →
      (DelaysForFront s bucket avail front.length ↔
        Short bucket avail front.length s.pending)) ∧
    ∀ shared me acts t noted, Reaches BlitzBucket.step (BlitzBucket.start b perSec created) shared →
      b < 2 ^ 63 → WholeMillis (nanosPerSec / perSec) →
      Along (watch step note) Paced (wrap (some shared) me, fresh) acts →
      run (watch step note) (wrap (some shared) me, fresh) acts = some (t, noted) →
      noted.delays.sum * 1000000
        ≤ 3 * pieceSum b t.produced * max 1000000 (b * (nanosPerSec / perSec)) ∧
      ∀ chunk n, t.produced = [.ok chunk] → chunk.length = n * b →
        pieceSum b t.produced = max 1 n := by
  refine ⟨fun s bucket avail front rest hw _ => delaysForFront_iff hw, ?_⟩
  intro shared me acts t noted hreach hbound hq hpaced hrun
  obtain ⟨before, hbefore⟩ := hreach
  have hbucket : BucketInv b (nanosPerSec / perSec) created shared :=
    run_invariant (fun _ _ _ => bucketInv_step) (bucketInv_start (Or.inr hq.1)) hbefore
  have hsum := sum_delays_le hb hbound hq (delayInv_wrap hbucket) hpaced hrun
  refine ⟨hsum, ?_⟩
  intro chunk n hproduced hlen
  rw [hproduced, pieceSum, chunks_ok, List.map_singleton, List.sum_singleton, hlen,
    pieceCount_mul hb]

section Examples

/-- A chunk goes into a bucket of two tokens, one a millisecond: the first two
    bytes are out at once, and the next piece is refused. -/
def refusedAfterTwo (chunk : Bytes) : List Act :=
  let go : Act := .bucket (.go 0)
  let clock : Act := .bucket (.clock 0 0)
  [.poll false false (.ready (some (.ok chunk))), clock, go, go, go, .result,
   .poll false false .pending, clock, go, go, .result, clock, go, go]

/-- After the delay the rest is delivered. -/
def deliveredAfterTwo : List Act :=
  let go : Act := .bucket (.go 0)
  [.result, .poll false false .pending, .bucket (.clock 0 2000000), go, go, go, go, go, go, .result]

/-- Four bytes: the delay is for the front piece, and it is the only one. -/
theorem scheduleWake_linear_four :
    (∃ s, run step (wrap (some (BlitzBucket.start 2 1000 0)) 0)
        (refusedAfterTwo [1, 2, 3, 4]) = some s ∧
      DelaysForFront s ⟨0, 2, 1000000, 0⟩ 0 2) ∧
    ∃ t noted, run (watch step note) (wrap (some (BlitzBucket.start 2 1000 0)) 0, fresh)
        (refusedAfterTwo [1, 2, 3, 4] ++ deliveredAfterTwo) = some (t, noted) ∧
      noted.delays = [2] ∧ chunks t.delivered = [[1, 2], [3, 4]] ∧
      noted.delays.sum * 1000000 ≤ 3 * pieceSum 2 t.produced * max 1000000 (2 * 1000000) := by
  obtain ⟨hone, hall⟩ := @scheduleWake_linear 2 0 1000 (by decide)
  have hrefused : (run step (wrap (some (BlitzBucket.start 2 1000 0)) 0)
      (refusedAfterTwo [1, 2, 3, 4])).any (fun s =>
        decide (waking s = some (⟨0, 2, 1000000, 0⟩, 0) ∧ s.pending = [[3, 4]])) = true := by decide
  have hdelivered : (run (watch step note) (wrap (some (BlitzBucket.start 2 1000 0)) 0, fresh)
      (refusedAfterTwo [1, 2, 3, 4] ++ deliveredAfterTwo)).any (fun x =>
        decide (x.2.delays = [2] ∧ chunks x.1.delivered = [[1, 2], [3, 4]])) = true := by decide
  obtain ⟨s, hs, hstate⟩ := run_of_any hrefused
  obtain ⟨hw, hp⟩ := of_decide_eq_true hstate
  obtain ⟨⟨t, noted⟩, ht, hend⟩ := run_of_any hdelivered
  obtain ⟨hdelays, hchunks⟩ := of_decide_eq_true hend
  refine ⟨⟨s, hs, (hone s _ _ [3, 4] [] hw hp).mpr ?_⟩, t, noted, ht, hdelays, hchunks, ?_⟩
  · rw [hp]
    decide
  · exact (hall _ 0 _ t noted Reaches.refl (by decide) (by decide) (by decide) ht).1

/-- Six bytes: the delay is four milliseconds, where the front piece needs
    two. -/
theorem not_delaysForFront :
    ∃ s bucket avail front rest,
      run step (wrap (some (BlitzBucket.start 2 1000 0)) 0)
        (refusedAfterTwo [1, 2, 3, 4, 5, 6]) = some s ∧
      waking s = some (bucket, avail) ∧ s.pending = front :: rest ∧
      bucket.isUnlimited = false ∧ ¬ DelaysForFront s bucket avail front.length := by
  have hrefused : (run step (wrap (some (BlitzBucket.start 2 1000 0)) 0)
      (refusedAfterTwo [1, 2, 3, 4, 5, 6])).any (fun s => decide
        (waking s = some (⟨0, 2, 1000000, 0⟩, 0) ∧ s.pending = [[3, 4], [5, 6]])) = true := by
    decide
  obtain ⟨s, hs, hstate⟩ := run_of_any hrefused
  obtain ⟨hw, hp⟩ := of_decide_eq_true hstate
  refine ⟨s, _, _, [3, 4], [[5, 6]], hs, hw, hp, by decide, ?_⟩
  rw [delaysForFront_iff hw, hp]
  decide

end Examples

end BlitzThrottleDelays
