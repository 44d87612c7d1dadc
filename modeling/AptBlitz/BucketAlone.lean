import AptBlitz.WaitConsumeRuns

/-! # A thread that has the bucket to itself

    Once a thread has read the clock, what it will find in the bucket is
    decided, as long as no other thread takes a step: `keeps_go`.  Values that
    it loaded before may be stale; then it loads them again. -/

namespace BlitzBucketAlone

open BlitzBucketRuns
open BlitzBucket BlitzBucket.TokenBucket
open BlitzWaitConsume (tryAmount goto_self)

variable {s t u : Shared} {n w : Nat} {op : Op} {pc pc' : Pc} {bucket : TokenBucket}

/-! ## What a `try_consume` will find -/

/-- The tokens after a refill, which is not added when it is zero. -/
def refilled (bucket : TokenBucket) (refill : Nat) : Nat :=
  if refill = 0 then bucket.tokens else bucket.addRefill bucket.tokens refill

/-- The tokens that a thread will find, once it has read the clock. -/
def seen (bucket : TokenBucket) : Pc → Nat
  | .loadLast _ now => refilled bucket (bucket.refillFor (now - bucket.lastRefillNanos))
  | .casLast _ now last =>
      if bucket.lastRefillNanos = last then refilled bucket (bucket.refillFor (now - last))
      else bucket.tokens
  | .loadRefill _ refill => bucket.addRefill bucket.tokens refill
  | .casRefill _ refill _ => bucket.addRefill bucket.tokens refill
  | _ => bucket.tokens

/-- The time up to which it will have credited. -/
def lastOf (bucket : TokenBucket) : Pc → Nat
  | .loadLast _ now => max bucket.lastRefillNanos now
  | .casLast _ now last => if bucket.lastRefillNanos = last then now else bucket.lastRefillNanos
  | _ => bucket.lastRefillNanos

/-- Its answer for `n` tokens, and what it will leave. -/
def answer (bucket : TokenBucket) (n : Nat) (pc : Pc) : Bool × Nat :=
  match pc with
  | .tried _ ok => (ok, bucket.tokens)
  | pc => if n ≤ seen bucket pc then (true, seen bucket pc - n) else (false, seen bucket pc)

/-- How many steps it has to take for that, at most; the values it has loaded
    may be stale. -/
def stepsLeft (bucket : TokenBucket) : Pc → Nat
  | .loadLast _ _ => 8
  | .casLast _ _ _ => 7
  | .casRefill _ _ prev => if bucket.tokens = prev then 4 else 6
  | .loadRefill _ _ => 5
  | .casConsume _ prev => if bucket.tokens = prev then 2 else 4
  | .loadConsume _ => 3
  | .tried _ _ => 1
  | _ => 0

/-- The thread keeps to what it will find. -/
structure Keeps (s t : Shared) (w n : Nat) : Prop where
  max_eq : t.bucket.maxTokens = s.bucket.maxTokens
  answer_eq : answer t.bucket n (t.threads w) = answer s.bucket n (s.threads w)
  lastOf_eq : lastOf t.bucket (t.threads w) = lastOf s.bucket (s.threads w)
  left_lt : stepsLeft t.bucket (t.threads w) < stepsLeft s.bucket (s.threads w)
  notClock : ∀ op, t.threads w ≠ .clock op

/-- Where the thread goes next, it is to find what it was to find before. -/
theorem keeps_goto (hpc : s.threads w = pc) (hmax : u.bucket.maxTokens = s.bucket.maxTokens)
    (hanswer : answer u.bucket n pc' = answer s.bucket n pc)
    (hlast : lastOf u.bucket pc' = lastOf s.bucket pc)
    (hleft : stepsLeft u.bucket pc' < stepsLeft s.bucket pc) (hclock : ∀ op, pc' ≠ .clock op) :
    Keeps s (u.goto w pc') w n := by
  subst hpc
  have hself : (u.goto w pc').threads w = pc' := goto_self u w pc'
  have hbucket : (u.goto w pc').bucket = u.bucket := rfl
  constructor
  · exact hmax
  · rw [hself, hbucket, hanswer]
  · rw [hself, hbucket, hlast]
  · rw [hself, hbucket]
    exact hleft
  · rw [hself]
    exact hclock

/-- The load of the timestamp: no time has passed, or it is to be advanced. -/
theorem keeps_loadLast {now : Nat} (hpc : s.threads w = .loadLast (.tryConsume n) now) :
    ∃ t, goStep s w = some t ∧ Keeps s t w n := by
  by_cases htime : now - s.bucket.lastRefillNanos = 0
  · have hzero : s.bucket.refillFor (now - s.bucket.lastRefillNanos) = 0 := by
      rw [htime, refillFor, Nat.zero_div, Nat.zero_min]
    refine ⟨s.goto w (.loadConsume n), ?_, keeps_goto hpc rfl ?_ ?_ ?_ (by rintro _ ⟨⟩)⟩
    · simp only [goStep, hpc, if_pos htime, afterRefill]
    · simp only [answer, seen, refilled, hzero, if_pos]
      rfl
    · simp only [lastOf]
      omega
    · exact (by decide : 3 < 8)
  · refine ⟨s.goto w (.casLast (.tryConsume n) now s.bucket.lastRefillNanos), ?_,
      keeps_goto hpc rfl ?_ ?_ ?_ (by rintro _ ⟨⟩)⟩
    · simp only [goStep, hpc, if_neg htime]
    · simp only [answer, seen, if_pos]
      rfl
    · simp only [lastOf, if_pos]
      omega
    · exact (by decide : 7 < 8)

/-- The exchange of the timestamp; who loses it leaves the refill to others. -/
theorem keeps_casLast {now last : Nat} (hpc : s.threads w = .casLast (.tryConsume n) now last) :
    ∃ t, goStep s w = some t ∧ Keeps s t w n := by
  by_cases heq : s.bucket.lastRefillNanos = last
  · by_cases hzero : s.bucket.refillFor (now - last) = 0
    · refine ⟨(s.setLast now).goto w (.loadConsume n), ?_,
        keeps_goto hpc rfl ?_ ?_ ?_ (by rintro _ ⟨⟩)⟩
      · simp only [goStep, hpc, if_pos heq, if_pos hzero, afterRefill]
      · simp only [answer, seen, refilled, hzero, if_pos heq, if_pos]
        rfl
      · simp only [lastOf, if_pos heq]
        rfl
      · exact (by decide : 3 < 7)
    · refine ⟨(s.setLast now).goto w
          (.loadRefill (.tryConsume n) (s.bucket.refillFor (now - last))), ?_,
        keeps_goto hpc rfl ?_ ?_ ?_ (by rintro _ ⟨⟩)⟩
      · simp only [goStep, hpc, if_pos heq, if_neg hzero]
      · simp only [answer, seen, refilled, if_pos heq, if_neg hzero]
        rfl
      · simp only [lastOf, if_pos heq]
        rfl
      · exact (by decide : 5 < 7)
  · refine ⟨s.goto w (.loadConsume n), ?_, keeps_goto hpc rfl ?_ ?_ ?_ (by rintro _ ⟨⟩)⟩
    · simp only [goStep, hpc, if_neg heq, afterRefill]
    · simp only [answer, seen, if_neg heq]
      rfl
    · simp only [lastOf, if_neg heq]
    · exact (by decide : 3 < 7)

/-- The load before the refill is put in. -/
theorem keeps_loadRefill {refill : Nat} (hpc : s.threads w = .loadRefill (.tryConsume n) refill) :
    ∃ t, goStep s w = some t ∧ Keeps s t w n := by
  refine ⟨s.goto w (.casRefill (.tryConsume n) refill s.bucket.tokens), ?_,
    keeps_goto hpc rfl rfl rfl ?_ (by rintro _ ⟨⟩)⟩
  · simp only [goStep, hpc]
  · simp only [stepsLeft, if_pos]
    decide

/-- The exchange that puts the refill in, or another load. -/
theorem keeps_casRefill {refill prev : Nat}
    (hpc : s.threads w = .casRefill (.tryConsume n) refill prev) :
    ∃ t, goStep s w = some t ∧ Keeps s t w n := by
  by_cases heq : s.bucket.tokens = prev
  · subst heq
    refine ⟨(s.setTokens (s.bucket.addRefill s.bucket.tokens refill)).goto w (.loadConsume n),
      ?_, keeps_goto hpc rfl rfl rfl ?_ (by rintro _ ⟨⟩)⟩
    · simp only [goStep, hpc, if_pos, afterRefill]
    · simp only [stepsLeft, if_pos]
      decide
  · refine ⟨s.goto w (.loadRefill (.tryConsume n) refill), ?_,
      keeps_goto hpc rfl rfl rfl ?_ (by rintro _ ⟨⟩)⟩
    · simp only [goStep, hpc, if_neg heq]
    · simp only [stepsLeft, if_neg heq]
      decide

/-- The load before the tokens are taken: there are too few, or enough. -/
theorem keeps_loadConsume (hpc : s.threads w = .loadConsume n) :
    ∃ t, goStep s w = some t ∧ Keeps s t w n := by
  by_cases hle : n ≤ s.bucket.tokens
  · refine ⟨s.goto w (.casConsume n s.bucket.tokens), ?_,
      keeps_goto hpc rfl rfl rfl ?_ (by rintro _ ⟨⟩)⟩
    · simp only [goStep, hpc, if_neg (not_lt.mpr hle)]
    · simp only [stepsLeft, if_pos]
      decide
  · refine ⟨s.goto w (.tried n false), ?_, keeps_goto hpc rfl ?_ rfl ?_ (by rintro _ ⟨⟩)⟩
    · simp only [goStep, hpc, if_pos (not_le.mp hle)]
    · exact (if_neg hle).symm
    · exact (by decide : 1 < 3)

/-- The exchange that takes the tokens, or another load. -/
theorem keeps_casConsume {prev : Nat} (hpc : s.threads w = .casConsume n prev) (hle : n ≤ prev) :
    ∃ t, goStep s w = some t ∧ Keeps s t w n := by
  by_cases heq : s.bucket.tokens = prev
  · subst heq
    have hkeeps : Keeps s ({ s.setTokens (s.bucket.tokens - n) with
        consumed := s.consumed + n }.goto w (.tried n true)) w n := by
      refine keeps_goto hpc rfl ?_ rfl ?_ (by rintro _ ⟨⟩)
      · exact (if_pos hle).symm
      · simp only [stepsLeft, if_pos]
        decide
    refine ⟨_, ?_, hkeeps⟩
    simp only [goStep, hpc, if_pos]
  · refine ⟨s.goto w (.loadConsume n), ?_, keeps_goto hpc rfl rfl rfl ?_ (by rintro _ ⟨⟩)⟩
    · simp only [goStep, hpc, if_neg heq]
    · simp only [stepsLeft, if_neg heq]
      decide

/-- **One step**: a thread in `try_consume` goes on, and keeps to what it will
    find. -/
theorem keeps_go {clock : Nat} (hok : PcOk s.bucket clock (s.threads w))
    (hamount : tryAmount (s.threads w) = some n) (hclock : ∀ op, s.threads w ≠ .clock op)
    (htried : ∀ ok, s.threads w ≠ .tried n ok) : ∃ t, goStep s w = some t ∧ Keeps s t w n := by
  cases hpc : s.threads w with
  | loadLast op now =>
      cases op <;> rw [hpc] at hamount <;> cases hamount
      exact keeps_loadLast hpc
  | casLast op now last =>
      cases op <;> rw [hpc] at hamount <;> cases hamount
      exact keeps_casLast hpc
  | loadRefill op refill =>
      cases op <;> rw [hpc] at hamount <;> cases hamount
      exact keeps_loadRefill hpc
  | casRefill op refill prev =>
      cases op <;> rw [hpc] at hamount <;> cases hamount
      exact keeps_casRefill hpc
  | loadConsume amount =>
      rw [hpc] at hamount
      cases hamount
      exact keeps_loadConsume hpc
  | casConsume amount prev =>
      rw [hpc] at hamount hok
      cases hamount
      exact keeps_casConsume hpc hok.1
  | tried amount ok =>
      rw [hpc] at hamount
      cases hamount
      exact absurd hpc (htried ok)
  | clock op => exact absurd hpc (hclock op)
  | idle => rw [hpc] at hamount; cases hamount
  | loadAvailable => rw [hpc] at hamount; cases hamount
  | saw tokens => rw [hpc] at hamount; cases hamount

/-! ## At the clock -/

/-- A bucket with a rate is refilled first. -/
theorem enter_clock (hlim : bucket.isUnlimited = false) (hq : 0 < bucket.refillRateNanos) :
    enter bucket (.tryConsume n) = .clock (.tryConsume n) := by
  simp only [enter, hlim, Bool.false_eq_true, if_false, if_pos hq]

/-- A refill adds what it has to. -/
theorem refilled_eq {refill : Nat} (htokens : bucket.tokens ≤ bucket.maxTokens)
    (hwrap : bucket.tokens + refill < 2 ^ 64) :
    refilled bucket refill = min (bucket.tokens + refill) bucket.maxTokens := by
  rw [refilled]
  split
  next hzero => rw [hzero, Nat.add_zero, Nat.min_eq_left htokens]
  next => rw [addRefill, Nat.mod_eq_of_lt hwrap]

/-- The answer that a reading of the clock decides. -/
theorem answer_loadLast {op : Op} {now : Nat} :
    answer bucket n (.loadLast op now)
      = if n ≤ refilled bucket (bucket.refillFor (now - bucket.lastRefillNanos)) then
          (true, refilled bucket (bucket.refillFor (now - bucket.lastRefillNanos)) - n)
        else (false, refilled bucket (bucket.refillFor (now - bucket.lastRefillNanos))) :=
  rfl

/-- What is read before a token has been paid for. -/
theorem answer_early {op : Op} {now : Nat}
    (hearly : now - bucket.lastRefillNanos < bucket.refillRateNanos) :
    answer bucket n (.loadLast op now) = answer bucket n (.clock op) := by
  have hnone : bucket.refillFor (now - bucket.lastRefillNanos) = 0 := by
    rw [refillFor, Nat.div_eq_of_lt hearly, Nat.zero_min]
  rw [answer_loadLast, hnone, refilled, if_pos rfl]
  rfl

end BlitzBucketAlone
