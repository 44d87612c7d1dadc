import AptBlitz.ThrottleRuns

/-! # When a throttled body answers `Pending`

    A task that is told `Pending` is polled again only when something wakes
    it: the inner stream, if it was polled with the waker of this call and
    was pending, or the timer, if it was.  `Watched` is the stream with a
    record of both and of the answer of the last call.

    The answer comes from six places.  In each of them there is a wake-up,
    since the stream waits only for a piece that is not empty. -/

namespace BlitzThrottlePending

open BlitzBuffer BlitzThrottle Throttled BlitzThrottleRuns Runs
open BlitzBucketRuns (Moves stepped_of_step goto_threads)
open BlitzWaitConsume (isCallOf goto_self)
open BlitzBucket hiding Act step start

/-- What was polled with the waker of the call, and was pending. -/
inductive Wake where
  | inner
  | timer
  deriving DecidableEq, Repr

/-- The stream, and of its last call the wake-ups and the answer; there is no
    answer while the call runs. -/
structure Watched where
  stream : Throttled
  wakes : List Wake
  answer : Option (Poll (Option Item))

/-! ## `poll_next`, with its answers

    The functions of `Throttled`, and what they return. -/

namespace Watched

/-- The call returns `answer`. -/
def returns (c : Watched) (stream : Throttled) (answer : Poll (Option Item)) : Watched :=
  { c with stream, answer := some answer }

/-- The call registers `wake` for the task. -/
def wokenBy (c : Watched) (wake : Wake) : Watched :=
  { c with wakes := c.wakes ++ [wake] }

/-- `schedule_wake`, up to the call of `available`, and the `Poll::Pending`
    that follows it everywhere. -/
def scheduleWake (c : Watched) : Watched :=
  match c.stream.bucket with
  | none => c.returns { c.stream with pc := .out } .pending
  | some shared =>
      if (c.stream.pending.map List.length).sum = 0 then
        c.returns { c.stream with pc := .out } .pending
      else { c with stream := c.stream.call shared .available .waking }

/-- `self.state = ThrottleState::Waiting; self.schedule_wake(cx)`. -/
def wait (c : Watched) : Watched :=
  { c with stream := { c.stream with state := .waiting } }.scheduleWake

/-- `pop_front` with what the call registered. -/
def popFront (c : Watched) : Option Watched :=
  match c.stream.pending with
  | [] => none
  | chunk :: rest => some (c.returns (c.stream.deliver chunk rest) (.ready (some (.ok chunk))))

/-- The rest of `try_deliver` for a front chunk that was not delivered. -/
def undelivered (c : Watched) : Watched :=
  match c.stream.state with
  | .idle => c.wait
  | .waiting =>
      if c.stream.pending.isEmpty then
        c.returns { c.stream with state := .idle, pc := .out } .pending
      else c.scheduleWake

/-- `try_deliver` with what the call registered. -/
def tryDeliver (c : Watched) : Watched :=
  match c.stream.bucket, c.stream.pending with
  | some shared, front :: _ =>
      { c with stream := c.stream.call shared (.tryConsume front.length) .trying }
  | some _, [] => c.undelivered
  | none, _ => c.popFront.getD c.undelivered

/-- A poll of the inner stream that gave an item. -/
def receive (c : Watched) : Item → Option Watched
  | .error e =>
      some (c.returns { c.stream with
        produced := c.stream.produced ++ [.error e]
        delivered := c.stream.delivered ++ [.error e] } (.ready (some (.error e))))
  | .ok chunk =>
      match enqueueChunk (c.stream.bucket.map Shared.bucket) c.stream.pending chunk with
      | none => none
      | some pending =>
          let c := { c with stream := { c.stream with
            pending, produced := c.stream.produced ++ [Except.ok chunk] } }
          if c.stream.bucket.isNone then c.popFront else some c.tryDeliver

/-- `poll_next` with what the call registered. -/
def pollNext (c : Watched) (cancelled timerPending : Bool) (inner : Poll (Option Item)) :
    Option Watched :=
  if cancelled then some (c.returns { c.stream with ended := some .cancelled } (.ready none))
  else
    match c.stream.state with
    | .idle =>
        if c.stream.bucket.isSome && !c.stream.pending.isEmpty then some c.tryDeliver
        else
          match inner with
          | .pending =>
              let c := c.wokenBy .inner
              if c.stream.bucket.isSome && !c.stream.pending.isEmpty then some c.wait
              else some (c.returns c.stream .pending)
          | .ready none =>
              if c.stream.pending.isEmpty then
                some (c.returns { c.stream with ended := some .exhausted } (.ready none))
              else if c.stream.bucket.isNone then c.popFront
              else some c.wait
          | .ready (some item) => c.receive item
    | .waiting =>
        if c.stream.timer.isSome && timerPending then
          some ((c.wokenBy .timer).returns c.stream .pending)
        else some { c with stream := { c.stream with timer := none } }.tryDeliver

/-- The bucket has returned; `fresh` is whether a sleep of so many
    milliseconds is pending when it is polled for the first time. -/
def result (fresh : Nat → Bool) (c : Watched) (shared : Shared) : Option Watched :=
  match c.stream.pc, shared.threads c.stream.me with
  | .trying, .tried _ true => c.popFront
  | .trying, .tried _ false => some c.undelivered
  | .waking, .saw avail =>
      let amount := (c.stream.pending.map List.length).sum
      let ms := wakeMs (waitTimeNanos shared.bucket avail amount)
      let c := { c with stream := { c.stream with timer := some ms, pc := .out } }
      let c := if fresh ms then c.wokenBy .timer else c
      some (c.returns c.stream .pending)
  | _, _ => none

end Watched

/-- `BlitzThrottle.step` with what the call registered; `fresh ms` says that a
    timer of `ms` is pending when it is first polled. -/
def step (fresh : Nat → Bool) (c : Watched) : Act → Option Watched
  | .bucket act =>
      (BlitzThrottle.step c.stream (.bucket act)).map fun stream => { c with stream }
  | .poll cancelled timerPending inner =>
      if c.stream.pc = .out ∧ c.stream.ended = none then
        Watched.pollNext ⟨c.stream, [], none⟩ cancelled timerPending inner
      else none
  | .result =>
      match c.stream.bucket with
      | none => none
      | some shared => c.result fresh shared

/-- A stream that has not been polled. -/
def watch (stream : Throttled) : Watched := ⟨stream, [], none⟩

variable {c c' : Watched} {shared : Shared} {limit : Option Nat} {fresh : Nat → Bool} {a : Act}

/-! ## The records change nothing -/

theorem stream_scheduleWake (c : Watched) : c.scheduleWake.stream = c.stream.scheduleWake := by
  cases hb : c.stream.bucket with
  | none => simp only [Watched.scheduleWake, scheduleWake, hb, Watched.returns]
  | some shared =>
      simp only [Watched.scheduleWake, scheduleWake, hb]
      split <;> rfl

theorem stream_popFront (c : Watched) : c.popFront.map Watched.stream = c.stream.popFront := by
  cases hp : c.stream.pending with
  | nil => simp only [Watched.popFront, popFront, hp, Option.map_none]
  | cons chunk rest => simp only [Watched.popFront, popFront, hp, Option.map_some, Watched.returns]

theorem stream_undelivered (c : Watched) : c.undelivered.stream = c.stream.undelivered := by
  cases hs : c.stream.state with
  | idle =>
      simp only [Watched.undelivered, undelivered, hs]
      exact stream_scheduleWake _
  | waiting =>
      simp only [Watched.undelivered, undelivered, hs]
      split
      · rfl
      · exact stream_scheduleWake c

theorem stream_tryDeliver (c : Watched) : c.tryDeliver.stream = c.stream.tryDeliver := by
  cases hb : c.stream.bucket with
  | some shared =>
      cases hp : c.stream.pending with
      | nil =>
          simp only [Watched.tryDeliver, tryDeliver, hb, hp]
          exact stream_undelivered c
      | cons front rest => simp only [Watched.tryDeliver, tryDeliver, hb, hp]
  | none =>
      simp only [Watched.tryDeliver, tryDeliver, hb]
      rw [← stream_popFront, ← stream_undelivered]
      cases c.popFront with
      | none => rfl
      | some next => rfl

theorem stream_receive (c : Watched) (item : Item) :
    (c.receive item).map Watched.stream = c.stream.receive item := by
  cases item with
  | error e => rfl
  | ok chunk =>
      rw [Watched.receive, receive]
      cases enqueueChunk (c.stream.bucket.map Shared.bucket) c.stream.pending chunk with
      | none => rfl
      | some pending =>
          dsimp only
          split
          · exact stream_popFront _
          · exact congrArg some (stream_tryDeliver _)

theorem stream_pollNext (c : Watched) (cancelled timerPending : Bool) (inner : Poll (Option Item)) :
    (c.pollNext cancelled timerPending inner).map Watched.stream
      = c.stream.pollNext cancelled timerPending inner := by
  rw [Watched.pollNext.eq_def, pollNext.eq_def]
  cases cancelled with
  | true => rfl
  | false =>
      rw [if_neg Bool.false_ne_true, if_neg Bool.false_ne_true]
      cases hs : c.stream.state with
      | idle =>
          dsimp only
          split
          · exact congrArg some (stream_tryDeliver c)
          next hskip =>
            cases inner with
            | pending => exact congrArg (Option.map Watched.stream) (if_neg hskip)
            | ready next =>
                cases next with
                | none =>
                    dsimp only
                    rw [← hs]
                    split
                    · rfl
                    · split
                      · exact stream_popFront c
                      · exact congrArg some (stream_scheduleWake _)
                | some item => exact stream_receive c item
      | waiting =>
          dsimp only
          rw [← hs]
          split
          · rfl
          · exact congrArg some (stream_tryDeliver _)

theorem stream_result (fresh : Nat → Bool) (c : Watched) (shared : Shared) :
    (c.result fresh shared).map Watched.stream = c.stream.result shared := by
  rw [Watched.result, result]
  cases c.stream.pc with
  | out => rfl
  | trying =>
      cases shared.threads c.stream.me with
      | tried n ok =>
          cases ok with
          | true => exact stream_popFront c
          | false => exact congrArg some (stream_undelivered c)
      | _ => rfl
  | waking =>
      cases shared.threads c.stream.me with
      | saw avail =>
          dsimp only
          split <;> rfl
      | _ => rfl

/-- **The records are read by nothing**: what the stream does is a step of
    the stream without them, and each of those steps is possible here. -/
theorem stream_step (fresh : Nat → Bool) (c : Watched) (a : Act) :
    (step fresh c a).map Watched.stream = BlitzThrottle.step c.stream a := by
  cases a with
  | bucket act =>
      rw [step, Option.map_map]
      exact Option.map_id'
  | poll cancelled timerPending inner =>
      rw [step, BlitzThrottle.step]
      split
      · exact stream_pollNext _ cancelled timerPending inner
      · rfl
  | result =>
      rw [step, BlitzThrottle.step]
      cases c.stream.bucket with
      | none => rfl
      | some shared => exact stream_result fresh c shared

/-- Watching a call changes nothing of the stream. -/
theorem stream_of_step (hs : step fresh c a = some c') :
    BlitzThrottle.step c.stream a = some c'.stream := by
  rw [← stream_step fresh, hs]
  rfl

/-! ## The law -/

/-- The queue begins with a piece that is not empty. -/
def HasFront (s : Throttled) : Prop :=
  ∃ front rest, s.pending = front :: rest ∧ 0 < front.length

/-- What is promised of a poll that answers `Pending`. -/
structure Registered (c : Watched) : Prop where
  woken : c.answer = some .pending →
    .inner ∈ c.wakes ∨ .timer ∈ c.wakes ∧ c.stream.timer.isSome = true
  empty : c.answer = some .pending → c.stream.pending = [] → .inner ∈ c.wakes
  waiting : c.stream.state = .waiting → HasFront c.stream

/-- No `try_consume` of nothing has been refused. -/
def Granted (s : Throttled) : Prop :=
  ∀ shared, s.bucket = some shared → shared.threads s.me ≠ .tried 0 false

/-- The law, with what carries it through the calls of the bucket. -/
structure Kept (c : Watched) : Prop where
  registered : Registered c
  waking : c.stream.pc = .waking → c.stream.state = .waiting
  running : c.stream.pc ≠ .out → c.answer = none
  granted : Granted c.stream

/-! ## Nothing costs nothing -/

/-- No call of the bucket starts as a refusal of nothing. -/
theorem enter_ne_refused (bucket : TokenBucket) (op : Op) : enter bucket op ≠ .tried 0 false := by
  intro h
  cases op with
  | refill =>
      rw [enter] at h
      split at h
      · cases h
      · cases h
  | tryConsume amount =>
      rw [enter] at h
      split at h
      · cases h
      · split at h
        · cases h
        · cases h
  | available =>
      rw [enter] at h
      split at h
      · cases h
      · split at h
        · cases h
        · cases h

/-- No step of the bucket ends in a refusal of nothing. -/
theorem moves_ne_refused {bucket : TokenBucket} {pc pc' : Pc} (hm : Moves bucket pc pc') :
    pc' ≠ .tried 0 false := by
  cases hm with
  | noTime => exact BlitzBucketRuns.afterRefill_ne_tried
  | lostLast => exact BlitzBucketRuns.afterRefill_ne_tried
  | refuse hlt =>
      -- a bucket is never short of nothing
      rintro ⟨⟩
      exact absurd hlt (Nat.not_lt_zero _)
  | _ => exact nofun

/-- No step of any thread refuses a `try_consume` of nothing. -/
theorem ne_refused_step {next : Shared} {act : BlitzBucket.Act} {w : Nat}
    (hs : BlitzBucket.step shared act = some next) (hne : shared.threads w ≠ .tried 0 false) :
    next.threads w ≠ .tried 0 false := by
  have hgoto : ∀ {u : Shared} {v : Nat} {pc : Pc}, u.threads = shared.threads →
      pc ≠ .tried 0 false → (u.goto v pc).threads w ≠ .tried 0 false := by
    intro u v pc hu hpc
    rw [goto_threads hu]
    split
    · exact hpc
    · exact hne
  cases stepped_of_step hs with
  | called => exact hgoto rfl (enter_ne_refused _ _)
  | moved hm => exact hgoto rfl (moves_ne_refused hm)
  | clocked => exact hgoto rfl nofun
  | won => exact hgoto rfl BlitzBucketRuns.credited_ne_tried
  | refilled => exact hgoto rfl BlitzBucketRuns.afterRefill_ne_tried
  | took => exact hgoto rfl nofun

/-! ## The parts of `poll_next` -/

theorem remaining_ne_zero {s : Throttled} (h : HasFront s) :
    (s.pending.map List.length).sum ≠ 0 := by
  obtain ⟨front, rest, hp, hpos⟩ := h
  rw [hp, List.map_cons, List.sum_cons]
  omega

/-- A call that starts has refused nothing yet. -/
theorem granted_call {s : Throttled} (shared : Shared) (op : Op) (pc : PollPc) :
    Granted (s.call shared op pc) := by
  rintro _ ⟨⟩
  show (shared.goto s.me _).threads s.me ≠ _
  rw [goto_self]
  exact enter_ne_refused _ _

/-- A call that goes on in the bucket has no answer yet. -/
theorem kept_call {op : Op} {pc : PollPc} (hanswer : c.answer = none)
    (hwaits : c.stream.state = .waiting → HasFront c.stream)
    (hwaking : pc = .waking → c.stream.state = .waiting) :
    Kept { c with stream := c.stream.call shared op pc } where
  registered := by
    refine ⟨?_, ?_, hwaits⟩
    · intro hpending
      cases hanswer.symm.trans hpending
    · intro hpending
      cases hanswer.symm.trans hpending
  waking := hwaking
  running := fun _ => hanswer
  granted := granted_call shared op pc

/-- `schedule_wake` registers the timer or moves on. -/
theorem kept_scheduleWake (hb : c.stream.bucket = some shared) (hanswer : c.answer = none)
    (hstate : c.stream.state = .waiting) (hfront : HasFront c.stream) : Kept c.scheduleWake := by
  simp only [Watched.scheduleWake, hb, if_neg (remaining_ne_zero hfront)]
  exact kept_call hanswer (fun _ => hfront) (fun _ => hstate)

theorem kept_undelivered (hb : c.stream.bucket = some shared) (hanswer : c.answer = none)
    (hfront : HasFront c.stream) : Kept c.undelivered := by
  cases hs : c.stream.state with
  | idle =>
      simp only [Watched.undelivered, hs]
      exact kept_scheduleWake (c := { c with stream := { c.stream with state := .waiting } })
        hb hanswer rfl hfront
  | waiting =>
      have hne : c.stream.pending.isEmpty = false := by
        obtain ⟨front, rest, hp, -⟩ := hfront
        rw [hp]
        rfl
      simp only [Watched.undelivered, hs, hne]
      exact kept_scheduleWake hb hanswer hs hfront

/-- `try_deliver` answers, or a registered waker stands for it. -/
theorem kept_tryDeliver (hb : c.stream.bucket = some shared) (hanswer : c.answer = none)
    (hne : c.stream.pending ≠ []) (hwaits : c.stream.state = .waiting → HasFront c.stream) :
    Kept c.tryDeliver := by
  obtain ⟨front, rest, hp⟩ := List.exists_cons_of_ne_nil hne
  simp only [Watched.tryDeliver, hb, hp]
  exact kept_call hanswer hwaits nofun

/-- An answer that is not `Pending`. -/
theorem kept_ready {s : Throttled} {item : Option Item} (hpc : s.pc = .out)
    (hwaits : s.state = .waiting → HasFront s) (hgranted : Granted s) :
    Kept (c.returns s (.ready item)) where
  registered := ⟨nofun, nofun, hwaits⟩
  waking := by
    intro hwaking
    cases hpc.symm.trans hwaking
  running := by
    intro hne
    exact absurd hpc hne
  granted := hgranted

theorem kept_popFront (hgranted : Granted c.stream) (h : c.popFront = some c') : Kept c' := by
  rw [Watched.popFront] at h
  split at h
  · cases h
  · cases h
    exact kept_ready rfl nofun hgranted

/-! ## Steps -/

/-- What the inner stream is ready with goes into an empty queue. -/
theorem kept_receive {item : Item} (h : Kept c) (hsound : Sound limit c.stream)
    (hlimit : ∀ m, limit = some m → 1 ≤ m) (hpc : c.stream.pc = .out) (hanswer : c.answer = none)
    (hidle : c.stream.state = .idle) (hr : c.receive item = some c') : Kept c' := by
  have hwaits : c.stream.state ≠ .waiting := by
    rw [hidle]
    exact nofun
  cases item with
  | error e =>
      cases hr
      exact kept_ready hpc (fun hwaiting => absurd hwaiting hwaits) h.granted
  | ok chunk =>
      obtain ⟨pieces, henqueue, hne, -, -⟩ :=
        enqueueChunk_pieces c.stream.pending chunk (fits_of_limit hsound.queued hlimit)
      simp only [Watched.receive, henqueue] at hr
      split at hr
      · refine kept_popFront ?_ hr
        exact h.granted
      next hsome =>
        cases hr
        obtain ⟨shared, hb⟩ : ∃ shared, c.stream.bucket = some shared := by
          cases hb : c.stream.bucket with
          | none =>
              rw [hb] at hsome
              exact absurd rfl hsome
          | some shared => exact ⟨shared, rfl⟩
        -- there is at least one piece, so the queue is asked for
        exact kept_tryDeliver hb hanswer (List.append_ne_nil_of_right_ne_nil _ hne)
          (fun hwaiting => absurd hwaiting hwaits)

/-- With nothing in the queue the inner stream is polled. -/
theorem kept_pollInner {timerPending : Bool} {inner : Poll (Option Item)} (h : Kept c)
    (hsound : Sound limit c.stream) (hlimit : ∀ m, limit = some m → 1 ≤ m)
    (hpc : c.stream.pc = .out) (hanswer : c.answer = none) (hidle : c.stream.state = .idle)
    (hnil : c.stream.pending = []) (hp : c.pollNext false timerPending inner = some c') :
    Kept c' := by
  have hempty : c.stream.pending.isEmpty = true := List.isEmpty_iff.mpr hnil
  have hskip : (c.stream.bucket.isSome && !c.stream.pending.isEmpty) ≠ true := by
    rw [hempty, Bool.not_true, Bool.and_false]
    exact Bool.false_ne_true
  have hwaits : c.stream.state = .waiting → HasFront c.stream := by
    intro hwaiting
    cases hidle.symm.trans hwaiting
  rw [Watched.pollNext.eq_def, if_neg Bool.false_ne_true, hidle] at hp
  dsimp only at hp
  rw [if_neg hskip] at hp
  cases inner with
  | pending =>
      have hp : (if (c.stream.bucket.isSome && !c.stream.pending.isEmpty) = true then
          some (c.wokenBy .inner).wait
        else some ((c.wokenBy .inner).returns c.stream .pending)) = some c' := hp
      rw [if_neg hskip] at hp
      cases hp
      -- the inner stream has the waker
      have hmem : Wake.inner ∈ c.wakes ++ [.inner] := List.mem_append_right _ List.mem_cons_self
      refine ⟨⟨fun _ => Or.inl hmem, fun _ _ => hmem, hwaits⟩, ?_, ?_, h.granted⟩
      · intro hwaking
        cases hpc.symm.trans hwaking
      · intro hne
        exact absurd hpc hne
  | ready next =>
      cases next with
      | none =>
          dsimp only at hp
          rw [if_pos hempty] at hp
          cases hp
          exact kept_ready hpc hwaits h.granted
      | some item => exact kept_receive h hsound hlimit hpc hanswer hidle hp

/-- `poll_next` keeps the same. -/
theorem kept_pollNext {cancelled timerPending : Bool} {inner : Poll (Option Item)} (h : Kept c)
    (hsound : Sound limit c.stream) (hlimit : ∀ m, limit = some m → 1 ≤ m)
    (hpc : c.stream.pc = .out) (hanswer : c.answer = none)
    (hp : c.pollNext cancelled timerPending inner = some c') : Kept c' := by
  cases cancelled with
  | true =>
      rw [Watched.pollNext.eq_def, if_pos rfl] at hp
      cases hp
      exact kept_ready hpc h.registered.waiting h.granted
  | false =>
      cases hs : c.stream.state with
      | idle =>
          by_cases hnil : c.stream.pending = []
          · exact kept_pollInner h hsound hlimit hpc hanswer hs hnil hp
          · obtain ⟨shared, hb⟩ := hsound.queued.exists_bucket hnil
            have hask : (c.stream.bucket.isSome && !c.stream.pending.isEmpty) = true := by
              rw [hb, Option.isSome_some, Bool.true_and, Bool.not_eq_true',
                List.isEmpty_eq_false_iff]
              exact hnil
            rw [Watched.pollNext.eq_def, if_neg Bool.false_ne_true, hs] at hp
            dsimp only at hp
            rw [if_pos hask] at hp
            cases hp
            exact kept_tryDeliver hb hanswer hnil h.registered.waiting
      | waiting =>
          have hfront : HasFront c.stream := h.registered.waiting hs
          have hne : c.stream.pending ≠ [] := hsound.queued.waits hs
          obtain ⟨shared, hb⟩ := hsound.queued.exists_bucket hne
          rw [Watched.pollNext.eq_def, if_neg Bool.false_ne_true, hs] at hp
          dsimp only at hp
          split at hp
          next htimer =>
            cases hp
            -- the timer has the waker
            have hmem : Wake.timer ∈ c.wakes ++ [.timer] :=
              List.mem_append_right _ List.mem_cons_self
            rw [Bool.and_eq_true] at htimer
            refine ⟨⟨fun _ => Or.inr ⟨hmem, htimer.1⟩, fun _ hnil => absurd hnil hne,
              fun _ => hfront⟩, ?_, ?_, h.granted⟩
            · intro hwaking
              cases hpc.symm.trans hwaking
            · intro hout
              exact absurd hpc hout
          next =>
            cases hp
            exact kept_tryDeliver (c := { c with stream := { c.stream with timer := none } })
              hb hanswer hne (fun _ => hfront)

/-- What `poll_next` does with the answer of the bucket. -/
theorem kept_result (hfresh : ∀ ms, 1 ≤ ms → fresh ms = true) (h : Kept c)
    (hsound : Sound limit c.stream) (hb : c.stream.bucket = some shared)
    (hr : c.result fresh shared = some c') : Kept c' := by
  have hcall := (hsound.paying shared hb).1
  rw [Watched.result] at hr
  split at hr
  · exact kept_popFront h.granted hr
  next n hpc hthread =>
    cases hr
    have hanswer : c.answer = none := h.running (by rw [hpc]; exact nofun)
    rw [hpc, hthread] at hcall
    obtain ⟨front, rest, hp, hn⟩ := hcall
    -- what was refused is the front, and it was not nothing
    refine kept_undelivered hb hanswer ⟨front, rest, hp, Nat.pos_of_ne_zero fun hzero => ?_⟩
    rw [hzero] at hn
    cases hn
    exact h.granted shared hb hthread
  next avail hpc hthread =>
    have hstate : c.stream.state = .waiting := h.waking hpc
    have hfront : HasFront c.stream := h.registered.waiting hstate
    have hne : c.stream.pending ≠ [] := hsound.queued.waits hstate
    have hms : 1 ≤ wakeMs (waitTimeNanos shared.bucket avail
        (c.stream.pending.map List.length).sum) := by
      rw [wakeMs]
      split <;> omega
    dsimp only at hr
    rw [if_pos (hfresh _ hms)] at hr
    cases hr
    have hmem : Wake.timer ∈ c.wakes ++ [.timer] := List.mem_append_right _ List.mem_cons_self
    exact ⟨⟨fun _ => Or.inr ⟨hmem, rfl⟩, fun _ hnil => absurd hnil hne, fun _ => hfront⟩,
      nofun, fun hout => absurd rfl hout, h.granted⟩
  next => cases hr

/-- **Step** of a watched call. -/
theorem kept_step (hfresh : ∀ ms, 1 ≤ ms → fresh ms = true) (hlimit : ∀ m, limit = some m → 1 ≤ m)
    (h : Kept c) (hsound : Sound limit c.stream) (hs : step fresh c a = some c') : Kept c' := by
  cases a with
  | bucket act =>
      obtain ⟨stream, hstream, rfl⟩ := Option.map_eq_some_iff.mp hs
      simp only [BlitzThrottle.step] at hstream
      split at hstream
      next => cases hstream
      next shared hb =>
        split at hstream
        next => cases hstream
        next =>
          obtain ⟨next, hnext, rfl⟩ := Option.map_eq_some_iff.mp hstream
          refine ⟨⟨h.registered.woken, h.registered.empty, h.registered.waiting⟩, h.waking,
            h.running, ?_⟩
          rintro _ ⟨⟩
          exact ne_refused_step hnext (h.granted shared hb)
  | poll cancelled timerPending inner =>
      simp only [step] at hs
      split at hs
      next hout =>
        -- a new call: no wake-up yet, and no answer
        have hnew : Kept ⟨c.stream, [], none⟩ := by
          refine ⟨⟨?_, ?_, h.registered.waiting⟩, h.waking, fun _ => rfl, h.granted⟩
          · intro hanswer
            cases hanswer
          · intro hanswer
            cases hanswer
        exact kept_pollNext hnew hsound hlimit hout.1 rfl hs
      next => cases hs
  | result =>
      simp only [step] at hs
      split at hs
      next => cases hs
      next shared hb => exact kept_result hfresh h hsound hb hs

theorem kept_watch (bucket : Option Shared) (me : Nat) : Kept (watch (wrap bucket me)) where
  registered := ⟨nofun, nofun, nofun⟩
  waking := nofun
  running := fun _ => rfl
  granted := by
    intro shared hb
    obtain ⟨other, -, rfl⟩ := Option.map_eq_some_iff.mp hb
    show (other.goto me .idle).threads me ≠ _
    rw [goto_self]
    exact nofun

/-- **No body sleeps for ever**: in every state that polls, timers and other
    users of the bucket lead to, a poll that has answered `Pending` has left
    the waker with the inner stream or with an armed timer, and the stream
    waits only with a piece in hand. -/
theorem pending_registered (hfresh : ∀ ms, 1 ≤ ms → fresh ms = true) (bucket : Option Shared)
    (me : Nat) (acts : List Act)
    (hmax : ∀ shared, bucket = some shared → 1 ≤ shared.bucket.maxTokens) :
    Always (step fresh) Registered (watch (wrap bucket me)) acts := by
  have hlimit : ∀ m, (bucket.map fun shared => shared.bucket.maxTokens) = some m → 1 ≤ m := by
    intro m hm
    obtain ⟨shared, hb, rfl⟩ := Option.map_eq_some_iff.mp hm
    exact hmax shared hb
  refine always_of_step (I := fun c =>
      Sound (bucket.map fun shared => shared.bucket.maxTokens) c.stream ∧ Kept c)
    ?_ (fun _ h => h.2.registered) ⟨sound_wrap bucket me, kept_watch bucket me⟩
  rintro c a c' ⟨hsound, hkept⟩ hs
  exact ⟨sound_step hlimit hsound (stream_of_step hs), kept_step hfresh hlimit hkept hsound hs⟩

section Examples

/-- A sleep of a millisecond or more is pending at first. -/
def sleeps (ms : Nat) : Bool := decide (1 ≤ ms)

/-- The second piece of five bytes is refused, and a timer is armed. -/
theorem pending_registered_five :
    (run (step sleeps) (watch (wrap (some (BlitzBucket.start 2 1000 0)) 0))
        (fiveBytes.take 24)).any (fun c => c.answer == some .pending && c.wakes == [.timer]
          && c.stream.timer.isSome) = true ∧
      Always (step sleeps) Registered (watch (wrap (some (BlitzBucket.start 2 1000 0)) 0))
        fiveBytes :=
  ⟨by decide, pending_registered (fun _ hms => decide_eq_true hms)
    (some (BlitzBucket.start 2 1000 0)) 0 fiveBytes (by rintro _ ⟨⟩; decide)⟩

end Examples

end BlitzThrottlePending
