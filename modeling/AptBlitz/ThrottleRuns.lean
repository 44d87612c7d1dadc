import AptBlitz.Throttle

/-! # What a throttled body delivers

    The pieces in the queue are what has been taken from the inner stream and
    not delivered, in order and each small enough for the bucket.  While the
    stream is in `try_consume`, it asks for the piece at the front; a piece
    leaves the queue only when that call has succeeded. -/

namespace BlitzThrottleRuns

open BlitzBuffer BlitzThrottle Throttled BlitzWaitConsumeRuns Runs
open BlitzBucketRuns (Moves Stepped stepped_of_step goto_threads)
open BlitzWaitConsume (isCallOf tryAmount goto_self)
open BlitzBucket hiding Act step start

variable {chunk : Bytes} {pending : List Bytes} {max offset stop fuel : Nat}

/-! ## The splitter -/

theorem slice_append (h : offset ≤ stop) :
    slice chunk offset stop ++ chunk.drop stop = chunk.drop offset := by
  have hdrop : chunk.drop stop = (chunk.drop offset).drop (stop - offset) := by
    rw [List.drop_drop, Nat.add_sub_cancel' h]
  rw [slice, List.drop_take, hdrop, List.take_append_drop]

/-- A piece is no longer than was asked for. -/
theorem length_slice_le : (slice chunk offset stop).length ≤ stop - offset := by
  rw [slice, List.length_drop, List.length_take]
  omega

/-- **The loop ends**, on a queue with all of the chunk behind what was there,
    in pieces of at most `max` bytes. -/
theorem splitLoop_pieces (pending : List Bytes) (hmax : 1 ≤ max)
    (hfuel : chunk.length - offset < fuel) :
    ∃ pieces, splitLoop chunk max fuel offset pending = some (pending ++ pieces) ∧
      pieces.flatten = chunk.drop offset ∧ ∀ piece ∈ pieces, piece.length ≤ max := by
  induction fuel generalizing offset pending with
  | zero => exact absurd hfuel (Nat.not_lt_zero _)
  | succ fuel ih =>
      by_cases hlt : offset < chunk.length
      · -- a pass moves the offset, as `max` is not zero
        have hmoved : chunk.length - min (offset + max) chunk.length < fuel := by omega
        obtain ⟨pieces, hloop, hflat, hsmall⟩ :=
          ih (pending ++ [slice chunk offset (min (offset + max) chunk.length)]) hmoved
        refine ⟨slice chunk offset (min (offset + max) chunk.length) :: pieces, ?_, ?_, ?_⟩
        · simp only [splitLoop, if_pos hlt]
          rw [hloop, List.append_assoc, List.singleton_append]
        · rw [List.flatten_cons, hflat]
          exact slice_append (by omega)
        · rw [List.forall_mem_cons]
          refine ⟨length_slice_le.trans ?_, hsmall⟩
          omega
      · refine ⟨[], ?_, ?_, nofun⟩
        · rw [splitLoop, if_neg hlt, List.append_nil]
        · rw [List.flatten_nil, List.drop_eq_nil_of_le (not_lt.mp hlt)]

/-- **`enqueue_chunk`**: the pieces make the chunk, and none is larger than the
    bucket. -/
theorem enqueueChunk_pieces {bucket : Option TokenBucket} (pending : List Bytes) (chunk : Bytes)
    (hbucket : ∀ b, bucket = some b → 1 ≤ b.maxTokens) :
    ∃ pieces, enqueueChunk bucket pending chunk = some (pending ++ pieces) ∧
      pieces ≠ [] ∧ pieces.flatten = chunk ∧
      ∀ b, bucket = some b → ∀ piece ∈ pieces, piece.length ≤ b.maxTokens := by
  cases bucket with
  | none => exact ⟨[chunk], rfl, nofun, List.flatten_singleton, nofun⟩
  | some b =>
      by_cases hle : chunk.length ≤ b.maxTokens
      · refine ⟨[chunk], if_pos hle, nofun, List.flatten_singleton, ?_⟩
        rintro _ ⟨⟩ piece hpiece
        rw [List.mem_singleton] at hpiece
        exact hpiece ▸ hle
      · have hfuel : chunk.length - 0 < chunk.length + 1 := Nat.lt_succ_self _
        obtain ⟨pieces, hloop, hflat, hsmall⟩ := splitLoop_pieces pending (hbucket b rfl) hfuel
        refine ⟨pieces, (if_neg hle).trans hloop, ?_, hflat, ?_⟩
        · rintro rfl
          have hlen : chunk.length = 0 := (congrArg List.length hflat).symm
          omega
        · rintro _ ⟨⟩
          exact hsmall

/-! ## Contents -/

theorem content_append (items items' : List Item) :
    content (items ++ items') = content items ++ content items' :=
  List.flatMap_append

theorem chunks_append (items items' : List Item) :
    chunks (items ++ items') = chunks items ++ chunks items' :=
  List.filterMap_append

@[simp] theorem content_ok (c : Bytes) : content [.ok c] = c.map .ok :=
  List.flatMap_singleton ..

@[simp] theorem chunks_ok (c : Bytes) : chunks [.ok c] = [c] := rfl

@[simp] theorem chunks_error (e : String) : chunks [.error e] = [] := rfl

/-- The bytes of the chunks are those of the content. -/
theorem flatten_chunks (items : List Item) :
    (chunks items).flatten = (content items).filterMap Except.toOption := by
  induction items with
  | nil => rfl
  | cons item items ih =>
      cases item with
      | error e => exact ih
      | ok c =>
          have hc : (c.map Except.ok).filterMap (Except.toOption (ε := String)) = c := by
            rw [List.filterMap_map]
            exact List.filterMap_some
          show c ++ (chunks items).flatten = (c.map Except.ok ++ content items).filterMap _
          rw [List.filterMap_append, hc, ih]

/-! ## The calls of the bucket -/

section Calls

variable {shared next : Shared} {act : BlitzBucket.Act} {bucket : TokenBucket} {pc pc' : Pc}
  {w n : Nat}

/-- A step of the bucket leaves its capacity alone. -/
theorem maxTokens_step (hs : BlitzBucket.step shared act = some next) :
    next.bucket.maxTokens = shared.bucket.maxTokens := by
  cases stepped_of_step hs <;> rfl

/-- A call of `available` takes nothing. -/
theorem success_enter_available (bucket : TokenBucket) : success (enter bucket .available) = [] := by
  rw [enter]
  split
  · rfl
  · split <;> rfl

/-- A call of `available` asks for nothing. -/
theorem tryAmount_enter_available (bucket : TokenBucket) :
    tryAmount (enter bucket .available) = none := by
  rw [enter]
  split
  · rfl
  · split <;> rfl

/-- Who asks for nothing has taken nothing. -/
theorem success_of_tryAmount (h : tryAmount pc = none) : success pc = [] := by
  cases pc with
  | tried m ok => exact nomatch h
  | _ => rfl

/-- What a thread has taken, in a step of the bucket. -/
theorem success_step (hs : BlitzBucket.step shared act = some next)
    (hcall : isCallOf w act = false) :
    success (shared.threads w) ++ answered (shared.threads w) (next.threads w)
      = success (next.threads w) := by
  cases hrest : (shared.threads w).resting with
  | true =>
      rw [threads_of_resting hs hcall hrest, answered, if_pos hrest, List.append_nil]
  | false =>
      have hnone : success (shared.threads w) = [] := by
        cases hpc : shared.threads w with
        | tried m ok => rw [hpc] at hrest; exact nomatch hrest
        | _ => rfl
      rw [hnone, answered, if_neg (by rw [hrest]; exact nofun), List.nil_append]

end Calls

/-! ## The invariant -/

variable {s s' : Throttled} {limit : Option Nat} {shared : Shared} {a : Act}

/-- The lengths of what has been delivered. -/
def lengths (s : Throttled) : List Nat := (chunks s.delivered).map List.length

/-- The polling thread is in the call that `poll_next` waits for. -/
def InCall (pending : List Bytes) : PollPc → Pc → Prop
  | .out, pc => pc.resting = true
  | .trying, pc => ∃ front rest, pending = front :: rest ∧ tryAmount pc = some front.length
  | .waking, pc => tryAmount pc = none

/-- What `try_consume` has given to a `poll_next` that has not returned. -/
def unreturned : PollPc → Pc → List Nat
  | .trying, pc => success pc
  | _, _ => []

/-- The queue is what is between the inner stream and the reader. -/
structure Queued (limit : Option Nat) (s : Throttled) : Prop where
  limit_eq : s.bucket.map (fun shared => shared.bucket.maxTokens) = limit
  content_eq : content s.delivered ++ s.pending.flatten.map .ok = content s.produced
  small : ∀ m, limit = some m → ∀ piece ∈ chunks s.delivered ++ s.pending, piece.length ≤ m
  unlimited : limit = none → s.pending = []
  waits : s.state = .waiting → s.pending ≠ []
  ended : s.ended = some .exhausted → s.pending = []

/-- The limit is the capacity of the bucket. -/
theorem Queued.limit_of_some (h : Queued limit s) (hb : s.bucket = some shared) :
    some shared.bucket.maxTokens = limit := by
  have hlimit := h.limit_eq
  rwa [hb] at hlimit

/-- Without a bucket there is no limit. -/
theorem Queued.limit_of_none (h : Queued limit s) (hb : s.bucket = none) : none = limit := by
  have hlimit := h.limit_eq
  rwa [hb] at hlimit

/-- Only a stream with a bucket has pieces waiting. -/
theorem Queued.exists_bucket (h : Queued limit s) (hne : s.pending ≠ []) :
    ∃ shared, s.bucket = some shared := by
  cases hb : s.bucket with
  | none => exact absurd (h.unlimited (h.limit_of_none hb).symm) hne
  | some shared => exact ⟨shared, rfl⟩

/-- The polling thread is in the right call, and what it has consumed is what
    has been delivered. -/
def Paying (s : Throttled) : Prop :=
  ∀ shared, s.bucket = some shared →
    InCall s.pending s.pc (shared.threads s.me) ∧
      s.paid = lengths s ++ unreturned s.pc (shared.threads s.me)

/-- What a stream keeps to: its pieces are in order, and each is paid before it
    goes. -/
structure Sound (limit : Option Nat) (s : Throttled) : Prop where
  queued : Queued limit s
  paying : Paying s

/-- No call of the bucket is going on, and all that is paid is delivered. -/
structure Settled (limit : Option Nat) (s : Throttled) : Prop where
  queued : Queued limit s
  resting : ∀ shared, s.bucket = some shared → (shared.threads s.me).resting = true
  paid_eq : ∀ shared, s.bucket = some shared → s.paid = lengths s

/-- Out of its calls a stream has settled what it owes. -/
theorem Sound.settled (h : Sound limit s) (hpc : s.pc = .out) : Settled limit s := by
  refine ⟨h.queued, fun shared hb => ?_, fun shared hb => ?_⟩
  · have hcall := (h.paying shared hb).1
    rwa [hpc] at hcall
  · have hpaid := (h.paying shared hb).2
    rw [hpc] at hpaid
    exact hpaid.trans (List.append_nil _)

theorem Settled.sound (h : Settled limit s) (hpc : s.pc = .out) : Sound limit s := by
  refine ⟨h.queued, fun shared hb => ?_⟩
  rw [hpc]
  exact ⟨h.resting shared hb, (h.paid_eq shared hb).trans (List.append_nil _).symm⟩

/-- A stream that returns from its poll. -/
theorem Settled.out (h : Settled limit s) : Sound limit { s with pc := .out } :=
  Settled.sound (s := { s with pc := .out }) ⟨{ h.queued with }, h.resting, h.paid_eq⟩ rfl

/-! ## The parts of `poll_next` -/

/-- A call of the bucket leaves the pieces alone. -/
theorem Queued.call (h : Queued limit s) (hb : s.bucket = some shared) (op : Op) (pc : PollPc) :
    Queued limit (s.call shared op pc) := by
  have hlimit := h.limit_of_some hb
  exact { h with limit_eq := hlimit }

/-- A call for the front piece. -/
theorem sound_tryConsume {front : Bytes} {rest : List Bytes} (h : Settled limit s)
    (hb : s.bucket = some shared) (hp : s.pending = front :: rest) :
    Sound limit (s.call shared (.tryConsume front.length) .trying) := by
  refine ⟨h.queued.call hb _ _, ?_⟩
  rintro _ ⟨⟩
  constructor
  · exact ⟨front, rest, hp, (congrArg tryAmount (goto_self ..)).trans (tryAmount_enter ..)⟩
  · exact congrArg₂ (· ++ ·) (h.paid_eq shared hb) (congrArg success (goto_self ..).symm)

/-- A call of `available`. -/
theorem sound_available (h : Settled limit s) (hb : s.bucket = some shared) :
    Sound limit (s.call shared .available .waking) := by
  refine ⟨h.queued.call hb _ _, ?_⟩
  rintro _ ⟨⟩
  constructor
  · exact (congrArg tryAmount (goto_self ..)).trans (tryAmount_enter_available _)
  · exact congrArg₂ (· ++ ·) (h.paid_eq shared hb) (success_enter_available _)

/-- `schedule_wake`. -/
theorem sound_scheduleWake (h : Settled limit s) : Sound limit s.scheduleWake := by
  rw [scheduleWake]
  split
  · exact h.out
  next shared hb =>
    split
    · exact h.out
    · exact sound_available h hb

/-- A piece that was not delivered. -/
theorem sound_undelivered (h : Settled limit s) (hne : s.pending ≠ []) :
    Sound limit s.undelivered := by
  rw [undelivered]
  split
  · refine sound_scheduleWake ⟨{ h.queued with waits := fun _ => hne }, ?_, ?_⟩
    · exact h.resting
    · exact h.paid_eq
  · rw [if_neg (by rwa [List.isEmpty_iff])]
    exact sound_scheduleWake h

/-- `try_deliver`. -/
theorem sound_tryDeliver (h : Settled limit s) (hne : s.pending ≠ []) :
    Sound limit s.tryDeliver := by
  obtain ⟨front, rest, hp⟩ := List.exists_cons_of_ne_nil hne
  obtain ⟨shared, hb⟩ := h.queued.exists_bucket hne
  rw [tryDeliver, hb, hp]
  exact sound_tryConsume h hb hp

theorem popFront_cons {front : Bytes} {rest : List Bytes} (hp : s.pending = front :: rest) :
    s.popFront = some (s.deliver front rest) := by
  rw [popFront, hp]

theorem lengths_deliver (front : Bytes) (rest : List Bytes) :
    lengths (s.deliver front rest) = lengths s ++ [front.length] := by
  rw [lengths, deliver, chunks_append, List.map_append]
  rfl

/-- What is delivered and what is pending stay the same together. -/
theorem content_deliver (front : Bytes) (rest : List Bytes) :
    content (s.deliver front rest).delivered ++ rest.flatten.map .ok
      = content s.delivered ++ (front :: rest).flatten.map .ok := by
  rw [deliver, content_append, content_ok, List.flatten_cons, List.map_append, List.append_assoc]

/-- What is delivered and what is pending stay the same together. -/
theorem chunks_deliver (front : Bytes) (rest : List Bytes) :
    chunks (s.deliver front rest).delivered ++ rest = chunks s.delivered ++ front :: rest := by
  rw [deliver, chunks_append, chunks_ok, List.append_assoc, List.singleton_append]

/-- The piece at the front is delivered once it is paid. -/
theorem sound_deliver {front : Bytes} {rest : List Bytes} (hp : s.pending = front :: rest)
    (h : Queued limit s) (hrest : ∀ shared, s.bucket = some shared →
      (shared.threads s.me).resting = true)
    (hpaid : ∀ shared, s.bucket = some shared → s.paid = lengths s ++ [front.length]) :
    Sound limit (s.deliver front rest) := by
  refine ⟨⟨h.limit_eq, ?_, ?_, ?_, nofun, ?_⟩, fun shared hb => ⟨hrest shared hb, ?_⟩⟩
  · refine (content_deliver front rest).trans ?_
    rw [← hp]
    exact h.content_eq
  · intro m hm
    have hsmall := h.small m hm
    rwa [hp, ← chunks_deliver] at hsmall
  · intro hnone
    rw [h.unlimited hnone] at hp
    exact nomatch hp
  · intro hended
    rw [h.ended hended] at hp
    exact nomatch hp
  · refine ((hpaid shared hb).trans ?_).trans (List.append_nil _).symm
    exact (lengths_deliver front rest).symm

/-! ## Steps -/

/-- The bucket can hold a token. -/
theorem fits_of_limit (h : Queued limit s) (hlimit : ∀ m, limit = some m → 1 ≤ m) :
    ∀ b, s.bucket.map Shared.bucket = some b → 1 ≤ b.maxTokens := by
  intro b hb
  refine hlimit _ ?_
  have hmap : (s.bucket.map Shared.bucket).map TokenBucket.maxTokens = limit := by
    rw [Option.map_map]
    exact h.limit_eq
  rw [← hmap, hb, Option.map_some]

/-- With nothing pending all has been delivered. -/
theorem content_of_nil (h : Queued limit s) (hnil : s.pending = []) :
    content s.delivered = content s.produced := by
  have hall := h.content_eq
  rwa [hnil, List.flatten_nil, List.map_nil, List.append_nil] at hall

/-- No piece that was delivered is larger than the bucket. -/
theorem Queued.small_delivered (h : Queued limit s) :
    ∀ m, limit = some m → ∀ piece ∈ chunks s.delivered, piece.length ≤ m :=
  fun m hm piece hpiece => h.small m hm piece (List.mem_append_left _ hpiece)

/-- An error of the inner stream is passed on. -/
theorem sound_receive_error (h : Settled limit s) (hpc : s.pc = .out) (hnil : s.pending = [])
    (e : String) : ∃ t, s.receive (.error e) = some t ∧ Sound limit t := by
  refine ⟨_, rfl, Settled.sound
    ⟨{ h.queued with content_eq := ?_, small := ?_ }, h.resting, ?_⟩ hpc⟩
  · rw [hnil, content_append, content_append, content_of_nil h.queued hnil]
    exact List.append_nil _
  · rw [hnil, chunks_append, chunks_error, List.append_nil, List.append_nil]
    exact h.queued.small_delivered
  · intro shared hb
    refine (h.paid_eq shared hb).trans (congrArg (List.map List.length) ?_)
    rw [chunks_append, chunks_error, List.append_nil]

/-- Without a bucket a chunk goes through whole. -/
theorem sound_receive_unlimited (h : Settled limit s) (hb : s.bucket = none)
    (hnil : s.pending = []) (chunk : Bytes) :
    ∃ t, s.receive (.ok chunk) = some t ∧ Sound limit t := by
  have hqueue : enqueueChunk (s.bucket.map Shared.bucket) s.pending chunk = some [chunk] := by
    rw [hb, hnil]
    rfl
  refine ⟨_, by rw [receive, hqueue]; exact if_pos (by rw [hb]; rfl), ?_⟩
  refine ⟨⟨h.queued.limit_eq, ?_, ?_, fun _ => rfl, nofun, fun _ => rfl⟩, ?_⟩
  · refine (content_deliver chunk []).trans ?_
    show content s.delivered ++ [chunk].flatten.map .ok = content (s.produced ++ [.ok chunk])
    rw [content_append, content_ok, List.flatten_singleton, content_of_nil h.queued hnil]
  · rw [← h.queued.limit_of_none hb]
    exact nofun
  · intro shared hshared
    exact nomatch hb.symm.trans hshared

/-- With a bucket the pieces of a chunk go into the queue, and the first of
    them is asked for. -/
theorem sound_receive_limited (h : Settled limit s) (hlimit : ∀ m, limit = some m → 1 ≤ m)
    (hb : s.bucket = some shared) (hnil : s.pending = []) (hend : s.ended = none) (chunk : Bytes) :
    ∃ t, s.receive (.ok chunk) = some t ∧ Sound limit t := by
  obtain ⟨pieces, henqueue, hne, hflat, hsmall⟩ :=
    enqueueChunk_pieces s.pending chunk (fits_of_limit h.queued hlimit)
  rw [hnil, List.nil_append] at henqueue
  have hmax : some shared.bucket.maxTokens = limit := h.queued.limit_of_some hb
  rw [hb] at hsmall
  refine ⟨_, by rw [receive, hnil, henqueue]; exact if_neg (by rw [hb]; exact nofun), ?_⟩
  refine sound_tryDeliver ⟨⟨h.queued.limit_eq, ?_, ?_, ?_, fun _ => hne, ?_⟩,
    h.resting, h.paid_eq⟩ hne
  · rw [content_append, content_ok, hflat, content_of_nil h.queued hnil]
  · rintro m hm piece hpiece
    rcases List.mem_append.mp hpiece with hold | hnew
    · exact h.queued.small_delivered m hm piece hold
    · have hle := hsmall _ rfl piece hnew
      rwa [Option.some.inj (hmax.trans hm)] at hle
  · rw [← hmax]
    exact nofun
  · rw [hend]
    exact nofun

/-- With nothing in the queue the inner stream is polled. -/
theorem sound_pollInner (h : Sound limit s) (hlimit : ∀ m, limit = some m → 1 ≤ m)
    (hpc : s.pc = .out) (hend : s.ended = none) (hidle : s.state = .idle) (hnil : s.pending = [])
    (timerPending : Bool) (inner : Poll (Option Item)) :
    ∃ t, s.pollNext false timerPending inner = some t ∧ Sound limit t := by
  have hsettled : Settled limit s := h.settled hpc
  have hempty : s.pending.isEmpty = true := List.isEmpty_iff.mpr hnil
  have hskip : (s.bucket.isSome && !s.pending.isEmpty) = false := by
    rw [hempty, Bool.not_true, Bool.and_false]
  cases inner with
  | pending =>
      refine ⟨s, ?_, h⟩
      simp only [pollNext, hidle, hskip]
      rfl
  | ready next =>
      cases next with
      | none =>
          refine ⟨{ s with ended := some .exhausted }, ?_, ?_⟩
          · simp only [pollNext, hidle, hskip, if_pos hempty]
            rfl
          · -- nothing is pending, so nothing is lost by the end
            exact ⟨{ h.queued with ended := fun _ => hnil }, h.paying⟩
      | some item =>
          have hreceive : s.pollNext false timerPending (.ready (some item)) = s.receive item := by
            simp only [pollNext, hidle, hskip]
            rfl
          rw [hreceive]
          cases item with
          | error e => exact sound_receive_error hsettled hpc hnil e
          | ok chunk =>
              cases hb : s.bucket with
              | none => exact sound_receive_unlimited hsettled hb hnil chunk
              | some shared => exact sound_receive_limited hsettled hlimit hb hnil hend chunk

/-- **A poll goes through**: the splitter ends and no queue is popped that is
    empty. -/
theorem sound_pollNext (h : Sound limit s) (hlimit : ∀ m, limit = some m → 1 ≤ m)
    (hpc : s.pc = .out) (hend : s.ended = none) (cancelled timerPending : Bool)
    (inner : Poll (Option Item)) :
    ∃ t, s.pollNext cancelled timerPending inner = some t ∧ Sound limit t := by
  have hsettled : Settled limit s := h.settled hpc
  cases cancelled with
  | true => exact ⟨_, rfl, { h.queued with ended := nofun }, h.paying⟩
  | false =>
      cases hstate : s.state with
      | idle =>
          by_cases hnil : s.pending = []
          · exact sound_pollInner h hlimit hpc hend hstate hnil timerPending inner
          · obtain ⟨shared, hb⟩ := h.queued.exists_bucket hnil
            have hask : (s.bucket.isSome && !s.pending.isEmpty) = true := by
              rw [hb, Option.isSome_some, Bool.true_and, Bool.not_eq_true',
                List.isEmpty_eq_false_iff]
              exact hnil
            refine ⟨s.tryDeliver, ?_, sound_tryDeliver hsettled hnil⟩
            simp only [pollNext, hstate, hask]
            rfl
      | waiting =>
          have hne : s.pending ≠ [] := h.queued.waits hstate
          simp only [pollNext, hstate]
          by_cases htimer : (s.timer.isSome && timerPending) = true
          · exact ⟨s, by rw [if_neg nofun, if_pos htimer], h⟩
          · refine ⟨_, by rw [if_neg nofun, if_neg htimer], ?_⟩
            exact sound_tryDeliver
              ⟨{ h.queued with waits := fun _ => hne }, hsettled.resting, hsettled.paid_eq⟩ hne

/-- What `poll_next` does with the answer of the bucket. -/
theorem sound_result {t : Throttled} (h : Sound limit s) (hb : s.bucket = some shared)
    (hr : s.result shared = some t) : Sound limit t := by
  obtain ⟨hcall, hpaid⟩ := h.paying shared hb
  have honly : ∀ other, s.bucket = some other → other = shared :=
    fun other hother => Option.some.inj (hother.symm.trans hb)
  rw [result] at hr
  split at hr
  next n hpc hthread =>
    rw [hpc, hthread] at hcall hpaid
    obtain ⟨front, rest, hp, hn⟩ := hcall
    rw [popFront_cons hp] at hr
    cases hr
    -- the front is popped for the call that has just paid for it
    refine sound_deliver hp h.queued (fun other hother => ?_) fun _ _ => ?_
    · rw [honly other hother, hthread]
      rfl
    · rw [← Option.some.inj hn]
      exact hpaid
  next n hpc hthread =>
    rw [hpc, hthread] at hcall hpaid
    obtain ⟨front, rest, hp, hn⟩ := hcall
    cases hr
    -- refused: the front stays
    refine sound_undelivered ⟨h.queued, fun other hother => ?_, fun _ _ => ?_⟩ (by rw [hp]; exact nofun)
    · rw [honly other hother, hthread]
      rfl
    · exact hpaid.trans (List.append_nil _)
  next avail hpc hthread =>
    rw [hpc] at hpaid
    cases hr
    refine Settled.sound ⟨{ h.queued with }, fun other hother => ?_, fun _ _ => ?_⟩ rfl
    · show (other.threads s.me).resting = true
      rw [honly other hother, hthread]
      rfl
    · exact hpaid.trans (List.append_nil _)
  next => exact nomatch hr

/-- A step of any thread in the bucket. -/
theorem sound_bucket {act : BlitzBucket.Act} {next : Shared} (h : Sound limit s)
    (hb : s.bucket = some shared) (hcall : isCallOf s.me act = false)
    (hs : BlitzBucket.step shared act = some next) :
    Sound limit { s with bucket := some next,
                         paid := s.paid ++ answered (shared.threads s.me) (next.threads s.me) } := by
  obtain ⟨hin, hpaid⟩ := h.paying shared hb
  have hmax : some next.bucket.maxTokens = limit := by
    rw [maxTokens_step hs]
    exact h.queued.limit_of_some hb
  have hsame : tryAmount (next.threads s.me) = tryAmount (shared.threads s.me) :=
    tryAmount_step hs hcall
  have hsuccess := success_step hs hcall
  refine ⟨{ h.queued with limit_eq := hmax }, ?_⟩
  rintro _ ⟨⟩
  show InCall s.pending s.pc (next.threads s.me) ∧
    s.paid ++ answered _ _ = lengths s ++ unreturned s.pc (next.threads s.me)
  rw [hpaid]
  cases hpc : s.pc with
  | out =>
      rw [hpc] at hin
      have hrest : (shared.threads s.me).resting = true := hin
      rw [threads_of_resting hs hcall hrest, answered, if_pos hrest, List.append_nil]
      exact ⟨hin, rfl⟩
  | trying =>
      rw [hpc] at hin
      obtain ⟨front, rest, hp, hn⟩ := hin
      refine ⟨⟨front, rest, hp, hsame.trans hn⟩, ?_⟩
      -- a call that succeeds in this step is counted as not yet returned
      rw [List.append_assoc]
      exact congrArg (lengths s ++ ·) hsuccess
  | waking =>
      rw [hpc] at hin
      have hnone : tryAmount (next.threads s.me) = none := hsame.trans hin
      refine ⟨hnone, ?_⟩
      rw [success_of_tryAmount hin, success_of_tryAmount hnone] at hsuccess
      rw [List.append_assoc]
      exact congrArg (lengths s ++ ·) hsuccess

/-- **Step** of the stream or of the bucket. -/
theorem sound_step (hlimit : ∀ m, limit = some m → 1 ≤ m) (h : Sound limit s)
    (hs : step s a = some s') : Sound limit s' := by
  cases a with
  | bucket act =>
      simp only [step] at hs
      split at hs
      next => exact nomatch hs
      next shared hb =>
        split at hs
        next => exact nomatch hs
        next hcall =>
          obtain ⟨next, hnext, rfl⟩ := Option.map_eq_some_iff.mp hs
          exact sound_bucket h hb (Bool.eq_false_of_not_eq_true hcall) hnext
  | poll cancelled timerPending inner =>
      simp only [step] at hs
      split at hs
      next hout =>
        obtain ⟨t, ht, hsound⟩ :=
          sound_pollNext h hlimit hout.1 hout.2 cancelled timerPending inner
        rw [hs] at ht
        exact Option.some.inj ht ▸ hsound
      next => exact nomatch hs
  | result =>
      simp only [step] at hs
      split at hs
      next => exact nomatch hs
      next shared hb => exact sound_result h hb hs

/-- At the start. -/
theorem sound_wrap (bucket : Option Shared) (me : Nat) :
    Sound (bucket.map fun shared => shared.bucket.maxTokens) (wrap bucket me) := by
  refine ⟨⟨?_, rfl, fun _ _ => nofun, fun _ => rfl, nofun, nofun⟩, ?_⟩
  · exact Option.map_map ..
  · intro shared hshared
    obtain ⟨other, -, rfl⟩ := Option.map_eq_some_iff.mp hshared
    refine ⟨?_, rfl⟩
    show Pc.resting ((other.goto me .idle).threads me) = true
    rw [goto_self]
    rfl

/-! ## What is delivered -/

/-- What a throttled body keeps to. -/
structure Delivers (limit : Option Nat) (s : Throttled) : Prop where
  in_order : (chunks s.delivered).flatten <+: (chunks s.produced).flatten
  complete : s.ended = some .exhausted →
    (chunks s.delivered).flatten = (chunks s.produced).flatten
  small : ∀ m, limit = some m → ∀ piece ∈ chunks s.delivered, piece.length ≤ m
  /-- one success for each piece, of its length; during a poll the last one may
      not be handed out yet -/
  paid : limit.isSome = true → lengths s <+: s.paid ∧ (s.pc = .out → s.paid = lengths s)
  /-- the loop of `enqueue_chunk` ends -/
  splits : ∀ chunk, (enqueueChunk (s.bucket.map Shared.bucket) s.pending chunk).isSome = true
  /-- `poll_next` gets to its first call of the bucket, or returns -/
  goes_on : s.pc = .out → s.ended = none → ∀ cancelled timerPending inner,
    (step s (.poll cancelled timerPending inner)).isSome = true

/-- The bytes that were delivered and those that are pending are those that
    came. -/
theorem flatten_of_content (h : Queued limit s) :
    (chunks s.delivered).flatten ++ s.pending.flatten = (chunks s.produced).flatten := by
  have hpending : (s.pending.flatten.map Except.ok).filterMap (Except.toOption (ε := String))
      = s.pending.flatten := by
    rw [List.filterMap_map]
    exact List.filterMap_some
  rw [flatten_chunks, flatten_chunks, ← h.content_eq, List.filterMap_append, hpending]

/-- A sound stream delivers as it should. -/
theorem delivers_of_sound (h : Sound limit s) (hlimit : ∀ m, limit = some m → 1 ≤ m) :
    Delivers limit s where
  in_order := ⟨_, flatten_of_content h.queued⟩
  complete hended := by
    have hflat := flatten_of_content h.queued
    rwa [h.queued.ended hended, List.flatten_nil, List.append_nil] at hflat
  small := h.queued.small_delivered
  paid hsome := by
    rw [← h.queued.limit_eq, Option.isSome_map] at hsome
    obtain ⟨shared, hb⟩ := Option.isSome_iff_exists.mp hsome
    refine ⟨⟨_, ((h.paying shared hb).2).symm⟩, fun hpc => ?_⟩
    exact (h.settled hpc).paid_eq shared hb
  splits chunk := by
    obtain ⟨pieces, henqueue, -⟩ :=
      enqueueChunk_pieces s.pending chunk (fits_of_limit h.queued hlimit)
    rw [henqueue]
    rfl
  goes_on hpc hend cancelled timerPending inner := by
    obtain ⟨t, ht, -⟩ := sound_pollNext h hlimit hpc hend cancelled timerPending inner
    rw [step, if_pos ⟨hpc, hend⟩, ht]
    rfl

/-- **A throttled body is whole**: whatever the sizes of the chunks, the order
    of polls and timers and the other users of the bucket, what is delivered
    is what was produced, in order and in pieces that fit into the bucket,
    each paid by one `try_consume` of its length. -/
theorem throttled_delivers (bucket : Option Shared) (me : Nat) (acts : List Act)
    (hmax : ∀ shared, bucket = some shared → 1 ≤ shared.bucket.maxTokens) :
    Always step (Delivers (bucket.map fun shared => shared.bucket.maxTokens))
      (wrap bucket me) acts := by
  have hlimit : ∀ m, (bucket.map fun shared => shared.bucket.maxTokens) = some m → 1 ≤ m := by
    intro m hm
    obtain ⟨shared, hb, rfl⟩ := Option.map_eq_some_iff.mp hm
    exact hmax shared hb
  exact always_of_step (fun _ _ _ => sound_step hlimit)
    (fun _ h => delivers_of_sound h hlimit) (sound_wrap bucket me)

section Examples

/-- Five bytes through a bucket of two tokens, one a millisecond: two pieces
    at once and after a refill, the last after a refusal and a sleep. -/
def fiveBytes : List Act :=
  let go : Act := .bucket (.go 0)
  let clock : Nat → Act := fun now => .bucket (.clock 0 now)
  [.poll false false (.ready (some (.ok [1, 2, 3, 4, 5]))), clock 0, go, go, go, .result,
   .poll false false .pending, clock 2000000, go, go, go, go, go, go, .result,
   .poll false false .pending, clock 2000000, go, go, .result,
   clock 2000000, go, go, .result,
   .poll false true .pending,
   .poll false false .pending, clock 3000000, go, go, go, go, go, go, .result,
   .poll false false (.ready none)]

theorem throttled_delivers_five :
    (run step (wrap (some (BlitzBucket.start 2 1000 0)) 0) fiveBytes).any (fun t =>
        chunks t.delivered == [[1, 2], [3, 4], [5]] && t.paid == [2, 2, 1]
          && t.ended == some .exhausted) = true ∧
      Always step (Delivers (some 2)) (wrap (some (BlitzBucket.start 2 1000 0)) 0) fiveBytes :=
  ⟨by decide, throttled_delivers (some (BlitzBucket.start 2 1000 0)) 0 fiveBytes
    (by rintro _ ⟨⟩; decide)⟩

end Examples

end BlitzThrottleRuns
