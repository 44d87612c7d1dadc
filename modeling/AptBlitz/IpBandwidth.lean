import AptBlitz.Library.Permits
import AptBlitz.ThrottleWakes

/-! # The bandwidth of an address

    All responses to one address are metered by one bucket, which
    `get_or_create_bucket` makes with a second's worth of tokens.  Any number
    of `ThrottledPermitStream`s use it, and any of them may be in a call of
    the bucket while the others are polled.

    Together they deliver no more than the bucket has given out, so a burst
    and what the time since then is worth (`ip_bandwidth`); and while none of
    them is being polled they have delivered all of it: no token is spent on
    bytes that are not sent. -/

namespace BlitzIpBandwidth

open BlitzThrottle BlitzThrottleRuns BlitzThrottleWakes Throttled Runs Permits
open BlitzBucket hiding Act step start
open BlitzBucketRuns (BucketInv Stepped stepped_of_step bucketInv_step enter_ok)
open BlitzWaitConsume (isCallOf)

/-! ## The streams of an address -/

/-- The bucket, and the streams by the threads that poll them.  A stream has
    the bucket for the time of its own steps. -/
structure Site where
  bucket : Shared
  streams : List Throttled

/-- The stream on the bucket as it is now. -/
def on (bucket : Shared) (t : Throttled) : Throttled := { t with bucket := some bucket }

/-- The steps that the thread of a stream makes: in the bucket only those of
    the calls that `poll_next` has begun. -/
def own (me : Nat) : BlitzThrottle.Act → Bool
  | .bucket (.go w) => w == me
  | .bucket (.clock w _) => w == me
  | .bucket (.call _ _) => false
  | _ => true

/-- A new stream, or a step of one. -/
inductive Act where
  /-- `wrap_response_with_permit` with the bucket of the permit -/
  | wrap
  | stream (i : Nat) (a : BlitzThrottle.Act)

/-- One step at the bucket of an IP. -/
def step (s : Site) : Act → Option Site
  | .wrap =>
      let t := wrap (some s.bucket) s.streams.length
      t.bucket.map fun bucket => ⟨bucket, s.streams ++ [t]⟩
  | .stream i a =>
      match s.streams[i]? with
      | some t =>
          if own i a then
            (BlitzThrottle.step (on s.bucket t) a).bind fun t' =>
              t'.bucket.map fun bucket => ⟨bucket, s.streams.set i t'⟩
          else none
      | none => none

/-- `get_or_create_bucket`, for an address without an entry. -/
def start (perIpBandwidth now : Nat) : Site :=
  ⟨BlitzBucket.start perIpBandwidth perIpBandwidth now, []⟩

/-- The bytes that a stream has delivered. -/
def sent (t : Throttled) : Nat := (lengths t).sum

/-- What a stream has paid for. -/
def paidFor (t : Throttled) : Nat := t.paid.sum

variable {s s' : Site} {t t' u : Throttled} {b b' : Shared} {i n r created : Nat}
  {limit : Option Nat}

/-! ## What a stream does to the bucket -/

/-- The stream `t` with the bucket `b` has become `t'` with `b'`: the other
    threads are where they were, and the bucket has given out what the stream
    has got. -/
structure Uses (n r created : Nat) (b b' : Shared) (t t' : Throttled) : Prop where
  me_eq : t'.me = t.me
  inv : BucketInv n r created b'
  others : ∀ w, w ≠ t.me → b'.threads w = b.threads w
  taken : b'.consumed + paidFor t = b.consumed + paidFor t'

theorem uses_same (h : BucketInv n r created b) (hme : t'.me = t.me) (hpaid : t'.paid = t.paid) :
    Uses n r created b b t t' := by
  refine ⟨hme, h, fun _ _ => rfl, ?_⟩
  rw [paidFor, paidFor, hpaid]

/-- A call that begins gets nothing yet: the bucket is not the unlimited
    one. -/
theorem uses_call (h : BucketInv n r created b) (hme : u.me = t.me) (hpaid : u.paid = t.paid)
    (op : Op) (pc : PollPc) :
    Uses n r created b (b.goto u.me (enter b.bucket op)) t (u.call b op pc) := by
  have hnone : success (enter b.bucket op) = [] := by
    obtain ⟨-, -, hne⟩ := enter_ok h.limited op b.clock
    rw [success.eq_def]
    split
    next n hn => exact absurd hn (hne n true)
    next => rfl
  refine ⟨hme, h.called op, fun w hw => ?_, ?_⟩
  · exact Function.update_of_ne (hme ▸ hw) ..
  · show b.consumed + paidFor t = b.consumed + (u.paid ++ success (enter b.bucket op)).sum
    rw [hnone, List.append_nil, hpaid]
    rfl

/-- `Uses`, for the bucket that the stream then has. -/
def Used (n r created : Nat) (b : Shared) (t t' : Throttled) : Prop :=
  ∃ b', t'.bucket = some b' ∧ Uses n r created b b' t t'

/-- `schedule_wake` reads the bucket and takes nothing. -/
theorem used_scheduleWake (h : BucketInv n r created b) (hb : u.bucket = some b)
    (hme : u.me = t.me) (hpaid : u.paid = t.paid) : Used n r created b t u.scheduleWake := by
  rw [scheduleWake]
  split
  next hnone => cases hnone.symm.trans hb
  next shared hshared =>
    cases hb.symm.trans hshared
    split
    · exact ⟨b, hb, uses_same h hme hpaid⟩
    · exact ⟨_, rfl, uses_call h hme hpaid _ _⟩

/-- A piece that was not delivered takes nothing. -/
theorem used_undelivered (h : BucketInv n r created b) (hb : t.bucket = some b) :
    Used n r created b t t.undelivered := by
  rw [undelivered]
  split
  · refine used_scheduleWake h hb ?_ ?_
    · rfl
    · rfl
  · split
    · exact ⟨b, hb, uses_same h rfl rfl⟩
    · exact used_scheduleWake h hb rfl rfl

/-- What a poll does before its call. -/
theorem used_polled (h : BucketInv n r created b) (hb : t.bucket = some b) (hp : Polled t t') :
    Used n r created b t t' := by
  cases hp with
  | same => exact ⟨b, hb, uses_same h rfl rfl⟩
  | ended => exact ⟨b, hb, uses_same h rfl rfl⟩
  | failed => exact ⟨b, hb, uses_same h rfl rfl⟩
  | asked hshared =>
      cases hb.symm.trans hshared
      refine ⟨_, rfl, uses_call h ?_ ?_ _ _⟩
      · rfl
      · rfl
  | received hshared =>
      cases hb.symm.trans hshared
      refine ⟨_, rfl, uses_call h ?_ ?_ _ _⟩
      · rfl
      · rfl
  | passed hnone => cases hb.symm.trans hnone

/-- What a stream does with the answer of its call. -/
theorem used_answered (h : BucketInv n r created b) (hb : t.bucket = some b)
    (hr : Answered t b t') : Used n r created b t t' := by
  cases hr with
  | delivered => exact ⟨b, hb, uses_same h rfl rfl⟩
  | refused => exact used_undelivered h hb
  | armed => exact ⟨b, hb, uses_same h rfl rfl⟩

/-- No thread comes out of a call with a success but by taking tokens. -/
theorem answered_goto {pc pc' : Pc} (h : ∀ amount, pc' ≠ .tried amount true) :
    answered pc pc' = [] := by
  rw [answered]
  split
  · rfl
  · rw [success.eq_def]
    split
    next amount => exact absurd rfl (h amount)
    next => rfl

/-- Every step but the last of a `try_consume` that succeeds gives nothing. -/
theorem uses_goto {c : Shared} {pc : Pc} (h : BucketInv n r created (c.goto t.me pc))
    (hthreads : c.threads = b.threads) (hconsumed : c.consumed = b.consumed)
    (hne : ∀ amount, pc ≠ .tried amount true) :
    Uses n r created b (c.goto t.me pc) t { t with
      bucket := some (c.goto t.me pc)
      paid := t.paid ++ answered (b.threads t.me) ((c.goto t.me pc).threads t.me) } := by
  have hself : (c.goto t.me pc).threads t.me = pc := Function.update_self ..
  refine ⟨rfl, h, fun w hw => ?_, ?_⟩
  · rw [← hthreads]
    exact Function.update_of_ne hw ..
  · show c.consumed + paidFor t = b.consumed + (t.paid ++ answered _ _).sum
    rw [hself, answered_goto hne, List.append_nil, hconsumed]
    rfl

/-- A call that takes tokens pays for them. -/
theorem uses_took {amount : Nat} (h : BucketInv n r created b)
    (hw : b.threads t.me = .casConsume amount b.bucket.tokens) :
    Uses n r created b
      ({ b.setTokens (b.bucket.tokens - amount) with consumed := b.consumed + amount }.goto t.me
        (.tried amount true)) t { t with
      bucket := some ({ b.setTokens (b.bucket.tokens - amount) with
        consumed := b.consumed + amount }.goto t.me (.tried amount true))
      paid := t.paid ++ answered (b.threads t.me)
        (({ b.setTokens (b.bucket.tokens - amount) with
          consumed := b.consumed + amount }.goto t.me (.tried amount true)).threads t.me) } := by
  have hself : ∀ {c : Shared}, (c.goto t.me (.tried amount true)).threads t.me
      = .tried amount true := Function.update_self ..
  have hgot : answered (b.threads t.me) (.tried amount true) = [amount] := by
    rw [hw]
    rfl
  refine ⟨rfl, h.took hw, fun w hne => Function.update_of_ne hne .., ?_⟩
  show b.consumed + amount + paidFor t = b.consumed + (t.paid ++ answered _ _).sum
  rw [hself, hgot, List.sum_append, List.sum_singleton, paidFor]
  omega

/-- A step of the bucket for this stream. -/
theorem used_bucket {act : BlitzBucket.Act} (h : BucketInv n r created b)
    (hown : own t.me (.bucket act) = true) (hs : BlitzBucket.step b act = some b') :
    Uses n r created b b' t { t with
      bucket := some b', paid := t.paid ++ answered (b.threads t.me) (b'.threads t.me) } := by
  have hinv := bucketInv_step h hs
  have hme : ∀ {v : Nat}, own t.me (.bucket (.go v)) = true → v = t.me := eq_of_beq
  cases stepped_of_step hs with
  | called => cases hown
  | moved hm =>
      obtain rfl := hme hown
      exact uses_goto hinv rfl rfl fun _ => BlitzBucketRuns.moves_ne_tried hm
  | @clocked v now o hw =>
      obtain rfl : v = t.me := eq_of_beq hown
      refine uses_goto hinv rfl rfl fun _ => ?_
      rintro ⟨⟩
  | won hw =>
      obtain rfl := hme hown
      exact uses_goto hinv rfl rfl fun _ => BlitzBucketRuns.credited_ne_tried
  | refilled hw =>
      obtain rfl := hme hown
      exact uses_goto hinv rfl rfl fun _ => BlitzBucketRuns.afterRefill_ne_tried
  | took hw =>
      obtain rfl := hme hown
      exact uses_took h hw

/-- **A step of a stream** takes from the bucket what the stream gets, and
    leaves the threads of the others alone. -/
theorem used_step {a : BlitzThrottle.Act} (hlimit : ∀ m, limit = some m → 1 ≤ m)
    (hsound : Sound limit t) (h : BucketInv n r created b) (hb : t.bucket = some b)
    (hown : own t.me a = true) (hs : BlitzThrottle.step t a = some t') :
    Used n r created b t t' := by
  cases a with
  | bucket act =>
      simp only [BlitzThrottle.step, hb] at hs
      split at hs
      next => cases hs
      next =>
        obtain ⟨b', hb', rfl⟩ := Option.map_eq_some_iff.mp hs
        exact ⟨b', rfl, used_bucket h hown hb'⟩
  | poll cancelled timerPending inner =>
      simp only [BlitzThrottle.step] at hs
      split at hs
      next => exact used_polled h hb (polled_of_pollNext hsound.queued hlimit hs)
      next => cases hs
  | result =>
      simp only [BlitzThrottle.step, hb] at hs
      exact used_answered h hb (answered_of_result hs)

/-! ## The invariant -/

/-- Each stream is sound with the bucket, and the bucket has given out what
    the streams have paid for. -/
structure SiteInv (n r created : Nat) (s : Site) : Prop where
  bucket : BucketInv n r created s.bucket
  me_eq : ∀ (i : Nat) (t : Throttled), s.streams[i]? = some t → t.me = i
  sound : ∀ t ∈ s.streams, Sound (some n) (on s.bucket t)
  taken : inUse paidFor s.streams = s.bucket.consumed

/-- A stream does not notice what other threads do in the bucket. -/
theorem sound_on (h : Sound limit (on b t))
    (hmax : b'.bucket.maxTokens = b.bucket.maxTokens)
    (hthread : b'.threads t.me = b.threads t.me) : Sound limit (on b' t) := by
  have hlimit : some b'.bucket.maxTokens = limit := by
    rw [hmax]
    exact h.queued.limit_eq
  refine ⟨{ h.queued with limit_eq := hlimit }, ?_⟩
  rintro _ ⟨⟩
  show InCall t.pending t.pc (b'.threads t.me) ∧
    t.paid = lengths t ++ unreturned t.pc (b'.threads t.me)
  rw [hthread]
  exact h.paying b rfl

/-- A stream that is on the bucket already. -/
theorem on_eq (hb : t.bucket = some b) : on b t = t := by
  rw [on, ← hb]

/-- The thread of a stream that is new is in no call. -/
theorem bucketInv_idle (h : BucketInv n r created b) (w : Nat) :
    BucketInv n r created (b.goto w .idle) := by
  refine ⟨h.limited, h.max_eq, h.rate_eq, h.tokens_le, h.created_le, h.last_le,
    BlitzBucketRuns.threads_goto h.threads trivial, ?_⟩
  exact h.covers.spend (Nat.add_le_add_left (Nat.zero_le _) _)

/-- A new stream. -/
theorem SiteInv.wrapped (h : SiteInv n r created s) :
    SiteInv n r created ⟨s.bucket.goto s.streams.length .idle,
      s.streams ++ [wrap (some s.bucket) s.streams.length]⟩ := by
  refine ⟨bucketInv_idle h.bucket _, fun i t ht => ?_, fun t ht => ?_, ?_⟩
  · rcases Nat.lt_or_ge i s.streams.length with hlt | hge
    · rw [List.getElem?_append_left hlt] at ht
      exact h.me_eq i t ht
    · rw [List.getElem?_append_right hge, List.getElem?_singleton] at ht
      split at ht
      next hi =>
        cases ht
        show s.streams.length = i
        omega
      next => cases ht
  · rcases List.mem_append.mp ht with hold | hnew
    · obtain ⟨j, hj, rfl⟩ := List.mem_iff_getElem.mp hold
      have hme : (s.streams[j]).me = j := h.me_eq j _ (List.getElem?_eq_getElem hj)
      refine sound_on (h.sound _ hold) rfl ?_
      rw [hme]
      exact Function.update_of_ne hj.ne ..
    · rw [List.mem_singleton.mp hnew]
      have hsound := sound_wrap (some s.bucket) s.streams.length
      rw [Option.map_some, h.bucket.max_eq] at hsound
      exact hsound
  · rw [inUse_snoc]
    exact h.taken

/-- A stream that uses the bucket as it may. -/
theorem SiteInv.stepped (h : SiteInv n r created s) (ht : s.streams[i]? = some t)
    (hu : Uses n r created s.bucket b (on s.bucket t) t') (hb : t'.bucket = some b)
    (hsound : Sound (some n) t') : SiteInv n r created ⟨b, s.streams.set i t'⟩ := by
  have hi : t.me = i := h.me_eq i t ht
  refine ⟨hu.inv, fun j u hj => ?_, fun u hmem => ?_, ?_⟩
  · rw [List.getElem?_set] at hj
    split at hj
    next hij =>
      split at hj
      next =>
        cases hj
        exact (hu.me_eq.trans hi).trans hij
      next => cases hj
    next => exact h.me_eq j u hj
  · obtain ⟨j, hj, rfl⟩ := List.mem_iff_getElem.mp hmem
    rw [List.getElem_set]
    split
    next =>
      rw [on_eq hb]
      exact hsound
    next hne =>
      have hj : j < s.streams.length := by
        rwa [List.length_set] at hj
      have hme : (s.streams[j]).me = j := h.me_eq j _ (List.getElem?_eq_getElem hj)
      refine sound_on (h.sound _ (List.getElem_mem hj)) ?_ (hu.others _ ?_)
      · rw [hu.inv.max_eq, h.bucket.max_eq]
      · show (s.streams[j]).me ≠ t.me
        rw [hme, hi]
        exact Ne.symm hne
  · have hsum := @inUse_set _ paidFor _ _ t' _ ht
    have htaken := hu.taken
    have hold := h.taken
    have hview : paidFor (on s.bucket t) = paidFor t := rfl
    show inUse paidFor (s.streams.set i t') = b.consumed
    omega

/-- **Step** of any stream. -/
theorem siteInv_step {a : Act} (hn : 1 ≤ n) (h : SiteInv n r created s)
    (hs : step s a = some s') : SiteInv n r created s' := by
  cases a with
  | wrap =>
      cases hs
      exact h.wrapped
  | stream i a =>
      simp only [step] at hs
      split at hs
      next t ht =>
        split at hs
        next hown =>
          obtain ⟨t', ht', hs⟩ := Option.bind_eq_some_iff.mp hs
          obtain ⟨b, hb, rfl⟩ := Option.map_eq_some_iff.mp hs
          have hlimit : ∀ m, some n = some m → 1 ≤ m := fun m hm => Option.some.inj hm ▸ hn
          have hsound := h.sound t (List.mem_of_getElem? ht)
          have hme : own (on s.bucket t).me a = true := (h.me_eq i t ht).symm ▸ hown
          obtain ⟨b', hb', hu⟩ := used_step hlimit hsound h.bucket rfl hme ht'
          cases hb.symm.trans hb'
          exact h.stepped ht hu hb (sound_step hlimit hsound ht')
        next => cases hs
      next => cases hs

theorem siteInv_start {perIpBandwidth now : Nat} (hlim : perIpBandwidth < u64Max) :
    SiteInv perIpBandwidth (nanosPerSec / perIpBandwidth) now (start perIpBandwidth now) := by
  refine ⟨BlitzBucketRuns.bucketInv_start (Or.inl hlim), fun i t ht => ?_, fun t ht => ?_, rfl⟩
  · cases ht
  · cases ht

/-! ## What the streams deliver -/

/-- A stream has paid for what it has delivered, and while it is not polled
    for nothing else. -/
theorem sent_le_paidFor (h : Sound limit (on b t)) :
    sent t ≤ paidFor t ∧ (t.pc = .out → sent t = paidFor t) := by
  obtain ⟨-, hpaid⟩ := h.paying b rfl
  have hpaid : t.paid = lengths t ++ unreturned t.pc (b.threads t.me) := hpaid
  have hsum : paidFor t = sent t + (unreturned t.pc (b.threads t.me)).sum := by
    rw [paidFor, hpaid, List.sum_append, sent]
  refine ⟨hsum ▸ Nat.le_add_right .., fun hpc => ?_⟩
  rw [hsum, hpc]
  rfl

theorem inUse_mono {f g : Throttled → Nat} {ts : List Throttled} (h : ∀ t ∈ ts, f t ≤ g t) :
    inUse f ts ≤ inUse g ts :=
  List.sum_le_sum h

theorem inUse_congr {f g : Throttled → Nat} {ts : List Throttled} (h : ∀ t ∈ ts, f t = g t) :
    inUse f ts = inUse g ts :=
  congrArg List.sum (List.map_congr_left h)

/-- **The cap of an address**: in every run of any number of streams on one
    bucket, the bytes that they have delivered together were all given out by
    the bucket, which gives out a second's worth at once and after that what
    the time is worth (of a bandwidth above one byte in a nanosecond,
    nothing); and while no stream is in a poll, what the bucket has given out
    has all been delivered. -/
theorem ip_bandwidth {perIpBandwidth now : Nat} {acts : List Act} (hpos : 0 < perIpBandwidth)
    (hlim : perIpBandwidth < u64Max) (hrun : run step (start perIpBandwidth now) acts = some s) :
    (s.streams.map sent).sum ≤ s.bucket.consumed ∧
      s.bucket.consumed + s.bucket.bucket.tokens ≤
        perIpBandwidth + (s.bucket.clock - now) / (nanosPerSec / perIpBandwidth) ∧
      ((∀ t ∈ s.streams, t.pc = .out) → (s.streams.map sent).sum = s.bucket.consumed) := by
  have hinv : SiteInv perIpBandwidth (nanosPerSec / perIpBandwidth) now s :=
    run_invariant (fun _ _ _ => siteInv_step hpos) (siteInv_start hlim) hrun
  refine ⟨?_, ?_, fun hout => ?_⟩
  · rw [← hinv.taken]
    exact inUse_mono fun t ht => (sent_le_paidFor (hinv.sound t ht)).1
  · refine hinv.bucket.covers.amount_le.trans (Nat.add_le_add_left ?_ _)
    rw [hinv.bucket.rate_eq]
    exact Nat.div_le_div_right (Nat.sub_le_sub_right hinv.bucket.last_le _)
  · rw [← hinv.taken]
    exact inUse_congr fun t ht => (sent_le_paidFor (hinv.sound t ht)).2 (hout t ht)

/-- Two streams on a bucket of four bytes a second: the second one has to
    wait for the first. -/
def twoStreams : List Act :=
  [.wrap, .wrap, .stream 0 (.poll false false (.ready (some (.ok [1, 2, 3])))),
    .stream 1 (.poll false false (.ready (some (.ok [4, 5])))), .stream 0 (.bucket (.clock 0 0)),
    .stream 1 (.bucket (.clock 1 0)), .stream 0 (.bucket (.go 0)), .stream 1 (.bucket (.go 1)),
    .stream 0 (.bucket (.go 0)), .stream 0 (.bucket (.go 0)), .stream 0 .result,
    .stream 1 (.bucket (.go 1)), .stream 1 .result]

theorem ip_bandwidth_twoStreams :
    ∃ s, run step (start 4 0) twoStreams = some s ∧
      (s.streams.map sent).sum ≤ s.bucket.consumed ∧
      s.bucket.consumed + s.bucket.bucket.tokens ≤
        4 + (s.bucket.clock - 0) / (nanosPerSec / 4) ∧
      ((∀ t ∈ s.streams, t.pc = .out) → (s.streams.map sent).sum = s.bucket.consumed) := by
  have hany : (run step (start 4 0) twoStreams).any (fun _ => true) = true := by decide
  obtain ⟨s, hrun, -⟩ := run_of_any hany
  exact ⟨s, hrun, ip_bandwidth (by decide) (by decide) hrun⟩

end BlitzIpBandwidth
