import AptBlitz.DeliveryEnd
import AptBlitz.ThrottleRuns

/-! # What the clients receive

    The whole way of the bytes: upstream's answers, the buffer that the
    workers fill, the streams on it, and around each stream what
    `wrap_response_with_permit` makes of it, which cuts the chunks to the size
    of its bucket and hands them out as the bucket allows, or ends when the
    token is cancelled.

    A client has received a first part of what its stream has sent, and all
    of it when the response ends in order (`received_linked`).  So where
    upstream's answers were right it has received a first part of the content
    (`client_receives_content`), and all of it if the response ended in order
    and without an error, after the download had returned `Ok(())`, and the
    stream was not late (`client_receives_all`). -/

namespace BlitzClientResponses

open BlitzBuffer BlitzStream BlitzDelivery BlitzThrottleRuns StreamState Runs
open BlitzThrottle hiding slice Act step
open BlitzThrottle.Throttled
open BlitzBucket (Shared)

/-! ## Streams and their wrappers -/

/-- A delivery, and each of its streams as it is handed to hyper. -/
structure Responses (D : Type) where
  delivery : Delivery D
  wrapped : Nat → Throttled

/-- What the stream has for the next poll of it: `unfold` yields one item for
    a poll. -/
def offered (st : StreamState) (t : Throttled) : Poll (Option Item) :=
  match st.yielded[t.produced.length]? with
  | some item => .ready (some item)
  | none => if st.pc = .done then .ready none else .pending

/-- The inner stream of the wrapper is the stream. -/
def fits (st : StreamState) (t : Throttled) : BlitzThrottle.Act → Bool
  | .poll _ _ inner => decide (inner = offered st t)
  | _ => true

/-- The acts of downloads, buffer streams and throttled responses. -/
inductive Act (A : Type) where
  | source (a : A)
  | stream (i : Nat) (readAt : Except IoError Nat)
  | wrapper (i : Nat) (a : BlitzThrottle.Act)

variable {D A : Type} {src : Source D A} {s s' : Responses D} {a : Act A} {acts : List (Act A)}

/-- `make_buffer_stream` under `wrap_response_with_permit` for every
    connection, the download going on beside them. -/
def step (src : Source D A) (s : Responses D) : Act A → Option (Responses D)
  | .source a =>
      (deliveryStep src s.delivery (.source a)).map fun delivery => { s with delivery }
  | .stream i readAt =>
      -- it is polled again when its last item has been taken
      if (s.delivery.streams i).yielded.length ≤ (s.wrapped i).produced.length then
        (deliveryStep src s.delivery (.poll i readAt)).map fun delivery => { s with delivery }
      else none
  | .wrapper i a =>
      if fits (s.delivery.streams i) (s.wrapped i) a then
        (BlitzThrottle.step (s.wrapped i) a).map fun t =>
          { s with wrapped := Function.update s.wrapped i t }
      else none

/-- The download begins, and nobody has polled a response yet; each client has
    the bucket of its address, or none. -/
def openResponses (source : D) (bucket : Nat → Option Shared) : Responses D :=
  ⟨openDelivery source, fun i => wrap (bucket i) i⟩

/-- What a client has received of the body. -/
def received (t : Throttled) : Bytes := (chunks t.delivered).flatten

/-- What the download and the streams do in a step. -/
def project : Act A → Option (BlitzDelivery.Act A)
  | .source a => some (.source a)
  | .stream i readAt => some (.poll i readAt)
  | .wrapper .. => none

/-- Every read returns at least one byte. -/
def ReadsData (a : Act A) : Prop := ∀ b, project a = some b → BlitzDelivery.ReadsData b

theorem readsData_project (hdata : ∀ a ∈ acts, ReadsData a) :
    ∀ b ∈ acts.filterMap project, BlitzDelivery.ReadsData b := by
  intro b hb
  obtain ⟨a, ha, hab⟩ := List.mem_filterMap.mp hb
  exact hdata a ha b hab

/-- The delivery of a run is that of a run of its own. -/
theorem run_delivery (hrun : run (step src) s acts = some s') :
    run (deliveryStep src) s.delivery (acts.filterMap project) = some s'.delivery := by
  induction acts generalizing s with
  | nil =>
      cases hrun
      rfl
  | cons a acts ih =>
      obtain ⟨t, ht, hrest⟩ := run_cons_some hrun
      have hrest := ih hrest
      cases a with
      | source a =>
          obtain ⟨d, hd, rfl⟩ := Option.map_eq_some_iff.mp ht
          show run _ _ (.source a :: acts.filterMap project) = _
          rw [run_cons hd]
          exact hrest
      | stream i r =>
          simp only [step] at ht
          split at ht
          next =>
            obtain ⟨d, hd, rfl⟩ := Option.map_eq_some_iff.mp ht
            show run _ _ (.poll i r :: acts.filterMap project) = _
            rw [run_cons hd]
            exact hrest
          next => cases ht
      | wrapper i a =>
          simp only [step] at ht
          split at ht
          next =>
            obtain ⟨t', -, rfl⟩ := Option.map_eq_some_iff.mp ht
            exact hrest
          next => cases ht

/-! ## What a wrapper takes from its stream -/

section Wrapper

variable {t t' : Throttled} {st st' : StreamState} {limit : Option Nat}

/-- The wrapper has taken nothing from its stream, and has not ended. -/
structure Kept (t t' : Throttled) : Prop where
  produced : t'.produced = t.produced
  ended : t'.ended = t.ended

theorem kept_scheduleWake (t : Throttled) : Kept t t.scheduleWake := by
  rw [scheduleWake]
  split
  · exact ⟨rfl, rfl⟩
  · split <;> exact ⟨rfl, rfl⟩

theorem kept_undelivered (t : Throttled) : Kept t t.undelivered := by
  rw [undelivered]
  split
  · obtain ⟨hp, he⟩ := kept_scheduleWake { t with state := .waiting }
    exact ⟨hp, he⟩
  · split
    · exact ⟨rfl, rfl⟩
    · exact kept_scheduleWake t

theorem kept_popFront (h : t.popFront = some t') : Kept t t' := by
  rw [popFront] at h
  split at h
  next => cases h
  next =>
    cases h
    exact ⟨rfl, rfl⟩

/-- `try_deliver` takes nothing from the inner stream. -/
theorem kept_tryDeliver (t : Throttled) : Kept t t.tryDeliver := by
  rw [tryDeliver]
  split
  next => exact ⟨rfl, rfl⟩
  next => exact kept_undelivered t
  next =>
    cases hpop : t.popFront with
    | none => exact kept_undelivered t
    | some u => exact kept_popFront hpop

/-- The answer of the bucket takes nothing from the inner stream. -/
theorem kept_result {shared : Shared} (h : t.result shared = some t') : Kept t t' := by
  rw [result] at h
  split at h
  next => exact kept_popFront h
  next =>
    cases h
    exact kept_undelivered t
  next =>
    cases h
    exact ⟨rfl, rfl⟩
  next => cases h

/-- What a poll of the wrapper takes from a stream that answers `inner`. -/
inductive Took (t : Throttled) (inner : Poll (Option Item)) (t' : Throttled) : Prop
  | nothing (h : Kept t t')
  | item (item : Item) (hinner : inner = .ready (some item))
      (hproduced : t'.produced = t.produced ++ [item]) (hended : t'.ended = t.ended)
  | exhausted (hinner : inner = .ready none) (hproduced : t'.produced = t.produced)
  | cancelled (hproduced : t'.produced = t.produced) (hended : t'.ended = some .cancelled)

/-- `receive` takes the item it is given. -/
theorem took_receive {item : Item} (h : t.receive item = some t') :
    Took t (.ready (some item)) t' := by
  cases item with
  | error e =>
      cases h
      exact .item _ rfl rfl rfl
  | ok chunk =>
      rw [receive] at h
      split at h
      next => cases h
      next pending _ =>
        have hkept : ∀ {u : Throttled}, Kept
            { t with pending, produced := t.produced ++ [Except.ok chunk] } u →
            Took t (.ready (some (.ok chunk))) u :=
          fun hu => .item _ rfl hu.produced hu.ended
        dsimp only at h
        split at h
        next => exact hkept (kept_popFront h)
        next =>
          cases h
          exact hkept (kept_tryDeliver _)

/-- A poll takes the answer of the inner stream, or nothing. -/
theorem took_pollNext {cancelled timerPending : Bool} {inner : Poll (Option Item)}
    (h : t.pollNext cancelled timerPending inner = some t') : Took t inner t' := by
  have hwaits : Kept t { t with state := .waiting }.scheduleWake := by
    obtain ⟨hp, he⟩ := kept_scheduleWake { t with state := .waiting }
    exact ⟨hp, he⟩
  rw [pollNext.eq_def] at h
  split at h
  next =>
    cases h
    exact .cancelled rfl rfl
  next =>
    split at h
    next =>
      split at h
      next =>
        cases h
        exact .nothing (kept_tryDeliver t)
      next =>
        split at h
        next =>
          cases h
          exact .nothing ⟨rfl, rfl⟩
        next =>
          split at h
          next =>
            cases h
            exact .exhausted rfl rfl
          next =>
            split at h
            next => exact .nothing (kept_popFront h)
            next =>
              cases h
              exact .nothing hwaits
        next => exact took_receive h
    next =>
      split at h
      next =>
        cases h
        exact .nothing ⟨rfl, rfl⟩
      next =>
        cases h
        obtain ⟨hp, he⟩ := kept_tryDeliver { t with timer := none }
        exact .nothing ⟨hp, he⟩

/-! ## The two together -/

/-- The wrapper has taken a first part of the items of its stream, and all of
    them when it has ended in order; an error in the stream's state is among
    its items. -/
structure Linked (limit : Option Nat) (st : StreamState) (t : Throttled) : Prop where
  sound : Sound limit t
  failed : st.errored = true → st.Failed
  taken : t.produced <+: st.yielded
  ended : t.ended = some .exhausted → t.produced = st.yielded ∧ st.pc = .done

/-- What a poll keeps leaves the wrapper linked to its stream. -/
theorem Linked.kept (h : Linked limit st t) (hsound : Sound limit t') (hk : Kept t t') :
    Linked limit st t' := by
  refine ⟨hsound, h.failed, ?_, fun hend => ?_⟩
  · rw [hk.produced]
    exact h.taken
  · rw [hk.produced]
    rw [hk.ended] at hend
    exact h.ended hend

/-- What the stream has for its wrapper. -/
theorem offered_item {item : Item} (h : Poll.ready (some item) = offered st t) :
    st.yielded[t.produced.length]? = some item := by
  rw [offered] at h
  split at h
  next item' hitem =>
    cases h
    exact hitem
  next => split at h <;> cases h

theorem offered_over (h : Poll.ready none = offered st t) :
    st.yielded[t.produced.length]? = none ∧ st.pc = .done := by
  rw [offered] at h
  split at h
  next => cases h
  next hnone =>
    split at h
    next hdone => exact ⟨hnone, hdone⟩
    next => cases h

/-- A poll of the wrapper keeps the link. -/
theorem Linked.polled {cancelled timerPending : Bool} {inner : Poll (Option Item)}
    (h : Linked limit st t) (hopen : t.ended = none) (hsound : Sound limit t')
    (hinner : inner = offered st t) (hp : t.pollNext cancelled timerPending inner = some t') :
    Linked limit st t' := by
  obtain ⟨more, hmore⟩ := h.taken
  cases took_pollNext hp with
  | nothing hk => exact h.kept hsound hk
  | item item hready hproduced hended =>
      subst hready
      -- it is the next one of the stream's items
      have hitem := offered_item hinner
      rw [← hmore, List.getElem?_append_right (Nat.le_refl _), Nat.sub_self] at hitem
      cases more with
      | nil => cases hitem
      | cons first rest =>
          cases hitem
          refine ⟨hsound, h.failed, ⟨rest, ?_⟩, fun hend => ?_⟩
          · rw [hproduced, ← hmore, List.append_assoc, List.singleton_append]
          · rw [hended, hopen] at hend
            cases hend
  | exhausted hover hproduced =>
      subst hover
      obtain ⟨hnone, hdone⟩ := offered_over hinner
      have hall : t.produced = st.yielded :=
        h.taken.eq_of_length_le (List.getElem?_eq_none_iff.mp hnone)
      refine ⟨hsound, h.failed, hproduced ▸ h.taken, fun _ => ⟨hproduced.trans hall, hdone⟩⟩
  | cancelled hproduced hended =>
      refine ⟨hsound, h.failed, hproduced ▸ h.taken, fun hend => ?_⟩
      rw [hended] at hend
      cases hend

/-- Every act of the wrapper keeps the link. -/
theorem Linked.wrapper {a : BlitzThrottle.Act} (hlimit : ∀ m, limit = some m → 1 ≤ m)
    (h : Linked limit st t) (hfits : fits st t a = true)
    (hs : BlitzThrottle.step t a = some t') : Linked limit st t' := by
  have hsound := sound_step hlimit h.sound hs
  cases a with
  | bucket act =>
      simp only [BlitzThrottle.step] at hs
      split at hs
      next => cases hs
      next =>
        split at hs
        next => cases hs
        next =>
          obtain ⟨next, -, rfl⟩ := Option.map_eq_some_iff.mp hs
          exact h.kept hsound ⟨rfl, rfl⟩
  | poll cancelled timerPending inner =>
      simp only [BlitzThrottle.step] at hs
      split at hs
      next hout => exact h.polled hout.2 hsound (of_decide_eq_true hfits) hs
      next => cases hs
  | result =>
      simp only [BlitzThrottle.step] at hs
      split at hs
      next => cases hs
      next => exact h.kept hsound (kept_result hs)

/-- A poll of the buffer stream keeps the link. -/
theorem Linked.stream {b : SegmentsBuffer} {r : Except IoError Nat} (h : Linked limit st t)
    (hp : BlitzStream.poll b st r = some st') : Linked limit st' t := by
  have hpolled := polled_of_poll hp
  have hmore : st.yielded <+: st'.yielded := by
    cases hpolled with
    | error => exact List.prefix_append ..
    | chunk => exact List.prefix_append ..
    | _ => exact List.prefix_refl _
  refine ⟨h.sound, BlitzStreamEnd.errored_polled h.failed hpolled, h.taken.trans hmore,
    fun hend => ?_⟩
  -- a stream that is done is not polled
  rw [BlitzStream.poll] at hp
  simp only [(h.ended hend).2] at hp
  cases hp

end Wrapper

/-! ## What a client has received -/

/-- Every wrapper goes with its stream. -/
def AllLinked (limit : Nat → Option Nat) (s : Responses D) : Prop :=
  ∀ i, Linked (limit i) (s.delivery.streams i) (s.wrapped i)

variable {limit : Nat → Option Nat} {bucket : Nat → Option Shared}

/-- **Step** of the system: every wrapper stays linked to its stream. -/
theorem linked_step (hlimit : ∀ i m, limit i = some m → 1 ≤ m) (h : AllLinked limit s)
    (hs : step src s a = some s') : AllLinked limit s' := by
  intro i
  cases a with
  | source a =>
      obtain ⟨d, hd, rfl⟩ := Option.map_eq_some_iff.mp hs
      obtain ⟨-, -, rfl⟩ := Option.map_eq_some_iff.mp hd
      exact h i
  | stream j r =>
      simp only [step] at hs
      split at hs
      next =>
        obtain ⟨d, hd, rfl⟩ := Option.map_eq_some_iff.mp hs
        obtain ⟨st, hst, rfl⟩ := Option.map_eq_some_iff.mp hd
        show Linked _ (Function.update s.delivery.streams j st i) _
        by_cases hij : i = j
        · subst hij
          rw [Function.update_self]
          exact (h i).stream hst
        · rw [Function.update_of_ne hij]
          exact h i
      next => cases hs
  | wrapper j a =>
      simp only [step] at hs
      split at hs
      next hfits =>
        obtain ⟨t, ht, rfl⟩ := Option.map_eq_some_iff.mp hs
        show Linked _ _ (Function.update s.wrapped j t i)
        by_cases hij : i = j
        · subst hij
          rw [Function.update_self]
          exact (h i).wrapper (hlimit i) hfits ht
        · rw [Function.update_of_ne hij]
          exact h i
      next => cases hs

/-- The capacity of each client's bucket. -/
def capacity (bucket : Nat → Option Shared) (i : Nat) : Option Nat :=
  (bucket i).map fun shared => shared.bucket.maxTokens

/-- **Run** of the system. -/
theorem linked_run {d : D} (hbucket : ∀ i m, capacity bucket i = some m → 1 ≤ m)
    (hrun : run (step src) (openResponses d bucket) acts = some s) :
    AllLinked (capacity bucket) s := by
  refine run_invariant (fun _ _ _ => linked_step hbucket) (fun i => ?_) hrun
  refine ⟨sound_wrap (bucket i) i, fun h => ?_, List.nil_prefix, fun h => ?_⟩
  · cases h
  · cases h

/-- What a stream sent is the concatenation of its chunks. -/
theorem sent_eq_chunks (st : StreamState) : st.sent = (chunks st.yielded).flatten := by
  rw [sent]
  induction st.yielded with
  | nil => rfl
  | cons item items ih =>
      rw [List.flatMap_cons, ih]
      cases item <;> rfl

/-- The errors are part of the content. -/
theorem error_mem_content {e : String} {items : List Item} :
    Except.error e ∈ content items ↔ Except.error e ∈ items := by
  rw [content, List.mem_flatMap]
  constructor
  · rintro ⟨item, hitem, hmem⟩
    cases item with
    | error e' =>
        obtain rfl : e = e' := Except.error.inj (List.mem_singleton.mp hmem)
        exact hitem
    | ok chunk =>
        obtain ⟨c, -, hc⟩ := List.mem_map.mp hmem
        cases hc
  · exact fun hmem => ⟨_, hmem, List.mem_singleton.mpr rfl⟩

/-- **A client and its stream**: the client has received a first part of what
    the stream has sent; all of it if the response has ended in order, and the
    stream is done then, and has failed only if the client got the error. -/
theorem Linked.received {st : StreamState} {t : Throttled} {limit : Option Nat}
    (h : Linked limit st t) :
    received t <+: st.sent ∧ (t.ended = some .exhausted →
      received t = st.sent ∧ st.pc = .done ∧
        (st.errored = true → ∃ e, Except.error e ∈ t.delivered)) := by
  have hflat := flatten_of_content h.sound.queued
  have hprefix : (chunks t.produced).flatten <+: st.sent := by
    obtain ⟨more, hmore⟩ := h.taken
    rw [sent_eq_chunks, ← hmore, chunks_append, List.flatten_append]
    exact List.prefix_append ..
  refine ⟨List.IsPrefix.trans ⟨_, hflat⟩ hprefix, fun hend => ?_⟩
  obtain ⟨hall, hdone⟩ := h.ended hend
  have hnil := h.sound.queued.ended hend
  have hcontent := content_of_nil h.sound.queued hnil
  rw [hnil, List.flatten_nil, List.append_nil, hall, ← sent_eq_chunks] at hflat
  refine ⟨hflat, hdone, fun he => ?_⟩
  obtain ⟨msg, hmsg⟩ := h.failed he
  rw [← hall, ← error_mem_content, ← hcontent] at hmsg
  exact ⟨msg, error_mem_content.mp hmsg⟩

/-! ## Over HTTP -/

section Http

open BlitzDownloader BlitzDownloaderResults BlitzDownloadedFile BlitzDeliveredBodies BlitzTransfers
open BlitzDeliveryEnd WrittenBytes BlitzStreamRuns BlitzCompletion
open BlitzDownloader hiding Act step

variable {n totalSize : Nat} {file content : Bytes} {s t : Responses Download}
  {acts more : List (Act HttpAct)}

/-- Upstream's last answers for the ready segments began with the bytes of
    `content` there. -/
def Answered (content : Bytes) (d : Download) : Prop :=
  ∀ id seg t, d.buf.segments[id]? = some seg → seg.state = .ready →
    lastTransfer id d.log = some t →
    t.body.take (seg.end - seg.start) = slice content seg.start seg.end

/-- What each stream of a download has sent. -/
theorem delivery_of_run (hfile : file.length = totalSize) (hdata : ∀ a ∈ acts, ReadsData a)
    (hrun : run (step httpSource) (openResponses (start n totalSize file) bucket) acts = some s) :
    FileRunInv totalSize file s.delivery.source ∧
      ∀ i, Sending s.delivery.source.buf (s.delivery.streams i) :=
  delivery_run http_reliable
    ⟨runInv_start, bufferInv_view_start hfile, BlitzFileBytes.fileInv_start⟩
    (readsData_project hdata) (run_delivery hrun)

/-- A stream of a right download sends a prefix of the content. -/
theorem sent_within_content {d : Download} {st : StreamState} (hinv : FileRunInv totalSize file d)
    (h : Sending d.buf st) (hord : FileOrder d.buf) (hright : Answered content d) :
    st.sent <+: content := by
  refine h.sent_within hord (fun id seg hseg => http_reliable.within _ id seg hinv hseg)
    fun id seg hseg hready => ?_
  obtain ⟨t, ht, hfilled, hslice⟩ := hinv.ready_slice hseg hready
  rw [hslice, hfilled.first_bytes]
  exact hright id seg t hseg hready ht

/-- **From upstream to the client**: in every run of a download, the streams
    on its buffer and their wrappers, whatever the workers, the reads, the
    buckets of the clients and their other users do, and in every state of it
    in which the segments vector is in file order and upstream's last answers
    began with the bytes of `content`, every client has received a first part
    of `content`. -/
theorem client_receives_content (hfile : file.length = totalSize)
    (hdata : ∀ a ∈ acts, ReadsData a) (hbucket : ∀ i m, capacity bucket i = some m → 1 ≤ m)
    (hrun : run (step httpSource) (openResponses (start n totalSize file) bucket) acts = some s)
    (hord : FileOrder s.delivery.source.buf) (hright : Answered content s.delivery.source)
    (i : Nat) :
    received (s.wrapped i) <+: content := by
  obtain ⟨hinv, hsending⟩ := delivery_of_run hfile hdata hrun
  exact (linked_run hbucket hrun i).received.1.trans
    (sent_within_content hinv (hsending i) hord hright)

/-- Every client has a bucket of one byte. -/
def oneToken (_ : Nat) : Option Shared := some (BlitzBucket.start 1 1 0)

theorem capacity_oneToken (i m : Nat) (h : capacity oneToken i = some m) : 1 ≤ m := by
  cases h
  exact Nat.le_refl 1

/-- The download of one byte. -/
def oneByteDown : List (Act HttpAct) := oneByte.map fun a => .source (.download a)

/-- Stream 0 reads the byte, and its wrapper pays for it and delivers it. -/
def delivers : List (Act HttpAct) :=
  List.replicate 6 (.stream 0 (.ok 1)) ++
    [.wrapper 0 (.poll false false (.ready (some (.ok [7])))), .wrapper 0 (.bucket (.clock 0 0)),
      .wrapper 0 (.bucket (.go 0)), .wrapper 0 (.bucket (.go 0)), .wrapper 0 (.bucket (.go 0)),
      .wrapper 0 .result]

/-- Stream 0 ends, and with it the response. -/
def ends : List (Act HttpAct) :=
  List.replicate 9 (.stream 0 (.ok 1)) ++ [.wrapper 0 (.poll false false (.ready none))]

theorem readsData_oneByteDown : ∀ a ∈ oneByteDown, ReadsData a := by
  rintro a ha b hab j r rfl
  obtain ⟨c, -, rfl⟩ := List.mem_map.mp ha
  cases hab

theorem readsData_stream {k : Nat} {as : List (Act HttpAct)}
    (h : ∀ a ∈ as, ∃ i w, a = .wrapper i w) :
    ∀ a ∈ List.replicate k (.stream 0 (.ok 1)) ++ as, ReadsData a := by
  rintro a ha b hab j r rfl
  rcases List.mem_append.mp ha with hstream | hwrapper
  · rw [(List.mem_replicate.mp hstream).2] at hab
    cases hab
    exact ⟨0, rfl⟩
  · obtain ⟨i, w, rfl⟩ := h a hwrapper
    cases hab

/-- The download is of one byte, and the response for it began with 7. -/
def broughtSeven (d : Download) : Bool :=
  decide (d.buf.segments = [⟨0, 1, .ready⟩] ∧
    (lastTransfer 0 d.log).map BlitzTransfers.Transfer.body = some [7, 8])

theorem answered_of_broughtSeven {d : Download} (h : broughtSeven d = true) :
    FileOrder d.buf ∧ Answered [7] d := by
  obtain ⟨hsegs, hbody⟩ := of_decide_eq_true h
  constructor
  · rw [fileOrder_iff, SegmentsBuffer.ranges, hsegs]
    exact ⟨1, rfl, rfl⟩
  · intro id seg t hseg _ ht
    rw [hsegs] at hseg
    cases id with
    | zero =>
        cases hseg
        rw [ht] at hbody
        rw [Option.some.inj hbody]
        rfl
    | succ id => cases hseg

theorem readsData_delivers : ∀ a ∈ delivers, ReadsData a := by
  refine readsData_stream fun b hb => ?_
  simp only [List.mem_cons, List.not_mem_nil, or_false] at hb
  rcases hb with rfl | rfl | rfl | rfl | rfl | rfl <;> exact ⟨_, _, rfl⟩

theorem readsData_ends : ∀ a ∈ ends, ReadsData a :=
  readsData_stream fun _ hb => ⟨_, _, List.mem_singleton.mp hb⟩

theorem client_receives_content_oneByte :
    ∃ s, run (step httpSource) (openResponses (start 1 1 [0]) oneToken) (oneByteDown ++ delivers)
        = some s ∧ received (s.wrapped 0) <+: [7] := by
  have hany : (run (step httpSource) (openResponses (start 1 1 [0]) oneToken)
      (oneByteDown ++ delivers)).any
      (fun s => broughtSeven s.delivery.source && decide (received (s.wrapped 0) = [7]))
        = true := by
    decide
  obtain ⟨s, hrun, hs⟩ := run_of_any hany
  obtain ⟨hord, hright⟩ := answered_of_broughtSeven (Bool.and_eq_true_iff.mp hs).1
  have hlen : ([0] : Bytes).length = 1 := rfl
  have hdata : ∀ a ∈ oneByteDown ++ delivers, ReadsData a := fun a ha =>
    (List.mem_append.mp ha).elim (readsData_oneByteDown a) (readsData_delivers a)
  exact ⟨s, hrun, client_receives_content hlen hdata capacity_oneToken hrun hord hright 0⟩

/-- **All of it**: where the download has returned `Ok(())`, and a stream that
    was open and not late then has ended with its response in order and
    without an error, its client has received `content`. -/
theorem client_receives_all (hfile : file.length = totalSize) (hpos : 0 < totalSize)
    (hcontent : content.length = totalSize) (hdata : ∀ a ∈ acts, ReadsData a)
    (hdata' : ∀ a ∈ more, ReadsData a) (hbucket : ∀ i m, capacity bucket i = some m → 1 ≤ m)
    (hrun : run (step httpSource) (openResponses (start n totalSize file) bucket) acts = some s)
    (hok : s.delivery.source.coord = .returned (.ok ()))
    (hmore : run (step httpSource) s more = some t)
    (hord : FileOrder t.delivery.source.buf) (hright : Answered content t.delivery.source) (i : Nat)
    (hopen : (s.delivery.streams i).pc ≠ .done)
    (hlate : ¬ Late s.delivery.source.buf (s.delivery.streams i))
    (hend : (t.wrapped i).ended = some .exhausted)
    (hnoErr : ∀ e, Except.error e ∉ (t.wrapped i).delivered) :
    received (t.wrapped i) = content := by
  have hall := run_append hrun hmore
  have hdataAll : ∀ a ∈ acts ++ more, ReadsData a := fun a ha =>
    (List.mem_append.mp ha).elim (hdata a) (hdata' a)
  obtain ⟨hinv, hsending⟩ := delivery_of_run hfile hdata hrun
  obtain ⟨hinv', hsending'⟩ := delivery_of_run hfile hdataAll hall
  obtain ⟨hgot, hdone, herr⟩ := (linked_run hbucket hall i).received.2 hend
  have hwell : (t.delivery.streams i).errored = false := by
    cases he : (t.delivery.streams i).errored with
    | false => rfl
    | true =>
        obtain ⟨e, hmem⟩ := herr he
        exact absurd hmem (hnoErr e)
  obtain ⟨-, -, hwhole⟩ := (closed_http hpos).run ⟨⟨hinv, hok⟩, hsending⟩
    (readsData_project hdata') (run_delivery hmore) i
  have hlen : (t.delivery.streams i).sent.length = totalSize :=
    (hwhole hopen hdone hwell).mpr hlate
  rw [hgot]
  have hwithin := sent_within_content hinv' (hsending' i) hord hright
  exact hwithin.eq_of_length (hlen.trans hcontent.symm)

theorem client_receives_all_oneByte :
    ∃ s t, run (step httpSource) (openResponses (start 1 1 [0]) oneToken) oneByteDown = some s ∧
      run (step httpSource) s (delivers ++ ends) = some t ∧ received (t.wrapped 0) = [7] := by
  have hdown : (run (step httpSource) (openResponses (start 1 1 [0]) oneToken) oneByteDown).any
      (fun s => decide (s.delivery.source.coord = .returned (.ok ()) ∧
        (s.delivery.streams 0).pc = .top)) = true := by
    decide
  have hboth : (run (step httpSource) (openResponses (start 1 1 [0]) oneToken)
      (oneByteDown ++ (delivers ++ ends))).any
      (fun t => broughtSeven t.delivery.source &&
        decide ((t.wrapped 0).ended = some .exhausted ∧ (t.wrapped 0).delivered = [.ok [7]]))
        = true := by
    decide
  obtain ⟨s, hrun, hs⟩ := run_of_any hdown
  obtain ⟨t, hall, ht⟩ := run_of_any hboth
  obtain ⟨s', hrun', hmore⟩ := run_append_some hall
  obtain rfl : s' = s := Option.some.inj (hrun'.symm.trans hrun)
  obtain ⟨hok, hpc⟩ := of_decide_eq_true hs
  obtain ⟨hseven, ht⟩ := Bool.and_eq_true_iff.mp ht
  obtain ⟨hend, hdelivered⟩ := of_decide_eq_true ht
  obtain ⟨hord, hright⟩ := answered_of_broughtSeven hseven
  have hlen : ([0] : Bytes).length = 1 := rfl
  have hdata' : ∀ a ∈ delivers ++ ends, ReadsData a := fun a ha =>
    (List.mem_append.mp ha).elim (readsData_delivers a) (readsData_ends a)
  have hopen : (s'.delivery.streams 0).pc ≠ .done := by
    rw [hpc]
    decide
  have hlate : ¬ Late s'.delivery.source.buf (s'.delivery.streams 0) := by
    rw [Late, hpc]
    rintro ⟨h | h, -⟩ <;> cases h
  have hnoErr : ∀ e, Except.error e ∉ (t.wrapped 0).delivered := by
    intro e hmem
    rw [hdelivered] at hmem
    cases List.mem_singleton.mp hmem
  exact ⟨s', t, hrun, hmore, client_receives_all hlen (by decide) rfl readsData_oneByteDown hdata'
    capacity_oneToken hrun hok hmore hord hright 0 hopen hlate hend hnoErr⟩

end Http

end BlitzClientResponses
