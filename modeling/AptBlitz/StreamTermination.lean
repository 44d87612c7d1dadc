import AptBlitz.StreamThreads

/-! # Where polling a stream ends

    When everything is completed and nothing is left to claim, each poll of a
    stream brings its end nearer: a chunk leaves fewer bytes, the end of a
    segment leaves fewer segments, and every other step leads on within one
    turn of the loop (`work`).  None of the three waiting branches is taken
    any more, except where the vector is empty: `num_segments() == 0` makes
    the closure wait whether or not all is completed, so on a file of no
    bytes, for which nothing is ever pushed, a stream waits for ever. -/

namespace BlitzStreamTermination

open BlitzBuffer SegmentsBuffer BlitzClaims BlitzCompletion BlitzStream BlitzStreamRuns
open BlitzStreamEnd BlitzStreamThreads StreamState Runs

variable {s s' : Sys} {sh sh' : Shared} {b : SegmentsBuffer} {st st' : StreamState}
  {w : Nat} {op : Op} {a : Act} {r : Except IoError Nat} {acts : List Act}
  {totalSize : Nat} {file : Bytes}

/-- The buffer is done with: it has not failed, everything is completed, and
    no claim can succeed any more. -/
structure Settled (sh : Shared) : Prop where
  alive : sh.buf.isFailed = false
  completed : sh.buf.allCompleted = true
  exhausted : ∀ p, (sh.buf.claimRange p).2 = none
  quiet : NoClaimPending sh

/-- A step of the stream. -/
def isPoll : Act → Bool
  | .poll _ => true
  | _ => false

/-- Polling comes to an end, whatever the threads do meanwhile: there is a
    bound on the polls, and until it is done the stream can be polled. -/
structure Ends (s : Sys) : Prop where
  bounded : ∃ k, ∀ acts t, (∀ a ∈ acts, ReadsData a) → run threadsStep s acts = some t →
    acts.countP isPoll ≤ k
  possible : ∀ acts t, (∀ a ∈ acts, ReadsData a) → run threadsStep s acts = some t →
    t.stream.pc ≠ .done → ∃ r u, ReadsData (.poll r) ∧ threadsStep t (.poll r) = some u

/-! ## What every run keeps -/

/-- What holds of a stream opened on a new buffer, at any moment. -/
structure Reached (totalSize : Nat) (s : Sys) : Prop where
  seated : Seated s.shared.buf s.stream
  claims : ClaimInv s.shared
  file_len : s.shared.buf.file.length = s.shared.buf.totalSize
  size : s.shared.buf.totalSize = totalSize
  failed : s.stream.errored = true → s.shared.buf.failed = true
  asked : s.stream.pc = .completedTest → s.shared.buf.segments ≠ []
  ended : s.stream.pc = .done → s.stream.errored = true ∨ s.shared.buf.segments ≠ []

/-- At the start. -/
theorem reached_start (h : file.length = totalSize) :
    Reached totalSize (openStream (start totalSize file)) where
  seated := seated_initial
  claims := claimInv_start totalSize file
  file_len := h
  size := rfl
  failed h := by cases h
  asked h := by cases h
  ended h := by cases h

/-- A failed buffer stays failed. -/
theorem failed_stepped (h : Stepped sh w op sh') (hf : sh.buf.failed = true) :
    sh'.buf.failed = true := by
  cases h with
  | exhausted _ hb => rcases hb with rfl | ⟨rfl, -⟩ <;> exact hf
  | cas => exact hf
  | push => exact hf
  | write => exact hf
  | setReady => exact hf
  | addReady => exact hf
  | abandon => exact hf
  | setFailed => rfl

/-- A whole claim changes neither `failed` nor the length of the file. -/
theorem kept_claimed (h : Claimed sh w sh') :
    sh'.buf.failed = sh.buf.failed ∧ sh'.buf.file = sh.buf.file := by
  cases h with
  | exhausted _ hb => rcases hb with rfl | ⟨rfl, -⟩ <;> exact ⟨rfl, rfl⟩
  | range => exact ⟨rfl, rfl⟩

theorem Extends.ne_nil {b' : SegmentsBuffer} (h : Extends b b') (hne : b.segments ≠ []) :
    b'.segments ≠ [] := by
  have hpos : 0 < b.segments.length := List.length_pos_iff.mpr hne
  exact List.length_pos_iff.mp (lt_of_lt_of_le hpos h.length_le)

/-- The closure yields an error only after `is_failed()`. -/
theorem errored_poll (h : poll b st r = some st') (he : st'.errored = true) :
    st.errored = true ∨ b.failed = true := by
  cases polled_of_poll h with
  | tested => exact Or.inl he
  | error hpc =>
      rw [poll] at h
      simp only [hpc] at h
      split at h
      next hf => exact Or.inr hf
      next =>
        have := congrArg StreamState.pc (Option.some.inj h)
        have heq : Pc.cmpLen = .top := this.trans hpc
        cases heq
  | segmentOver => exact Or.inl he
  | chunk => exact Or.inl he
  | skip => exact Or.inl he

/-- `all_completed()` is asked only where there are segments. -/
theorem asked_poll (h : poll b st r = some st') (hpc' : st'.pc = .completedTest) :
    b.segments ≠ [] := by
  have hpc : st.pc = .emptyTest := by
    cases (tested_of_polled (polled_of_poll h) hpc' nofun).2 with
    | someSegment hpc => exact hpc
  rw [poll] at h
  simp only [hpc] at h
  split at h
  next => cases h; cases hpc'
  next hne =>
    intro hnil
    exact hne (by rw [numSegments, hnil]; rfl)

/-- **Step** of the stream or of a thread. -/
theorem reached_step (h : Reached totalSize s) (hs : threadsStep s a = some s') :
    Reached totalSize s' := by
  have hseated := seated_step h.seated hs
  cases stepped_of_threadsStep hs with
  | claim hc =>
      have hx := extends_claimed hc
      obtain ⟨hfailed, hfile⟩ := kept_claimed hc
      have hsize := totalSize_claimed hc
      refine ⟨hseated, claimInv_of_claimed h.claims hc, ?_, hsize.trans h.size, ?_, ?_, ?_⟩
      · show _ = _
        rw [hfile, hsize]
        exact h.file_len
      · intro he
        exact hfailed.trans (h.failed he)
      · intro hpc
        exact Extends.ne_nil hx (h.asked hpc)
      · intro hpc
        exact (h.ended hpc).imp_right (Extends.ne_nil hx)
  | worker hw =>
      have hx := extends_stepped hw
      refine ⟨hseated, claimInv_step h.claims hw, fileLength_step h.claims h.file_len hw,
        (totalSize_step hw).trans h.size, ?_, ?_, ?_⟩
      · intro he
        exact failed_stepped hw (h.failed he)
      · intro hpc
        exact Extends.ne_nil hx (h.asked hpc)
      · intro hpc
        exact (h.ended hpc).imp_right (Extends.ne_nil hx)
  | poll hp =>
      refine ⟨hseated, h.claims, h.file_len, h.size, ?_, asked_poll hp, ?_⟩
      · intro he
        rcases errored_poll hp he with hold | hnew
        · exact h.failed hold
        · exact hnew
      · intro hpc
        obtain ⟨heq, hwhy⟩ := done_polled (polled_of_poll hp) hpc
        subst heq
        exact hwhy.imp_right fun hwhy => h.asked hwhy.1

/-- **Run** of both. -/
theorem reached_run (hlen : file.length = totalSize)
    (hrun : run threadsStep (openStream (start totalSize file)) acts = some s) :
    Reached totalSize s :=
  run_invariant (fun _ _ _ => reached_step) (reached_start hlen) hrun

/-! ## A buffer that is done with -/

/-- Everything is completed, and stays so; the buffer may still fail. -/
structure Finished (s : Sys) : Prop where
  seated : Seated s.shared.buf s.stream
  claims : ClaimInv s.shared
  file_len : s.shared.buf.file.length = s.shared.buf.totalSize
  completed : s.shared.buf.allCompleted = true
  quiet : NoClaimPending s.shared
  nonempty : s.shared.buf.segments ≠ []

/-- With everything completed no thread has a segment to write or to mark. -/
theorem not_holds (h : ClaimInv sh) (hdone : sh.buf.allCompleted = true) {id x z : Nat} :
    sh.calls w ≠ .holds id x z := by
  intro hw
  have := ClaimInv.all_ready h hdone (h.holds_seg w id x z hw)
  cases this

/-- Nor is there a range to claim. -/
theorem not_claims (h : ClaimInv sh) (hdone : sh.buf.allCompleted = true) {q : Nat × Nat}
    (hq : q.1 = sh.buf.nextUnassigned) (hlt : q.1 < q.2) (hle : q.2 ≤ sh.buf.totalSize) :
    False := by
  have := ClaimInv.next_eq h hdone
  omega

/-- What the threads can still do changes no segment. -/
theorem finished_stepped (h : ClaimInv sh) (hdone : sh.buf.allCompleted = true)
    (hq : NoClaimPending sh) (hs : Stepped sh w op sh') :
    sh'.buf.segments = sh.buf.segments ∧ sh'.buf.allCompleted = true ∧ NoClaimPending sh' := by
  obtain ⟨hall, hcount⟩ := allCompleted_iff.mp hdone
  cases hs with
  | exhausted _ hb =>
      rcases hb with rfl | ⟨rfl, -⟩
      · exact ⟨rfl, hdone, hq.put rfl⟩
      · exact ⟨rfl, allCompleted_iff.mpr ⟨rfl, hcount⟩, hq.put rfl⟩
  | cas _ hr hlt hle => exact (not_claims h hdone hr hlt hle).elim
  | push hw => exact absurd hw (hq w _ _)
  | write hw => exact absurd hw (not_holds h hdone)
  | setReady hw => exact absurd hw (not_holds h hdone)
  | addReady =>
      refine ⟨rfl, allCompleted_iff.mpr ⟨hall, ?_⟩, hq.put rfl⟩
      exact le_trans hcount (Nat.le_succ _)
  | abandon => exact ⟨rfl, hdone, hq.put rfl⟩
  | setFailed =>
      exact ⟨rfl, hdone, hq.put (hq.claim_eq_none w)⟩

/-- A claim on a finished buffer changes nothing a stream can see. -/
theorem finished_claimed (h : ClaimInv sh) (hdone : sh.buf.allCompleted = true)
    (hq : NoClaimPending sh) (hs : Claimed sh w sh') :
    sh'.buf.segments = sh.buf.segments ∧ sh'.buf.allCompleted = true ∧ NoClaimPending sh' := by
  cases hs with
  | exhausted hw hb => exact finished_stepped h hdone hq (.exhausted (p := 0) hw hb)
  | range _ hr hlt hle => exact (not_claims h hdone hr hlt hle).elim

/-! ## The work left -/

/-- How far the closure is from the end of its turn. -/
def rank : Pc → Nat
  | .done => 0
  | .completedTest => 1
  | .emptyTest => 2
  | .read _ _ => 2
  | .segEnd _ => 3
  | .segStart => 4
  | .readyTest => 5
  | .cmpLen => 6
  | .top => 7
  | .waiting => 8

/-- The bytes behind the cursor. -/
def bytesLeft (b : SegmentsBuffer) (st : StreamState) : Nat :=
  sizes (b.ranges.drop st.currentSegment) - st.offsetInSegment

/-- The work left: a turn for each byte and for each segment, at most, and
    the rest of this one. -/
def work (b : SegmentsBuffer) (st : StreamState) : Nat :=
  6 * (bytesLeft b st + (b.segments.length - st.currentSegment)) + rank st.pc +
    (!st.errored).toNat

/-- What is left to do is a matter of the segments. -/
theorem work_congr {b' : SegmentsBuffer} (h : b'.segments = b.segments) :
    work b' st = work b st := by
  have hranges : b'.ranges = b.ranges := by unfold ranges; rw [h]
  rw [work, work, bytesLeft, bytesLeft, hranges, h]

/-- A step within a turn leaves less of it. -/
theorem work_test {pc : Pc} (h : rank pc < rank st.pc) :
    work b { st with pc := pc } < work b st := by
  simp only [work, bytesLeft]
  omega

/-- The end of a segment costs its turn. -/
theorem work_nextSegment {x : Nat} {seg : Segment} (hpc : st.pc = .segEnd x)
    (hseg : AtReady b st seg) (hoff : st.offsetInSegment = seg.end - seg.start) :
    work b st.nextSegment < work b st := by
  have hlt := atReady_lt hseg
  have hdrop : sizes (b.ranges.drop st.currentSegment)
      = (seg.end - seg.start) + sizes (b.ranges.drop (st.currentSegment + 1)) :=
    sizes_drop (mem_ranges_of_getElem? hseg.1)
  simp only [work, bytesLeft, nextSegment, hpc, rank]
  omega

/-- A chunk costs the turns of its bytes. -/
theorem work_yieldChunk {pos rem : Nat} {bytes : Bytes} (hpc : st.pc = .read pos rem)
    (hpos : 0 < bytes.length)
    (hle : st.offsetInSegment + bytes.length ≤ sizes (b.ranges.drop st.currentSegment)) :
    work b (st.yieldChunk bytes) < work b st := by
  simp only [work, bytesLeft, yieldChunk, hpc, rank]
  omega

/-- A read that returns data yields it. -/
theorem poll_read {pos rem n : Nat} (h : Seated b st) (hpc : st.pc = .read pos rem)
    (hp : poll b st (.ok (n + 1)) = some st') :
    n + 1 ≤ rem ∧ ∃ bytes : Bytes, bytes.length = n + 1 ∧ st' = st.yieldChunk bytes := by
  obtain ⟨seg, hseg, hpos, hend, hrem⟩ := h.reading hpc
  rw [poll] at hp
  simp only [hpc] at hp
  split at hp
  next hmay =>
    obtain ⟨hle, hin⟩ := hmay
    have hlen : ((b.file.drop pos).take (n + 1)).length = n + 1 := length_read hin
    have hdata : b.readData pos rem (.ok (n + 1)) = some ((b.file.drop pos).take (n + 1)) := by
      rw [readData]
      rw [if_neg (Nat.ne_of_gt hrem)]
      simp
    rw [hdata] at hp
    simp only at hp
    split at hp
    next hempty =>
      rw [List.isEmpty_iff.mp hempty] at hlen
      cases hlen
    next =>
      cases hp
      exact ⟨hle, _, hlen, rfl⟩
  next => cases hp

/-- **Every poll leaves less work**, where everything is completed and reads
    return data. -/
theorem Finished.work_poll (h : Finished s) (hdata : ∃ n, r = .ok (n + 1))
    (hp : poll s.shared.buf s.stream r = some st') :
    work s.shared.buf st' < work s.shared.buf s.stream := by
  have hread := hp
  rw [poll] at hp
  split at hp
  next hpc =>
    split at hp
    next =>
      split at hp
      next => cases hp; exact work_test (by rw [hpc]; decide)
      next he =>
        cases hp
        simp [work, bytesLeft, yieldError, he]
    next => cases hp; exact work_test (by rw [hpc]; decide)
  next hpc =>
    split at hp
    next => cases hp; exact work_test (by rw [hpc]; decide)
    next => cases hp; exact work_test (by rw [hpc]; decide)
  next hpc =>
    split at hp
    next h0 => exact absurd (List.length_eq_zero_iff.mp h0) h.nonempty
    next => cases hp; exact work_test (by rw [hpc]; decide)
  next hpc =>
    rw [if_pos h.completed] at hp
    cases hp
    exact work_test (by rw [hpc]; decide)
  next hpc =>
    -- the segment is listed, so it is ready
    have hseg := List.getElem?_eq_getElem (h.seated.listed hpc)
    have hready : s.shared.buf.isReady s.stream.currentSegment = true :=
      isReady_iff.mpr ⟨_, hseg, ClaimInv.all_ready h.claims h.completed hseg⟩
    rw [if_pos hready] at hp
    cases hp
    exact work_test (by rw [hpc]; decide)
  next hpc =>
    cases hp
    exact work_test (by rw [hpc, rank, rank]; decide)
  next x hpc =>
    simp only at hp
    split at hp
    next hge =>
      cases hp
      obtain ⟨seg, hseg, hoff⟩ := h.seated.over hpc hge
      exact work_nextSegment hpc hseg hoff
    next =>
      cases hp
      exact work_test (by rw [hpc, rank, rank]; decide)
  next pos rem hpc =>
    obtain ⟨n, rfl⟩ := hdata
    obtain ⟨hle, bytes, hbytes, rfl⟩ := poll_read h.seated hpc hread
    obtain ⟨seg, hseg, hpos, hend, -⟩ := h.seated.reading hpc
    have hdrop : sizes (s.shared.buf.ranges.drop s.stream.currentSegment)
        = (seg.end - seg.start)
          + sizes (s.shared.buf.ranges.drop (s.stream.currentSegment + 1)) :=
      sizes_drop (mem_ranges_of_getElem? hseg.1)
    refine work_yieldChunk hpc ?_ ?_
    · omega
    · omega
  next hpc =>
    cases hp
    exact work_test (by rw [hpc]; decide)
  next => cases hp

/-- A step of a thread leaves a finished buffer finished, and the same work. -/
theorem Finished.thread (h : Finished s) (hseated : Seated sh.buf s.stream)
    (hclaims : ClaimInv sh) (hfile : sh.buf.file.length = sh.buf.totalSize)
    (hsh : sh.buf.segments = s.shared.buf.segments ∧ sh.buf.allCompleted = true ∧
      NoClaimPending sh) :
    Finished { s with shared := sh } ∧ work sh.buf s.stream = work s.shared.buf s.stream := by
  obtain ⟨hseg, hdone, hquiet⟩ := hsh
  exact ⟨⟨hseated, hclaims, hfile, hdone, hquiet, hseg ▸ h.nonempty⟩, work_congr hseg⟩

/-- **Step**: a poll does some of the work, and the others add none. -/
theorem finished_step (h : Finished s) (hdata : ReadsData a) (hs : threadsStep s a = some s') :
    Finished s' ∧
      (isPoll a = true → work s'.shared.buf s'.stream < work s.shared.buf s.stream) ∧
      (isPoll a = false → work s'.shared.buf s'.stream = work s.shared.buf s.stream) := by
  have hseated := seated_step h.seated hs
  cases stepped_of_threadsStep hs with
  | claim hc =>
      obtain ⟨-, hfile⟩ := kept_claimed hc
      have hlen := totalSize_claimed hc
      obtain ⟨hfin, hwork⟩ := h.thread hseated (claimInv_of_claimed h.claims hc)
        (by rw [hfile, hlen]; exact h.file_len)
        (finished_claimed h.claims h.completed h.quiet hc)
      refine ⟨hfin, ?_, fun _ => hwork⟩
      intro hp
      cases hp
  | worker hw =>
      obtain ⟨hfin, hwork⟩ := h.thread hseated (claimInv_step h.claims hw)
        (fileLength_step h.claims h.file_len hw)
        (finished_stepped h.claims h.completed h.quiet hw)
      refine ⟨hfin, ?_, fun _ => hwork⟩
      intro hp
      cases hp
  | poll hp =>
      have hless := h.work_poll (hdata _ rfl) hp
      refine ⟨⟨hseated, h.claims, h.file_len, h.completed, h.quiet, h.nonempty⟩,
        fun _ => hless, ?_⟩
      intro hp
      cases hp

/-- **Run**: what is finished stays so. -/
theorem finished_run (h : Finished s) (hdata : ∀ a ∈ acts, ReadsData a)
    (hrun : run threadsStep s acts = some s') : Finished s' :=
  along_invariant (G := fun _ a => ReadsData a)
    (fun _ _ _ h hd hs => (finished_step h hd hs).1) h
    (along_of_mem fun a ha _ => hdata a ha) hrun

/-- Until it has ended, a stream can be polled: a read can return a byte. -/
theorem Finished.poll_possible (h : Finished s) (hpc : s.stream.pc ≠ .done) :
    ∃ u, threadsStep s (.poll (.ok 1)) = some u := by
  suffices hst : ∃ st, poll s.shared.buf s.stream (.ok 1) = some st by
    obtain ⟨st, hst⟩ := hst
    exact ⟨{ s with stream := st }, by rw [threadsStep, hst]; rfl⟩
  rw [poll]
  split
  next =>
    split
    next => split <;> exact ⟨_, rfl⟩
    next => exact ⟨_, rfl⟩
  next => split <;> exact ⟨_, rfl⟩
  next => split <;> exact ⟨_, rfl⟩
  next => split <;> exact ⟨_, rfl⟩
  next => split <;> exact ⟨_, rfl⟩
  next => exact ⟨_, rfl⟩
  next => simp only; split <;> exact ⟨_, rfl⟩
  next pos rem hread =>
    -- the segment lies in the file
    obtain ⟨seg, hseg, hpos, hend, hrem⟩ := h.seated.reading hread
    have hle := (h.claims.seg_le hseg.1).2
    have hmay : s.shared.buf.ReadAtMayReturn pos rem (.ok 1) := by
      have := h.file_len
      exact ⟨hrem, by omega⟩
    rw [if_pos hmay]
    split
    next => split <;> exact ⟨_, rfl⟩
    next => exact ⟨_, rfl⟩
  next => exact ⟨_, rfl⟩
  next hdone => exact absurd hdone hpc

/-- **The end of polling**: on a finished buffer with segments, polling comes
    to an end. -/
theorem Finished.ends (h : Finished s) : Ends s where
  bounded := by
    refine ⟨work s.shared.buf s.stream, ?_⟩
    intro acts t hdata hrun
    have hle := countP_add_measure_le (I := Finished) (H := fun _ a => ReadsData a)
      (p := isPoll) (μ := fun s => work s.shared.buf s.stream)
      (fun _ _ _ h hd hs => (finished_step h hd hs).1)
      (fun _ _ _ h hd hs hp => (finished_step h hd hs).2.1 hp)
      (fun _ _ _ h hd hs hp => Nat.le_of_eq ((finished_step h hd hs).2.2 hp)) h
      (along_of_mem fun a ha _ => hdata a ha) hrun
    omega
  possible := by
    intro acts t hdata hrun hpc
    obtain ⟨u, hu⟩ := (finished_run h hdata hrun).poll_possible hpc
    refine ⟨.ok 1, u, ?_, hu⟩
    intro r hr
    cases hr
    exact ⟨0, rfl⟩

/-! ## A buffer of no bytes -/

/-- The turn of a stream over an empty vector. -/
structure Idling (s : Sys) : Prop where
  alive : s.shared.buf.isFailed = false
  empty : s.shared.buf.segments = []
  turning : s.stream.pc = .top ∨ s.stream.pc = .cmpLen ∨ s.stream.pc = .emptyTest ∨
    s.stream.pc = .waiting

/-- A stream on an empty buffer waits. -/
theorem Reached.idling (h : Reached totalSize s) (halive : s.shared.buf.isFailed = false)
    (hempty : s.shared.buf.segments = []) : Idling s := by
  refine ⟨halive, hempty, ?_⟩
  -- no segment is under the cursor
  have hno : ∀ seg, ¬ AtReady s.shared.buf s.stream seg := by
    intro seg hseg
    have := atReady_lt hseg
    rw [hempty] at this
    exact absurd this (Nat.not_lt_zero _)
  have hat := h.seated.at_pc
  rw [AtPc] at hat
  cases hpc : s.stream.pc with
  | top => exact Or.inl rfl
  | cmpLen => exact Or.inr (Or.inl rfl)
  | emptyTest => exact Or.inr (Or.inr (Or.inl rfl))
  | waiting => exact Or.inr (Or.inr (Or.inr rfl))
  | completedTest => exact absurd hempty (h.asked hpc)
  | readyTest =>
      have := h.seated.listed hpc
      rw [hempty] at this
      exact absurd this (Nat.not_lt_zero _)
  | segStart =>
      rw [hpc] at hat
      obtain ⟨seg, hseg⟩ := hat
      exact absurd hseg (hno seg)
  | segEnd x =>
      rw [hpc] at hat
      obtain ⟨seg, hseg, -⟩ := hat
      exact absurd hseg (hno seg)
  | read pos rem =>
      rw [hpc] at hat
      obtain ⟨seg, hseg, -⟩ := hat
      exact absurd hseg (hno seg)
  | done =>
      rcases h.ended hpc with he | hne
      · have := h.failed he
        rw [isFailed, this] at halive
        cases halive
      · exact absurd hempty hne

/-- Each turn leads to the wait, and the wait to the next turn. -/
theorem Idling.poll (h : Idling s) :
    ∃ s', threadsStep s (.poll (.ok 1)) = some s' ∧ Idling s' := by
  have hlen : s.shared.buf.numSegments = 0 := by
    rw [numSegments, h.empty]
    rfl
  suffices hst : ∃ st, BlitzStream.poll s.shared.buf s.stream (.ok 1) = some st ∧
      Idling { s with stream := st } by
    obtain ⟨st, hst, hidle⟩ := hst
    exact ⟨{ s with stream := st }, by rw [threadsStep, hst]; rfl, hidle⟩
  rw [BlitzStream.poll]
  rcases h.turning with hpc | hpc | hpc | hpc
  · rw [hpc]
    simp only [h.alive, if_neg Bool.false_ne_true]
    exact ⟨_, rfl, h.alive, h.empty, Or.inr (Or.inl rfl)⟩
  · rw [hpc]
    simp only [hlen, Nat.zero_le, ge_iff_le, if_true]
    exact ⟨_, rfl, h.alive, h.empty, Or.inr (Or.inr (Or.inl rfl))⟩
  · rw [hpc]
    simp only [hlen, if_true]
    exact ⟨_, rfl, h.alive, h.empty, Or.inr (Or.inr (Or.inr rfl))⟩
  · rw [hpc]
    exact ⟨_, rfl, h.alive, h.empty, Or.inl rfl⟩

/-- It waits for as long as nobody claims. -/
theorem Idling.polls (h : Idling s) (k : Nat) :
    ∃ t, run threadsStep s (List.replicate k (.poll (.ok 1))) = some t ∧ Idling t := by
  induction k generalizing s with
  | zero => exact ⟨s, rfl, h⟩
  | succ k ih =>
      obtain ⟨m, hm, hidle⟩ := h.poll
      obtain ⟨t, ht, hidle'⟩ := ih hidle
      refine ⟨t, ?_, hidle'⟩
      rw [List.replicate_succ, run_cons hm]
      exact ht

/-- **A stream over an empty vector** can be polled for ever. -/
theorem Idling.not_ends (h : Idling s) : ¬ Ends s := by
  intro hends
  obtain ⟨k, hk⟩ := hends.bounded
  obtain ⟨t, ht, -⟩ := h.polls (k + 1)
  have hle := hk _ t ?_ ht
  · have hall : isPoll (.poll (.ok 1)) = true := rfl
    rw [List.countP_replicate, if_pos hall] at hle
    exact absurd hle (Nat.not_succ_le_self k)
  · intro a ha r hr
    rw [List.eq_of_mem_replicate ha] at hr
    cases hr
    exact ⟨0, rfl⟩

/-! ## The end, exactly -/

/-- **Where polling ends, exactly**: in every reachable state in which the
    buffer has not failed, everything is completed and no claim can succeed,
    polling comes to an end if and only if the file has a byte. -/
theorem ends_iff (hlen : file.length = totalSize)
    (hrun : run threadsStep (openStream (start totalSize file)) acts = some s)
    (hset : Settled s.shared) : Ends s ↔ 0 < totalSize := by
  have h := reached_run hlen hrun
  constructor
  · intro hends
    by_contra hzero
    refine Idling.not_ends (h.idling hset.alive ?_) hends
    -- a segment would be a part of the file
    refine List.eq_nil_iff_forall_not_mem.mpr ?_
    intro seg hmem
    obtain ⟨id, hseg⟩ := List.mem_iff_getElem?.mp hmem
    obtain ⟨hlt, hle⟩ := h.claims.seg_le hseg
    have := h.size
    omega
  · intro hpos
    have hnext := ClaimInv.next_eq h.claims hset.completed
    obtain ⟨id, seg, hseg, -⟩ := ClaimInv.covers h.claims hnext.ge hset.quiet
      (x := 0) (by rw [h.size]; exact hpos)
    have hne : s.shared.buf.segments ≠ [] := List.ne_nil_of_mem (List.mem_of_getElem? hseg)
    have hfin : Finished s :=
      ⟨h.seated, h.claims, h.file_len, hset.completed, hset.quiet, hne⟩
    exact hfin.ends

/-- No range is left behind the end of the file. -/
theorem claimRange_exhausted (h : b.totalSize ≤ b.nextUnassigned) (p : Nat) :
    (b.claimRange p).2 = none := by
  have hx : b.nextUnassigned ≥ b.totalSize := h
  rw [claimRange, claimCas]
  rw [if_pos hx, if_pos hx, ite_self]

theorem quiet_start : NoClaimPending (start totalSize file) := by
  intro v a z hv
  cases hv

/-- A one-byte file that one thread has fetched. -/
def fetched : List Act :=
  [.claim 0 1, .worker 0 .setReady, .worker 0 .addReady, .claim 0 1]

theorem settled_fetched :
    ∃ s, run threadsStep (openStream (start 1 [7])) fetched = some s ∧ Settled s.shared := by
  refine ⟨_, rfl, rfl, rfl, claimRange_exhausted (Nat.le_refl _), ?_⟩
  exact (((quiet_start.put rfl).put rfl).put rfl).put rfl

theorem ends_oneByte :
    ∃ s, run threadsStep (openStream (start 1 [7])) fetched = some s ∧ Settled s.shared ∧
      (Ends s ↔ 0 < 1) := by
  obtain ⟨s, hrun, hset⟩ := settled_fetched
  exact ⟨s, hrun, hset, ends_iff rfl hrun hset⟩

/-- A file of no bytes, which one thread has found exhausted. -/
theorem not_ends :
    ∃ s, run threadsStep (openStream (start 0 [])) [.claim 0 1] = some s ∧
      Settled s.shared ∧ ¬ Ends s := by
  refine ⟨_, rfl, ?_, Idling.not_ends ⟨rfl, rfl, Or.inl rfl⟩⟩
  exact ⟨rfl, rfl, claimRange_exhausted (Nat.le_refl _), quiet_start.put rfl⟩

end BlitzStreamTermination
