import AptBlitz.StreamThreads

/-! # Reads that fail under a stream

    `make_buffer_stream` has one branch for a read that fails and a read that
    finds nothing more: the cursor goes on with the next segment.  So the rest
    of a ready segment whose read fails is missing from the body, and nothing
    tells the client: the stream yields no error and ends as if it had sent
    everything.

    The bytes before the cursor (`passed`) and the bytes sent are equally many
    as long as no read fails, and never again after one has. -/

namespace BlitzStreamHoles

open BlitzBuffer SegmentsBuffer BlitzClaims BlitzStream BlitzStreamRuns BlitzStreamEnd
open BlitzStreamThreads StreamState Runs

variable {s s' : Sys} {sh : Shared} {b b' : SegmentsBuffer} {st st' : StreamState}
  {pos rem : Nat} {r : Except IoError Nat} {a : Act} {acts : List Act}

/-! ## Holes -/

/-- The bytes before the cursor. -/
def passed (b : SegmentsBuffer) (st : StreamState) : Nat :=
  sizes (b.ranges.take st.currentSegment) + st.offsetInSegment

/-- The body sent so far has a hole: the cursor is behind bytes that were not
    sent. -/
def Hole (s : Sys) : Prop := s.stream.sent.length < passed s.shared.buf s.stream

instance (s : Sys) : Decidable (Hole s) := inferInstanceAs (Decidable (_ < _))

/-- `read_data` fails on a range it is asked for. -/
def ReadFails (s : Sys) (a : Act) : Prop :=
  ∃ pos rem r, a = .poll r ∧ s.stream.pc = .read pos rem ∧
    s.shared.buf.ReadAtMayReturn pos rem r ∧ s.shared.buf.readData pos rem r = none

/-- What a client may rely on: after a read that fails the stream sends
    nothing more, does not go on with the next segment, and does not end but
    with an error; and a body that ends without an error has no hole. -/
structure FailsClosed (s : Sys) (acts : List Act) : Prop where
  stops : ∀ as a bs cs m u, acts = as ++ a :: (bs ++ cs) →
    run threadsStep s as = some m → ReadFails m a → run threadsStep m (a :: bs) = some u →
    u.stream.sent = m.stream.sent ∧ u.stream.currentSegment = m.stream.currentSegment ∧
      (u.stream.pc = .done → u.stream.Failed)
  whole : ∀ as bs u, acts = as ++ bs → run threadsStep s as = some u →
    u.stream.pc = .done → ¬ u.stream.Failed → ¬ Hole u

/-! ## Steps -/

/-- What the cursor has passed is the same in a buffer that goes on. -/
theorem passed_extends (h : Seated b st) (hx : Extends b b') : passed b' st = passed b st := by
  obtain ⟨rest, hrest⟩ := hx.ranges
  have hcur : st.currentSegment ≤ b.ranges.length := by rw [length_ranges]; exact h.cur_le
  rw [passed, passed, ← hrest, List.take_append_of_le_length hcur]

/-- The cursor goes on to the next segment. -/
theorem passed_nextSegment {seg : Segment} (hseg : AtReady b st seg) :
    passed b st.nextSegment = sizes (b.ranges.take st.currentSegment) + (seg.end - seg.start) :=
  sizes_take_succ (mem_ranges_of_getElem? hseg.1)

/-- A read that fails: the cursor goes on, and leaves bytes out. -/
theorem poll_fails (h : Seated b st) (hpc : st.pc = .read pos rem)
    (hmay : b.ReadAtMayReturn pos rem r) (hfail : b.readData pos rem r = none) :
    poll b st r = some st.nextSegment ∧ passed b st < passed b st.nextSegment := by
  constructor
  · rw [poll]
    simp only [hpc]
    rw [if_pos hmay, hfail]
  · obtain ⟨seg, hseg, hpos, hend, hrem⟩ := h.reading hpc
    rw [passed_nextSegment hseg, passed]
    omega

/-- A step that is no failing read sends what it passes. -/
theorem sent_poll (h : Seated b st) (hp : poll b st r = some st')
    (hread : ∀ pos rem, st.pc = .read pos rem → b.ReadAtMayReturn pos rem r →
      b.readData pos rem r ≠ none) :
    st'.sent.length + passed b st = st.sent.length + passed b st' := by
  cases polled_of_poll hp with
  | tested => rfl
  | error =>
      rw [sent_yieldError]
      rfl
  | segmentOver hpc hge =>
      obtain ⟨seg, hseg, hoff⟩ := h.over hpc hge
      show st.sent.length + _ = _
      rw [passed_nextSegment hseg, passed, hoff]
  | chunk =>
      rw [sent_yieldChunk, List.length_append]
      simp only [passed, yieldChunk]
      omega
  | skip hpc hmay hskip =>
      -- the read succeeds, so it returns bytes: there are some left
      exfalso
      rename_i pos rem
      obtain ⟨seg, hseg, hpos, hend, hrem⟩ := h.reading hpc
      have hsome := hread pos rem hpc hmay
      simp only [readData] at hsome
      rw [if_neg (Nat.ne_of_gt hrem)] at hsome
      cases r with
      | error e => exact hsome rfl
      | ok n =>
          have hn : n ≠ 0 := by
            intro h0
            exact hsome (by simp [h0])
          obtain ⟨hle, hin⟩ := hmay
          rcases hskip n rfl with h0 | h0 | h0
          · exact hn h0
          · omega
          · have := congrArg List.length h0
            rw [length_read hin] at this
            exact hn this

/-- **Step** without a failed read: what is sent is what is passed. -/
theorem sent_step_of_read (h : Seated s.shared.buf s.stream)
    (hs : threadsStep s a = some s') (hread : ¬ ReadFails s a) :
    s'.stream.sent.length + passed s.shared.buf s.stream
      = s.stream.sent.length + passed s'.shared.buf s'.stream := by
  cases stepped_of_threadsStep hs with
  | claim hc =>
      show _ = _ + passed _ s.stream
      rw [passed_extends h (extends_claimed hc)]
  | worker hw =>
      show _ = _ + passed _ s.stream
      rw [passed_extends h (extends_stepped hw)]
  | poll hp =>
      refine sent_poll h hp ?_
      intro pos rem hpc hmay hfail
      exact hread ⟨pos, rem, _, rfl, hpc, hmay, hfail⟩

/-- A failing read can only go on with the next segment. -/
theorem step_of_readFails (h : Seated s.shared.buf s.stream) (hfail : ReadFails s a) :
    threadsStep s a = some { s with stream := s.stream.nextSegment } ∧
      passed s.shared.buf s.stream < passed s.shared.buf s.stream.nextSegment := by
  obtain ⟨pos, rem, r, rfl, hpc, hmay, hnone⟩ := hfail
  obtain ⟨hp, hlt⟩ := poll_fails h hpc hmay hnone
  refine ⟨?_, hlt⟩
  show (poll s.shared.buf s.stream r).map _ = _
  rw [hp]
  rfl

/-! ## Runs -/

/-- No more is sent than passed. -/
structure Counted (s : Sys) : Prop where
  seated : Seated s.shared.buf s.stream
  sent_le : s.stream.sent.length ≤ passed s.shared.buf s.stream

theorem counted_initial : Counted ⟨sh, initial⟩ where
  seated := seated_initial
  sent_le := Nat.zero_le _

/-- A step keeps the difference, or is a failing read and widens it. -/
theorem counted_cases (h : Seated s.shared.buf s.stream) (hs : threadsStep s a = some s') :
    (¬ ReadFails s a ∧ s'.stream.sent.length + passed s.shared.buf s.stream
      = s.stream.sent.length + passed s'.shared.buf s'.stream) ∨
    (ReadFails s a ∧ s'.stream.sent = s.stream.sent ∧
      passed s.shared.buf s.stream < passed s'.shared.buf s'.stream) := by
  by_cases hfail : ReadFails s a
  · obtain ⟨hstep, hlt⟩ := step_of_readFails h hfail
    rw [hs] at hstep
    cases hstep
    exact Or.inr ⟨hfail, rfl, hlt⟩
  · exact Or.inl ⟨hfail, sent_step_of_read h hs hfail⟩

/-- **Step**: no more is sent than is passed. -/
theorem counted_step (h : Counted s) (hs : threadsStep s a = some s') : Counted s' := by
  refine ⟨seated_step h.seated hs, ?_⟩
  have hle := h.sent_le
  rcases counted_cases h.seated hs with ⟨-, heq⟩ | ⟨-, heq, hlt⟩
  · omega
  · rw [heq]
    omega

/-- A hole stays. -/
theorem hole_step (h : Counted s ∧ Hole s) (hs : threadsStep s a = some s') :
    Counted s' ∧ Hole s' := by
  refine ⟨counted_step h.1 hs, ?_⟩
  have hhole := h.2
  rw [Hole] at hhole ⊢
  rcases counted_cases h.1.seated hs with ⟨-, heq⟩ | ⟨-, heq, hlt⟩
  · omega
  · rw [heq]
    omega

/-- **Holes, exactly**: the body sent so far has a hole if and only if a read
    has failed. -/
theorem hole_iff (hrun : run threadsStep ⟨sh, initial⟩ acts = some s) :
    ¬ Hole s ↔ Along threadsStep (fun s a => ¬ ReadFails s a) ⟨sh, initial⟩ acts := by
  constructor
  · intro hwhole
    have hor := along_or_last (I := Counted) (P := fun s => Counted s ∧ Hole s)
      (G := fun s a => ¬ ReadFails s a) (H := fun _ _ => True)
      (fun _ _ _ h _ hs => counted_step h hs) ?_ (fun _ _ _ h _ hs => hole_step h hs)
      counted_initial (along_of_mem fun _ _ _ => trivial) hrun
    · rcases hor with halong | ⟨-, hhole⟩
      · exact halong
      · exact absurd hhole hwhole
    · intro s a s' h _ hs hfail
      refine ⟨counted_step h hs, ?_⟩
      have hle := h.sent_le
      rcases counted_cases h.seated hs with ⟨hno, -⟩ | ⟨-, heq, hlt⟩
      · exact absurd hno hfail
      · rw [Hole, heq]
        omega
  · intro halong
    have hend := along_invariant
      (I := fun s => Counted s ∧ s.stream.sent.length = passed s.shared.buf s.stream)
      ?_ ⟨counted_initial, rfl⟩ halong hrun
    · rw [Hole, hend.2]
      exact lt_irrefl _
    · rintro s a s' ⟨h, heq⟩ hread hs
      refine ⟨counted_step h hs, ?_⟩
      have := sent_step_of_read h.seated hs hread
      omega

/-- **Run**: the stream's place is in the buffer. -/
theorem seated_run (hrun : run threadsStep ⟨sh, initial⟩ acts = some s) :
    Seated s.shared.buf s.stream :=
  run_invariant (I := fun s => Seated s.shared.buf s.stream) (fun _ _ _ => seated_step)
    seated_initial hrun

/-- **Failing reads, exactly**: on any buffer, whatever the threads do, a
    stream fails closed in the runs in which no read fails, and in no
    other. -/
theorem failsClosed_iff (sh : Shared) (acts : List Act) :
    FailsClosed ⟨sh, initial⟩ acts
      ↔ Along threadsStep (fun s a => ¬ ReadFails s a) ⟨sh, initial⟩ acts := by
  constructor
  · intro h
    refine along_of_reached ?_
    intro as a bs m hsplit hrun hfail
    obtain ⟨hstep, -⟩ := step_of_readFails (seated_run hrun) hfail
    have hnext : run threadsStep m [a] = some { m with stream := m.stream.nextSegment } := by
      rw [run_cons hstep]
      rfl
    -- the cursor has moved on
    obtain ⟨-, hcur, -⟩ := h.stops as a [] bs m _ hsplit hrun hfail hnext
    exact absurd hcur (Nat.succ_ne_self _)
  · intro halong
    constructor
    · intro as a bs cs m u hsplit hrun hfail _
      subst hsplit
      exact absurd hfail (reached_of_along halong hrun)
    · intro as bs u hsplit hrun _ _
      subst hsplit
      exact (hole_iff hrun).mpr (along_of_append halong)

/-- A two-byte file in two segments, both ready.  The read of the first one
    fails, and the stream goes on. -/
def firstReadFails : List Act :=
  let byte w off x : List Act :=
    [.claim w 1, .worker w (.write off [x]), .worker w .setReady, .worker w .addReady]
  byte 0 0 7 ++ byte 1 1 8 ++ [.claim 0 1] ++ List.replicate 5 (.poll (.ok 1)) ++
    [.poll (.error ⟨.other, "Input/output error"⟩)] ++ List.replicate 15 (.poll (.ok 1))

theorem not_failsClosed :
    ∃ s, run threadsStep (openStream (start 2 [0, 0])) firstReadFails = some s ∧
      s.stream.pc = .done ∧ ¬ s.stream.Failed ∧ s.stream.sent = [8] ∧
      ¬ FailsClosed (openStream (start 2 [0, 0])) firstReadFails := by
  have hany : (run threadsStep (openStream (start 2 [0, 0])) firstReadFails).any (fun s =>
      decide (s.stream.pc = .done ∧ s.stream.yielded = [.ok [8]] ∧ Hole s)) = true := by
    decide
  obtain ⟨s, hrun, hs⟩ := run_of_any hany
  obtain ⟨hpc, hyield, hhole⟩ := of_decide_eq_true hs
  have hok : ¬ s.stream.Failed := not_failed_of_yielded hyield
  refine ⟨s, hrun, hpc, hok, by unfold sent; rw [hyield]; rfl, ?_⟩
  intro h
  exact h.whole _ [] s (List.append_nil _).symm hrun hpc hok hhole

end BlitzStreamHoles
