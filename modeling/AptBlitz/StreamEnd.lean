import AptBlitz.StreamRuns

/-! # Where a stream ends

    A stream that has not failed ends when its cursor is behind the last
    segment and `all_completed()` answers true.  It learns the two in
    different calls: `num_segments()` first, `all_completed()` later.  A
    segment pushed and completed in between is in the second answer only, and
    the stream ends before it. -/

namespace BlitzStreamEnd

open BlitzBuffer SegmentsBuffer BlitzClaims BlitzCompletion BlitzStream BlitzStreamRuns
open StreamState Runs Tiling

variable {s s' : Sys} {st : StreamState} {a : Act} {r : Except IoError Nat}
  {acts : List Act} {totalSize : Nat} {file : Bytes}

/-- A true answer of `all_completed()` finds the vector still ending at the
    cursor: no segment has been pushed since the `num_segments()` call that
    found none there. -/
def EndsInSync (s : Sys) (a : Act) : Prop :=
  (∃ r, a = .poll r) → s.stream.pc = .completedTest → s.shared.buf.allCompleted = true →
    s.shared.buf.numSegments ≤ s.stream.currentSegment

/-! ## The invariants of a run -/

/-- What holds of a stream and its buffer, whatever the schedule. -/
structure EndInv (totalSize : Nat) (s : Sys) : Prop where
  stream : StreamInv s
  claims : ClaimInv s.shared
  size : s.shared.buf.totalSize = totalSize
  errored : s.stream.errored = true → s.stream.Failed

/-- At the start. -/
theorem endInv_start (h : file.length = totalSize) :
    EndInv totalSize (openStream (start totalSize file)) where
  stream := streamInv_openStream (inOrder_start h)
  claims := claimInv_start totalSize file
  size := rfl
  errored h := nomatch h

/-- Only the first error sets `errored`, and it is yielded with it. -/
theorem errored_polled (h : st.errored = true → st.Failed) {b : SegmentsBuffer}
    {st' : StreamState} (hp : Polled b st r st') : st'.errored = true → st'.Failed := by
  cases hp with
  | tested => exact h
  | error => exact fun _ => ⟨_, List.mem_append_right _ (List.mem_singleton_self _)⟩
  | segmentOver => exact h
  | chunk =>
      intro he
      obtain ⟨msg, hmsg⟩ := h he
      exact ⟨msg, List.mem_append_left _ hmsg⟩
  | skip => exact h

theorem totalSize_claimed {sh sh' : Shared} {w : Nat} (h : Claimed sh w sh') :
    sh'.buf.totalSize = sh.buf.totalSize := by
  cases h with
  | exhausted _ hb => rcases hb with rfl | ⟨rfl, -⟩ <;> rfl
  | range => rfl

/-- **Step** of the stream or of a thread. -/
theorem endInv_step (h : EndInv totalSize s) (hdata : ReadsData a)
    (hs : sysStep s a = some s') : EndInv totalSize s' := by
  have hstream := streamInv_step h.stream hdata hs
  cases sysStepped_of_sysStep hs with
  | claim hc =>
      exact ⟨hstream, claimInv_of_claimed h.claims hc,
        (totalSize_claimed hc).trans h.size, h.errored⟩
  | worker hw _ _ =>
      exact ⟨hstream, claimInv_step h.claims hw, (totalSize_step hw).trans h.size,
        h.errored⟩
  | poll hp =>
      exact ⟨hstream, h.claims, h.size, errored_polled h.errored (polled_of_poll hp)⟩

/-! ## The last step of a stream -/

/-- The two ways to end. -/
theorem done_polled {b : SegmentsBuffer} {st' : StreamState} (hp : Polled b st r st')
    (hdone : st'.pc = .done) :
    st' = { st with pc := .done } ∧
      (st.errored = true ∨ (st.pc = .completedTest ∧ b.allCompleted = true)) := by
  obtain ⟨heq, ht⟩ := tested_of_polled hp hdone nofun
  refine ⟨heq, ?_⟩
  cases ht with
  | failedTwice _ he => exact Or.inl he
  | completed hpc hd => exact Or.inr ⟨hpc, hd⟩

/-- When `all_completed()` is asked, the bytes sent are those of the
    segments before the cursor. -/
theorem EndInv.sent_at_test (h : EndInv totalSize s) (hpc : s.stream.pc = .completedTest) :
    Chain 0 (s.shared.buf.ranges.take s.stream.currentSegment) s.stream.sent.length := by
  obtain ⟨m, hm, hlen⟩ := h.stream.cursor
  have hat := h.stream.at_pc
  simp only [AtPc] at hat
  rw [hpc] at hat
  have h0 : s.stream.offsetInSegment = 0 := hat
  rw [h0, Nat.add_zero] at hlen
  rw [hlen]
  exact hm

/-- A true answer with nothing behind the cursor: everything was sent. -/
theorem EndInv.sent_all (h : EndInv totalSize s) (hpc : s.stream.pc = .completedTest)
    (hdone : s.shared.buf.allCompleted = true)
    (hsync : s.shared.buf.numSegments ≤ s.stream.currentSegment) :
    s.stream.sent.length = totalSize := by
  have hchain := h.sent_at_test hpc
  rw [List.take_of_length_le (by rw [length_ranges]; exact hsync)] at hchain
  have hend := hchain.end_unique h.stream.env.chain
  rw [hend, ClaimInv.next_eq h.claims hdone, h.size]

/-- With a segment behind the cursor its bytes, at least, were not sent. -/
theorem EndInv.sent_less (h : EndInv totalSize s) (hpc : s.stream.pc = .completedTest)
    (hlate : s.stream.currentSegment < s.shared.buf.numSegments) :
    s.stream.sent.length < totalSize := by
  obtain ⟨seg, hseg⟩ : ∃ seg, s.shared.buf.segments[s.stream.currentSegment]? = some seg :=
    ⟨_, List.getElem?_eq_getElem hlate⟩
  have hstart := h.stream.env.chain.getElem_start (h.sent_at_test hpc)
    (mem_ranges_of_getElem? hseg)
  have hproper := h.stream.env.seg_proper hseg
  have hle := h.stream.env.seg_le hseg
  have hnext := h.stream.env.next_le
  rw [h.size] at hnext
  change seg.start = _ at hstart
  omega

/-- No step takes an ended stream back, and what it has sent stays. -/
theorem ended_step (hs : sysStep s a = some s') (hdone : s.stream.pc = .done) :
    s'.stream = s.stream := by
  cases sysStepped_of_sysStep hs with
  | claim => rfl
  | worker => rfl
  | poll hp =>
      rw [poll] at hp
      rw [hdone] at hp
      cases hp

/-! ## The end, exactly -/

/-- **The end of a stream, exactly**: a stream that has ended without an
    error, in a run in which every read returned data, has sent all bytes of
    the file if and only if no segment was pushed between its last two
    looks, at `num_segments()` and at `all_completed()`. -/
theorem ends_at_total_iff (hlen : file.length = totalSize)
    (hdata : ∀ a ∈ acts, ReadsData a)
    (hrun : run sysStep (openStream (start totalSize file)) acts = some s)
    (hdone : s.stream.pc = .done) (hok : ¬ s.stream.Failed) :
    s.stream.sent.length = totalSize ↔
      Along sysStep EndsInSync (openStream (start totalSize file)) acts := by
  have h₀ : EndInv totalSize (openStream (start totalSize file)) := endInv_start hlen
  have hreads : Along sysStep (fun _ a => ReadsData a)
      (openStream (start totalSize file)) acts := along_of_mem fun a ha _ => hdata a ha
  constructor
  · intro hsent
    -- an early end would have lasted
    have hnever : Always sysStep
        (fun s => s.stream.pc = .done → s.stream.sent.length = totalSize)
        (openStream (start totalSize file)) acts := by
      refine always_of_last ?_ hrun (fun _ => hsent)
      intro s a s' hs hP hd
      have hsame := ended_step hs hd
      rw [hsame] at hP
      exact hP hd
    have hinv : Always sysStep (EndInv totalSize)
        (openStream (start totalSize file)) acts :=
      always_of_along (fun _ _ _ => endInv_step) (fun _ h => h) h₀ hreads
    refine along_of_always ?_ hrun (always_and hinv hnever)
    rintro s a s' ⟨hi, -⟩ hs ⟨-, hP'⟩ ⟨r, rfl⟩ hpc hd
    by_contra hlate
    have hless := hi.sent_less hpc (not_le.mp hlate)
    have hs' : some { s with stream := { s.stream with pc := .done } } = some s' := by
      rw [← hs]
      show _ = (poll s.shared.buf s.stream r).map _
      rw [poll]
      rw [hpc]
      simp only [hd, if_true, Option.map_some]
    cases hs'
    exact absurd (hP' rfl) (Nat.ne_of_lt hless)
  · intro hsync
    have hend := along_invariant
      (I := fun s => EndInv totalSize s ∧
        (s.stream.pc = .done → s.stream.Failed ∨ s.stream.sent.length = totalSize))
      ?_ ⟨h₀, (by rintro ⟨⟩)⟩ (along_and hreads hsync) hrun
    · rcases hend.2 hdone with hf | hall
      · exact absurd hf hok
      · exact hall
    · rintro s a s' ⟨hi, hP⟩ ⟨hd, hG⟩ hs
      refine ⟨endInv_step hi hd hs, ?_⟩
      cases sysStepped_of_sysStep hs with
      | claim => exact hP
      | worker => exact hP
      | poll hp =>
          intro hdone
          obtain ⟨heq, hwhy⟩ := done_polled (polled_of_poll hp) hdone
          subst heq
          rcases hwhy with he | ⟨hpc, hcomp⟩
          · exact Or.inl (hi.errored he)
          · exact Or.inr (hi.sent_all hpc hcomp (hG ⟨_, rfl⟩ hpc hcomp))

/-- A stream whose only item is a chunk has not failed. -/
theorem not_failed_of_yielded {bytes : Bytes} (h : st.yielded = [.ok bytes]) :
    ¬ st.Failed := by
  rintro ⟨msg, hmsg⟩
  rw [h] at hmsg
  exact nomatch List.mem_singleton.mp hmsg

/-- A two-byte file in two segments.  The stream has sent the first byte and
    found no second segment; before it asks `all_completed()`, the second
    byte is claimed and completed and the file found exhausted. -/
def lateSegment : List Act :=
  let byte w off : List Act :=
    [.claim w 1, .worker w (.write off [7]), .worker w .setReady, .worker w .addReady]
  byte 0 0 ++ List.replicate 14 (.poll (.ok 1)) ++ byte 1 1 ++ [.claim 0 1] ++
    [.poll (.ok 1)]

theorem ends_early :
    ∃ s, run sysStep (openStream (start 2 [0, 0])) lateSegment = some s ∧
      s.stream.pc = .done ∧ ¬ s.stream.Failed ∧ s.stream.sent.length = 1 := by
  have hany : (run sysStep (openStream (start 2 [0, 0])) lateSegment).any (fun s =>
      decide (s.stream.pc = .done ∧ s.stream.yielded = [.ok [7]])) = true := by decide
  obtain ⟨s, hrun, hs⟩ := run_of_any hany
  obtain ⟨hpc, hyield⟩ := of_decide_eq_true hs
  exact ⟨s, hrun, hpc, not_failed_of_yielded hyield, by unfold sent; rw [hyield]; rfl⟩

/-- A one-byte file, and a stream that looks when all is over. -/
def oneByte : List Act :=
  [.claim 0 1, .worker 0 .setReady, .worker 0 .addReady, .claim 0 1]
    ++ List.replicate 15 (.poll (.ok 1))

theorem ends_at_total_oneByte :
    ∃ s, run sysStep (openStream (start 1 [7])) oneByte = some s ∧
      (s.stream.sent.length = 1 ↔
        Along sysStep EndsInSync (openStream (start 1 [7])) oneByte) := by
  have hany : (run sysStep (openStream (start 1 [7])) oneByte).any (fun s =>
      decide (s.stream.pc = .done ∧ s.stream.yielded = [.ok [7]])) = true := by decide
  obtain ⟨s, hrun, hs⟩ := run_of_any hany
  obtain ⟨hpc, hyield⟩ := of_decide_eq_true hs
  refine ⟨s, hrun, ends_at_total_iff rfl ?_ hrun hpc (not_failed_of_yielded hyield)⟩
  intro a ha r hr
  subst hr
  have hr : r = .ok 1 := by simpa [oneByte] using ha
  exact ⟨0, hr⟩

end BlitzStreamEnd
