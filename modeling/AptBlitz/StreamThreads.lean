import AptBlitz.StreamEnd

/-! # A stream among threads that claim in two steps

    `sysStep` takes the claims whole.  Here a claim may also come in its two
    steps, with anything between them, so the segments need not be in the
    order of the file; and the stream may be on any buffer at all.

    What a closure knows of the segment under its cursor needs less than that
    order: segments are added behind, their bounds stay, and ready ones stay
    ready (`Extends`).  `Seated` is what then holds at every moment. -/

namespace BlitzStreamThreads

open BlitzBuffer SegmentsBuffer BlitzClaims BlitzCompletion BlitzStream BlitzStreamRuns
open StreamState Runs

/-- One step of the stream, or any step of a thread. -/
def threadsStep (s : Sys) : Act → Option Sys
  | .claim w p => (claimWhole s.shared w p).map fun sh => { s with shared := sh }
  | .worker w op => (threadStep s.shared w op).map fun sh => { s with shared := sh }
  | .poll readAt =>
      (poll s.shared.buf s.stream readAt).map fun st => { s with stream := st }

/-- A step is one of a thread, which leaves the stream alone, or one of the
    stream. -/
inductive ThreadsStepped (s : Sys) : Act → Sys → Prop
  | claim {w p sh} (h : Claimed s.shared w sh) :
      ThreadsStepped s (.claim w p) { s with shared := sh }
  | worker {w op sh} (h : Stepped s.shared w op sh) :
      ThreadsStepped s (.worker w op) { s with shared := sh }
  | poll {r st} (h : BlitzStream.poll s.shared.buf s.stream r = some st) :
      ThreadsStepped s (.poll r) { s with stream := st }

variable {s s' : Sys} {sh sh' : Shared} {b b' : SegmentsBuffer} {st st' : StreamState}
  {w : Nat} {op : Op} {a : Act} {r : Except IoError Nat} {acts : List Act}

/-- The steps with whole claims are steps. -/
theorem threadsStep_of_sysStep (h : sysStep s a = some s') : threadsStep s a = some s' := by
  cases a with
  | claim w p => exact h
  | worker w op =>
      cases op with
      | cas p => cases h
      | push => cases h
      | write off data => exact h
      | setReady => exact h
      | addReady => exact h
      | abandon => exact h
      | setFailed => exact h
  | poll r => exact h

theorem threadsRun_of_sysRun (h : run sysStep s acts = some s') :
    run threadsStep s acts = some s' := by
  induction acts generalizing s with
  | nil => exact h
  | cons a acts ih =>
      obtain ⟨m, hm, hrest⟩ := run_cons_some h
      rw [run_cons (threadsStep_of_sysStep hm)]
      exact ih hrest

/-- **What the threads do**: `threadsStep` does nothing but this. -/
theorem stepped_of_threadsStep (h : threadsStep s a = some s') : ThreadsStepped s a s' := by
  cases a with
  | claim w p =>
      obtain ⟨sh, hsh, heq⟩ := Option.map_eq_some_iff.mp h
      subst heq
      exact .claim (claimed_of_claimWhole hsh)
  | worker w op =>
      obtain ⟨sh, hsh, heq⟩ := Option.map_eq_some_iff.mp h
      subst heq
      exact .worker (stepped_of_threadStep hsh)
  | poll r =>
      obtain ⟨st, hst, heq⟩ := Option.map_eq_some_iff.mp h
      subst heq
      exact .poll hst

/-! ## The buffer under a stream -/

/-- What any step of a thread leaves to the stream. -/
structure Extends (b b' : SegmentsBuffer) : Prop where
  ready : ∀ (i : Nat) (seg : Segment), b.segments[i]? = some seg → seg.state = .ready →
    b'.segments[i]? = some seg
  ranges : b.ranges <+: b'.ranges

theorem extends_of_eq (h : b'.segments = b.segments) : Extends b b' where
  ready i seg hi _ := by rw [h]; exact hi
  ranges := by
    have : b'.ranges = b.ranges := by unfold ranges; rw [h]
    rw [this]

/-- A new segment comes last. -/
theorem extends_claimPush {q : Nat × Nat} : Extends b (b.claimPush q).1 where
  ready i seg hi _ := by
    have := (List.getElem?_eq_some_iff.mp hi).1
    show (b.segments ++ [_])[i]? = some seg
    rw [List.getElem?_append_left this, hi]
  ranges := by
    rw [ranges_claimPush]
    exact List.prefix_append _ _

/-- **Step** of a thread: segments stay, and ready ones stay ready. -/
theorem extends_stepped (h : Stepped sh w op sh') : Extends sh.buf sh'.buf := by
  cases h with
  | exhausted _ hb =>
      rcases hb with rfl | ⟨rfl, -⟩
      · exact extends_of_eq rfl
      · exact extends_of_eq rfl
  | cas => exact extends_of_eq rfl
  | push => exact extends_claimPush
  | write => exact extends_of_eq rfl
  | setReady =>
      exact ⟨fun i seg hi hr => setReady_of_ready hi hr, by rw [put_buf, ranges_setReady]⟩
  | addReady => exact extends_of_eq rfl
  | abandon => exact extends_of_eq rfl
  | setFailed => exact extends_of_eq rfl

/-- A whole claim. -/
theorem extends_claimed (h : Claimed sh w sh') : Extends sh.buf sh'.buf := by
  cases h with
  | exhausted _ hb =>
      rcases hb with rfl | ⟨rfl, -⟩
      · exact extends_of_eq rfl
      · exact extends_of_eq rfl
  | range => exact ⟨extends_claimPush.ready, extends_claimPush.ranges⟩

theorem Extends.length_le (h : Extends b b') : b.segments.length ≤ b'.segments.length := by
  rw [← length_ranges, ← length_ranges]
  exact h.ranges.length_le

/-! ## The cursor -/

/-- Where a cursor is, on any buffer. -/
structure Seated (b : SegmentsBuffer) (st : StreamState) : Prop where
  at_pc : AtPc b st
  cur_le : st.currentSegment ≤ b.segments.length
  within : st.offsetInSegment = 0 ∨
    ∃ seg, AtReady b st seg ∧ seg.start + st.offsetInSegment ≤ seg.end
  listed : st.pc = .readyTest → st.currentSegment < b.segments.length

theorem seated_initial : Seated b initial where
  at_pc := trivial
  cur_le := Nat.zero_le _
  within := Or.inl rfl
  listed h := by cases h

/-- What the threads do leaves the cursor where it is. -/
theorem Seated.extends (h : Seated b st) (hx : Extends b b') : Seated b' st where
  at_pc := h.at_pc.keep hx.ready
  cur_le := le_trans h.cur_le hx.length_le
  within := by
    rcases h.within with h0 | ⟨seg, hseg, hle⟩
    · exact Or.inl h0
    · exact Or.inr ⟨seg, ⟨hx.ready _ _ hseg.1 hseg.2, hseg.2⟩, hle⟩
  listed hpc := lt_of_lt_of_le (h.listed hpc) hx.length_le

/-- The segment a read goes to, and what is left of it. -/
theorem Seated.reading (h : Seated b st) {pos rem : Nat} (hpc : st.pc = .read pos rem) :
    ∃ seg, AtReady b st seg ∧ pos = seg.start + st.offsetInSegment ∧
      pos + rem = seg.end ∧ 0 < rem := by
  have hat := h.at_pc
  rw [AtPc] at hat
  rw [hpc] at hat
  exact hat

/-- At the end of a segment the cursor is neither before it nor behind it. -/
theorem Seated.over (h : Seated b st) {a : Nat} (hpc : st.pc = .segEnd a)
    (hge : b.segmentEnd st.currentSegment ≤ a + st.offsetInSegment) :
    ∃ seg, AtReady b st seg ∧ st.offsetInSegment = seg.end - seg.start := by
  have hat := h.at_pc
  rw [AtPc] at hat
  rw [hpc] at hat
  obtain ⟨seg, hseg, ha⟩ := hat
  have hend : b.segmentEnd st.currentSegment = seg.end := by
    unfold segmentEnd; rw [hseg.1]
  rw [hend, ha] at hge
  refine ⟨seg, hseg, ?_⟩
  rcases h.within with h0 | ⟨seg', hseg', hle⟩
  · omega
  · have hsame : seg' = seg := Option.some.inj (hseg'.1.symm.trans hseg.1)
    rw [hsame] at hle
    omega

theorem atReady_lt {seg : Segment} (h : AtReady b st seg) :
    st.currentSegment < b.segments.length := (List.getElem?_eq_some_iff.mp h.1).1

/-- The cursor may move on from a listed segment. -/
theorem seated_nextSegment {seg : Segment} (h : AtReady b st seg) :
    Seated b st.nextSegment where
  at_pc := trivial
  cur_le := atReady_lt h
  within := Or.inl rfl
  listed hpc := by cases hpc

/-- Only a segment that `num_segments()` counts is asked `is_ready`. -/
theorem listed_poll (h : poll b st r = some st') (hpc' : st'.pc = .readyTest) :
    st'.currentSegment < b.segments.length := by
  have hpc : st.pc = .cmpLen := by
    cases (tested_of_polled (polled_of_poll h) hpc' nofun).2 with
    | listed hpc => exact hpc
  rw [poll] at h
  simp only [hpc] at h
  split at h
  next => cases h; cases hpc'
  next hlt =>
    cases h
    exact not_le.mp hlt

/-- **A step of the closure** leaves the cursor seated. -/
theorem Seated.poll (h : Seated b st) (hp : poll b st r = some st') : Seated b st' := by
  have hlisted : st'.pc = .readyTest → st'.currentSegment < b.segments.length :=
    listed_poll hp
  cases polled_of_poll hp with
  | tested ht =>
      refine ⟨h.at_pc.tested ?_ ht, h.cur_le, h.within, hlisted⟩
      rcases h.within with h0 | ⟨seg, hseg, -⟩
      · exact Or.inl h0
      · exact Or.inr ⟨seg, hseg⟩
  | error hpc =>
      refine ⟨?_, h.cur_le, h.within, hlisted⟩
      have hpc' : st.yieldError.pc = .top := hpc
      rw [AtPc]
      rw [hpc']
      exact trivial
  | segmentOver hpc hge =>
      obtain ⟨seg, hseg, -⟩ := h.over hpc hge
      exact seated_nextSegment hseg
  | chunk hpc hr hn hle hin =>
      obtain ⟨seg, hseg, hpos, hend, -⟩ := h.reading hpc
      refine ⟨trivial, h.cur_le, Or.inr ⟨seg, hseg, ?_⟩, hlisted⟩
      show seg.start + (st.offsetInSegment + _) ≤ seg.end
      rw [length_read hin]
      omega
  | skip hpc =>
      obtain ⟨seg, hseg, -⟩ := h.reading hpc
      exact seated_nextSegment hseg

/-- **Step**: the stream's place is in the buffer. -/
theorem seated_step (h : Seated s.shared.buf s.stream) (hs : threadsStep s a = some s') :
    Seated s'.shared.buf s'.stream := by
  cases stepped_of_threadsStep hs with
  | claim hc => exact h.extends (extends_claimed hc)
  | worker hw => exact h.extends (extends_stepped hw)
  | poll hp => exact h.poll hp

/-! ## Sizes -/

/-- How many bytes there are in ranges. -/
def sizes : List (Nat × Nat) → Nat
  | [] => 0
  | q :: rs => (q.2 - q.1) + sizes rs

variable {rs : List (Nat × Nat)} {i : Nat} {q : Nat × Nat}

/-- One range more. -/
theorem sizes_take_succ (h : rs[i]? = some q) :
    sizes (rs.take (i + 1)) = sizes (rs.take i) + (q.2 - q.1) := by
  induction rs generalizing i with
  | nil => cases h
  | cons p rs ih =>
      cases i with
      | zero =>
          cases h
          simp only [List.take_succ_cons, List.take_zero, sizes]
          omega
      | succ i =>
          have htail := ih (i := i) h
          simp only [List.take_succ_cons, sizes] at htail ⊢
          omega

theorem sizes_drop (h : rs[i]? = some q) :
    sizes (rs.drop i) = (q.2 - q.1) + sizes (rs.drop (i + 1)) := by
  obtain ⟨hlt, heq⟩ := List.getElem?_eq_some_iff.mp h
  rw [List.drop_eq_getElem_cons hlt, heq, sizes]

end BlitzStreamThreads
