import AptBlitz.Completion
import AptBlitz.Stream

/-! # What a stream sends

    The cursor `(current_segment, offset_in_segment)`, the readiness of the
    segments and the bytes sent move together: the bytes sent are the file up
    to the cursor, and no segment that is not ready starts before it
    (`StreamInv`).  So what has been sent is a prefix of the file at every
    moment.

    The steps of the other threads come in through `Grows`, which says all
    that a stream can notice of them: segments are added behind, ready ones
    stay as they are, and bytes change in the others only. -/

namespace BlitzStreamRuns

open BlitzBuffer SegmentsBuffer BlitzClaims BlitzCompletion BlitzStream
open StreamState Runs Tiling

variable {s s' : Sys} {sh sh' : Shared} {b b' : SegmentsBuffer} {st st' : StreamState}
  {w : Nat} {op : Op} {a : Act} {acts acts' : List Act} {totalSize : Nat} {file : Bytes}

/-! ## The buffer under a stream -/

/-- What the stream needs of the buffer and of its users: the segments are
    contiguous in index order up to `next_unassigned` (claims are whole), and
    a thread only has a segment that is not ready. -/
structure InOrder (s : Shared) : Prop where
  chain : Chain 0 s.buf.ranges s.buf.nextUnassigned
  proper : ∀ r ∈ s.buf.ranges, r.1 < r.2
  next_le : s.buf.nextUnassigned ≤ s.buf.totalSize
  file_len : s.buf.file.length = s.buf.totalSize
  quiet : NoClaimPending s
  held : ∀ w id a z, s.calls w = .holds id a z →
    s.buf.segments[id]? = some ⟨a, z, .downloading⟩
  one_holder : ∀ v w id a z a' z', s.calls v = .holds id a z →
    s.calls w = .holds id a' z' → v = w

/-- A new buffer whose file has been given its length. -/
theorem inOrder_start (h : file.length = totalSize) : InOrder (start totalSize file) where
  chain := rfl
  proper _ hr := nomatch hr
  next_le := Nat.zero_le _
  file_len := h
  quiet _ _ _ h := nomatch h
  held _ _ _ _ h := nomatch h
  one_holder _ _ _ _ _ _ _ h := nomatch h

/-- What any step of the others leaves to the stream: ready segments stay,
    new segments come behind, and bytes change only in segments that are not
    ready. -/
structure Grows (b b' : SegmentsBuffer) : Prop where
  ready : ∀ (i : Nat) (seg : Segment), b.segments[i]? = some seg → seg.state = .ready →
    b'.segments[i]? = some seg
  length_le : b.segments.length ≤ b'.segments.length
  ranges_take : b'.ranges.take b.segments.length = b.ranges
  next_le : b.nextUnassigned ≤ b'.nextUnassigned
  unready : ∀ seg' ∈ b'.segments, seg'.state = .downloading →
    (∃ seg ∈ b.segments, seg.state = .downloading ∧ seg.start = seg'.start) ∨
      b.nextUnassigned ≤ seg'.start
  file : ∀ x : Nat, (∀ seg ∈ b.segments, seg.state = .downloading → x < seg.start) →
    b'.file[x]? = b.file[x]?

/-- Steps that leave the segments and the file alone. -/
theorem grows_of_eq (hseg : b'.segments = b.segments)
    (hnext : b'.nextUnassigned = b.nextUnassigned) (hfile : b'.file = b.file) :
    Grows b b' where
  ready i seg hi _ := by rw [hseg]; exact hi
  length_le := by rw [hseg]
  ranges_take := by
    have : b'.ranges = b.ranges := by unfold ranges; rw [hseg]
    rw [this, ← length_ranges, List.take_length]
  next_le := by rw [hnext]
  unready seg' hm hd := Or.inl ⟨seg', hseg ▸ hm, hd, rfl⟩
  file x _ := by rw [hfile]

/-- A segment becomes ready. -/
theorem grows_setReady {id : Nat} : Grows b (b.setReady id) where
  ready i seg hi hr := setReady_of_ready hi hr
  length_le := by rw [length_setReady]
  ranges_take := by rw [ranges_setReady, ← length_ranges, List.take_length]
  next_le := Nat.le_refl _
  unready seg' hm hd := by
    obtain ⟨i, hi⟩ := List.mem_iff_getElem?.mp hm
    by_cases hid : i = id
    · subst hid
      cases hb : b.segments[i]? with
      | none =>
          have := (List.getElem?_eq_some_iff.mp hi).1
          rw [length_setReady] at this
          rw [List.getElem?_eq_getElem this] at hb
          exact nomatch hb
      | some seg =>
          rw [setReady_self hb] at hi
          cases hi
          exact nomatch hd
    · rw [setReady_of_ne hid] at hi
      exact Or.inl ⟨seg', List.mem_of_getElem? hi, hd, rfl⟩
  file x _ := rfl

/-- A write goes to a segment that is not ready. -/
theorem grows_write {off : Nat} {data : Bytes} {seg : Segment} (hseg : seg ∈ b.segments)
    (hd : seg.state = .downloading) (hlo : seg.start ≤ off)
    (hin : off + data.length ≤ b.file.length) :
    Grows b { b with file := FileContent.overwrite 0 b.file off data } where
  ready i sg hi _ := hi
  length_le := Nat.le_refl _
  ranges_take := by
    show b.ranges.take b.segments.length = b.ranges
    rw [← length_ranges, List.take_length]
  next_le := Nat.le_refl _
  unready seg' hm hd' := Or.inl ⟨seg', hm, hd', rfl⟩
  file x hx := by
    have := hx seg hseg hd
    exact FileContent.getElem?_overwrite_of_outside hin (by omega)

/-- A claim adds a segment behind all others. -/
theorem grows_claim {r : Nat × Nat} (hr : r.1 = b.nextUnassigned) (hlt : r.1 < r.2) :
    Grows b (({ b with nextUnassigned := r.2 } : SegmentsBuffer).claimPush r).1 where
  ready i seg hi _ := by
    have := (List.getElem?_eq_some_iff.mp hi).1
    show (b.segments ++ [_])[i]? = some seg
    rw [List.getElem?_append_left this, hi]
  length_le := by
    show b.segments.length ≤ (b.segments ++ [_]).length
    rw [List.length_append]
    exact Nat.le_add_right ..
  ranges_take := by
    rw [ranges_claimPush]
    show (b.ranges ++ [r]).take b.segments.length = b.ranges
    rw [← length_ranges, List.take_left]
  next_le := by show b.nextUnassigned ≤ r.2; omega
  unready seg' hm hd := by
    rcases List.mem_append.mp hm with hold | hnew
    · exact Or.inl ⟨seg', hold, hd, rfl⟩
    · rw [List.mem_singleton.mp hnew]
      exact Or.inr (Nat.le_of_eq hr.symm)
  file x _ := rfl

/-- Steps that push nothing and start no call: the facts about threads
    stay. -/
theorem InOrder.put (h : InOrder sh) {c : Call}
    (hnext : b'.nextUnassigned = sh.buf.nextUnassigned)
    (hsize : b'.totalSize = sh.buf.totalSize) (hranges : b'.ranges = sh.buf.ranges)
    (hfile : b'.file.length = sh.buf.file.length)
    (hsegs : ∀ v id a z, v ≠ w → sh.calls v = .holds id a z →
      b'.segments[id]? = sh.buf.segments[id]?)
    (hclaim : c.claim = none)
    (hc : ∀ id a z, c = .holds id a z → sh.calls w = .holds id a z ∧
      b'.segments[id]? = some ⟨a, z, .downloading⟩) :
    InOrder (sh.put b' w c) := by
  have hold : ∀ {v id a z}, (sh.put b' w c).calls v = .holds id a z →
      sh.calls v = .holds id a z := by
    intro v id a z hv
    by_cases hvw : v = w
    · subst hvw; rw [put_calls_self] at hv; exact (hc id a z hv).1
    · rwa [put_calls_of_ne hvw] at hv
  refine ⟨?_, ?_, ?_, ?_, ?_, ?_, ?_⟩
  · rw [put_buf, hranges, hnext]; exact h.chain
  · rw [put_buf, hranges]; exact h.proper
  · rw [put_buf, hnext, hsize]; exact h.next_le
  · rw [put_buf, hfile, hsize]; exact h.file_len
  · exact h.quiet.put hclaim
  · intro v id a z hv
    by_cases hvw : v = w
    · subst hvw
      rw [put_calls_self] at hv
      exact (hc id a z hv).2
    · rw [put_buf, hsegs v id a z hvw (hold hv)]
      exact h.held v id a z (hold hv)
  · intro u v id a z a' z' hu hv
    exact h.one_holder u v id a z a' z' (hold hu) (hold hv)

/-- A thread that lets go of its segment. -/
theorem InOrder.put_idle (h : InOrder sh) (hnext : b'.nextUnassigned = sh.buf.nextUnassigned)
    (hsize : b'.totalSize = sh.buf.totalSize) (hseg : b'.segments = sh.buf.segments)
    (hfile : b'.file = sh.buf.file) : InOrder (sh.put b' w .idle) :=
  h.put hnext hsize (by unfold ranges; rw [hseg]) (by rw [hfile])
    (fun _ _ _ _ _ _ => by rw [hseg]) rfl nofun

/-- The steps of the threads, claims apart, keep the order. -/
theorem inOrder_stepped (h : InOrder sh) (hs : Stepped sh w op sh')
    (hcas : ∀ p, op ≠ .cas p) (hpush : op ≠ .push) :
    InOrder sh' ∧ Grows sh.buf sh'.buf := by
  cases hs with
  | exhausted => exact absurd rfl (hcas _)
  | cas => exact absurd rfl (hcas _)
  | push => exact absurd rfl hpush
  | write hw hlo hhi =>
      rename_i id a z off data
      have hseg := h.held w id a z hw
      have hmem := List.mem_of_getElem? hseg
      have hz : z ≤ sh.buf.nextUnassigned :=
        h.chain.mem_le h.proper (List.mem_map.mpr ⟨_, hmem, rfl⟩)
      -- the write stays inside the file, which has its full length
      have hin : off + data.length ≤ sh.buf.file.length := by
        have := h.next_le
        have := h.file_len
        omega
      refine ⟨h.put rfl rfl rfl (FileContent.length_overwrite hin)
        (fun _ _ _ _ _ _ => rfl) rfl ?_, grows_write hmem rfl hlo hin⟩
      intro i a' z' hc
      cases hc
      exact ⟨hw, hseg⟩
  | setReady hw =>
      rename_i id a z
      refine ⟨h.put rfl rfl ranges_setReady rfl ?_ rfl nofun, grows_setReady⟩
      intro v i a' z' hvw hv
      -- no other thread holds the segment that becomes ready
      refine setReady_of_ne ?_
      intro hi
      subst hi
      exact hvw (h.one_holder v w i a' z' a z hv hw)
  | addReady hw =>
      exact ⟨h.put_idle rfl rfl rfl rfl, grows_of_eq rfl rfl rfl⟩
  | abandon hw =>
      exact ⟨h.put_idle rfl rfl rfl rfl, grows_of_eq rfl rfl rfl⟩
  | setFailed =>
      exact ⟨h.put rfl rfl rfl rfl (fun _ _ _ _ _ _ => rfl) (h.quiet.claim_eq_none w)
        (fun i a z hc => ⟨hc, h.held w i a z hc⟩), grows_of_eq rfl rfl rfl⟩

/-- A whole claim keeps the order: its segment starts where the vector
    ends, and its id is nobody's. -/
theorem inOrder_claimed (h : InOrder sh) (hs : Claimed sh w sh') :
    InOrder sh' ∧ Grows sh.buf sh'.buf := by
  cases hs with
  | exhausted hw hb =>
      rcases hb with rfl | ⟨rfl, -⟩
      · exact ⟨h.put_idle rfl rfl rfl rfl, grows_of_eq rfl rfl rfl⟩
      · exact ⟨h.put_idle rfl rfl rfl rfl, grows_of_eq rfl rfl rfl⟩
  | range hw hr hlt hle =>
      rename_i r
      refine ⟨⟨?_, ?_, hle, h.file_len, ?_, ?_, ?_⟩, grows_claim hr hlt⟩
      · rw [put_buf, ranges_claimPush]
        exact h.chain.snoc hr
      · intro q hq
        rw [put_buf, ranges_claimPush] at hq
        rcases List.mem_append.mp hq with hold | hnew
        · exact h.proper q hold
        · rw [List.mem_singleton.mp hnew]
          exact hlt
      · exact h.quiet.put rfl
      · intro v id a z hv
        by_cases hvw : v = w
        · subst hvw
          rw [put_calls_self] at hv
          cases hv
          show (sh.buf.segments ++ [_])[sh.buf.segments.length]? = _
          rw [List.getElem?_append_right (Nat.le_refl _), Nat.sub_self]
          rfl
        · rw [put_calls_of_ne hvw] at hv
          have hseg := h.held v id a z hv
          show (sh.buf.segments ++ [_])[id]? = _
          rw [List.getElem?_append_left (List.getElem?_eq_some_iff.mp hseg).1, hseg]
      · intro u v id a z a' z' hu hv
        -- only `w` has the new id: the old ids are below the old length
        by_cases huw : u = w <;> by_cases hvw : v = w
        · rw [huw, hvw]
        · subst huw
          rw [put_calls_self] at hu
          rw [put_calls_of_ne hvw] at hv
          cases hu
          have := (List.getElem?_eq_some_iff.mp (h.held v _ a' z' hv)).1
          exact absurd this (lt_irrefl _)
        · subst hvw
          rw [put_calls_self] at hv
          rw [put_calls_of_ne huw] at hu
          cases hv
          have := (List.getElem?_eq_some_iff.mp (h.held u _ a z hu)).1
          exact absurd this (lt_irrefl _)
        · rw [put_calls_of_ne huw] at hu
          rw [put_calls_of_ne hvw] at hv
          exact h.one_holder u v id a z a' z' hu hv

/-! ## The cursor -/

/-- The segment under the cursor is ready. -/
def AtReady (b : SegmentsBuffer) (st : StreamState) (seg : Segment) : Prop :=
  b.segments[st.currentSegment]? = some seg ∧ seg.state = .ready

/-- What the closure knows of the segment under its cursor, by the call it
    makes next. -/
def AtPc (b : SegmentsBuffer) (st : StreamState) : Prop :=
  match st.pc with
  | .emptyTest => st.offsetInSegment = 0
  | .completedTest => st.offsetInSegment = 0
  | .segStart => ∃ seg, AtReady b st seg
  | .segEnd a => ∃ seg, AtReady b st seg ∧ a = seg.start
  | .read pos rem => ∃ seg, AtReady b st seg ∧ pos = seg.start + st.offsetInSegment ∧
      pos + rem = seg.end ∧ 0 < rem
  | _ => True

/-- The bytes sent are the file up to the cursor, and all of them come from
    ready segments. -/
structure StreamInv (s : Sys) : Prop where
  env : InOrder s.shared
  cur_le : s.stream.currentSegment ≤ s.shared.buf.segments.length
  cursor : ∃ m, Chain 0 (s.shared.buf.ranges.take s.stream.currentSegment) m ∧
    s.stream.sent.length = m + s.stream.offsetInSegment
  within : s.stream.offsetInSegment = 0 ∨
    ∃ seg, AtReady s.shared.buf s.stream seg ∧ s.stream.sent.length ≤ seg.end
  sent_next : s.stream.sent.length ≤ s.shared.buf.nextUnassigned
  unready : ∀ seg ∈ s.shared.buf.segments, seg.state = .downloading →
    s.stream.sent.length ≤ seg.start
  sent_prefix : s.stream.sent <+: s.shared.buf.file
  at_pc : AtPc s.shared.buf s.stream

/-- A stream just made on a buffer whose segments are in order. -/
theorem streamInv_openStream (h : InOrder sh) : StreamInv (openStream sh) where
  env := h
  cur_le := Nat.zero_le _
  cursor := ⟨0, rfl, rfl⟩
  within := Or.inl rfl
  sent_next := Nat.zero_le _
  unready _ _ _ := Nat.zero_le _
  sent_prefix := List.nil_prefix
  at_pc := trivial

theorem mem_ranges_of_getElem? {i : Nat} {seg : Segment}
    (h : b.segments[i]? = some seg) : b.ranges[i]? = some seg.range := by
  rw [getElem?_ranges, h]
  rfl

theorem InOrder.seg_proper (h : InOrder sh) {i : Nat} {seg : Segment}
    (hi : sh.buf.segments[i]? = some seg) : seg.start < seg.end :=
  h.proper _ (List.mem_of_getElem? (mem_ranges_of_getElem? hi))

theorem InOrder.seg_le (h : InOrder sh) {i : Nat} {seg : Segment}
    (hi : sh.buf.segments[i]? = some seg) : seg.end ≤ sh.buf.nextUnassigned :=
  h.chain.mem_le h.proper (List.mem_of_getElem? (mem_ranges_of_getElem? hi))

/-- The segment under the cursor starts where the cursor's own start is. -/
theorem StreamInv.sent_eq (h : StreamInv s) {seg : Segment}
    (hseg : s.shared.buf.segments[s.stream.currentSegment]? = some seg) :
    s.stream.sent.length = seg.start + s.stream.offsetInSegment := by
  obtain ⟨m, hm, hlen⟩ := h.cursor
  have hstart : seg.range.1 = m :=
    h.env.chain.getElem_start hm (mem_ranges_of_getElem? hseg)
  rw [hlen, ← hstart]
  rfl

/-- A ready segment stays under the cursor. -/
theorem Grows.atReady (h : Grows b b') {seg : Segment} (hat : AtReady b st seg) :
    AtReady b' st seg :=
  ⟨h.ready _ seg hat.1 hat.2, hat.2⟩

/-- Ready segments stay: what the closure knows stays true. -/
theorem AtPc.keep (hat : AtPc b st)
    (hready : ∀ (i : Nat) (seg : Segment), b.segments[i]? = some seg →
      seg.state = .ready → b'.segments[i]? = some seg) : AtPc b' st := by
  have hkept : ∀ {seg}, AtReady b st seg → AtReady b' st seg :=
    fun h => ⟨hready _ _ h.1 h.2, h.2⟩
  rw [AtPc] at hat ⊢
  split at hat
  · exact hat
  · exact hat
  · obtain ⟨seg, hseg⟩ := hat
    exact ⟨seg, hkept hseg⟩
  · obtain ⟨seg, hseg, ha⟩ := hat
    exact ⟨seg, hkept hseg, ha⟩
  · obtain ⟨seg, hseg, hpos⟩ := hat
    exact ⟨seg, hkept hseg, hpos⟩
  · exact trivial

/-- A test leaves the closure knowing what it has found. -/
theorem AtPc.tested (hat : AtPc b st)
    (hin : st.offsetInSegment = 0 ∨ ∃ seg, AtReady b st seg) {pc : Pc}
    (ht : Tested b st pc) : AtPc b { st with pc := pc } := by
  rw [AtPc] at hat
  cases ht with
  | alive => exact trivial
  | failedTwice => exact trivial
  | beyond hpc hlen =>
      show st.offsetInSegment = 0
      -- an offset into a segment means that the segment is listed
      rcases hin with h0 | ⟨seg, hseg⟩
      · exact h0
      · have := (List.getElem?_eq_some_iff.mp hseg.1).1
        omega
  | listed => exact trivial
  | someSegment hpc => rw [hpc] at hat; exact hat
  | completed => exact trivial
  | ready hpc hseg hr => exact ⟨_, hseg, hr⟩
  | started hpc =>
      rw [hpc] at hat
      obtain ⟨seg, hseg, hr⟩ := hat
      exact ⟨seg, ⟨hseg, hr⟩, by unfold segmentStart; rw [hseg]⟩
  | more hpc hlt =>
      rw [hpc] at hat
      obtain ⟨seg, ⟨hseg, hr⟩, ha⟩ := hat
      have hend : b.segmentEnd st.currentSegment = seg.end := by
        unfold segmentEnd; rw [hseg]
      rw [hend] at hlt ⊢
      refine ⟨seg, ⟨hseg, hr⟩, by rw [ha], ?_, by omega⟩
      omega
  | wait => exact trivial
  | woken => exact trivial

/-- **Steps of the others** keep the stream's invariant. -/
theorem StreamInv.grows (h : StreamInv s) (hin : InOrder sh)
    (hg : Grows s.shared.buf sh.buf) : StreamInv { s with shared := sh } where
  env := hin
  cur_le := le_trans h.cur_le hg.length_le
  cursor := by
    obtain ⟨m, hm, hlen⟩ := h.cursor
    refine ⟨m, ?_, hlen⟩
    -- the ranges before the cursor are old ones
    have htake : sh.buf.ranges.take s.stream.currentSegment
        = s.shared.buf.ranges.take s.stream.currentSegment := by
      rw [← hg.ranges_take, List.take_take, Nat.min_eq_left h.cur_le]
    show Chain 0 (sh.buf.ranges.take s.stream.currentSegment) m
    rw [htake]
    exact hm
  within := by
    rcases h.within with h0 | ⟨seg, hat, hle⟩
    · exact Or.inl h0
    · exact Or.inr ⟨seg, hg.atReady hat, hle⟩
  sent_next := le_trans h.sent_next hg.next_le
  unready seg' hm hd := by
    rcases hg.unready seg' hm hd with ⟨seg, hseg, hdl, heq⟩ | hnew
    · have := h.unready seg hseg hdl
      show s.stream.sent.length ≤ seg'.start
      omega
    · exact le_trans h.sent_next hnew
  sent_prefix := by
    rw [List.prefix_iff_getElem?]
    intro x hx
    have hx' : x < s.stream.sent.length := hx
    have hfile : sh.buf.file[x]? = s.shared.buf.file[x]? := by
      refine hg.file x ?_
      intro seg hseg hd
      exact lt_of_lt_of_le hx' (h.unready seg hseg hd)
    show sh.buf.file[x]? = _
    rw [hfile]
    exact (List.prefix_iff_getElem?.mp h.sent_prefix) x hx'
  at_pc := h.at_pc.keep hg.ready

/-- A test leaves the cursor where it is and knows what it has found. -/
theorem StreamInv.tested (h : StreamInv s) {pc : Pc}
    (ht : Tested s.shared.buf s.stream pc) :
    StreamInv { s with stream := { s.stream with pc := pc } } := by
  refine ⟨h.env, h.cur_le, h.cursor, h.within, h.sent_next, h.unready, h.sent_prefix, ?_⟩
  refine h.at_pc.tested ?_ ht
  rcases h.within with h0 | ⟨seg, hseg, -⟩
  · exact Or.inl h0
  · exact Or.inr ⟨seg, hseg⟩

/-- At the end of a segment the cursor moves on, and nothing is sent. -/
theorem StreamInv.segmentOver (h : StreamInv s) {a : Nat} (hpc : s.stream.pc = .segEnd a)
    (hge : s.shared.buf.segmentEnd s.stream.currentSegment
      ≤ a + s.stream.offsetInSegment) :
    StreamInv { s with stream := s.stream.nextSegment } := by
  have hat := h.at_pc
  rw [AtPc] at hat
  rw [hpc] at hat
  obtain ⟨seg, ⟨hseg, hr⟩, ha⟩ := hat
  have hend : s.shared.buf.segmentEnd s.stream.currentSegment = seg.end := by
    unfold segmentEnd; rw [hseg]
  rw [hend, ha] at hge
  have hsent := h.sent_eq hseg
  have hproper := h.env.seg_proper hseg
  -- the cursor is at the segment's end, not behind it
  have hover : s.stream.sent.length = seg.end := by
    rcases h.within with h0 | ⟨seg', hat', hle⟩
    · omega
    · have hsame : seg' = seg := Option.some.inj (hat'.1.symm.trans hseg)
      rw [hsame] at hle
      omega
  refine ⟨h.env, ?_, ?_, Or.inl rfl, h.sent_next, h.unready, h.sent_prefix, trivial⟩
  · exact (List.getElem?_eq_some_iff.mp hseg).1
  · obtain ⟨m, hm, -⟩ := h.cursor
    have hrange := mem_ranges_of_getElem? hseg
    exact ⟨seg.end, hm.take_succ hrange (h.env.chain.getElem_start hm hrange), hover⟩

/-- A chunk is the next bytes of the file, from the ready segment under the
    cursor. -/
theorem StreamInv.chunk (h : StreamInv s) {pos rem n : Nat}
    (hpc : s.stream.pc = .read pos rem) (hle : n ≤ rem)
    (hin : pos + n ≤ max pos s.shared.buf.file.length) :
    StreamInv { s with
      stream := s.stream.yieldChunk ((s.shared.buf.file.drop pos).take n) } := by
  have hat := h.at_pc
  rw [AtPc] at hat
  rw [hpc] at hat
  obtain ⟨seg, ⟨hseg, hr⟩, hpos, hrem, -⟩ := hat
  have hsent := h.sent_eq hseg
  have hchunk : ((s.shared.buf.file.drop pos).take n).length = n := length_read hin
  have hlen : (s.stream.yieldChunk ((s.shared.buf.file.drop pos).take n)).sent.length
      = s.stream.sent.length + n := by
    rw [sent_yieldChunk, List.length_append, hchunk]
  have hend : s.stream.sent.length + n ≤ seg.end := by omega
  refine ⟨h.env, h.cur_le, ?_, ?_, ?_, ?_, ?_, trivial⟩
  · obtain ⟨m, hm, hmlen⟩ := h.cursor
    refine ⟨m, hm, ?_⟩
    show _ = m + (s.stream.offsetInSegment + _)
    rw [hlen, hchunk, hmlen, Nat.add_assoc]
  · exact Or.inr ⟨seg, ⟨hseg, hr⟩, le_of_eq_of_le hlen hend⟩
  · exact le_of_eq_of_le hlen (le_trans hend (h.env.seg_le hseg))
  · intro seg' hm hd
    refine le_of_eq_of_le hlen ?_
    obtain ⟨j, hj⟩ := List.mem_iff_getElem?.mp hm
    have hold := h.unready seg' hm hd
    have hproper := h.env.seg_proper hj
    rcases Nat.lt_trichotomy j s.stream.currentSegment with hlt | heq | hgt
    · -- a segment before the cursor has been sent already
      have : seg'.end ≤ seg.start := h.env.chain.pos_le h.env.proper
        (mem_ranges_of_getElem? hj) (mem_ranges_of_getElem? hseg) hlt
      omega
    · rw [heq, hseg] at hj
      cases hj
      rw [hr] at hd
      exact nomatch hd
    · have : seg.end ≤ seg'.start := h.env.chain.pos_le h.env.proper
        (mem_ranges_of_getElem? hseg) (mem_ranges_of_getElem? hj) hgt
      omega
  · show (s.stream.yieldChunk _).sent <+: s.shared.buf.file
    rw [sent_yieldChunk, hpos, ← hsent]
    nth_rewrite 1 [List.prefix_iff_eq_take.mp h.sent_prefix]
    rw [← List.take_add]
    exact List.take_prefix ..

/-- Every read returns at least one byte. -/
def ReadsData (a : Act) : Prop :=
  ∀ r, a = .poll r → ∃ n, r = .ok (n + 1)

/-- **A step of the stream** keeps its invariant while reads return data. -/
theorem StreamInv.polled (h : StreamInv s) {r : Except IoError Nat}
    (hdata : ∃ n, r = .ok (n + 1)) (hp : Polled s.shared.buf s.stream r st) :
    StreamInv { s with stream := st } := by
  cases hp with
  | tested ht => exact h.tested ht
  | error hpc =>
      have hsent : s.stream.yieldError.sent = s.stream.sent := sent_yieldError
      refine ⟨h.env, h.cur_le, ?_, ?_, ?_, ?_, ?_, ?_⟩
      · rw [hsent]; exact h.cursor
      · rw [hsent]; exact h.within
      · rw [hsent]; exact h.sent_next
      · rw [hsent]; exact h.unready
      · rw [hsent]; exact h.sent_prefix
      · have hpc' : s.stream.yieldError.pc = .top := hpc
        show AtPc s.shared.buf s.stream.yieldError
        rw [AtPc]
        rw [hpc']
        exact trivial
  | segmentOver hpc hge => exact h.segmentOver hpc hge
  | chunk hpc _ _ hle hin => exact h.chunk hpc hle hin
  | skip hpc hmay hskip =>
      -- the segment has bytes left and the read returned some
      obtain ⟨n, rfl⟩ := hdata
      have hat := h.at_pc
      rw [AtPc] at hat
      rw [hpc] at hat
      obtain ⟨seg, -, -, -, hrem⟩ := hat
      obtain ⟨-, hin⟩ := hmay
      rcases hskip (n + 1) rfl with h0 | h0 | h0
      · omega
      · omega
      · have := congrArg List.length h0
        rw [length_read hin] at this
        cases this

/-- **Step** of the stream or of a thread. -/
theorem streamInv_step (h : StreamInv s) (hdata : ReadsData a)
    (hs : sysStep s a = some s') : StreamInv s' := by
  cases sysStepped_of_sysStep hs with
  | claim hc =>
      obtain ⟨hin, hg⟩ := inOrder_claimed h.env hc
      exact h.grows hin hg
  | worker hw hcas hpush =>
      obtain ⟨hin, hg⟩ := inOrder_stepped h.env hw hcas hpush
      exact h.grows hin hg
  | poll hp => exact h.polled (hdata _ rfl) (polled_of_poll hp)

/-- **Run** of both. -/
theorem streamInv_run (h : StreamInv s) (hdata : ∀ a ∈ acts, ReadsData a)
    (hrun : run sysStep s acts = some s') : StreamInv s' :=
  along_invariant (G := fun _ a => ReadsData a) (fun _ _ _ => streamInv_step) h
    (along_of_mem fun a ha _ => hdata a ha) hrun

/-! ## What has been sent -/

/-- What has been sent stays sent. -/
theorem sent_step (hs : sysStep s a = some s') : s.stream.sent <+: s'.stream.sent := by
  cases sysStepped_of_sysStep hs with
  | claim => exact List.prefix_refl _
  | worker => exact List.prefix_refl _
  | poll hp =>
      cases polled_of_poll hp with
      | tested => exact List.prefix_refl _
      | error =>
          show s.stream.sent <+: s.stream.yieldError.sent
          rw [sent_yieldError]
      | segmentOver => exact List.prefix_refl _
      | chunk =>
          show s.stream.sent <+: (s.stream.yieldChunk _).sent
          rw [sent_yieldChunk]
          exact List.prefix_append _ _
      | skip => exact List.prefix_refl _

/-- Every byte sent lies in a ready segment. -/
theorem StreamInv.sent_ready (h : StreamInv s) {x : Nat} (hx : x < s.stream.sent.length) :
    ∃ seg ∈ s.shared.buf.segments, seg.state = .ready ∧ seg.start ≤ x ∧ x < seg.end := by
  obtain ⟨r, hr, hxr⟩ := (h.env.chain.covers h.env.proper x).mp
    ⟨Nat.zero_le _, lt_of_lt_of_le hx h.sent_next⟩
  obtain ⟨seg, hseg, rfl⟩ := List.mem_map.mp hr
  refine ⟨seg, hseg, ?_, hxr.1, hxr.2⟩
  cases hst : seg.state with
  | ready => rfl
  | downloading =>
      have hle := h.unready seg hseg hst
      have hlo : seg.start ≤ x := hxr.1
      omega

/-- **The stream sends the file**: at every moment of a run in which every
    read returns data, the bytes sent are a first part of the file, as it is
    then and as it will be at any later moment, and each lies in a segment
    that is ready. -/
theorem stream_sends_prefix (hord : InOrder s.shared) (hnew : s.stream = initial)
    (hdata : ∀ a ∈ acts ++ acts', ReadsData a) (hrun : run sysStep s acts = some s')
    {t : Sys} (hrun' : run sysStep s' acts' = some t) :
    s'.stream.sent <+: t.shared.buf.file ∧
      ∀ x, x < s'.stream.sent.length → ∃ seg ∈ s'.shared.buf.segments,
        seg.state = .ready ∧ seg.start ≤ x ∧ x < seg.end := by
  have h₀ : StreamInv s := by
    have := streamInv_openStream hord
    rw [openStream] at this
    rwa [← hnew] at this
  have h₁ := streamInv_run h₀ (fun a ha => hdata a (List.mem_append_left _ ha)) hrun
  have h₂ := streamInv_run h₁ (fun a ha => hdata a (List.mem_append_right _ ha)) hrun'
  have hsent : s'.stream.sent <+: t.stream.sent :=
    run_invariant (I := fun u => s'.stream.sent <+: u.stream.sent)
      (fun _ _ _ hu hs => hu.trans (sent_step hs)) (List.prefix_refl _) hrun'
  exact ⟨hsent.trans h₂.sent_prefix, fun x hx => h₁.sent_ready hx⟩

/-- The first byte of two is there and the stream has sent it. -/
def firstByte : List Act :=
  [.claim 0 1, .worker 0 (.write 0 [7]), .worker 0 .setReady]
    ++ List.replicate 6 (.poll (.ok 1))

theorem stream_sends_first_byte :
    ∃ m t, run sysStep (openStream (start 2 [0, 0])) firstByte = some m ∧
      run sysStep m [.claim 1 1, .worker 1 (.write 1 [8])] = some t ∧
      m.stream.sent = [7] ∧ m.stream.sent <+: t.shared.buf.file ∧
      ∀ x, x < m.stream.sent.length → ∃ seg ∈ m.shared.buf.segments,
        seg.state = .ready ∧ seg.start ≤ x ∧ x < seg.end := by
  have hdata : ∀ a ∈ firstByte ++ [.claim 1 1, .worker 1 (.write 1 [8])], ReadsData a := by
    intro a ha r hr
    subst hr
    have hr : r = .ok 1 := by simpa [firstByte] using ha
    exact ⟨0, hr⟩
  have hany : (run sysStep (openStream (start 2 [0, 0])) firstByte).any (fun m =>
      decide (m.stream.sent = [7]) &&
        (run sysStep m [.claim 1 1, .worker 1 (.write 1 [8])]).isSome) = true := by decide
  obtain ⟨m, hm, hs⟩ := run_of_any hany
  rw [Bool.and_eq_true, decide_eq_true_iff, Option.isSome_iff_exists] at hs
  obtain ⟨hsent, t, ht⟩ := hs
  exact ⟨m, t, hm, ht, hsent,
    stream_sends_prefix (s := openStream (start 2 [0, 0])) (inOrder_start rfl) rfl hdata hm ht⟩

end BlitzStreamRuns
