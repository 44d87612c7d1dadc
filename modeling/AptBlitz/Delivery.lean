import AptBlitz.Clients
import AptBlitz.Library.WrittenBytes
import AptBlitz.StreamThreads

/-! # A download and the clients it is sent to

    While a download fills its buffer, any number of clients are sent the
    buffer's content: the leader's own and those of the requests that were
    coalesced with it, each over a stream of its own.

    Whatever the download does, its ready segments and their bytes stay
    (`Settles`).  That is all a stream needs: what it has sent is the
    concatenation of the segments its cursor has passed, in the order of the
    segments vector, and the part of the one it is in (`Sending`).  The
    results are stated for any source of the buffer's steps and any
    interleaving with the streams. -/

namespace BlitzDelivery

open BlitzBuffer SegmentsBuffer BlitzClaims BlitzCompletion BlitzStream BlitzStreamRuns
open BlitzStreamThreads BlitzClients StreamState Runs Tiling WrittenBytes

variable {s s' : Shared} {b b' b'' : SegmentsBuffer} {st st' : StreamState} {seg : Segment}
  {w id totalSize : Nat} {op : Op} {r : Except IoError Nat}

/-! ## What stays of a buffer -/

/-- Segments stay in their places, ready ones stay ready, and so do their
    bytes. -/
structure Settles (b b' : SegmentsBuffer) : Prop extends Extends b b' where
  bytes : ∀ (i : Nat) (seg : Segment), b.segments[i]? = some seg → seg.state = .ready →
    ∀ x, seg.start ≤ x → x < seg.end → b'.file[x]? = b.file[x]?

theorem settles_refl : Settles b b where
  toExtends := extends_of_eq rfl
  bytes _ _ _ _ _ _ _ := rfl

theorem Settles.trans (h : Settles b b') (h' : Settles b' b'') : Settles b b'' where
  ready i seg hi hr := h'.ready i seg (h.ready i seg hi hr) hr
  ranges := h.ranges.trans h'.ranges
  bytes i seg hi hr x hlo hhi :=
    (h'.bytes i seg (h.ready i seg hi hr) hr x hlo hhi).trans (h.bytes i seg hi hr x hlo hhi)

/-- A step that leaves the file alone. -/
theorem settles_of_file (h : Extends b b') (hfile : b'.file = b.file) : Settles b b' where
  toExtends := h
  bytes _ _ _ _ _ _ _ := by rw [hfile]

/-- The segment a thread fills does not meet a ready one. -/
theorem apart_of_ready (h : ClaimInv s) {i a z : Nat} (hw : s.calls w = .holds i a z)
    (hseg : s.buf.segments[id]? = some seg) (hready : seg.state = .ready) {x : Nat}
    (hx : seg.start ≤ x ∧ x < seg.end) : x < a ∨ z ≤ x := by
  have hmine := h.holds_seg w i a z hw
  have howner : ∀ {k sk}, s.buf.segments[k]? = some sk → owners s (.inl k) = some sk.range := by
    intro k sk hk
    show s.buf.ranges[k]? = _
    rw [getElem?_ranges, hk]
    rfl
  by_contra hmeet
  have hsame := Sum.inl.inj (h.tiles.unique _ _ _ _ x (howner hseg) (howner hmine) hx
    ⟨by show a ≤ x; omega, by show x < z; omega⟩)
  subst hsame
  cases hseg.symm.trans hmine
  cases hready

/-- **Step of a thread**: what is ready stays, its bytes too. -/
theorem settles_stepped (h : BufferInv totalSize s) (hs : Stepped s w op s') :
    Settles s.buf s'.buf := by
  have hx := extends_stepped hs
  cases hs with
  | @write i a z off data hw hlo hhi =>
      refine ⟨hx, fun j seg hj hr x hxlo hxhi => ?_⟩
      have hle : z ≤ s.buf.totalSize := (h.claims.holds_le hw).2
      have hlen := h.file_len
      have hout := apart_of_ready h.claims hw hj hr ⟨hxlo, hxhi⟩
      exact FileContent.getElem?_overwrite_of_outside (by omega) (by omega)
  | exhausted _ hb => rcases hb with rfl | ⟨rfl, -⟩ <;> exact settles_of_file hx rfl
  | _ => exact settles_of_file hx rfl

/-- **Run** of the threads: what is ready stays. -/
theorem settles_reaches (h : BufferInv totalSize s) (hs : Reaches BlitzClaims.step s s') :
    Settles s.buf s'.buf := by
  obtain ⟨acts, hrun⟩ := hs
  have hall := run_invariant
    (I := fun t => BufferInv totalSize t ∧ Settles s.buf t.buf) ?_ ⟨h, settles_refl⟩ hrun
  · exact hall.2
  · rintro t a t' ⟨hb, hset⟩ hstep
    exact ⟨bufferInv_step hb hstep,
      hset.trans (settles_stepped hb (stepped_of_threadStep hstep))⟩

/-- The order of the file is a matter of the ranges. -/
theorem fileOrder_of_ranges (h : b'.ranges = b.ranges) (hord : FileOrder b) : FileOrder b' := by
  rw [fileOrder_iff, h]
  exact fileOrder_iff.mp hord

/-- A step of a worker keeps file order if nobody else has a claim
    pending. -/
theorem fileOrder_effect {ρ P : Type} {C : Client ρ P}
    {Good : Segment → BlitzTransfers.Transfer ρ → Prop} {u u' : Snap ρ P}
    (h : BufferInv totalSize (u.view C)) (he : Effect C Good u w u') (hord : FileOrder u.buf)
    (hlone : ∀ v a z, C.call (u.workers v) = .claimed a z → v = w) : FileOrder u'.buf := by
  cases he with
  | exhausted _ hcas =>
      rcases claimCas_none hcas with rfl | ⟨rfl, -⟩
      · exact hord
      · exact fileOrder_of_ranges rfl hord
  | cas _ hcas =>
      obtain ⟨rfl, -⟩ := claimCas_some hcas
      exact fileOrder_of_ranges rfl hord
  | @push pc a z hw hdoing =>
      have hstep := stepped_of_threadStep (threadStep_push (s := u.view C) (w := w) hw)
      refine fileOrder_step h.claims hord ?_ hstep
      intro _ a' z' hmine v a'' z'' hv
      rw [hlone v a'' z'' hv] at hv
      cases hmine.symm.trans hv
      exact Nat.le_refl _
  | wrote _ _ _ hwrite =>
      obtain ⟨file, rfl⟩ := writeData_file hwrite
      exact fileOrder_of_ranges rfl hord
  | wroteSome _ _ _ hwrite =>
      obtain ⟨file, rfl⟩ := writeData_file hwrite
      exact fileOrder_of_ranges rfl hord
  | ready => exact fileOrder_of_ranges ranges_setReady hord
  | _ => exact fileOrder_of_ranges rfl hord

/-! ## What has been sent -/

/-- The bytes of the segments before the cursor, and those of the segment it
    is in up to the cursor. -/
def passed (b : SegmentsBuffer) (st : StreamState) : Bytes :=
  ((b.ranges.take st.currentSegment).flatMap fun q => slice b.file q.1 q.2) ++
    ((b.ranges[st.currentSegment]?).map fun q =>
      slice b.file q.1 (q.1 + st.offsetInSegment)).getD []

/-- A stream has sent what its cursor has passed, all of it ready. -/
structure Sending (b : SegmentsBuffer) (st : StreamState) : Prop where
  seated : Seated b st
  behind : ∀ (i : Nat) (seg : Segment), i < st.currentSegment → b.segments[i]? = some seg →
    seg.state = .ready
  sent : st.sent = passed b st

/-- At the start nothing has been sent. -/
theorem sending_initial : Sending b initial where
  seated := seated_initial
  behind _ _ h := absurd h (Nat.not_lt_zero _)
  sent := by
    rw [passed]
    cases b.ranges[initial.currentSegment]? with
    | none => rfl
    | some q => exact slice_nil.symm

/-- Ready segments look the same afterwards. -/
theorem Settles.slice_eq (h : Settles b b') (hseg : b.segments[id]? = some seg)
    (hready : seg.state = .ready) {z : Nat} (hz : z ≤ seg.end) :
    slice b'.file seg.start z = slice b.file seg.start z :=
  slice_eq_iff.mpr fun x hlo hhi => h.bytes id seg hseg hready x hlo (by omega)

/-- **Steps of the others**: the cursor has passed the same bytes. -/
theorem Sending.settles (h : Sending b st) (hs : Settles b b') : Sending b' st := by
  have htake : b'.ranges.take st.currentSegment = b.ranges.take st.currentSegment := by
    obtain ⟨more, hmore⟩ := hs.ranges
    rw [← hmore, List.take_append_of_le_length]
    rw [length_ranges]
    exact h.seated.cur_le
  refine ⟨h.seated.extends hs.toExtends, ?_, ?_⟩
  · intro i seg' hi hseg'
    have hlt : i < b.segments.length := lt_of_lt_of_le hi h.seated.cur_le
    have hseg : b.segments[i]? = some b.segments[i] := List.getElem?_eq_getElem hlt
    have hready := h.behind i _ hi hseg
    rw [hs.ready i _ hseg hready] at hseg'
    exact Option.some.inj hseg' ▸ hready
  · rw [h.sent, passed, passed, htake]
    congr 1
    · -- the segments behind the cursor
      refine List.flatMap_congr fun q hq => ?_
      obtain ⟨i, hi⟩ := List.mem_iff_getElem?.mp hq
      rw [List.getElem?_take] at hi
      split at hi
      next hlt =>
        rw [getElem?_ranges] at hi
        obtain ⟨seg, hseg, rfl⟩ := Option.map_eq_some_iff.mp hi
        exact (hs.slice_eq hseg (h.behind i seg hlt hseg) (Nat.le_refl _)).symm
      next => cases hi
    · rcases h.seated.within with h0 | ⟨seg, hseg, hle⟩
      · -- nothing of the segment under the cursor
        rw [h0]
        simp only [Nat.add_zero, slice_nil]
        cases b.ranges[st.currentSegment]? <;> cases b'.ranges[st.currentSegment]? <;> rfl
      · have hold : b.ranges[st.currentSegment]? = some seg.range := by
          rw [getElem?_ranges, hseg.1]
          rfl
        have hnew : b'.ranges[st.currentSegment]? = some seg.range := by
          rw [getElem?_ranges, hs.ready _ _ hseg.1 hseg.2]
          rfl
        rw [hold, hnew]
        exact (hs.slice_eq hseg.1 hseg.2 hle).symm

/-! ## Polls -/

/-- The segment under the cursor and its part of what was passed. -/
theorem passed_of_atReady (h : AtReady b st seg) :
    passed b st = ((b.ranges.take st.currentSegment).flatMap fun q => slice b.file q.1 q.2) ++
      slice b.file seg.start (seg.start + st.offsetInSegment) := by
  have hrange : b.ranges[st.currentSegment]? = some seg.range := by
    rw [getElem?_ranges, h.1]
    rfl
  rw [passed]
  rw [hrange]
  rfl

/-- At the end of a segment the cursor goes on to the next. -/
theorem Sending.nextSegment (h : Sending b st) (hseg : AtReady b st seg)
    (hover : st.offsetInSegment = seg.end - seg.start) (hproper : seg.start < seg.end) :
    Sending b st.nextSegment := by
  have hrange : b.ranges[st.currentSegment]? = some seg.range := by
    rw [getElem?_ranges, hseg.1]
    rfl
  refine ⟨seated_nextSegment hseg, ?_, ?_⟩
  · intro i seg' hi hseg'
    have hi : i < st.currentSegment + 1 := hi
    by_cases hcur : i = st.currentSegment
    · subst hcur
      cases hseg'.symm.trans hseg.1
      exact hseg.2
    · exact h.behind i seg' (by omega) hseg'
  · show st.sent = _
    have hend : seg.start + st.offsetInSegment = seg.end := by omega
    rw [h.sent, passed_of_atReady hseg, hend, passed]
    show _ = ((b.ranges.take (st.currentSegment + 1)).flatMap _) ++
      ((b.ranges[st.currentSegment + 1]?).map fun q => slice b.file q.1 (q.1 + 0)).getD []
    rw [List.take_add_one, hrange, Option.toList_some, List.flatMap_append,
      List.flatMap_singleton]
    simp only [Nat.add_zero, slice_nil]
    cases b.ranges[st.currentSegment + 1]? with
    | none => exact (List.append_nil _).symm
    | some q => exact (List.append_nil _).symm

/-- **Polls**: a read that returns data sends what the cursor then passes. -/
theorem Sending.poll (h : Sending b st)
    (hproper : ∀ (i : Nat) (seg : Segment), b.segments[i]? = some seg → seg.start < seg.end)
    (hdata : ∃ n, r = .ok (n + 1)) (hp : poll b st r = some st') :
    Sending b st' := by
  have hseated := h.seated.poll hp
  cases polled_of_poll hp with
  | tested => exact ⟨hseated, h.behind, h.sent⟩
  | error => exact ⟨hseated, h.behind, sent_yieldError.trans h.sent⟩
  | segmentOver hpc hge =>
      obtain ⟨seg, hseg, hover⟩ := h.seated.over hpc hge
      exact h.nextSegment hseg hover (hproper _ _ hseg.1)
  | @chunk pos rem n hpc hr hn hle hin =>
      obtain ⟨seg, hseg, hpos, hend, -⟩ := h.seated.reading hpc
      refine ⟨hseated, h.behind, ?_⟩
      have hlen := length_read hin
      have hchunk : (b.file.drop pos).take n = slice b.file pos (pos + n) := by
        rw [slice]
        rw [Nat.add_sub_cancel_left]
      have hsame : (st.yieldChunk ((b.file.drop pos).take n)).offsetInSegment
          = st.offsetInSegment + n := by
        show st.offsetInSegment + ((b.file.drop pos).take n).length = _
        rw [hlen]
      have hseg' : AtReady b (st.yieldChunk ((b.file.drop pos).take n)) seg := hseg
      rw [sent_yieldChunk, passed_of_atReady hseg', h.sent, passed_of_atReady hseg,
        List.append_assoc, hsame, hchunk, hpos, slice_append (by omega) (by omega),
        Nat.add_assoc]
      rfl
  | skip hpc hmay hno =>
      -- there is something left of the segment, and the read returned some of it
      obtain ⟨n, rfl⟩ := hdata
      obtain ⟨seg, hseg, hpos, hend, hrem⟩ := h.seated.reading hpc
      rcases hno (n + 1) rfl with h0 | h0 | hnone
      · omega
      · omega
      · have hmay : n + 1 ≤ _ ∧ _ + (n + 1) ≤ max _ b.file.length := hmay
        have := length_read hmay.2
        rw [hnone] at this
        cases this

/-! ## The vector in the order of the file -/

/-- **File order**: where the ready segments hold the bytes of `content`, what
    has been sent is a slice of it from the front. -/
theorem Sending.sent_slice {content : Bytes} (h : Sending b st) (hord : FileOrder b)
    (hle : ∀ (i : Nat) (seg : Segment), b.segments[i]? = some seg →
      seg.start < seg.end ∧ seg.end ≤ b.file.length)
    (hright : ∀ (i : Nat) (seg : Segment), b.segments[i]? = some seg → seg.state = .ready →
      slice b.file seg.start seg.end = slice content seg.start seg.end) :
    ∃ z, z ≤ b.file.length ∧ st.sent = slice content 0 z := by
  obtain ⟨e, he⟩ := fileOrder_iff.mp hord
  have hbounds : ∀ q ∈ b.ranges, q.1 < q.2 ∧ q.2 ≤ b.file.length := by
    intro q hq
    obtain ⟨seg, hmem, rfl⟩ := List.mem_map.mp hq
    obtain ⟨i, hi⟩ := List.mem_iff_getElem?.mp hmem
    exact hle i seg hi
  obtain ⟨m, hm, -⟩ := he.split st.currentSegment
  -- the segments behind the cursor are the content up to `m`
  have hbehind : ((b.ranges.take st.currentSegment).flatMap fun q => slice b.file q.1 q.2)
      = slice content 0 m := by
    have hsame : ((b.ranges.take st.currentSegment).flatMap fun q => slice b.file q.1 q.2)
        = (b.ranges.take st.currentSegment).flatMap fun q => slice content q.1 q.2 := by
      refine List.flatMap_congr fun q hq => ?_
      obtain ⟨i, hi⟩ := List.mem_iff_getElem?.mp hq
      rw [List.getElem?_take] at hi
      split at hi
      next hlt =>
        rw [getElem?_ranges] at hi
        obtain ⟨seg, hseg, rfl⟩ := Option.map_eq_some_iff.mp hi
        exact hright i seg hseg (h.behind i seg hlt hseg)
      next => cases hi
    rw [hsame]
    exact flatMap_slice hm fun q hq => (hbounds q (List.mem_of_mem_take hq)).1
  rcases h.seated.within with h0 | ⟨seg, hseg, hin⟩
  · refine ⟨m, chain_le hm (Nat.zero_le _) fun q hq => (hbounds q (List.mem_of_mem_take hq)).2, ?_⟩
    rw [h.sent, passed, hbehind, h0]
    simp only [Nat.add_zero, slice_nil]
    cases b.ranges[st.currentSegment]? <;> exact List.append_nil _
  · have hrange : b.ranges[st.currentSegment]? = some seg.range := by
      rw [getElem?_ranges, hseg.1]
      rfl
    have hstart : seg.start = m := he.getElem_start hm hrange
    have hfirst : slice b.file seg.start (seg.start + st.offsetInSegment)
        = slice content seg.start (seg.start + st.offsetInSegment) :=
      slice_eq_iff.mpr fun x hlo hhi =>
        slice_eq_iff.mp (hright _ seg hseg.1 hseg.2) x hlo (by omega)
    refine ⟨seg.start + st.offsetInSegment, le_trans hin (hle _ seg hseg.1).2, ?_⟩
    rw [h.sent, passed_of_atReady hseg, hbehind, hfirst, hstart]
    exact slice_append (Nat.zero_le _) (Nat.le_add_right ..)

/-- What has been sent is a first part of the file. -/
theorem Sending.sent_eq_take (h : Sending b st) (hord : FileOrder b)
    (hle : ∀ (i : Nat) (seg : Segment), b.segments[i]? = some seg →
      seg.start < seg.end ∧ seg.end ≤ b.file.length) :
    st.sent = b.file.take st.sent.length := by
  obtain ⟨z, hz, hsent⟩ := h.sent_slice hord hle fun _ _ _ _ => rfl
  have hlen : st.sent.length = z := by
    rw [hsent, length_slice hz, Nat.sub_zero]
  rw [hlen, hsent, slice, List.drop_zero, Nat.sub_zero]

/-- **Right segments, right prefix**: where every ready segment holds the
    bytes of `content` there, what has been sent is a first part of it. -/
theorem Sending.sent_within {content : Bytes} (h : Sending b st) (hord : FileOrder b)
    (hle : ∀ (i : Nat) (seg : Segment), b.segments[i]? = some seg →
      seg.start < seg.end ∧ seg.end ≤ b.file.length)
    (hright : ∀ (i : Nat) (seg : Segment), b.segments[i]? = some seg → seg.state = .ready →
      slice b.file seg.start seg.end = slice content seg.start seg.end) :
    st.sent <+: content := by
  obtain ⟨z, -, hsent⟩ := h.sent_slice hord hle hright
  rw [hsent, slice, List.drop_zero, Nat.sub_zero]
  exact List.take_prefix z content

/-! ## Any download -/

/-- A download as its streams see it: what it does to the buffer. -/
structure Source (D A : Type) where
  buf : D → SegmentsBuffer
  step : D → A → Option D

/-- A download, and the streams on its buffer. -/
structure Delivery (D : Type) where
  source : D
  streams : Nat → StreamState

/-- A step of the download or of a stream. -/
inductive Act (A : Type) where
  | source (a : A)
  /-- stream `i` makes a step; `readAt` is what `read_at` returns, if it asks -/
  | poll (i : Nat) (readAt : Except IoError Nat)

variable {D A : Type} {src : Source D A} {I : D → Prop} {d d' : Delivery D} {a : Act A}
  {acts : List (Act A)} {d₀ : D}

/-- One step of the download or of a stream. -/
def deliveryStep (src : Source D A) (d : Delivery D) : Act A → Option (Delivery D)
  | .source a => (src.step d.source a).map fun source => { d with source := source }
  | .poll i readAt =>
      (BlitzStream.poll (src.buf d.source) (d.streams i) readAt).map fun st =>
        { d with streams := Function.update d.streams i st }

/-- A stream is opened when it makes its first step. -/
def openDelivery (source : D) : Delivery D := ⟨source, fun _ => initial⟩

/-- What the streams rely on: an invariant of the download, under which what
    is ready stays and no segment is empty. -/
structure Reliable (src : Source D A) (I : D → Prop) : Prop where
  keeps : ∀ s a s', I s → src.step s a = some s' → I s'
  settles : ∀ s a s', I s → src.step s a = some s' → Settles (src.buf s) (src.buf s')
  within : ∀ s (i : Nat) (seg : Segment), I s → (src.buf s).segments[i]? = some seg →
    seg.start < seg.end ∧ seg.end ≤ (src.buf s).file.length

/-- An invariant more. -/
theorem Reliable.and {J : D → Prop} (h : Reliable src I)
    (hJ : ∀ s a s', I s → J s → src.step s a = some s' → J s') :
    Reliable src fun s => I s ∧ J s where
  keeps s a s' hs hstep := ⟨h.keeps s a s' hs.1 hstep, hJ s a s' hs.1 hs.2 hstep⟩
  settles s a s' hs hstep := h.settles s a s' hs.1 hstep
  within s i seg hs hseg := h.within s i seg hs.1 hseg

/-- Every read returns at least one byte. -/
def ReadsData (a : Act A) : Prop := ∀ i r, a = .poll i r → ∃ n, r = .ok (n + 1)

/-- **Step** of the download or of a stream. -/
theorem delivery_step (hrel : Reliable src I) (hI : I d.source)
    (h : ∀ i, Sending (src.buf d.source) (d.streams i)) (hdata : ReadsData a)
    (hs : deliveryStep src d a = some d') :
    I d'.source ∧ ∀ i, Sending (src.buf d'.source) (d'.streams i) := by
  cases a with
  | source a =>
      obtain ⟨s', hs', rfl⟩ := Option.map_eq_some_iff.mp hs
      exact ⟨hrel.keeps _ _ _ hI hs', fun i => (h i).settles (hrel.settles _ _ _ hI hs')⟩
  | poll j r =>
      obtain ⟨st, hst, rfl⟩ := Option.map_eq_some_iff.mp hs
      refine ⟨hI, fun i => ?_⟩
      by_cases hij : i = j
      · subst hij
        show Sending _ (Function.update d.streams i st i)
        rw [Function.update_self]
        exact (h i).poll (fun k seg hk => (hrel.within _ k seg hI hk).1) (hdata i r rfl) hst
      · show Sending _ (Function.update d.streams j st i)
        rw [Function.update_of_ne hij]
        exact h i

/-- **Every stream of every run** has sent what its cursor has passed. -/
theorem delivery_run (hrel : Reliable src I) (hI : I d₀) (hdata : ∀ a ∈ acts, ReadsData a)
    (hrun : run (deliveryStep src) (openDelivery d₀) acts = some d) :
    I d.source ∧ ∀ i, Sending (src.buf d.source) (d.streams i) :=
  along_invariant
    (I := fun d : Delivery D => I d.source ∧ ∀ i, Sending (src.buf d.source) (d.streams i))
    (G := fun _ a => ReadsData a)
    (fun _ _ _ h hd hs => delivery_step hrel h.1 h.2 hd hs) ⟨hI, fun _ => sending_initial⟩
    (along_of_mem fun a ha _ => hdata a ha) hrun

end BlitzDelivery
