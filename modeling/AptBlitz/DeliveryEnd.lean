import AptBlitz.DeliveredBodies
import AptBlitz.StreamTermination

/-! # How the clients of a finished download fare

    A download that is over leaves its buffer as it is (`Closed`).  From then
    on every poll of a stream leaves less to do, whatever the other streams
    do, so each stream ends after a bounded number of them
    (`Closed.polls`).

    A stream that then ends without an error has sent the whole file, unless
    it had asked for the number of segments before the last of them was
    pushed and not yet looked at the answer again (`Late`): such a stream
    ends too early (`finished_clients_whole`). -/

namespace BlitzDeliveryEnd

open BlitzBuffer SegmentsBuffer BlitzClaims BlitzCompletion BlitzStream BlitzStreamRuns
open BlitzStreamThreads BlitzStreamTermination BlitzDelivery StreamState Runs Tiling WrittenBytes

variable {b b' : SegmentsBuffer} {st st' : StreamState} {r : Except IoError Nat}

/-! ## The end of one stream -/

/-- The stream has found no segment at its cursor, and there is one now. -/
def Late (b : SegmentsBuffer) (st : StreamState) : Prop :=
  (st.pc = .emptyTest ∨ st.pc = .completedTest) ∧ st.currentSegment < b.segments.length

/-- Between segments a stream has sent those behind its cursor. -/
theorem sent_between (h : Sending b st) (hoff : st.offsetInSegment = 0) :
    st.sent = (b.ranges.take st.currentSegment).flatMap fun q => slice b.file q.1 q.2 := by
  rw [h.sent, passed, hoff]
  simp only [Nat.add_zero, slice_nil]
  cases b.ranges[st.currentSegment]? <;> exact List.append_nil _

/-- Where the segments divide the file, the stream has sent the whole file if
    there is no segment at its cursor, and less if there is one. -/
theorem length_sent_iff {totalSize : Nat} (h : Sending b st)
    (htiles : Tiles (fun i : Nat => b.ranges[i]?) 0 totalSize)
    (hfile : b.file.length = totalSize) (hoff : st.offsetInSegment = 0) :
    st.sent.length = totalSize ↔ b.segments.length ≤ st.currentSegment := by
  have htotal := length_flatMap_slice htiles hfile.ge
  rw [← List.take_append_drop st.currentSegment b.ranges, List.flatMap_append, List.length_append,
    ← sent_between h hoff, Nat.sub_zero] at htotal
  rw [← length_ranges, ← List.drop_eq_nil_iff]
  constructor
  · intro hlen
    have hnone : ((b.ranges.drop st.currentSegment).flatMap fun q => slice b.file q.1 q.2) = [] :=
      List.eq_nil_of_length_eq_zero (by omega)
    rw [List.flatMap_eq_nil_iff] at hnone
    -- no segment is empty
    refine List.eq_nil_iff_forall_not_mem.mpr fun q hq => ?_
    obtain ⟨i, hi⟩ := List.mem_iff_getElem?.mp (List.mem_of_mem_drop hq)
    have hproper := htiles.proper _ _ hi
    have hlen := length_slice (f := b.file) (a := q.1) ((htiles.within hi).2.trans hfile.ge)
    rw [hnone q hq] at hlen
    have hzero : 0 = q.2 - q.1 := hlen
    omega
  · intro hnil
    rw [hnil] at htotal
    exact htotal

/-- A poll of a finished buffer makes no stream late that was not, and no
    late stream in time. -/
theorem late_poll {s : Sys} (h : Finished s) (hp : poll s.shared.buf s.stream r = some st')
    (hgoes : st'.pc ≠ .done) : Late s.shared.buf s.stream ↔ Late s.shared.buf st' := by
  have hlisted : s.shared.buf.numSegments ≠ 0 := fun h0 =>
    h.nonempty (List.length_eq_zero_iff.mp h0)
  by_cases hempty : s.stream.pc = .emptyTest
  · rw [poll] at hp
    simp only [hempty, if_neg hlisted, Option.some.injEq] at hp
    subst hp
    rw [Late, Late, hempty]
    exact ⟨fun h => ⟨Or.inr rfl, h.2⟩, fun h => ⟨Or.inl rfl, h.2⟩⟩
  · by_cases hcompleted : s.stream.pc = .completedTest
    · rw [poll] at hp
      simp only [hcompleted, if_pos h.completed, Option.some.injEq] at hp
      subst hp
      exact absurd rfl hgoes
    · -- the number of segments is asked for now, or not at all
      refine iff_of_false (fun hlate => hlate.1.elim hempty hcompleted) ?_
      rintro ⟨hpc | hpc, hlt⟩
      · obtain ⟨rfl, ht⟩ := tested_of_polled (polled_of_poll hp) hpc (by rintro ⟨⟩)
        cases ht with
        | beyond _ hlen => exact absurd hlen (not_le.mpr hlt)
      · obtain ⟨-, ht⟩ := tested_of_polled (polled_of_poll hp) hpc (by rintro ⟨⟩)
        cases ht with
        | someSegment hpc => exact hempty hpc

/-- How a stream fares on a finished buffer, `late` telling whether it was
    late at first. -/
structure Fares (totalSize : Nat) (late : Prop) (b : SegmentsBuffer) (st : StreamState) :
    Prop where
  on_its_way : st.pc ≠ .done → (late ↔ Late b st)
  at_end : st.pc = .done → st.errored = false → (st.sent.length = totalSize ↔ ¬ late)

/-- **Poll** of a stream of a download that has returned. -/
theorem Fares.poll {totalSize : Nat} {late : Prop} {s : Sys} (hf : Finished s)
    (hsending : Sending s.shared.buf s.stream)
    (htiles : Tiles (fun i : Nat => s.shared.buf.ranges[i]?) 0 totalSize)
    (hfile : s.shared.buf.file.length = totalSize) (h : Fares totalSize late s.shared.buf s.stream)
    (hp : poll s.shared.buf s.stream r = some st') : Fares totalSize late s.shared.buf st' := by
  have hgoing : s.stream.pc ≠ .done := by
    intro hdone
    rw [BlitzStream.poll] at hp
    simp only [hdone] at hp
    cases hp
  refine ⟨fun hgoes => (h.on_its_way hgoing).trans (late_poll hf hp hgoes), fun hdone hok => ?_⟩
  obtain ⟨rfl, herr | ⟨hpc, -⟩⟩ := BlitzStreamEnd.done_polled (polled_of_poll hp) hdone
  · exact absurd hok (by rw [show s.stream.errored = true from herr]; decide)
  · have hoff : s.stream.offsetInSegment = 0 := by
      have hat := hsending.seated.at_pc
      simp only [AtPc, hpc] at hat
      exact hat
    have hlate : late ↔ s.stream.currentSegment < s.shared.buf.segments.length := by
      rw [h.on_its_way hgoing, Late]
      exact ⟨And.right, fun hlt => ⟨Or.inr hpc, hlt⟩⟩
    rw [hlate, not_lt]
    show s.stream.sent.length = totalSize ↔ _
    exact length_sent_iff hsending htiles hfile hoff

/-! ## A download that is over -/

section Closed

variable {D A : Type} {src : Source D A} {view : D → Shared} {F : D → Prop} {totalSize : Nat}
  {s t : Delivery D} {a : BlitzDelivery.Act A} {acts : List (BlitzDelivery.Act A)}

/-- Under `F` the download is over: everything is completed, and its steps
    leave the segments and the file alone. -/
structure Closed (src : Source D A) (view : D → Shared) (totalSize : Nat) (F : D → Prop) :
    Prop where
  buf : ∀ d, (view d).buf = src.buf d
  keeps : ∀ d a d', F d → src.step d a = some d' → F d' ∧
    (src.buf d').segments = (src.buf d).segments ∧ (src.buf d').file = (src.buf d).file
  claims : ∀ d, F d → ClaimInv (view d)
  file_len : ∀ d, F d → (src.buf d).file.length = (src.buf d).totalSize
  size : ∀ d, F d → (src.buf d).totalSize = totalSize
  completed : ∀ d, F d → (src.buf d).allCompleted = true
  quiet : ∀ d, F d → NoClaimPending (view d)
  nonempty : ∀ d, F d → (src.buf d).segments ≠ []

/-- A download that has returned leaves a finished buffer. -/
theorem Closed.finished (h : Closed src view totalSize F) {d : D} (hF : F d)
    (hs : Sending (src.buf d) st) : Finished ⟨view d, st⟩ := by
  refine ⟨?_, h.claims d hF, ?_, ?_, h.quiet d hF, ?_⟩
  all_goals
    show _
    rw [h.buf d]
  · exact hs.seated
  · exact h.file_len d hF
  · exact h.completed d hF
  · exact h.nonempty d hF

/-- The segments divide the file. -/
theorem Closed.tiles (h : Closed src view totalSize F) {d : D} (hF : F d) :
    Tiles (fun i : Nat => (src.buf d).ranges[i]?) 0 totalSize := by
  have hclaims := h.claims d hF
  have htiles := hclaims.tiles
  have hnext : (view d).buf.nextUnassigned = totalSize := by
    have hdone : (view d).buf.allCompleted = true := by
      rw [h.buf d]
      exact h.completed d hF
    rw [ClaimInv.next_eq hclaims hdone, h.buf d, h.size d hF]
  rw [hnext] at htiles
  have hown : ∀ i : Nat, owners (view d) (.inl i) = (src.buf d).ranges[i]? := by
    intro i
    rw [← h.buf d]
    rfl
  refine ⟨fun i r hr => htiles.proper _ _ ((hown i).trans hr), fun i j r q x hr hq hx hx' => ?_,
    fun x => ?_⟩
  · exact Sum.inl.inj (htiles.unique _ _ _ _ x ((hown i).trans hr) ((hown j).trans hq) hx hx')
  · rw [htiles.covers x]
    constructor
    · rintro ⟨o, r, ho, hx⟩
      cases o with
      | inl i => exact ⟨i, r, (hown i).symm.trans ho, hx⟩
      | inr v => exact absurd (claimed_of_owner ho) (h.quiet d hF v r.1 r.2)
    · rintro ⟨i, r, hr, hx⟩
      exact ⟨.inl i, r, (hown i).trans hr, hx⟩

/-- A poll of stream `i`. -/
def polls (i : Nat) : BlitzDelivery.Act A → Bool
  | .source _ => false
  | .poll j _ => decide (j = i)

/-- The download is over, and every stream has sent what it has passed. -/
structure Settled (src : Source D A) (F : D → Prop) (s : Delivery D) : Prop where
  closed : F s.source
  sending : ∀ i, Sending (src.buf s.source) (s.streams i)

/-- What is left to do for stream `i`. -/
def left (src : Source D A) (i : Nat) (s : Delivery D) : Nat :=
  work (src.buf s.source) (s.streams i)

/-- **Step** of the download or of a stream, after the return. -/
theorem Closed.settled_step (h : Closed src view totalSize F) (hs : Settled src F s)
    (hdata : BlitzDelivery.ReadsData a) (hstep : deliveryStep src s a = some t) :
    Settled src F t := by
  cases a with
  | source a =>
      obtain ⟨d', hd', rfl⟩ := Option.map_eq_some_iff.mp hstep
      obtain ⟨hF, hseg, hfile⟩ := h.keeps _ _ _ hs.closed hd'
      exact ⟨hF, fun i => (hs.sending i).settles (settles_of_file (extends_of_eq hseg) hfile)⟩
  | poll j r =>
      obtain ⟨st, hst, rfl⟩ := Option.map_eq_some_iff.mp hstep
      refine ⟨hs.closed, fun i => ?_⟩
      show Sending _ (Function.update s.streams j st i)
      by_cases hij : i = j
      · subst hij
        rw [Function.update_self]
        refine (hs.sending i).poll (fun k seg hk => ?_) (hdata i r rfl) hst
        exact (h.tiles hs.closed).proper k seg.range (mem_ranges_of_getElem? hk)
      · rw [Function.update_of_ne hij]
        exact hs.sending i

/-- A stream has less to do after its own polls, and no more after any other
    step. -/
theorem Closed.left_step (h : Closed src view totalSize F) (hs : Settled src F s)
    (hdata : BlitzDelivery.ReadsData a) (hstep : deliveryStep src s a = some t) (i : Nat) :
    (polls i a = true → left src i t < left src i s) ∧
      (polls i a = false → left src i t ≤ left src i s) := by
  cases a with
  | source a =>
      obtain ⟨d', hd', rfl⟩ := Option.map_eq_some_iff.mp hstep
      obtain ⟨-, hseg, -⟩ := h.keeps _ _ _ hs.closed hd'
      exact ⟨nofun, fun _ => Nat.le_of_eq (work_congr hseg)⟩
  | poll j r =>
      obtain ⟨st, hst, rfl⟩ := Option.map_eq_some_iff.mp hstep
      by_cases hij : i = j
      · subst hij
        have hless : work (view s.source).buf st < work (view s.source).buf (s.streams i) := by
          refine (h.finished hs.closed (hs.sending i)).work_poll (r := r) (hdata i r rfl) ?_
          show BlitzStream.poll (view s.source).buf _ r = _
          rw [h.buf]
          exact hst
        rw [h.buf] at hless
        refine ⟨fun _ => ?_, fun hno => absurd rfl (of_decide_eq_false hno)⟩
        show work _ (Function.update s.streams i st i) < _
        rw [Function.update_self]
        exact hless
      · refine ⟨fun hyes => absurd (of_decide_eq_true hyes).symm hij, fun _ => ?_⟩
        show work _ (Function.update s.streams j st i) ≤ _
        rw [Function.update_of_ne hij]
        exact Nat.le_refl _

/-- **Step**: how a stream fares. -/
theorem Closed.fares_step {late : Prop} {i : Nat} (h : Closed src view totalSize F)
    (hs : Settled src F s) (hf : Fares totalSize late (src.buf s.source) (s.streams i))
    (hstep : deliveryStep src s a = some t) :
    Fares totalSize late (src.buf t.source) (t.streams i) := by
  cases a with
  | source a =>
      obtain ⟨d', hd', rfl⟩ := Option.map_eq_some_iff.mp hstep
      obtain ⟨-, hseg, -⟩ := h.keeps _ _ _ hs.closed hd'
      refine ⟨fun hgoes => (hf.on_its_way hgoes).trans ?_, hf.at_end⟩
      show Late (src.buf s.source) _ ↔ Late (src.buf d') _
      rw [Late, Late, hseg]
  | poll j r =>
      obtain ⟨st, hst, rfl⟩ := Option.map_eq_some_iff.mp hstep
      show Fares _ _ _ (Function.update s.streams j st i)
      by_cases hij : i = j
      · subst hij
        rw [Function.update_self]
        have hfin := h.finished hs.closed (hs.sending i)
        have hlen := (h.file_len _ hs.closed).trans (h.size _ hs.closed)
        have hbuf := h.buf s.source
        have hsending := hs.sending i
        have htiles := h.tiles hs.closed
        rw [← hbuf] at hf hst hsending htiles hlen ⊢
        exact Fares.poll hfin hsending htiles hlen hf hst
      · rw [Function.update_of_ne hij]
        exact hf

/-- **A finished download**: in every run from a state in which it is over,
    each stream is polled a bounded number of times, can be polled until it
    has ended, and where it ends without an error has sent the whole file, if
    and only if it was not late. -/
theorem Closed.run (h : Closed src view totalSize F) (hs : Settled src F s)
    (hdata : ∀ a ∈ acts, BlitzDelivery.ReadsData a)
    (hrun : Runs.run (deliveryStep src) s acts = some t) (i : Nat) :
    acts.countP (polls i) ≤ left src i s ∧
      ((t.streams i).pc ≠ .done → (deliveryStep src t (.poll i (.ok 1))).isSome) ∧
      ((s.streams i).pc ≠ .done → (t.streams i).pc = .done → (t.streams i).errored = false →
        ((t.streams i).sent.length = totalSize ↔ ¬ Late (src.buf s.source) (s.streams i))) := by
  have halong : Along (deliveryStep src) (fun _ a => BlitzDelivery.ReadsData a) s acts :=
    along_of_mem fun a ha _ => hdata a ha
  have hend : Settled src F t :=
    along_invariant (G := fun _ a => BlitzDelivery.ReadsData a)
      (fun _ _ _ hs hd hstep => h.settled_step hs hd hstep) hs halong hrun
  refine ⟨?_, fun hgoing => ?_, fun hgoing hdone hok => ?_⟩
  · have hcount := countP_add_measure_le (I := Settled src F)
      (H := fun _ a => BlitzDelivery.ReadsData a) (p := polls i) (μ := left src i)
      (fun _ _ _ hs hd hstep => h.settled_step hs hd hstep)
      (fun _ _ _ hs hd hstep hp => (h.left_step hs hd hstep i).1 hp)
      (fun _ _ _ hs hd hstep hp => (h.left_step hs hd hstep i).2 hp) hs halong hrun
    omega
  · obtain ⟨u, hu⟩ := (h.finished hend.closed (hend.sending i)).poll_possible hgoing
    obtain ⟨st, hst, -⟩ := Option.map_eq_some_iff.mp hu
    show ((BlitzStream.poll (src.buf t.source) (t.streams i) (.ok 1)).map _).isSome
    rw [← h.buf t.source, hst]
    rfl
  · have hstart : Fares totalSize (Late (src.buf s.source) (s.streams i)) (src.buf s.source)
        (s.streams i) := ⟨fun _ => Iff.rfl, fun hdone => absurd hdone hgoing⟩
    have hfares := along_invariant (G := fun _ a => BlitzDelivery.ReadsData a)
      (I := fun u => Settled src F u ∧ Fares totalSize (Late (src.buf s.source) (s.streams i))
        (src.buf u.source) (u.streams i))
      (fun _ _ _ hu hd hstep =>
        ⟨h.settled_step hu.1 hd hstep, h.fares_step hu.1 hu.2 hstep⟩) ⟨hs, hstart⟩ halong hrun
    exact hfares.2.at_end hdone hok

end Closed

/-! ## An HTTP download that returned `Ok(())` -/

section Http

open BlitzDownloader BlitzDownloaderSteps BlitzDownloaderRuns BlitzDownloaderResults
open BlitzDownloadedFile BlitzDeliveredBodies

variable {n totalSize : Nat} {file : Bytes} {d d' : Download}
  {acts more : List (BlitzDelivery.Act HttpAct)} {s t : Delivery Download}

/-- The download returned `Ok(())`. -/
structure ReturnedOk (totalSize : Nat) (file : Bytes) (d : Download) : Prop where
  inv : FileRunInv totalSize file d
  ok : d.coord = .returned (.ok ())

/-- An HTTP download that has returned `Ok(())` is closed. -/
theorem closed_http (hpos : 0 < totalSize) :
    Closed httpSource (view totalSize) totalSize (ReturnedOk totalSize file) where
  buf _ := rfl
  keeps d a d' h hs := by
    cases a with
    | download a => exact absurd hs (h.inv.no_step h.ok)
    | setFailed =>
        have hd : d' = { d with buf := d.buf.setFailed } := httpStep_setFailed hs
        subst hd
        exact ⟨⟨setFailed_http h.inv, h.ok⟩, rfl, rfl⟩
  claims d h := h.inv.buffer.claims
  file_len d h := h.inv.buffer.file_len
  size d h := h.inv.buffer.size
  completed d h := (h.inv.run.books.ok h.ok).2
  quiet d h := h.inv.run.books.noClaimPending (h.inv.run.books.ok h.ok).1
    (h.inv.run.books.settled (Or.inr h.ok))
  nonempty d h := by
    obtain ⟨hp, hdone⟩ := h.inv.run.books.ok h.ok
    have hquiet : NoClaimPending (view totalSize d) :=
      h.inv.run.books.noClaimPending hp (h.inv.run.books.settled (Or.inr h.ok))
    have hcov := ClaimInv.readyCovers h.inv.buffer.claims hdone hquiet
    have hsize : (view totalSize d).buf.totalSize = totalSize := h.inv.buffer.size
    obtain ⟨seg, hmem, -⟩ := hcov 0 (by rw [hsize]; exact hpos)
    exact List.ne_nil_of_mem hmem

/-- **The clients of a finished download**: in every run of a download and
    its streams in which the download has returned `Ok(())`, whatever happens
    from then on, each stream is polled a bounded number of times, and can be
    polled until it has ended.  A stream that was open when the download
    returned, and ends without an error, has sent the whole file if and only
    if it was not late. -/
theorem finished_clients_whole (hfile : file.length = totalSize) (hpos : 0 < totalSize)
    (hdata : ∀ a ∈ acts, BlitzDelivery.ReadsData a)
    (hrun : run (deliveryStep httpSource) (openDelivery (start n totalSize file)) acts = some s)
    (hok : s.source.coord = .returned (.ok ()))
    (hdata' : ∀ a ∈ more, BlitzDelivery.ReadsData a)
    (hmore : run (deliveryStep httpSource) s more = some t) (i : Nat) :
    more.countP (polls i) ≤ left httpSource i s ∧
      ((t.streams i).pc ≠ .done → (deliveryStep httpSource t (.poll i (.ok 1))).isSome) ∧
      ((s.streams i).pc ≠ .done → (t.streams i).pc = .done → (t.streams i).errored = false →
        ((t.streams i).sent.length = totalSize ↔ ¬ Late s.source.buf (s.streams i))) := by
  obtain ⟨hinv, hsending⟩ := delivery_run http_reliable
    ⟨runInv_start, bufferInv_view_start hfile, BlitzFileBytes.fileInv_start⟩ hdata hrun
  exact (closed_http hpos).run ⟨⟨hinv, hok⟩, hsending⟩ hdata' hmore i

/-- The download of one byte. -/
def oneByteDown : List (BlitzDelivery.Act HttpAct) := oneByte.map fun a => .source (.download a)

/-- Stream 0 is polled to its end. -/
def toTheEnd : List (BlitzDelivery.Act HttpAct) := List.replicate 15 (.poll 0 (.ok 1))

theorem finished_clients_whole_oneByte :
    ∃ s t, run (deliveryStep httpSource) (openDelivery (start 1 1 [0])) oneByteDown = some s ∧
      run (deliveryStep httpSource) s toTheEnd = some t ∧
      ((t.streams 0).sent.length = 1 ↔ ¬ Late s.source.buf (s.streams 0)) := by
  have hdown : (run (deliveryStep httpSource) (openDelivery (start 1 1 [0])) oneByteDown).any
      (fun s => decide (s.source.coord = .returned (.ok ()) ∧ (s.streams 0).pc = .top)) = true := by
    decide
  have hboth : (run (deliveryStep httpSource) (openDelivery (start 1 1 [0]))
      (oneByteDown ++ toTheEnd)).any
      (fun t => decide ((t.streams 0).pc = .done ∧ (t.streams 0).errored = false)) = true := by
    decide
  obtain ⟨s, hrun, hs⟩ := run_of_any hdown
  obtain ⟨t, hall, ht⟩ := run_of_any hboth
  obtain ⟨s', hrun', hmore⟩ := run_append_some hall
  obtain rfl : s' = s := Option.some.inj (hrun'.symm.trans hrun)
  obtain ⟨hok, hpc⟩ := of_decide_eq_true hs
  obtain ⟨hdone, hnoErr⟩ := of_decide_eq_true ht
  have hlen : ([0] : Bytes).length = 1 := rfl
  have hdata : ∀ a ∈ oneByteDown, BlitzDelivery.ReadsData a := by
    intro a ha j r hpoll
    obtain ⟨b, -, rfl⟩ := List.mem_map.mp ha
    cases hpoll
  have hdata' : ∀ a ∈ toTheEnd, BlitzDelivery.ReadsData a := by
    intro a ha j r hpoll
    rw [(List.mem_replicate.mp ha).2] at hpoll
    cases hpoll
    exact ⟨0, rfl⟩
  have hgoing : (s'.streams 0).pc ≠ .done := by
    rw [hpc]
    decide
  exact ⟨s', t, hrun, hmore,
    (finished_clients_whole hlen (by decide) hdata hrun hok hdata' hmore 0).2.2 hgoing hdone hnoErr⟩

end Http

end BlitzDeliveryEnd
