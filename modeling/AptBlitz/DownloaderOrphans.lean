import AptBlitz.DownloaderResults
import AptBlitz.Library.Tasks

/-! # Segments of workers that fail

    A range is claimed once.  When the worker that took it fails or panics
    before it has counted the segment as ready, nobody downloads the rest of
    it, and `all_completed()` is never true: the other workers go on claiming
    until nothing is left, and the download fails with `BufferFailed`.

    Segments are tasks in the sense of `Tasks`; `download_survives_iff` says
    that the download survives its workers' errors if and only if none of
    them drops its task. -/

namespace BlitzDownloaderOrphans

open BlitzBuffer SegmentsBuffer BlitzTransfers BlitzClients BlitzDownloader
open BlitzDownloaderSteps BlitzDownloaderRuns BlitzDownloaderResults Download Runs
open Tasks (Tally)
open Tasks.Tally

variable {d d' : Download} {w : Nat} {a : Act} {acts : List Act} {input : Input}
  {n totalSize : Nat} {file : Bytes} {pc : Pc}

/-- The worker has given up, or panicked. -/
def Pc.failed : Pc → Bool
  | .finish (.error _) => true
  | .panicked _ => true
  | _ => false

/-- A worker fails or panics between the `compare_exchange` that took its
    range and the step that counts the segment. -/
def Drops (d : Download) (a : Act) : Prop :=
  ∃ w input d', a = .worker w input ∧ step d a = some d' ∧
    (d.workers w).call ≠ .idle ∧ Pc.failed (d'.workers w) = true

/-- The coordinator has returned, or panicked. -/
def Over (d : Download) : Prop := (∃ r, d.coord = .returned r) ∨ d.coord = .panicked

/-- A step of the coordinator. -/
def coordStep (d : Download) : Act → Option Download
  | .worker _ _ => none
  | a => step d a

/-! ## Segments as tasks -/

/-- The segments, those counted as ready, and who holds which. -/
def tally (d : Download) : Tally Nat where
  issued := d.buf.segments.length
  finished := d.buf.readyCount
  held := fun w => (d.workers w).call.seg

theorem held_of (h : d.workers w = pc) : (tally d).held w = pc.call.seg := by
  show (d.workers w).call.seg = _
  rw [h]

/-- The tasks after a step that moves one worker. -/
theorem tally_eq {issued finished : Nat} (hw : d'.workers = Function.update d.workers w pc)
    (hlen : d'.buf.segments.length = issued) (hcount : d'.buf.readyCount = finished) :
    tally d' = ⟨issued, finished, Function.update (tally d).held w pc.call.seg⟩ := by
  have hheld : (tally d').held = Function.update (tally d).held w pc.call.seg := by
    funext v
    show (d'.workers v).call.seg = _
    rw [hw]
    exact Function.apply_update (fun _ (pc : Pc) => pc.call.seg) d.workers w pc v
  rw [tally, hlen, hcount]
  exact congrArg (Tally.mk _ _) hheld

/-- What a worker's step does to the tasks. -/
inductive Moved (d : Download) (w : Nat) (d' : Download) : Prop
  | same (h : tally d' = tally d)
  | issued (hw : (tally d).held w = none) (h : tally d' = (tally d).issue w)
  | finished {id : Nat} (hw : (tally d).held w = some id) (hlt : id < d.buf.segments.length)
      (h : tally d' = (tally d).finish w)
  | dropped {id : Nat} (hw : (tally d).held w = some id) (hlt : id < d.buf.segments.length)
      (hfail : Pc.failed (d'.workers w) = true) (h : tally d' = (tally d).drop w)

/-- The tally of a reachable state is sound. -/
theorem sound_tally (hb : BufferInv totalSize (view totalSize d)) : Sound (tally d) := by
  refine ⟨hb.claims.one_call, ?_⟩
  obtain ⟨C, hcard, hC⟩ := hb.claims.counted
  refine ⟨C, hcard, fun id hid => ?_⟩
  obtain ⟨⟨seg, hseg, -⟩, hfree⟩ := hC id hid
  exact ⟨(List.getElem?_eq_some_iff.mp hseg).1, hfree⟩

/-- A step that adds no segment and counts none: the worker stays with its
    task, or lets it go. -/
theorem moved_quiet (hw : d'.workers = Function.update d.workers w pc)
    (hlen : d'.buf.segments.length = d.buf.segments.length) (hcount : d'.buf.readyCount = d.buf.readyCount)
    (hseg : pc.call.seg = (d.workers w).call.seg) : Moved d w d' := by
  refine .same ?_
  have hself : Function.update (tally d).held w pc.call.seg = (tally d).held := by
    rw [hseg]
    exact Function.update_eq_self w (tally d).held
  rw [tally_eq hw hlen hcount, hself]
  rfl

/-- A worker that fails lets go of its segment. -/
theorem moved_failed (hb : BufferInv totalSize (view totalSize d))
    (hw : d'.workers = Function.update d.workers w pc)
    (hlen : d'.buf.segments.length = d.buf.segments.length)
    (hcount : d'.buf.readyCount = d.buf.readyCount) (hseg : pc.call.seg = none)
    (hfail : Pc.failed pc = true) : Moved d w d' := by
  cases hheld : (d.workers w).call.seg with
  | none => exact moved_quiet hw hlen hcount (hseg.trans hheld.symm)
  | some id =>
      refine .dropped hheld (hb.claims.seg_lt (w := w) hheld) ?_ ?_
      · rw [hw, Function.update_self]
        exact hfail
      · rw [tally_eq hw hlen hcount, hseg]
        rfl

/-- **Step of a worker**, in the tally. -/
theorem moved_worked (hb : BufferInv totalSize (view totalSize d)) (h : Worked d w d') :
    Moved d w d' := by
  cases h with
  | moved hm => exact moved_quiet rfl rfl rfl (congrArg _ (moves_call hm))
  | failed => exact moved_failed hb rfl rfl rfl rfl rfl
  | exhausted hw hcas =>
      rcases claimCas_none hcas with rfl | ⟨rfl, -⟩
      · exact moved_quiet rfl rfl rfl (held_of hw).symm
      · exact moved_quiet rfl rfl rfl (held_of hw).symm
  | cas hw hcas =>
      obtain ⟨rfl, -⟩ := claimCas_some hcas
      exact moved_quiet rfl rfl rfl (held_of hw).symm
  | @push p a z hw =>
      refine .issued (held_of hw) ?_
      have hlen : (d.buf.claimPush (a, z)).1.segments.length = d.buf.segments.length + 1 :=
        List.length_append
      exact (tally_eq (d := d) (w := w) rfl hlen rfl).trans rfl
  | opened hw => exact moved_quiet rfl rfl rfl (held_of hw).symm
  | received hw => exact moved_quiet rfl rfl rfl (held_of hw).symm
  | wrote hw hn hwrite =>
      obtain ⟨file, rfl⟩ := writeData_file hwrite
      exact moved_quiet rfl rfl rfl (held_of hw).symm
  | wroteSome hw hn hwrite =>
      obtain ⟨file, rfl⟩ := writeData_file hwrite
      exact moved_failed hb rfl rfl rfl rfl rfl
  | ready hw => exact moved_quiet rfl length_setReady rfl (held_of hw).symm
  | unlisted hw hlen =>
      -- a segment that is being filled is in the vector
      have hseg := seg_of_doing hb (doing_of hw)
      exact absurd (List.getElem?_eq_some_iff.mp hseg).1 (not_lt.mpr hlen)
  | @counted c hw =>
      refine .finished (held_of hw) (hb.claims.seg_lt (w := w) (held_of hw)) ?_
      exact (tally_eq (d := d) (w := w) rfl rfl rfl).trans rfl
  | notified hw => exact moved_quiet rfl rfl rfl (held_of hw).symm
  | finished hw => exact moved_quiet rfl rfl rfl (held_of hw).symm
  | panicked halive hp hlost =>
      refine moved_failed hb rfl rfl rfl ?_ rfl
      cases (d.workers w).call.claim with
      | none => rfl
      | some r => rfl

/-! ## A task dropped -/

/-- A worker that fails leaves no claim behind, except under a poisoned lock. -/
theorem fallen_worked (h : Worked d w d') (hfail : Pc.failed (d'.workers w) = true) :
    ((d.workers w).call.claim ≠ none → d'.poisoned = true) ∧
      tally d' = (tally d).drop w := by
  have hnot : ∀ {pc}, d'.workers = Function.update d.workers w pc → Pc.failed pc = false →
      False := by
    intro pc hw hpc
    rw [hw, Function.update_self, hpc] at hfail
    cases hfail
  cases h with
  | @moved pc hm =>
      refine (hnot rfl ?_).elim
      generalize d.workers w = old at hm
      cases hm <;> rfl
  | failed halive hc => exact ⟨absurd hc, (tally_eq (d := d) (w := w) rfl rfl rfl).trans rfl⟩
  | wroteSome hw hn hwrite =>
      obtain ⟨file, rfl⟩ := writeData_file hwrite
      refine ⟨?_, (tally_eq (d := d) (w := w) rfl rfl rfl).trans rfl⟩
      rw [hw]
      exact fun hne => absurd rfl hne
  | panicked halive hp hlost =>
      refine ⟨hlost, (tally_eq (d := d) (w := w) rfl rfl rfl).trans ?_⟩
      cases (d.workers w).call.claim with
      | none => rfl
      | some r => rfl
  | exhausted => exact (hnot rfl rfl).elim
  | cas => exact (hnot rfl rfl).elim
  | push => exact (hnot rfl rfl).elim
  | opened => exact (hnot rfl rfl).elim
  | received => exact (hnot rfl rfl).elim
  | wrote => exact (hnot rfl rfl).elim
  | ready => exact (hnot rfl rfl).elim
  | unlisted => exact (hnot rfl rfl).elim
  | counted => exact (hnot rfl rfl).elim
  | notified => exact (hnot rfl rfl).elim
  | finished => exact (hnot rfl rfl).elim

/-! ## What one pass over the worker's program shows

    Preferred sizes stay positive, and only who holds something poisons the
    lock. -/

/-- The size the worker will claim next. -/
def Pc.size : Pc → Nat
  | .top p => p
  | .claim p => p
  | .push p _ _ => p
  | .attempt c => c.preferredSize
  | .send c => c.preferredSize
  | .body c _ => c.preferredSize
  | .chunk c _ _ => c.preferredSize
  | .markState c => c.preferredSize
  | .markCount c => c.preferredSize
  | .notify c => c.preferredSize
  | .measure c => c.preferredSize
  | _ => initialSegmentSize

/-- What a step of a worker leaves in order. -/
structure Tended (d : Download) (w : Nat) (d' : Download) : Prop where
  sized : 0 < Pc.size (d.workers w) → 0 < Pc.size (d'.workers w)
  poisoned : d'.poisoned = true → d.poisoned = true ∨
    (d.workers w).call ≠ .idle ∧ Pc.failed (d'.workers w) = true

theorem nextSegmentSize_pos (preferred : Option Nat) : 0 < nextSegmentSize preferred := by
  cases preferred with
  | none => exact (by decide : 0 < initialSegmentSize)
  | some p => exact lt_of_lt_of_le (by decide : 0 < minSegmentSize) (le_max_left _ _)

/-- A step that goes to `pc` and leaves the lock alone. -/
theorem tended_goto {pc' : Pc} (hw : d.workers w = pc)
    (hd : d'.workers = Function.update d.workers w pc') (hp : d'.poisoned = d.poisoned)
    (hsize : 0 < Pc.size pc → 0 < Pc.size pc') : Tended d w d' := by
  refine ⟨?_, fun h => Or.inl (hp ▸ h)⟩
  rw [hw, hd, Function.update_self]
  exact hsize

/-- The end of a body leaves the preferred size alone. -/
theorem size_bodyOver (c : Claim) (fo : Nat) : 0 < c.preferredSize →
    0 < Pc.size (bodyOver c fo) := by
  intro hpos
  simp only [bodyOver]
  split
  · split
    · exact hpos
    · exact (by decide : 0 < initialSegmentSize)
  · exact hpos

/-- A piece of the body, or its end. -/
theorem tended_streamStep {c : Claim} {fo : Nat} (hw : d.workers w = .body c fo)
    (event : BodyEvent) : Tended d w (streamStep d w c fo event) := by
  have hpos : 0 < initialSegmentSize := by decide
  cases event with
  | eof => exact tended_goto hw rfl rfl (size_bodyOver c fo)
  | error e =>
      simp only [streamStep]
      split
      · exact tended_goto hw rfl rfl id
      · exact tended_goto hw rfl rfl fun _ => hpos
  | chunk data =>
      simp only [streamStep]
      split
      · exact tended_goto hw rfl rfl fun _ => hpos
      · exact tended_goto hw rfl rfl id
  | elapsed =>
      simp only [streamStep]
      split
      · exact tended_goto hw rfl rfl id
      · exact tended_goto hw rfl rfl fun _ => hpos

/-- Under the lock a worker has a range to push, or a segment to mark. -/
theorem tended_poisoned {p : Bool} {lost : Option (Nat × Nat)} (hw : d.workers w = pc)
    (hbusy : pc.call ≠ .idle) :
    Tended d w ({ d with poisoned := p }.goto w (.panicked lost)) := by
  have hself : ({ d with poisoned := p }.goto w (.panicked lost)).workers w = .panicked lost :=
    Function.update_self ..
  constructor
  · intro _
    rw [hself]
    exact (by decide : 0 < initialSegmentSize)
  · intro _
    right
    rw [hw, hself]
    exact ⟨hbusy, rfl⟩

/-- A panic. -/
theorem tended_panicStep {inLock : Bool} (h : panicStep d w inLock = some d') :
    Tended d w d' := by
  rw [panicStep] at h
  split at h
  next => cases h
  next => cases h
  next => cases h
  next => cases h
  next hw =>
    cases h
    refine tended_poisoned hw fun hidle => ?_
    cases hidle
  next hw =>
    cases h
    refine tended_poisoned hw fun hidle => ?_
    cases hidle
  next =>
    cases h
    exact tended_goto rfl rfl rfl fun _ => (by decide : 0 < initialSegmentSize)

/-- A turn of the loop that writes. -/
theorem tended_writeStep {c : Claim} {fo : Nat} {rest : Bytes} {consumed : Bool}
    {results : List (Except IoError Nat)} (hw : d.workers w = .chunk c fo rest)
    (h : writeStep d w c fo rest consumed results = some d') : Tended d w d' := by
  have hpos : 0 < initialSegmentSize := by decide
  simp only [writeStep] at h
  split at h
  · split at h
    · cases h
    · cases h; exact tended_goto hw rfl rfl fun _ => hpos
    · cases h; exact tended_goto hw rfl rfl id
  · split at h
    · cases h; exact tended_goto hw rfl rfl fun _ => hpos
    · cases h

/-- **Step of a worker**: sizes stay positive, and only a failure poisons the
    lock. -/
theorem tended_workerStep (h : workerStep d w input = some d') : Tended d w d' := by
  have hpos : 0 < initialSegmentSize := by decide
  simp only [workerStep] at h
  split at h
  next => exact tended_panicStep h
  next hw => cases h; exact tended_goto hw rfl rfl fun _ => hpos
  next hw =>
    split at h
    · cases h; exact tended_goto hw rfl rfl fun _ => hpos
    · cases h; exact tended_goto hw rfl rfl id
  next hw =>
    split at h
    · cases h; exact tended_goto hw rfl rfl fun _ => hpos
    · cases h; exact tended_goto hw rfl rfl id
  next hw =>
    split at h
    · cases h
    · cases h; exact tended_goto hw rfl rfl id
  next hw =>
    split at h
    · cases h; exact tended_goto hw rfl rfl fun _ => hpos
    · split at h
      · cases h; exact tended_goto hw rfl rfl fun _ => hpos
      · cases h; exact tended_goto hw rfl rfl id
  next hw =>
    split at h
    · cases h; exact tended_goto hw rfl rfl id
    · cases h; exact tended_goto hw rfl rfl fun _ => hpos
  next hw =>
    split at h
    · cases h; exact tended_goto hw rfl rfl fun _ => hpos
    · cases h; exact tended_goto hw rfl rfl id
  next event hw => cases h; exact tended_streamStep hw event
  next c fo rest hw =>
    split at h
    · split at h
      · cases h; exact tended_goto hw rfl rfl (size_bodyOver c fo)
      · cases h; exact tended_goto hw rfl rfl id
    · cases h
  next hw =>
    split at h
    · cases h
    · exact tended_writeStep hw h
  next hw =>
    split at h
    · cases h
    · split at h
      · cases h; exact tended_goto hw rfl rfl id
      · cases h; exact tended_goto hw rfl rfl id
  next hw => cases h; exact tended_goto hw rfl rfl id
  next hw => cases h; exact tended_goto hw rfl rfl id
  -- the only new size
  next hw => cases h; exact tended_goto hw rfl rfl id
  next speed hw => cases h; exact tended_goto hw rfl rfl fun _ => nextSegmentSize_pos speed
  next hw => cases h; exact tended_goto hw rfl rfl fun _ => hpos
  next => cases h

/-! ## A worker that ends with `Ok(())`

    It kept claiming until nothing was left. -/

/-- The worker has found nothing more to claim. -/
def Pc.exhausted : Pc → Bool
  | .finish (.ok _) => true
  | .ended (.ok _) => true
  | _ => false

/-- A worker that has left the loop left the whole file assigned. -/
def Assigned (d : Download) : Prop :=
  (∀ w, 0 < Pc.size (d.workers w)) ∧
    ((∃ w, Pc.exhausted (d.workers w) = true) → d.buf.allAssigned = true)

/-- A claim that finds nothing says so. -/
theorem claimCas_assigns {b b' : SegmentsBuffer} {p : Nat} {o : Option (Nat × Nat)}
    (h : b.claimCas p = (b', o)) (hp : 0 < p) :
    (b.allAssigned = true → b'.allAssigned = true) ∧ (o = none → b'.allAssigned = true) := by
  rw [claimCas, if_neg (Nat.ne_of_gt hp)] at h
  split at h
  · cases h
    exact ⟨fun _ => rfl, fun _ => rfl⟩
  · cases h
    refine ⟨id, fun hnone => ?_⟩
    cases hnone

/-- A move ends no worker that found nothing. -/
theorem exhausted_of_moves {pc'} (h : Moves pc pc') : Pc.exhausted pc' = false := by
  cases h <;> rfl

/-- Only the `claim_range` that finds nothing lets a worker leave the loop. -/
theorem assigned_worked (h : Worked d w d') (hsize : 0 < Pc.size (d.workers w)) :
    (d.buf.allAssigned = true → d'.buf.allAssigned = true) ∧
      (Pc.exhausted (d'.workers w) = true →
        d'.buf.allAssigned = true ∨ Pc.exhausted (d.workers w) = true) := by
  have hnot : ∀ {pc}, d'.workers = Function.update d.workers w pc → Pc.exhausted pc = false →
      Pc.exhausted (d'.workers w) = true →
        d'.buf.allAssigned = true ∨ Pc.exhausted (d.workers w) = true := by
    intro pc hw hpc he
    rw [hw, Function.update_self, hpc] at he
    cases he
  cases h with
  | moved hm => exact ⟨id, hnot rfl (exhausted_of_moves hm)⟩
  | failed => exact ⟨id, hnot rfl rfl⟩
  | exhausted hw hcas =>
      rw [hw] at hsize
      have hall := (claimCas_assigns hcas hsize).2 rfl
      exact ⟨fun _ => hall, fun _ => Or.inl hall⟩
  | cas hw hcas =>
      rw [hw] at hsize
      exact ⟨(claimCas_assigns hcas hsize).1, hnot rfl rfl⟩
  | push => exact ⟨id, hnot rfl rfl⟩
  | opened => exact ⟨id, hnot rfl rfl⟩
  | received => exact ⟨id, hnot rfl rfl⟩
  | wrote _ _ hwrite =>
      obtain ⟨file, rfl⟩ := writeData_file hwrite
      exact ⟨id, hnot rfl rfl⟩
  | wroteSome _ _ hwrite =>
      obtain ⟨file, rfl⟩ := writeData_file hwrite
      exact ⟨id, hnot rfl rfl⟩
  | ready => exact ⟨id, hnot rfl rfl⟩
  | unlisted => exact ⟨id, hnot rfl rfl⟩
  | counted => exact ⟨id, hnot rfl rfl⟩
  | notified => exact ⟨id, hnot rfl rfl⟩
  | @finished r hw =>
      refine ⟨id, fun he => Or.inr ?_⟩
      have hself : ({ d with active := d.active - 1 }.goto w (.ended r)).workers w = .ended r :=
        Function.update_self ..
      rw [hself] at he
      rw [hw]
      cases r with
      | ok u => rfl
      | error e => cases he
  | panicked => exact ⟨id, hnot rfl rfl⟩

/-- A step is a worker's or the coordinator's. -/
theorem worked_or_coordinator (hs : Stepped d a d') :
    (∃ w input, a = .worker w input ∧ Worked d w d') ∨ ∀ w input, a ≠ .worker w input := by
  by_cases ha : ∃ w input, a = .worker w input
  · obtain ⟨w, input, rfl⟩ := ha
    cases hs with
    | worker hw => exact Or.inl ⟨w, input, rfl, hw⟩
  · refine Or.inr fun w input heq => ?_
    exact ha ⟨w, input, heq⟩

/-- The coordinator leaves the workers and the buffer alone. -/
theorem workers_of_coordinator (hs : Stepped d a d') (ha : ∀ w input, a ≠ .worker w input) :
    (d'.workers = d.workers ∨ d'.workers = Function.update d.workers d.totalSpawned .permit) ∧
      d'.buf = d.buf ∧ d'.poisoned = d.poisoned := by
  cases hs with
  | worker => exact absurd rfl (ha _ _)
  | spawned => exact ⟨Or.inr rfl, rfl, rfl⟩
  | _ => exact ⟨Or.inl rfl, rfl, rfl⟩

/-- At the start. -/
theorem assigned_start : Assigned (start n totalSize file) := by
  have hw : ∀ w, (start n totalSize file).workers w = .permit ∨
      (start n totalSize file).workers w = .unspawned := by
    intro w
    exact ite_eq_or_eq ..
  refine ⟨fun w => ?_, ?_⟩
  · rcases hw w with h | h
    · rw [h]
      exact (by decide : 0 < initialSegmentSize)
    · rw [h]
      exact (by decide : 0 < initialSegmentSize)
  · rintro ⟨w, he⟩
    rcases hw w with h | h
    · rw [h] at he
      cases he
    · rw [h] at he
      cases he

/-- **Step**: who ended well has found the file assigned. -/
theorem assigned_step (h : Assigned d) (hs : step d a = some d') : Assigned d' := by
  have hst := stepped_of_step hs
  rcases worked_or_coordinator hst with ⟨w, input, rfl, hw⟩ | ha
  · have hf := framed_worked hw
    obtain ⟨hkeep, hself⟩ := assigned_worked hw (h.1 w)
    refine ⟨fun v => ?_, ?_⟩
    · by_cases hv : v = w
      · subst hv
        exact (tended_workerStep hs).sized (h.1 v)
      · rw [hf.others v hv]
        exact h.1 v
    · rintro ⟨v, hv⟩
      by_cases hvw : v = w
      · subst hvw
        rcases hself hv with hall | hold
        · exact hall
        · exact hkeep (h.2 ⟨v, hold⟩)
      · rw [hf.others v hvw] at hv
        exact hkeep (h.2 ⟨v, hv⟩)
  · obtain ⟨hw, hbuf, -⟩ := workers_of_coordinator hst ha
    have hpc : ∀ v, d'.workers v = d.workers v ∨ d'.workers v = .permit := by
      intro v
      rcases hw with hw | hw
      · exact Or.inl (congrFun hw v)
      · rw [hw]
        by_cases hv : v = d.totalSpawned
        · subst hv
          exact Or.inr (Function.update_self ..)
        · exact Or.inl (Function.update_of_ne hv ..)
    refine ⟨fun v => ?_, ?_⟩
    · rcases hpc v with hv | hv
      · rw [hv]
        exact h.1 v
      · rw [hv]
        exact (by decide : 0 < initialSegmentSize)
    · rintro ⟨v, he⟩
      rw [hbuf]
      rcases hpc v with hv | hv
      · rw [hv] at he
        exact h.2 ⟨v, he⟩
      · rw [hv] at he
        cases he

/-! ## How the download can end -/

/-- What is known of a download whose coordinator has given up. -/
structure Ended (d : Download) : Prop where
  failed : ∀ e, d.coord = .returned (.error e) → (∃ w, EndedFatal d w) ∨
    (∀ w, (d.workers w).alive = false) ∧ d.buf.allCompleted = false
  panicked : d.coord = .panicked → d.poisoned = true

/-- At the check no worker is at work. -/
theorem quiet_of_check (h : Books d) (hc : d.coord = .check) (w : Nat) :
    (d.workers w).alive = false := by
  by_cases hw : w < d.totalSpawned
  · have hj := h.joined w (h.settled (Or.inl hc) w hw)
    cases halive : (d.workers w).alive with
    | false => rfl
    | true => exact absurd (joinResult_of_alive halive) hj
  · rw [h.unspawned w (not_lt.mp hw)]
    rfl

/-- The coordinator has returned an error, or panicked. -/
def Coord.gaveUp : Coord → Bool
  | .returned (.error _) => true
  | .panicked => true
  | _ => false

/-- A coordinator that has not given up. -/
theorem ended_of_coord (hc : Coord.gaveUp d.coord = false) : Ended d := by
  constructor
  · intro e h
    rw [h] at hc
    cases hc
  · intro h
    rw [h] at hc
    cases hc

theorem ended_start : Ended (start n totalSize file) := ended_of_coord rfl

/-- A worker that left a result has ended with it. -/
theorem ended_of_joinResult {r : Except DownloadError Unit}
    (h : (d.workers w).joinResult = some (some r)) : d.workers w = .ended r := by
  cases hpc : d.workers w with
  | ended r' =>
      rw [hpc] at h
      cases h
      rfl
  | panicked l =>
      rw [hpc] at h
      cases h
  | _ =>
      rw [hpc] at h
      cases h

/-- **Step**: a coordinator that has given up had a worker's error. -/
theorem ended_step (hbooks : Books d) (h : Ended d) (hs : step d a = some d') : Ended d' := by
  have hst := stepped_of_step hs
  cases hst with
  | @worker w input _ hw =>
      have hf := framed_worked hw
      refine ⟨fun e hc => ?_, fun hc => ?_⟩
      · rw [hf.coord] at hc
        rcases h.failed e hc with ⟨v, e, hv, hfatal⟩ | ⟨hall, -⟩
        · have hne : v ≠ w := by
            rintro rfl
            have halive := hf.alive
            rw [hv] at halive
            cases halive
          exact Or.inl ⟨v, e, (hf.others v hne).trans hv, hfatal⟩
        · cases (hall w).symm.trans hf.alive
      · rw [hf.coord] at hc
        exact hf.poisoned (h.panicked hc)
  | @fatal w e hc hw hj hr he =>
      constructor
      · intro _ _
        exact Or.inl ⟨w, e, ended_of_joinResult hr, he⟩
      · intro hpanicked
        cases hpanicked
  | checkPanicked hc =>
      constructor
      · intro e hreturned
        cases hreturned
      · intro _
        simp only [step, if_pos hc] at hs
        split at hs
        next hlost => exact (Bool.and_eq_true .. ▸ hlost).2
        next =>
          split at hs
          · cases hs
          · cases hs
  | incomplete hc hd =>
      have hquiet := quiet_of_check hbooks hc
      constructor
      · intro _ _
        exact Or.inr ⟨hquiet, hd⟩
      · intro hpanicked
        cases hpanicked
  | spawned hc => exact ended_of_coord (hc ▸ rfl)
  | recv hc => exact ended_of_coord (hc ▸ rfl)
  | drained hc => exact ended_of_coord (hc ▸ rfl)
  | joined => exact ended_of_coord rfl
  | noneLeft => exact ended_of_coord rfl
  | allJoined => exact ended_of_coord rfl
  | noneActive => exact ended_of_coord rfl
  | someActive => exact ended_of_coord rfl
  | completed => exact ended_of_coord rfl

/-! ## Whole runs -/

/-- What holds in every state of a run. -/
structure OrphanInv (totalSize : Nat) (d : Download) : Prop where
  run : RunInv totalSize d
  buffer : BufferInv totalSize (view totalSize d)
  assigned : Assigned d
  ended : Ended d

theorem orphanInv_start (hfile : file.length = totalSize) :
    OrphanInv totalSize (start n totalSize file) :=
  ⟨runInv_start, bufferInv_view_start hfile, assigned_start, ended_start⟩

/-- **Step** of the download. -/
theorem orphanInv_step (h : OrphanInv totalSize d) (hs : step d a = some d') :
    OrphanInv totalSize d' := by
  obtain ⟨hrun, hbuffer⟩ := runInv_buffer_step ⟨h.run, h.buffer⟩ hs
  exact ⟨hrun, hbuffer, assigned_step h.assigned hs, ended_step h.run.books h.ended hs⟩

/-- Nothing has been dropped. -/
def Clean (d : Download) : Prop := Kept (tally d) ∧ d.poisoned = false

/-- Something has been dropped: a segment, or a range before its push. -/
def Spoiled (d : Download) : Prop := Orphaned (tally d) ∨ d.poisoned = true

/-- The coordinator changes nothing in the tally. -/
theorem tally_of_coordinator (h : OrphanInv totalSize d) (hs : Stepped d a d')
    (ha : ∀ w input, a ≠ .worker w input) : tally d' = tally d := by
  obtain ⟨hw, hbuf, -⟩ := workers_of_coordinator hs ha
  rcases hw with hw | hw
  · rw [tally, hw, hbuf]
    rfl
  · have hnew : (tally d).held d.totalSpawned = none :=
      held_of (h.run.books.unspawned _ (Nat.le_refl _))
    have hself : Function.update (tally d).held d.totalSpawned none = (tally d).held := by
      rw [← hnew]
      exact Function.update_eq_self ..
    rw [tally_eq hw (by rw [hbuf]) (by rw [hbuf])]
    exact congrArg (Tally.mk _ _) hself

/-- **Step** that drops nothing. -/
theorem clean_step (h : OrphanInv totalSize d) (hc : Clean d) (hG : ¬ Drops d a)
    (hs : step d a = some d') : Clean d' := by
  have hst := stepped_of_step hs
  rcases worked_or_coordinator hst with ⟨w, input, rfl, hw⟩ | ha
  · constructor
    · cases moved_worked h.buffer hw with
      | same heq => exact heq ▸ hc.1
      | issued hnone heq => exact heq ▸ hc.1.issue hnone
      | finished hheld _ heq => exact heq ▸ hc.1.finish hheld
      | dropped hheld _ hfail _ =>
          refine absurd ⟨w, input, d', rfl, hs, ?_, hfail⟩ hG
          intro hidle
          have hheld : (d.workers w).call.seg = some _ := hheld
          rw [hidle] at hheld
          cases hheld
    · cases hp : d'.poisoned with
      | false => rfl
      | true =>
          rcases (tended_workerStep hs).poisoned hp with hold | ⟨hcall, hfail⟩
          · exact nomatch hold.symm.trans hc.2
          · exact absurd ⟨w, input, d', rfl, hs, hcall, hfail⟩ hG
  · exact ⟨tally_of_coordinator h hst ha ▸ hc.1,
      (workers_of_coordinator hst ha).2.2.trans hc.2⟩

/-- **Step**: what is spoiled stays so. -/
theorem spoiled_step (h : OrphanInv totalSize d) (hsp : Spoiled d) (hs : step d a = some d') :
    Spoiled d' := by
  have hst := stepped_of_step hs
  rcases worked_or_coordinator hst with ⟨w, input, rfl, hw⟩ | ha
  · rcases hsp with horphan | hp
    · refine Or.inl ?_
      cases moved_worked h.buffer hw with
      | same heq => exact heq ▸ horphan
      | issued _ heq => exact heq ▸ horphan.issue
      | finished hheld hlt heq =>
          exact heq ▸ horphan.finish (sound_tally h.buffer) hheld hlt
      | dropped _ _ _ heq => exact heq ▸ horphan.drop
    · exact Or.inr ((framed_worked hw).poisoned hp)
  · refine hsp.imp (fun horphan => ?_) fun hp => ?_
    · exact tally_of_coordinator h hst ha ▸ horphan
    · exact (workers_of_coordinator hst ha).2.2.trans hp

/-- A worker in a call holds a segment, or a range not yet pushed. -/
theorem claim_of_seg_none {call : BlitzClaims.Call} (hbusy : call ≠ .idle)
    (hseg : call.seg = none) : call.claim ≠ none := by
  cases call with
  | idle => exact absurd rfl hbusy
  | claimed a z =>
      intro hnone
      cases hnone
  | holds id a z => cases hseg
  | marking id => cases hseg

/-- A worker that drops what it holds spoils the download. -/
theorem spoiled_of_drops (h : OrphanInv totalSize d) (hdrop : Drops d a)
    (hs : step d a = some d') : Spoiled d' := by
  obtain ⟨w, input, d'', rfl, hs', hcall, hfail⟩ := hdrop
  obtain rfl : d'' = d' := Option.some.inj (hs'.symm.trans hs)
  cases stepped_of_step hs with
  | worker hw =>
      obtain ⟨hclaim, htally⟩ := fallen_worked hw hfail
      cases hheld : (d.workers w).call.seg with
      | none => exact Or.inr (hclaim (claim_of_seg_none hcall hheld))
      | some id =>
          exact Or.inl (htally ▸ orphaned_of_drop (sound_tally h.buffer) hheld
            (h.buffer.claims.seg_lt (w := w) hheld))

theorem clean_start : Clean (start n totalSize file) :=
  ⟨⟨∅, Nat.le_refl 0, fun _ h => absurd h (Nat.not_lt_zero _)⟩, rfl⟩

/-- A download that returned `Ok(())` is not spoiled. -/
theorem not_spoiled_of_completed (h : OrphanInv totalSize d) (hok : d.coord = .returned (.ok ())) :
    ¬ Spoiled d := by
  obtain ⟨hp, hdone⟩ := h.run.books.ok hok
  rintro (horphan | hp')
  · have hlt : d.buf.readyCount < d.buf.segments.length := horphan.finished_lt
    exact absurd (allCompleted_iff.mp hdone).2 (Nat.not_le.mpr hlt)
  · exact nomatch hp.symm.trans hp'

/-- Over, with no fatal error and a worker that found nothing left to claim. -/
theorem ok_of_clean (h : OrphanInv totalSize d) (hc : Clean d) (hover : Over d)
    (hfine : ∀ v, ¬ EndedFatal d v) (hw : d.workers w = .ended (.ok ())) :
    d.coord = .returned (.ok ()) := by
  rcases hover with ⟨r, hr⟩ | hpanic
  · cases r with
    | ok u => exact hr
    | error e =>
        rcases h.ended.failed e hr with ⟨v, hv⟩ | ⟨hquiet, hdone⟩
        · exact absurd hv (hfine v)
        · have hall : d.buf.allAssigned = true := h.assigned.2 ⟨w, by rw [hw]; rfl⟩
          have hnone : ∀ v, (tally d).held v = none := by
            intro v
            show (d.workers v).call.seg = none
            have hv := hquiet v
            cases hpc : d.workers v with
            | unspawned => rfl
            | ended => rfl
            | panicked l =>
                cases l with
                | none => rfl
                | some r => rfl
            | _ => rw [hpc] at hv; cases hv
          have hle : d.buf.segments.length ≤ d.buf.readyCount := hc.1.all_finished hnone
          exact nomatch hdone.symm.trans (allCompleted_iff.mpr ⟨hall, hle⟩)
  · exact nomatch hc.2.symm.trans (h.ended.panicked hpanic)

/-! ## The coordinator comes to an end

    Once every worker is over it needs no more than its own steps. -/

/-- The coordinator's own steps lead from `d` to `d'`. -/
structure Follows (d d' : Download) : Prop where
  reaches : Reaches coordStep d d'
  workers : d'.workers = d.workers
  spawned : d'.totalSpawned = d.totalSpawned

theorem Follows.refl : Follows d d := ⟨.refl, rfl, rfl⟩

theorem Follows.step {d'' : Download} (h : Follows d d') (hs : coordStep d' a = some d'')
    (hw : d''.workers = d'.workers) (hn : d''.totalSpawned = d'.totalSpawned) : Follows d d'' :=
  ⟨h.reaches.trans (.single hs), hw.trans h.workers, hn.trans h.spawned⟩

/-- Steps of the coordinator, one after the other. -/
theorem Follows.trans {d'' : Download} (h : Follows d d') (h' : Follows d' d'') :
    Follows d d'' :=
  ⟨h.reaches.trans h'.reaches, h'.workers.trans h.workers, h'.spawned.trans h.spawned⟩

/-- Every worker is over, and none with a fatal error. -/
structure AllOver (d : Download) : Prop where
  fine : ∀ v, ¬ EndedFatal d v
  ended : ∀ v, v < d.totalSpawned → (d.workers v).joinResult ≠ none

/-- Workers that are over stay so. -/
theorem AllOver.follows (h : AllOver d) (hf : Follows d d') : AllOver d' := by
  constructor
  · intro v hv
    rw [EndedFatal, hf.workers] at hv
    exact h.fine v hv
  · intro v hv
    rw [hf.spawned] at hv
    rw [hf.workers]
    exact h.ended v hv

/-- The second loop joins one worker after the other. -/
theorem drain_joins (h : AllOver d) (hc : d.coord = .drain) (k : Nat) (hk : k ≤ d.totalSpawned) :
    ∃ d', Follows d d' ∧ d'.coord = .drain ∧ ∀ w, w < k → d'.joined w = true := by
  induction k with
  | zero => exact ⟨d, .refl, hc, nofun⟩
  | succ k ih =>
      obtain ⟨d', hf, hc', hjoined⟩ := ih (by omega)
      have hall := h.follows hf
      have hlt : k < d'.totalSpawned := by
        rw [hf.spawned]
        exact hk
      cases hj : d'.joined k with
      | true =>
          refine ⟨d', hf, hc', fun w hw => ?_⟩
          rcases Nat.lt_succ_iff_lt_or_eq.mp hw with hlt | rfl
          · exact hjoined w hlt
          · exact hj
      | false =>
          obtain ⟨r, hr⟩ := Option.ne_none_iff_exists'.mp (hall.ended k hlt)
          have hs : coordStep d' (.join k)
              = some { d' with joined := Function.update d'.joined k true } := by
            simp only [coordStep, step, joinStep, hlt, hj, and_self, if_true, hr, hc']
          refine ⟨_, hf.step hs rfl rfl, hc', fun w hw => ?_⟩
          show Function.update d'.joined k true w = true
          by_cases hwk : w = k
          · subst hwk
            exact Function.update_self ..
          · rw [Function.update_of_ne hwk]
            exact hjoined w (by omega)

theorem joinNone_guard (hall : ∀ w, w < d.totalSpawned → d.joined w = true) :
    (List.range d.totalSpawned).all d.joined = true :=
  List.all_eq_true.mpr fun w hw => hall w (List.mem_range.mp hw)

/-- `all_completed()` decides. -/
theorem over_of_check (hc : d.coord = .check) : ∃ d', Follows d d' ∧ Over d' := by
  cases hlost : d.buf.allAssigned && d.poisoned with
  | true =>
      have hs : coordStep d .check = some { d with coord := .panicked } := by
        simp only [coordStep, step, hc, hlost, if_true]
      exact ⟨_, Follows.refl.step hs rfl rfl, Or.inr rfl⟩
  | false =>
      cases hdone : d.buf.allCompleted with
      | true =>
          have hs : coordStep d .check = some { d with coord := .returned (.ok ()) } := by
            simp only [coordStep, step, hc, hlost, hdone, if_true, Bool.false_eq_true, if_false]
          exact ⟨_, Follows.refl.step hs rfl rfl, Or.inl ⟨_, rfl⟩⟩
      | false =>
          have hs : coordStep d .check
              = some { d with cancelled := true, coord := .returned (.error .bufferFailed) } := by
            simp only [coordStep, step, hc, hlost, hdone, if_true, Bool.false_eq_true, if_false]
          exact ⟨_, Follows.refl.step hs rfl rfl, Or.inl ⟨_, rfl⟩⟩

/-- From the second loop on the coordinator comes to its end. -/
theorem over_of_drain (h : AllOver d) (hc : d.coord = .drain) :
    ∃ d', Follows d d' ∧ Over d' := by
  obtain ⟨d₁, hf, hc₁, hjoined⟩ := drain_joins h hc _ (Nat.le_refl _)
  rw [← hf.spawned] at hjoined
  have hs : coordStep d₁ .joinNone = some { d₁ with coord := .check } := by
    simp only [coordStep, step, joinNone_guard hjoined, if_true, hc₁]
  have hf₁ := hf.step hs rfl rfl
  obtain ⟨d₂, hf₂, hover⟩ := over_of_check (d := { d₁ with coord := .check }) rfl
  exact ⟨d₂, hf₁.trans hf₂, hover⟩

/-- `join_next` in the first loop, of a worker without a fatal error. -/
theorem join_select {r : Option (Except DownloadError Unit)} (hc : d.coord = .select)
    (hw : w < d.totalSpawned) (hj : d.joined w = false) (hr : (d.workers w).joinResult = some r)
    (hfine : ¬ EndedFatal d w) : coordStep d (.join w) = some { d with
      joined := Function.update d.joined w true, coord := .loadActive } := by
  have hguard : w < d.totalSpawned ∧ d.joined w = false := ⟨hw, hj⟩
  simp only [coordStep, step, joinStep, if_pos hguard, hr, hc]
  split
  next e =>
    have hfatal : ¬ e.isFatal = true := fun he => hfine ⟨e, ended_of_joinResult hr, he⟩
    rw [if_neg hfatal]
  next => rfl

/-- `active.load()` after a join. -/
theorem loadActive_follows (hc : d.coord = .loadActive) :
    ∃ d', Follows d d' ∧ d'.joined = d.joined ∧ (d'.coord = .drain ∨ d'.coord = .select) := by
  by_cases h0 : d.active = 0
  · have hs : coordStep d .loadActive = some { d with coord := .drain } := by
      simp only [coordStep, step, if_pos hc, if_pos h0]
    exact ⟨_, Follows.refl.step hs rfl rfl, rfl, Or.inl rfl⟩
  · have hs : coordStep d .loadActive = some { d with coord := .select } := by
      simp only [coordStep, step, if_pos hc, if_neg h0]
    exact ⟨_, Follows.refl.step hs rfl rfl, rfl, Or.inr rfl⟩

/-- The first loop joins one worker after the other, or is left before. -/
theorem select_joins (h : AllOver d) (hc : d.coord = .select) (k : Nat)
    (hk : k ≤ d.totalSpawned) : ∃ d', Follows d d' ∧
      (d'.coord = .drain ∨ d'.coord = .select ∧ ∀ w, w < k → d'.joined w = true) := by
  induction k with
  | zero => exact ⟨d, .refl, Or.inr ⟨hc, nofun⟩⟩
  | succ k ih =>
      obtain ⟨d', hf, hdrain | ⟨hc', hjoined⟩⟩ := ih (by omega)
      · exact ⟨d', hf, Or.inl hdrain⟩
      · have hall := h.follows hf
        have hlt : k < d'.totalSpawned := by
          rw [hf.spawned]
          exact hk
        cases hj : d'.joined k with
        | true =>
            refine ⟨d', hf, Or.inr ⟨hc', fun w hw => ?_⟩⟩
            rcases Nat.lt_succ_iff_lt_or_eq.mp hw with hlt | rfl
            · exact hjoined w hlt
            · exact hj
        | false =>
            obtain ⟨r, hr⟩ := Option.ne_none_iff_exists'.mp (hall.ended k hlt)
            have hs : coordStep d' (.join k) = some { d' with
                joined := Function.update d'.joined k true, coord := .loadActive } :=
              join_select hc' hlt hj hr (hall.fine k)
            obtain ⟨d'', hf'', hjoined'', hc''⟩ := loadActive_follows (d := { d' with
              joined := Function.update d'.joined k true, coord := .loadActive }) rfl
            refine ⟨d'', (hf.step hs rfl rfl).trans hf'', hc''.imp_right fun hsel =>
              ⟨hsel, fun w hw => ?_⟩⟩
            rw [hjoined'']
            show Function.update d'.joined k true w = true
            by_cases hwk : w = k
            · subst hwk
              exact Function.update_self ..
            · rw [Function.update_of_ne hwk]
              exact hjoined w (by omega)

/-- **The coordinator ends**: with every worker over, its own steps lead to
    its end. -/
theorem over_of_allOver (h : AllOver d) : ∃ d', Follows d d' ∧ Over d' := by
  have hselect : ∀ {d}, AllOver d → d.coord = .select → ∃ d', Follows d d' ∧ Over d' := by
    intro d h hc
    obtain ⟨d₁, hf, hdrain | ⟨hc₁, hjoined⟩⟩ := select_joins h hc _ (Nat.le_refl _)
    · obtain ⟨d₂, hf₂, hover⟩ := over_of_drain (h.follows hf) hdrain
      exact ⟨d₂, hf.trans hf₂, hover⟩
    · rw [← hf.spawned] at hjoined
      have hs : coordStep d₁ .joinNone = some { d₁ with coord := .drain } := by
        simp only [coordStep, step, joinNone_guard hjoined, if_true, hc₁]
      have hf₁ := hf.step hs rfl rfl
      obtain ⟨d₂, hf₂, hover⟩ := over_of_drain (h.follows hf₁) rfl
      exact ⟨d₂, hf₁.trans hf₂, hover⟩
  cases hc : d.coord with
  | select => exact hselect h hc
  | loadActive =>
      obtain ⟨d₁, hf, -, hdrain | hsel⟩ := loadActive_follows hc
      · obtain ⟨d₂, hf₂, hover⟩ := over_of_drain (h.follows hf) hdrain
        exact ⟨d₂, hf.trans hf₂, hover⟩
      · obtain ⟨d₂, hf₂, hover⟩ := hselect (h.follows hf) hsel
        exact ⟨d₂, hf.trans hf₂, hover⟩
  | drain => exact over_of_drain h hc
  | check => exact over_of_check hc
  | returned r => exact ⟨d, .refl, Or.inl ⟨r, hc⟩⟩
  | panicked => exact ⟨d, .refl, Or.inr hc⟩

/-! ## Who survives -/

/-- A run that drops nothing leaves everything clean. -/
theorem clean_of_along (hfile : file.length = totalSize)
    (hrun : run step (start n totalSize file) acts = some d)
    (halong : Along step (fun d a => ¬ Drops d a) (start n totalSize file) acts) : Clean d :=
  (along_invariant (I := fun d => OrphanInv totalSize d ∧ Clean d)
    (fun _ _ _ h hG hs => ⟨orphanInv_step h.1 hs, clean_step h.1 h.2 hG hs⟩)
    ⟨orphanInv_start hfile, clean_start⟩ halong hrun).2

/-- A run that drops something is spoiled for good. -/
theorem spoiled_of_not_along (hfile : file.length = totalSize)
    (hrun : run step (start n totalSize file) acts = some d)
    (hnot : ¬ Along step (fun d a => ¬ Drops d a) (start n totalSize file) acts) :
    Spoiled d := by
  have hor := along_or_last (H := fun _ _ => True) (G := fun d a => ¬ Drops d a)
    (P := fun d => OrphanInv totalSize d ∧ Spoiled d)
    (fun _ _ _ h _ hs => orphanInv_step h hs)
    (fun _ _ _ h _ hs hG => ⟨orphanInv_step h hs, spoiled_of_drops h (not_not.mp hG) hs⟩)
    (fun _ _ _ h _ hs => ⟨orphanInv_step h.1 hs, spoiled_step h.1 h.2 hs⟩)
    (orphanInv_start hfile) (along_of_mem fun _ _ _ => trivial) hrun
  exact (hor.resolve_left hnot).2

/-- A step of the coordinator is a step of the download. -/
theorem step_of_coordStep (h : coordStep d a = some d') :
    step d a = some d' ∧ ∀ w input, a ≠ .worker w input := by
  cases a with
  | worker => cases h
  | _ => exact ⟨h, nofun⟩

/-- The coordinator drops nothing and repairs nothing. -/
theorem follows_keeps (hinv : OrphanInv totalSize d) (hf : Follows d d') :
    OrphanInv totalSize d' ∧ (Clean d → Clean d') ∧ (Spoiled d → Spoiled d') := by
  obtain ⟨bs, hbs⟩ := hf.reaches
  refine run_invariant (I := fun d' => OrphanInv totalSize d' ∧ (Clean d → Clean d') ∧
    (Spoiled d → Spoiled d')) ?_ ⟨hinv, id, id⟩ hbs
  rintro d₁ a d₂ ⟨h, hclean, hspoiled⟩ hs
  obtain ⟨hs, ha⟩ := step_of_coordStep hs
  have hG : ¬ Drops d₁ a := by
    rintro ⟨w, input, -, rfl, -⟩
    exact ha w input rfl
  exact ⟨orphanInv_step h hs, fun hc => clean_step h (hclean hc) hG hs,
    fun hsp => spoiled_step h (hspoiled hsp) hs⟩

/-- **Survival, exactly**: in a run without a fatal error, in which some
    worker kept claiming until nothing was left, the download returns
    `Ok(())` if and only if no worker failed or panicked while it held a
    range; and it does return, once every worker is over. -/
theorem download_survives_iff (hfile : file.length = totalSize)
    (hrun : run step (start n totalSize file) acts = some d)
    (hfine : ∀ v, ¬ EndedFatal d v) (hok : d.workers w = .ended (.ok ())) :
    (Over d → (d.coord = .returned (.ok ()) ↔
      Along step (fun d a => ¬ Drops d a) (start n totalSize file) acts)) ∧
    ((∀ v, v < d.totalSpawned → (d.workers v).joinResult ≠ none) →
      ∃ d', Reaches coordStep d d' ∧ Over d' ∧ (d'.coord = .returned (.ok ()) ↔
        Along step (fun d a => ¬ Drops d a) (start n totalSize file) acts)) := by
  have hinv := run_invariant (fun _ _ _ => orphanInv_step) (orphanInv_start hfile) hrun
  have hiff : ∀ d', Follows d d' → Over d' → (d'.coord = .returned (.ok ()) ↔
      Along step (fun d a => ¬ Drops d a) (start n totalSize file) acts) := by
    intro d' hf hover
    obtain ⟨hinv', hclean, hspoiled⟩ := follows_keeps hinv hf
    constructor
    · intro hret
      by_contra hnot
      exact not_spoiled_of_completed hinv' hret (hspoiled (spoiled_of_not_along hfile hrun hnot))
    · intro halong
      refine ok_of_clean hinv' (hclean (clean_of_along hfile hrun halong)) hover ?_ (w := w) ?_
      · intro v hv
        rw [EndedFatal, hf.workers] at hv
        exact hfine v hv
      · rw [hf.workers]
        exact hok
  constructor
  · intro hover
    exact hiff d .refl hover
  · intro hall
    obtain ⟨d', hf, hover⟩ := over_of_allOver ⟨hfine, hall⟩
    exact ⟨d', hf.reaches, hover, hiff d' hf hover⟩

/-- The results of the workers that were spawned say whether a fatal error is
    among them. -/
theorem not_endedFatal (h : Books d)
    (hall : ∀ v, v < d.totalSpawned → (d.workers v).joinResult = some (some (.ok ())) ∨
      ∃ e, (d.workers v).joinResult = some (some (.error e)) ∧ e.isFatal = false) :
    ∀ v, ¬ EndedFatal d v := by
  rintro v ⟨e, hv, hfatal⟩
  by_cases hlt : v < d.totalSpawned
  · rcases hall v hlt with hr | ⟨e', hr, he'⟩
    · rw [hv] at hr
      cases hr
    · rw [hv] at hr
      cases hr
      cases hfatal.symm.trans he'
  · rw [h.unspawned v (not_lt.mp hlt)] at hv
    cases hv

theorem download_survives_oneByte :
    ∃ d, run step (start 1 1 [0]) oneByte = some d ∧
      (Over d → (d.coord = .returned (.ok ()) ↔
        Along step (fun d a => ¬ Drops d a) (start 1 1 [0]) oneByte)) ∧
      ((∀ v, v < d.totalSpawned → (d.workers v).joinResult ≠ none) →
        ∃ d', Reaches coordStep d d' ∧ Over d' ∧ (d'.coord = .returned (.ok ()) ↔
          Along step (fun d a => ¬ Drops d a) (start 1 1 [0]) oneByte)) := by
  have hany : (run step (start 1 1 [0]) oneByte).any (fun d =>
      decide (d.totalSpawned = 1 ∧ (d.workers 0).joinResult = some (some (.ok ())))) = true := by
    decide
  obtain ⟨d, hrun, hd⟩ := run_of_any hany
  obtain ⟨hone, hr⟩ := of_decide_eq_true hd
  have hbooks := run_invariant (fun _ _ _ h hs => books_step h (stepped_of_step hs))
    books_start hrun
  have hfine : ∀ v, ¬ EndedFatal d v := by
    refine not_endedFatal hbooks fun v hv => Or.inl ?_
    obtain rfl : v = 0 := by omega
    exact hr
  exact ⟨d, hrun, download_survives_iff rfl hrun hfine (ended_of_joinResult hr)⟩

/-! ### One failure among two workers

    A file of 1 MiB and one byte.  Worker 1 is told 500 for the last byte and
    is over; worker 0 fills the first segment and finds nothing left to
    claim. -/

/-- The second worker fails, and the first one goes on. -/
def afterOneFailure : List Act :=
  List.replicate 4 (.worker 0 .go) ++ [.worker 0 (.measured none), .recvReady]
    ++ List.replicate 5 (.worker 1 .go) ++ [.worker 1 (.sent (.ok ⟨500, []⟩)), .worker 1 .go]
    ++ List.replicate 3 (.worker 0 .go)
    ++ [.join 1, .loadActive, .join 0, .joinNone, .check]

theorem not_survives :
    ∃ d, run step (start 2 1048577 newFile) (untilFirstChunk ++
        .worker 0 (.write true [.ok 1048576]) :: afterOneFailure) = some d ∧
      (∀ v, ¬ EndedFatal d v) ∧ d.workers 0 = .ended (.ok ()) ∧
      d.coord = .returned (.error .bufferFailed) := by
  have hany : (run step firstChunkWritten afterOneFailure).any (fun d =>
      decide (d.totalSpawned = 2 ∧ (d.workers 0).joinResult = some (some (.ok ())) ∧
        (d.workers 1).joinResult = some (some (.error (.httpStatus 500))) ∧
        d.coord = .returned (.error .bufferFailed))) = true := by decide
  obtain ⟨d, hrun, hd⟩ := run_of_any hany
  obtain ⟨htwo, hr0, hr1, hret⟩ := of_decide_eq_true hd
  have hrun : run step (start 2 1048577 newFile) (untilFirstChunk ++
      .worker 0 (.write true [.ok 1048576]) :: afterOneFailure) = some d := by
    refine run_append run_untilFirstChunk ?_
    rw [run_cons step_firstChunk]
    exact hrun
  have hbooks := run_invariant (fun _ _ _ h hs => books_step h (stepped_of_step hs))
    books_start hrun
  refine ⟨d, hrun, not_endedFatal hbooks fun v hv => ?_, ended_of_joinResult hr0, hret⟩
  rcases (by omega : v = 0 ∨ v = 1) with rfl | rfl
  · exact Or.inl hr0
  · exact Or.inr ⟨_, hr1, rfl⟩

end BlitzDownloaderOrphans
