import AptBlitz.FileBytes
import AptBlitz.FtpResults

/-! # The file an FTP download leaves

    A worker opens one data connection for a segment and never a second one,
    so all that was ever written for the segment came over it
    (`OneTransfer`).  A ready segment holds what came, and behind that what
    the file had there before anything was downloaded
    (`ftp_ready_shows_body`): with a connection closed early the zeros that
    `set_len` made are passed on as content. -/

namespace BlitzFtpFile

open BlitzBuffer SegmentsBuffer BlitzTransfers BlitzClients BlitzFtp
open BlitzFtpSteps BlitzFtpRuns BlitzFtpResults BlitzFileBytes
open Download Runs WrittenBytes Tiling

variable {d d' : Download} {w id : Nat} {a : Act} {acts : List Act} {input : Input}
  {seg : Segment} {n totalSize : Nat} {file : Bytes} {pc pc' : Pc}
  {log : List (Event DataConnection)} {what : What DataConnection} {t : Transfer DataConnection}

/-! ## One transfer for a segment -/

/-- The segment for which the worker has not opened a data connection yet. -/
def Pc.opening : Pc → Option Nat
  | .pasv c => some c.id
  | .rest c _ => some c.id
  | .retr c _ => some c.id
  | .connect c _ => some c.id
  | _ => none

/-- What was written for a segment was written in its last transfer. -/
def AllInLast (id : Nat) (log : List (Event DataConnection)) : Prop :=
  writesOf id log = ((lastTransfer id log).map Transfer.writes).getD []

/-- No segment has more than one transfer. -/
structure OneTransfer (d : Download) : Prop where
  fresh : ∀ w id, Pc.opening (d.workers w) = some id → lastTransfer id d.log = none
  once : ∀ id, AllInLast id d.log

/-- At the start. -/
theorem oneTransfer_start : OneTransfer (start n totalSize file) where
  fresh w id h := by
    have hw : (start n totalSize file).workers w = if w < n then .permit else .unspawned := rfl
    rw [hw] at h
    split at h <;> cases h
  once _ := rfl

/-- A move starts no opening of a connection. -/
theorem opening_of_moves (h : Moves pc pc') (hid : Pc.opening pc' = some id) :
    Pc.opening pc = some id := by
  cases h <;> exact hid

/-- A worker that opens a connection has a segment. -/
theorem doing_of_opening (h : Pc.opening pc = some id) :
    ∃ y, Pc.doing False pc = some y ∧ y.id = id := by
  cases pc with
  | pasv c => cases h; exact ⟨_, rfl, rfl⟩
  | rest c _ => cases h; exact ⟨_, rfl, rfl⟩
  | retr c _ => cases h; exact ⟨_, rfl, rfl⟩
  | connect c _ => cases h; exact ⟨_, rfl, rfl⟩
  | _ => cases h

/-- The worker goes on, and nothing is logged. -/
theorem OneTransfer.quiet (h : OneTransfer d)
    (hworkers : d'.workers = Function.update d.workers w pc) (hlog : d'.log = d.log)
    (hpc : ∀ id, Pc.opening pc = some id → Pc.opening (d.workers w) = some id) :
    OneTransfer d' := by
  refine ⟨?_, hlog ▸ h.once⟩
  intro v id hv
  rw [hlog]
  rw [hworkers] at hv
  by_cases hvw : v = w
  · subst hvw
    rw [Function.update_self] at hv
    exact h.fresh v id (hpc id hv)
  · rw [Function.update_of_ne hvw] at hv
    exact h.fresh v id hv

/-- One event more. -/
theorem allInLast_snoc (hall : ∀ id, AllInLast id log) {v i : Nat}
    (hself : AllInLast i (log ++ [⟨v, i, what⟩])) : ∀ id, AllInLast id (log ++ [⟨v, i, what⟩]) := by
  intro id
  by_cases hid : i = id
  · subst hid
    exact hself
  · have hne : (⟨v, i, what⟩ : Event DataConnection).id ≠ id := hid
    rw [AllInLast]
    rw [lastTransfer_of_ne hne, writesOf_snoc, writeOf, if_neg hne]
    exact (List.append_nil _).trans (hall id)

/-- The worker logs an event about the segment it fills, having opened the
    connection. -/
theorem OneTransfer.event {y : Doing DataConnection} (h : OneTransfer d)
    (hb : BufferInv totalSize (view False d))
    (hw : (client False).doing ((snap d).workers w) = some y)
    (hworkers : d'.workers = Function.update d.workers w pc)
    (hlog : d'.log = d.log ++ [⟨w, y.id, what⟩]) (hpc : Pc.opening pc = none)
    (hself : AllInLast y.id (d.log ++ [⟨w, y.id, what⟩])) : OneTransfer d' := by
  refine ⟨?_, hlog ▸ allInLast_snoc h.once hself⟩
  intro v id hv
  rw [hworkers] at hv
  by_cases hvw : v = w
  · subst hvw
    rw [Function.update_self, hpc] at hv
    cases hv
  · rw [Function.update_of_ne hvw] at hv
    obtain ⟨x, hx, hid⟩ := doing_of_opening hv
    have hne : y.id ≠ id := by
      rintro rfl
      exact ids_of_doing hb hw v x hvw hx hid
    rw [hlog, lastTransfer_of_ne hne]
    exact h.fresh v id hv

/-- An event that neither opens a transfer nor writes. -/
theorem allInLast_plain (h : AllInLast id log) {v : Nat}
    (hopen : ∀ conn, what ≠ .opened conn) (hwrite : ∀ off data, what ≠ .wrote off data) :
    AllInLast id (log ++ [⟨v, id, what⟩]) := by
  rw [AllInLast] at h ⊢
  rw [lastTransfer_self, writesOf_snoc, writeOf, if_pos rfl, h]
  cases what with
  | opened conn => exact absurd rfl (hopen conn)
  | wrote off data => exact absurd rfl (hwrite off data)
  | _ => cases lastTransfer id log <;> exact List.append_nil _

/-- **Step of a worker**: a segment has one transfer. -/
theorem OneTransfer.worked (h : OneTransfer d) (hb : BufferInv totalSize (view False d))
    (hlog : LogOk (client False) (Marked False) (snap d)) (hw : Worked d w input d') :
    OneTransfer d' := by
  cases hw with
  | moved hm => exact h.quiet rfl rfl fun id => opening_of_moves hm
  | @push _ p a z hw =>
      have hnone : lastTransfer d.buf.segments.length d.log = none :=
        @lastTransfer_append _ [] _ _ fun e he => Nat.ne_of_lt (hlog.ids e he)
      have hself : AllInLast d.buf.segments.length
          (d.log ++ [⟨w, d.buf.segments.length, .claimed a z⟩]) :=
        allInLast_plain (h.once _) (by rintro _ ⟨⟩) (by rintro _ _ ⟨⟩)
      refine ⟨?_, allInLast_snoc h.once hself⟩
      intro v id hv
      have hv : Pc.opening (Function.update d.workers w _ v) = some id := hv
      by_cases hvw : v = w
      · subst hvw
        rw [Function.update_self] at hv
        cases hv
        show lastTransfer _ (d.log ++ [_]) = none
        rw [lastTransfer_self, hnone]
        rfl
      · rw [Function.update_of_ne hvw] at hv
        obtain ⟨x, hx, rfl⟩ := doing_of_opening hv
        have hlt := (List.getElem?_eq_some_iff.mp (seg_of_doing hb (w := v) hx)).1
        show lastTransfer _ (d.log ++ [_]) = none
        rw [lastTransfer_of_ne (Nat.ne_of_gt hlt)]
        exact h.fresh v _ hv
  | @opened _ c conn hw =>
      have hnone := h.fresh w c.id (by rw [hw]; rfl)
      have hempty := h.once c.id
      refine h.event hb (doing_of hw) rfl rfl rfl ?_
      rw [AllInLast] at hempty ⊢
      rw [hnone] at hempty
      rw [lastTransfer_self, writesOf_snoc, hempty, writeOf, if_pos rfl]
      rfl
  | received hw =>
      exact h.event hb (doing_of hw) rfl rfl rfl (allInLast_plain (h.once _)
        (by rintro _ ⟨⟩) (by rintro _ _ ⟨⟩))
  | @wrote _ c k data b results hw =>
      obtain ⟨-, -, t, ht, -⟩ := hlog.working w _ (doing_of hw)
      have hpc : ∀ c k, Pc.opening (readLoop c k) = none := by
        intro c k
        rw [readLoop]
        split <;> rfl
      have ht : lastTransfer c.id d.log = some t := ht
      have hall := h.once c.id
      refine h.event hb (doing_of hw) rfl rfl (hpc _ _) ?_
      rw [AllInLast] at hall ⊢
      rw [lastTransfer_self, writesOf_snoc, hall, writeOf, if_pos rfl]
      simp only [ht]
      rfl
  | ready hw =>
      exact h.event hb (doing_of hw) rfl rfl rfl (allInLast_plain (h.once _)
        (by rintro _ ⟨⟩) (by rintro _ _ ⟨⟩))
  | _ => exact h.quiet rfl rfl (by rintro _ ⟨⟩)

/-! ## Steps of the downloader and the file -/

/-- What a worker's step does to the file. -/
theorem worked_fileStep (hb : BufferInv totalSize (view False d))
    (hlog : LogOk (client False) (Marked False) (snap d)) (h : Worked d w input d') :
    FileStep (client False) (snap d) w (snap d') := by
  cases h with
  | exhausted _ hcas =>
      refine .kept ?_ (Or.inl rfl)
      rcases claimCas_none hcas with rfl | ⟨rfl, -⟩
      · rfl
      · rfl
  | cas _ hcas =>
      obtain ⟨rfl, -⟩ := claimCas_some hcas
      exact .kept rfl (Or.inl rfl)
  | push => exact .kept rfl (Or.inr ⟨_, rfl, rfl⟩)
  | opened => exact .kept rfl (Or.inr ⟨_, rfl, rfl⟩)
  | received => exact .kept rfl (Or.inr ⟨_, rfl, rfl⟩)
  | ready => exact .kept rfl (Or.inr ⟨_, rfl, rfl⟩)
  | @wrote _ c k data b results hw hwrite =>
      have hlen : c.start + k + data.length ≤ c.end := filling_of_write hlog hw
      have hle : c.end ≤ d.buf.file.length := (bounds_of_doing hb (doing_of hw)).2
      obtain ⟨m, -, hbuf, hall⟩ := writeData_spec (le_trans hlen hle) hwrite
      rw [hall rfl, List.take_length] at hbuf
      exact .wrote (doing_of hw) (Nat.le_add_right ..) hlen (congrArg file hbuf) rfl
  | wroteSome hw hwrite =>
      have hlen := filling_of_write hlog hw
      obtain ⟨part, hpart, rfl⟩ := written_of_doing hb (doing_of hw) hlen hwrite
      exact .spoilt (doing_of hw) (Nat.le_add_right ..) hpart rfl rfl rfl
        (fun _ hv => Function.update_of_ne hv ..) (filling_self rfl)
  | _ => exact .kept rfl (Or.inl rfl)

/-- Everything that holds of a download in every state. -/
structure FileRunInv (totalSize : Nat) (file₀ : Bytes) (d : Download) : Prop where
  run : RunInv totalSize False d
  once : OneTransfer d
  file : FileInv (client False) file₀ (snap d)

/-- **Step** of the download. -/
theorem fileRunInv_step (h : FileRunInv totalSize file d) (hs : step d a = some d') :
    FileRunInv totalSize file d' := by
  have hrun := runInv_step h.run (fun hc => hc.elim) hs
  cases a with
  | worker w input =>
      have hw := worked_of_workerStep hs
      exact ⟨hrun, h.once.worked h.run.buffer h.run.log hw,
        h.file.step h.run.buffer (worked_effect h.run.buffer h.run.log hw fun hc => hc.elim)
          (worked_fileStep h.run.buffer h.run.log hw)⟩
  | await =>
      cases awaited_of_awaitStep hs with
      | errors => exact ⟨hrun, ⟨h.once.fresh, h.once.once⟩,
          ⟨h.file.inside, h.file.length_eq, h.file.replayed⟩⟩
      | _ => exact ⟨hrun, ⟨h.once.fresh, h.once.once⟩, h.file⟩

/-- **Run** of the download. -/
theorem fileRunInv_run (hfile : file.length = totalSize)
    (hrun : run step (start n totalSize file) acts = some d) : FileRunInv totalSize file d :=
  run_invariant (fun _ _ _ => fileRunInv_step)
    ⟨runInv_start hfile, oneTransfer_start, fileInv_start⟩ hrun

/-! ## Ready segments -/

/-- A ready segment, what came over its data connection, and the bytes of the
    file there. -/
theorem FileRunInv.ready_slice (h : FileRunInv totalSize file d)
    (hseg : d.buf.segments[id]? = some seg) (hready : seg.state = .ready) :
    ∃ t, lastTransfer id d.log = some t ∧ seg.start + t.body.length ≤ seg.end ∧
      slice d.buf.file seg.start seg.end
        = t.body ++ slice file (seg.start + t.body.length) seg.end := by
  obtain ⟨t, ht, m, hchain, hbody, -⟩ := (h.run.log.ready id seg hseg hready).lastTransfer
  have hlen := length_data hchain
  have ht : lastTransfer id d.log = some t := ht
  have hall : writesOf id d.log = t.writes := by
    have := h.once.once id
    rw [AllInLast, ht] at this
    exact this
  have hproper := (h.run.buffer.claims.seg_le hseg).1
  have hm : m ≤ seg.end := by
    refine chain_le hchain hproper.le fun q hq => ?_
    obtain ⟨p, hp, rfl⟩ := List.mem_map.mp hq
    obtain ⟨e, he, hwrite⟩ := List.mem_filterMap.mp (hall ▸ hp)
    rw [writeOf] at hwrite
    split at hwrite
    next hid =>
      obtain ⟨sg, hsg, -, hhi⟩ := h.file.inside e he p hwrite
      subst hid
      cases hsg.symm.trans hseg
      exact hhi
    next => cases hwrite
  have hslice := h.file.slice_eq h.run.buffer ⟨hseg, Or.inl hready⟩ ht hchain hm (Or.inr hall)
  rw [hbody] at hslice hlen
  refine ⟨t, ht, by omega, ?_⟩
  rw [hlen]
  exact hslice

/-- **Ready segments**: in every state of every run, whatever the server does,
    the backing file holds in a ready segment all that came over the
    segment's one data connection, and behind that what stood there before
    the download. -/
theorem ftp_ready_shows_body (hfile : file.length = totalSize)
    (hrun : run step (start n totalSize file) acts = some d)
    (hseg : d.buf.segments[id]? = some seg) (hready : seg.state = .ready) :
    ∃ t, lastTransfer id d.log = some t ∧ seg.start + t.body.length ≤ seg.end ∧
      slice d.buf.file seg.start seg.end
        = t.body ++ slice file (seg.start + t.body.length) seg.end :=
  (fileRunInv_run hfile hrun).ready_slice hseg hready

theorem ftp_ready_shows_body_oneByte :
    ∃ d t, run step (start 1 1 [0]) oneByte = some d ∧ lastTransfer 0 d.log = some t ∧
      0 + t.body.length ≤ 1 ∧
      slice d.buf.file 0 1 = t.body ++ slice [0] (0 + t.body.length) 1 := by
  have hany : (run step (start 1 1 [0]) oneByte).any (fun d =>
      decide (d.buf.segments[0]? = some ⟨0, 1, .ready⟩)) = true := by decide
  obtain ⟨d, hrun, hd⟩ := run_of_any hany
  have hlen : ([0] : Bytes).length = 1 := rfl
  obtain ⟨t, ht⟩ := ftp_ready_shows_body hlen hrun (of_decide_eq_true hd) rfl
  exact ⟨d, t, hrun, ht⟩

/-- Without workers nothing is written. -/
theorem FileRunInv.untouched (h : FileRunInv totalSize file d) (hnone : d.buf.segments = []) :
    d.buf.file = file := by
  have hwrites : writes d.log = [] := by
    rw [List.eq_nil_iff_forall_not_mem]
    intro p hp
    obtain ⟨e, he, hw⟩ := mem_writes hp
    obtain ⟨seg, hseg, -⟩ := h.file.inside e he p hw
    have hseg : d.buf.segments[e.id]? = some seg := hseg
    rw [hnone] at hseg
    cases hseg
  apply List.ext_getElem?
  intro x
  have hx := h.file.replayed x ?_
  · have hx : d.buf.file[x]? = (replay 0 file (writes d.log))[x]? := hx
    rw [hwrites] at hx
    exact hx
  · rintro ⟨id, seg, hseg, -⟩
    have hseg : d.buf.segments[id]? = some seg := hseg
    rw [hnone] at hseg
    cases hseg

/-- After `Ok(())` nobody makes a step any more. -/
theorem FileRunInv.no_step (h : FileRunInv totalSize file d)
    (hok : d.coord = .returned (.ok ())) : step d a ≠ some d' := by
  intro hs
  cases a with
  | worker w input =>
      have hf := framed_worked (worked_of_workerStep hs)
      rcases h.run.books.workers_ok hok w with hw | hw
      · have halive := hf.alive
        rw [hw] at halive
        cases halive
      · exact hf.spawned hw
  | await =>
      have hs : awaitStep d = some d' := hs
      rw [awaitStep, hok] at hs
      cases hs

/-- The file after `Ok(())`, in any state that keeps the invariant. -/
theorem FileRunInv.ok_file_iff {content : Bytes} (h : FileRunInv totalSize file d)
    (hok : d.coord = .returned (.ok ())) (hlen : d.buf.file.length = content.length) :
    d.buf.file = content ↔ (d.numConnections = 0 → file = content) ∧
      ∀ id seg t, d.buf.segments[id]? = some seg → lastTransfer id d.log = some t →
        t.body ++ slice file (seg.start + t.body.length) seg.end
          = slice content seg.start seg.end := by
  by_cases hn : d.numConnections = 0
  · have hnone : d.buf.segments = [] := h.run.books.nobody hn
    rw [h.untouched hnone]
    constructor
    · intro hsame
      refine ⟨fun _ => hsame, fun id seg t hseg => ?_⟩
      rw [hnone] at hseg
      cases hseg
    · exact fun hboth => hboth.1 hn
  · -- some worker found nothing left to claim, so the segments cover the file
    have hcover : ∀ x, x < d.buf.file.length → ∃ r ∈ d.buf.ranges, r.1 ≤ x ∧ x < r.2 := by
      intro x hx
      have hnext := h.run.books.exhausted 0 (Or.inr (h.run.books.ok hok 0 (by omega)))
      have hsize : d.buf.file.length = d.buf.totalSize := h.run.buffer.file_len
      obtain ⟨id, seg, hseg, hlo, hhi⟩ := BlitzCompletion.ClaimInv.covers h.run.buffer.claims
        hnext (h.run.books.noClaimPending hok) (hsize ▸ hx)
      exact ⟨seg.range, List.mem_map.mpr ⟨seg, List.mem_of_getElem? hseg, rfl⟩, hlo, hhi⟩
    rw [eq_iff_slices hlen hcover]
    constructor
    · intro hsame
      refine ⟨fun h0 => absurd h0 hn, fun id seg t hseg ht => ?_⟩
      obtain ⟨t', ht', -, hslice⟩ := h.ready_slice hseg (h.run.books.all_ready hok hseg)
      cases ht.symm.trans ht'
      rw [← hslice]
      exact hsame seg.range (List.mem_map.mpr ⟨seg, List.mem_of_getElem? hseg, rfl⟩)
    · rintro ⟨-, hbodies⟩ r hr
      obtain ⟨seg, hmem, rfl⟩ := List.mem_map.mp hr
      obtain ⟨id, hseg⟩ := List.mem_iff_getElem?.mp hmem
      obtain ⟨t, ht, -, hslice⟩ := h.ready_slice hseg (h.run.books.all_ready hok hseg)
      show slice d.buf.file seg.start seg.end = slice content seg.start seg.end
      rw [hslice]
      exact hbodies id seg t hseg ht

/-- **`Ok(())` and the file**: a download that returned `Ok(())` has left
    `content` in its buffer if and only if for every segment the bytes that
    came, and the old ones behind them, are those of `content`; with no
    worker to fetch anything, if the buffer held it from the start. -/
theorem ftp_ok_file_iff {content : Bytes} (hfile : file.length = totalSize)
    (hrun : run step (start n totalSize file) acts = some d)
    (hok : d.coord = .returned (.ok ())) (hcontent : content.length = totalSize) :
    d.buf.file = content ↔ (n = 0 → file = content) ∧
      ∀ id seg t, d.buf.segments[id]? = some seg → lastTransfer id d.log = some t →
        t.body ++ slice file (seg.start + t.body.length) seg.end
          = slice content seg.start seg.end := by
  have h := fileRunInv_run hfile hrun
  have hlen : d.buf.file.length = content.length := by
    rw [hcontent, ← hfile]
    exact h.file.length_eq
  have hconn : d.numConnections = n := connections_run hrun
  rw [← hconn]
  exact h.ok_file_iff hok hlen

theorem ftp_ok_file_oneByte :
    ∃ d, run step (start 1 1 [0]) oneByte = some d ∧
      (d.buf.file = [7] ↔ (1 = 0 → ([0] : Bytes) = [7]) ∧
        ∀ id seg t, d.buf.segments[id]? = some seg → lastTransfer id d.log = some t →
          t.body ++ slice [0] (seg.start + t.body.length) seg.end
            = slice [7] seg.start seg.end) := by
  have hany : (run step (start 1 1 [0]) oneByte).any (fun d =>
      decide (d.coord = .returned (.ok ()))) = true := by decide
  obtain ⟨d, hrun, hd⟩ := run_of_any hany
  have hlen : ([0] : Bytes).length = 1 := rfl
  have hcontent : ([7] : Bytes).length = 1 := rfl
  exact ⟨d, hrun, ftp_ok_file_iff hlen hrun (of_decide_eq_true hd) hcontent⟩

end BlitzFtpFile
