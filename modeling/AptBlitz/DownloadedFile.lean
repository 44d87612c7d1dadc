import AptBlitz.DownloaderResults
import AptBlitz.FileBytes

/-! # The file a download leaves

    The log says what each worker received; here that is turned into what
    stands in the backing file.  A ready segment holds the first bytes of the
    body of one accepted response (`ready_shows_body`), so a download that
    returned `Ok(())` has left the right file exactly when upstream's last
    answers were right (`download_ok_file_iff`). -/

namespace BlitzDownloadedFile

open BlitzBuffer SegmentsBuffer BlitzTransfers BlitzClients BlitzDownloader
open BlitzDownloaderSteps BlitzDownloaderRuns BlitzDownloaderResults BlitzFileBytes
open Download Runs WrittenBytes

variable {d d' : Download} {w id : Nat} {a : Act} {acts : List Act} {seg : Segment}
  {n totalSize : Nat} {file : Bytes}

/-! ## Steps of the downloader and the file -/

/-- What a worker's step does to the file. -/
theorem worked_fileStep (hb : BufferInv totalSize (view totalSize d))
    (hlog : LogOk (client totalSize) (Filled totalSize) (snap d)) (h : Worked d w d') :
    FileStep (client totalSize) (snap d) w (snap d') := by
  cases h with
  | exhausted _ hcas =>
      refine .kept ?_ (Or.inl rfl)
      rcases claimCas_none hcas with rfl | ⟨rfl, -⟩
      · rfl
      · rfl
  | cas _ hcas =>
      obtain ⟨rfl, -⟩ := claimCas_some hcas
      exact .kept rfl (Or.inl rfl)
  | push => exact .kept rfl (Or.inr ⟨_, rfl, rfl⟩)
  | opened => exact .kept rfl (Or.inr ⟨_, rfl, rfl⟩)
  | received => exact .kept rfl (Or.inr ⟨_, rfl, rfl⟩)
  | ready => exact .kept rfl (Or.inr ⟨_, rfl, rfl⟩)
  | @wrote c fo rest n b results hw hn hwrite =>
      obtain ⟨hlo, hhi⟩ := filling_of_chunk hlog hw
      have hlen : fo + (rest.take n).length ≤ c.end := by
        rw [List.length_take]
        omega
      have hle : c.end ≤ d.buf.file.length := (bounds_of_doing hb (doing_of hw)).2
      obtain ⟨k, -, hbuf, hall⟩ := writeData_spec (le_trans hlen hle) hwrite
      rw [hall rfl, List.take_length] at hbuf
      exact .wrote (doing_of hw) hlo hlen (congrArg file hbuf) rfl
  | @wroteSome c fo rest n b results e hw hn hwrite =>
      obtain ⟨hlo, hhi⟩ := filling_of_chunk hlog hw
      have hlen : fo + (rest.take n).length ≤ c.end := by
        rw [List.length_take]
        omega
      obtain ⟨part, hpart, rfl⟩ := written_of_doing hb (doing_of hw) hlen hwrite
      exact .spoilt (doing_of hw) hlo hpart rfl rfl rfl
        (fun _ hv => Function.update_of_ne hv ..) (filling_self rfl)
  | _ => exact .kept rfl (Or.inl rfl)

/-- Everything that holds of a download in every state. -/
structure FileRunInv (totalSize : Nat) (file₀ : Bytes) (d : Download) : Prop where
  run : RunInv totalSize d
  buffer : BufferInv totalSize (view totalSize d)
  file : FileInv (client totalSize) file₀ (snap d)

/-- **Step** of the download. -/
theorem fileRunInv_step (h : FileRunInv totalSize file d) (hs : step d a = some d') :
    FileRunInv totalSize file d' := by
  obtain ⟨hrun, hb⟩ := runInv_buffer_step ⟨h.run, h.buffer⟩ hs
  refine ⟨hrun, hb, ?_⟩
  cases stepped_of_step hs with
  | worker hw =>
      exact h.file.step h.buffer (worked_effect h.buffer h.run.log hw)
        (worked_fileStep h.buffer h.run.log hw)
  | spawned =>
      have hidle : (client totalSize).call ((snap d).workers d.totalSpawned) = .idle :=
        calls_of (h.run.books.unspawned _ (Nat.le_refl _))
      have heff : Effect (client totalSize) (Filled totalSize) (snap d) d.totalSpawned
          ((snap d).put d.buf d.totalSpawned .permit) := .dropped (by rw [hidle]; rfl) rfl
      exact h.file.step h.buffer heff (.kept rfl (Or.inl rfl))
  | _ => exact h.file

/-- **Run** of the download. -/
theorem fileRunInv_run (hfile : file.length = totalSize)
    (hrun : run step (start n totalSize file) acts = some d) : FileRunInv totalSize file d :=
  run_invariant (fun _ _ _ => fileRunInv_step)
    ⟨runInv_start, bufferInv_view_start hfile, fileInv_start⟩ hrun

/-! ## Ready segments -/

/-- A ready segment, its last transfer, and the bytes of the file there. -/
theorem FileRunInv.ready_slice (h : FileRunInv totalSize file d)
    (hseg : d.buf.segments[id]? = some seg) (hready : seg.state = .ready) :
    ∃ t, lastTransfer id d.log = some t ∧ Filled totalSize seg t ∧
      slice d.buf.file seg.start seg.end = t.data := by
  obtain ⟨t, ht, hfilled⟩ := (h.run.log.ready id seg hseg hready).lastTransfer
  have hslice := h.file.slice_eq h.buffer ⟨hseg, Or.inl hready⟩ ht hfilled.in_order
    (Nat.le_refl _) (Or.inl rfl)
  have hnone : slice file seg.end seg.end = [] := by
    rw [slice]
    rw [Nat.sub_self, List.take_zero]
  rw [hnone, List.append_nil] at hslice
  exact ⟨t, ht, hfilled, hslice⟩

/-- **Ready segments**: in every state of every run the backing file holds,
    in a ready segment, the first bytes of the body of one response that was
    accepted for the segment, as many as the segment has. -/
theorem ready_shows_body (hfile : file.length = totalSize)
    (hrun : run step (start n totalSize file) acts = some d)
    (hseg : d.buf.segments[id]? = some seg) (hready : seg.state = .ready) :
    ∃ t, lastTransfer id d.log = some t ∧ Accepted totalSize seg.start seg.end t.head ∧
      seg.end - seg.start ≤ t.body.length ∧
      slice d.buf.file seg.start seg.end = t.body.take (seg.end - seg.start) := by
  obtain ⟨t, ht, hfilled, hslice⟩ := (fileRunInv_run hfile hrun).ready_slice hseg hready
  refine ⟨t, ht, hfilled.accepted, ?_, hslice.trans hfilled.first_bytes⟩
  have hlen := length_data hfilled.in_order
  rw [hfilled.first_bytes, List.length_take] at hlen
  omega

theorem ready_shows_body_oneByte :
    ∃ d t, run step (start 1 1 [0]) oneByte = some d ∧ lastTransfer 0 d.log = some t ∧
      Accepted 1 0 1 t.head ∧ 1 ≤ t.body.length ∧ slice d.buf.file 0 1 = t.body.take 1 := by
  have hany : (run step (start 1 1 [0]) oneByte).any (fun d =>
      decide (d.buf.segments[0]? = some ⟨0, 1, .ready⟩)) = true := by decide
  obtain ⟨d, hrun, hd⟩ := run_of_any hany
  have hlen : ([0] : Bytes).length = 1 := rfl
  obtain ⟨t, ht⟩ := ready_shows_body hlen hrun (of_decide_eq_true hd) rfl
  exact ⟨d, t, hrun, ht⟩

/-- After `Ok(())` every segment is ready, and together they cover the file. -/
theorem FileRunInv.ok_covers (h : FileRunInv totalSize file d)
    (hok : d.coord = .returned (.ok ())) :
    (∀ (id : Nat) (seg : Segment), d.buf.segments[id]? = some seg → seg.state = .ready) ∧
      ∀ x, x < d.buf.file.length → ∃ r ∈ d.buf.ranges, r.1 ≤ x ∧ x < r.2 := by
  obtain ⟨hp, hdone⟩ := h.run.books.ok hok
  refine ⟨fun id seg hseg => BlitzCompletion.ClaimInv.all_ready h.buffer.claims hdone hseg,
    fun x hx => ?_⟩
  have hquiet : BlitzCompletion.NoClaimPending (view totalSize d) :=
    h.run.books.noClaimPending hp (h.run.books.settled (Or.inr hok))
  have hsize : d.buf.file.length = d.buf.totalSize := h.buffer.file_len
  obtain ⟨seg, hmem, -, hlo, hhi⟩ :=
    BlitzCompletion.ClaimInv.readyCovers h.buffer.claims hdone hquiet x (hsize ▸ hx)
  exact ⟨seg.range, List.mem_map.mpr ⟨seg, hmem, rfl⟩, hlo, hhi⟩

/-- After `Ok(())` nobody makes a step any more. -/
theorem FileRunInv.no_step (h : FileRunInv totalSize file d)
    (hok : d.coord = .returned (.ok ())) : step d a ≠ some d' := by
  intro hs
  have hno : ∀ {c}, d.coord = c → c = .returned (.ok ()) := fun hc => hc.symm.trans hok
  cases stepped_of_step hs with
  | worker hw => exact (h.run.books.not_over (framed_worked hw)).2 hok
  | spawned hc => cases hno hc
  | recv hc => cases hno hc
  | joined hc => cases hno hc
  | fatal hc => cases hno hc
  | drained hc => cases hno hc
  | noneLeft hc => cases hno hc
  | allJoined hc => cases hno hc
  | noneActive hc => cases hno hc
  | someActive hc => cases hno hc
  | checkPanicked hc => cases hno hc
  | completed hc => cases hno hc
  | incomplete hc => cases hno hc

/-- The file after `Ok(())`, in any state that keeps the invariant. -/
theorem FileRunInv.ok_file_iff {content : Bytes} (h : FileRunInv totalSize file d)
    (hok : d.coord = .returned (.ok ())) (hlen : d.buf.file.length = content.length) :
    d.buf.file = content ↔ ∀ id seg t, d.buf.segments[id]? = some seg →
      lastTransfer id d.log = some t →
      t.body.take (seg.end - seg.start) = slice content seg.start seg.end := by
  obtain ⟨hready, hcover⟩ := h.ok_covers hok
  rw [eq_iff_slices hlen hcover]
  constructor
  · intro hsame id seg t hseg ht
    obtain ⟨t', ht', hfilled, hslice⟩ := h.ready_slice hseg (hready id seg hseg)
    cases ht.symm.trans ht'
    rw [← hfilled.first_bytes, ← hslice]
    exact hsame seg.range (List.mem_map.mpr ⟨seg, List.mem_of_getElem? hseg, rfl⟩)
  · intro hbodies r hr
    obtain ⟨seg, hmem, rfl⟩ := List.mem_map.mp hr
    obtain ⟨id, hseg⟩ := List.mem_iff_getElem?.mp hmem
    obtain ⟨t, ht, hfilled, hslice⟩ := h.ready_slice hseg (hready id seg hseg)
    show slice d.buf.file seg.start seg.end = slice content seg.start seg.end
    rw [hslice, hfilled.first_bytes]
    exact hbodies id seg t hseg ht

/-- **`Ok(())` and the file**: a download that returned `Ok(())` has left the
    file `content` in its buffer if and only if for every segment the last
    accepted response began with the bytes of `content` there. -/
theorem download_ok_file_iff {content : Bytes} (hfile : file.length = totalSize)
    (hrun : run step (start n totalSize file) acts = some d)
    (hok : d.coord = .returned (.ok ())) (hcontent : content.length = totalSize) :
    d.buf.file = content ↔ ∀ id seg t, d.buf.segments[id]? = some seg →
      lastTransfer id d.log = some t →
      t.body.take (seg.end - seg.start) = slice content seg.start seg.end := by
  have h := fileRunInv_run hfile hrun
  refine h.ok_file_iff hok ?_
  rw [hcontent, ← hfile]
  exact h.file.length_eq

theorem download_ok_file_oneByte :
    ∃ d, run step (start 1 1 [0]) oneByte = some d ∧
      (d.buf.file = [7] ↔ ∀ id seg t, d.buf.segments[id]? = some seg →
        lastTransfer id d.log = some t →
        t.body.take (seg.end - seg.start) = slice [7] seg.start seg.end) := by
  have hany : (run step (start 1 1 [0]) oneByte).any (fun d =>
      decide (d.coord = .returned (.ok ()))) = true := by decide
  obtain ⟨d, hrun, hd⟩ := run_of_any hany
  have hlen : ([0] : Bytes).length = 1 := rfl
  have hcontent : ([7] : Bytes).length = 1 := rfl
  exact ⟨d, hrun, download_ok_file_iff hlen hrun (of_decide_eq_true hd) hcontent⟩

end BlitzDownloadedFile
