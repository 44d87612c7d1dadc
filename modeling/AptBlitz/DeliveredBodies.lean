import AptBlitz.Delivery
import AptBlitz.DownloadedFile
import AptBlitz.FtpFile

/-! # What the clients of a download are sent

    The two downloads as sources of a delivery, with the `set_failed` of
    `spawn_cache_persistence` after them.  A client is sent the bodies of the
    responses that filled the segments, in the order of the segments vector
    (`clients_sent_bodies`); with the vector in file order nobody is sent a
    byte that upstream's last answers had wrong (`clients_sent_content`), and
    with one connection the vector is always in file order
    (`one_connection_in_order`).  The clients of an FTP download are sent what
    came, and the old content of the file where nothing came
    (`ftp_clients_sent_bodies`). -/

namespace BlitzDeliveredBodies

open BlitzBuffer SegmentsBuffer BlitzTransfers BlitzClients BlitzStream BlitzStreamRuns
open BlitzStreamThreads BlitzDelivery BlitzFileBytes BlitzCompletion StreamState Runs
open WrittenBytes Tiling

variable {n totalSize : Nat} {file content : Bytes}

/-! ## The segments a stream has passed -/

section Passed

variable {b : SegmentsBuffer} {st : StreamState} {id : Nat} {seg : Segment}

/-- What holds of every ready segment holds of what was passed, byte by
    byte. -/
theorem passed_bytes {bytesOf : Nat → Nat → Bytes} (h : Sending b st)
    (hready : ∀ (id : Nat) (seg : Segment), b.segments[id]? = some seg → seg.state = .ready →
      ∀ k, k ≤ seg.end - seg.start →
        slice b.file seg.start (seg.start + k) = bytesOf id k)
    (hproper : ∀ (id : Nat) (seg : Segment), b.segments[id]? = some seg → seg.start < seg.end)
    (hzero : ∀ id, bytesOf id 0 = []) :
    st.sent = ((List.range st.currentSegment).flatMap fun id =>
      bytesOf id (b.segmentEnd id - b.segmentStart id)) ++
        bytesOf st.currentSegment st.offsetInSegment := by
  have hbehind : ∀ m, m ≤ st.currentSegment →
      ((b.ranges.take m).flatMap fun q => slice b.file q.1 q.2)
        = (List.range m).flatMap fun id => bytesOf id (b.segmentEnd id - b.segmentStart id) := by
    intro m hm
    induction m with
    | zero => rfl
    | succ m ih =>
        have hlt : m < b.segments.length := lt_of_lt_of_le hm h.seated.cur_le
        have hseg : b.segments[m]? = some b.segments[m] := List.getElem?_eq_getElem hlt
        generalize b.segments[m] = seg at hseg
        have hrange : b.ranges[m]? = some seg.range := by
          rw [getElem?_ranges, hseg]
          rfl
        have hstart : b.segmentStart m = seg.start := by rw [segmentStart, hseg]
        have hend : b.segmentEnd m = seg.end := by rw [segmentEnd, hseg]
        have hp := hproper m seg hseg
        have hbytes := hready m seg hseg (h.behind m seg hm hseg) _ (Nat.le_refl _)
        rw [Nat.add_sub_cancel' hp.le] at hbytes
        rw [List.take_add_one, hrange, Option.toList_some, List.flatMap_append,
          List.flatMap_singleton, List.range_succ, List.flatMap_append, List.flatMap_singleton,
          ih (by omega), hstart, hend, ← hbytes]
        rfl
  rcases h.seated.within with h0 | ⟨seg, hseg, hin⟩
  · rw [h.sent, passed, hbehind _ (Nat.le_refl _), h0, hzero]
    simp only [Nat.add_zero, slice_nil]
    cases b.ranges[st.currentSegment]? <;> rfl
  · rw [h.sent, passed_of_atReady hseg, hbehind _ (Nat.le_refl _),
      hready _ seg hseg.1 hseg.2 _ (by omega)]

end Passed

/-- The download does what it does, and then stream 0 sends a byte. -/
def thenRead {A : Type} (acts : List A) : List (BlitzDelivery.Act A) :=
  acts.map .source ++ List.replicate 6 (.poll 0 (.ok 1))

theorem readsData_thenRead {A : Type} {acts : List A} :
    ∀ a ∈ thenRead acts, BlitzDelivery.ReadsData a := by
  intro a ha j r hpoll
  rcases List.mem_append.mp ha with hdown | hread
  · obtain ⟨b, -, rfl⟩ := List.mem_map.mp hdown
    cases hpoll
  · rw [(List.mem_replicate.mp hread).2] at hpoll
    cases hpoll
    exact ⟨0, rfl⟩

/-! ## An HTTP download -/

section Http

open BlitzDownloader BlitzDownloaderSteps BlitzDownloaderRuns BlitzDownloaderResults
open BlitzDownloadedFile

/-- A step of the download, or of the task behind it. -/
inductive HttpAct where
  | download (a : BlitzDownloader.Act)
  /-- `buffer.set_failed()` of `spawn_cache_persistence` -/
  | setFailed

/-- `download_handle.await` has an answer. -/
def Coord.over : Coord → Bool
  | .returned _ => true
  | .panicked => true
  | _ => false

/-- The download, and `set_failed` once its task is over. -/
def httpStep (d : Download) : HttpAct → Option Download
  | .download a => BlitzDownloader.step d a
  | .setFailed =>
      if Coord.over d.coord then some { d with buf := d.buf.setFailed } else none

/-- The HTTP download as the source of a delivery. -/
def httpSource : Source Download HttpAct := ⟨fun d => d.buf, httpStep⟩

variable {d d' : Download} {acts : List (BlitzDelivery.Act HttpAct)} {s : Delivery Download}

/-- `set_failed` touches the buffer alone. -/
theorem httpStep_setFailed (h : httpStep d .setFailed = some d') :
    d' = { d with buf := d.buf.setFailed } := by
  simp only [httpStep] at h
  split at h
  next =>
    cases h
    rfl
  next => cases h

/-- `set_failed` keeps what is known of the file. -/
theorem setFailed_http (h : BlitzDownloadedFile.FileRunInv totalSize file d) :
    BlitzDownloadedFile.FileRunInv totalSize file { d with buf := d.buf.setFailed } := by
  have heff : Effect (client totalSize) (Filled totalSize) (snap d) 0
      { snap d with buf := d.buf.setFailed } := .setFailed
  obtain ⟨bs, hbs⟩ := heff.simulates h.buffer
  exact ⟨⟨heff.logOk h.buffer h.run.log, ⟨h.run.books.unspawned, h.run.books.joined,
      h.run.books.lost, h.run.books.settled, h.run.books.ok⟩⟩,
    run_invariant (fun _ _ _ => bufferInv_step) h.buffer hbs,
    h.file.step h.buffer heff (.kept rfl (Or.inl rfl))⟩

/-- **Streams can rely on an HTTP download**: what is ready stays. -/
theorem http_reliable :
    Reliable httpSource (BlitzDownloadedFile.FileRunInv totalSize file) where
  keeps d a d' h hs := by
    cases a with
    | download a => exact BlitzDownloadedFile.fileRunInv_step h hs
    | setFailed =>
        rw [httpStep_setFailed hs]
        exact setFailed_http h
  settles d a d' h hs := by
    cases a with
    | download a => exact settles_reaches h.buffer (step_simulates h.run h.buffer hs)
    | setFailed =>
        rw [httpStep_setFailed hs]
        exact settles_of_file (extends_of_eq rfl) rfl
  within d i seg h hseg := by
    have hle := h.buffer.claims.seg_le hseg
    have hlen : d.buf.file.length = d.buf.totalSize := h.buffer.file_len
    exact ⟨hle.1, hlen ▸ hle.2⟩

/-- The first `k` bytes of the body of the last response for a segment. -/
def bodyOf (d : Download) (id k : Nat) : Bytes :=
  (((lastTransfer id d.log).map Transfer.body).getD []).take k

/-- The first bytes of a ready segment are those of its body. -/
theorem slice_bodyOf (h : BlitzDownloadedFile.FileRunInv totalSize file d) {id : Nat}
    {seg : Segment} (hseg : d.buf.segments[id]? = some seg) (hready : seg.state = .ready)
    {k : Nat} (hk : k ≤ seg.end - seg.start) :
    slice d.buf.file seg.start (seg.start + k) = bodyOf d id k := by
  obtain ⟨t, ht, hfilled, hslice⟩ := h.ready_slice hseg hready
  rw [slice_first hk, hslice, hfilled.first_bytes, List.take_take, Nat.min_eq_left hk, bodyOf, ht]
  rfl

/-- **What a client is sent**: in every state of every run of a download and
    the streams on its buffer, in which every read returned data, a stream
    has sent the first bytes of the bodies of the last responses for the
    segments behind its cursor, in the order of the segments vector and as
    many of each as its segment has, and of the one under the cursor as many
    as the cursor says. -/
theorem clients_sent_bodies (hfile : file.length = totalSize)
    (hdata : ∀ a ∈ acts, BlitzDelivery.ReadsData a)
    (hrun : run (deliveryStep httpSource) (openDelivery (start n totalSize file)) acts = some s)
    (i : Nat) :
    (s.streams i).sent = ((List.range (s.streams i).currentSegment).flatMap fun id =>
      bodyOf s.source id (s.source.buf.segmentEnd id - s.source.buf.segmentStart id)) ++
        bodyOf s.source (s.streams i).currentSegment (s.streams i).offsetInSegment := by
  obtain ⟨hinv, hsending⟩ := delivery_run http_reliable
    ⟨runInv_start, bufferInv_view_start hfile, fileInv_start⟩ hdata hrun
  refine passed_bytes (hsending i) (fun id seg hseg hready k hk => slice_bodyOf hinv hseg hready hk)
    (fun id seg hseg => (hinv.buffer.claims.seg_le hseg).1) fun id => ?_
  rw [bodyOf, List.take_zero]

/-- The download of one byte, and stream 0 reading it. -/
def oneByteRead : List (BlitzDelivery.Act HttpAct) :=
  thenRead (oneByte.map .download)

theorem clients_sent_bodies_oneByte :
    ∃ s, run (deliveryStep httpSource) (openDelivery (start 1 1 [0])) oneByteRead = some s ∧
      (s.streams 0).sent = ((List.range (s.streams 0).currentSegment).flatMap fun id =>
        bodyOf s.source id (s.source.buf.segmentEnd id - s.source.buf.segmentStart id)) ++
          bodyOf s.source (s.streams 0).currentSegment (s.streams 0).offsetInSegment := by
  have hany : (run (deliveryStep httpSource) (openDelivery (start 1 1 [0])) oneByteRead).any
      (fun s => decide ((s.streams 0).sent = [7])) = true := by decide
  obtain ⟨s, hrun, -⟩ := run_of_any hany
  have hlen : ([0] : Bytes).length = 1 := rfl
  exact ⟨s, hrun, clients_sent_bodies hlen readsData_thenRead hrun 0⟩

/-- **Right answers reach the clients**: where the segments vector is in file
    order and the last response for each ready segment began with the bytes
    of `content` there, every stream has sent a first part of `content`. -/
theorem clients_sent_content (hfile : file.length = totalSize)
    (hdata : ∀ a ∈ acts, BlitzDelivery.ReadsData a)
    (hrun : run (deliveryStep httpSource) (openDelivery (start n totalSize file)) acts = some s)
    (hord : FileOrder s.source.buf)
    (hright : ∀ id seg t, s.source.buf.segments[id]? = some seg → seg.state = .ready →
      lastTransfer id s.source.log = some t →
      t.body.take (seg.end - seg.start) = slice content seg.start seg.end) (i : Nat) :
    (s.streams i).sent <+: content := by
  obtain ⟨hinv, hsending⟩ := delivery_run http_reliable
    ⟨runInv_start, bufferInv_view_start hfile, fileInv_start⟩ hdata hrun
  refine (hsending i).sent_within hord (fun id seg hseg => http_reliable.within _ id seg hinv hseg)
    fun id seg hseg hready => ?_
  obtain ⟨t, ht, hfilled, hslice⟩ := hinv.ready_slice hseg hready
  show slice s.source.buf.file seg.start seg.end = _
  rw [hslice, hfilled.first_bytes]
  exact hright id seg t hseg hready ht

/-- The streams stay as they are while the download goes on by itself. -/
theorem run_download {as : List BlitzDownloader.Act} {streams : Nat → StreamState}
    (h : run BlitzDownloader.step d as = some d') :
    run (deliveryStep httpSource) ⟨d, streams⟩ (as.map fun a => .source (.download a))
      = some ⟨d', streams⟩ := by
  induction as generalizing d with
  | nil =>
      cases h
      rfl
  | cons a as ih =>
      obtain ⟨d₁, hd₁, hrest⟩ := run_cons_some h
      have hs : deliveryStep httpSource ⟨d, streams⟩ (.source (.download a))
          = some ⟨d₁, streams⟩ := by
        show (BlitzDownloader.step d a).map _ = _
        rw [hd₁]
        rfl
      rw [List.map_cons, run_cons hs]
      exact ih hrest

/-- Stream 0 reads a segment of `size` bytes at once and then one of a byte,
    and ends. -/
def readsBoth (size : Nat) : List (BlitzDelivery.Act HttpAct) :=
  List.replicate 11 (.poll 0 (.ok size)) ++ List.replicate 15 (.poll 0 (.ok 1))

/-- The stream gets to its end. -/
theorem readsBoth_run {size : Nat} (hpos : size ≠ 0) (hfail : d.buf.failed = false)
    (hdone : d.buf.allCompleted = true)
    (hsegs : d.buf.segments = [⟨0, size, .ready⟩, ⟨size, size + 1, .ready⟩])
    (hlen : d.buf.file.length = size + 1) :
    ∃ s, run (deliveryStep httpSource) (openDelivery d) (readsBoth size) = some s ∧
      s.source = d ∧ (s.streams 0).pc = .done := by
  have hmore : ¬ size + 1 ≤ size := Nat.not_succ_le_self _
  have hne : d.buf.file ≠ [] := List.ne_nil_of_length_pos (by rw [hlen]; exact Nat.succ_pos _)
  simp [readsBoth, run, deliveryStep, openDelivery, httpSource, BlitzStream.poll, initial,
    isFailed, hfail, numSegments, hsegs, isReady, segmentStart, segmentEnd, List.replicate,
    ReadAtMayReturn, hlen, readData, hpos, yieldChunk, nextSegment, hdone, hmore, hne]

/-- The download of two pieces, and stream 0 reading both. -/
def twoPiecesRead : List (BlitzDelivery.Act HttpAct) :=
  ((twoPieces firstSegmentBytes [8]).map fun a => .source (.download a)) ++
    readsBoth initialSegmentSize

theorem readsData_twoPiecesRead : ∀ a ∈ twoPiecesRead, BlitzDelivery.ReadsData a := by
  intro a ha j r hpoll
  rcases List.mem_append.mp ha with hdown | hread
  · obtain ⟨b, -, rfl⟩ := List.mem_map.mp hdown
    cases hpoll
  · rcases List.mem_append.mp hread with hfirst | hlast
    · rw [(List.mem_replicate.mp hfirst).2] at hpoll
      cases hpoll
      exact ⟨initialSegmentSize - 1, rfl⟩
    · rw [(List.mem_replicate.mp hlast).2] at hpoll
      cases hpoll
      exact ⟨0, rfl⟩

theorem clients_sent_content_twoPieces :
    ∃ s, run (deliveryStep httpSource) (openDelivery (start 2 (initialSegmentSize + 1) newFile))
        twoPiecesRead = some s ∧ (s.streams 0).pc = .done ∧
      (s.streams 0).sent <+: firstSegmentBytes ++ [8] := by
  have hnew : newFile.length = initialSegmentSize + 1 := List.length_replicate
  obtain ⟨d, hdown, hok, hfail, hdone, hsegs, hfirst, hlast⟩ :=
    twoPieces_run firstSegmentBytes [8] newFile length_firstSegmentBytes rfl
  obtain ⟨-, hb⟩ := runInv_run hnew hdown
  have hlen : d.buf.file.length = initialSegmentSize + 1 := hb.file_len.trans hb.size
  obtain ⟨s, hread, hsource, hend⟩ := readsBoth_run (by decide) hfail hdone hsegs hlen
  have hrun := run_append (run_download hdown) hread
  subst hsource
  have hord : FileOrder s.source.buf := by
    rw [fileOrder_iff, ranges, hsegs]
    exact ⟨initialSegmentSize + 1, rfl, rfl, rfl⟩
  refine ⟨s, hrun, hend, clients_sent_content hnew readsData_twoPiecesRead hrun hord ?_ 0⟩
  intro id seg t hseg _ ht
  rw [hsegs] at hseg
  obtain _ | _ | id := id
  · cases hseg
    rw [ht] at hfirst
    rw [Option.some.inj hfirst]
    show firstSegmentBytes.take initialSegmentSize
      = ((firstSegmentBytes ++ [8]).drop 0).take initialSegmentSize
    rw [List.drop_zero, List.take_append_of_le_length length_firstSegmentBytes.ge]
  · cases hseg
    rw [ht] at hlast
    rw [Option.some.inj hlast]
    show [8].take (initialSegmentSize + 1 - initialSegmentSize)
      = ((firstSegmentBytes ++ [8]).drop initialSegmentSize).take _
    rw [List.drop_left' length_firstSegmentBytes]
  · cases hseg

/-! ### One connection -/

/-- There is at most one worker, and the vector is in file order. -/
structure Single (d : Download) : Prop where
  one : d.numConnections ≤ 1
  spawned : d.totalSpawned = d.numConnections
  order : FileOrder d.buf

/-- The number of connections does not change. -/
theorem worked_connections {w : Nat} (h : Worked d w d') :
    d'.numConnections = d.numConnections := by
  cases h <;> rfl

/-- The only worker there is pushes what it has claimed before it claims
    again. -/
theorem single_step (h : BlitzDownloadedFile.FileRunInv totalSize file d) (hone : Single d)
    {a : HttpAct} (hs : httpStep d a = some d') : Single d' := by
  cases a with
  | setFailed =>
      rw [httpStep_setFailed hs]
      exact ⟨hone.one, hone.spawned, hone.order⟩
  | download a =>
      cases stepped_of_step hs with
      | @worker w input d' hw =>
          have hf := framed_worked hw
          have hconn := worked_connections hw
          refine ⟨hconn ▸ hone.one, hf.spawned.trans (hone.spawned.trans hconn.symm), ?_⟩
          refine fileOrder_effect h.buffer (worked_effect h.buffer h.run.log hw) hone.order ?_
          -- nobody else has been spawned
          intro v a z hv
          have hw0 := h.run.books.spawned_of_alive hf.alive
          by_contra hne
          have hun := h.run.books.unspawned v (by have := hone.one; have := hone.spawned; omega)
          have hv : (d.workers v).call = .claimed a z := hv
          rw [hun] at hv
          cases hv
      | spawned hc hlt =>
          have := hone.spawned
          omega
      | _ => exact ⟨hone.one, hone.spawned, hone.order⟩

/-- **One connection**: with at most one connection the segments vector is in
    file order, and what each client was sent is a first part of the backing
    file, in every state of every run. -/
theorem one_connection_in_order (hn : n ≤ 1) (hfile : file.length = totalSize)
    (hdata : ∀ a ∈ acts, BlitzDelivery.ReadsData a)
    (hrun : run (deliveryStep httpSource) (openDelivery (start n totalSize file)) acts = some s) :
    FileOrder s.source.buf ∧
      ∀ i, (s.streams i).sent = s.source.buf.file.take (s.streams i).sent.length := by
  have hrel : Reliable httpSource fun d =>
      BlitzDownloadedFile.FileRunInv totalSize file d ∧ Single d :=
    http_reliable.and fun d a d' hinv hone hs => single_step hinv hone hs
  have hstart : Single (start n totalSize file) :=
    ⟨hn, Nat.min_eq_left hn, nofun, nofun⟩
  obtain ⟨⟨hinv, hone⟩, hsending⟩ := delivery_run hrel
    ⟨⟨runInv_start, bufferInv_view_start hfile, fileInv_start⟩, hstart⟩ hdata hrun
  exact ⟨hone.order, fun i => (hsending i).sent_eq_take hone.order
    fun id seg hseg => http_reliable.within _ id seg hinv hseg⟩

theorem one_connection_in_order_oneByte :
    ∃ s, run (deliveryStep httpSource) (openDelivery (start 1 1 [0])) oneByteRead = some s ∧
      FileOrder s.source.buf ∧
        ∀ i, (s.streams i).sent = s.source.buf.file.take (s.streams i).sent.length := by
  have hany : (run (deliveryStep httpSource) (openDelivery (start 1 1 [0])) oneByteRead).any
      (fun s => decide ((s.streams 0).sent = [7])) = true := by decide
  obtain ⟨s, hrun, -⟩ := run_of_any hany
  have hlen : ([0] : Bytes).length = 1 := rfl
  exact ⟨s, hrun, one_connection_in_order (Nat.le_refl 1) hlen readsData_thenRead hrun⟩

end Http

/-! ## An FTP download -/

section Ftp

open BlitzFtp BlitzFtpSteps BlitzFtpRuns BlitzFtpResults BlitzFtpFile

/-- A step of the download, or of the task behind it. -/
inductive FtpAct where
  | download (a : BlitzFtp.Act)
  /-- `buffer.set_failed()` of `spawn_cache_persistence` -/
  | setFailed

/-- `download_handle.await` has an answer. -/
def ftpOver : BlitzFtp.Coord → Bool
  | .returned _ => true
  | .awaiting .. => false

/-- The download, and `set_failed` once its task is over. -/
def ftpStep (d : BlitzFtp.Download) : FtpAct → Option BlitzFtp.Download
  | .download a => BlitzFtp.step d a
  | .setFailed => if ftpOver d.coord then some { d with buf := d.buf.setFailed } else none

/-- The FTP download as the source of a delivery. -/
def ftpSource : Source BlitzFtp.Download FtpAct := ⟨fun d => d.buf, ftpStep⟩

variable {d d' : BlitzFtp.Download} {acts : List (BlitzDelivery.Act FtpAct)}
  {s : Delivery BlitzFtp.Download}

/-- `set_failed` touches the buffer alone. -/
theorem ftpStep_setFailed (h : ftpStep d .setFailed = some d') :
    d' = { d with buf := d.buf.setFailed } := by
  simp only [ftpStep] at h
  split at h
  next =>
    cases h
    rfl
  next => cases h

/-- `set_failed` keeps what is known of the file. -/
theorem setFailed_ftp (h : BlitzFtpFile.FileRunInv totalSize file d) :
    BlitzFtpFile.FileRunInv totalSize file { d with buf := d.buf.setFailed } := by
  have hbooks : Books { d with buf := d.buf.setFailed } :=
    ⟨h.run.books.unspawned, h.run.books.nobody, h.run.books.exhausted, h.run.books.cancelled,
      h.run.books.segs, h.run.books.awaiting, h.run.books.ok⟩
  exact ⟨h.run.effect (w := 0) hbooks .setFailed, ⟨h.once.fresh, h.once.once⟩,
    ⟨h.file.inside, h.file.length_eq, h.file.replayed⟩⟩

/-- What one step of the download does to the buffer. -/
theorem ftp_settles (h : BlitzFtpFile.FileRunInv totalSize file d) {a : BlitzFtp.Act}
    (hs : BlitzFtp.step d a = some d') : Settles d.buf d'.buf := by
  cases a with
  | worker w input =>
      have heff := worked_effect h.run.buffer h.run.log (worked_of_workerStep hs) fun hc => hc.elim
      exact settles_reaches h.run.buffer (heff.simulates h.run.buffer)
  | await =>
      cases awaited_of_awaitStep hs with
      | errors => exact settles_of_file (extends_of_eq rfl) rfl
      | _ => exact settles_refl

/-- **Streams can rely on an FTP download**: what is ready stays. -/
theorem ftp_reliable : Reliable ftpSource (BlitzFtpFile.FileRunInv totalSize file) where
  keeps d a d' h hs := by
    cases a with
    | download a => exact BlitzFtpFile.fileRunInv_step h hs
    | setFailed =>
        rw [ftpStep_setFailed hs]
        exact setFailed_ftp h
  settles d a d' h hs := by
    cases a with
    | download a => exact ftp_settles h hs
    | setFailed =>
        rw [ftpStep_setFailed hs]
        exact settles_of_file (extends_of_eq rfl) rfl
  within d i seg h hseg := by
    have hle := h.run.buffer.claims.seg_le hseg
    have hlen : d.buf.file.length = d.buf.totalSize := h.run.buffer.file_len
    exact ⟨hle.1, hlen ▸ hle.2⟩

/-- The first `k` bytes of what came over the data connection of a segment
    and of what `file` holds behind that. -/
def ftpBodyOf (d : BlitzFtp.Download) (file : Bytes) (id k : Nat) : Bytes :=
  let body := ((lastTransfer id d.log).map Transfer.body).getD []
  (body ++ slice file (d.buf.segmentStart id + body.length) (d.buf.segmentEnd id)).take k

/-- The first bytes of a ready segment are those that came, and behind them
    the old ones. -/
theorem slice_ftpBodyOf (h : BlitzFtpFile.FileRunInv totalSize file d) {id : Nat} {seg : Segment}
    (hseg : d.buf.segments[id]? = some seg) (hready : seg.state = .ready) {k : Nat}
    (hk : k ≤ seg.end - seg.start) :
    slice d.buf.file seg.start (seg.start + k) = ftpBodyOf d file id k := by
  obtain ⟨t, ht, -, hslice⟩ := h.ready_slice hseg hready
  have hstart : d.buf.segmentStart id = seg.start := by rw [segmentStart, hseg]
  have hend : d.buf.segmentEnd id = seg.end := by rw [segmentEnd, hseg]
  rw [slice_first hk, hslice, ftpBodyOf, ht, hstart, hend]
  rfl

/-- **What a client of an FTP download is sent**: in every state of every run
    of a download and the streams on its buffer, in which every read returned
    data and whatever the server did, a stream has sent, segment by segment
    in the order of the vector, what came over the segment's data connection
    and behind it what the file held before the download. -/
theorem ftp_clients_sent_bodies (hfile : file.length = totalSize)
    (hdata : ∀ a ∈ acts, BlitzDelivery.ReadsData a)
    (hrun : run (deliveryStep ftpSource) (openDelivery (BlitzFtp.start n totalSize file)) acts
      = some s) (i : Nat) :
    (s.streams i).sent = ((List.range (s.streams i).currentSegment).flatMap fun id =>
      ftpBodyOf s.source file id
        (s.source.buf.segmentEnd id - s.source.buf.segmentStart id)) ++
          ftpBodyOf s.source file (s.streams i).currentSegment (s.streams i).offsetInSegment := by
  obtain ⟨hinv, hsending⟩ := delivery_run ftp_reliable
    ⟨runInv_start hfile, oneTransfer_start, fileInv_start⟩ hdata hrun
  refine passed_bytes (hsending i)
    (fun id seg hseg hready k hk => slice_ftpBodyOf hinv hseg hready hk)
    (fun id seg hseg => (hinv.run.buffer.claims.seg_le hseg).1) fun id => ?_
  rw [ftpBodyOf]
  exact List.take_zero

/-- A data connection closed before its one byte, and a stream that sends the
    zero that was there. -/
def closedEarlyRead : List (BlitzDelivery.Act FtpAct) :=
  thenRead (closedEarly.map .download)

theorem ftp_clients_sent_bodies_closedEarly :
    ∃ s, run (deliveryStep ftpSource) (openDelivery (BlitzFtp.start 1 1 [0])) closedEarlyRead
        = some s ∧ (s.streams 0).sent = [0] ∧
      (s.streams 0).sent = ((List.range (s.streams 0).currentSegment).flatMap fun id =>
        ftpBodyOf s.source [0] id
          (s.source.buf.segmentEnd id - s.source.buf.segmentStart id)) ++
            ftpBodyOf s.source [0] (s.streams 0).currentSegment
              (s.streams 0).offsetInSegment := by
  have hany : (run (deliveryStep ftpSource) (openDelivery (BlitzFtp.start 1 1 [0]))
      closedEarlyRead).any (fun s => decide ((s.streams 0).sent = [0])) = true := by decide
  obtain ⟨s, hrun, hsent⟩ := run_of_any hany
  have hlen : ([0] : Bytes).length = 1 := rfl
  exact ⟨s, hrun, of_decide_eq_true hsent, ftp_clients_sent_bodies hlen readsData_thenRead hrun 0⟩

end Ftp

end BlitzDeliveredBodies
