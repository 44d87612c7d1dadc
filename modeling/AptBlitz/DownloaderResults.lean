import AptBlitz.DownloaderRuns
import Mathlib.Data.Nat.SuccPred

/-! # What `download_multithreaded` returns

    `Ok(())` is honest: it is returned only after every worker has ended and
    every offset has been delivered (`download_ok_delivered`).

    A fatal error may get lost.  The first loop ends when `active` is zero,
    and the results not read by then are read by the second loop, which only
    logs them: `returns_fatal_iff` says when that does not happen. -/

namespace BlitzDownloaderResults

open BlitzBuffer SegmentsBuffer BlitzTransfers BlitzClients BlitzDownloader
open BlitzDownloaderSteps BlitzDownloaderRuns Download Runs
open BlitzCompletion (NoClaimPending)

variable {d d' : Download} {w : Nat} {a : Act} {acts : List Act}
  {n totalSize : Nat} {file : Bytes}

/-! ## The coordinator's books -/

/-- What every worker's step leaves alone, and what it needs. -/
structure Framed (d : Download) (w : Nat) (d' : Download) : Prop where
  alive : (d.workers w).alive = true
  others : ∀ v, v ≠ w → d'.workers v = d.workers v
  joined : d'.joined = d.joined
  spawned : d'.totalSpawned = d.totalSpawned
  coord : d'.coord = d.coord
  poisoned : d.poisoned = true → d'.poisoned = true
  lost : ∀ r, d'.workers w = .panicked (some r) → d'.poisoned = true

/-- A step that changes one worker. -/
theorem framed_of {pc : Pc} (halive : (d.workers w).alive = true)
    (hw : d'.workers = Function.update d.workers w pc) (hj : d'.joined = d.joined)
    (hs : d'.totalSpawned = d.totalSpawned) (hc : d'.coord = d.coord)
    (hp : d.poisoned = true → d'.poisoned = true)
    (hl : ∀ r, pc = .panicked (some r) → d'.poisoned = true) : Framed d w d' where
  alive := halive
  others v hv := by rw [hw, Function.update_of_ne hv]
  joined := hj
  spawned := hs
  coord := hc
  poisoned := hp
  lost r hr := by
    rw [hw, Function.update_self] at hr
    exact hl r hr

/-- A worker that moves is at work before and after. -/
theorem Moves.alive {pc pc' : Pc} (h : Moves pc pc') :
    pc.alive = true ∧ ∀ r, pc' ≠ .panicked r := by
  cases h <;> exact ⟨rfl, nofun⟩

/-- **Step of a worker**: what it leaves alone. -/
theorem framed_worked (h : Worked d w d') : Framed d w d' := by
  have hat : ∀ {pc}, d.workers w = pc → pc.alive = true → (d.workers w).alive = true :=
    fun hw halive => hw ▸ halive
  cases h with
  | moved hm =>
      obtain ⟨halive, hno⟩ := Moves.alive hm
      exact framed_of halive rfl rfl rfl rfl id fun r hr => absurd hr (hno _)
  | failed halive => exact framed_of halive rfl rfl rfl rfl id nofun
  | exhausted hw => exact framed_of (hat hw rfl) rfl rfl rfl rfl id nofun
  | cas hw => exact framed_of (hat hw rfl) rfl rfl rfl rfl id nofun
  | push hw => exact framed_of (hat hw rfl) rfl rfl rfl rfl id nofun
  | opened hw => exact framed_of (hat hw rfl) rfl rfl rfl rfl id nofun
  | received hw => exact framed_of (hat hw rfl) rfl rfl rfl rfl id nofun
  | wrote hw => exact framed_of (hat hw rfl) rfl rfl rfl rfl id nofun
  | wroteSome hw => exact framed_of (hat hw rfl) rfl rfl rfl rfl id nofun
  | ready hw => exact framed_of (hat hw rfl) rfl rfl rfl rfl id nofun
  | unlisted hw => exact framed_of (hat hw rfl) rfl rfl rfl rfl id nofun
  | counted hw => exact framed_of (hat hw rfl) rfl rfl rfl rfl id nofun
  | notified hw => exact framed_of (hat hw rfl) rfl rfl rfl rfl id nofun
  | finished hw => exact framed_of (hat hw rfl) rfl rfl rfl rfl id nofun
  | panicked halive hp hlost =>
      refine framed_of halive rfl rfl rfl rfl hp ?_
      intro r hr
      refine hlost ?_
      intro hnone
      rw [hnone] at hr
      exact nomatch hr

/-- What the coordinator knows of its workers. -/
structure Books (d : Download) : Prop where
  unspawned : ∀ w, d.totalSpawned ≤ w → d.workers w = .unspawned
  joined : ∀ w, d.joined w = true → (d.workers w).joinResult ≠ none
  lost : ∀ w r, d.workers w = .panicked (some r) → d.poisoned = true
  settled : d.coord = .check ∨ d.coord = .returned (.ok ()) →
    ∀ w, w < d.totalSpawned → d.joined w = true
  ok : d.coord = .returned (.ok ()) → d.poisoned = false ∧ d.buf.allCompleted = true

/-- At the start. -/
theorem books_start : Books (start n totalSize file) where
  unspawned w hw := if_neg (not_lt.mpr hw)
  joined _ h := nomatch h
  lost w r h := by
    by_cases hw : w < min n initialWorkerCount
    · have : (start n totalSize file).workers w = .permit := if_pos hw
      rw [this] at h
      exact nomatch h
    · have : (start n totalSize file).workers w = .unspawned := if_neg hw
      rw [this] at h
      exact nomatch h
  settled h := by rcases h with h | h <;> exact nomatch h
  ok h := nomatch h

theorem joinResult_of_alive {pc : Pc} (h : pc.alive = true) : pc.joinResult = none := by
  cases pc with
  | ended r => exact nomatch h
  | panicked l => exact nomatch h
  | _ => rfl

/-- A worker that makes a step has not been joined. -/
theorem Books.not_joined (h : Books d) (hf : Framed d w d') : d.joined w = false := by
  cases hj : d.joined w with
  | false => rfl
  | true => exact absurd (joinResult_of_alive hf.alive) (h.joined w hj)

theorem Books.spawned_of_alive (h : Books d) (halive : (d.workers w).alive = true) :
    w < d.totalSpawned := by
  by_contra hw
  rw [h.unspawned w (not_lt.mp hw)] at halive
  exact nomatch halive

/-- Not everybody has been joined while somebody makes a step. -/
theorem Books.not_over (h : Books d) (hf : Framed d w d') :
    d.coord ≠ .check ∧ d.coord ≠ .returned (.ok ()) := by
  have hj := h.not_joined hf
  have hlt := h.spawned_of_alive hf.alive
  constructor
  · intro hc
    exact absurd (h.settled (Or.inl hc) w hlt) (by rw [hj]; exact nofun)
  · intro hc
    exact absurd (h.settled (Or.inr hc) w hlt) (by rw [hj]; exact nofun)

/-- A worker's step keeps the books. -/
theorem Books.worked (h : Books d) (hf : Framed d w d') : Books d' := by
  obtain ⟨hcheck, hret⟩ := h.not_over hf
  have hlt := h.spawned_of_alive hf.alive
  refine ⟨?_, ?_, ?_, ?_, ?_⟩
  · intro v hv
    rw [hf.spawned] at hv
    rw [hf.others v (by omega)]
    exact h.unspawned v hv
  · intro v hv
    rw [hf.joined] at hv
    have hvw : v ≠ w := by
      rintro rfl
      rw [h.not_joined hf] at hv
      exact nomatch hv
    rw [hf.others v hvw]
    exact h.joined v hv
  · intro v r hv
    by_cases hvw : v = w
    · subst hvw
      exact hf.lost r hv
    · rw [hf.others v hvw] at hv
      exact hf.poisoned (h.lost v r hv)
  · rw [hf.coord]
    rintro (hc | hc)
    · exact absurd hc hcheck
    · exact absurd hc hret
  · rw [hf.coord]
    intro hc
    exact absurd hc hret

/-- Reading a worker's result closes its account. -/
theorem Books.join {r : Option (Except DownloadError Unit)} (h : Books d)
    (hr : (d.workers w).joinResult = some r) (v : Nat)
    (hv : Function.update d.joined w true v = true) : (d.workers v).joinResult ≠ none := by
  by_cases hvw : v = w
  · subst hvw
    rw [hr]
    exact nofun
  · rw [Function.update_of_ne hvw] at hv
    exact h.joined v hv

/-- **Step** of the download. -/
theorem books_step (h : Books d) (hs : Stepped d a d') : Books d' := by
  cases hs with
  | worker hw => exact h.worked (framed_worked hw)
  | spawned hc hlt =>
      have hnew : ∀ v, v ≠ d.totalSpawned →
          Function.update d.workers d.totalSpawned Pc.permit v = d.workers v :=
        fun v hv => Function.update_of_ne hv ..
      have hself : Function.update d.workers d.totalSpawned Pc.permit d.totalSpawned
          = .permit := Function.update_self ..
      refine ⟨?_, ?_, ?_, ?_, ?_⟩
      · intro v hv
        have hv : d.totalSpawned + 1 ≤ v := hv
        exact (hnew v (by omega)).trans (h.unspawned v (by omega))
      · intro v hv
        have hv : d.joined v = true := hv
        show (Function.update d.workers d.totalSpawned Pc.permit v).joinResult ≠ none
        by_cases hvs : v = d.totalSpawned
        · subst hvs
          exact absurd (by rw [h.unspawned _ (Nat.le_refl _)]; rfl) (h.joined _ hv)
        · rw [hnew v hvs]
          exact h.joined v hv
      · intro v r hv
        have hv : Function.update d.workers d.totalSpawned Pc.permit v = _ := hv
        by_cases hvs : v = d.totalSpawned
        · subst hvs
          rw [hself] at hv
          exact nomatch hv
        · rw [hnew v hvs] at hv
          exact h.lost v r hv
      -- the loop that spawns has not been left
      · rintro (hcheck | hret)
        · exact nomatch hc.symm.trans hcheck
        · exact nomatch hc.symm.trans hret
      · intro hret
        exact nomatch hc.symm.trans hret
  | recv hc => exact ⟨h.unspawned, h.joined, h.lost, h.settled, h.ok⟩
  | joined _ _ _ hr =>
      exact ⟨h.unspawned, h.join hr, h.lost, by rintro (hc | hc) <;> exact (nomatch hc), nofun⟩
  | fatal _ _ _ hr he =>
      exact ⟨h.unspawned, h.join hr, h.lost, by rintro (hc | hc) <;> exact (nomatch hc), nofun⟩
  | drained hc _ _ hr =>
      refine ⟨h.unspawned, h.join hr, h.lost, ?_, ?_⟩
      · rintro (hcheck | hret)
        · exact nomatch hc.symm.trans hcheck
        · exact nomatch hc.symm.trans hret
      · intro hret
        exact nomatch hc.symm.trans hret
  | noneLeft =>
      exact ⟨h.unspawned, h.joined, h.lost, by rintro (hc | hc) <;> exact (nomatch hc), nofun⟩
  | allJoined _ hall => exact ⟨h.unspawned, h.joined, h.lost, fun _ => hall, nofun⟩
  | noneActive =>
      exact ⟨h.unspawned, h.joined, h.lost, by rintro (hc | hc) <;> exact (nomatch hc), nofun⟩
  | someActive =>
      exact ⟨h.unspawned, h.joined, h.lost, by rintro (hc | hc) <;> exact (nomatch hc), nofun⟩
  | checkPanicked =>
      exact ⟨h.unspawned, h.joined, h.lost, by rintro (hc | hc) <;> exact (nomatch hc), nofun⟩
  | completed hc hp hd =>
      exact ⟨h.unspawned, h.joined, h.lost, fun _ => h.settled (Or.inl hc), fun _ => ⟨hp, hd⟩⟩
  | incomplete hc =>
      exact ⟨h.unspawned, h.joined, h.lost, by rintro (hc | hc) <;> exact (nomatch hc), nofun⟩

/-! ## Whole runs -/

/-- What holds of a download besides what holds of its buffer. -/
structure RunInv (totalSize : Nat) (d : Download) : Prop where
  log : LogOk (client totalSize) (Filled totalSize) (snap d)
  books : Books d

/-- At the start nobody has claimed. -/
theorem view_start : view totalSize (start n totalSize file)
    = BlitzClaims.start totalSize file := by
  rw [view, Snap.view, BlitzClaims.start]
  congr 1
  funext w
  show (if w < min n initialWorkerCount then Pc.permit else .unspawned).call = .idle
  split <;> rfl

theorem runInv_start : RunInv totalSize (start n totalSize file) := by
  refine ⟨logInv_start ?_, books_start⟩
  intro w
  show Pc.doing totalSize (if w < min n initialWorkerCount then Pc.permit else .unspawned) = none
  split <;> rfl

/-- At the start the buffer is in order. -/
theorem bufferInv_view_start (hfile : file.length = totalSize) :
    BufferInv totalSize (view totalSize (start n totalSize file)) := by
  rw [view_start]
  exact bufferInv_start hfile

/-- A step of a worker is an effect, and so is spawning one; the coordinator's
    other steps touch nothing that a client has. -/
theorem stepped_effect (h : RunInv totalSize d) (hb : BufferInv totalSize (view totalSize d))
    (hs : Stepped d a d') : snap d' = snap d ∨
      ∃ w, Effect (client totalSize) (Filled totalSize) (snap d) w (snap d') := by
  cases hs with
  | worker hw => exact Or.inr ⟨_, worked_effect hb h.log hw⟩
  | spawned =>
      have hidle : (client totalSize).call ((snap d).workers d.totalSpawned) = .idle :=
        calls_of (h.books.unspawned _ (Nat.le_refl _))
      exact Or.inr ⟨d.totalSpawned, .dropped (by rw [hidle]; rfl) rfl⟩
  | _ => exact Or.inl rfl

/-- **Step** of the download. -/
theorem runInv_step (h : RunInv totalSize d) (hb : BufferInv totalSize (view totalSize d))
    (hs : step d a = some d') : RunInv totalSize d' := by
  have hst := stepped_of_step hs
  refine ⟨?_, books_step h.books hst⟩
  rcases stepped_effect h hb hst with heq | ⟨w, heff⟩
  · rw [heq]
    exact h.log
  · exact heff.logOk hb h.log

/-- **Simulation**: a step of the download is steps of its threads. -/
theorem step_simulates (h : RunInv totalSize d) (hb : BufferInv totalSize (view totalSize d))
    (hs : step d a = some d') :
    Reaches BlitzClaims.step (view totalSize d) (view totalSize d') := by
  rcases stepped_effect h hb (stepped_of_step hs) with heq | ⟨w, heff⟩
  · simp only [view]
    rw [heq]
    exact Reaches.refl
  · exact heff.simulates hb

theorem runInv_buffer_start (hfile : file.length = totalSize) :
    RunInv totalSize (start n totalSize file) ∧
      BufferInv totalSize (view totalSize (start n totalSize file)) :=
  ⟨runInv_start, bufferInv_view_start hfile⟩

/-- **Step** of the download, for its log and its buffer. -/
theorem runInv_buffer_step (h : RunInv totalSize d ∧ BufferInv totalSize (view totalSize d))
    (hs : step d a = some d') : RunInv totalSize d' ∧ BufferInv totalSize (view totalSize d') := by
  obtain ⟨bs, hbs⟩ := step_simulates h.1 h.2 hs
  exact ⟨runInv_step h.1 h.2 hs, run_invariant (fun _ _ _ => bufferInv_step) h.2 hbs⟩

/-- Log, books and buffer are in order in every state of a run. -/
theorem runInv_run (hfile : file.length = totalSize)
    (hrun : run step (start n totalSize file) acts = some d) :
    RunInv totalSize d ∧ BufferInv totalSize (view totalSize d) :=
  simulation_invariant (f := view totalSize) (fun _ _ _ => bufferInv_step)
    (fun _ _ _ => step_simulates) (fun _ _ _ => runInv_step) runInv_start
    (bufferInv_view_start hfile) hrun

/-- **Refinement**: the buffer of a download and what its workers hold of it
    go through a run of the claim protocol. -/
theorem download_refines (hfile : file.length = totalSize)
    (hrun : run step (start n totalSize file) acts = some d) :
    Reaches BlitzClaims.step (BlitzClaims.start totalSize file) (view totalSize d) := by
  have h := run_simulates (f := view totalSize) (fun _ _ _ => bufferInv_step)
    (fun _ _ _ => step_simulates) (fun _ _ _ => runInv_step) runInv_start
    (bufferInv_view_start hfile) hrun
  rwa [view_start] at h

/-! ## `Ok(())` -/

/-- With every worker over and the lock not poisoned, no claim is between its
    two steps. -/
theorem Books.noClaimPending (h : Books d) (hp : d.poisoned = false)
    (hall : ∀ w, w < d.totalSpawned → d.joined w = true) : NoClaimPending (view totalSize d) := by
  intro w a z hc
  have hc : (d.workers w).call = .claimed a z := hc
  by_cases hw : w < d.totalSpawned
  · have hj := h.joined w (hall w hw)
    cases hpc : d.workers w with
    | ended r => rw [hpc] at hc; exact nomatch hc
    | panicked l =>
        cases l with
        | none => rw [hpc] at hc; exact nomatch hc
        | some r =>
            have := h.lost w r hpc
            rw [hp] at this
            exact nomatch this
    | _ => rw [hpc] at hj; exact absurd rfl hj
  · rw [h.unspawned w (not_lt.mp hw)] at hc
    exact nomatch hc

/-- **`Ok(())`**: every worker has ended, and every offset lies in a segment
    that was marked ready once, after its worker had written the first bytes
    of one accepted response at its offsets, in order and without gap. -/
theorem download_ok_delivered (hfile : file.length = totalSize)
    (hrun : run step (start n totalSize file) acts = some d)
    (hok : d.coord = .returned (.ok ())) :
    (∀ w, w < d.totalSpawned → ∃ r, (d.workers w).joinResult = some r) ∧
      ∀ off, off < totalSize → ∃ id seg, d.buf.segments[id]? = some seg ∧
        seg.start ≤ off ∧ off < seg.end ∧ Delivered (Filled totalSize) d.log id seg := by
  obtain ⟨⟨hlog, hbooks⟩, hb⟩ := runInv_run hfile hrun
  obtain ⟨hp, hdone⟩ := hbooks.ok hok
  have hall := hbooks.settled (Or.inr hok)
  constructor
  · intro w hw
    exact Option.ne_none_iff_exists'.mp (hbooks.joined w (hall w hw))
  · intro off hoff
    have hquiet : NoClaimPending (view totalSize d) := hbooks.noClaimPending hp hall
    have hcov := BlitzCompletion.ClaimInv.readyCovers hb.claims hdone hquiet
    have hsize : (view totalSize d).buf.totalSize = totalSize := hb.size
    obtain ⟨seg, hmem, hready, hlo, hhi⟩ := hcov off (by rw [hsize]; exact hoff)
    obtain ⟨id, hid⟩ := List.mem_iff_getElem?.mp hmem
    exact ⟨id, seg, hid, hlo, hhi, hlog.ready id seg hid hready⟩

/-- A one-byte file from one 206. -/
def oneByte : List Act :=
  List.replicate 5 (.worker 0 .go) ++ [.worker 0 (.sent (.ok ⟨206, []⟩)),
    .worker 0 (.stream (.chunk [7, 8])), .worker 0 (.write true [.ok 1])]
    ++ List.replicate 4 (.worker 0 .go) ++ [.worker 0 (.measured none)]
    ++ List.replicate 3 (.worker 0 .go) ++ [.recvReady, .join 0, .loadActive, .joinNone, .check]

theorem download_ok_delivered_oneByte :
    ∃ d, run step (start 1 1 [0]) oneByte = some d ∧
      (∀ w, w < d.totalSpawned → ∃ r, (d.workers w).joinResult = some r) ∧
      ∀ off, off < 1 → ∃ id seg, d.buf.segments[id]? = some seg ∧
        seg.start ≤ off ∧ off < seg.end ∧ Delivered (Filled 1) d.log id seg := by
  have hany : (run step (start 1 1 [0]) oneByte).any (fun d =>
      decide (d.coord = .returned (.ok ()))) = true := by decide
  obtain ⟨d, hrun, hd⟩ := run_of_any hany
  exact ⟨d, hrun, download_ok_delivered rfl hrun (of_decide_eq_true hd)⟩

/-! ## A download in two pieces -/

/-- The request did not get through in time. -/
def timedOut : ReqwestError := ⟨false, false, true, false, false⟩

/-- The request of worker `w` brings `body`, up to the head of its loop. -/
def fetches (w : Nat) (body : Bytes) : List Act :=
  [.worker w (.sent (.ok ⟨206, []⟩)), .worker w (.stream (.chunk body)),
    .worker w (.write true [.ok body.length])] ++ List.replicate 4 (.worker w .go) ++
    [.worker w (.measured none)]

/-- A file of two segments and two workers; the first request has to be sent
    again. -/
def twoPieces (first last : Bytes) : List Act :=
  List.replicate 5 (.worker 0 .go) ++ [.worker 0 (.sent (.error timedOut)), .worker 0 .go] ++
    fetches 0 first ++ [.recvReady] ++ List.replicate 5 (.worker 1 .go) ++ fetches 1 last ++
    List.replicate 3 (.worker 0 .go) ++ List.replicate 3 (.worker 1 .go) ++
    [.join 0, .loadActive, .join 1, .joinNone, .check]

/-- Whatever the two pieces are, the download goes through and its two
    segments are theirs. -/
theorem twoPieces_run (first last file : Bytes) (hfirst : first.length = initialSegmentSize)
    (hlast : last.length = 1) :
    ∃ d, run step (start 2 (initialSegmentSize + 1) file) (twoPieces first last) = some d ∧
      d.coord = .returned (.ok ()) ∧ d.buf.failed = false ∧ d.buf.allCompleted = true ∧
      d.buf.segments = [⟨0, initialSegmentSize, .ready⟩,
        ⟨initialSegmentSize, initialSegmentSize + 1, .ready⟩] ∧
      (lastTransfer 0 d.log).map Transfer.body = some first ∧
      (lastTransfer 1 d.log).map Transfer.body = some last := by
  have htake : first.take initialSegmentSize = first := List.take_of_length_le hfirst.le
  have hdrop : first.drop initialSegmentSize = [] := List.drop_of_length_le hfirst.le
  have htake' : last.take 1 = last := List.take_of_length_le hlast.le
  have hdrop' : last.drop 1 = [] := List.drop_of_length_le hlast.le
  have hne : first ≠ [] := List.ne_nil_of_length_pos (by rw [hfirst]; decide)
  have hne' : last ≠ [] := List.ne_nil_of_length_pos (by rw [hlast]; decide)
  have hwrite : ∀ {b : SegmentsBuffer} {off : Nat}, b.writeData off first [.ok initialSegmentSize]
      = some (.ok (), { b with file := FileContent.overwrite 0 b.file off first }) :=
    writeData_whole hfirst (by decide)
  have hwrite' : ∀ {b : SegmentsBuffer} {off : Nat}, b.writeData off last [.ok 1]
      = some (.ok (), { b with file := FileContent.overwrite 0 b.file off last }) :=
    writeData_whole hlast (by decide)
  have hall : ∀ w ≤ 1,
      Function.update (Function.update (fun _ => false) 0 true) 1 true w = true := by decide
  have hpos : initialSegmentSize ≠ 0 := by decide
  have hmore : ¬ initialSegmentSize + 1 ≤ initialSegmentSize := Nat.not_succ_le_self _
  have hmin : min initialSegmentSize 1 = 1 := Nat.min_eq_right (by decide)
  -- the size stays a name: the steps only compare it
  simp [twoPieces, fetches, run, step, start, new, workerStep, goto, note, claimCas, claimPush,
    timedOut, isTransientError, Claim.retry, checkStatus, streamStep, writeStep, hfirst, hlast,
    htake, hdrop, htake', hdrop', hne, hne', hwrite, hwrite', eq_true hall, hpos, hmore, hmin,
    bodyOver, maxSegmentRetries, initialWorkerCount, List.replicate, setReady, addReady,
    spawnOneWorker, joinStep, Pc.joinResult, finish, allCompleted, lastTransfer, Transfer.next]

/-- The bytes of a segment of the size of a first claim. -/
def firstSegmentBytes : Bytes := List.replicate 1048576 7

theorem length_firstSegmentBytes : firstSegmentBytes.length = initialSegmentSize :=
  List.length_replicate

/-- The file of two pieces, as `set_len` has made it. -/
def newFile : Bytes := List.replicate 1048577 0

/-! ## Fatal errors -/

/-- Worker `w` has ended with a fatal error. -/
def EndedFatal (d : Download) (w : Nat) : Prop :=
  ∃ e, d.workers w = .ended (.error e) ∧ e.isFatal = true

/-- The coordinator has left the first loop, or returned, without a fatal
    error. -/
def LeftFirstLoop (d : Download) : Prop :=
  d.coord = .drain ∨ d.coord = .check ∨ d.coord = .panicked ∨
    ∃ r, d.coord = .returned r ∧ ∀ e, r = .error e → e.isFatal = false

/-- When the coordinator finds `active` at zero, `join_next` has returned
    every worker that ended with a fatal error. -/
def FatalJoined (d : Download) (a : Act) : Prop :=
  a = .loadActive → d.active = 0 → ∀ w, EndedFatal d w → d.joined w = true

/-- What the first loop knows. -/
structure FirstLoop (d : Download) : Prop where
  books : Books d
  /-- `active` counts, at least, the workers that have not ended -/
  counted : ∃ C : Finset Nat, C.card ≤ d.active ∧
    ∀ w, w < d.totalSpawned → w ∈ C ∨ ∃ r, d.workers w = .ended r
  /-- a fatal error that the first loop reads ends it -/
  read : d.coord = .select ∨ d.coord = .loadActive →
    ∀ w, d.joined w = true → ¬ EndedFatal d w

theorem firstLoop_start : FirstLoop (start n totalSize file) where
  books := books_start
  counted := ⟨Finset.range (min n initialWorkerCount), by rw [Finset.card_range]; rfl,
    fun w hw => Or.inl (Finset.mem_range.mpr hw)⟩
  read _ _ h := nomatch h

/-- Only the worker that makes the step can have ended by it, and it counts
    itself out. -/
theorem worked_ended (h : Worked d w d') :
    d'.active = d.active ∧ (∀ r, d'.workers w ≠ .ended r) ∨
      d'.active = d.active - 1 ∧ ∃ r, d'.workers w = .ended r := by
  have hquiet : ∀ {pc}, d'.workers = Function.update d.workers w pc →
      (∀ r, pc ≠ .ended r) → ∀ r, d'.workers w ≠ .ended r := by
    intro pc hw hpc r hr
    rw [hw, Function.update_self] at hr
    exact hpc r hr
  cases h with
  | moved hm =>
      refine Or.inl ⟨rfl, hquiet rfl ?_⟩
      intro r hr
      rw [hr] at hm
      generalize d.workers w = pc at hm
      exact nomatch hm
  | finished hw => exact Or.inr ⟨rfl, _, Function.update_self ..⟩
  | failed => exact Or.inl ⟨rfl, hquiet rfl nofun⟩
  | exhausted => exact Or.inl ⟨rfl, hquiet rfl nofun⟩
  | cas => exact Or.inl ⟨rfl, hquiet rfl nofun⟩
  | push => exact Or.inl ⟨rfl, hquiet rfl nofun⟩
  | opened => exact Or.inl ⟨rfl, hquiet rfl nofun⟩
  | received => exact Or.inl ⟨rfl, hquiet rfl nofun⟩
  | wrote => exact Or.inl ⟨rfl, hquiet rfl nofun⟩
  | wroteSome => exact Or.inl ⟨rfl, hquiet rfl nofun⟩
  | ready => exact Or.inl ⟨rfl, hquiet rfl nofun⟩
  | unlisted => exact Or.inl ⟨rfl, hquiet rfl nofun⟩
  | counted => exact Or.inl ⟨rfl, hquiet rfl nofun⟩
  | notified => exact Or.inl ⟨rfl, hquiet rfl nofun⟩
  | panicked => exact Or.inl ⟨rfl, hquiet rfl nofun⟩

/-- A worker's step. -/
theorem FirstLoop.worked (h : FirstLoop d) (hw : Worked d w d') : FirstLoop d' := by
  have hf := framed_worked hw
  have hlt := h.books.spawned_of_alive hf.alive
  refine ⟨h.books.worked hf, ?_, ?_⟩
  · obtain ⟨C, hcard, hC⟩ := h.counted
    have hself : w ∈ C := by
      rcases hC w hlt with hmem | ⟨r, hr⟩
      · exact hmem
      · have := hf.alive
        rw [hr] at this
        exact nomatch this
    -- a worker leaves the set with the step that counts it out
    rcases worked_ended hw with ⟨hactive, -⟩ | ⟨hactive, hend⟩
    · refine ⟨C, by rw [hactive]; exact hcard, ?_⟩
      intro v hv
      rw [hf.spawned] at hv
      by_cases hvw : v = w
      · exact Or.inl (hvw ▸ hself)
      · rw [hf.others v hvw]
        exact hC v hv
    · refine ⟨C.erase w, ?_, ?_⟩
      · rw [hactive, Finset.card_erase_of_mem hself]
        omega
      · intro v hv
        rw [hf.spawned] at hv
        by_cases hvw : v = w
        · exact Or.inr (hvw ▸ hend)
        · rw [hf.others v hvw]
          rcases hC v hv with hmem | hr
          · exact Or.inl (Finset.mem_erase.mpr ⟨hvw, hmem⟩)
          · exact Or.inr hr
  · rw [hf.coord, hf.joined]
    rintro hc v hj ⟨e, he, hfatal⟩
    have hvw : v ≠ w := by
      rintro rfl
      rw [h.books.not_joined hf] at hj
      exact nomatch hj
    rw [hf.others v hvw] at he
    exact h.read hc v hj ⟨e, he, hfatal⟩

/-- A worker just spawned is counted. -/
theorem FirstLoop.spawned (h : FirstLoop d) (hbooks : Books d')
    (hw : d'.workers = Function.update d.workers d.totalSpawned .permit)
    (hj : d'.joined = d.joined) (hs : d'.totalSpawned = d.totalSpawned + 1)
    (hc : d'.coord = d.coord) (ha : d'.active = d.active + 1) : FirstLoop d' := by
  have hold : ∀ v, v ≠ d.totalSpawned → d'.workers v = d.workers v := by
    intro v hv
    rw [hw, Function.update_of_ne hv]
  refine ⟨hbooks, ?_, ?_⟩
  · obtain ⟨C, hcard, hC⟩ := h.counted
    -- the set may hold the id already; the count is then only too large
    refine ⟨insert d.totalSpawned C, ?_, ?_⟩
    · have := Finset.card_insert_le d.totalSpawned C
      omega
    · intro v hv
      by_cases hvs : v = d.totalSpawned
      · exact Or.inl (hvs ▸ Finset.mem_insert_self ..)
      · rw [hold v hvs]
        rcases hC v (by omega) with hmem | hr
        · exact Or.inl (Finset.mem_insert_of_mem hmem)
        · exact Or.inr hr
  · rw [hc, hj]
    rintro hcoord v hjv ⟨e, he, hfatal⟩
    have hvs : v ≠ d.totalSpawned := by
      rintro rfl
      have hpermit : d'.workers d.totalSpawned = .permit := by
        rw [hw, Function.update_self]
      rw [hpermit] at he
      exact nomatch he
    rw [hold v hvs] at he
    exact h.read hcoord v hjv ⟨e, he, hfatal⟩

/-- **Step** of the download. -/
theorem firstLoop_step (h : FirstLoop d) (hs : Stepped d a d') : FirstLoop d' := by
  have hbooks := books_step h.books hs
  cases hs with
  | worker hw => exact h.worked hw
  | spawned => exact h.spawned hbooks rfl rfl rfl rfl rfl
  | recv => exact ⟨hbooks, h.counted, h.read⟩
  | joined hc hlt hj hr hok =>
      rename_i w r
      refine ⟨hbooks, h.counted, ?_⟩
      rintro - v hv ⟨e, he, hfatal⟩
      -- the result just read was not fatal, or the loop would have returned
      by_cases hvw : v = w
      · subst hvw
        have he : d.workers v = .ended (.error e) := he
        rw [he] at hr
        cases hr
        rw [hok e rfl] at hfatal
        exact nomatch hfatal
      · have hv : Function.update d.joined w true v = true := hv
        rw [Function.update_of_ne hvw] at hv
        exact h.read (Or.inl hc) v hv ⟨e, he, hfatal⟩
  | fatal => exact ⟨hbooks, h.counted, by rintro (hc | hc) <;> exact nomatch hc⟩
  | drained hc =>
      refine ⟨hbooks, h.counted, ?_⟩
      rintro (hsel | hload)
      · exact nomatch hc.symm.trans hsel
      · exact nomatch hc.symm.trans hload
  | noneLeft => exact ⟨hbooks, h.counted, by rintro (hc | hc) <;> exact nomatch hc⟩
  | allJoined => exact ⟨hbooks, h.counted, by rintro (hc | hc) <;> exact nomatch hc⟩
  | noneActive => exact ⟨hbooks, h.counted, by rintro (hc | hc) <;> exact nomatch hc⟩
  | someActive hc => exact ⟨hbooks, h.counted, fun _ => h.read (Or.inr hc)⟩
  | checkPanicked => exact ⟨hbooks, h.counted, by rintro (hc | hc) <;> exact nomatch hc⟩
  | completed => exact ⟨hbooks, h.counted, by rintro (hc | hc) <;> exact nomatch hc⟩
  | incomplete => exact ⟨hbooks, h.counted, by rintro (hc | hc) <;> exact nomatch hc⟩

/-- The first loop, once left, is left for good. -/
theorem leftFirstLoop_step (hs : Stepped d a d') (h : LeftFirstLoop d) : LeftFirstLoop d' := by
  have hno : ∀ c, d.coord = c → c = .select ∨ c = .loadActive → False := by
    rintro c hc hsel
    rcases h with h | h | h | ⟨r, h, -⟩
    all_goals rcases hsel with rfl | rfl <;> exact nomatch hc.symm.trans h
  cases hs with
  | worker hw =>
      rw [LeftFirstLoop]
      rw [(framed_worked hw).coord]
      exact h
  | spawned hc => exact absurd (Or.inl rfl) (hno _ hc)
  | recv hc => exact absurd (Or.inl rfl) (hno _ hc)
  | joined hc => exact absurd (Or.inl rfl) (hno _ hc)
  | fatal hc => exact absurd (Or.inl rfl) (hno _ hc)
  | noneLeft hc => exact absurd (Or.inl rfl) (hno _ hc)
  | noneActive hc => exact absurd (Or.inr rfl) (hno _ hc)
  | someActive hc => exact absurd (Or.inr rfl) (hno _ hc)
  | drained hc => exact Or.inl hc
  | allJoined => exact Or.inr (Or.inl rfl)
  | checkPanicked => exact Or.inr (Or.inr (Or.inl rfl))
  | completed => exact Or.inr (Or.inr (Or.inr ⟨_, rfl, nofun⟩))
  | incomplete =>
      refine Or.inr (Or.inr (Or.inr ⟨_, rfl, ?_⟩))
      rintro e ⟨⟩
      rfl

/-- Nobody runs any more, and nobody ended with a fatal error. -/
def AllFine (d : Download) : Prop :=
  ∀ w, (d.workers w).alive = false ∧ ¬ EndedFatal d w

/-- With every worker joined in the first loop, all is fine. -/
theorem FirstLoop.allFine (h : FirstLoop d) (hc : d.coord = .select ∨ d.coord = .loadActive)
    (hall : ∀ w, w < d.totalSpawned →
      (d.workers w).joinResult ≠ none ∧ (EndedFatal d w → d.joined w = true)) :
    AllFine d := by
  intro w
  by_cases hw : w < d.totalSpawned
  · obtain ⟨hres, hj⟩ := hall w hw
    refine ⟨?_, fun hf => h.read hc w (hj hf) hf⟩
    cases halive : (d.workers w).alive with
    | false => rfl
    | true => exact absurd (joinResult_of_alive halive) hres
  · have hun := h.books.unspawned w (not_lt.mp hw)
    refine ⟨by rw [hun]; rfl, ?_⟩
    rintro ⟨e, he, -⟩
    rw [hun] at he
    exact nomatch he

/-- **Step** in which a fatal error is joined. -/
theorem allFine_step (h : FirstLoop d) (hfine : LeftFirstLoop d → AllFine d)
    (hG : FatalJoined d a) (hs : Stepped d a d') : LeftFirstLoop d' → AllFine d' := by
  intro hleft
  cases hs with
  | worker hw =>
      have hf := framed_worked hw
      -- a worker that takes a step is not idle, as all are once the loop is left
      have hleft₀ : LeftFirstLoop d := by
        rw [LeftFirstLoop] at hleft ⊢
        rwa [hf.coord] at hleft
      rename_i w input
      have hidle := (hfine hleft₀ w).1
      rw [hf.alive] at hidle
      exact nomatch hidle
  | noneLeft hc hall =>
      exact h.allFine (Or.inl hc) fun w hw =>
        ⟨h.books.joined w (hall w hw), fun _ => hall w hw⟩
  | noneActive hc h0 =>
      obtain ⟨C, hcard, hC⟩ := h.counted
      -- nobody is counted, so every worker has ended
      have hempty : C = ∅ := Finset.card_eq_zero.mp (by omega)
      refine h.allFine (Or.inr hc) fun w hw => ⟨?_, hG rfl h0 w⟩
      rcases hC w hw with hmem | ⟨r, hr⟩
      · rw [hempty] at hmem
        exact absurd hmem (Finset.notMem_empty _)
      · rw [hr]
        exact nofun
  | drained hc => exact hfine (Or.inl hc)
  | allJoined hc => exact hfine (Or.inl hc)
  | checkPanicked hc => exact hfine (Or.inr (Or.inl hc))
  | completed hc => exact hfine (Or.inr (Or.inl hc))
  | incomplete hc => exact hfine (Or.inr (Or.inl hc))
  | spawned hc =>
      rcases hleft with hl | hl | hl | ⟨r, hl, -⟩ <;> exact nomatch hc.symm.trans hl
  | recv hc =>
      rcases hleft with hl | hl | hl | ⟨r, hl, -⟩ <;> exact nomatch hc.symm.trans hl
  | joined =>
      rcases hleft with hl | hl | hl | ⟨r, hl, -⟩ <;> exact nomatch hl
  | someActive =>
      rcases hleft with hl | hl | hl | ⟨r, hl, -⟩ <;> exact nomatch hl
  | fatal _ _ _ _ he =>
      rcases hleft with hl | hl | hl | ⟨r, hl, hr⟩
      · exact nomatch hl
      · exact nomatch hl
      · exact nomatch hl
      · cases hl
        rw [hr _ rfl] at he
        exact nomatch he

/-- **Fatal errors, exactly**: a run that has returned, and in which some
    worker ended with a fatal error, has returned a fatal error if and only
    if the coordinator never found `active` at zero with a fatal result
    still unread. -/
theorem returns_fatal_iff {r : Except DownloadError Unit}
    (hrun : run step (start n totalSize file) acts = some d)
    (hret : d.coord = .returned r) (hfatal : EndedFatal d w) :
    (∃ e, r = .error e ∧ e.isFatal = true) ↔
      Along step FatalJoined (start n totalSize file) acts := by
  constructor
  · rintro ⟨e, rfl, he⟩
    -- a loop once left stays left; a fatal return does not count as left
    have hnever : Always step (fun d => ¬ LeftFirstLoop d) (start n totalSize file) acts := by
      refine always_of_last ?_ hrun ?_
      · intro d a d' hs hno hleft
        exact hno (leftFirstLoop_step (stepped_of_step hs) hleft)
      · rintro (hl | hl | hl | ⟨r, hl, hr⟩)
        · exact nomatch hret.symm.trans hl
        · exact nomatch hret.symm.trans hl
        · exact nomatch hret.symm.trans hl
        · cases hret.symm.trans hl
          rw [hr e rfl] at he
          exact nomatch he
    refine along_of_always ?_ hrun hnever
    rintro d a d' - hs hno rfl h0
    cases stepped_of_step hs with
    | noneActive => exact absurd (Or.inl rfl) hno
    | someActive hc hne => exact absurd h0 hne
  · intro halong
    have hinv := along_invariant
      (I := fun d => FirstLoop d ∧ (LeftFirstLoop d → AllFine d))
      (fun d a d' hi hG hs => ⟨firstLoop_step hi.1 (stepped_of_step hs),
        allFine_step hi.1 hi.2 hG (stepped_of_step hs)⟩)
      ⟨firstLoop_start, by rintro (hl | hl | hl | ⟨r, hl, -⟩) <;> exact nomatch hl⟩
      halong hrun
    -- past the loop every result is fine, `w`'s included
    cases r with
    | error e =>
        refine ⟨e, rfl, ?_⟩
        by_contra he
        refine (hinv.2 (Or.inr (Or.inr (Or.inr ⟨_, hret, ?_⟩))) w).2 hfatal
        rintro e' ⟨⟩
        exact Bool.eq_false_iff.mpr he
    | ok u =>
        exact absurd hfatal (hinv.2 (Or.inr (Or.inr (Or.inr ⟨_, hret, nofun⟩))) w).2

/-- One worker, whose request is answered 412. -/
def preconditionFailed : List Act :=
  List.replicate 5 (.worker 0 .go) ++ [.worker 0 (.sent (.ok ⟨412, []⟩)), .worker 0 .go, .join 0]

theorem returns_fatal_single :
    ∃ d, run step (start 1 1 [0]) preconditionFailed = some d ∧
      ((∃ e, Except.error DownloadError.etagChanged = (.error e : Except _ Unit) ∧
          e.isFatal = true) ↔
        Along step FatalJoined (start 1 1 [0]) preconditionFailed) := by
  have hany : (run step (start 1 1 [0]) preconditionFailed).any (fun d =>
      decide (d.coord = .returned (.error .etagChanged)) &&
        (d.workers 0).joinResult == some (some (.error .etagChanged))) = true := by decide
  obtain ⟨d, hrun, hd⟩ := run_of_any hany
  rw [Bool.and_eq_true, decide_eq_true_iff, beq_iff_eq] at hd
  refine ⟨d, hrun, returns_fatal_iff (w := 0) hrun hd.1 ⟨.etagChanged, ?_, rfl⟩⟩
  cases hpc : d.workers 0 with
  | ended r =>
      have := hd.2
      rw [hpc] at this
      cases this
      rfl
  | panicked l => rw [hpc] at hd; exact nomatch hd.2
  | _ => rw [hpc] at hd; exact nomatch hd.2

/-! ### A fatal error that is lost

    A file of 1 MiB and one byte.  Worker 0 fills the first segment, and
    worker 1, spawned on that, is told 412 for the last byte.  Both are over
    when `join_next` returns worker 0. -/

/-- A chunk that fits is written at once. -/
theorem workerStep_write {fo fo' k : Nat} {c : Claim} {rest : Bytes}
    (hw : d.workers w = .chunk c fo rest) (hk : rest.length = k) (hpos : 0 < k)
    (hfit : k ≤ c.end - fo) (hfo : fo + k = fo') :
    workerStep d w (.write true [.ok k])
      = some ((({ d with
          buf := { d.buf with file := FileContent.overwrite 0 d.buf.file fo rest } } :
            Download).goto w (.chunk c fo' [])).note w c.id (.wrote fo rest)) := by
  have hmin : min rest.length (c.end - fo) = k := by omega
  have htake : rest.take k = rest := List.take_of_length_le (by omega)
  have hdrop : rest.drop k = [] := List.drop_of_length_le (by omega)
  have hgoes : ¬ (rest = [] ∨ c.end - fo = 0) := by
    rintro (rfl | h)
    · rw [← hk] at hpos
      exact absurd hpos (Nat.lt_irrefl 0)
    · omega
  simp only [workerStep, hw, if_neg hgoes, writeStep, hmin, htake, hdrop,
    writeData_whole hk hpos, if_true, hfo]

/-- The first segment arrives. -/
def untilFirstChunk : List Act :=
  List.replicate 5 (.worker 0 .go) ++ [.worker 0 (.sent (.ok ⟨206, []⟩)),
    .worker 0 (.stream (.chunk firstSegmentBytes))]

/-- The second worker gets a 412, and the first one ends before it is joined.
    -/
def afterFirstChunk : List Act :=
  List.replicate 4 (.worker 0 .go) ++ [.worker 0 (.measured none), .recvReady]
    ++ List.replicate 5 (.worker 1 .go) ++ [.worker 1 (.sent (.ok ⟨412, []⟩))]
    ++ List.replicate 3 (.worker 0 .go)
    ++ [.worker 1 .go, .join 0, .loadActive, .join 1, .joinNone, .check]

/-- The first chunk has arrived and is not written yet. -/
def firstChunkInHand : Download :=
  (run step (start 2 1048577 newFile) untilFirstChunk).getD (start 0 0 [])

/-- The first segment is written. -/
def firstChunkWritten : Download :=
  ((({ firstChunkInHand with
      buf := { firstChunkInHand.buf with
        file := FileContent.overwrite 0 firstChunkInHand.buf.file 0 firstSegmentBytes } } :
    Download).goto 0 (.chunk ⟨1048576, 0, 0, 1048576, 0, none⟩ 1048576 [])).note 0 0
      (.wrote 0 firstSegmentBytes))

theorem run_untilFirstChunk :
    run step (start 2 1048577 newFile) untilFirstChunk = some firstChunkInHand := rfl

/-- The first segment is written. -/
theorem step_firstChunk :
    step firstChunkInHand (.worker 0 (.write true [.ok 1048576])) = some firstChunkWritten := by
  have hw : firstChunkInHand.workers 0
      = .chunk ⟨1048576, 0, 0, 1048576, 0, none⟩ 0 firstSegmentBytes := rfl
  have hlen : firstSegmentBytes.length = 1048576 := List.length_replicate
  have hstep := workerStep_write hw hlen (by decide) (Nat.le_refl _) (Nat.zero_add _)
  exact hstep

theorem fatal_lost :
    ∃ d, run step (start 2 1048577 newFile) (untilFirstChunk ++
        .worker 0 (.write true [.ok 1048576]) :: afterFirstChunk) = some d ∧
      (d.workers 1).joinResult = some (some (.error .etagChanged)) ∧
      d.coord = .returned (.error .bufferFailed) := by
  have hany : (run step firstChunkWritten afterFirstChunk).any (fun d =>
      decide ((d.workers 1).joinResult = some (some (.error .etagChanged)) ∧
        d.coord = .returned (.error .bufferFailed))) = true := by decide
  obtain ⟨d, hrun, hd⟩ := run_of_any hany
  refine ⟨d, run_append run_untilFirstChunk ?_, of_decide_eq_true hd⟩
  rw [run_cons step_firstChunk]
  exact hrun

end BlitzDownloaderResults
