import AptBlitz.DownloaderResults
import AptBlitz.Library.TextRules

/-! # `Content-Range`

    A 206 says in its `Content-Range` which bytes of which file it carries.
    The downloader looks at the status and, to warn, at `Content-Length`; it
    takes the body of any 206 for that of the range it asked for.

    `takes_named_iff` says that the file is assembled from the right parts if
    and only if the upstream sends the right parts. -/

namespace BlitzContentRange

open BlitzBuffer SegmentsBuffer BlitzTransfers BlitzClients BlitzDownloader
open BlitzDownloaderSteps BlitzDownloaderRuns BlitzDownloaderResults Download Runs RustText

variable {d d' : Download} {w : Nat} {a : Act} {acts : List Act} {input : Input}
  {n totalSize : Nat} {file : Bytes} {r : Response}

/-! ## The header -/

/-- `1*DIGIT`. -/
def parseDecimal (s : Text) : Option Nat :=
  if s.all Char.isDigit then (parseUnsigned (2 ^ 64 - 1) s).toOption else none

/-- `bytes FIRST-LAST/COMPLETE`. -/
def parseContentRange (value : Text) : Option (Nat × Nat × Nat) := do
  let spec ← stripPrefix "bytes ".toList value
  let (range, complete) ← splitOnce '/' spec
  let (first, last) ← splitOnce '-' range
  return (← parseDecimal first, ← parseDecimal last, ← parseDecimal complete)

/-- The response's `Content-Range` names the bytes of `[start, stop)` and the
    length of the file.  Header names are in lower case. -/
def Names (totalSize start stop : Nat) (r : Response) : Prop :=
  (r.headers.lookup "content-range").bind (fun value => parseContentRange value.toList)
    = some (start, stop - 1, totalSize)

instance (totalSize start stop : Nat) (r : Response) : Decidable (Names totalSize start stop r) :=
  inferInstanceAs (Decidable (_ = _))

/-! ## What is taken -/

/-- A 206 that answers a worker's request names the range asked for. -/
def AnswersInRange (totalSize : Nat) (d : Download) (a : Act) : Prop :=
  ∀ w c r, a = .worker w (.sent (.ok r)) → d.workers w = .send c → r.status = 206 →
    Names totalSize c.start c.end r

/-- What the head of a transfer says of the range, if it is a 206. -/
def Suits (totalSize start stop : Nat) (r : Response) : Prop :=
  r.status = 206 → Names totalSize start stop r

/-- Every 206 whose body was taken for a segment names the segment. -/
def TakesNamed (totalSize : Nat) (d : Download) : Prop :=
  HeadsOk (Suits totalSize) (snap d)

/-- A response is taken when it arrives. -/
theorem sent_of_opened {c : Claim} (hw : d.workers w = .send c)
    (h : workerStep d w input = some d')
    (hlog : d'.log = d.log ++ [⟨w, c.id, .opened r⟩]) : input = .sent (.ok r) := by
  have hsame : d'.log ≠ d.log := by
    intro heq
    cases List.append_right_eq_self.mp (hlog.symm.trans heq)
  cases input with
  | sent result =>
      cases result with
      | error e =>
          simp only [workerStep, hw] at h
          split at h
          · cases h; exact absurd rfl hsame
          · cases h; exact absurd rfl hsame
      | ok r' =>
          simp only [workerStep, hw] at h
          split at h
          · cases h; exact absurd rfl hsame
          · cases h
            cases List.append_cancel_left hlog
            rfl
  | panic inLock =>
      simp only [workerStep, panicStep, hw] at h
      cases h
      exact absurd rfl hsame
  | _ =>
      simp only [workerStep, hw] at h
      cases h

/-- Only a worker that waits for a response opens a transfer. -/
theorem sending_of_opened {id : Nat} (h : Worked d w d')
    (hlog : d'.log = d.log ++ [⟨w, id, .opened r⟩]) :
    ∃ c, d.workers w = .send c ∧ c.id = id := by
  cases h with
  | opened hw =>
      cases List.append_cancel_left hlog
      exact ⟨_, hw, rfl⟩
  | push => cases List.append_cancel_left hlog
  | received => cases List.append_cancel_left hlog
  | wrote => cases List.append_cancel_left hlog
  | ready => cases List.append_cancel_left hlog
  | _ =>
      -- the others leave the log as it is
      cases List.append_right_eq_self.mp hlog.symm

/-- The body of a 206 is taken, whatever it says. -/
theorem opened_of_sent {c : Claim} (hw : d.workers w = .send c) (h206 : r.status = 206)
    (h : workerStep d w (.sent (.ok r)) = some d') :
    d'.log = d.log ++ [⟨w, c.id, .opened r⟩] ∧ d'.buf = d.buf := by
  have hok : ∀ totalSize start stop, checkStatus totalSize start stop r.status = none := by
    intro totalSize start stop
    rw [h206]
    rfl
  simp only [workerStep, hw, hok] at h
  cases h
  exact ⟨rfl, rfl⟩

/-- A step that is answered in range takes nothing else. -/
theorem takesNamed_step (hinv : RunInv totalSize d ∧ BufferInv totalSize (view totalSize d))
    (h : TakesNamed totalSize d) (hG : AnswersInRange totalSize d a)
    (hs : step d a = some d') : TakesNamed totalSize d' := by
  have hst := stepped_of_step hs
  cases hst with
  | @worker w input _ hw =>
      refine h.effect hinv.2 hinv.1.log (worked_effect hinv.2 hinv.1.log hw) ?_
      intro x r hx hlog h206
      obtain ⟨c, hsend, hid⟩ := sending_of_opened hw hlog
      rw [← hid] at hlog
      have hinput := sent_of_opened hsend hs hlog
      have hnames := hG w c r (by rw [hinput]) hsend h206
      cases (doing_of hsend).symm.trans hx
      exact hnames
  | _ => exact h

/-- **Step**: a misnamed body that was taken stays. -/
theorem not_takesNamed_step (hinv : RunInv totalSize d ∧ BufferInv totalSize (view totalSize d))
    (h : ¬ TakesNamed totalSize d) (hs : step d a = some d') : ¬ TakesNamed totalSize d' := by
  intro h'
  rcases stepped_effect hinv.1 hinv.2 (stepped_of_step hs) with heq | ⟨w, heff⟩
  · rw [TakesNamed, heq] at h'
    exact h h'
  · exact h (h'.back heff)

/-- A 206 is taken where it is answered, so it has to name its range. -/
theorem not_takesNamed_of_answer
    (hinv : RunInv totalSize d ∧ BufferInv totalSize (view totalSize d))
    (hs : step d a = some d') (h : ¬ AnswersInRange totalSize d a) : ¬ TakesNamed totalSize d' := by
  intro h'
  refine h ?_
  rintro w c r rfl hw h206
  obtain ⟨hlog, hbuf⟩ := opened_of_sent hw h206 hs
  have hseg := seg_of_doing hinv.2 (doing_of hw)
  have hmem : ⟨w, c.id, .opened r⟩ ∈ d'.log := by
    rw [hlog]
    exact List.mem_append_right _ (List.mem_singleton_self _)
  exact h' _ hmem r rfl _ (by rw [show (snap d').buf = d.buf from hbuf]; exact hseg) h206

/-! ## Whole runs -/

/-- **Content-Range, exactly**: no 206 is taken for a segment it does not
    name, if and only if the upstream answers no request with such a 206.
    After `Ok(())` every offset then comes from a response that, if it is a
    206, names its segment. -/
theorem takes_named_iff (hfile : file.length = totalSize)
    (hrun : run step (start n totalSize file) acts = some d) :
    (TakesNamed totalSize d ↔ Along step (AnswersInRange totalSize) (start n totalSize file) acts) ∧
    (Along step (AnswersInRange totalSize) (start n totalSize file) acts →
      d.coord = .returned (.ok ()) → ∀ off, off < totalSize → ∃ id seg,
        d.buf.segments[id]? = some seg ∧ seg.start ≤ off ∧ off < seg.end ∧
          Delivered (fun seg t => Filled totalSize seg t ∧
            Suits totalSize seg.start seg.end t.head) d.log id seg) := by
  have hiff : TakesNamed totalSize d ↔
      Along step (AnswersInRange totalSize) (start n totalSize file) acts := by
    constructor
    · intro h
      have hor := along_or_last (H := fun _ _ => True) (G := AnswersInRange totalSize)
        (P := fun d => (RunInv totalSize d ∧ BufferInv totalSize (view totalSize d)) ∧
          ¬ TakesNamed totalSize d)
        (fun _ _ _ h _ hs => runInv_buffer_step h hs)
        (fun _ _ _ h _ hs hG => ⟨runInv_buffer_step h hs, not_takesNamed_of_answer h hs hG⟩)
        (fun _ _ _ h _ hs => ⟨runInv_buffer_step h.1 hs, not_takesNamed_step h.1 h.2 hs⟩)
        (runInv_buffer_start hfile) (along_of_mem fun _ _ _ => trivial) hrun
      exact hor.resolve_right fun hlast => hlast.2 h
    · intro halong
      refine (along_invariant (I := fun d => (RunInv totalSize d ∧
        BufferInv totalSize (view totalSize d)) ∧ TakesNamed totalSize d) ?_ ?_ halong hrun).2
      · intro d a d' h hG hs
        exact ⟨runInv_buffer_step h.1 hs, takesNamed_step h.1 h.2 hG hs⟩
      · exact ⟨runInv_buffer_start hfile, nofun⟩
  refine ⟨hiff, fun halong hok off hoff => ?_⟩
  obtain ⟨id, seg, hseg, hlo, hhi, hdel⟩ := (download_ok_delivered hfile hrun hok).2 off hoff
  exact ⟨id, seg, hseg, hlo, hhi, HeadsOk.delivered (hiff.mpr halong) hseg hdel⟩

/-- A one-byte file from one response. -/
def oneByteFrom (r : Response) : List Act :=
  List.replicate 5 (.worker 0 .go) ++ [.worker 0 (.sent (.ok r)),
    .worker 0 (.stream (.chunk [7])), .worker 0 (.write true [.ok 1])]
    ++ List.replicate 4 (.worker 0 .go) ++ [.worker 0 (.measured none)]
    ++ List.replicate 3 (.worker 0 .go) ++ [.recvReady, .join 0, .loadActive, .joinNone, .check]

/-- The byte asked for. -/
def firstByte : Response := ⟨206, [("content-range", "bytes 0-0/1")]⟩

/-- The sixth byte of another file. -/
def sixthByte : Response := ⟨206, [("content-range", "bytes 5-5/9")]⟩

theorem takes_named_oneByte :
    ∃ d, run step (start 1 1 [0]) (oneByteFrom firstByte) = some d ∧
      (TakesNamed 1 d ↔ Along step (AnswersInRange 1) (start 1 1 [0]) (oneByteFrom firstByte)) ∧
      (Along step (AnswersInRange 1) (start 1 1 [0]) (oneByteFrom firstByte) →
        d.coord = .returned (.ok ()) → ∀ off, off < 1 → ∃ id seg,
          d.buf.segments[id]? = some seg ∧ seg.start ≤ off ∧ off < seg.end ∧
            Delivered (fun seg t => Filled 1 seg t ∧ Suits 1 seg.start seg.end t.head)
              d.log id seg) := by
  have hany : (run step (start 1 1 [0]) (oneByteFrom firstByte)).any (fun d =>
      decide (d.coord = .returned (.ok ()))) = true := by decide
  obtain ⟨d, hrun, -⟩ := run_of_any hany
  exact ⟨d, hrun, takes_named_iff rfl hrun⟩

theorem not_takes_named :
    ∃ d t, run step (start 1 1 [0]) (oneByteFrom sixthByte) = some d ∧
      d.coord = .returned (.ok ()) ∧ d.buf.segments = [⟨0, 1, .ready⟩] ∧ d.buf.file = [7] ∧
      lastTransfer 0 d.log = some t ∧ t.data = [7] ∧ t.head.status = 206 ∧
      ¬ Names 1 0 1 t.head := by
  have hany : (run step (start 1 1 [0]) (oneByteFrom sixthByte)).any (fun d =>
      decide (d.coord = .returned (.ok ()) ∧ d.buf.segments = [⟨0, 1, .ready⟩] ∧
        d.buf.file = [7]) && (lastTransfer 0 d.log).any fun t =>
          decide (t.data = [7] ∧ t.head.status = 206 ∧ ¬ Names 1 0 1 t.head)) = true := by decide
  obtain ⟨d, hrun, hd⟩ := run_of_any hany
  obtain ⟨hdone, hlast⟩ := Bool.and_eq_true_iff.mp hd
  obtain ⟨t, ht, hkept⟩ := (Option.any_eq_true _ _).mp hlast
  obtain ⟨hok, hsegs, hfile⟩ := of_decide_eq_true hdone
  exact ⟨d, t, hrun, hok, hsegs, hfile, ht, of_decide_eq_true hkept⟩

end BlitzContentRange
