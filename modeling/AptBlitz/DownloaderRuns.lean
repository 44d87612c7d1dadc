import AptBlitz.Clients
import AptBlitz.Completion
import AptBlitz.DownloaderSteps

/-! # The HTTP downloader as a client of the buffer

    What a worker's last transfer must look like at each point of its
    program (`Pc.doing`), and that every step of a worker is an effect in the
    sense of `BlitzClients` (`worked_effect`). -/

namespace BlitzDownloaderRuns

open BlitzBuffer SegmentsBuffer BlitzTransfers BlitzClients BlitzDownloader
open BlitzDownloaderSteps Download Runs Tiling
open BlitzClaims (Call Shared)

variable {d d' : Download} {w : Nat} {pc pc' : Pc} {totalSize : Nat}

/-! ## The transfers of a worker -/

/-- A response whose body is accepted for `[start, stop)`: a 206, or a 200
    when that is the whole file. -/
def Accepted (totalSize start stop : Nat) (r : Response) : Prop :=
  r.status = 206 ∨ (r.status = 200 ∧ start = 0 ∧ stop = totalSize)

/-- A response that passes the check is accepted. -/
theorem accepted_of_checkStatus {start stop : Nat} {r : Response}
    (h : checkStatus totalSize start stop r.status = none) :
    Accepted totalSize start stop r := by
  rw [checkStatus] at h
  split at h
  · exact nomatch h
  · split at h
    · exact nomatch h
    next hst =>
      split at h
      next h200 =>
        split at h
        next hwhole => exact Or.inr ⟨h200, hwhole⟩
        next => exact nomatch h
      next h200 => exact Or.inl (by omega)

/-- The segment was filled, in order and without gap, with the first bytes of
    one response. -/
structure Filled (totalSize : Nat) (seg : Segment) (t : Transfer Response) : Prop where
  accepted : Accepted totalSize seg.start seg.end t.head
  in_order : Chain seg.start t.ranges seg.end
  first_bytes : t.data = t.body.take (seg.end - seg.start)

/-- Filling a segment: the file offset is where the writes have got to, and
    what is not written is the rest of the chunk in hand. -/
structure Filling (totalSize : Nat) (c : Claim) (fileOffset : Nat) (rest : Bytes)
    (t : Transfer Response) : Prop where
  accepted : Accepted totalSize c.start c.end t.head
  in_order : Chain c.start t.ranges fileOffset
  le : fileOffset ≤ c.end
  body : t.body = t.data ++ rest

/-- The segment a worker works on and how far its last transfer has got. -/
def Pc.doing (totalSize : Nat) : Pc → Option (Doing Response)
  | .attempt c => some ⟨c.id, c.start, c.end, fun _ => True⟩
  | .send c => some ⟨c.id, c.start, c.end, fun _ => True⟩
  | .body c fo => some ⟨c.id, c.start, c.end, fun t =>
      ∃ t', t = some t' ∧ Filling totalSize c fo [] t'⟩
  | .chunk c fo rest => some ⟨c.id, c.start, c.end, fun t =>
      ∃ t', t = some t' ∧ Filling totalSize c fo rest t'⟩
  | .markState c => some ⟨c.id, c.start, c.end, fun t =>
      ∃ t', t = some t' ∧ Filled totalSize ⟨c.start, c.end, .ready⟩ t'⟩
  | _ => none

/-- A worker at work on a segment holds it. -/
theorem call_of_doing (pc : Pc) (x : Doing Response) (h : Pc.doing totalSize pc = some x) :
    pc.call = .holds x.id x.start x.stop := by
  cases pc <;> cases h <;> rfl

/-- The downloader as a client. -/
def client (totalSize : Nat) : Client Response Pc where
  call := Pc.call
  doing := Pc.doing totalSize
  call_of_doing := call_of_doing

/-- The part of the state that a client has. -/
def snap (d : Download) : Snap Response Pc := ⟨d.buf, d.workers, d.log⟩

/-- What the claim protocol sees of a download. -/
def view (totalSize : Nat) (d : Download) : Shared := (snap d).view (client totalSize)

/-- The file offset is the segment's end: the segment is filled. -/
theorem Filling.filled {c : Claim} {fo : Nat} {rest : Bytes} {t : Transfer Response}
    (h : Filling totalSize c fo rest t) (hsize : fo - c.start = c.end - c.start)
    (hlt : c.start < c.end) : Filled totalSize ⟨c.start, c.end, .ready⟩ t := by
  have hlen := length_data h.in_order
  have hfo : fo = c.end := by omega
  refine ⟨h.accepted, hfo ▸ h.in_order, ?_⟩
  show t.data = t.body.take (c.end - c.start)
  rw [h.body, List.take_left' (by omega)]

/-- A write takes the next bytes of the chunk. -/
theorem Filling.wrote {c : Claim} {fo k : Nat} {rest : Bytes} {t : Transfer Response}
    (h : Filling totalSize c fo rest t) (hk : k = min rest.length (c.end - fo)) :
    Filling totalSize c (fo + k) (rest.drop k)
      { t with writes := t.writes ++ [(fo, rest.take k)] } := by
  have hlen : (rest.take k).length = k := by
    rw [List.length_take]; omega
  have hle := h.le
  refine ⟨h.accepted, ?_, by omega, ?_⟩
  · have := chain_wrote (rest.take k) h.in_order
    rw [hlen] at this
    exact this
  · rw [data_wrote, List.append_assoc, List.take_append_drop]
    exact h.body

/-! ## Steps are effects -/

/-- A move has nothing to do with the claims. -/
theorem moves_call (h : Moves pc pc') : pc'.call = pc.call := by
  cases h <;> rfl

/-- What a worker does, as the claims see it. -/
theorem calls_of (h : d.workers w = pc) :
    (client totalSize).call ((snap d).workers w) = pc.call := by
  show (d.workers w).call = pc.call
  rw [h]

/-- What a worker does, as the transfers see it. -/
theorem doing_of (h : d.workers w = pc) :
    (client totalSize).doing ((snap d).workers w) = Pc.doing totalSize pc := by
  show Pc.doing totalSize (d.workers w) = _
  rw [h]

/-- A move keeps what is known of the worker's transfer, or makes good what
    the next point asks for. -/
theorem moves_doing (hm : Moves pc pc')
    (hlt : ∀ c : Claim, pc.call = .holds c.id c.start c.end → c.start < c.end) :
    ∀ x', Pc.doing totalSize pc' = some x' → ∃ x, Pc.doing totalSize pc = some x ∧
      x'.id = x.id ∧ x'.start = x.start ∧ x'.stop = x.stop ∧ ∀ t, x.ok t → x'.ok t := by
  cases hm with
  | permit => exact nofun
  | claim => exact nofun
  | again => exact nofun
  | send => rintro x ⟨⟩; exact ⟨_, rfl, rfl, rfl, rfl, fun _ _ => trivial⟩
  | resend => rintro x ⟨⟩; exact ⟨_, rfl, rfl, rfl, rfl, fun _ _ => trivial⟩
  | restart => rintro x ⟨⟩; exact ⟨_, rfl, rfl, rfl, rfl, fun _ _ => trivial⟩
  | restartChunk => rintro x ⟨⟩; exact ⟨_, rfl, rfl, rfl, rfl, fun _ _ => trivial⟩
  | more => rintro x ⟨⟩; exact ⟨_, rfl, rfl, rfl, rfl, fun _ ht => ht⟩
  | bodyDone hsize =>
      rintro x ⟨⟩
      refine ⟨_, rfl, rfl, rfl, rfl, ?_⟩
      rintro t ⟨t', ht, hf⟩
      exact ⟨t', ht, hf.filled hsize (hlt _ rfl)⟩
  | chunkDone hsize hge =>
      rintro x ⟨⟩
      refine ⟨_, rfl, rfl, rfl, rfl, ?_⟩
      rintro t ⟨t', ht, hf⟩
      exact ⟨t', ht, hf.filled hsize (hlt _ rfl)⟩

/-- A chunk in hand: what is known of its transfer, and where the next write
    goes. -/
theorem filling_of_chunk {c : Claim} {fo : Nat} {rest : Bytes}
    (hlog : LogOk (client totalSize) (Filled totalSize) (snap d))
    (hw : d.workers w = .chunk c fo rest) : c.start ≤ fo ∧ fo ≤ c.end := by
  obtain ⟨-, -, t, -, hf⟩ := hlog.working w _ (doing_of hw)
  have := length_data hf.in_order
  exact ⟨by omega, hf.le⟩

/-- **Steps are effects**: whatever a worker does is something a client may
    do. -/
theorem worked_effect (hb : BufferInv totalSize (view totalSize d))
    (hlog : LogOk (client totalSize) (Filled totalSize) (snap d)) (h : Worked d w d') :
    Effect (client totalSize) (Filled totalSize) (snap d) w (snap d') := by
  cases h with
  | moved hm =>
      refine .quiet (moves_call hm) (moves_doing hm ?_)
      intro c hc
      exact (hb.claims.holds_le (w := w) hc).1
  | failed _ hc => exact .dropped hc rfl
  | exhausted hw hcas => exact .exhausted (calls_of hw) hcas rfl
  | cas hw hcas => exact .cas (calls_of hw) hcas rfl
  | push hw => exact .push (calls_of hw) rfl
  | opened hw hok =>
      refine .event (doing_of hw) nofun rfl ?_
      intro t _
      -- the transfer starts here, at the claim's first byte
      have hsize : d.buf.totalSize = totalSize := hb.size
      rw [hsize] at hok
      have hlt := (bounds_of_doing hb (doing_of hw)).1
      exact ⟨_, rfl, accepted_of_checkStatus hok, rfl, Nat.le_of_lt hlt, rfl⟩
  | received hw =>
      refine .event (doing_of hw) nofun rfl ?_
      rintro t ⟨t', rfl, hf⟩
      refine ⟨_, rfl, hf.accepted, hf.in_order, hf.le, ?_⟩
      show t'.body ++ _ = t'.data ++ _
      rw [hf.body, List.append_nil]
  | wrote hw hn hwrite =>
      obtain ⟨hlo, hhi⟩ := filling_of_chunk hlog hw
      refine .wrote (doing_of hw) hlo ?_ hwrite rfl ?_
      · show _ + _ ≤ Claim.end _
        rw [List.length_take]
        omega
      · rintro t ⟨t', rfl, hf⟩
        exact ⟨_, rfl, hf.wrote hn⟩
  | wroteSome hw hn hwrite =>
      obtain ⟨hlo, hhi⟩ := filling_of_chunk hlog hw
      refine .wroteSome (doing_of hw) hlo ?_ hwrite rfl
      show _ + _ ≤ Claim.end _
      rw [List.length_take]
      omega
  | ready hw => exact .ready (doing_of hw) rfl fun t ht => ht
  | unlisted hw hlen =>
      -- a segment that is being filled is in the vector
      have hseg := seg_of_doing hb (doing_of hw)
      exact absurd (List.getElem?_eq_some_iff.mp hseg).1 (not_lt.mpr hlen)
  | counted hw => exact .counted (calls_of hw) rfl
  | notified hw => exact .quiet (calls_of hw).symm nofun
  | finished hw => exact .quiet (calls_of hw).symm nofun
  | panicked _ _ _ =>
      -- a range that was claimed and not pushed stays with its worker
      cases hcl : (d.workers w).call.claim with
      | none => exact .dropped hcl rfl
      | some r =>
          exact .quiet (BlitzClaims.Call.eq_of_claim hcl).symm nofun

end BlitzDownloaderRuns
