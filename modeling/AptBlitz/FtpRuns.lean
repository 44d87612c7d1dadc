import AptBlitz.Clients
import AptBlitz.Completion
import AptBlitz.FtpSteps

/-! # The FTP downloader as a client of the buffer

    A data connection may end before all bytes of its segment have come, and
    the worker goes on as if it had not.  So what is known of a segment that
    has been marked depends on whether connections were closed early:
    `Marked clean` asks for the whole segment only where `clean` says they
    were not. -/

namespace BlitzFtpRuns

open BlitzBuffer SegmentsBuffer BlitzTransfers BlitzClients BlitzFtp BlitzFtpSteps
open Download Runs Tiling
open BlitzClaims (Call Shared)

variable {d d' : Download} {w : Nat} {pc pc' : Pc} {clean : Prop} {input : Input}

/-! ## The transfers of a worker -/

/-- Every byte of the segment was received on one data connection and written
    in its place. -/
structure Whole (seg : Segment) (t : Transfer DataConnection) : Prop where
  in_order : Chain seg.start t.ranges seg.end
  received : t.data = t.body

/-- What was received was written, in order from the segment's start; if
    connections are not closed early, it is the whole segment. -/
def Marked (clean : Prop) (seg : Segment) (t : Transfer DataConnection) : Prop :=
  ∃ m, Chain seg.start t.ranges m ∧ t.data = t.body ∧ (clean → m = seg.end)

/-- `written` bytes are in the buffer, and what else was received is still to
    be written. -/
structure Filling (c : Claim) (written : Nat) (rest : Bytes)
    (t : Transfer DataConnection) : Prop where
  in_order : Chain c.start t.ranges (c.start + written)
  le : c.start + written + rest.length ≤ c.end
  body : t.body = t.data ++ rest

/-- A segment that was marked without an early close is whole. -/
theorem Marked.whole {seg : Segment} {t : Transfer DataConnection}
    (h : Marked clean seg t) (hclean : clean) : Whole seg t := by
  obtain ⟨m, hchain, hbody, hm⟩ := h
  exact ⟨hm hclean ▸ hchain, hbody⟩

theorem Filling.marked {c : Claim} {k : Nat} {t : Transfer DataConnection}
    (h : Filling c k [] t) (hk : clean → c.start + k = c.end) :
    Marked clean ⟨c.start, c.end, .ready⟩ t :=
  ⟨c.start + k, h.in_order, by rw [h.body, List.append_nil], hk⟩

/-- A piece arrives. -/
theorem Filling.received {c : Claim} {k : Nat} {data : Bytes}
    {t : Transfer DataConnection} (h : Filling c k [] t)
    (hle : data.length ≤ c.end - c.start - k) :
    Filling c k data { t with body := t.body ++ data } := by
  have := h.le
  refine ⟨h.in_order, ?_, ?_⟩
  · simp only [List.length_nil] at this
    omega
  · show t.body ++ data = t.data ++ data
    rw [h.body, List.append_nil]

/-- The piece is written. -/
theorem Filling.wrote {c : Claim} {k : Nat} {data : Bytes} {t : Transfer DataConnection}
    (h : Filling c k data t) :
    Filling c (k + data.length) []
      { t with writes := t.writes ++ [(c.start + k, data)] } := by
  have := h.le
  refine ⟨?_, ?_, ?_⟩
  · rw [← Nat.add_assoc]
    exact chain_wrote data h.in_order
  · simp only [List.length_nil]
    omega
  · rw [data_wrote, List.append_nil]
    exact h.body

/-- The segment a worker works on and how far its transfer has got. -/
def Pc.doing (clean : Prop) : Pc → Option (Doing DataConnection)
  | .pasv c => some ⟨c.id, c.start, c.end, fun _ => True⟩
  | .rest c _ => some ⟨c.id, c.start, c.end, fun _ => True⟩
  | .retr c _ => some ⟨c.id, c.start, c.end, fun _ => True⟩
  | .connect c _ => some ⟨c.id, c.start, c.end, fun _ => True⟩
  | .reply150 c => some ⟨c.id, c.start, c.end, fun t =>
      ∃ t', t = some t' ∧ Filling c 0 [] t'⟩
  | .read c k => some ⟨c.id, c.start, c.end, fun t =>
      k < c.end - c.start ∧ ∃ t', t = some t' ∧ Filling c k [] t'⟩
  | .write c k data => some ⟨c.id, c.start, c.end, fun t =>
      ∃ t', t = some t' ∧ Filling c k data t'⟩
  | .reply226 c => some ⟨c.id, c.start, c.end, fun t =>
      ∃ t', t = some t' ∧ Marked clean ⟨c.start, c.end, .ready⟩ t'⟩
  | .markState c => some ⟨c.id, c.start, c.end, fun t =>
      ∃ t', t = some t' ∧ Marked clean ⟨c.start, c.end, .ready⟩ t'⟩
  | _ => none

/-- A worker at work on a segment holds it. -/
theorem call_of_doing (pc : Pc) (x : Doing DataConnection) (h : Pc.doing clean pc = some x) :
    pc.call = .holds x.id x.start x.stop := by
  cases pc <;> cases h <;> rfl

/-- The downloader as a client. -/
def client (clean : Prop) : Client DataConnection Pc where
  call := Pc.call
  doing := Pc.doing clean
  call_of_doing := call_of_doing

/-- The part of the state that a client has. -/
def snap (d : Download) : Snap DataConnection Pc := ⟨d.buf, d.workers, d.log⟩

/-- What the claim protocol sees of a download. -/
def view (clean : Prop) (d : Download) : Shared := (snap d).view (client clean)

/-! ## Steps are effects -/

/-- A move has nothing to do with the claims. -/
theorem moves_call (h : Moves pc pc') : pc'.call = pc.call := by
  cases h <;> rfl

/-- What a worker does, as the claims see it. -/
theorem calls_of (h : d.workers w = pc) :
    (client clean).call ((snap d).workers w) = pc.call := by
  show (d.workers w).call = pc.call
  rw [h]

/-- What a worker does, as the transfers see it. -/
theorem doing_of (h : d.workers w = pc) :
    (client clean).doing ((snap d).workers w) = Pc.doing clean pc := by
  show Pc.doing clean (d.workers w) = _
  rw [h]

/-- A move keeps what is known of the worker's transfer. -/
theorem moves_doing (hm : Moves pc pc')
    (hlt : ∀ c : Claim, pc.call = .holds c.id c.start c.end → c.start < c.end) :
    ∀ x', Pc.doing clean pc' = some x' → ∃ x, Pc.doing clean pc = some x ∧
      x'.id = x.id ∧ x'.start = x.start ∧ x'.stop = x.stop ∧ ∀ t, x.ok t → x'.ok t := by
  cases hm with
  | login => exact nofun
  | loggedIn => exact nofun
  | claim => exact nofun
  | again => exact nofun
  | rest => rintro x ⟨⟩; exact ⟨_, rfl, rfl, rfl, rfl, fun _ _ => trivial⟩
  | fromStart => rintro x ⟨⟩; exact ⟨_, rfl, rfl, rfl, rfl, fun _ _ => trivial⟩
  | rested => rintro x ⟨⟩; exact ⟨_, rfl, rfl, rfl, rfl, fun _ _ => trivial⟩
  | retr => rintro x ⟨⟩; exact ⟨_, rfl, rfl, rfl, rfl, fun _ _ => trivial⟩
  | first hpos => rintro x ⟨⟩; exact ⟨_, rfl, rfl, rfl, rfl, fun _ ht => ⟨hpos, ht⟩⟩
  | replied => rintro x ⟨⟩; exact ⟨_, rfl, rfl, rfl, rfl, fun _ ht => ht⟩
  | nothing hnone =>
      -- no segment is empty
      rintro x ⟨⟩
      have := hlt _ rfl
      omega

/-- At the head of the loop: there are bytes to come, or the segment is
    complete. -/
theorem doing_readLoop (c : Claim) (k : Nat) :
    ∃ ok', Pc.doing clean (readLoop c k) = some ⟨c.id, c.start, c.end, ok'⟩ ∧
      ∀ t, Filling c k [] t → ok' (some t) := by
  rw [readLoop]
  split
  next hlt => exact ⟨_, rfl, fun t ht => ⟨hlt, t, rfl, ht⟩⟩
  next hge =>
    refine ⟨_, rfl, fun t ht => ⟨t, rfl, ht.marked fun _ => ?_⟩⟩
    have := ht.le
    simp only [List.length_nil] at this
    omega

/-- What is known while bytes are at hand. -/
theorem filling_of_write {c : Claim} {k : Nat} {data : Bytes}
    (hlog : LogOk (client clean) (Marked clean) (snap d)) (hw : d.workers w = .write c k data) :
    c.start + k + data.length ≤ c.end := by
  obtain ⟨-, -, t, -, hf⟩ := hlog.working w _ (doing_of hw)
  exact hf.le

/-- **Steps are effects**: whatever a worker does is something a client may
    do.  Only the end of a data connection can leave a segment short. -/
theorem worked_effect {totalSize : Nat} (hb : BufferInv totalSize (view clean d))
    (hlog : LogOk (client clean) (Marked clean) (snap d)) (h : Worked d w input d')
    (hclean : clean → input ≠ .read (.ok [])) :
    Effect (client clean) (Marked clean) (snap d) w (snap d') := by
  cases h with
  | moved hm =>
      refine .quiet (moves_call hm) (moves_doing hm ?_)
      intro c hc
      exact (hb.claims.holds_le (w := w) hc).1
  | failed _ _ hc => exact .dropped hc rfl
  | exhausted hw hcas => exact .exhausted (calls_of hw) hcas rfl
  | cas hw hcas => exact .cas (calls_of hw) hcas rfl
  | push hw => exact .push (calls_of hw) rfl
  | opened hw =>
      refine .event (doing_of hw) nofun rfl ?_
      intro t _
      have hlt := (bounds_of_doing hb (doing_of hw)).1
      exact ⟨_, rfl, rfl, Nat.le_of_lt hlt, rfl⟩
  | received hw hlen =>
      refine .event (doing_of hw) nofun rfl ?_
      rintro t ⟨-, t', rfl, hf⟩
      exact ⟨_, rfl, hf.received hlen⟩
  | closedEarly hw =>
      refine .quiet (calls_of hw).symm ?_
      rintro x ⟨⟩
      refine ⟨_, doing_of hw, rfl, rfl, rfl, ?_⟩
      rintro t ⟨-, t', rfl, hf⟩
      exact ⟨t', rfl, hf.marked fun hc => absurd rfl (hclean hc)⟩
  | @wrote _ c k data b results hw hwrite =>
      have hle := filling_of_write hlog hw
      obtain ⟨ok', hdoing, hok⟩ := @doing_readLoop clean c (k + data.length)
      refine .wrote (doing_of hw) (Nat.le_add_right _ _) hle hwrite hdoing ?_
      rintro t ⟨t', rfl, hf⟩
      exact hok _ hf.wrote
  | wroteSome hw hwrite =>
      exact .wroteSome (doing_of hw) (Nat.le_add_right _ _) (filling_of_write hlog hw) hwrite rfl
  | ready hw => exact .ready (doing_of hw) rfl fun t ht => ht
  | unlisted hw hlen =>
      have hseg := seg_of_doing hb (doing_of hw)
      exact absurd (List.getElem?_eq_some_iff.mp hseg).1 (not_lt.mpr hlen)
  | counted hw => exact .counted (calls_of hw) rfl
  | finished hw => exact .quiet (calls_of hw).symm nofun
  | panicked _ _ =>
      cases hcl : (d.workers w).call.claim with
      | none => exact .dropped hcl rfl
      | some r =>
          exact .quiet (BlitzClaims.Call.eq_of_claim hcl).symm nofun

end BlitzFtpRuns
