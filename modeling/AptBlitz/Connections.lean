import AptBlitz.Buffer
import AptBlitz.Library.Runs
import AptBlitz.Library.Utf8

/-! # Which handler a connection gets

    `handle_connection` looks once at the bytes that have arrived, and hands
    the connection to `handle_connect_tunnel` if they begin with `CONNECT`.
    What the client sends arrives in pieces, and the look comes at any time
    after the first one.

    The decision is by the stream if and only if the seven bytes of a stream
    that begins with `CONNECT` are there when it is taken
    (`byStream_iff`). -/

namespace BlitzConnections

open Runs Utf8 BlitzBuffer

/-- Who gets the connection. -/
inductive Handler where
  /-- `handle_connect_tunnel` -/
  | tunnel
  /-- `serve_connection` -/
  | http
  deriving DecidableEq, Repr

/-- The seven bytes that are looked for. -/
def connect : Bytes := ascii "CONNECT".toList

/-- The buffer of seven bytes after `peek` has copied some to it. -/
def peekBuf (read : Bytes) : Bytes := read ++ List.replicate (7 - read.length) 0

/-- `handle_connection`, with what `peek` has copied; `none` for its error. -/
def handleConnection (peeked : Option Bytes) : Handler :=
  match peeked with
  | some read => if 7 ≤ read.length ∧ (peekBuf read).take 7 = connect then .tunnel else .http
  | none => .http

/-- A connection: what has arrived, the pieces that have not, and the handler
    once it is chosen. -/
structure Conn where
  received : Bytes
  coming : List Bytes
  handler : Option Handler
  deriving DecidableEq, Repr

/-- A piece arrives, or `peek` returns. -/
inductive Act where
  /-- the next piece arrives -/
  | deliver
  /-- `peek` returns -/
  | peek
  deriving DecidableEq, Repr

/-- `peek` waits for the first byte or the end of the stream, and copies seven
    bytes at most. -/
def step (c : Conn) : Act → Option Conn
  | .deliver =>
      match c.coming with
      | [] => none
      | piece :: coming => some { c with received := c.received ++ piece, coming := coming }
  | .peek =>
      if c.handler = none ∧ (c.received ≠ [] ∨ c.coming = []) then
        some { c with handler := some (handleConnection (some (c.received.take 7))) }
      else none

/-- Nothing has arrived. -/
def start (pieces : List Bytes) : Conn := ⟨[], pieces, none⟩

variable {stream read : Bytes} {pieces : List Bytes} {acts : List Act} {c c' : Conn} {act : Act}

/-! ## The decision -/

theorem length_connect : connect.length = 7 := rfl

/-- The choice goes by the first seven bytes. -/
theorem handleConnection_take :
    handleConnection (some (read.take 7)) = .tunnel ↔ connect <+: read := by
  rw [handleConnection]
  constructor
  · intro h
    split at h
    next hboth =>
      have hlen : 7 ≤ (read.take 7).length := hboth.1
      have htake := hboth.2
      rw [peekBuf, List.take_append_of_le_length hlen, List.take_take] at htake
      exact List.prefix_iff_eq_take.mpr htake.symm
    next => cases h
  · intro h
    have hlen : 7 ≤ read.length := h.length_le
    have htake : connect = read.take 7 := List.prefix_iff_eq_take.mp h
    rw [if_pos]
    rw [← htake]
    exact ⟨length_connect.ge, rfl⟩

/-! ## Runs -/

/-- What the client sends is what has arrived and what has not. -/
def Sends (stream : Bytes) (c : Conn) : Prop := c.received ++ c.coming.flatten = stream

/-- At the start everything is still to come. -/
theorem sends_start (h : pieces.flatten = stream) : Sends stream (start pieces) := h

/-- **Step**: what has arrived and what is to come are the stream. -/
theorem sends_step (h : Sends stream c) (hstep : step c act = some c') : Sends stream c' := by
  cases act with
  | deliver =>
      rw [step] at hstep
      split at hstep
      · cases hstep
      next piece coming hcoming =>
        cases hstep
        rw [Sends, hcoming, List.flatten_cons, ← List.append_assoc] at h
        exact h
  | peek =>
      rw [step] at hstep
      split at hstep
      · cases hstep
        exact h
      · cases hstep

/-- The handler, once chosen, is the one that the stream asks for. -/
def ByStream (stream : Bytes) (c : Conn) : Prop :=
  ∀ handler, c.handler = some handler → (handler = .tunnel ↔ connect <+: stream)

/-- If the stream begins with `CONNECT`, so much of it is there for `peek`. -/
def Sees (stream : Bytes) (c : Conn) (act : Act) : Prop :=
  act = .peek → connect <+: stream → 7 ≤ c.received.length

/-- What has arrived is the first part of the stream. -/
theorem received_isPrefix (h : Sends stream c) : c.received <+: stream := ⟨_, h⟩

/-- `peek` finds what the stream begins with, if it finds enough of it. -/
theorem connect_received_iff (h : Sends stream c) :
    (connect <+: c.received ↔ connect <+: stream) ↔
      (connect <+: stream → 7 ≤ c.received.length) := by
  constructor
  · intro hiff hstream
    exact (hiff.mpr hstream).length_le
  · intro hsees
    constructor
    · intro hreceived
      exact hreceived.trans (received_isPrefix h)
    · intro hstream
      exact List.prefix_of_prefix_length_le hstream (received_isPrefix h) (hsees hstream)

/-- **Step**: the choice is the stream's if and only if `peek` sees enough. -/
theorem byStream_step (h : Sends stream c) (hby : ByStream stream c)
    (hstep : step c act = some c') : Sees stream c act ↔ ByStream stream c' := by
  cases act with
  | deliver =>
      have hkeep : c'.handler = c.handler := by
        rw [step] at hstep
        split at hstep
        · cases hstep
        · cases hstep
          rfl
      refine iff_of_true ?_ ?_
      · intro hpeek
        cases hpeek
      · intro handler hhandler
        rw [hkeep] at hhandler
        exact hby handler hhandler
  | peek =>
      rw [step] at hstep
      split at hstep
      · cases hstep
        rw [Sees, ByStream]
        constructor
        · rintro hsees handler ⟨⟩
          rw [handleConnection_take]
          exact (connect_received_iff h).mpr (hsees rfl)
        · intro hnext _
          have hhandler := hnext _ rfl
          rw [handleConnection_take] at hhandler
          exact (connect_received_iff h).mp hhandler
      · cases hstep

/-- The client's first byte alone, and the look. -/
theorem peek_first {b : UInt8} {rest : Bytes} :
    run step (start ((b :: rest).map fun b => [b])) [.deliver, .peek]
      = some ⟨[b], rest.map fun b => [b], some .http⟩ := rfl

/-- **By the stream alone**: along a run every decision is the one that the
    stream asks for if and only if `peek` sees the seven bytes of a stream that
    begins with `CONNECT`; and all the ways that a stream can arrive have the
    same end if and only if it does not begin so. -/
theorem byStream_iff (stream : Bytes) :
    (∀ pieces acts c, pieces.flatten = stream → run step (start pieces) acts = some c →
        (Along step (Sees stream) (start pieces) acts ↔
          Always step (ByStream stream) (start pieces) acts)) ∧
      ((∀ pieces acts c, (∀ piece ∈ pieces, piece ≠ []) → pieces.flatten = stream →
          run step (start pieces) acts = some c → ByStream stream c) ↔
        ¬ connect <+: stream) := by
  have hexact : ∀ pieces acts c, pieces.flatten = stream → run step (start pieces) acts = some c →
      (Along step (Sees stream) (start pieces) acts ↔
        Always step (ByStream stream) (start pieces) acts) := by
    intro pieces acts c hpieces hrun
    refine along_iff_always (fun _ _ _ h _ hs => sends_step h hs)
      (fun _ _ _ h _ hby hs => byStream_step h hby hs) (sends_start hpieces) ?_
      (along_of_mem fun _ _ _ => trivial) hrun
    rintro handler ⟨⟩
  refine ⟨hexact, ?_, ?_⟩
  · -- byte by byte, the first one is all that there is to see
    intro hall hconnect
    cases stream with
    | nil => exact absurd (List.prefix_nil.mp hconnect) (by decide)
    | cons b rest =>
        have hby := hall ((b :: rest).map fun b => [b]) _ _ ?_ ?_ peek_first .http rfl
        · exact absurd (hby.mpr hconnect) (by decide)
        · intro piece hpiece
          obtain ⟨b', -, rfl⟩ := List.mem_map.mp hpiece
          exact List.cons_ne_nil _ _
        · rw [← List.flatMap_def]
          exact List.flatMap_singleton' _
  · intro hnot pieces acts c _ hpieces hrun
    have halong : Along step (Sees stream) (start pieces) acts :=
      along_of_mem fun _ _ _ _ hconnect => absurd hconnect hnot
    exact last_of_always ((hexact pieces acts c hpieces hrun).mp halong) hrun

section Examples

/-- One request, whole and in two segments. -/
theorem not_byStream_segments :
    (run step (start [ascii "CONNECT a:443".toList]) [.deliver, .peek]).map Conn.handler
        = some (some .tunnel) ∧
      (run step (start [ascii "CONN".toList, ascii "ECT a:443".toList])
          [.deliver, .peek, .deliver]).map Conn.handler = some (some .http) := by
  decide

end Examples

end BlitzConnections
