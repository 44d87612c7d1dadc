import AptBlitz.Library.FileContent
import AptBlitz.Library.Tiling

/-! # The disk-backed segment buffer

    `SegmentsBuffer` and its methods, as the code computes them.  Each method
    takes the buffer as it finds it and returns the buffer as it leaves it;
    methods that touch the shared state in more than one atomic step
    (`claim_range`: the `compare_exchange`, then the push under the lock;
    `mark_ready`: the state under the lock, then the counter) come in their
    steps first and whole afterwards.

    The mutexes around the vector and around each segment, and the atomics,
    are what makes the steps atomic; here the fields are plain values.  The
    backing file is the list of its bytes.  The notification channel only
    wakes sleeping streams, which also wake by themselves, and carries no
    state. -/

namespace BlitzBuffer

open FileContent

/-- A byte string. -/
abbrev Bytes := List UInt8

/-- The kinds of `io::ErrorKind` that occur. -/
inductive IoErrorKind where
  | writeZero
  | timedOut
  | unexpectedEof
  | other
  deriving DecidableEq, Repr

/-- An `io::Error`, by its kind and text. -/
structure IoError where
  kind : IoErrorKind
  msg : String
  deriving DecidableEq, Repr

/-- `SegState`. -/
inductive SegState where
  | downloading
  | ready
  deriving DecidableEq, Repr

/-- `Segment`; its mutex is held only for single reads and writes. -/
structure Segment where
  start : Nat
  «end» : Nat
  state : SegState
  deriving DecidableEq, Repr

/-- The offsets of a segment, as a half-open range. -/
def Segment.range (seg : Segment) : Nat × Nat := (seg.start, seg.end)

/-- `SegmentsBuffer`, with the backing file. -/
structure SegmentsBuffer where
  totalSize : Nat
  nextUnassigned : Nat
  segments : List Segment
  readyCount : Nat
  allAssigned : Bool
  failed : Bool
  file : Bytes
  deriving DecidableEq, Repr

namespace SegmentsBuffer

/-- `SegmentsBuffer::new`.  The callers have set the length of `file` to
    `totalSize` before. -/
def new (totalSize : Nat) (file : Bytes) : SegmentsBuffer where
  totalSize := totalSize
  nextUnassigned := 0
  segments := []
  readyCount := 0
  allAssigned := false
  failed := false
  file := file

/-- The ranges of the segments vector, in index order. -/
def ranges (b : SegmentsBuffer) : List (Nat × Nat) :=
  b.segments.map Segment.range

/-! ## Claiming -/

/-- The first atomic step of `claim_range`: the loop's last turn, whose load
    of `next_unassigned` and `compare_exchange` saw the same value (a failed
    `compare_exchange` changes nothing), or the turn that finds the file
    exhausted and stores `all_assigned`. -/
def claimCas (b : SegmentsBuffer) (preferredSize : Nat) :
    SegmentsBuffer × Option (Nat × Nat) :=
  if preferredSize = 0 then
    if b.nextUnassigned ≥ b.totalSize then
      ({ b with allAssigned := true }, none)
    else (b, none)
  else if b.nextUnassigned ≥ b.totalSize then
    ({ b with allAssigned := true }, none)
  else
    let current := b.nextUnassigned
    let size := min preferredSize (b.totalSize - current)
    let «end» := current + size
    ({ b with nextUnassigned := «end» }, some (current, «end»))

/-- The second atomic step of `claim_range`: under the `segments` lock, the
    claimed range becomes the last segment and its index the id. -/
def claimPush (b : SegmentsBuffer) (r : Nat × Nat) : SegmentsBuffer × Nat :=
  ({ b with segments := b.segments ++ [⟨r.1, r.2, .downloading⟩] },
    b.segments.length)

/-- `claim_range` with no other thread between its two steps. -/
def claimRange (b : SegmentsBuffer) (preferredSize : Nat) :
    SegmentsBuffer × Option (Nat × Nat × Nat) :=
  match b.claimCas preferredSize with
  | (b, none) => (b, none)
  | (b, some r) =>
      let (b, id) := b.claimPush r
      (b, some (id, r.1, r.2))

/-! ## Data -/

/-- The loop of `write_data` over the results of its `write_at` calls; `none`
    while a call has not returned.  The bytes not yet written come first, the
    file as it is left second. -/
def writeLoop (file : Bytes) (offset : Nat) :
    Bytes → List (Except IoError Nat) → Option (Except IoError Unit × Bytes)
  | [], _ => some (.ok (), file)
  | _ :: _, [] => none
  | _ :: _, .error e :: _ => some (.error e, file)
  | _ :: _, .ok 0 :: _ => some (.error ⟨.writeZero, "short write"⟩, file)
  | b :: rest, .ok (n + 1) :: results =>
      if n + 1 ≤ (b :: rest).length then
        writeLoop (overwrite 0 file offset ((b :: rest).take (n + 1)))
          (offset + (n + 1)) ((b :: rest).drop (n + 1)) results
      else none

/-- `write_data`. -/
def writeData (b : SegmentsBuffer) (offset : Nat) (data : Bytes)
    (results : List (Except IoError Nat)) :
    Option (Except IoError Unit × SegmentsBuffer) :=
  (writeLoop b.file offset data results).map fun (r, file) =>
    (r, { b with file := file })

/-- What the system call `read_at` may return for `len` bytes at `offset`: an
    error, or some of the bytes that are there. -/
def ReadAtMayReturn (b : SegmentsBuffer) (offset len : Nat) :
    Except IoError Nat → Prop
  | .error _ => True
  | .ok n => n ≤ len ∧ offset + n ≤ max offset b.file.length

instance (b : SegmentsBuffer) (offset len : Nat) (r : Except IoError Nat) :
    Decidable (b.ReadAtMayReturn offset len r) :=
  match r with
  | .error _ => isTrue trivial
  | .ok n => inferInstanceAs (Decidable (n ≤ len ∧ _))

/-- `read_data`, given what its `read_at` returned. -/
def readData (b : SegmentsBuffer) (offset len : Nat)
    (result : Except IoError Nat) : Option Bytes :=
  if len = 0 then some []
  else
    match result with
    | .error _ => none
    | .ok n => if n = 0 then none else some ((b.file.drop offset).take n)

/-! ## Readiness -/

/-- The first step of `mark_ready`, under the lock. -/
def setReady (b : SegmentsBuffer) (id : Nat) : SegmentsBuffer :=
  { b with segments := b.segments.modify id fun seg => { seg with state := .ready } }

/-- The second step of `mark_ready`: `ready_count.fetch_add(1)`. -/
def addReady (b : SegmentsBuffer) : SegmentsBuffer :=
  { b with readyCount := b.readyCount + 1 }

/-- `mark_ready` with no other thread between its two steps. -/
def markReady (b : SegmentsBuffer) (id : Nat) : SegmentsBuffer :=
  if id < b.segments.length then (b.setReady id).addReady else b

/-- `num_segments`. -/
def numSegments (b : SegmentsBuffer) : Nat := b.segments.length

/-- `is_ready`; an id that is not there is not ready. -/
def isReady (b : SegmentsBuffer) (id : Nat) : Bool :=
  match b.segments[id]? with
  | some seg => seg.state == .ready
  | none => false

/-- `segment_start`. -/
def segmentStart (b : SegmentsBuffer) (id : Nat) : Nat :=
  match b.segments[id]? with
  | some seg => seg.start
  | none => 0

/-- `segment_end`. -/
def segmentEnd (b : SegmentsBuffer) (id : Nat) : Nat :=
  match b.segments[id]? with
  | some seg => seg.end
  | none => b.totalSize

/-- `all_completed`. -/
def allCompleted (b : SegmentsBuffer) : Bool :=
  if !b.allAssigned then false
  else decide (b.readyCount ≥ b.segments.length)

/-- `set_failed`. -/
def setFailed (b : SegmentsBuffer) : SegmentsBuffer :=
  { b with failed := true }

/-- `is_failed`. -/
def isFailed (b : SegmentsBuffer) : Bool := b.failed

end SegmentsBuffer

open SegmentsBuffer

variable {b b' : SegmentsBuffer} {p id off : Nat} {r : Nat × Nat}
  {seg : Segment} {data : Bytes} {results : List (Except IoError Nat)}

/-! ## What the steps do -/

/-- The `compare_exchange` takes a non-empty range at `next_unassigned`,
    inside the file, and moves nothing else. -/
theorem claimCas_some (h : b.claimCas p = (b', some r)) :
    b' = { b with nextUnassigned := r.2 } ∧ r.1 = b.nextUnassigned ∧
      r.1 < r.2 ∧ r.2 ≤ b.totalSize := by
  rw [claimCas] at h
  by_cases hp : p = 0
  · rw [if_pos hp] at h
    split at h <;> cases h
  · rw [if_neg hp] at h
    by_cases hx : b.nextUnassigned ≥ b.totalSize
    · rw [if_pos hx] at h; cases h
    · rw [if_neg hx] at h
      cases h
      refine ⟨rfl, rfl, ?_, ?_⟩
      · show b.nextUnassigned < b.nextUnassigned + min p _
        omega
      · show b.nextUnassigned + min p _ ≤ b.totalSize
        omega

/-- A call that gets no range may only set `all_assigned`, and only once the
    whole file is assigned. -/
theorem claimCas_none (h : b.claimCas p = (b', none)) :
    b' = b ∨ (b' = { b with allAssigned := true } ∧
      b.totalSize ≤ b.nextUnassigned) := by
  rw [claimCas] at h
  by_cases hx : b.nextUnassigned ≥ b.totalSize
  · rw [if_pos hx, if_pos hx, ite_self] at h
    cases h
    exact Or.inr ⟨rfl, hx⟩
  · rw [if_neg hx, if_neg hx] at h
    split at h
    · cases h; exact Or.inl rfl
    · cases h

/-- With a positive preferred size, only an exhausted file gives no range. -/
theorem claimCas_none_pos (h : b.claimCas p = (b', none)) (hp : 0 < p) :
    b.totalSize ≤ b.nextUnassigned := by
  rw [claimCas] at h
  rw [if_neg (Nat.ne_of_gt hp)] at h
  split at h
  next hx => exact hx
  next => cases h

theorem length_ranges : b.ranges.length = b.segments.length := List.length_map ..

@[simp] theorem ranges_claimPush :
    (b.claimPush r).1.ranges = b.ranges ++ [r] := by
  simp [claimPush, ranges, Segment.range]

/-- Ranges do not change. -/
@[simp] theorem ranges_setReady : (b.setReady id).ranges = b.ranges := by
  apply List.ext_getElem?
  intro i
  simp only [setReady, ranges, List.getElem?_map, List.getElem?_modify]
  cases b.segments[i]? with
  | none => rfl
  | some seg => by_cases h : id = i <;> simp [h, Segment.range]

theorem getElem?_ranges (i : Nat) :
    b.ranges[i]? = b.segments[i]?.map Segment.range := List.getElem?_map

@[simp] theorem length_setReady :
    (b.setReady id).segments.length = b.segments.length := by
  simp [setReady]

theorem setReady_self (h : b.segments[id]? = some seg) :
    (b.setReady id).segments[id]? = some { seg with state := .ready } := by
  simp [setReady, h]

/-- The other segments stay as they are. -/
theorem setReady_of_ne {i : Nat} (h : i ≠ id) :
    (b.setReady id).segments[i]? = b.segments[i]? := by
  simp [setReady, Ne.symm h]

/-- A ready segment stays as it is under `mark_ready` of any segment. -/
theorem setReady_of_ready {i : Nat} (h : b.segments[i]? = some seg)
    (hr : seg.state = .ready) : (b.setReady id).segments[i]? = some seg := by
  by_cases hi : i = id
  · subst hi
    rw [setReady_self h, ← hr]
  · rw [setReady_of_ne hi, h]

/-- What `is_ready` says. -/
theorem isReady_iff :
    b.isReady id = true ↔ ∃ seg, b.segments[id]? = some seg ∧ seg.state = .ready := by
  rw [isReady]
  cases h : b.segments[id]? with
  | none => simp
  | some seg => simp

theorem allCompleted_iff :
    b.allCompleted = true ↔ b.allAssigned = true ∧ b.segments.length ≤ b.readyCount := by
  rw [allCompleted]
  cases b.allAssigned <;> simp

/-- **`write_data`** inside the file: on `Ok` all of `data` is in the file at
    `offset`, on `Err` some first part of it is; nothing else changed. -/
theorem writeLoop_spec {file file' : Bytes} {off : Nat} {r : Except IoError Unit} :
    ∀ {data : Bytes}, off + data.length ≤ file.length →
      writeLoop file off data results = some (r, file') →
      ∃ k, k ≤ data.length ∧ file' = overwrite 0 file off (data.take k) ∧
        (r = .ok () → k = data.length) := by
  induction results generalizing file off with
  | nil =>
      intro data _ h
      cases data with
      | nil =>
          cases h
          exact ⟨0, Nat.le_refl _, rfl, fun _ => rfl⟩
      | cons b rest => exact nomatch h
  | cons res results ih =>
      intro data hin h
      cases data with
      | nil =>
          cases h
          exact ⟨0, Nat.le_refl _, rfl, fun _ => rfl⟩
      | cons b rest =>
          cases res with
          | error e =>
              cases h
              exact ⟨0, Nat.zero_le _, rfl, fun hc => nomatch hc⟩
          | ok n =>
              cases n with
              | zero =>
                  cases h
                  exact ⟨0, Nat.zero_le _, rfl, fun hc => nomatch hc⟩
              | succ n =>
                  simp only [writeLoop] at h
                  by_cases hn : n + 1 ≤ (b :: rest).length
                  · rw [if_pos hn] at h
                    -- the turn wrote `n + 1` bytes; the rest is a shorter loop
                    generalize hd : b :: rest = data at h hin hn
                    have hlen : (data.take (n + 1)).length = n + 1 := by
                      rw [List.length_take]; omega
                    have hin₁ : off + (data.take (n + 1)).length ≤ file.length := by
                      omega
                    obtain ⟨k, hk, hfile, hok⟩ := ih
                      (by rw [length_overwrite hin₁, List.length_drop]; omega) h
                    rw [List.length_drop] at hk hok
                    have htake : data.take (n + 1 + k)
                        = data.take (n + 1) ++ (data.drop (n + 1)).take k :=
                      List.take_add
                    refine ⟨n + 1 + k, by omega, ?_, fun hr => ?_⟩
                    · have hboth : off + (data.take (n + 1)
                          ++ (data.drop (n + 1)).take k).length ≤ file.length := by
                        rw [← htake, List.length_take]; omega
                      rw [hfile, htake, ← overwrite_append hboth, hlen]
                    · have := hok hr
                      omega
                  · rw [if_neg hn] at h
                    exact nomatch h

/-- `write_data` touches the file only. -/
theorem writeData_file {r : Except IoError Unit}
    (h : b.writeData off data results = some (r, b')) :
    ∃ file, b' = { b with file := file } := by
  rw [writeData] at h
  obtain ⟨⟨r₀, file⟩, -, heq⟩ := Option.map_eq_some_iff.mp h
  cases heq
  exact ⟨file, rfl⟩

/-- `writeLoop_spec` for the whole buffer. -/
theorem writeData_spec {r : Except IoError Unit}
    (hin : off + data.length ≤ b.file.length)
    (h : b.writeData off data results = some (r, b')) :
    ∃ k, k ≤ data.length ∧
      b' = { b with file := overwrite 0 b.file off (data.take k) } ∧
      (r = .ok () → k = data.length) := by
  rw [writeData] at h
  obtain ⟨⟨r₀, file⟩, hloop, heq⟩ := Option.map_eq_some_iff.mp h
  obtain ⟨k, hk, hfile, hok⟩ := writeLoop_spec hin hloop
  cases heq
  exact ⟨k, hk, by rw [hfile], hok⟩

/-- One `write_at` that takes everything. -/
theorem writeData_whole {n : Nat} (h : data.length = n) (hpos : 0 < n) :
    b.writeData off data [.ok n]
      = some (.ok (), { b with file := overwrite 0 b.file off data }) := by
  cases data with
  | nil =>
      rw [← h] at hpos
      exact absurd hpos (Nat.lt_irrefl 0)
  | cons x rest =>
      subst h
      have htake : (x :: rest).take (rest.length + 1) = x :: rest := List.take_of_length_le (Nat.le_refl _)
      have hdrop : (x :: rest).drop (rest.length + 1) = [] := List.drop_of_length_le (Nat.le_refl _)
      simp only [writeData, List.length_cons, writeLoop, Nat.le_refl, if_true, htake, hdrop,
        Option.map_some]

end BlitzBuffer
