import AptBlitz.WaitConsumeRuns

/-! # Metering the workers

    HTTP and FTP workers that share the upstream bucket.  An HTTP worker pays
    for a slice of its chunk with `wait_consume` and then writes the slice;
    an FTP worker calls `try_consume` for what it has read, and writes it
    whatever the answer is.

    A worker that has paid and not yet written holds what it paid.  What the
    workers hold and have written is covered by what they have consumed, as
    long as no FTP worker is refused: `upstream_cap`. -/

namespace BlitzMetering

open BlitzBucketRuns BlitzWaitConsumeRuns Runs Ledger
open BlitzBucket hiding Act step start
open BlitzWaitConsume hiding Act step

/-- The variables of the loop in which `download_worker` writes a chunk. -/
structure HttpChunk where
  len : Nat
  chunkOffset : Nat
  remaining : Nat
  fileOffset : Nat
  /-- `end` -/
  stop : Nat
  deriving DecidableEq

namespace HttpChunk

/-- `end.saturating_sub(file_offset)`. -/
def bytesUntilEnd (c : HttpChunk) : Nat := c.stop - c.fileOffset

/-- `to_write`: what of the chunk fits the segment and the request. -/
def toWrite (c : HttpChunk) : Nat :=
  min (min c.remaining c.bytesUntilEnd) (c.len - c.chunkOffset)

/-- The slice has been written. -/
def advance (c : HttpChunk) (n : Nat) : HttpChunk :=
  { c with fileOffset := c.fileOffset + n, chunkOffset := c.chunkOffset + n,
           remaining := c.remaining - n }

end HttpChunk

/-- The variables of the loop in `download_range`. -/
structure FtpRange where
  size : Nat
  written : Nat
  deriving DecidableEq

/-- What `download_range` asks the data connection for. -/
def FtpRange.toRead (f : FtpRange) : Nat := min 65536 (f.size - f.written)

/-- Where a worker is.  Between chunks, and between ranges, it is idle. -/
inductive Worker where
  | idle
  /-- `while remaining > 0` -/
  | chunk (c : HttpChunk)
  /-- in `wait_consume(bytes)`, or out of it -/
  | waiting (c : HttpChunk) (bytes : Nat) (pc : WaitPc)
  /-- `while written < size` -/
  | range (f : FtpRange)
  /-- in `try_consume(n)` -/
  | trying (f : FtpRange) (n : Nat)
  /-- before `write_data`, with the answer -/
  | tried (f : FtpRange) (n : Nat) (ok : Bool)
  deriving DecidableEq

/-- The bucket, the workers, and two sums: the tokens for which `try_consume`
    has answered a worker `true`, and the bytes in the buffers. -/
structure Metered where
  shared : Shared
  workers : Nat → Worker
  consumed : Nat
  written : Nat

/-- The steps of the bucket and of the workers. -/
inductive Act where
  /-- a step of a thread in the bucket -/
  | bucket (act : BlitzBucket.Act)
  /-- a chunk comes out of the stream -/
  | chunk (w len fileOffset stop : Nat)
  /-- the head of the loop over a chunk -/
  | next (w : Nat)
  /-- `try_consume` has returned -/
  | result (w : Nat)
  | check (w : Nat) (cancelled : Bool)
  | wake (w : Nat)
  /-- `download_range` -/
  | range (w size : Nat)
  /-- the data connection gives `n` bytes -/
  | read (w n : Nat)
  /-- `write_data` has written `n` bytes, and returns -/
  | write (w n : Nat) (ok : Bool)
  /-- an error, a cancellation, or the end of the task -/
  | leave (w : Nat)
  deriving DecidableEq

namespace Metered

/-- Worker `w` goes on. -/
def goto (s : Metered) (w : Nat) (worker : Worker) : Metered :=
  { s with workers := Function.update s.workers w worker }

/-- Worker `w` calls `try_consume(n)`. -/
def call (s : Metered) (w n : Nat) (worker : Worker) : Metered :=
  { s with shared := s.shared.goto w (enter s.shared.bucket (.tryConsume n)) }.goto w worker

/-- `try_consume` has answered worker `w`. -/
def answer (s : Metered) (w n : Nat) (ok : Bool) (worker : Worker) : Metered :=
  { s with consumed := s.consumed + if ok then n else 0 }.goto w worker

/-- Worker `w` has written `n` bytes and goes on. -/
def write (s : Metered) (w n : Nat) (worker : Worker) : Metered :=
  { s with written := s.written + n }.goto w worker

end Metered

/-- A thread that works begins its calls itself. -/
def mayCall (s : Metered) : BlitzBucket.Act → Bool
  | .call w _ => s.workers w == .idle
  | _ => true

/-- A worker may leave anywhere but in a call of the bucket. -/
def Worker.mayLeave : Worker → Bool
  | .idle => false
  | .trying _ _ => false
  | .waiting _ _ (.first _) => false
  | .waiting _ _ (.ask _ _) => false
  | _ => true

/-- One step. -/
def step (s : Metered) : Act → Option Metered
  | .bucket act =>
      if mayCall s act then (BlitzBucket.step s.shared act).map fun shared => { s with shared }
      else none
  | .chunk w len fileOffset stop =>
      match s.workers w with
      | .idle =>
          if (s.shared.threads w).resting then
            some (s.goto w (.chunk ⟨len, 0, len, fileOffset, stop⟩))
          else none
      | _ => none
  | .next w =>
      match s.workers w with
      | .chunk c =>
          if 0 < c.remaining ∧ c.bytesUntilEnd ≠ 0 then
            some (s.call w c.toWrite (.waiting c c.toWrite (.first c.toWrite)))
          else some (s.goto w .idle)
      | _ => none
  | .result w =>
      match s.workers w, s.shared.threads w with
      | .waiting c bytes (.first n), .tried m ok =>
          some (s.answer w m ok (.waiting c bytes (afterFirst n ok)))
      | .waiting c bytes (.ask remaining delayMs), .tried m ok =>
          some (s.answer w m ok (.waiting c bytes (afterAsk remaining delayMs ok)))
      | .trying f n, .tried m ok => some (s.answer w m ok (.tried f n ok))
      | _, _ => none
  | .check w cancelled =>
      match s.workers w with
      | .waiting c bytes (.check remaining delayMs) =>
          if cancelled then some (s.goto w (.waiting c bytes (.returned false)))
          else some (s.goto w (.waiting c bytes (.sleep remaining delayMs)))
      | _ => none
  | .wake w =>
      match s.workers w with
      | .waiting c bytes (.sleep remaining delayMs) =>
          some (s.call w (batch remaining) (.waiting c bytes (.ask remaining delayMs)))
      | _ => none
  | .range w size =>
      match s.workers w with
      | .idle => if (s.shared.threads w).resting then some (s.goto w (.range ⟨size, 0⟩)) else none
      | _ => none
  | .read w n =>
      match s.workers w with
      | .range f =>
          if f.written < f.size ∧ n ≠ 0 then
            if n ≤ f.toRead then some (s.call w n (.trying f n)) else none
          else some (s.goto w .idle)
      | _ => none
  | .write w n ok =>
      match s.workers w with
      | .waiting c bytes (.returned true) =>
          if ok ∧ n = bytes then some (s.write w n (.chunk (c.advance bytes)))
          else if ok = false ∧ n ≤ bytes then some (s.write w n .idle)
          else none
      | .tried f m _ =>
          if ok ∧ n = m then some (s.write w n (.range { f with written := f.written + m }))
          else if ok = false ∧ n ≤ m then some (s.write w n .idle)
          else none
      | _ => none
  | .leave w => if (s.workers w).mayLeave then some (s.goto w .idle) else none

/-- Nobody works yet. -/
def start (maxTokens refillPerSec now : Nat) : Metered where
  shared := BlitzBucket.start maxTokens refillPerSec now
  workers := fun _ => .idle
  consumed := 0
  written := 0

/-! ## What a worker holds -/

variable {s s' : Metered} {a : Act} {w n remaining delayMs : Nat} {worker : Worker}

/-- What a call of `wait_consume(n)` has consumed and will not give back. -/
def paid (n : Nat) : WaitPc → Nat
  | .first _ => 0
  | .check remaining _ => n - remaining
  | .sleep remaining _ => n - remaining
  | .ask remaining _ => n - remaining
  | .returned ok => if ok then n else 0

/-- What a worker has paid for and not written. -/
def holds : Worker → Nat
  | .waiting _ n pc => paid n pc
  | .tried _ n ok => if ok then n else 0
  | _ => 0

/-- At the head of the loop all but the rest is paid. -/
theorem paid_loopHead (h : remaining ≤ n) : paid n (loopHead remaining delayMs) = n - remaining := by
  rw [loopHead]
  split
  next => rfl
  next hzero =>
    show n = n - remaining
    omega

/-- After the first try all or nothing is paid. -/
theorem paid_afterFirst (ok : Bool) : paid n (afterFirst n ok) = if ok then n else 0 := by
  cases ok with
  | true => rfl
  | false => exact (paid_loopHead (le_refl n)).trans (Nat.sub_self n)

/-- A batch that was taken is paid. -/
theorem paid_afterAsk (ok : Bool) (h : remaining ≤ n) : paid n (afterAsk remaining delayMs ok)
    = (n - remaining) + if ok then batch remaining else 0 := by
  have hbatch : batch remaining ≤ remaining := min_le_left ..
  cases ok with
  | true =>
      show paid n (loopHead (remaining - batch remaining) 1) = n - remaining + batch remaining
      rw [paid_loopHead ((Nat.sub_le ..).trans h)]
      omega
  | false => exact paid_loopHead h

/-- The thread of a worker in a call is in that call; and no FTP worker was
    refused. -/
def Fits : Worker → Pc → Prop
  | .waiting _ n pc, thread => Matches n pc thread
  | .trying _ n, thread => tryAmount thread = some n
  | .tried _ _ ok, _ => ok = true
  | _, _ => True

/-- Each worker fits its thread, and what was written and what is held was
    paid. -/
structure MeterInv (s : Metered) : Prop where
  fits : ∀ w, Fits (s.workers w) (s.shared.threads w)
  covers : Covers holds s.workers s.written s.consumed

/-- Worker `w` goes on, and with it at most its thread. -/
theorem MeterInv.move {shared : Shared} {consumed written : Nat} (h : MeterInv s)
    (hthreads : ∀ v, v ≠ w → shared.threads v = s.shared.threads v)
    (hfits : Fits worker (shared.threads w))
    (hmove : written + holds worker + s.consumed ≤ s.written + holds (s.workers w) + consumed) :
    MeterInv ⟨shared, Function.update s.workers w worker, consumed, written⟩ := by
  refine ⟨fun v => ?_, h.covers.update hmove⟩
  show Fits (Function.update s.workers w worker v) (shared.threads v)
  by_cases hv : v = w
  · subst hv
    rw [Function.update_self]
    exact hfits
  · rw [Function.update_of_ne hv, hthreads v hv]
    exact h.fits v

/-- A worker that goes on and holds no more. -/
theorem MeterInv.goto (h : MeterInv s) (hfits : Fits worker (s.shared.threads w))
    (hholds : holds worker ≤ holds (s.workers w)) : MeterInv (s.goto w worker) :=
  h.move (fun _ _ => rfl) hfits (by omega)

theorem MeterInv.call (h : MeterInv s) (hfits : ∀ t, tryAmount t = some n → Fits worker t)
    (hholds : holds worker ≤ holds (s.workers w)) : MeterInv (s.call w n worker) := by
  refine h.move (fun v hv => Function.update_of_ne hv ..) (hfits _ ?_) (by dsimp only; omega)
  exact (congrArg tryAmount (goto_self ..)).trans (tryAmount_enter ..)

theorem MeterInv.answer {m : Nat} {ok : Bool} (h : MeterInv s)
    (hfits : Fits worker (s.shared.threads w))
    (hholds : holds worker ≤ holds (s.workers w) + if ok then m else 0) :
    MeterInv (s.answer w m ok worker) :=
  h.move (fun _ _ => rfl) hfits (by dsimp only; omega)

/-- A worker that writes what it holds. -/
theorem MeterInv.write (h : MeterInv s) (hfits : Fits worker (s.shared.threads w))
    (hholds : n + holds worker ≤ holds (s.workers w)) : MeterInv (s.write w n worker) :=
  h.move (fun _ _ => rfl) hfits (by dsimp only; omega)

/-! ## Steps -/

/-- No `try_consume` of an FTP worker answers `false`. -/
def FtpPays (s : Metered) : Act → Prop
  | .result w => ∀ f n m, s.workers w = .trying f n → s.shared.threads w ≠ .tried m false
  | _ => True

/-- A step of the bucket that no worker's call is. -/
theorem fits_bucket {act : BlitzBucket.Act} {shared : Shared} (h : MeterInv s)
    (hmay : mayCall s act = true) (hs : BlitzBucket.step s.shared act = some shared) (w : Nat) :
    Fits (s.workers w) (shared.threads w) := by
  have hfits := h.fits w
  by_cases hidle : s.workers w = .idle
  · rw [hidle]
    trivial
  · -- only an idle worker may make a call of its own
    have hcall : isCallOf w act = false := by
      cases act with
      | call v op =>
          refine beq_eq_false_iff_ne.mpr ?_
          rintro rfl
          exact hidle (eq_of_beq hmay)
      | clock => rfl
      | go => rfl
    have hsame : tryAmount (shared.threads w) = tryAmount (s.shared.threads w) :=
      tryAmount_step hs hcall
    cases hworker : s.workers w with
    | waiting c n pc =>
        rw [hworker] at hfits
        cases pc with
        | first k => exact ⟨hfits.1, hsame.trans hfits.2⟩
        | ask r d => exact ⟨hfits.1, hsame.trans hfits.2⟩
        | check r d => exact hfits
        | sleep r d => exact hfits
        | returned ok => trivial
    | trying f n =>
        rw [hworker] at hfits
        exact hsame.trans hfits
    | tried f n ok =>
        rw [hworker] at hfits
        exact hfits
    | idle => trivial
    | chunk c => trivial
    | range f => trivial

/-- The fit of a worker that is known. -/
theorem MeterInv.fits_of (h : MeterInv s) (hw : s.workers w = worker) :
    Fits worker (s.shared.threads w) :=
  hw ▸ h.fits w

/-- An FTP worker whose answer counts holds what it took. -/
theorem meterInv_result (h : MeterInv s) (hpays : FtpPays s (.result w))
    (hs : step s (.result w) = some s') : MeterInv s' := by
  simp only [step] at hs
  split at hs
  next c bytes n m ok hw hthread =>
    cases hs
    obtain ⟨rfl, hamount⟩ := h.fits_of hw
    rw [hthread] at hamount
    obtain rfl : m = n := Option.some.inj hamount
    refine h.answer ?_ ?_
    · cases ok with
      | true => trivial
      | false => exact matches_loopHead (le_refl _)
    · rw [hw]
      show paid m (afterFirst m ok) ≤ 0 + _
      rw [paid_afterFirst, Nat.zero_add]
  next c bytes remaining delayMs m ok hw hthread =>
    cases hs
    obtain ⟨⟨-, hle⟩, hamount⟩ := h.fits_of hw
    rw [hthread] at hamount
    obtain rfl : m = batch remaining := Option.some.inj hamount
    refine h.answer ?_ ?_
    · cases ok with
      | true => exact matches_loopHead ((Nat.sub_le ..).trans hle)
      | false => exact matches_loopHead hle
    · rw [hw]
      exact (paid_afterAsk ok hle).le
  -- the answer that `download_range` does not look at
  next f n m ok hw hthread =>
    cases hs
    have hamount := h.fits_of hw
    rw [hthread] at hamount
    obtain rfl : m = n := Option.some.inj hamount
    refine h.answer ?_ ?_
    · cases ok with
      | true => rfl
      | false => exact absurd hthread (hpays f m m hw)
    · rw [hw]
      exact (Nat.zero_add _).ge
  next => exact nomatch hs

/-- A write of all that the worker holds, or one that fails on the way. -/
theorem meterInv_written {ok : Bool} {m : Nat} (h : MeterInv s) (hm : holds (s.workers w) = m)
    (hfits : Fits worker (s.shared.threads w)) (hnone : holds worker = 0)
    (hs : (if ok ∧ n = m then some (s.write w n worker)
      else if ok = false ∧ n ≤ m then some (s.write w n .idle) else none) = some s') :
    MeterInv s' := by
  split at hs
  next hall =>
    cases hs
    exact h.write hfits (by rw [hnone, hm]; exact hall.2.le)
  next =>
    split at hs
    next hsome =>
      cases hs
      exact h.write trivial (hm.symm ▸ hsome.2)
    next => exact nomatch hs

/-- A write. -/
theorem meterInv_write {ok : Bool} (h : MeterInv s) (hs : step s (.write w n ok) = some s') :
    MeterInv s' := by
  simp only [step] at hs
  split at hs
  next c bytes hw =>
    have hholds : holds (s.workers w) = bytes := by rw [hw]; rfl
    refine meterInv_written h hholds ?_ ?_ hs
    · trivial
    · rfl
  next f m ok' hw =>
    -- it writes only what it has been given the tokens for
    obtain rfl : ok' = true := h.fits_of hw
    have hholds : holds (s.workers w) = m := by rw [hw]; rfl
    refine meterInv_written h hholds ?_ ?_ hs
    · trivial
    · rfl
  next => exact nomatch hs

/-- **Step** of the bucket or of a worker. -/
theorem meterInv_step (h : MeterInv s) (hpays : FtpPays s a) (hs : step s a = some s') :
    MeterInv s' := by
  cases a with
  | bucket act =>
      simp only [step] at hs
      split at hs
      next hmay =>
        obtain ⟨shared, hshared, rfl⟩ := Option.map_eq_some_iff.mp hs
        have hfits := fits_bucket h hmay hshared
        exact ⟨hfits, h.covers⟩
      next => exact nomatch hs
  | chunk w len fileOffset stop =>
      simp only [step] at hs
      split at hs
      next =>
        split at hs
        · cases hs
          exact h.goto trivial (Nat.zero_le _)
        · exact nomatch hs
      next => exact nomatch hs
  | next w =>
      simp only [step] at hs
      split at hs
      next =>
        split at hs
        · cases hs
          -- the new call has consumed nothing yet
          exact h.call (fun t ht => ⟨rfl, ht⟩) (Nat.zero_le _)
        · cases hs
          exact h.goto trivial (Nat.zero_le _)
      next => exact nomatch hs
  | result w => exact meterInv_result h hpays hs
  | check w cancelled =>
      simp only [step] at hs
      split at hs
      next c bytes remaining delayMs hw =>
        have hfits := h.fits_of hw
        split at hs
        · cases hs
          exact h.goto trivial (Nat.zero_le _)
        · cases hs
          exact h.goto hfits (by rw [hw]; exact le_refl _)
      next => exact nomatch hs
  | wake w =>
      simp only [step] at hs
      split at hs
      next c bytes remaining delayMs hw =>
        have hfits := h.fits_of hw
        cases hs
        -- what earlier batches have consumed stays consumed
        exact h.call (fun t ht => ⟨hfits, ht⟩) (by rw [hw]; exact le_refl _)
      next => exact nomatch hs
  | range w size =>
      simp only [step] at hs
      split at hs
      next =>
        split at hs
        · cases hs
          exact h.goto trivial (Nat.zero_le _)
        · exact nomatch hs
      next => exact nomatch hs
  | read w n =>
      simp only [step] at hs
      split at hs
      next =>
        split at hs
        · split at hs
          · cases hs
            exact h.call (fun t ht => ht) (Nat.zero_le _)
          · exact nomatch hs
        · cases hs
          exact h.goto trivial (Nat.zero_le _)
      next => exact nomatch hs
  | write w n ok => exact meterInv_write h hs
  | leave w =>
      simp only [step] at hs
      split at hs
      · cases hs
        exact h.goto trivial (Nat.zero_le _)
      · exact nomatch hs

theorem meterInv_start (maxTokens refillPerSec now : Nat) :
    MeterInv (start maxTokens refillPerSec now) :=
  ⟨fun _ => trivial, covers_of_zero (fun _ => rfl) (le_refl 0)⟩

/-! ## Runs -/

/-- **The cap**: workers have written no more than they have consumed, in
    every run in which no FTP worker is refused. -/
theorem upstream_cap {maxTokens refillPerSec now : Nat} {acts : List Act}
    (hpays : Along step FtpPays (start maxTokens refillPerSec now) acts) :
    Always step (fun s => s.written ≤ s.consumed) (start maxTokens refillPerSec now) acts :=
  always_of_along (fun _ _ _ => meterInv_step) (fun _ h => h.covers.amount_le)
    (meterInv_start maxTokens refillPerSec now) hpays

section Examples

/-- An FTP worker is refused. -/
def refused (s : Metered) (w : Nat) : Bool :=
  match s.workers w, s.shared.threads w with
  | .trying _ _, .tried _ false => true
  | _, _ => false

/-- The answer of an FTP worker counts if it is not a refusal. -/
theorem ftpPays_iff (s : Metered) (w : Nat) : refused s w = false ↔ FtpPays s (.result w) := by
  rw [refused]
  split
  next f n m hw hthread =>
    refine iff_of_false nofun fun hpays => ?_
    exact hpays f n m hw hthread
  next hnot =>
    refine iff_of_true rfl fun f n m hw hthread => ?_
    exact hnot f n m hw hthread

instance (s : Metered) : ∀ a, Decidable (FtpPays s a)
  | .result w => decidable_of_iff _ (ftpPays_iff s w)
  | .bucket _ => isTrue trivial
  | .chunk _ _ _ _ => isTrue trivial
  | .next _ => isTrue trivial
  | .check _ _ => isTrue trivial
  | .wake _ => isTrue trivial
  | .range _ _ => isTrue trivial
  | .read _ _ => isTrue trivial
  | .write _ _ _ => isTrue trivial
  | .leave _ => isTrue trivial

/-- An HTTP worker writes a chunk of forty bytes; then an FTP worker reads
    forty, is given their tokens, and writes them. -/
def bothWrite : List Act :=
  [.chunk 0 40 0 100, .next 0, .bucket (.clock 0 0), .bucket (.go 0), .bucket (.go 0),
    .bucket (.go 0), .result 0, .write 0 40 true,
    .range 1 200, .read 1 40, .bucket (.clock 1 0), .bucket (.go 1), .bucket (.go 1),
    .bucket (.go 1), .result 1, .write 1 40 true]

theorem upstream_cap_http :
    (run step (start 100 100 0) bothWrite).any
        (fun s => s.written == 80 && s.consumed == 80) = true ∧
      Always step (fun s => s.written ≤ s.consumed) (start 100 100 0) bothWrite :=
  ⟨by decide, upstream_cap (by decide)⟩

/-- An FTP worker reads 150 bytes with a bucket of a hundred. -/
def ftpWrites : List Act :=
  [.range 0 200, .read 0 150, .bucket (.clock 0 0), .bucket (.go 0), .bucket (.go 0), .result 0,
    .write 0 150 true]

theorem upstream_cap_ftp :
    (run step (start 100 100 0) ftpWrites).any
      (fun s => s.written == 150 && s.consumed == 0) = true := by
  decide

end Examples

end BlitzMetering
