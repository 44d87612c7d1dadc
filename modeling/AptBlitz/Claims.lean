import Mathlib.Data.Finset.Card
import Mathlib.Data.Finset.Range
import AptBlitz.Buffer
import AptBlitz.Library.Runs

/-! # The claim protocol of the segment buffer

    What the threads that share a `SegmentsBuffer` may do to it: call
    `claim_range`, write inside the range they hold, and `mark_ready` it, at
    most once, each call in the atomic steps the code takes.  Any number of
    threads, in any order.

    The HTTP downloader and the FTP downloader are both clients of this
    protocol; what holds of every run here holds of the buffer of theirs.
    `ClaimInv` is its invariant.  Its core is that the pushed segments
    together with the claims still between their two steps tile
    `[0, next_unassigned)`. -/

namespace BlitzClaims

open BlitzBuffer SegmentsBuffer Runs Tiling

/-- Where a thread is in its use of the buffer. -/
inductive Call where
  /-- not in a call, holding nothing -/
  | idle
  /-- inside `claim_range`, after the `compare_exchange`, before the push -/
  | claimed (start stop : Nat)
  /-- `claim_range` returned `(id, start, stop)`; the segment is not ready -/
  | holds (id start stop : Nat)
  /-- inside `mark_ready(id)`, after the state, before the counter -/
  | marking (id : Nat)
  deriving DecidableEq, Repr

/-- The range a thread has taken and not pushed. -/
def Call.claim : Call → Option (Nat × Nat)
  | .claimed a z => some (a, z)
  | _ => none

theorem Call.eq_of_claim {c : Call} {r : Nat × Nat} (h : c.claim = some r) :
    c = .claimed r.1 r.2 := by
  cases c <;> cases h
  rfl

/-- The segment a thread is responsible for. -/
def Call.seg : Call → Option Nat
  | .holds id _ _ => some id
  | .marking id => some id
  | _ => none

/-- The buffer and its threads. -/
structure Shared where
  buf : SegmentsBuffer
  calls : Nat → Call

/-- What a thread does next. -/
inductive Op where
  | cas (preferredSize : Nat)
  | push
  | write (offset : Nat) (data : Bytes)
  | setReady
  | addReady
  /-- the thread gives its segment up: it will never be marked -/
  | abandon
  | setFailed
  deriving DecidableEq, Repr

/-- The state of the thread `w` becomes `c`, that of the buffer `b`. -/
def Shared.put (s : Shared) (b : SegmentsBuffer) (w : Nat) (c : Call) : Shared :=
  ⟨b, Function.update s.calls w c⟩

@[simp] theorem put_buf (s : Shared) (b : SegmentsBuffer) (w : Nat) (c : Call) :
    (s.put b w c).buf = b := rfl

@[simp] theorem put_calls_self (s : Shared) (b : SegmentsBuffer) (w : Nat) (c : Call) :
    (s.put b w c).calls w = c := Function.update_self ..

@[simp] theorem put_put (s : Shared) (b b' : SegmentsBuffer) (w : Nat) (c c' : Call) :
    (s.put b w c).put b' w c' = s.put b' w c' := by
  simp only [Shared.put]
  rw [Function.update_idem]

theorem put_self {s : Shared} {w : Nat} {c : Call} (h : c = s.calls w) :
    s.put s.buf w c = s := by
  rw [Shared.put]
  rw [h, Function.update_eq_self]

/-- The other threads stay where they are. -/
theorem put_calls_of_ne {s : Shared} {b : SegmentsBuffer} {v w : Nat} {c : Call}
    (h : v ≠ w) : (s.put b w c).calls v = s.calls v := Function.update_of_ne h ..

/-- One atomic step of thread `w`. -/
def threadStep (s : Shared) (w : Nat) (op : Op) : Option Shared :=
  match s.calls w, op with
  | c, .setFailed => some (s.put s.buf.setFailed w c)
  | .idle, .cas p =>
      match s.buf.claimCas p with
      | (b, none) => some (s.put b w .idle)
      | (b, some r) => some (s.put b w (.claimed r.1 r.2))
  | .claimed a z, .push =>
      let (b, id) := s.buf.claimPush (a, z)
      some (s.put b w (.holds id a z))
  | .holds id a z, .write off data =>
      if a ≤ off ∧ off + data.length ≤ z then
        some (s.put { s.buf with file := FileContent.overwrite 0 s.buf.file off data } w
          (.holds id a z))
      else none
  | .holds id _ _, .setReady => some (s.put (s.buf.setReady id) w (.marking id))
  | .marking _, .addReady => some (s.put s.buf.addReady w .idle)
  | .holds _ _ _, .abandon => some (s.put s.buf w .idle)
  | .marking _, .abandon => some (s.put s.buf w .idle)
  | _, _ => none

/-- An action names the thread and what it does. -/
def step (s : Shared) (act : Nat × Op) : Option Shared :=
  threadStep s act.1 act.2

/-- A new buffer, no thread in a call. -/
def start (totalSize : Nat) (file : Bytes) : Shared where
  buf := new totalSize file
  calls := fun _ => .idle

/-- What a step of thread `w` can be, with everything it does. -/
inductive Stepped (s : Shared) (w : Nat) : Op → Shared → Prop
  | exhausted {p b} (hw : s.calls w = .idle)
      (hb : b = s.buf ∨ (b = { s.buf with allAssigned := true } ∧
        s.buf.totalSize ≤ s.buf.nextUnassigned)) :
      Stepped s w (.cas p) (s.put b w .idle)
  | cas {p : Nat} {r : Nat × Nat} (hw : s.calls w = .idle) (hr : r.1 = s.buf.nextUnassigned)
      (hlt : r.1 < r.2) (hle : r.2 ≤ s.buf.totalSize) :
      Stepped s w (.cas p)
        (s.put { s.buf with nextUnassigned := r.2 } w (.claimed r.1 r.2))
  | push {a z} (hw : s.calls w = .claimed a z) :
      Stepped s w .push
        (s.put (s.buf.claimPush (a, z)).1 w (.holds s.buf.segments.length a z))
  | write {id a z off data} (hw : s.calls w = .holds id a z) (hlo : a ≤ off)
      (hhi : off + data.length ≤ z) :
      Stepped s w (.write off data)
        (s.put { s.buf with file := FileContent.overwrite 0 s.buf.file off data } w
          (.holds id a z))
  | setReady {id a z} (hw : s.calls w = .holds id a z) :
      Stepped s w .setReady (s.put (s.buf.setReady id) w (.marking id))
  | addReady {id} (hw : s.calls w = .marking id) :
      Stepped s w .addReady (s.put s.buf.addReady w .idle)
  | abandon (hw : (s.calls w).seg ≠ none) :
      Stepped s w .abandon (s.put s.buf w .idle)
  | setFailed : Stepped s w .setFailed (s.put s.buf.setFailed w (s.calls w))

/-- `threadStep` does nothing but this. -/
theorem stepped_of_threadStep {s s' : Shared} {w : Nat} {op : Op}
    (h : threadStep s w op = some s') : Stepped s w op s' := by
  simp only [threadStep] at h
  split at h
  next =>
    cases h
    exact .setFailed
  next p hw =>
    split at h
    next b hc =>
      cases h
      exact .exhausted hw (claimCas_none hc)
    next b r hc =>
      cases h
      obtain ⟨hb, hr, hlt, hle⟩ := claimCas_some hc
      subst hb
      exact .cas hw hr hlt hle
  next a z hw =>
    cases h
    exact .push hw
  next id a z off data hw =>
    split at h
    next hin =>
      cases h
      exact .write hw hin.1 hin.2
    next => exact nomatch h
  next id a z hw =>
    cases h
    exact .setReady hw
  next id hw =>
    cases h
    exact .addReady hw
  next id a z hw =>
    cases h
    exact .abandon (by rw [hw]; exact nofun)
  next id hw =>
    cases h
    exact .abandon (by rw [hw]; exact nofun)
  next => exact nomatch h

/-! ## Making a step -/

section

variable {s : Shared} {b : SegmentsBuffer} {w p id a z off : Nat} {r : Nat × Nat}
  {data : Bytes}

attribute [local simp] threadStep

theorem threadStep_exhausted (hw : s.calls w = .idle) (h : s.buf.claimCas p = (b, none)) :
    threadStep s w (.cas p) = some (s.put b w .idle) := by
  simp [hw, h]

theorem threadStep_cas (hw : s.calls w = .idle) (h : s.buf.claimCas p = (b, some r)) :
    threadStep s w (.cas p) = some (s.put b w (.claimed r.1 r.2)) := by
  simp [hw, h]

/-- The claimed range becomes a segment. -/
theorem threadStep_push (hw : s.calls w = .claimed a z) :
    threadStep s w .push
      = some (s.put (s.buf.claimPush (a, z)).1 w (.holds s.buf.segments.length a z)) := by
  simp [hw, claimPush]

/-- A write inside the thread's own segment. -/
theorem threadStep_write (hw : s.calls w = .holds id a z) (hlo : a ≤ off)
    (hhi : off + data.length ≤ z) :
    threadStep s w (.write off data)
      = some (s.put { s.buf with file := FileContent.overwrite 0 s.buf.file off data } w
        (.holds id a z)) := by
  simp [hw, hlo, hhi]

theorem threadStep_setReady (hw : s.calls w = .holds id a z) :
    threadStep s w .setReady = some (s.put (s.buf.setReady id) w (.marking id)) := by
  simp [hw]

theorem threadStep_addReady (hw : s.calls w = .marking id) :
    threadStep s w .addReady = some (s.put s.buf.addReady w .idle) := by
  simp [hw]

/-- A thread that holds a segment may give it up. -/
theorem threadStep_put_abandon :
    threadStep (s.put b w (.holds id a z)) w .abandon = some (s.put b w .idle) := by
  simp

theorem threadStep_setFailed :
    threadStep s w .setFailed = some { s with buf := s.buf.setFailed } := by
  simp [Shared.put]

/-- A thread may always stop where it is, unless it has a range to push. -/
theorem threadStep_giveUp (hw : (s.calls w).claim = none) :
    s.put s.buf w .idle = s ∨ threadStep s w .abandon = some (s.put s.buf w .idle) := by
  cases hc : s.calls w with
  | idle =>
      refine Or.inl ?_
      rw [Shared.put]
      rw [← hc, Function.update_eq_self]
  | claimed a z => rw [hc] at hw; exact nomatch hw
  | holds id a z => exact Or.inr (by simp [hc])
  | marking id => exact Or.inr (by simp [hc])

end

/-! ## Whole calls

    A `claim_range` whose two steps nothing comes between. -/

/-- Thread `w` calls `claim_range` and it returns, in one step. -/
def claimWhole (s : Shared) (w preferredSize : Nat) : Option Shared :=
  match s.calls w with
  | .idle =>
      match s.buf.claimRange preferredSize with
      | (b, none) => some (s.put b w .idle)
      | (b, some (id, a, z)) => some (s.put b w (.holds id a z))
  | _ => none

/-- What a whole call can be. -/
inductive Claimed (s : Shared) (w : Nat) : Shared → Prop
  | exhausted {b} (hw : s.calls w = .idle)
      (hb : b = s.buf ∨ (b = { s.buf with allAssigned := true } ∧
        s.buf.totalSize ≤ s.buf.nextUnassigned)) :
      Claimed s w (s.put b w .idle)
  | range {r : Nat × Nat} (hw : s.calls w = .idle) (hr : r.1 = s.buf.nextUnassigned)
      (hlt : r.1 < r.2) (hle : r.2 ≤ s.buf.totalSize) :
      Claimed s w (s.put (({ s.buf with nextUnassigned := r.2 } : SegmentsBuffer).claimPush r).1
        w (.holds s.buf.segments.length r.1 r.2))

/-- A whole claim does nothing but this. -/
theorem claimed_of_claimWhole {s s' : Shared} {w p : Nat}
    (h : claimWhole s w p = some s') : Claimed s w s' := by
  rw [claimWhole, claimRange] at h
  split at h
  next hw =>
    cases hc : s.buf.claimCas p with
    | mk b o =>
        rw [hc] at h
        cases o with
        | none =>
            cases h
            exact .exhausted hw (claimCas_none hc)
        | some r =>
            cases h
            obtain ⟨hb, hr, hlt, hle⟩ := claimCas_some hc
            subst hb
            exact .range hw hr hlt hle
  next => exact nomatch h

/-! ## Who owns which range -/

/-- The owners of ranges: a pushed segment owns its range, a thread inside
    `claim_range` the range it has taken. -/
def owners (s : Shared) : Nat ⊕ Nat → Option (Nat × Nat)
  | .inl i => s.buf.ranges[i]?
  | .inr w => (s.calls w).claim

/-- A step that neither pushes nor claims leaves all owners alone. -/
theorem owners_put {s : Shared} {b : SegmentsBuffer} {w : Nat} {c : Call}
    (hb : b.ranges = s.buf.ranges) (hc : c.claim = (s.calls w).claim) :
    owners (s.put b w c) = owners s := by
  funext o
  cases o with
  | inl i =>
      show b.ranges[i]? = s.buf.ranges[i]?
      rw [hb]
  | inr v =>
      show ((s.put b w c).calls v).claim = (s.calls v).claim
      by_cases hv : v = w
      · subst hv
        rw [put_calls_self, hc]
      · rw [put_calls_of_ne hv]

/-- What a thread owns after its step is what its call then claims. -/
theorem owners_put_thread {s : Shared} {b : SegmentsBuffer} {w v : Nat} {c : Call} :
    owners (s.put b w c) (.inr v) = Function.update (owners s) (.inr w) c.claim (.inr v) := by
  show ((s.put b w c).calls v).claim = _
  by_cases hv : v = w
  · subst hv
    rw [put_calls_self, Function.update_self]
  · have hne : (Sum.inr v : Nat ⊕ Nat) ≠ .inr w := fun h => hv (Sum.inr.inj h)
    rw [put_calls_of_ne hv, Function.update_of_ne hne]
    rfl

/-- The `compare_exchange` gives its thread a range. -/
theorem owners_cas {s : Shared} {w : Nat} {r : Nat × Nat} :
    owners (s.put { s.buf with nextUnassigned := r.2 } w (.claimed r.1 r.2))
      = Function.update (owners s) (.inr w) (some r) := by
  funext o
  cases o with
  | inl i =>
      rw [Function.update_of_ne (by exact nofun)]
      rfl
  | inr v => exact owners_put_thread

/-- The push moves the range from the thread to the new segment. -/
theorem owners_push {s : Shared} {w a z : Nat} (hw : s.calls w = .claimed a z) :
    owners (s.put (s.buf.claimPush (a, z)).1 w (.holds s.buf.segments.length a z))
      = Function.update (Function.update (owners s) (.inr w) none)
          (.inl s.buf.segments.length) (owners s (.inr w)) := by
  have hlen : s.buf.ranges.length = s.buf.segments.length := List.length_map ..
  funext o
  cases o with
  | inl i =>
      show (s.buf.claimPush (a, z)).1.ranges[i]? = _
      rw [ranges_claimPush]
      -- the new id is the length of the vector before the push
      by_cases hi : i = s.buf.segments.length
      · subst hi
        rw [Function.update_self, List.getElem?_append_right (by omega), hlen,
          Nat.sub_self]
        show some (a, z) = (s.calls w).claim
        rw [hw]
        rfl
      · rw [Function.update_of_ne (by intro h; exact hi (Sum.inl.inj h)),
          Function.update_of_ne (by exact nofun)]
        show (s.buf.ranges ++ [(a, z)])[i]? = s.buf.ranges[i]?
        by_cases hlt : i < s.buf.segments.length
        · rw [List.getElem?_append_left (by omega)]
        · rw [List.getElem?_eq_none (by
              rw [List.length_append, List.length_singleton]; omega),
            List.getElem?_eq_none (by omega)]
  | inr v =>
      rw [Function.update_of_ne (by exact nofun)]
      exact owners_put_thread

/-! ## The invariant -/

/-- What holds in every reachable state of the protocol. -/
structure ClaimInv (s : Shared) : Prop where
  next_le : s.buf.nextUnassigned ≤ s.buf.totalSize
  tiles : Tiles (owners s) 0 s.buf.nextUnassigned
  holds_seg : ∀ w id a z, s.calls w = .holds id a z →
    s.buf.segments[id]? = some ⟨a, z, .downloading⟩
  marking_seg : ∀ w id, s.calls w = .marking id →
    ∃ seg, s.buf.segments[id]? = some seg ∧ seg.state = .ready
  one_call : ∀ v w id, (s.calls v).seg = some id → (s.calls w).seg = some id → v = w
  /-- `ready_count` counts ready segments whose `mark_ready` is over -/
  counted : ∃ C : Finset Nat, C.card = s.buf.readyCount ∧ ∀ id ∈ C,
    (∃ seg, s.buf.segments[id]? = some seg ∧ seg.state = .ready) ∧
      ∀ w, (s.calls w).seg ≠ some id
  assigned : s.buf.allAssigned = true → s.buf.totalSize ≤ s.buf.nextUnassigned

/-- At the start. -/
theorem claimInv_start (totalSize : Nat) (file : Bytes) :
    ClaimInv (start totalSize file) where
  next_le := Nat.zero_le _
  tiles := Tiles.empty fun o => by cases o <;> rfl
  holds_seg _ _ _ _ h := nomatch h
  marking_seg _ _ h := nomatch h
  one_call _ _ _ h := nomatch h
  counted := ⟨∅, rfl, fun _ h => absurd h (Finset.notMem_empty _)⟩
  assigned h := nomatch h

variable {s s' : Shared} {w : Nat} {op : Op}

/-- A thread's segment is in the vector. -/
theorem ClaimInv.seg_lt (h : ClaimInv s) {id : Nat}
    (hw : (s.calls w).seg = some id) : id < s.buf.segments.length := by
  cases hc : s.calls w with
  | idle => rw [hc] at hw; exact nomatch hw
  | claimed a z => rw [hc] at hw; exact nomatch hw
  | holds i a z =>
      rw [hc] at hw
      cases hw
      exact (List.getElem?_eq_some_iff.mp (h.holds_seg w _ a z hc)).1
  | marking i =>
      rw [hc] at hw
      cases hw
      obtain ⟨seg, hseg, -⟩ := h.marking_seg w _ hc
      exact (List.getElem?_eq_some_iff.mp hseg).1

/-- The steps that change neither the vector nor the counters nor who is
    responsible for what: the thread stays with its segment or lets it go. -/
theorem ClaimInv.put_quiet (h : ClaimInv s) {b : SegmentsBuffer} {c : Call}
    (hseg : b.segments = s.buf.segments)
    (hnext : b.nextUnassigned = s.buf.nextUnassigned)
    (hsize : b.totalSize = s.buf.totalSize)
    (hready : b.readyCount = s.buf.readyCount)
    (hassigned : b.allAssigned = true → s.buf.totalSize ≤ s.buf.nextUnassigned)
    (hcl : c.claim = (s.calls w).claim)
    (hc : c = s.calls w ∨ c = .idle) : ClaimInv (s.put b w c) := by
  -- no thread gains a state it was not in
  have hcall : ∀ {v d}, (s.put b w c).calls v = d → d ≠ .idle → s.calls v = d := by
    intro v d hv hd
    by_cases hvw : v = w
    · subst hvw
      rw [put_calls_self] at hv
      rcases hc with heq | heq
      · exact heq.symm.trans hv
      · exact absurd (hv.symm.trans heq) hd
    · rwa [put_calls_of_ne hvw] at hv
  have hsegs : ∀ {v id}, ((s.put b w c).calls v).seg = some id →
      (s.calls v).seg = some id := by
    intro v id hv
    have hne : (s.put b w c).calls v ≠ .idle := by
      intro hi; rw [hi] at hv; exact nomatch hv
    rw [hcall rfl hne]
    exact hv
  refine ⟨?_, ?_, ?_, ?_, ?_, ?_, ?_⟩
  · rw [put_buf, hnext, hsize]; exact h.next_le
  · rw [owners_put (by unfold ranges; rw [hseg]) hcl, put_buf, hnext]
    exact h.tiles
  · intro v id a z hv
    rw [put_buf, hseg]
    exact h.holds_seg v id a z (hcall hv nofun)
  · intro v id hv
    rw [put_buf, hseg]
    exact h.marking_seg v id (hcall hv nofun)
  · intro u v id hu hv
    exact h.one_call u v id (hsegs hu) (hsegs hv)
  · obtain ⟨C, hcard, hC⟩ := h.counted
    refine ⟨C, by rw [put_buf, hready]; exact hcard, ?_⟩
    intro id hid
    obtain ⟨hs, hno⟩ := hC id hid
    exact ⟨by rw [put_buf, hseg]; exact hs, fun v hv => hno v (hsegs hv)⟩
  · rw [put_buf, hnext, hsize]
    exact hassigned

/-- The `compare_exchange` keeps the invariant. -/
theorem ClaimInv.put_cas (h : ClaimInv s) {r : Nat × Nat} (hw : s.calls w = .idle)
    (hr : r.1 = s.buf.nextUnassigned) (hlt : r.1 < r.2)
    (hle : r.2 ≤ s.buf.totalSize) :
    ClaimInv (s.put { s.buf with nextUnassigned := r.2 } w (.claimed r.1 r.2)) := by
  have hsegs : ∀ {v id},
      ((s.put { s.buf with nextUnassigned := r.2 } w (.claimed r.1 r.2)).calls v).seg
        = some id → (s.calls v).seg = some id := by
    intro v id hv
    by_cases hvw : v = w
    · subst hvw; rw [put_calls_self] at hv; exact nomatch hv
    · rwa [put_calls_of_ne hvw] at hv
  refine ⟨hle, ?_, ?_, ?_, ?_, ?_, ?_⟩
  · rw [owners_cas, put_buf]
    -- the claim extends the tiling at its end, where the counter stood
    have hfree : owners s (.inr w) = none := by
      show (s.calls w).claim = none
      rw [hw]; rfl
    have hpair : r = (s.buf.nextUnassigned, r.2) := by rw [← hr]
    have := h.tiles.extend hfree (Nat.zero_le _) (hr ▸ hlt)
    rw [← hpair] at this
    exact this
  · intro v id a z hv
    by_cases hvw : v = w
    · subst hvw; rw [put_calls_self] at hv; exact nomatch hv
    · rw [put_calls_of_ne hvw] at hv
      exact h.holds_seg v id a z hv
  · intro v id hv
    by_cases hvw : v = w
    · subst hvw; rw [put_calls_self] at hv; exact nomatch hv
    · rw [put_calls_of_ne hvw] at hv
      exact h.marking_seg v id hv
  · intro u v id hu hv
    exact h.one_call u v id (hsegs hu) (hsegs hv)
  · obtain ⟨C, hcard, hC⟩ := h.counted
    refine ⟨C, hcard, fun id hid => ⟨(hC id hid).1, fun v hv => ?_⟩⟩
    exact (hC id hid).2 v (hsegs hv)
  · intro ha
    have := h.assigned ha
    have := h.next_le
    show s.buf.totalSize ≤ r.2
    omega

/-- The push keeps the invariant: the new id is nobody's yet. -/
theorem ClaimInv.put_push (h : ClaimInv s) {a z : Nat} (hw : s.calls w = .claimed a z) :
    ClaimInv (s.put (s.buf.claimPush (a, z)).1 w
      (.holds s.buf.segments.length a z)) := by
  have hold : ∀ {i : Nat} {seg}, s.buf.segments[i]? = some seg →
      (s.buf.claimPush (a, z)).1.segments[i]? = some seg := by
    intro i seg hi
    have hlt := (List.getElem?_eq_some_iff.mp hi).1
    show (s.buf.segments ++ [_])[i]? = some seg
    rw [List.getElem?_append_left hlt, hi]
  refine ⟨h.next_le, ?_, ?_, ?_, ?_, ?_, h.assigned⟩
  · rw [owners_push hw]
    refine h.tiles.move ?_
    show s.buf.ranges[s.buf.segments.length]? = none
    rw [List.getElem?_eq_none (by unfold ranges; rw [List.length_map])]
  · intro v id a' z' hv
    by_cases hvw : v = w
    · subst hvw
      rw [put_calls_self] at hv
      cases hv
      show (s.buf.segments ++ [_])[s.buf.segments.length]? = _
      rw [List.getElem?_append_right (Nat.le_refl _), Nat.sub_self]
      rfl
    · rw [put_calls_of_ne hvw] at hv
      exact hold (h.holds_seg v id a' z' hv)
  · intro v id hv
    by_cases hvw : v = w
    · subst hvw; rw [put_calls_self] at hv; exact nomatch hv
    · rw [put_calls_of_ne hvw] at hv
      obtain ⟨seg, hs, hr⟩ := h.marking_seg v id hv
      exact ⟨seg, hold hs, hr⟩
  · intro u v id hu hv
    -- only `w` has the new id: the others' ids are below the old length
    by_cases huw : u = w <;> by_cases hvw : v = w
    · rw [huw, hvw]
    · subst huw
      rw [put_calls_self] at hu
      rw [put_calls_of_ne hvw] at hv
      cases hu
      exact absurd (h.seg_lt hv) (lt_irrefl _)
    · subst hvw
      rw [put_calls_self] at hv
      rw [put_calls_of_ne huw] at hu
      cases hv
      exact absurd (h.seg_lt hu) (lt_irrefl _)
    · rw [put_calls_of_ne huw] at hu
      rw [put_calls_of_ne hvw] at hv
      exact h.one_call u v id hu hv
  · obtain ⟨C, hcard, hC⟩ := h.counted
    refine ⟨C, hcard, fun id hid => ?_⟩
    obtain ⟨⟨seg, hs, hr⟩, hno⟩ := hC id hid
    refine ⟨⟨seg, hold hs, hr⟩, fun v hv => ?_⟩
    by_cases hvw : v = w
    · subst hvw
      rw [put_calls_self] at hv
      cases hv
      exact absurd (List.getElem?_eq_some_iff.mp hs).1 (lt_irrefl _)
    · rw [put_calls_of_ne hvw] at hv
      exact hno v hv

/-- The first step of `mark_ready` keeps the invariant. -/
theorem ClaimInv.put_setReady (h : ClaimInv s) {id a z : Nat}
    (hw : s.calls w = .holds id a z) :
    ClaimInv (s.put (s.buf.setReady id) w (.marking id)) := by
  have hmine := h.holds_seg w id a z hw
  have hsame : ∀ v, ((s.put (s.buf.setReady id) w (.marking id)).calls v).seg
      = (s.calls v).seg := by
    intro v
    by_cases hvw : v = w
    · subst hvw; rw [put_calls_self, hw]; rfl
    · rw [put_calls_of_ne hvw]
  refine ⟨h.next_le, ?_, ?_, ?_, ?_, ?_, h.assigned⟩
  · rw [owners_put ranges_setReady (by rw [hw]; rfl)]
    exact h.tiles
  · intro v i a' z' hv
    by_cases hvw : v = w
    · subst hvw; rw [put_calls_self] at hv; exact nomatch hv
    · rw [put_calls_of_ne hvw] at hv
      -- the id is `w`'s, so no other thread sees its segment change
      have hi : i ≠ id := by
        intro he
        exact hvw (h.one_call v w id (by rw [hv, he]; rfl) (by rw [hw]; rfl))
      rw [put_buf, setReady_of_ne hi]
      exact h.holds_seg v i a' z' hv
  · intro v i hv
    by_cases hvw : v = w
    · subst hvw
      rw [put_calls_self] at hv
      cases hv
      exact ⟨_, setReady_self hmine, rfl⟩
    · rw [put_calls_of_ne hvw] at hv
      obtain ⟨seg, hs, hr⟩ := h.marking_seg v i hv
      exact ⟨seg, setReady_of_ready hs hr, hr⟩
  · intro u v i hu hv
    rw [hsame] at hu hv
    exact h.one_call u v i hu hv
  · obtain ⟨C, hcard, hC⟩ := h.counted
    refine ⟨C, hcard, fun i hi => ?_⟩
    obtain ⟨⟨seg, hs, hr⟩, hno⟩ := hC i hi
    refine ⟨⟨seg, setReady_of_ready hs hr, hr⟩, fun v hv => ?_⟩
    rw [hsame] at hv
    exact hno v hv

/-- The second step of `mark_ready` keeps the invariant: the segment joins
    the counted ones. -/
theorem ClaimInv.put_addReady (h : ClaimInv s) {id : Nat}
    (hw : s.calls w = .marking id) : ClaimInv (s.put s.buf.addReady w .idle) := by
  have hq : ClaimInv (s.put s.buf w .idle) :=
    h.put_quiet rfl rfl rfl rfl h.assigned (by rw [hw]; rfl) (Or.inr rfl)
  obtain ⟨C, hcard, hC⟩ := h.counted
  have hid : id ∉ C := fun hin => (hC id hin).2 w (by rw [hw]; rfl)
  refine ⟨hq.next_le, hq.tiles, hq.holds_seg, hq.marking_seg, hq.one_call, ?_,
    hq.assigned⟩
  refine ⟨insert id C, ?_, ?_⟩
  · rw [Finset.card_insert_of_notMem hid, hcard]
    rfl
  · intro i hi
    refine ⟨?_, ?_⟩
    · rcases Finset.mem_insert.mp hi with heq | hin
      · exact heq ▸ h.marking_seg w id hw
      · exact (hC i hin).1
    · intro v hv
      by_cases hvw : v = w
      · subst hvw; rw [put_calls_self] at hv; exact nomatch hv
      · rw [put_calls_of_ne hvw] at hv
        rcases Finset.mem_insert.mp hi with heq | hin
        · subst heq
          exact hvw (h.one_call v w i hv (by rw [hw]; rfl))
        · exact (hC i hin).2 v hv

/-- **Every step keeps the invariant.** -/
theorem claimInv_step (h : ClaimInv s) (hs : Stepped s w op s') : ClaimInv s' := by
  cases hs with
  | exhausted hw hb =>
      rcases hb with rfl | ⟨rfl, hle⟩
      · exact h.put_quiet rfl rfl rfl rfl h.assigned (by rw [hw]) (Or.inr rfl)
      · exact h.put_quiet rfl rfl rfl rfl (fun _ => hle) (by rw [hw]) (Or.inr rfl)
  | cas hw hr hlt hle => exact h.put_cas hw hr hlt hle
  | push hw => exact h.put_push hw
  | write hw _ _ =>
      exact h.put_quiet rfl rfl rfl rfl h.assigned (by rw [hw]) (Or.inl hw.symm)
  | setReady hw => exact h.put_setReady hw
  | addReady hw => exact h.put_addReady hw
  | abandon hw =>
      refine h.put_quiet rfl rfl rfl rfl h.assigned ?_ (Or.inr rfl)
      cases hc : s.calls w with
      | idle => rfl
      | claimed a z => rw [hc] at hw; exact absurd rfl hw
      | holds id a z => rfl
      | marking id => rfl
  | setFailed => exact h.put_quiet rfl rfl rfl rfl h.assigned rfl (Or.inl rfl)

/-- **Step** of any thread. -/
theorem claimInv_of_step {a : Nat × Op} (h : ClaimInv s) (hs : step s a = some s') :
    ClaimInv s' :=
  claimInv_step h (stepped_of_threadStep hs)

/-- A whole `claim_range` is its two steps one after the other. -/
theorem claimInv_of_claimed (h : ClaimInv s) (hs : Claimed s w s') : ClaimInv s' := by
  cases hs with
  | exhausted hw hb => exact claimInv_step h (.exhausted (p := 0) hw hb)
  | range hw hr hlt hle =>
      have h₁ := h.put_cas hw hr hlt hle
      have h₂ := h₁.put_push (put_calls_self ..)
      rw [put_put] at h₂
      exact h₂

/-- The invariant holds in every state a run reaches. -/
theorem claimInv_run {totalSize : Nat} {file : Bytes} {acts : List (Nat × Op)}
    (h : run step (start totalSize file) acts = some s) : ClaimInv s :=
  run_invariant (fun _ _ _ => claimInv_of_step) (claimInv_start totalSize file) h

/-! ## Constants of a run -/

/-- The size of the file does not change. -/
theorem totalSize_step (hs : Stepped s w op s') :
    s'.buf.totalSize = s.buf.totalSize := by
  cases hs with
  | exhausted _ hb => rcases hb with rfl | ⟨rfl, -⟩ <;> rfl
  | cas => rfl
  | push => rfl
  | write => rfl
  | setReady => rfl
  | addReady => rfl
  | abandon => rfl
  | setFailed => rfl

/-- A segment is a part of the file, and not an empty one. -/
theorem ClaimInv.seg_le (h : ClaimInv s) {id : Nat} {seg : Segment}
    (hseg : s.buf.segments[id]? = some seg) : seg.start < seg.end ∧ seg.end ≤ s.buf.totalSize := by
  have hown : owners s (.inl id) = some seg.range := by
    show s.buf.ranges[id]? = some seg.range
    rw [getElem?_ranges, hseg]
    rfl
  exact ⟨h.tiles.proper _ _ hown, le_trans (h.tiles.within hown).2 h.next_le⟩

/-- A thread's range lies inside the file. -/
theorem ClaimInv.holds_le (h : ClaimInv s) {id a z : Nat}
    (hw : s.calls w = .holds id a z) : a < z ∧ z ≤ s.buf.totalSize :=
  h.seg_le (h.holds_seg w id a z hw)

/-- Writes stay inside the file, so its length stays what `set_len` made
    it. -/
theorem fileLength_step (h : ClaimInv s)
    (hf : s.buf.file.length = s.buf.totalSize) (hs : Stepped s w op s') :
    s'.buf.file.length = s'.buf.totalSize := by
  cases hs with
  | exhausted _ hb => rcases hb with rfl | ⟨rfl, -⟩ <;> exact hf
  | cas => exact hf
  | push => exact hf
  | write hw _ hhi =>
      have := (h.holds_le hw).2
      show (FileContent.overwrite 0 s.buf.file _ _).length = s.buf.totalSize
      rw [FileContent.length_overwrite (by omega), hf]
  | setReady => exact hf
  | addReady => exact hf
  | abandon => exact hf
  | setFailed => exact hf

end BlitzClaims
