import AptBlitz.DownloaderResults
import Mathlib.Algebra.Ring.Nat
import Mathlib.Data.Set.BooleanAlgebra
import Mathlib.Order.CompletePartialOrder

/-! # Who owns which bytes

    `claim_range` once more, with the load and the `compare_exchange` of its
    loop as steps of their own and its sum as a `u64`.  It takes the steps of
    the claim protocol and some in which nothing happens, so the ranges that
    any number of calls return are those of a tiling.

    Ranges that nobody shares are what makes writing without a lock safe: a
    worker of the HTTP downloader writes in the range it has claimed, and the
    bytes of a ready segment stay. -/

namespace BlitzClaimedRanges

open BlitzBuffer SegmentsBuffer BlitzClaims Runs Tiling

/-! ## `claim_range`, load by load -/

/-- Where a thread is in `claim_range`. -/
inductive Pc where
  | out
  /-- the load under `preferred_size == 0` -/
  | zero
  /-- the load at the head of the loop -/
  | load (preferredSize : Nat)
  /-- `compare_exchange(current, end)` -/
  | exchange (preferredSize current stop : Nat)
  /-- the push, under the lock -/
  | push (start stop : Nat)
  /-- `all_assigned.store(true)` -/
  | store
  deriving DecidableEq, Repr

/-- The buffer, the threads, and what their calls have returned. -/
structure Claiming where
  buf : SegmentsBuffer
  threads : Nat → Pc
  returned : List (Nat × Nat × Nat)

namespace Claiming

/-- Thread `w` goes on to `pc`. -/
def goto (s : Claiming) (w : Nat) (pc : Pc) : Claiming :=
  { s with threads := Function.update s.threads w pc }

end Claiming

/-- A thread calls `claim_range`, or goes on in it. -/
inductive Act where
  | call (w preferredSize : Nat)
  | go (w : Nat)
  deriving DecidableEq, Repr

/-- `current + size`, as it wraps. -/
def sum (current size : Nat) : Nat := (current + size) % 2 ^ 64

/-- The next step of thread `w`. -/
def goStep (s : Claiming) (w : Nat) : Option Claiming :=
  match s.threads w with
  | .out => none
  | .zero =>
      if s.buf.nextUnassigned ≥ s.buf.totalSize then some (s.goto w .store)
      else some (s.goto w .out)
  | .load preferredSize =>
      let current := s.buf.nextUnassigned
      if current ≥ s.buf.totalSize then some (s.goto w .store)
      else
        let size := min preferredSize (s.buf.totalSize - current)
        some (s.goto w (.exchange preferredSize current (sum current size)))
  | .exchange preferredSize current stop =>
      if s.buf.nextUnassigned = current then
        some ({ s with buf := { s.buf with nextUnassigned := stop } }.goto w (.push current stop))
      else some (s.goto w (.load preferredSize))
  | .push start stop =>
      let (buf, id) := s.buf.claimPush (start, stop)
      some ({ s with buf, returned := s.returned ++ [(id, start, stop)] }.goto w .out)
  | .store => some ({ s with buf := { s.buf with allAssigned := true } }.goto w .out)

/-- One step. -/
def step (s : Claiming) : Act → Option Claiming
  | .call w preferredSize =>
      match s.threads w with
      | .out => some (s.goto w (if preferredSize = 0 then .zero else .load preferredSize))
      | _ => none
  | .go w => goStep s w

/-- Nobody has called yet. -/
def start (totalSize : Nat) (file : Bytes) : Claiming where
  buf := new totalSize file
  threads := fun _ => .out
  returned := []

variable {s s' : Claiming} {w totalSize n : Nat} {pc : Pc} {file : Bytes} {a : Act}

/-! ## The steps of the claim protocol -/

/-- What a thread has taken of the file and not pushed. -/
def Pc.call : Pc → Call
  | .push start stop => .claimed start stop
  | _ => .idle

/-- What the claim protocol sees; a call that has returned is over. -/
def view (s : Claiming) : Shared := ⟨s.buf, fun w => (s.threads w).call⟩

/-- What a thread knows where it is. -/
def Knows (b : SegmentsBuffer) : Pc → Prop
  | .load preferredSize => 0 < preferredSize
  | .exchange preferredSize current stop =>
      0 < preferredSize ∧ current < b.totalSize ∧
        stop = current + min preferredSize (b.totalSize - current)
  | .store => b.totalSize ≤ b.nextUnassigned
  | _ => True

/-- What is returned is what has been pushed, under its index. -/
structure Returned (s : Claiming) : Prop where
  ids : s.returned.map Prod.fst = List.range s.buf.segments.length
  ranges : s.returned.map Prod.snd = s.buf.ranges
  knows : ∀ w, Knows s.buf (s.threads w)
  size : s.buf.totalSize < 2 ^ 64

/-- In a file that the size of is a `u64` the sum does not wrap. -/
theorem sum_eq {current size total : Nat} (hlt : current < total) (htotal : total < 2 ^ 64)
    (hsize : size ≤ total - current) : sum current size = current + size := by
  rw [sum, Nat.mod_eq_of_lt]
  omega

/-- A thread that goes on, as the claims see it. -/
theorem view_goto (s : Claiming) (b : SegmentsBuffer) (returned : List (Nat × Nat × Nat)) (w : Nat)
    (pc : Pc) :
    view (({ s with buf := b, returned } : Claiming).goto w pc) = (view s).put b w pc.call := by
  rw [view, Claiming.goto, Shared.put]
  congr 1
  funext v
  exact Function.apply_update (fun _ => Pc.call) s.threads w pc v

/-- A step of the loop in which nothing happens to the buffer. -/
theorem view_quiet (h : pc.call = (s.threads w).call) : view (s.goto w pc) = view s :=
  (view_goto s s.buf s.returned w pc).trans (put_self h)

/-- What a thread does, as the claims see it. -/
theorem view_calls (h : s.threads w = pc) : (view s).calls w = pc.call := congrArg Pc.call h

/-- The `compare_exchange` that finds what was loaded is the one of the claim
    protocol. -/
theorem claimCas_of_room {b : SegmentsBuffer} {preferredSize : Nat} (hpos : 0 < preferredSize)
    (hlt : b.nextUnassigned < b.totalSize) :
    b.claimCas preferredSize
      = ({ b with
            nextUnassigned :=
              b.nextUnassigned + min preferredSize (b.totalSize - b.nextUnassigned) },
          some (b.nextUnassigned,
            b.nextUnassigned + min preferredSize (b.totalSize - b.nextUnassigned))) := by
  rw [claimCas, if_neg (Nat.ne_of_gt hpos), if_neg (not_le.mpr hlt)]

/-- A call with nothing to give, seen as a claim of nothing. -/
theorem claimCas_of_full {b : SegmentsBuffer} (h : b.totalSize ≤ b.nextUnassigned) :
    b.claimCas 0 = ({ b with allAssigned := true }, none) := by
  rw [claimCas, if_pos rfl, if_pos h]

/-- `next_unassigned` only grows, so what a thread knows stays true. -/
theorem knows_mono {b b' : SegmentsBuffer} (hsize : b'.totalSize = b.totalSize)
    (hnext : b.nextUnassigned ≤ b'.nextUnassigned) (h : Knows b pc) : Knows b' pc := by
  cases pc with
  | load preferredSize => exact h
  | exchange preferredSize current stop =>
      show _ ∧ _ < b'.totalSize ∧ _ = _ + min _ (b'.totalSize - _)
      rw [hsize]
      exact h
  | store =>
      show b'.totalSize ≤ b'.nextUnassigned
      rw [hsize]
      exact le_trans h hnext
  | _ => trivial

/-- A step that returns nothing. -/
theorem Returned.put {b : SegmentsBuffer} (h : Returned s) (hsegs : b.segments = s.buf.segments)
    (hsize : b.totalSize = s.buf.totalSize) (hnext : s.buf.nextUnassigned ≤ b.nextUnassigned)
    (hpc : Knows b pc) : Returned ({ s with buf := b }.goto w pc) where
  ids := by
    show s.returned.map Prod.fst = List.range b.segments.length
    rw [hsegs]
    exact h.ids
  ranges := by
    show s.returned.map Prod.snd = b.segments.map Segment.range
    rw [hsegs]
    exact h.ranges
  knows v := by
    show Knows b (Function.update s.threads w pc v)
    by_cases hv : v = w
    · subst hv
      rw [Function.update_self]
      exact hpc
    · rw [Function.update_of_ne hv]
      exact knows_mono hsize hnext (h.knows v)
  size := by
    show b.totalSize < _
    rw [hsize]
    exact h.size

/-- A call that returns its range. -/
theorem Returned.push {start stop : Nat} (h : Returned s) :
    Returned ({ s with
      buf := (s.buf.claimPush (start, stop)).1
      returned := s.returned ++ [(s.buf.segments.length, start, stop)] }.goto w .out) where
  ids := by
    show (s.returned ++ _).map Prod.fst = List.range (s.buf.segments ++ [_]).length
    rw [List.map_append, h.ids, List.length_append, List.length_singleton, List.range_succ]
    rfl
  ranges := by
    show (s.returned ++ _).map Prod.snd = (s.buf.claimPush (start, stop)).1.ranges
    rw [List.map_append, h.ranges, ranges_claimPush]
    rfl
  knows v := by
    show Knows (s.buf.claimPush (start, stop)).1 (Function.update s.threads w .out v)
    by_cases hv : v = w
    · subst hv
      rw [Function.update_self]
      trivial
    · rw [Function.update_of_ne hv]
      exact knows_mono rfl (le_refl _) (h.knows v)
  size := h.size

/-- **Step**: what has been returned has been pushed. -/
theorem returned_step (h : Returned s) (hs : step s a = some s') : Returned s' := by
  have hquiet : ∀ {w pc}, Knows s.buf pc → Returned (s.goto w pc) := fun hpc =>
    h.put rfl rfl (le_refl _) hpc
  cases a with
  | call w preferredSize =>
      simp only [step] at hs
      split at hs
      · cases hs
        refine hquiet ?_
        split
        · trivial
        next hzero => exact Nat.pos_of_ne_zero hzero
      · cases hs
  | go w =>
      have hknows := h.knows w
      simp only [step, goStep] at hs
      split at hs
      next => cases hs
      next =>
        split at hs
        next hfull => cases hs; exact hquiet hfull
        next => cases hs; exact hquiet trivial
      next preferredSize hw =>
        rw [hw] at hknows
        split at hs
        next hfull => cases hs; exact hquiet hfull
        next hroom =>
          cases hs
          have hlt : s.buf.nextUnassigned < s.buf.totalSize := not_le.mp hroom
          exact hquiet ⟨hknows, hlt, sum_eq hlt h.size (min_le_right _ _)⟩
      next preferredSize current stop hw =>
        rw [hw] at hknows
        split at hs
        next hsame =>
          cases hs
          refine h.put rfl rfl ?_ trivial
          show s.buf.nextUnassigned ≤ stop
          have hstop := hknows.2.2
          omega
        next => cases hs; exact hquiet hknows.1
      next start stop hw =>
        cases hs
        exact h.push
      next =>
        cases hs
        exact h.put rfl rfl (le_refl _) trivial

/-- **Simulation**: a step of `claim_range` is a run of the claim protocol,
    of no step or one; of two for a push, after which the call is over. -/
theorem claiming_simulates (h : Returned s) (hs : step s a = some s') :
    Reaches BlitzClaims.step (view s) (view s') := by
  have hquiet : ∀ {w pc}, pc.call = (s.threads w).call →
      Reaches BlitzClaims.step (view s) (view (s.goto w pc)) := by
    intro w pc hcall
    rw [view_quiet hcall]
    exact Reaches.refl
  have hone : ∀ {w op t}, threadStep (view s) w op = some t →
      Reaches BlitzClaims.step (view s) t := fun {w op} _ hop => Reaches.single (a := (w, op)) hop
  cases a with
  | call w preferredSize =>
      simp only [step] at hs
      split at hs
      next hw =>
        cases hs
        refine hquiet ?_
        rw [hw]
        split <;> rfl
      · cases hs
  | go w =>
      have hknows := h.knows w
      simp only [step, goStep] at hs
      split at hs
      next => cases hs
      next hw =>
        split at hs <;> (cases hs; exact hquiet (by rw [hw]; rfl))
      next preferredSize hw =>
        split at hs <;> (cases hs; exact hquiet (by rw [hw]; rfl))
      next preferredSize current stop hw =>
        rw [hw] at hknows
        obtain ⟨hpos, hlt, rfl⟩ := hknows
        split at hs
        next hsame =>
          cases hs
          -- the counter still shows what was loaded
          subst hsame
          rw [view_goto]
          exact hone (threadStep_cas (view_calls hw) (claimCas_of_room hpos hlt))
        next =>
          cases hs
          exact hquiet (by rw [hw]; rfl)
      next start stop hw =>
        cases hs
        rw [view_goto]
        refine Reaches.trans (hone (threadStep_push (view_calls hw))) ?_
        exact Reaches.single (a := (w, .abandon)) threadStep_put_abandon
      next hw =>
        rw [hw] at hknows
        cases hs
        rw [view_goto]
        exact hone (threadStep_exhausted (view_calls hw) (claimCas_of_full hknows))

/-! ## The ranges returned -/

/-- What is promised of the ranges that `claim_range` returns. -/
structure Exclusive (s : Claiming) : Prop where
  proper : ∀ r ∈ s.returned, r.2.1 < r.2.2
  within : ∀ r ∈ s.returned, r.2.2 ≤ s.buf.totalSize
  disjoint : s.returned.Pairwise fun r q =>
    Disjoint (Set.Ico r.2.1 r.2.2) (Set.Ico q.2.1 q.2.2)
  ids : (s.returned.map Prod.fst).Nodup
  /-- what is taken is what has been returned, and what a call will return -/
  covers : ∀ x, x < s.buf.nextUnassigned ↔ (∃ r ∈ s.returned, x ∈ Set.Ico r.2.1 r.2.2) ∨
    ∃ w start stop, s.threads w = .push start stop ∧ x ∈ Set.Ico start stop
  whole : (∀ w start stop, s.threads w ≠ .push start stop) →
    ∀ x, x < s.buf.nextUnassigned ↔ ∃ r ∈ s.returned, x ∈ Set.Ico r.2.1 r.2.2
  /-- the sum of the loop is the sum of the numbers -/
  no_overflow : ∀ w preferredSize current stop,
    s.threads w = .exchange preferredSize current stop →
      stop = current + min preferredSize (s.buf.totalSize - current) ∧ stop < 2 ^ 64

/-- What is returned owns its range. -/
theorem owner_of_returned (h : Returned s) {i : Nat} {r : Nat × Nat × Nat}
    (hi : s.returned[i]? = some r) : owners (view s) (.inl i) = some r.2 := by
  show s.buf.ranges[i]? = some r.2
  rw [← h.ranges, List.getElem?_map, hi]
  rfl

/-- The range of a segment has been returned. -/
theorem returned_of_owner (h : Returned s) {i : Nat} {q : Nat × Nat}
    (hi : owners (view s) (.inl i) = some q) : ∃ r ∈ s.returned, r.2 = q := by
  have hi : s.buf.ranges[i]? = some q := hi
  rw [← h.ranges, List.getElem?_map] at hi
  obtain ⟨r, hr, hq⟩ := Option.map_eq_some_iff.mp hi
  exact ⟨r, List.mem_of_getElem? hr, hq⟩

/-- A range that is no segment yet is being pushed. -/
theorem push_of_owner {q : Nat × Nat} (hi : owners (view s) (.inr w) = some q) :
    s.threads w = .push q.1 q.2 := by
  have hi : (s.threads w).call.claim = some q := hi
  cases hpc : s.threads w with
  | push start stop =>
      rw [hpc] at hi
      cases hi
      rfl
  | _ =>
      rw [hpc] at hi
      cases hi

/-- The points below the counter, by who has taken them. -/
theorem taken_iff (h : Returned s) (hclaims : ClaimInv (view s)) (x : Nat) :
    x < s.buf.nextUnassigned ↔ (∃ r ∈ s.returned, x ∈ Set.Ico r.2.1 r.2.2) ∨
      ∃ w start stop, s.threads w = .push start stop ∧ x ∈ Set.Ico start stop := by
  have hcovers := hclaims.tiles.covers x
  constructor
  · intro hx
    obtain ⟨o, r, ho, hin⟩ := hcovers.mp ⟨Nat.zero_le _, hx⟩
    cases o with
    | inl i =>
        obtain ⟨q, hq, rfl⟩ := returned_of_owner h ho
        exact Or.inl ⟨q, hq, hin⟩
    | inr w => exact Or.inr ⟨w, r.1, r.2, push_of_owner ho, hin⟩
  · rintro (⟨r, hr, hin⟩ | ⟨w, start, stop, hw, hin⟩)
    · obtain ⟨i, hi⟩ := List.mem_iff_getElem?.mp hr
      exact (hcovers.mpr ⟨_, _, owner_of_returned h hi, hin⟩).2
    · refine (hcovers.mpr ⟨.inr w, (start, stop), ?_, hin⟩).2
      show (s.threads w).call.claim = _
      rw [hw]
      rfl

/-- The claims make the ranges that were returned exclusive. -/
theorem exclusive_of_claims (h : Returned s) (hclaims : ClaimInv (view s)) : Exclusive s where
  proper r hr := by
    obtain ⟨i, hi⟩ := List.mem_iff_getElem?.mp hr
    exact hclaims.tiles.proper _ _ (owner_of_returned h hi)
  within r hr := by
    obtain ⟨i, hi⟩ := List.mem_iff_getElem?.mp hr
    exact le_trans (hclaims.tiles.within (owner_of_returned h hi)).2 hclaims.next_le
  disjoint := by
    rw [List.pairwise_iff_getElem]
    intro i j hi hj hlt
    rw [Set.disjoint_left]
    intro x hx hx'
    -- one point, one owner
    have hsame := hclaims.tiles.unique _ _ _ _ x
      (owner_of_returned h (List.getElem?_eq_getElem hi))
      (owner_of_returned h (List.getElem?_eq_getElem hj)) hx hx'
    exact absurd (Sum.inl.inj hsame) (Nat.ne_of_lt hlt)
  ids := by
    rw [h.ids]
    exact List.nodup_range
  covers := taken_iff h hclaims
  whole hquiet x := by
    rw [taken_iff h hclaims]
    constructor
    · rintro (hr | ⟨w, start, stop, hw, -⟩)
      · exact hr
      · exact absurd hw (hquiet w start stop)
    · exact Or.inl
  no_overflow w preferredSize current stop hw := by
    have hknows := h.knows w
    rw [hw] at hknows
    obtain ⟨-, hlt, hstop⟩ := hknows
    have hsize := h.size
    exact ⟨hstop, by omega⟩

/-- At the start nothing has been returned. -/
theorem returned_start (hsize : totalSize < 2 ^ 64) : Returned (start totalSize file) where
  ids := rfl
  ranges := rfl
  knows _ := trivial
  size := hsize

/-- Every state of any number of calls is exclusive. -/
theorem exclusive_always (hsize : totalSize < 2 ^ 64) (file : Bytes) (acts : List Act) :
    Always step Exclusive (start totalSize file) acts := by
  refine always_of_step (I := fun s => Returned s ∧ ClaimInv (view s)) ?_
    (fun _ h => exclusive_of_claims h.1 h.2)
    ⟨returned_start hsize, claimInv_start totalSize file⟩
  rintro s a s' ⟨h, hclaims⟩ hs
  obtain ⟨bs, hbs⟩ := claiming_simulates h hs
  exact ⟨returned_step h hs, run_invariant (fun _ _ _ => claimInv_of_step) hclaims hbs⟩

/-! ## Ready bytes stay -/

section Bytes

variable {b b' b'' : SegmentsBuffer} {u u' : Shared} {op : Op}

/-- Ready segments stay what they are, and so do their bytes. -/
def Keeps (b b' : SegmentsBuffer) : Prop :=
  ∀ (id : Nat) (seg : Segment), b.segments[id]? = some seg → seg.state = .ready →
    b'.segments[id]? = some seg ∧
      ∀ x, seg.start ≤ x → x < seg.end → b'.file[x]? = b.file[x]?

theorem Keeps.trans (h : Keeps b b') (h' : Keeps b' b'') : Keeps b b'' := by
  intro id seg hseg hready
  obtain ⟨hseg', hbytes⟩ := h id seg hseg hready
  obtain ⟨hseg'', hbytes'⟩ := h' id seg hseg' hready
  exact ⟨hseg'', fun x hlo hhi => (hbytes' x hlo hhi).trans (hbytes x hlo hhi)⟩

/-- Where neither segments nor file change, everything is kept. -/
theorem keeps_of_eq (hsegs : b'.segments = b.segments) (hfile : b'.file = b.file) : Keeps b b' := by
  intro id seg hseg _
  exact ⟨by rw [hsegs]; exact hseg, fun x _ _ => by rw [hfile]⟩

/-- Who writes holds a segment that is not ready, and segments do not
    overlap. -/
theorem keeps_write {id a z off : Nat} {data : Bytes} (h : BlitzClients.BufferInv totalSize u)
    (hw : u.calls w = .holds id a z) (hlo : a ≤ off) (hhi : off + data.length ≤ z) :
    Keeps u.buf { u.buf with file := FileContent.overwrite 0 u.buf.file off data } := by
  intro i seg hseg hready
  refine ⟨hseg, fun x hxlo hxhi => ?_⟩
  have hmine := h.claims.holds_seg w id a z hw
  have hin : off + data.length ≤ u.buf.file.length := by
    rw [h.file_len]
    exact le_trans hhi (h.claims.holds_le hw).2
  refine FileContent.getElem?_overwrite_of_outside hin ?_
  by_contra hinside
  have howner : owners u (.inl id) = some (a, z) := by
    show u.buf.ranges[id]? = _
    rw [getElem?_ranges, hmine]
    rfl
  have howner' : owners u (.inl i) = some seg.range := by
    show u.buf.ranges[i]? = _
    rw [getElem?_ranges, hseg]
    rfl
  have hx : x ∈ Set.Ico (a, z).1 (a, z).2 := by
    show a ≤ x ∧ x < z
    omega
  have hsame := h.claims.tiles.unique _ _ _ _ x howner howner' hx ⟨hxlo, hxhi⟩
  rw [← Sum.inl.inj hsame, hmine] at hseg
  cases hseg
  cases hready

/-- **Step**: a thread's claim is not written to by another. -/
theorem keeps_stepped (h : BlitzClients.BufferInv totalSize u) (hs : Stepped u w op u') :
    Keeps u.buf u'.buf := by
  cases hs with
  | exhausted _ hb =>
      rcases hb with rfl | ⟨rfl, -⟩
      · exact keeps_of_eq rfl rfl
      · exact keeps_of_eq rfl rfl
  | push hw =>
      intro id seg hseg _
      refine ⟨?_, fun _ _ _ => rfl⟩
      have hlt := (List.getElem?_eq_some_iff.mp hseg).1
      show (u.buf.segments ++ [_])[id]? = some seg
      rw [List.getElem?_append_left hlt]
      exact hseg
  | write hw hlo hhi => exact keeps_write h hw hlo hhi
  | setReady hw =>
      intro id seg hseg hready
      exact ⟨setReady_of_ready hseg hready, fun _ _ _ => rfl⟩
  | _ => exact keeps_of_eq rfl rfl

/-- From any state of the claim protocol, through any run. -/
theorem keeps_reaches (h : BlitzClients.BufferInv totalSize u)
    (hreach : Reaches BlitzClaims.step u u') : Keeps u.buf u'.buf := by
  obtain ⟨acts, hrun⟩ := hreach
  refine (run_invariant (I := fun t => BlitzClients.BufferInv totalSize t ∧ Keeps u.buf t.buf)
    ?_ ⟨h, keeps_of_eq rfl rfl⟩ hrun).2
  rintro t a t' ⟨ht, hkeeps⟩ hs
  exact ⟨BlitzClients.bufferInv_step ht hs,
    hkeeps.trans (keeps_stepped ht (stepped_of_threadStep hs))⟩

end Bytes

/-! ## The writes of the HTTP downloader -/

section Writes

open BlitzDownloader (Download)
open BlitzDownloaderSteps (Worked)
open BlitzDownloaderResults (RunInv runInv_buffer_start runInv_buffer_step step_simulates)

variable {d d' : Download} {act : BlitzDownloader.Act} {acts more : List BlitzDownloader.Act}

/-- The offset and the bytes of the `write_data` that a worker comes to. -/
def nextWrite (d : Download) (w : Nat) : Option (Nat × Bytes) :=
  match d.workers w with
  | .chunk c fileOffset rest =>
      if rest = [] ∨ c.end - fileOffset = 0 then none
      else some (fileOffset, rest.take (min rest.length (c.end - fileOffset)))
  | _ => none

/-- Every write is inside a range that its worker has claimed and not marked. -/
def WritesInside (d : Download) : Prop :=
  ∀ w offset data, nextWrite d w = some (offset, data) → ∃ id start stop,
    ⟨w, id, .claimed start stop⟩ ∈ d.log ∧
      d.buf.segments[id]? = some ⟨start, stop, .downloading⟩ ∧
      start ≤ offset ∧ offset + data.length ≤ stop

/-- A step changes the file by such a write alone. -/
def ChangesByWrite (d : Download) (act : BlitzDownloader.Act) : Prop :=
  ∀ d', BlitzDownloader.step d act = some d' → d'.buf.file = d.buf.file ∨
    ∃ w offset data results result b, nextWrite d w = some (offset, data) ∧
      d.buf.writeData offset data results = some (result, b) ∧ d'.buf.file = b.file

/-- In every reachable state each worker writes inside its own segment. -/
theorem writesInside_of_inv
    (h : RunInv totalSize d ∧ BlitzClients.BufferInv totalSize (BlitzDownloaderRuns.view totalSize d)) :
    WritesInside d := by
  intro w offset data hwrite
  rw [nextWrite] at hwrite
  split at hwrite
  next c fileOffset rest hw =>
    split at hwrite
    next => cases hwrite
    next =>
      cases hwrite
      obtain ⟨hlo, hhi⟩ := BlitzDownloaderRuns.filling_of_chunk h.1.log hw
      refine ⟨c.id, c.start, c.end, (h.1.log.working w _ (BlitzDownloaderRuns.doing_of hw)).1,
        BlitzClients.seg_of_doing h.2 (BlitzDownloaderRuns.doing_of hw), hlo, ?_⟩
      rw [List.length_take]
      omega
  next => cases hwrite

theorem file_of_writeData_nil {b b' : SegmentsBuffer} {offset : Nat} {data : Bytes}
    {results : List (Except IoError Nat)} {result : Except IoError Unit} (hnil : data = [])
    (h : b.writeData offset data results = some (result, b')) : b'.file = b.file := by
  subst hnil
  cases results <;> (cases h; rfl)

/-- A `write_data` in the loop over a chunk. -/
theorem changes_of_chunk {c : BlitzDownloader.Claim} {fileOffset : Nat} {rest : Bytes}
    {results : List (Except IoError Nat)} {result : Except IoError Unit} {b : SegmentsBuffer}
    (hw : d.workers w = .chunk c fileOffset rest)
    (h : d.buf.writeData fileOffset (rest.take (min rest.length (c.end - fileOffset))) results
      = some (result, b)) :
    b.file = d.buf.file ∨ ∃ w offset data results result b', nextWrite d w = some (offset, data) ∧
      d.buf.writeData offset data results = some (result, b') ∧ b.file = b'.file := by
  by_cases hnone : rest = [] ∨ c.end - fileOffset = 0
  · refine Or.inl (file_of_writeData_nil ?_ h)
    rcases hnone with rfl | hzero
    · rfl
    · rw [hzero, Nat.min_zero, List.take_zero]
  · refine Or.inr ⟨w, fileOffset, _, results, result, b, ?_, h, rfl⟩
    simp only [nextWrite, hw, if_neg hnone]

/-- A step of the downloader changes the file by `write_data` alone. -/
theorem changesByWrite (d : Download) (act : BlitzDownloader.Act) : ChangesByWrite d act := by
  intro d' hs
  cases BlitzDownloaderSteps.stepped_of_step hs with
  | worker hw =>
      cases hw with
      | exhausted _ hcas =>
          rcases claimCas_none hcas with rfl | ⟨rfl, -⟩
          · exact Or.inl rfl
          · exact Or.inl rfl
      | cas _ hcas =>
          obtain ⟨rfl, -⟩ := claimCas_some hcas
          exact Or.inl rfl
      | wrote hw hn hwrite =>
          subst hn
          exact changes_of_chunk hw hwrite
      | wroteSome hw hn hwrite =>
          subst hn
          exact changes_of_chunk hw hwrite
      | _ => exact Or.inl rfl
  | _ => exact Or.inl rfl

/-- **Run**: what is ready stays as it is. -/
theorem keeps_run
    (h : RunInv totalSize d ∧ BlitzClients.BufferInv totalSize (BlitzDownloaderRuns.view totalSize d))
    (hrun : run BlitzDownloader.step d more = some d') : Keeps d.buf d'.buf := by
  have hreach := run_simulates (f := BlitzDownloaderRuns.view totalSize)
    (fun _ _ _ => BlitzClients.bufferInv_step) (fun _ _ _ => step_simulates)
    (fun _ _ _ => BlitzDownloaderResults.runInv_step) h.1 h.2 hrun
  exact keeps_reaches h.2 hreach

/-- **Nobody writes into another's range**: the ranges that any calls of
    `claim_range` return are disjoint parts of the file, under different ids,
    and are together what the counter has passed; a worker of the downloader
    writes inside the range it has claimed, and once a segment is ready its
    bytes stay for the rest of the run. -/
theorem ranges_exclusive (hsize : totalSize < 2 ^ 64) (hfile : file.length = totalSize) :
    (∀ calls, Always step Exclusive (start totalSize file) calls) ∧
      (∀ acts, Always BlitzDownloader.step WritesInside (BlitzDownloader.start n totalSize file) acts ∧
        Along BlitzDownloader.step ChangesByWrite (BlitzDownloader.start n totalSize file) acts) ∧
      ∀ acts more d d', run BlitzDownloader.step (BlitzDownloader.start n totalSize file) acts = some d →
        run BlitzDownloader.step d more = some d' → Keeps d.buf d'.buf := by
  refine ⟨exclusive_always hsize file, fun acts => ⟨?_, ?_⟩, ?_⟩
  · exact always_of_step (fun _ _ _ => runInv_buffer_step) (fun _ => writesInside_of_inv)
      (runInv_buffer_start hfile)
  · exact along_of_mem fun act _ d => changesByWrite d act
  · intro acts more d d' hrun hmore
    exact keeps_run (BlitzDownloaderResults.runInv_run hfile hrun) hmore

end Writes

section Examples

/-- Two calls load the same counter; the second to exchange tries again, and
    asks for more than there is. -/
def crossing : List Act :=
  [.call 0 2, .call 1 (2 ^ 64 - 1), .go 0, .go 1, .go 0, .go 1, .go 1, .go 1, .go 1, .go 0,
   .call 2 0, .go 2, .go 2]

theorem ranges_exclusive_three :
    (run step (start 3 [0, 0, 0]) crossing).any (fun s =>
        s.returned == [(0, 2, 3), (1, 0, 2)] && s.buf.allAssigned) = true ∧
      Always step Exclusive (start 3 [0, 0, 0]) crossing :=
  ⟨by decide, (@ranges_exclusive 3 1 [0, 0, 0] (by decide) rfl).1 crossing⟩

end Examples

end BlitzClaimedRanges
