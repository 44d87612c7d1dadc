import AptBlitz.WaitConsume

/-! # What waiting for tokens asks for

    The first batch of a call is its largest.  If the bucket has no room for
    it, then no `try_consume` of the call ever succeeds: `never_returns`. -/

namespace BlitzWaitConsumeRuns

open BlitzBucketRuns BlitzWaitConsume Runs
open BlitzBucket hiding Act step
open BlitzBucket.TokenBucket hiding new

variable {s s' t : Waiting} {a : Act} {bytes b r created n : Nat} {shared shared' : Shared}
  {w : Nat} {pc pc' : Pc} {bucket : TokenBucket}

/-! ## The calls of the bucket -/

/-- What is asked for behind the refill. -/
theorem tryAmount_afterRefill (op : Op) (now : Nat) :
    tryAmount (afterRefill op) = tryAmount (.loadLast op now) := by
  cases op <;> rfl

/-- What a call asks for. -/
theorem tryAmount_enter (bucket : TokenBucket) (n : Nat) :
    tryAmount (enter bucket (.tryConsume n)) = some n := by
  unfold enter
  dsimp only
  split
  · rfl
  · split <;> rfl

/-- A call keeps to what it asked for. -/
theorem tryAmount_moves (hm : Moves bucket pc pc') : tryAmount pc' = tryAmount pc := by
  cases hm with
  | @noTime op now => exact tryAmount_afterRefill op now
  | @readLast op now => cases op <;> rfl
  | @lostLast op now last => cases op <;> rfl
  | @readRefill op refill => cases op <;> rfl
  | @lostRefill op refill prev => cases op <;> rfl
  | refuse => rfl
  | readConsume => rfl
  | lostConsume => rfl
  | read => rfl

/-- A thread that begins no other call stays with its amount. -/
theorem tryAmount_step {act : BlitzBucket.Act} (hs : BlitzBucket.step shared act = some shared')
    (hcall : isCallOf w act = false) :
    tryAmount (shared'.threads w) = tryAmount (shared.threads w) := by
  have hgoto : ∀ {u : Shared} {v : Nat} {pc : Pc}, u.threads = shared.threads →
      (w = v → tryAmount pc = tryAmount (shared.threads v)) →
      tryAmount ((u.goto v pc).threads w) = tryAmount (shared.threads w) := by
    intro u v pc hu hpc
    rw [goto_threads hu]
    split
    next hwv => exact hwv ▸ hpc hwv
    next => rfl
  cases stepped_of_step hs with
  | @called v op =>
      refine hgoto rfl ?_
      -- the thread's own calls are excluded
      rintro rfl
      exact absurd hcall (by simp [isCallOf])
  | moved hm => exact hgoto rfl fun _ => tryAmount_moves hm
  | @clocked v now op hw =>
      refine hgoto rfl fun _ => ?_
      rw [hw]
      cases op <;> rfl
  | @won v op now hw =>
      refine hgoto rfl fun _ => ?_
      rw [hw]
      rw [credited]
      split <;> cases op <;> rfl
  | @refilled v op refill hw =>
      refine hgoto rfl fun _ => ?_
      rw [hw]
      cases op <;> rfl
  | took hw =>
      refine hgoto rfl fun _ => ?_
      rw [hw]
      rfl

theorem resting_of_moves (hm : Moves bucket pc pc') : pc.resting = false := by
  cases hm <;> rfl

/-- A thread that is in no call stays where it is. -/
theorem threads_of_resting {act : BlitzBucket.Act}
    (hs : BlitzBucket.step shared act = some shared') (hcall : isCallOf w act = false)
    (hrest : (shared.threads w).resting = true) : shared'.threads w = shared.threads w := by
  have hother : ∀ {u : Shared} {v : Nat} {pc : Pc}, u.threads = shared.threads → v ≠ w →
      (u.goto v pc).threads w = shared.threads w := fun hu hne =>
    (goto_threads hu ..).trans (if_neg hne.symm)
  cases stepped_of_step hs with
  | @called v op =>
      refine hother rfl ?_
      rintro rfl
      exact absurd hcall (by simp [isCallOf])
  | @moved v pc hm =>
      refine hother rfl ?_
      rintro rfl
      rw [resting_of_moves hm] at hrest
      cases hrest
  | clocked hw | won hw | refilled hw | took hw =>
      refine hother rfl ?_
      rintro rfl
      rw [hw] at hrest
      cases hrest

/-! ## The invariant -/

/-- The thread is in the `try_consume` that `wait_consume` waits for, and what
    remains is no more than there was to get. -/
def Matches (bytes : Nat) : WaitPc → Pc → Prop
  | .first n, pc => n = bytes ∧ tryAmount pc = some bytes
  | .check r _, _ => 0 < r ∧ r ≤ bytes
  | .sleep r _, _ => 0 < r ∧ r ≤ bytes
  | .ask r _, pc => (0 < r ∧ r ≤ bytes) ∧ tryAmount pc = some (batch r)
  | .returned _, _ => True

/-- What holds of a caller and its bucket. -/
structure WaitInv (b r created bytes : Nat) (s : Waiting) : Prop where
  bucket : BucketInv b r created s.shared
  pcs : Matches bytes s.pc (s.shared.threads s.me)

/-- At the head of the loop no call is pending. -/
theorem matches_loopHead {remaining delayMs : Nat} (h : remaining ≤ bytes) :
    Matches bytes (loopHead remaining delayMs) pc := by
  rw [loopHead]
  split
  next hpos => exact ⟨hpos, h⟩
  next => trivial

theorem waitInv_waiting (h : BucketInv b r created shared) (me : Nat) :
    WaitInv b r created bytes (waiting shared me bytes) := by
  refine ⟨h.called _, rfl, ?_⟩
  exact (congrArg tryAmount (goto_self ..)).trans (tryAmount_enter ..)

/-- The others do not call for the caller. -/
theorem isCallOf_of_allows {act : BlitzBucket.Act} (h : s.allows act = true) :
    isCallOf s.me act = false := by
  cases act with
  | call v op => simpa [Waiting.allows, isCallOf] using h
  | clock v now => rfl
  | go v => rfl

/-- A step of the bucket that is no call of the caller. -/
theorem waitInv_bucket {act : BlitzBucket.Act} (h : WaitInv b r created bytes s)
    (hs : BlitzBucket.step s.shared act = some shared') (hcall : isCallOf s.me act = false) :
    WaitInv b r created bytes { s with shared := shared', readAt := s.shown act } := by
  refine ⟨bucketInv_step h.bucket hs, ?_⟩
  have hsame : tryAmount (shared'.threads s.me) = tryAmount (s.shared.threads s.me) :=
    tryAmount_step hs hcall
  have hpcs := h.pcs
  show Matches bytes s.pc (shared'.threads s.me)
  cases hpc : s.pc with
  | first n =>
      rw [hpc] at hpcs
      exact ⟨hpcs.1, hsame.trans hpcs.2⟩
  | ask r d =>
      rw [hpc] at hpcs
      exact ⟨hpcs.1, hsame.trans hpcs.2⟩
  | check r d => rw [hpc] at hpcs; exact hpcs
  | sleep r d => rw [hpc] at hpcs; exact hpcs
  | returned ok => trivial

/-- What a step of the waiting thread can be. -/
inductive Waits (s : Waiting) : Act → Waiting → Prop
  | bucket {act x} (hs : BlitzBucket.step s.shared act = some x) (hallow : s.allows act = true) :
      Waits s (.bucket act) { s with shared := x, readAt := s.shown act }
  | first {n m ok} (hpc : s.pc = .first n) (hw : s.shared.threads s.me = .tried m ok) :
      Waits s .result { s with pc := afterFirst n ok }
  | asked {k d m ok} (hpc : s.pc = .ask k d) (hw : s.shared.threads s.me = .tried m ok) :
      Waits s .result { s with pc := afterAsk k d ok }
  | cancelled {k d} (hpc : s.pc = .check k d) :
      Waits s (.check true) { s with pc := .returned false }
  | goesOn {k d} (hpc : s.pc = .check k d) : Waits s (.check false) { s with pc := .sleep k d }
  | wakes {k d} (hpc : s.pc = .sleep k d) :
      Waits s .wake (s.tryConsume (batch k) (.ask k d))

/-- **What a caller does**: `step` does nothing but this. -/
theorem waits_of_step (h : step s a = some s') : Waits s a s' := by
  cases a with
  | bucket act =>
      simp only [step] at h
      split at h
      next hallow =>
        obtain ⟨x, hx, rfl⟩ := Option.map_eq_some_iff.mp h
        exact .bucket hx hallow
      next => exact nomatch h
  | result =>
      simp only [step] at h
      split at h
      next hpc hw => cases h; exact .first hpc hw
      next hpc hw => cases h; exact .asked hpc hw
      next => exact nomatch h
  | check cancelled =>
      simp only [step] at h
      split at h
      next hpc =>
        cases cancelled with
        | true => cases h; exact .cancelled hpc
        | false => cases h; exact .goesOn hpc
      next => exact nomatch h
  | wake =>
      simp only [step] at h
      split at h
      next hpc => cases h; exact .wakes hpc
      next => exact nomatch h

/-- **Step** of the caller or of the bucket. -/
theorem waitInv_step (h : WaitInv b r created bytes s) (hs : step s a = some s') :
    WaitInv b r created bytes s' := by
  obtain ⟨hbucket, hpcs⟩ := h
  cases waits_of_step hs with
  | bucket hact hallow => exact waitInv_bucket ⟨hbucket, hpcs⟩ hact (isCallOf_of_allows hallow)
  | @first n m ok hpc hw =>
      rw [hpc] at hpcs
      obtain ⟨rfl, -⟩ := hpcs
      refine ⟨hbucket, ?_⟩
      cases ok with
      | true => trivial
      | false => exact matches_loopHead (le_refl _)
  | @asked k d m ok hpc hw =>
      rw [hpc] at hpcs
      refine ⟨hbucket, ?_⟩
      cases ok with
      | true => exact matches_loopHead ((Nat.sub_le ..).trans hpcs.1.2)
      | false => exact matches_loopHead hpcs.1.2
  | cancelled hpc => exact ⟨hbucket, trivial⟩
  | goesOn hpc =>
      rw [hpc] at hpcs
      exact ⟨hbucket, hpcs⟩
  | @wakes k d hpc =>
      rw [hpc] at hpcs
      refine ⟨hbucket.called _, hpcs, ?_⟩
      exact (congrArg tryAmount (goto_self ..)).trans (tryAmount_enter ..)

/-- **Run**: the invariant holds in every state. -/
theorem waitInv_reaches (h : WaitInv b r created bytes s) (hreach : Reaches step s t) :
    WaitInv b r created bytes t := by
  obtain ⟨acts, hrun⟩ := hreach
  exact run_invariant (fun _ _ _ => waitInv_step) h hrun

/-! ## A bucket that is too small -/

/-- A larger amount is asked for in no smaller batches. -/
theorem batch_mono (h : n ≤ bytes) : batch n ≤ batch bytes :=
  min_le_min_right _ h

/-- No `try_consume` of the call has succeeded. -/
def Stuck (bytes : Nat) (s : Waiting) : Prop :=
  match s.pc with
  | .first _ => ∀ m, s.shared.threads s.me ≠ .tried m true
  | .check k _ => k = bytes
  | .sleep k _ => k = bytes
  | .ask k _ => k = bytes ∧ ∀ m, s.shared.threads s.me ≠ .tried m true
  | .returned ok => ok = false

theorem enter_ne_tried (h : BucketInv b r created shared) (op : Op) (me m : Nat) :
    (shared.goto me (enter shared.bucket op)).threads me ≠ .tried m true := by
  rw [goto_self]
  exact (enter_ok h.limited op 0).2.2 m true

/-- A thread does not get more than the capacity. -/
theorem ne_tried_step {act : BlitzBucket.Act} (h : BucketInv b r created shared)
    (hs : BlitzBucket.step shared act = some shared') (hcall : isCallOf w act = false)
    (hamount : tryAmount (shared.threads w) = some n) (hlt : b < n)
    (hne : ∀ m, shared.threads w ≠ .tried m true) (m : Nat) :
    shared'.threads w ≠ .tried m true := by
  intro hw
  have hm : some m = some n := by
    rw [← hamount, ← tryAmount_step hs hcall, hw]
    rfl
  have htakes := takesItsAmount_of_inv h shared' w m hs (hne m) hw
  have hle := h.tokens_le
  have hmn := Option.some.inj hm
  omega

/-- **Step**: a caller that asks for more than the bucket can hold stays. -/
theorem stuck_step (h : WaitInv b r created bytes s) (hlt : b < batch bytes) (hst : Stuck bytes s)
    (hs : step s a = some s') : Stuck bytes s' := by
  have hbytes : b < bytes := hlt.trans_le (min_le_left ..)
  have hhead : ∀ d, loopHead bytes d = .check bytes d := fun d => if_pos (Nat.zero_lt_of_lt hbytes)
  obtain ⟨hbucket, hpcs⟩ := h
  rw [Stuck] at hst ⊢
  cases waits_of_step hs with
  | bucket hact hallow =>
      have hcall := isCallOf_of_allows hallow
      dsimp only
      cases hpc : s.pc with
      | first n =>
          rw [hpc] at hst hpcs
          exact ne_tried_step hbucket hact hcall hpcs.2 hbytes hst
      | ask k d =>
          rw [hpc] at hst hpcs
          obtain ⟨rfl, hst⟩ := hst
          exact ⟨rfl, ne_tried_step hbucket hact hcall hpcs.2 hlt hst⟩
      | check k d => rw [hpc] at hst; exact hst
      | sleep k d => rw [hpc] at hst; exact hst
      | returned ok => rw [hpc] at hst; exact hst
  | @first n m ok hpc hw =>
      rw [hpc] at hst hpcs
      obtain ⟨rfl, -⟩ := hpcs
      cases ok with
      | true => exact absurd hw (hst m)
      | false =>
          -- refused, and what remains is all of it
          dsimp only [afterFirst]
          rw [if_neg (by decide), hhead]
  | @asked k d m ok hpc hw =>
      rw [hpc] at hst
      obtain ⟨rfl, hst⟩ := hst
      cases ok with
      | true => exact absurd hw (hst m)
      | false =>
          dsimp only [afterAsk]
          rw [if_neg (by decide), hhead]
  | cancelled => rfl
  | goesOn hpc => rw [hpc] at hst; exact hst
  | wakes hpc =>
      rw [hpc] at hst
      exact ⟨hst, fun m => enter_ne_tried hbucket _ _ m⟩

/-- **Run**: it stays for ever. -/
theorem stuck_reaches (h : WaitInv b r created bytes s) (hlt : b < batch bytes)
    (hst : Stuck bytes s) (hreach : Reaches step s t) : Stuck bytes t := by
  obtain ⟨acts, hrun⟩ := hreach
  refine (run_invariant (I := fun s => WaitInv b r created bytes s ∧ Stuck bytes s) ?_
    ⟨h, hst⟩ hrun).2
  rintro s a s' ⟨hinv, hst⟩ hs
  exact ⟨waitInv_step hinv hs, stuck_step hinv hlt hst hs⟩

/-- It never returns with its tokens. -/
theorem never_returns (h : WaitInv b r created bytes s) (hlt : b < batch bytes)
    (hst : Stuck bytes s) (hreach : Reaches step s t) : t.pc ≠ .returned true := by
  intro ht
  have hst' := stuck_reaches h hlt hst hreach
  rw [Stuck, ht] at hst'
  exact nomatch hst'

/-! ## What is asked for -/

/-- One step while nobody cancels. -/
def uncancelled (s : Waiting) (a : Act) : Option Waiting :=
  if a = .check true then none else step s a

/-- A step without a cancellation is a step. -/
theorem step_of_uncancelled (h : uncancelled s a = some s') : step s a = some s' := by
  rw [uncancelled] at h
  split at h
  · exact nomatch h
  next => exact h

/-- A run without a cancellation is a run. -/
theorem reaches_of_uncancelled (h : Reaches uncancelled s t) : Reaches step s t := by
  obtain ⟨acts, hrun⟩ := h
  refine ⟨acts, ?_⟩
  induction acts generalizing s with
  | nil => exact hrun
  | cons a acts ih =>
      obtain ⟨m, hm, hrest⟩ := run_cons_some hrun
      rw [run_cons (step_of_uncancelled hm)]
      exact ih hrest

/-- The invariant along runs without a cancellation. -/
theorem WaitInv.reaches (h : WaitInv b r created bytes s) (hreach : Reaches uncancelled s t) :
    WaitInv b r created bytes t :=
  waitInv_reaches h (reaches_of_uncancelled hreach)

/-- In its first `try_consume` the thread is shown any time. -/
theorem reaches_of_ownStep (hpc : s.pc = .first n)
    (h : Reaches (ownStep s.me) s.shared shared') :
    ∃ readAt, Reaches uncancelled s { s with shared := shared', readAt } := by
  obtain ⟨acts, hrun⟩ := h
  induction acts generalizing s with
  | nil =>
      cases hrun
      exact ⟨s.readAt, Reaches.refl⟩
  | cons x acts ih =>
      obtain ⟨m, hm, hrest⟩ := run_cons_some hrun
      have hone : ∃ readAt, uncancelled s (.bucket (x.elim (.go s.me) (.clock s.me)))
          = some { s with shared := m, readAt } := by
        cases x with
        | none => exact ⟨s.readAt, congrArg (Option.map _) hm⟩
        | some now =>
            refine ⟨s.shown (.clock s.me now), ?_⟩
            have hallow : s.allows (.clock s.me now) = true := by
              simp only [Waiting.allows, hpc]
            show step s (.bucket (.clock s.me now)) = _
            rw [step, if_pos hallow]
            exact congrArg (Option.map _) hm
      obtain ⟨readAt, hone⟩ := hone
      obtain ⟨readAt', hrest⟩ := ih (s := { s with shared := m, readAt }) hpc hrest
      exact ⟨readAt', (Reaches.single hone).trans hrest⟩

/-- The first try gets an answer. -/
theorem reaches_afterFirst (h : WaitInv b r created bytes s) (hpc : s.pc = .first n) :
    ∃ t ok, Reaches uncancelled s t ∧ t.pc = afterFirst n ok := by
  have hpcs := h.pcs
  rw [hpc] at hpcs
  obtain ⟨shared', ok, hown, hgot⟩ := canTry_of_tryAmount hpcs.2
  obtain ⟨readAt, hreach⟩ := reaches_of_ownStep hpc hown
  have hresult : uncancelled { s with shared := shared', readAt } .result
      = some { s with shared := shared', readAt, pc := afterFirst n ok } := by
    show step { s with shared := shared', readAt } .result = _
    simp only [step, hpc, hgot]
  exact ⟨_, ok, hreach.trans (Reaches.single hresult), rfl⟩

/-- What is asked for in the loop is no more than at first. -/
theorem batch_of_ask {delayMs : Nat} (h : WaitInv b r created bytes s)
    (hpc : s.pc = .ask n delayMs) : batch n ≤ batch bytes := by
  have hpcs := h.pcs
  rw [hpc] at hpcs
  exact batch_mono hpcs.1.2

/-- A call without room for its first batch comes to ask for it. -/
theorem reaches_ask (h : WaitInv b r created bytes s) (hlt : b < batch bytes) (hst : Stuck bytes s)
    (hpc : s.pc = .first bytes) :
    ∃ t, Reaches uncancelled s t ∧ t.pc = .ask bytes 1 := by
  obtain ⟨t, ok, hreach, ht⟩ := reaches_afterFirst h hpc
  have hbytes : 0 < bytes := Nat.zero_lt_of_lt (hlt.trans_le (min_le_left ..))
  have hst' := stuck_reaches h hlt hst (reaches_of_uncancelled hreach)
  cases ok with
  | true =>
      rw [Stuck, ht] at hst'
      exact nomatch hst'
  | false =>
      have ht : t.pc = .check bytes 1 := ht.trans (if_pos hbytes)
      have hcheck : uncancelled t (.check false) = some { t with pc := .sleep bytes 1 } := by
        simp [uncancelled, step, ht]
      have hwake : uncancelled { t with pc := .sleep bytes 1 } .wake
          = some ({ t with pc := .sleep bytes 1 }.tryConsume (batch bytes) (.ask bytes 1)) := rfl
      exact ⟨_, hreach.trans ((Reaches.single hcheck).trans (Reaches.single hwake)), rfl⟩

/-- **What is asked for** is within the capacity, in every run, exactly if the
    first batch is. -/
theorem asks_within_iff (h : WaitInv b r created bytes s) (hst : Stuck bytes s)
    (hpc : s.pc = .first bytes) :
    (∀ t, Reaches step s t → ∀ remaining delayMs, t.pc = .ask remaining delayMs →
      batch remaining ≤ b) ↔ batch bytes ≤ b := by
  constructor
  · intro hall
    by_contra hlt
    obtain ⟨t, hreach, ht⟩ := reaches_ask h (not_le.mp hlt) hst hpc
    exact hlt (hall t (reaches_of_uncancelled hreach) _ _ ht)
  · intro hroom t hreach remaining delayMs ht
    exact (batch_of_ask (waitInv_reaches h hreach) ht).trans hroom

end BlitzWaitConsumeRuns
