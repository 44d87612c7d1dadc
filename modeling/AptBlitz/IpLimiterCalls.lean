import AptBlitz.IpLimiter

/-! # `acquire`, await by await

    `IpLimiter` takes an `acquire` in one go.  Here calls run at once: a call
    stops at the locks it awaits, and between the lock of the first map and
    the semaphore it found there; others call, drop their permits and sweep in
    between, and a call that waits can be dropped.

    A call that has not answered has a global permit, and after its semaphore
    a permit of that.  What a semaphore has left, what is held and what the
    calls have is always the size of the semaphore: `accounted`. -/

namespace BlitzIpLimiterCalls

open Runs BlitzIpLimiter

/-- A call that has not answered, at the lock of `per_ip`, before the
    semaphore with number `k`, or at the lock of `per_ip_buckets` with the
    permit it has. -/
inductive Pending (ι : Type) where
  | perIp (ip : ι)
  | semaphore (ip : ι) (k : Nat)
  | buckets (ip : ι) (perIp : Option Nat)
  deriving DecidableEq

/-- The limiter, and the calls of `acquire` in progress. -/
structure Calls (ι : Type) where
  limiter : Limiter ι
  pending : List (Pending ι)

/-- The atomic steps of the calls, the drop of a permit and the sweep. -/
inductive Act (ι : Type) where
  /-- `acquire` is called -/
  | acquire (ip : ι)
  /-- a call has the lock of `per_ip`, and lets it go -/
  | perIpLocked (ip : ι) (now : Nat)
  /-- `try_acquire_owned` of the semaphore -/
  | trySemaphore (ip : ι) (k : Nat)
  /-- a call has the lock of `per_ip_buckets` -/
  | bucketsLocked (ip : ι) (perIp : Option Nat) (now : Nat)
  /-- the future of a call that waits for a lock is dropped -/
  | cancel (call : Pending ι)
  | drop (permit : IpPermit ι)
  | sweepPerIp (now : Nat)
  | sweepBuckets (now : Nat)

variable {ι : Type}

namespace Calls

/-- Nobody has called yet. -/
def new (perIpLimit globalLimit perIpBandwidth clock : Nat) : Calls ι :=
  ⟨Limiter.new perIpLimit globalLimit perIpBandwidth clock, []⟩

/-- A global permit is dropped. -/
def returnGlobal (l : Limiter ι) : Limiter ι := { l with globalLeft := l.globalLeft + 1 }

/-- A permit of a semaphore is dropped, if there is one. -/
def returnPerIp (l : Limiter ι) (perIp : Option Nat) : Limiter ι :=
  { l with
    left := match perIp with
      | some k => Function.update l.left k (l.left k + 1)
      | none => l.left }

/-- `get_or_create_bucket`, up to its lock: without a limit of the bandwidth
    there is nothing to wait for. -/
def wantBucket (s : Calls ι) (ip : ι) (perIp : Option Nat) : Calls ι :=
  if s.limiter.perIpBandwidth = 0 then
    { s with limiter := { s.limiter with held := ⟨ip, perIp, none⟩ :: s.limiter.held } }
  else { s with pending := .buckets ip perIp :: s.pending }

end Calls

open Calls

/-- What happens between two awaits of the calls, the drops and the sweeps. -/
def step [DecidableEq ι] (s : Calls ι) : Act ι → Option (Calls ι)
  | .acquire ip =>
      if s.limiter.globalLeft = 0 then some s
      else if s.limiter.perIpLimit = 0 then
        some (wantBucket { s with limiter := s.limiter.takeGlobal } ip none)
      else some ⟨s.limiter.takeGlobal, .perIp ip :: s.pending⟩
  | .perIpLocked ip now =>
      if .perIp ip ∈ s.pending then
        let (l, k) := s.limiter.semaphoreOf ip now
        some ⟨l, .semaphore ip k :: s.pending.erase (.perIp ip)⟩
      else none
  | .trySemaphore ip k =>
      if .semaphore ip k ∈ s.pending then
        let others := s.pending.erase (.semaphore ip k)
        if 0 < s.limiter.left k then some (wantBucket ⟨s.limiter.take k, others⟩ ip (some k))
        else some ⟨returnGlobal s.limiter, others⟩
      else none
  | .bucketsLocked ip perIp now =>
      if .buckets ip perIp ∈ s.pending then
        some ⟨s.limiter.grant ip perIp now, s.pending.erase (.buckets ip perIp)⟩
      else none
  | .cancel call =>
      if call ∈ s.pending then
        match call with
        | .perIp _ => some ⟨returnGlobal s.limiter, s.pending.erase call⟩
        | .semaphore _ _ => none
        | .buckets _ perIp =>
            some ⟨returnPerIp (returnGlobal s.limiter) perIp, s.pending.erase call⟩
      else none
  | .drop permit =>
      (BlitzIpLimiter.step s.limiter (.drop permit)).map fun limiter =>
        { s with limiter := limiter }
  | .sweepPerIp now =>
      some { s with
        limiter := { s.limiter with perIp := Limiter.retain s.limiter.perIp now } }
  | .sweepBuckets now =>
      some { s with
        limiter := { s.limiter with perIpBuckets := Limiter.retain s.limiter.perIpBuckets now } }

/-! ## Where the permits are -/

/-- The semaphore a call has found or has a permit of. -/
def Pending.number : Pending ι → Option Nat
  | .perIp _ => none
  | .semaphore _ k => some k
  | .buckets _ permit => permit

/-- The semaphore a call has a permit of. -/
def Pending.permit : Pending ι → Option Nat
  | .perIp _ => none
  | .semaphore _ _ => none
  | .buckets _ permit => permit

/-- A call with a permit knows its semaphore. -/
theorem Pending.number_of_permit {c : Pending ι} {k : Nat} (h : c.permit = some k) :
    c.number = some k := by
  cases c with
  | perIp ip => cases h
  | semaphore ip j => cases h
  | buckets ip perIp => exact h

/-- How many permits of a semaphore the calls in progress have. -/
def pendingOf (pending : List (Pending ι)) (k : Nat) : Nat :=
  pending.countP fun c => c.permit == some k

variable {s s' : Calls ι} {a : Act ι} {ip : ι} {size limit bandwidth now later k : Nat}
  {perIp : Option Nat} {hand : List (Option Nat)} {call : Pending ι} {permit : IpPermit ι}

/-- Every permit of the semaphores is left, held, with a call in progress or
    in the hand of the call that runs: for each call there, a global permit and
    one of the semaphore named. -/
structure Balanced (size limit : Nat) (hand : List (Option Nat)) (s : Calls ι) : Prop where
  limit_eq : s.limiter.perIpLimit = limit
  global : s.limiter.globalLeft
    + (s.limiter.held.length + s.pending.length + hand.length) = size
  perIp : ∀ k < s.limiter.semaphores, s.limiter.left k
    + (heldOf s.limiter.held k + pendingOf s.pending k + hand.count (some k)) = limit
  entry_lt : ∀ ip k t, s.limiter.perIp ip = some (k, t) → k < s.limiter.semaphores
  held_lt : ∀ p ∈ s.limiter.held, ∀ k, p.perIp = some k → k < s.limiter.semaphores
  pending_lt : ∀ c ∈ s.pending, ∀ k, c.number = some k → k < s.limiter.semaphores
  hand_lt : ∀ k, some k ∈ hand → k < s.limiter.semaphores

/-- The size of the global semaphore. -/
def sizeOf (globalLimit : Nat) : Nat := if globalLimit = 0 then unlimited else globalLimit

/-- At the start. -/
theorem balanced_new (globalLimit clock : Nat) :
    Balanced (sizeOf globalLimit) limit [] (Calls.new limit globalLimit bandwidth clock : Calls ι) where
  limit_eq := rfl
  global := rfl
  perIp := nofun
  entry_lt := nofun
  held_lt := nofun
  pending_lt := nofun
  hand_lt := nofun

/-! ## Permits change hands -/

theorem pendingOf_cons (c : Pending ι) (pending : List (Pending ι)) (k : Nat) :
    pendingOf (c :: pending) k = pendingOf pending k + if c.permit = some k then 1 else 0 := by
  rw [pendingOf, List.countP_cons]
  simp only [beq_iff_eq]
  rfl

theorem heldOf_cons (p : IpPermit ι) (held : List (IpPermit ι)) (k : Nat) :
    heldOf (p :: held) k = heldOf held k + if p.perIp = some k then 1 else 0 := by
  rw [heldOf, List.countP_cons]
  simp only [beq_iff_eq]
  rfl

theorem count_hand (perIp : Option Nat) (hand : List (Option Nat)) (k : Nat) :
    (perIp :: hand).count (some k) = hand.count (some k) + if perIp = some k then 1 else 0 := by
  rw [List.count_cons]
  simp only [beq_iff_eq]

/-- A global permit is taken. -/
theorem Balanced.takeGlobal (h : Balanced size limit hand s) (hleft : 0 < s.limiter.globalLeft) :
    Balanced size limit (none :: hand) { s with limiter := s.limiter.takeGlobal } where
  limit_eq := h.limit_eq
  global := by
    have hglobal := h.global
    show s.limiter.globalLeft - 1
      + (s.limiter.held.length + s.pending.length + (hand.length + 1)) = size
    omega
  perIp := by
    intro k hk
    rw [count_hand, if_neg nofun]
    exact h.perIp k hk
  entry_lt := h.entry_lt
  held_lt := h.held_lt
  pending_lt := h.pending_lt
  hand_lt := by
    intro k hk
    rcases List.mem_cons.mp hk with heq | hk
    · cases heq
    · exact h.hand_lt k hk

/-- The call that runs waits. -/
theorem Balanced.park (call : Pending ι) (h : Balanced size limit (call.permit :: hand) s)
    (hnumber : ∀ k, call.number = some k → k < s.limiter.semaphores) :
    Balanced size limit hand { s with pending := call :: s.pending } where
  limit_eq := h.limit_eq
  global := by
    have hglobal := h.global
    rw [List.length_cons] at hglobal ⊢
    show s.limiter.globalLeft + (s.limiter.held.length + (s.pending.length + 1) + _) = size
    omega
  perIp := by
    intro k hk
    have hperIp := h.perIp k hk
    rw [count_hand] at hperIp
    rw [pendingOf_cons]
    show s.limiter.left k + (heldOf s.limiter.held k + _ + _) = limit
    omega
  entry_lt := h.entry_lt
  held_lt := h.held_lt
  pending_lt := by
    intro c hc
    rcases List.mem_cons.mp hc with rfl | hc
    · exact hnumber
    · exact h.pending_lt c hc
  hand_lt := fun k hk => h.hand_lt k (List.mem_cons_of_mem _ hk)

/-- The call that runs returns a permit. -/
theorem Balanced.hold (permit : IpPermit ι) (h : Balanced size limit (permit.perIp :: hand) s) :
    Balanced size limit hand
      { s with limiter := { s.limiter with held := permit :: s.limiter.held } } where
  limit_eq := h.limit_eq
  global := by
    have hglobal := h.global
    rw [List.length_cons] at hglobal
    show s.limiter.globalLeft + (s.limiter.held.length + 1 + s.pending.length + _) = size
    omega
  perIp := by
    intro k hk
    have hperIp := h.perIp k hk
    rw [count_hand] at hperIp
    show s.limiter.left k + (heldOf (permit :: s.limiter.held) k + pendingOf s.pending k + _) = limit
    rw [heldOf_cons]
    omega
  entry_lt := h.entry_lt
  held_lt := by
    intro p hp k hk
    rcases List.mem_cons.mp hp with rfl | hp
    · exact h.hand_lt k (hk ▸ List.mem_cons_self)
    · exact h.held_lt p hp k hk
  pending_lt := h.pending_lt
  hand_lt := fun k hk => h.hand_lt k (List.mem_cons_of_mem _ hk)

/-- What the call that runs has in hand is dropped. -/
theorem Balanced.giveBack (h : Balanced size limit (perIp :: hand) s) :
    Balanced size limit hand { s with limiter := returnPerIp (returnGlobal s.limiter) perIp } where
  limit_eq := h.limit_eq
  global := by
    have hglobal := h.global
    rw [List.length_cons] at hglobal
    show s.limiter.globalLeft + 1
      + (s.limiter.held.length + s.pending.length + hand.length) = size
    omega
  perIp := by
    intro k hk
    have hperIp := h.perIp k hk
    rw [count_hand] at hperIp
    show (returnPerIp (returnGlobal s.limiter) perIp).left k + _ = limit
    cases perIp with
    | none =>
        rw [if_neg nofun] at hperIp
        exact hperIp
    | some j =>
        show Function.update s.limiter.left j (s.limiter.left j + 1) k
          + (heldOf s.limiter.held k + pendingOf s.pending k + hand.count (some k)) = limit
        by_cases hkj : k = j
        · subst hkj
          rw [if_pos rfl] at hperIp
          rw [Function.update_self]
          omega
        · rw [if_neg (by simpa using Ne.symm hkj)] at hperIp
          rw [Function.update_of_ne hkj]
          exact hperIp
  entry_lt := h.entry_lt
  held_lt := h.held_lt
  pending_lt := h.pending_lt
  hand_lt := fun k hk => h.hand_lt k (List.mem_cons_of_mem _ hk)

/-- The call that runs gets a permit of a semaphore that has one left. -/
theorem Balanced.take (h : Balanced size limit (none :: hand) s) (hk : k < s.limiter.semaphores)
    (hleft : 0 < s.limiter.left k) :
    Balanced size limit (some k :: hand) { s with limiter := s.limiter.take k } where
  limit_eq := h.limit_eq
  global := h.global
  perIp := by
    intro j hj
    have hperIp := h.perIp j hj
    rw [count_hand, if_neg nofun] at hperIp
    rw [count_hand]
    show Function.update s.limiter.left k (s.limiter.left k - 1) j + _ = limit
    by_cases hjk : j = k
    · subst hjk
      rw [Function.update_self, if_pos rfl]
      show s.limiter.left j - 1 + (heldOf s.limiter.held j + pendingOf s.pending j + _) = limit
      omega
    · rw [Function.update_of_ne hjk, if_neg (by simpa using Ne.symm hjk)]
      exact hperIp
  entry_lt := h.entry_lt
  held_lt := h.held_lt
  pending_lt := h.pending_lt
  hand_lt := by
    intro j hj
    rcases List.mem_cons.mp hj with heq | hj
    · cases heq
      exact hk
    · exact h.hand_lt j (List.mem_cons_of_mem _ hj)

/-- The sweeps forget entries, and the permits keep their semaphores. -/
theorem Balanced.retain (h : Balanced size limit hand s) (now : Nat) :
    Balanced size limit hand
      { s with limiter := { s.limiter with perIp := Limiter.retain s.limiter.perIp now } } :=
  { h with entry_lt := fun ip k t he => h.entry_lt ip k t (retain_some he) }

variable [DecidableEq ι]

/-- A call that waits runs. -/
theorem Balanced.resume (h : Balanced size limit hand s) (hmem : call ∈ s.pending) :
    Balanced size limit (call.permit :: hand) { s with pending := s.pending.erase call } where
  limit_eq := h.limit_eq
  global := by
    have hglobal := h.global
    have hlength := List.length_erase_of_mem hmem
    have hpos := List.length_pos_of_mem hmem
    show s.limiter.globalLeft
      + (s.limiter.held.length + (s.pending.erase call).length + (hand.length + 1)) = size
    omega
  perIp := by
    intro k hk
    have hperIp := h.perIp k hk
    have hperm := (List.perm_cons_erase hmem).countP_eq fun c => c.permit == some k
    have hcons := pendingOf_cons call (s.pending.erase call) k
    rw [count_hand]
    show s.limiter.left k
      + (heldOf s.limiter.held k + pendingOf (s.pending.erase call) k + _) = limit
    simp only [pendingOf] at hperIp hcons ⊢
    omega
  entry_lt := h.entry_lt
  held_lt := h.held_lt
  pending_lt := fun c hc => h.pending_lt c (List.mem_of_mem_erase hc)
  hand_lt := by
    intro k hk
    rcases List.mem_cons.mp hk with heq | hk
    · exact h.pending_lt call hmem k (Pending.number_of_permit heq.symm)
    · exact h.hand_lt k hk

/-- A permit that is held is taken in hand, to be dropped. -/
theorem Balanced.takeHeld (h : Balanced size limit hand s) (hmem : permit ∈ s.limiter.held) :
    Balanced size limit (permit.perIp :: hand)
      { s with limiter := { s.limiter with held := s.limiter.held.erase permit } } where
  limit_eq := h.limit_eq
  global := by
    have hglobal := h.global
    have hlength := List.length_erase_of_mem hmem
    have hpos := List.length_pos_of_mem hmem
    show s.limiter.globalLeft
      + ((s.limiter.held.erase permit).length + s.pending.length + (hand.length + 1)) = size
    omega
  perIp := by
    intro k hk
    have hperIp := h.perIp k hk
    have hheld := heldOf_erase hmem k
    rw [count_hand]
    show s.limiter.left k
      + (heldOf (s.limiter.held.erase permit) k + pendingOf s.pending k + _) = limit
    omega
  entry_lt := h.entry_lt
  held_lt := fun p hp => h.held_lt p (List.mem_of_mem_erase hp)
  pending_lt := h.pending_lt
  hand_lt := by
    intro k hk
    rcases List.mem_cons.mp hk with heq | hk
    · exact h.held_lt permit hmem k heq.symm
    · exact h.hand_lt k hk

omit [DecidableEq ι] in
/-- A number that no semaphore has yet is nobody's. -/
theorem Balanced.fresh (h : Balanced size limit hand s) :
    heldOf s.limiter.held s.limiter.semaphores + pendingOf s.pending s.limiter.semaphores
      + hand.count (some s.limiter.semaphores) = 0 := by
  have hheld : heldOf s.limiter.held s.limiter.semaphores = 0 := by
    refine List.countP_eq_zero.mpr ?_
    intro p hp heq
    exact absurd (h.held_lt p hp _ (beq_iff_eq.mp heq)) (Nat.lt_irrefl _)
  have hpending : pendingOf s.pending s.limiter.semaphores = 0 := by
    refine List.countP_eq_zero.mpr ?_
    intro c hc heq
    exact absurd (h.pending_lt c hc _ (Pending.number_of_permit (beq_iff_eq.mp heq)))
      (Nat.lt_irrefl _)
  have hhand : hand.count (some s.limiter.semaphores) = 0 := by
    refine List.count_eq_zero.mpr ?_
    intro hmem
    exact absurd (h.hand_lt _ hmem) (Nat.lt_irrefl _)
  omega

/-- The semaphore of the address is found or made. -/
theorem Balanced.semaphoreOf (h : Balanced size limit hand s) (ip : ι) (now : Nat) :
    Balanced size limit hand { s with limiter := (s.limiter.semaphoreOf ip now).1 } ∧
      (s.limiter.semaphoreOf ip now).2 < (s.limiter.semaphoreOf ip now).1.semaphores := by
  cases hentry : s.limiter.perIp ip with
  | some e =>
      obtain ⟨k, t⟩ := e
      have hk := h.entry_lt ip k t hentry
      rw [semaphoreOf_found hentry]
      refine ⟨{ h with entry_lt := ?_ }, hk⟩
      intro ip' k' t' he
      have he : Function.update s.limiter.perIp ip (some (k, now)) ip' = some (k', t') := he
      by_cases hip : ip' = ip
      · rw [hip, Function.update_self] at he
        cases he
        exact hk
      · rw [Function.update_of_ne hip] at he
        exact h.entry_lt ip' k' t' he
  | none =>
      rw [semaphoreOf_missed hentry]
      refine ⟨{ h with
        perIp := ?_
        entry_lt := ?_
        held_lt := fun p hp k hk => Nat.lt_succ_of_lt (h.held_lt p hp k hk)
        pending_lt := fun c hc k hk => Nat.lt_succ_of_lt (h.pending_lt c hc k hk)
        hand_lt := fun k hk => Nat.lt_succ_of_lt (h.hand_lt k hk) }, Nat.lt_succ_self _⟩
      · intro k hk
        show Function.update s.limiter.left s.limiter.semaphores s.limiter.perIpLimit k
          + (heldOf s.limiter.held k + pendingOf s.pending k + hand.count (some k)) = limit
        rcases Nat.lt_succ_iff_lt_or_eq.mp hk with hlt | rfl
        · rw [Function.update_of_ne (Nat.ne_of_lt hlt)]
          exact h.perIp k hlt
        · rw [Function.update_self, h.fresh]
          exact h.limit_eq
      · intro ip' k' t' he
        have he : Function.update s.limiter.perIp ip (some (s.limiter.semaphores, now)) ip'
          = some (k', t') := he
        show k' < s.limiter.semaphores + 1
        by_cases hip : ip' = ip
        · rw [hip, Function.update_self] at he
          cases he
          exact Nat.lt_succ_self _
        · rw [Function.update_of_ne hip] at he
          exact Nat.lt_succ_of_lt (h.entry_lt ip' k' t' he)

/-- `get_or_create_bucket` changes the buckets only. -/
theorem getOrCreateBucket_frame (l : Limiter ι) (ip : ι) (now : Nat) :
    ∃ perIpBuckets buckets, (l.getOrCreateBucket ip now).1
      = { l with perIpBuckets := perIpBuckets, buckets := buckets } := by
  by_cases hzero : l.perIpBandwidth = 0
  · rw [Limiter.getOrCreateBucket, if_pos hzero]
    exact ⟨l.perIpBuckets, l.buckets, rfl⟩
  · have hpos := Nat.pos_of_ne_zero hzero
    cases hentry : l.perIpBuckets ip with
    | some e =>
        rw [getOrCreateBucket_found hpos hentry]
        exact ⟨_, l.buckets, rfl⟩
    | none =>
        rw [getOrCreateBucket_missed hpos hentry]
        exact ⟨_, _, rfl⟩

/-- A call returns its permit. -/
theorem Balanced.grant (h : Balanced size limit (perIp :: hand) s) (ip : ι) (now : Nat) :
    Balanced size limit hand { s with limiter := s.limiter.grant ip perIp now } := by
  obtain ⟨perIpBuckets, buckets, hframe⟩ := getOrCreateBucket_frame s.limiter ip now
  rw [Limiter.grant, hframe]
  have hbuckets : Balanced size limit (perIp :: hand) { s with
      limiter := { s.limiter with perIpBuckets := perIpBuckets, buckets := buckets } } :=
    { h with }
  exact hbuckets.hold ⟨ip, perIp, (s.limiter.getOrCreateBucket ip now).2⟩

omit [DecidableEq ι] in
/-- A call goes on to the bucket. -/
theorem Balanced.wantBucket (h : Balanced size limit (perIp :: hand) s) (ip : ι) :
    Balanced size limit hand (wantBucket s ip perIp) := by
  rw [Calls.wantBucket]
  split
  · exact h.hold ⟨ip, perIp, none⟩
  · refine h.park (.buckets ip perIp) ?_
    intro k hk
    exact h.hand_lt k (List.mem_cons.mpr (Or.inl hk.symm))

/-! ## Runs -/

/-- **Step** of any call. -/
theorem balanced_step (h : Balanced size limit [] s) (hs : step s a = some s') :
    Balanced size limit [] s' := by
  cases a with
  | acquire ip =>
      simp only [step] at hs
      split at hs
      next => cases hs; exact h
      next hglobal =>
        have htaken := h.takeGlobal (Nat.pos_of_ne_zero hglobal)
        split at hs
        next => cases hs; exact htaken.wantBucket ip
        next => cases hs; exact htaken.park (.perIp ip) nofun
  | perIpLocked ip now =>
      simp only [step] at hs
      split at hs
      next hmem =>
        cases hs
        obtain ⟨hfound, hlt⟩ := (h.resume hmem).semaphoreOf ip now
        refine hfound.park (.semaphore ip _) ?_
        rintro k ⟨⟩
        exact hlt
      next => cases hs
  | trySemaphore ip k =>
      simp only [step] at hs
      split at hs
      next hmem =>
        have hk := h.pending_lt _ hmem k rfl
        have hresumed := h.resume hmem
        split at hs
        next hleft => cases hs; exact (hresumed.take hk hleft).wantBucket ip
        next => cases hs; exact hresumed.giveBack
      next => cases hs
  | bucketsLocked ip perIp now =>
      simp only [step] at hs
      split at hs
      next hmem => cases hs; exact (h.resume hmem).grant ip now
      next => cases hs
  | cancel call =>
      simp only [step] at hs
      split at hs
      next hmem =>
        have hresumed := h.resume hmem
        cases call with
        | perIp ip => cases hs; exact hresumed.giveBack
        | semaphore ip k => cases hs
        | buckets ip perIp => cases hs; exact hresumed.giveBack
      next => cases hs
  | drop permit =>
      obtain ⟨limiter, hdrop, rfl⟩ := Option.map_eq_some_iff.mp hs
      rw [BlitzIpLimiter.step] at hdrop
      split at hdrop
      next hmem =>
        cases hdrop
        exact (h.takeHeld hmem).giveBack
      next => cases hdrop
  | sweepPerIp now =>
      cases hs
      exact h.retain now
  | sweepBuckets now =>
      cases hs
      exact { h with }

/-- What the semaphores have left is what is not out: with the permits held
    and the calls in progress that has the size of the global semaphore, and
    the limit for each semaphore of an address. -/
structure Accounted (size limit : Nat) (s : Calls ι) : Prop where
  bound : s.limiter.held.length + s.pending.length ≤ size
  idle : s.pending = [] → s.limiter.globalLeft = size - s.limiter.held.length
  global : s.limiter.globalLeft + (s.limiter.held.length + s.pending.length) = size
  perIp : ∀ k < s.limiter.semaphores,
    s.limiter.left k + (heldOf s.limiter.held k + pendingOf s.pending k) = limit

omit [DecidableEq ι] in
/-- Nothing in the hand: every permit is there, held or in a call. -/
theorem Balanced.toAccounted (h : Balanced size limit [] s) : Accounted size limit s := by
  have hglobal : s.limiter.globalLeft + (s.limiter.held.length + s.pending.length) = size :=
    h.global
  refine ⟨by omega, ?_, hglobal, h.perIp⟩
  intro hidle
  rw [hidle, List.length_nil] at hglobal
  omega

/-- A call that is refused leaves the permits to the others as they were, and
    what it had taken is back: nothing when the global semaphore refuses, the
    global permit when that of its address does.  So does one whose future is
    dropped. -/
def GivesBack (s : Calls ι) : Act ι → Prop
  | .acquire ip => s.limiter.globalLeft = 0 → step s (.acquire ip) = some s
  | .trySemaphore ip k => s.limiter.left k = 0 → .semaphore ip k ∈ s.pending →
      step s (.trySemaphore ip k) = some
        ⟨returnGlobal s.limiter, s.pending.erase (.semaphore ip k)⟩
  | .cancel call => ∀ s', step s (.cancel call) = some s' →
      s' = ⟨returnPerIp (returnGlobal s.limiter) call.permit, s.pending.erase call⟩
  | _ => True

/-- A call that is given up gives back what it had taken. -/
theorem givesBack (s : Calls ι) (a : Act ι) : GivesBack s a := by
  cases a with
  | acquire ip =>
      intro hglobal
      rw [step, if_pos hglobal]
  | trySemaphore ip k =>
      intro hleft hmem
      rw [step, if_pos hmem, hleft]
      rfl
  | cancel call =>
      intro s' hs
      simp only [step] at hs
      split at hs
      next =>
        cases call with
        | perIp ip => cases hs; rfl
        | semaphore ip k => cases hs
        | buckets ip perIp => cases hs; rfl
      next => cases hs
  | _ => trivial

/-- **Nothing is lost**: whatever the calls, the drops and the sweeps do, the
    permits held and the calls in progress are never more than the global
    semaphore has, and without calls in progress what is left of it is what
    is not held; a call that is refused gives back all it took. -/
theorem accounted (perIpLimit globalLimit perIpBandwidth clock : Nat) (acts : List (Act ι)) :
    Always step (Accounted (sizeOf globalLimit) perIpLimit)
        (Calls.new perIpLimit globalLimit perIpBandwidth clock : Calls ι) acts ∧
      Along step GivesBack
        (Calls.new perIpLimit globalLimit perIpBandwidth clock : Calls ι) acts := by
  constructor
  · exact always_of_step (fun _ _ _ => balanced_step) (fun _ h => h.toAccounted)
      (balanced_new globalLimit clock)
  · exact along_of_mem fun a _ s => givesBack s a

/-- A limit of 0 is none: one permit is held. -/
theorem not_accounted_unlimited :
    ∃ s, run step (Calls.new 0 0 0 0) [.acquire 7] = some s ∧ ¬ Accounted 0 0 s :=
  ⟨_, rfl, fun h => absurd h.bound (by decide)⟩

/-! ## A call in one go -/

/-- The lock of the buckets, and the permit. -/
theorem reaches_grant (s : Calls ι) (ip : ι) (perIp : Option Nat) (now : Nat) :
    Reaches step (wantBucket s ip perIp) ⟨s.limiter.grant ip perIp now, s.pending⟩ := by
  by_cases hzero : s.limiter.perIpBandwidth = 0
  · have hgrant : wantBucket s ip perIp = ⟨s.limiter.grant ip perIp now, s.pending⟩ := by
      rw [Calls.wantBucket, if_pos hzero, Limiter.grant, Limiter.getOrCreateBucket, if_pos hzero]
    rw [hgrant]
    exact Reaches.refl
  · have hwaits : wantBucket s ip perIp
        = { s with pending := .buckets ip perIp :: s.pending } := by
      rw [Calls.wantBucket, if_neg hzero]
    rw [hwaits]
    refine Reaches.single (a := .bucketsLocked ip perIp now) ?_
    simp only [step]
    rw [if_pos List.mem_cons_self, List.erase_cons_head]

/-- **Refinement**: a call that nothing comes between ends as `Limiter.acquire`
    has it. -/
theorem reaches_acquire (s : Calls ι) (ip : ι) (now later : Nat) :
    Reaches step s ⟨s.limiter.acquire ip now later, s.pending⟩ := by
  rw [Limiter.acquire]
  by_cases hglobal : s.limiter.globalLeft = 0
  · rw [if_pos hglobal]
    exact Reaches.refl
  rw [if_neg hglobal]
  by_cases hlimit : s.limiter.perIpLimit = 0
  · rw [if_pos hlimit]
    have hcalled : step s (.acquire ip)
        = some (wantBucket { s with limiter := s.limiter.takeGlobal } ip none) := by
      rw [step, if_neg hglobal, if_pos hlimit]
    exact (Reaches.single hcalled).trans (reaches_grant _ ip none later)
  rw [if_neg hlimit]
  have hcalled : step s (.acquire ip)
      = some ⟨s.limiter.takeGlobal, .perIp ip :: s.pending⟩ := by
    rw [step, if_neg hglobal, if_neg hlimit]
  generalize hfound : s.limiter.takeGlobal.semaphoreOf ip now = found
  obtain ⟨l, k⟩ := found
  have hlocked : step ⟨s.limiter.takeGlobal, .perIp ip :: s.pending⟩ (.perIpLocked ip now)
      = some ⟨l, .semaphore ip k :: s.pending⟩ := by
    simp only [step]
    rw [if_pos List.mem_cons_self, hfound, List.erase_cons_head]
  refine (Reaches.single hcalled).trans ((Reaches.single hlocked).trans ?_)
  dsimp only
  by_cases hleft : 0 < l.left k
  · rw [if_pos hleft]
    have htried : step ⟨l, .semaphore ip k :: s.pending⟩ (.trySemaphore ip k)
        = some (wantBucket ⟨l.take k, s.pending⟩ ip (some k)) := by
      simp only [step]
      rw [if_pos List.mem_cons_self, if_pos hleft, List.erase_cons_head]
    exact (Reaches.single htried).trans (reaches_grant _ ip (some k) later)
  · rw [if_neg hleft]
    refine Reaches.single (a := .trySemaphore ip k) ?_
    simp only [step]
    rw [if_pos List.mem_cons_self, if_neg hleft, List.erase_cons_head]
    rfl

end BlitzIpLimiterCalls
