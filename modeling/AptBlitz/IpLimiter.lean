import AptBlitz.Library.Runs
import Mathlib.Logic.Function.Basic

/-! # Permits by IP

    `IpRateLimiter`.  The semaphores and the token buckets behind its two
    maps are reference-counted: a permit keeps them when the map lets them
    go, so they have numbers here, and the maps and the permits hold numbers.

    An entry is dropped by age, not by use.  While no `acquire` misses an
    entry whose permits are still held, the permits of an address come from
    one semaphore and share one bucket: `permits_of_ip`.

    Addresses are any type; times are in nanoseconds. -/

namespace BlitzIpLimiter

open Runs

/-- `UNLIMITED`. -/
def unlimited : Nat := 1000000

/-- `MAP_ENTRY_TTL`. -/
def mapEntryTtl : Nat := 600 * 1000000000

variable {ι : Type}

/-- The number of a semaphore or of a bucket, and when it was last used. -/
abbrev EntryMap (ι : Type) := ι → Option (Nat × Nat)

/-- `IpRateLimiter`; a map has a number and a time for each IP, the number
    standing for the semaphore or bucket that the `Arc` points to. -/
structure IpRateLimiter (ι : Type) where
  perIp : EntryMap ι
  perIpLimit : Nat
  /-- what the global semaphore has left -/
  globalLeft : Nat
  perIpBandwidth : Nat
  perIpBuckets : EntryMap ι

/-- `IpPermit`, and whose it is. -/
structure IpPermit (ι : Type) where
  ip : ι
  perIp : Option Nat
  perIpBucket : Option Nat
  deriving DecidableEq

/-- The limiter, what its semaphores have left, and the permits held. -/
structure Limiter (ι : Type) extends IpRateLimiter ι where
  left : Nat → Nat
  /-- how many semaphores there have been -/
  semaphores : Nat
  /-- how many buckets there have been -/
  buckets : Nat
  held : List (IpPermit ι)
  clock : Nat

/-- `new`. -/
def Limiter.new (perIpLimit globalLimit perIpBandwidth clock : Nat) : Limiter ι where
  perIp := fun _ => none
  perIpLimit := perIpLimit
  globalLeft := if globalLimit = 0 then unlimited else globalLimit
  perIpBandwidth := perIpBandwidth
  perIpBuckets := fun _ => none
  left := fun _ => 0
  semaphores := 0
  buckets := 0
  held := []
  clock := clock

namespace Limiter

section

variable [DecidableEq ι]

/-- The entry of the address, made if there is none, with the time of its use. -/
def semaphoreOf (s : Limiter ι) (ip : ι) (now : Nat) : Limiter ι × Nat :=
  match s.perIp ip with
  | some (k, _) => ({ s with perIp := Function.update s.perIp ip (some (k, now)) }, k)
  | none =>
      ({ s with
          perIp := Function.update s.perIp ip (some (s.semaphores, now))
          left := Function.update s.left s.semaphores s.perIpLimit
          semaphores := s.semaphores + 1 }, s.semaphores)

/-- `get_or_create_bucket`. -/
def getOrCreateBucket (s : Limiter ι) (ip : ι) (now : Nat) : Limiter ι × Option Nat :=
  if s.perIpBandwidth = 0 then (s, none)
  else match s.perIpBuckets ip with
    | some (k, _) =>
        ({ s with perIpBuckets := Function.update s.perIpBuckets ip (some (k, now)) }, some k)
    | none =>
        ({ s with
            perIpBuckets := Function.update s.perIpBuckets ip (some (s.buckets, now))
            buckets := s.buckets + 1 }, some s.buckets)

/-- The permit is returned to the caller of `acquire`, who holds it. -/
def grant (s : Limiter ι) (ip : ι) (perIp : Option Nat) (now : Nat) : Limiter ι :=
  let result := s.getOrCreateBucket ip now
  { result.1 with held := ⟨ip, perIp, result.2⟩ :: result.1.held }

/-- `try_acquire_owned` of the global semaphore. -/
def takeGlobal (s : Limiter ι) : Limiter ι := { s with globalLeft := s.globalLeft - 1 }

/-- `try_acquire_owned` of a semaphore that has one left. -/
def take (s : Limiter ι) (k : Nat) : Limiter ι :=
  { s with left := Function.update s.left k (s.left k - 1) }

/-- `acquire`; the second time is that of `get_or_create_bucket`. -/
def acquire (s : Limiter ι) (ip : ι) (now later : Nat) : Limiter ι :=
  if s.globalLeft = 0 then s
  else if s.perIpLimit = 0 then s.takeGlobal.grant ip none later
  else
    let (t, k) := s.takeGlobal.semaphoreOf ip now
    if 0 < t.left k then (t.take k).grant ip (some k) later
    -- the global permit is dropped
    else { t with globalLeft := t.globalLeft + 1 }

/-- An `IpPermit` is dropped. -/
def release (s : Limiter ι) (permit : IpPermit ι) : Limiter ι :=
  { s with
    globalLeft := s.globalLeft + 1
    left := match permit.perIp with
      | some k => Function.update s.left k (s.left k + 1)
      | none => s.left
    held := s.held.erase permit }

end

/-- `checked_duration_since` fails for a time that has not come. -/
def retained (now : Nat) (entry : Nat × Nat) : Bool :=
  if entry.2 ≤ now then now - entry.2 < mapEntryTtl else true

/-- `retain` of `sweep_stale_entries_at`. -/
def retain (map : EntryMap ι) (now : Nat) : EntryMap ι := fun ip => (map ip).filter (retained now)

/-- `sweep_stale_entries_at`. -/
def sweep (s : Limiter ι) (now : Nat) : Limiter ι :=
  { s with perIp := retain s.perIp now, perIpBuckets := retain s.perIpBuckets now }

end Limiter

/-- `acquire` with the readings of its clock, the drop of a permit, and the
    sweep. -/
inductive Act (ι : Type) where
  | acquire (ip : ι) (now later : Nat)
  | drop (permit : IpPermit ι)
  | sweep (now : Nat)

/-- One operation; the clock does not go back. -/
def step [DecidableEq ι] (s : Limiter ι) : Act ι → Option (Limiter ι)
  | .acquire ip now later =>
      if s.clock ≤ now ∧ now ≤ later then some { s.acquire ip now later with clock := later }
      else none
  | .drop permit => if permit ∈ s.held then some (s.release permit) else none
  | .sweep now => if s.clock ≤ now then some { s.sweep now with clock := now } else none

/-! ## Entries and the permits they have given -/

variable {s s' : Limiter ι} {a : Act ι} {map map' : EntryMap ι} {held held' : List (IpPermit ι)}
  {ip : ι} {limit bandwidth now later k t : Nat} {permit : IpPermit ι}
  {number : IpPermit ι → Option Nat}

/-- The permits of an address have one number, and its entry, if there is
    one, has the same. -/
structure Owned (map : EntryMap ι) (number : IpPermit ι → Option Nat) (held : List (IpPermit ι)) :
    Prop where
  entry : ∀ p ∈ held, ∀ k t, map p.ip = some (k, t) → number p = some k
  same : ∀ p ∈ held, ∀ q ∈ held, p.ip = q.ip → number p = number q

/-- An owner stays one if nobody else gets a permit. -/
theorem Owned.mono (h : Owned map number held) (hmap : ∀ ip e, map' ip = some e → map ip = some e)
    (hheld : ∀ p ∈ held', p ∈ held) : Owned map' number held' :=
  ⟨fun p hp k t he => h.entry p (hheld p hp) k t (hmap _ _ he),
    fun p hp q hq => h.same p (hheld p hp) q (hheld q hq)⟩

/-- A permit is given on an entry. -/
theorem Owned.give (h : Owned map number held) (hentry : map permit.ip = some (k, t))
    (hnumber : number permit = some k) : Owned map number (permit :: held) := by
  have hother : ∀ q ∈ held, q.ip = permit.ip → number q = some k :=
    fun q hq hip => h.entry q hq k t (hip ▸ hentry)
  constructor
  · intro p hp k' t' he
    rcases List.mem_cons.mp hp with rfl | hp
    · rw [hentry] at he
      cases he
      exact hnumber
    · exact h.entry p hp k' t' he
  · intro p hp q hq hip
    rcases List.mem_cons.mp hp with rfl | hp'
    · rcases List.mem_cons.mp hq with rfl | hq'
      · rfl
      · rw [hnumber, hother q hq' hip.symm]
    · rcases List.mem_cons.mp hq with rfl | hq'
      · rw [hnumber, hother p hp' hip]
      · exact h.same p hp' q hq' hip

theorem retain_some {e : Nat × Nat} (h : Limiter.retain map now ip = some e) : map ip = some e :=
  (Option.filter_eq_some_iff.mp h).1

/-! ## The invariant -/

/-- How many permits of a semaphore are held. -/
def heldOf (held : List (IpPermit ι)) (k : Nat) : Nat :=
  held.countP fun p => p.perIp == some k

/-- What a limiter without stale holders keeps to. -/
structure PermitInv (limit bandwidth : Nat) (s : Limiter ι) : Prop where
  limit_eq : s.perIpLimit = limit
  bandwidth_eq : s.perIpBandwidth = bandwidth
  /-- a semaphore's permits are there or held -/
  left_add : ∀ k < s.semaphores, s.left k + heldOf s.held k = limit
  entry_lt : ∀ ip k t, s.perIp ip = some (k, t) → k < s.semaphores
  held_lt : ∀ p ∈ s.held, ∃ k < s.semaphores, p.perIp = some k
  semaphore : Owned s.perIp IpPermit.perIp s.held
  bucket : 0 < bandwidth → Owned s.perIpBuckets IpPermit.perIpBucket s.held
  /-- a permit has a bucket when there are any -/
  bucket_some : ∀ p ∈ s.held, 0 < bandwidth → p.perIpBucket.isSome

/-- At the start. -/
theorem permitInv_new (globalLimit : Nat) (clock : Nat) :
    PermitInv limit bandwidth (Limiter.new limit globalLimit bandwidth clock : Limiter ι) where
  limit_eq := rfl
  bandwidth_eq := rfl
  left_add := nofun
  entry_lt := nofun
  held_lt := nofun
  semaphore := ⟨nofun, nofun⟩
  bucket := fun _ => ⟨nofun, nofun⟩
  bucket_some := nofun

/-- The clock and the global semaphore are free. -/
theorem PermitInv.frame (h : PermitInv limit bandwidth s) (globalLeft clock : Nat) :
    PermitInv limit bandwidth { s with globalLeft := globalLeft, clock := clock } :=
  { h with }

/-- A sweep that takes no entry of a holder. -/
theorem PermitInv.sweep (h : PermitInv limit bandwidth s) (now : Nat) :
    PermitInv limit bandwidth (s.sweep now) where
  limit_eq := h.limit_eq
  bandwidth_eq := h.bandwidth_eq
  left_add := h.left_add
  entry_lt := fun ip k t he => h.entry_lt ip k t (retain_some he)
  held_lt := h.held_lt
  semaphore := h.semaphore.mono (fun _ _ => retain_some) (fun _ => id)
  bucket := fun hpos => (h.bucket hpos).mono (fun _ _ => retain_some) (fun _ => id)
  bucket_some := h.bucket_some

/-- Nobody holds a permit of a semaphore to come. -/
theorem heldOf_new (h : PermitInv limit bandwidth s) : heldOf s.held s.semaphores = 0 := by
  refine List.countP_eq_zero.mpr ?_
  intro p hp
  obtain ⟨k, hk, hperIp⟩ := h.held_lt p hp
  rw [hperIp]
  simpa using Nat.ne_of_lt hk

/-! ## The operations -/

variable [DecidableEq ι]

/-- The use of an entry is noted. -/
theorem Owned.touch (h : Owned map number held) (hentry : map ip = some (k, t)) :
    Owned (Function.update map ip (some (k, now))) number held := by
  refine ⟨?_, h.same⟩
  intro p hp k' t' he
  by_cases hip : p.ip = ip
  · rw [hip, Function.update_self] at he
    cases he
    exact h.entry p hp k t (hip ▸ hentry)
  · rw [Function.update_of_ne hip] at he
    exact h.entry p hp k' t' he

/-- An entry is made for an address that holds no permit. -/
theorem Owned.make (h : Owned map number held) (hfree : ∀ p ∈ held, p.ip ≠ ip) :
    Owned (Function.update map ip (some (k, now))) number held := by
  refine ⟨?_, h.same⟩
  intro p hp k' t' he
  rw [Function.update_of_ne (hfree p hp)] at he
  exact h.entry p hp k' t' he

/-- A permit less is held. -/
theorem heldOf_erase (hmem : permit ∈ held) (k : Nat) :
    heldOf held k = heldOf (held.erase permit) k + if permit.perIp = some k then 1 else 0 := by
  have hperm := (List.perm_cons_erase hmem).countP_eq (fun p => p.perIp == some k)
  simp only [heldOf]
  rw [hperm, List.countP_cons]
  simp

/-- A permit goes back to the semaphore it came from. -/
theorem PermitInv.release (h : PermitInv limit bandwidth s) (hmem : permit ∈ s.held) :
    PermitInv limit bandwidth (s.release permit) where
  limit_eq := h.limit_eq
  bandwidth_eq := h.bandwidth_eq
  left_add := by
    obtain ⟨j, hj, hperIp⟩ := h.held_lt permit hmem
    intro k hk
    have hleft := h.left_add k hk
    rw [heldOf_erase hmem, hperIp] at hleft
    show (match permit.perIp with
      | some j => Function.update s.left j (s.left j + 1)
      | none => s.left) k + heldOf (s.held.erase permit) k = limit
    rw [hperIp]
    by_cases hkj : k = j
    · subst hkj
      rw [if_pos rfl] at hleft
      show Function.update s.left k (s.left k + 1) k + _ = limit
      rw [Function.update_self]
      omega
    · rw [if_neg (by simpa using Ne.symm hkj)] at hleft
      show Function.update s.left j (s.left j + 1) k + _ = limit
      rw [Function.update_of_ne hkj]
      omega
  entry_lt := h.entry_lt
  held_lt := fun p hp => h.held_lt p (List.mem_of_mem_erase hp)
  semaphore := h.semaphore.mono (fun _ _ => id) (fun _ => List.mem_of_mem_erase)
  bucket := fun hpos => (h.bucket hpos).mono (fun _ _ => id) (fun _ => List.mem_of_mem_erase)
  bucket_some := fun p hp => h.bucket_some p (List.mem_of_mem_erase hp)

/-! ## `acquire` -/

/-- What `semaphoreOf` gives back. -/
structure HasSemaphore (limit bandwidth : Nat) (s : Limiter ι) (ip : ι) (k : Nat) : Prop where
  inv : PermitInv limit bandwidth s
  entry : ∃ t, s.perIp ip = some (k, t)

/-- An IP with an entry gets its semaphore. -/
theorem semaphoreOf_found (hentry : s.perIp ip = some (k, t)) : s.semaphoreOf ip now
    = ({ s with perIp := Function.update s.perIp ip (some (k, now)) }, k) := by
  rw [Limiter.semaphoreOf, hentry]

/-- An IP without an entry gets a new semaphore. -/
theorem semaphoreOf_missed (hentry : s.perIp ip = none) : s.semaphoreOf ip now
    = ({ s with
          perIp := Function.update s.perIp ip (some (s.semaphores, now))
          left := Function.update s.left s.semaphores s.perIpLimit
          semaphores := s.semaphores + 1 }, s.semaphores) := by
  rw [Limiter.semaphoreOf, hentry]

/-- The semaphore of an IP, found or new. -/
theorem PermitInv.semaphoreOf (h : PermitInv limit bandwidth s) (ip : ι)
    (hown : s.perIp ip = none → ∀ p ∈ s.held, p.ip ≠ ip) (now : Nat) :
    HasSemaphore limit bandwidth (s.semaphoreOf ip now).1 ip (s.semaphoreOf ip now).2 := by
  cases hentry : s.perIp ip with
  | some e =>
      obtain ⟨k, t⟩ := e
      rw [semaphoreOf_found hentry]
      refine ⟨{ h with
        entry_lt := ?_
        semaphore := h.semaphore.touch hentry }, now, Function.update_self ..⟩
      intro ip' k' t' he
      have he : Function.update s.perIp ip (some (k, now)) ip' = some (k', t') := he
      by_cases hip : ip' = ip
      · rw [hip, Function.update_self] at he
        cases he
        exact h.entry_lt ip k t hentry
      · rw [Function.update_of_ne hip] at he
        exact h.entry_lt ip' k' t' he
  | none =>
      -- the new semaphore is nobody's, and no permit of `ip` is held
      rw [semaphoreOf_missed hentry]
      refine ⟨{ h with
        left_add := ?_
        entry_lt := ?_
        held_lt := fun p hp => ?_
        semaphore := h.semaphore.make (hown hentry) }, now, Function.update_self ..⟩
      · intro k hk
        show Function.update s.left s.semaphores s.perIpLimit k + heldOf s.held k = limit
        rcases Nat.lt_succ_iff_lt_or_eq.mp hk with hlt | rfl
        · rw [Function.update_of_ne (Nat.ne_of_lt hlt)]
          exact h.left_add k hlt
        · rw [Function.update_self, heldOf_new h]
          exact h.limit_eq
      · intro ip' k' t' he
        have he : Function.update s.perIp ip (some (s.semaphores, now)) ip' = some (k', t') := he
        show k' < s.semaphores + 1
        by_cases hip : ip' = ip
        · rw [hip, Function.update_self] at he
          cases he
          exact Nat.lt_succ_self _
        · rw [Function.update_of_ne hip] at he
          exact Nat.lt_succ_of_lt (h.entry_lt ip' k' t' he)
      · obtain ⟨k, hk, hperIp⟩ := h.held_lt p hp
        exact ⟨k, Nat.lt_succ_of_lt hk, hperIp⟩

/-- An IP with an entry gets its bucket. -/
theorem getOrCreateBucket_found (hpos : 0 < s.perIpBandwidth)
    (hentry : s.perIpBuckets ip = some (k, t)) : s.getOrCreateBucket ip now
    = ({ s with perIpBuckets := Function.update s.perIpBuckets ip (some (k, now)) }, some k) := by
  rw [Limiter.getOrCreateBucket, if_neg (Nat.pos_iff_ne_zero.mp hpos), hentry]

/-- An IP without an entry gets a new bucket. -/
theorem getOrCreateBucket_missed (hpos : 0 < s.perIpBandwidth) (hentry : s.perIpBuckets ip = none) :
    s.getOrCreateBucket ip now
    = ({ s with
          perIpBuckets := Function.update s.perIpBuckets ip (some (s.buckets, now))
          buckets := s.buckets + 1 }, some s.buckets) := by
  rw [Limiter.getOrCreateBucket, if_neg (Nat.pos_iff_ne_zero.mp hpos), hentry]

omit [DecidableEq ι] in
/-- A permit of the semaphore in the entry, with some bucket. -/
theorem PermitInv.given (h : PermitInv limit bandwidth s) (number : Option Nat)
    {held : List (IpPermit ι)} {buckets : EntryMap ι} {made : Nat} (hentry : s.perIp ip = some (k, t))
    (hleft : 0 < s.left k) (hheld : held = ⟨ip, some k, number⟩ :: s.held)
    (hbuckets : 0 < bandwidth → Owned buckets IpPermit.perIpBucket held)
    (hnumber : 0 < bandwidth → number.isSome) :
    PermitInv limit bandwidth
      { s.take k with perIpBuckets := buckets, buckets := made, held := held } := by
  subst hheld
  refine { h with
    left_add := ?_
    held_lt := ?_
    semaphore := h.semaphore.give hentry rfl
    bucket := hbuckets
    bucket_some := ?_ }
  · intro j hj
    -- one permit goes from what is left of `k` to what is held of it
    have hadd := h.left_add j hj
    show Function.update s.left k (s.left k - 1) j + heldOf (⟨ip, some k, number⟩ :: s.held) j = limit
    rw [heldOf, List.countP_cons]
    show _ + (heldOf s.held j + _) = limit
    by_cases hjk : j = k
    · subst hjk
      rw [Function.update_self, if_pos (by simp)]
      omega
    · rw [Function.update_of_ne hjk, if_neg (by simpa using Ne.symm hjk)]
      omega
  · intro p hp
    rcases List.mem_cons.mp hp with rfl | hp
    · exact ⟨k, h.entry_lt ip k t hentry, rfl⟩
    · exact h.held_lt p hp
  · intro p hp hpos
    rcases List.mem_cons.mp hp with rfl | hp
    · exact hnumber hpos
    · exact h.bucket_some p hp hpos

/-- Where there are buckets, the address has an entry unless it holds no
    permit. -/
theorem PermitInv.grantBucket (h : PermitInv limit bandwidth s) (hentry : s.perIp ip = some (k, t))
    (hleft : 0 < s.left k)
    (hown : 0 < bandwidth → s.perIpBuckets ip = none → ∀ p ∈ s.held, p.ip ≠ ip) (now : Nat) :
    PermitInv limit bandwidth ((s.take k).grant ip (some k) now) := by
  have hbandwidth : (s.take k).perIpBandwidth = bandwidth := h.bandwidth_eq
  rw [Limiter.grant]
  by_cases hpos : 0 < bandwidth
  · have hpos' : 0 < (s.take k).perIpBandwidth := hbandwidth.symm ▸ hpos
    cases hbucket : s.perIpBuckets ip with
    | some e =>
        obtain ⟨j, t⟩ := e
        rw [getOrCreateBucket_found hpos' hbucket]
        refine h.given (some j) hentry hleft rfl (fun _ => ?_) (fun _ => rfl)
        exact ((h.bucket hpos).touch hbucket).give (Function.update_self ..) rfl
    | none =>
        rw [getOrCreateBucket_missed hpos' hbucket]
        refine h.given (some s.buckets) hentry hleft rfl (fun _ => ?_) (fun _ => rfl)
        exact ((h.bucket hpos).make (hown hpos hbucket)).give (Function.update_self ..) rfl
  · have hzero : (s.take k).perIpBandwidth = 0 := by omega
    rw [show (s.take k).getOrCreateBucket ip now = (s.take k, none) from if_pos hzero]
    exact h.given none hentry hleft rfl (fun h => absurd h hpos) (fun h => absurd h hpos)

/-- An `acquire` that the global semaphore lets through finds the entries of
    an address that holds permits; that of the bucket, if it gets so far. -/
def FindsEntries (s : Limiter ι) : Act ι → Prop
  | .acquire ip _ _ => ∀ p ∈ s.held, p.ip = ip → 0 < s.globalLeft →
      ∃ k t, s.perIp ip = some (k, t) ∧
        (0 < s.left k → 0 < s.perIpBandwidth → s.perIpBuckets ip ≠ none)
  | _ => True

/-- The map of semaphores is another than that of buckets. -/
theorem semaphoreOf_frame (s : Limiter ι) (ip : ι) (now : Nat) :
    (s.semaphoreOf ip now).1.perIpBuckets = s.perIpBuckets ∧
      (s.semaphoreOf ip now).1.held = s.held := by
  cases hentry : s.perIp ip with
  | some e =>
      rw [semaphoreOf_found hentry]
      exact ⟨rfl, rfl⟩
  | none =>
      rw [semaphoreOf_missed hentry]
      exact ⟨rfl, rfl⟩

/-- A call of `acquire`, whatever it answers. -/
theorem PermitInv.acquire (hlimit : 0 < limit) (h : PermitInv limit bandwidth s)
    (hfinds : FindsEntries s (.acquire ip now later)) :
    PermitInv limit bandwidth (s.acquire ip now later) := by
  rw [Limiter.acquire]
  split
  next => exact h
  next hglobal =>
    have hglobal : 0 < s.globalLeft := Nat.pos_of_ne_zero hglobal
    split
    next hzero => exact absurd (h.limit_eq.symm.trans hzero) (by omega)
    next =>
      have htaken : PermitInv limit bandwidth s.takeGlobal := h.frame _ _
      obtain ⟨hinv, t, hentry⟩ := htaken.semaphoreOf ip
        (fun hnone p hp hip => by
          obtain ⟨k, t, hk, -⟩ := hfinds p hp hip hglobal
          exact nomatch hnone.symm.trans hk) now
      obtain ⟨hbuckets, hheld⟩ := semaphoreOf_frame s.takeGlobal ip now
      dsimp only
      split
      next hleft =>
        refine hinv.grantBucket hentry hleft ?_ later
        intro hpos hnone p hp hip
        rw [hheld] at hp
        rw [hbuckets] at hnone
        obtain ⟨k, t', hk, hbucket⟩ := hfinds p hp hip hglobal
        have hfound : s.takeGlobal.semaphoreOf ip now = _ := semaphoreOf_found hk
        rw [hfound] at hleft
        exact hbucket hleft (h.bandwidth_eq ▸ hpos) hnone
      next => exact hinv.frame _ _

/-- **Step** of the limiter. -/
theorem permitInv_step (hlimit : 0 < limit) (h : PermitInv limit bandwidth s)
    (hfinds : FindsEntries s a) (hs : step s a = some s') : PermitInv limit bandwidth s' := by
  cases a with
  | acquire ip now later =>
      simp only [step] at hs
      split at hs
      · cases hs
        exact (h.acquire hlimit hfinds).frame _ _
      · exact nomatch hs
  | drop permit =>
      simp only [step] at hs
      split at hs
      next hmem => cases hs; exact h.release hmem
      next => exact nomatch hs
  | sweep now =>
      simp only [step] at hs
      split at hs
      · cases hs
        exact (h.sweep now).frame _ _
      · exact nomatch hs

/-! ## Runs -/

/-- No address holds more than the limit, and its permits share a bucket when
    there are any. -/
structure WithinLimit (limit bandwidth : Nat) (s : Limiter ι) : Prop where
  count_le : ∀ ip, (s.held.countP fun p => p.ip = ip) ≤ limit
  shared : 0 < bandwidth → ∀ p ∈ s.held, ∀ q ∈ s.held, p.ip = q.ip →
    ∃ k, p.perIpBucket = some k ∧ q.perIpBucket = some k

/-- Nobody is over the limit. -/
theorem PermitInv.withinLimit (h : PermitInv limit bandwidth s) : WithinLimit limit bandwidth s where
  count_le ip := by
    by_cases hnone : ∀ p ∈ s.held, ¬ p.ip = ip
    · have hzero : (s.held.countP fun p => p.ip = ip) = 0 :=
        List.countP_eq_zero.mpr fun p hp => by simpa using hnone p hp
      omega
    · simp only [not_forall, not_not] at hnone
      obtain ⟨p, hp, hip⟩ := hnone
      obtain ⟨k, hk, hperIp⟩ := h.held_lt p hp
      -- all permits of the address are among those of the semaphore
      have hle : (s.held.countP fun q => q.ip = ip) ≤ heldOf s.held k := by
        refine List.countP_mono_left fun q hq hqip => ?_
        have hqip : q.ip = ip := by simpa using hqip
        rw [h.semaphore.same q hq p hp (hqip.trans hip.symm), hperIp]
        exact beq_self_eq_true _
      have hadd := h.left_add k hk
      omega
  shared hpos p hp q hq hip := by
    obtain ⟨k, hk⟩ := Option.isSome_iff_exists.mp (h.bucket_some p hp hpos)
    exact ⟨k, hk, ((h.bucket hpos).same p hp q hq hip) ▸ hk⟩

/-- **The limit of an address** holds in every run in which no `acquire`
    misses an entry whose permits are still held. -/
theorem permits_of_ip {globalLimit clock : Nat} {acts : List (Act ι)} (hlimit : 0 < limit)
    (hfinds : Along step FindsEntries
      (Limiter.new limit globalLimit bandwidth clock : Limiter ι) acts) :
    Always step (WithinLimit limit bandwidth)
      (Limiter.new limit globalLimit bandwidth clock : Limiter ι) acts :=
  always_of_along (fun _ _ _ => permitInv_step hlimit) (fun _ h => h.withinLimit)
    (permitInv_new globalLimit clock) hfinds

section Examples

/-- The permit is dropped before the sweep, which leaves the semaphore: it
    has been asked for once more. -/
def droppedInTime : List (Act Nat) :=
  [.acquire 7 0 0, .acquire 7 1 1, .drop ⟨7, some 0, some 0⟩, .sweep mapEntryTtl,
    .acquire 7 mapEntryTtl mapEntryTtl]

theorem permits_of_ip_one :
    (run step (Limiter.new 1 0 100 0) droppedInTime).any
        (fun s => s.held == [⟨7, some 0, some 1⟩]) = true ∧
      Always step (WithinLimit 1 100) (Limiter.new 1 0 100 0) droppedInTime := by
  refine ⟨by decide, permits_of_ip (by decide) ?_⟩
  refine ⟨nofun, ?_⟩
  rintro s ⟨⟩
  refine ⟨fun p hp hip hglobal => ⟨0, 0, by decide, fun _ _ => by decide⟩, ?_⟩
  rintro s ⟨⟩
  refine ⟨trivial, ?_⟩
  rintro s ⟨⟩
  refine ⟨trivial, ?_⟩
  rintro s ⟨⟩
  refine ⟨fun p (hp : p ∈ []) => absurd hp List.not_mem_nil, ?_⟩
  rintro s ⟨⟩
  exact trivial

/-- One download lasts longer than an entry. -/
def heldTooLong : List (Act Nat) :=
  [.acquire 7 0 0, .sweep mapEntryTtl, .acquire 7 mapEntryTtl mapEntryTtl]

theorem permits_of_ip_swept :
    ∃ s, run step (Limiter.new 1 0 100 0) heldTooLong = some s ∧
      s.held = [⟨7, some 1, some 1⟩, ⟨7, some 0, some 0⟩] ∧ ¬ WithinLimit 1 100 s :=
  ⟨_, rfl, rfl, fun h => absurd (h.count_le 7) (by decide)⟩

end Examples

end BlitzIpLimiter
