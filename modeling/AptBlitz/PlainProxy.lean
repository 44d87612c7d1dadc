import AptBlitz.ThrottleRuns

/-! # The body of `plain_proxy`

    The upstream's stream with a `filter_map` on it: a chunk is passed on if
    `try_consume` gives its length, and is replaced by an error if not.
    Nothing waits, and a refused chunk is not asked for again.

    Any thread may use the bucket while the stream is in `try_consume`, and
    what the upstream yields is up to the schedule. -/

namespace BlitzPlainProxy

open BlitzBuffer Runs
open BlitzThrottle (Item Poll)
open BlitzBucketRuns (Moves stepped_of_step goto_threads afterRefill_ne_tried credited_ne_tried)
open BlitzWaitConsume (isCallOf tryAmount CanTry canTry_of_tryAmount goto_self)
open BlitzWaitConsumeRuns (tryAmount_enter tryAmount_step)
open BlitzWaitConsumeRuns (threads_of_resting)
open BlitzBucket hiding Act step start

/-- `std::io::Error::other("upstream bandwidth limit exceeded")`. -/
def limitExceeded : String := "upstream bandwidth limit exceeded"

/-- The stream, the upstream bucket with the threads that use it, and two
    records that nothing reads: what the upstream has yielded, and what the
    stream has. -/
structure Body where
  shared : Shared
  /-- the thread that polls -/
  me : Nat
  /-- the chunk whose `try_consume` has not returned -/
  asking : Option Bytes
  ended : Bool
  produced : List Item
  delivered : List Item

/-- The bucket's steps, and those of the body. -/
inductive Act where
  /-- a step of any thread; the polling one begins no other call -/
  | bucket (act : BlitzBucket.Act)
  | poll (inner : Poll (Option Item))
  /-- `try_consume` has returned -/
  | result
  deriving DecidableEq

/-- A poll, up to the call of `try_consume`. -/
def Body.pollNext (s : Body) : Poll (Option Item) → Body
  | .pending => s
  | .ready none => { s with ended := true }
  | .ready (some (.error e)) =>
      { s with produced := s.produced ++ [.error e], delivered := s.delivered ++ [.error e] }
  | .ready (some (.ok chunk)) =>
      { s with shared := s.shared.goto s.me (enter s.shared.bucket (.tryConsume chunk.length)),
               asking := some chunk, produced := s.produced ++ [.ok chunk] }

/-- What the closure makes of a chunk. -/
def filtered (chunk : Bytes) (ok : Bool) : Item :=
  if ok then .ok chunk else .error limitExceeded

/-- One step of the body or of the bucket. -/
def step (s : Body) : Act → Option Body
  | .bucket act =>
      if isCallOf s.me act then none
      else (BlitzBucket.step s.shared act).map fun shared => { s with shared }
  | .poll inner => if s.asking = none ∧ s.ended = false then some (s.pollNext inner) else none
  | .result =>
      match s.asking, s.shared.threads s.me with
      | some chunk, .tried _ ok =>
          some { s with asking := none, delivered := s.delivered ++ [filtered chunk ok] }
      | _, _ => none

/-- The body of a response; the polling thread is in no call. -/
def forwarding (shared : Shared) (me : Nat) : Body where
  shared := shared.goto me .idle
  me := me
  asking := none
  ended := false
  produced := []
  delivered := []

/-! ## What is passed on -/

/-- The stream has yielded what the upstream has, but for the chunk it is
    asking tokens for. -/
structure PassesOn (s : Body) : Prop where
  delivered_eq : s.delivered ++ (s.asking.map .ok).toList = s.produced
  /-- nothing but the other threads' steps is waited for -/
  answered : ∀ chunk, s.asking = some chunk → CanTry s.me chunk.length s.shared

/-- The amount of a `try_consume` that is about to load the tokens. -/
def loading : Pc → Option Nat
  | .loadConsume amount => some amount
  | _ => none

/-- The stream finds the tokens for its chunk. -/
def FindsTokens (s : Body) (a : Act) : Prop :=
  a = .bucket (.go s.me) → ∀ amount ∈ loading (s.shared.threads s.me),
    amount ≤ s.shared.bucket.tokens

instance (s : Body) (a : Act) : Decidable (FindsTokens s a) :=
  inferInstanceAs (Decidable (a = .bucket (.go s.me) → _))

variable {s s' t : Body} {a : Act} {acts : List Act} {shared next : Shared} {me w : Nat}
  {pc pc' : Pc} {bucket : TokenBucket}

/-- The polling thread is in the call for its chunk, if in any; and the stream
    has yielded an item for each of the upstream's, but for that chunk. -/
structure InCall (s : Body) : Prop where
  resting : s.asking = none → (s.shared.threads s.me).resting = true
  amount : ∀ chunk, s.asking = some chunk → tryAmount (s.shared.threads s.me) = some chunk.length
  items : ∃ before, s.produced = before ++ (s.asking.map .ok).toList ∧
    before.length = s.delivered.length

/-- The tokens for the chunk were not there. -/
def Refused (s : Body) : Prop :=
  s.asking ≠ none ∧ ∃ amount, s.shared.threads s.me = .tried amount false

/-! ## Steps -/

/-- A call that begins is not refused yet. -/
theorem enter_ne_refused {n amount : Nat} :
    enter bucket (.tryConsume n) ≠ .tried amount false := by
  rw [enter]
  split
  · rintro ⟨⟩
  · split <;> rintro ⟨⟩

/-- How a call comes to be refused. -/
theorem load_of_refused {act : BlitzBucket.Act} {amount : Nat}
    (hs : BlitzBucket.step shared act = some next) (hcall : isCallOf w act = false)
    (hnot : ∀ n, shared.threads w ≠ .tried n false) (hw : next.threads w = .tried amount false) :
    act = .go w ∧ shared.threads w = .loadConsume amount ∧ shared.bucket.tokens < amount := by
  have hself : ∀ {u : Shared} {v : Nat} {pc : Pc}, u.threads = shared.threads →
      (u.goto v pc).threads w = .tried amount false → w = v ∧ pc = .tried amount false := by
    intro u v pc hu hgoto
    rw [goto_threads hu] at hgoto
    split at hgoto
    next hwv => exact ⟨hwv, hgoto⟩
    next => exact absurd hgoto (hnot amount)
  cases stepped_of_step hs with
  | @called v op =>
      obtain ⟨rfl, -⟩ := hself rfl hw
      exact absurd hcall (by simp [isCallOf])
  | @moved v pc hm =>
      obtain ⟨rfl, hpc⟩ := hself rfl hw
      generalize shared.threads w = before at hm
      cases hm with
      | noTime => exact absurd hpc afterRefill_ne_tried
      | lostLast => exact absurd hpc afterRefill_ne_tried
      | refuse hlt =>
          cases hpc
          exact ⟨rfl, rfl, hlt⟩
      | readLast | readRefill | lostRefill | readConsume | lostConsume | read => cases hpc
  | clocked => cases (hself rfl hw).2
  | won => exact absurd (hself rfl hw).2 credited_ne_tried
  | refilled => exact absurd (hself rfl hw).2 afterRefill_ne_tried
  | took => cases (hself rfl hw).2

/-- What a step of the body can be. -/
inductive Stepped (s : Body) : Act → Body → Prop
  | bucket {act next} (hnext : BlitzBucket.step s.shared act = some next)
      (hcall : isCallOf s.me act = false) : Stepped s (.bucket act) { s with shared := next }
  | waited (hask : s.asking = none) : Stepped s (.poll .pending) s
  | ended (hask : s.asking = none) : Stepped s (.poll (.ready none)) { s with ended := true }
  | failed {e} (hask : s.asking = none) :
      Stepped s (.poll (.ready (some (.error e))))
        { s with produced := s.produced ++ [.error e], delivered := s.delivered ++ [.error e] }
  | asked {chunk} (hask : s.asking = none) :
      Stepped s (.poll (.ready (some (.ok chunk))))
        { s with shared := s.shared.goto s.me (enter s.shared.bucket (.tryConsume chunk.length)),
                 asking := some chunk, produced := s.produced ++ [.ok chunk] }
  | answered {chunk amount ok} (hask : s.asking = some chunk)
      (hthread : s.shared.threads s.me = .tried amount ok) :
      Stepped s .result
        { s with asking := none, delivered := s.delivered ++ [filtered chunk ok] }

/-- **What the body does**: `step` does nothing but this. -/
theorem bodyStepped_of_step (h : step s a = some s') : Stepped s a s' := by
  cases a with
  | bucket act =>
      simp only [step] at h
      split at h
      next => cases h
      next hcall =>
        obtain ⟨next, hnext, rfl⟩ := Option.map_eq_some_iff.mp h
        exact .bucket hnext (Bool.eq_false_of_not_eq_true hcall)
  | poll inner =>
      simp only [step] at h
      split at h
      next hout =>
        cases h
        match inner with
        | .pending => exact .waited hout.1
        | .ready none => exact .ended hout.1
        | .ready (some (.error e)) => exact .failed hout.1
        | .ready (some (.ok chunk)) => exact .asked hout.1
      next => cases h
  | result =>
      simp only [step] at h
      split at h
      next chunk amount ok hask hthread =>
        cases h
        exact .answered hask hthread
      next => cases h

/-- Outside of a call, an item has been yielded for each of the upstream's. -/
theorem InCall.lengths (h : InCall s) (hask : s.asking = none) :
    s.delivered.length = s.produced.length := by
  obtain ⟨before, hbefore, hlen⟩ := h.items
  rw [hask, Option.map_none, Option.toList_none, List.append_nil] at hbefore
  rw [hbefore, hlen]

/-- **Step**: the body's call is its own. -/
theorem inCall_step (h : InCall s) (hs : step s a = some s') : InCall s' := by
  cases bodyStepped_of_step hs with
  | bucket hnext hcall =>
      refine ⟨fun hnone => ?_, fun chunk hchunk => ?_, h.items⟩
      · have hrest := h.resting hnone
        rw [← threads_of_resting hnext hcall hrest] at hrest
        exact hrest
      · exact (tryAmount_step hnext hcall).trans (h.amount chunk hchunk)
  | waited => exact h
  | ended => exact ⟨h.resting, h.amount, h.items⟩
  | @failed e hask =>
      refine ⟨h.resting, h.amount, s.produced ++ [.error e], ?_, ?_⟩
      · simp [hask]
      · simp [h.lengths hask]
  | asked hask =>
      refine ⟨nofun, ?_, s.produced, rfl, (h.lengths hask).symm⟩
      rintro _ ⟨⟩
      exact (congrArg tryAmount (goto_self ..)).trans (tryAmount_enter ..)
  | answered hask hthread =>
      obtain ⟨before, hbefore, hlen⟩ := h.items
      refine ⟨fun _ => ?_, nofun, s.produced, (List.append_nil _).symm, ?_⟩
      · show (s.shared.threads s.me).resting = true
        rw [hthread]
        rfl
      · rw [hbefore, hask]
        simp [hlen]

/-! ## A stream that finds its tokens -/

/-- Nothing is lost so far, and no refusal is on its way. -/
structure Clean (s : Body) : Prop where
  inCall : InCall s
  delivered_eq : s.delivered ++ (s.asking.map .ok).toList = s.produced
  not_refused : ¬ Refused s

/-- A clean body passes on what it has. -/
theorem Clean.passesOn (h : Clean s) : PassesOn s :=
  ⟨h.delivered_eq, fun chunk hask => canTry_of_tryAmount (h.inCall.amount chunk hask)⟩

/-- Between its calls a clean body has passed on all. -/
theorem Clean.delivered_of_none (h : Clean s) (hask : s.asking = none) :
    s.delivered = s.produced := by
  have hall := h.delivered_eq
  rwa [hask, Option.map_none, Option.toList_none, List.append_nil] at hall

/-- **Step**: a body whose calls find their tokens stays clean. -/
theorem clean_step (h : Clean s) (hfinds : FindsTokens s a) (hs : step s a = some s') :
    Clean s' := by
  have hin : InCall s' := inCall_step h.inCall hs
  cases bodyStepped_of_step hs with
  | bucket hnext hcall =>
      refine ⟨hin, h.delivered_eq, ?_⟩
      rintro ⟨hask, amount, hthread⟩
      have hnot : ∀ n, s.shared.threads s.me ≠ .tried n false :=
        fun n hn => h.not_refused ⟨hask, n, hn⟩
      obtain ⟨rfl, hload, hlt⟩ := load_of_refused hnext hcall hnot hthread
      have hmem : amount ∈ loading (s.shared.threads s.me) := by
        rw [hload]
        rfl
      exact absurd (hfinds rfl amount hmem) (not_le.mpr hlt)
  | waited => exact h
  | ended => exact ⟨hin, h.delivered_eq, h.not_refused⟩
  | failed hask =>
      refine ⟨hin, ?_, h.not_refused⟩
      simp [hask, h.delivered_of_none hask]
  | @asked chunk hask =>
      refine ⟨hin, congrArg (· ++ [Except.ok chunk]) (h.delivered_of_none hask), ?_⟩
      rintro ⟨-, amount, hthread⟩
      exact absurd ((goto_self ..).symm.trans hthread) enter_ne_refused
  | @answered _ amount ok hask hthread =>
      have hall := h.delivered_eq
      cases ok with
      | false =>
          refine absurd ⟨?_, amount, hthread⟩ h.not_refused
          rw [hask]
          exact nofun
      | true =>
          refine ⟨hin, ?_, fun hrefused => hrefused.1 rfl⟩
          rw [hask] at hall
          exact (List.append_nil _).trans hall

theorem clean_forwarding (shared : Shared) (me : Nat) : Clean (forwarding shared me) := by
  refine ⟨⟨fun _ => ?_, nofun, [], rfl, rfl⟩, rfl, fun h => h.1 rfl⟩
  exact (congrArg Pc.resting (goto_self ..)).trans rfl

/-! ## A stream that does not -/

/-- A refusal is on its way, or has been delivered. -/
def Lossy (s : Body) : Prop := InCall s ∧ (Refused s ∨ ¬ s.delivered <+: s.produced)

/-- A list that goes wrong stays wrong. -/
theorem not_prefix_append {xs ys : List Item} (more more' : List Item)
    (hle : xs.length ≤ ys.length) (h : ¬ xs <+: ys) : ¬ xs ++ more <+: ys ++ more' := by
  intro hprefix
  refine h (List.prefix_of_prefix_length_le ?_ (List.prefix_append ys more') hle)
  exact (List.prefix_append xs more).trans hprefix

/-- A thread is about to load when it is about to compare. -/
theorem loading_eq_some {amount : Nat} (h : amount ∈ loading pc) : pc = .loadConsume amount := by
  cases pc with
  | loadConsume n =>
      cases h
      rfl
  | _ => cases h

/-- A call that does not find its tokens loses its chunk. -/
theorem lossy_of_missing (h : InCall s) (hs : step s a = some s') (hnot : ¬ FindsTokens s a) :
    Lossy s' := by
  have hin : InCall s' := inCall_step h hs
  simp only [FindsTokens, not_forall, not_le] at hnot
  obtain ⟨rfl, amount, hmem, hlt⟩ := hnot
  have hload : s.shared.threads s.me = .loadConsume amount := loading_eq_some hmem
  have hgo : BlitzBucket.step s.shared (.go s.me)
      = some (s.shared.goto s.me (.tried amount false)) := by
    simp only [BlitzBucket.step, goStep, hload, if_pos hlt]
  simp only [step, isCallOf, hgo] at hs
  cases hs
  refine ⟨hin, Or.inl ⟨fun hnone => ?_, amount, goto_self ..⟩⟩
  have hrest := h.resting hnone
  rw [hload] at hrest
  cases hrest

/-- **Step**: what is lost stays lost. -/
theorem lossy_step (h : Lossy s) (hs : step s a = some s') : Lossy s' := by
  obtain ⟨hin, hwrong⟩ := h
  refine ⟨inCall_step hin hs, ?_⟩
  have hnot : s.asking = none → ¬ s.delivered <+: s.produced :=
    fun hask => hwrong.resolve_left fun hrefused => hrefused.1 hask
  cases bodyStepped_of_step hs with
  | bucket hnext hcall =>
      refine hwrong.imp_left ?_
      rintro ⟨hask, amount, hthread⟩
      have hrest : (s.shared.threads s.me).resting = true := by
        rw [hthread]
        rfl
      exact ⟨hask, amount, (threads_of_resting hnext hcall hrest).trans hthread⟩
  | waited hask => exact Or.inr (hnot hask)
  | ended hask => exact Or.inr (hnot hask)
  | failed hask => exact Or.inr (not_prefix_append _ _ (hin.lengths hask).le (hnot hask))
  | @asked chunk hask =>
      refine Or.inr fun hprefix => ?_
      refine not_prefix_append [] [.ok chunk] (hin.lengths hask).le (hnot hask) ?_
      rwa [List.append_nil]
  | @answered chunk _ _ hask hthread =>
      obtain ⟨before, hbefore, hlen⟩ := hin.items
      rw [hask] at hbefore
      refine Or.inr fun hprefix => ?_
      rcases hwrong with ⟨-, n, hn⟩ | hnot
      · -- the error stands where the upstream has the chunk
        cases hthread.symm.trans hn
        have heq : s.delivered ++ [filtered chunk false] = s.produced := by
          refine hprefix.eq_of_length ?_
          rw [hbefore]
          simp [hlen]
        cases List.append_inj_right (heq.trans hbefore) hlen.symm
      · exact hnot ((List.prefix_append ..).trans hprefix)

/-- **The body**: the stream yields what the upstream yields, and no error of
    its own, if it finds the tokens for each chunk when it asks for them; a
    run that has no call going on at its end does so only then. -/
theorem plainProxy_passesOn_iff (shared : Shared) (me : Nat) (acts : List Act) :
    (Along step FindsTokens (forwarding shared me) acts →
      Always step PassesOn (forwarding shared me) acts) ∧
    ∀ t, run step (forwarding shared me) acts = some t → t.asking = none →
      (Always step PassesOn (forwarding shared me) acts ↔
        Along step FindsTokens (forwarding shared me) acts) := by
  have hsafe : Along step FindsTokens (forwarding shared me) acts →
      Always step PassesOn (forwarding shared me) acts :=
    always_of_along (fun _ _ _ => clean_step) (fun _ h => h.passesOn) (clean_forwarding shared me)
  refine ⟨hsafe, fun t hrun hnone => ⟨fun halways => ?_, hsafe⟩⟩
  have hends : Along step FindsTokens (forwarding shared me) acts ∨ Lossy t :=
    along_or_last (I := InCall) (H := fun _ _ => True) (fun _ _ _ h _ hs => inCall_step h hs)
      (fun _ _ _ h _ hs => lossy_of_missing h hs) (fun _ _ _ h _ hs => lossy_step h hs)
      (clean_forwarding shared me).inCall (along_of_mem fun _ _ _ => trivial) hrun
  rcases hends with halong | ⟨-, hrefused | hnot⟩
  · exact halong
  · exact absurd hnone hrefused.1
  · refine absurd ?_ hnot
    rw [← (last_of_always halways hrun).delivered_eq]
    exact List.prefix_append ..

section Examples

/-- A chunk comes through a bucket of two tokens, one a millisecond. -/
def oneChunk (chunk : Bytes) : List Act :=
  let go : Act := .bucket (.go 0)
  [.poll (.ready (some (.ok chunk))), .bucket (.clock 0 0), go, go]

/-- The rest of the call for a chunk that fits. -/
def taken : List Act := [.bucket (.go 0), .result, .poll (.ready none)]

theorem plainProxy_passesOn_two :
    Along step FindsTokens (forwarding (BlitzBucket.start 2 1000 0) 0) (oneChunk [1, 2] ++ taken) ∧
      Always step PassesOn (forwarding (BlitzBucket.start 2 1000 0) 0) (oneChunk [1, 2] ++ taken) ∧
      ∃ t, run step (forwarding (BlitzBucket.start 2 1000 0) 0) (oneChunk [1, 2] ++ taken) = some t ∧
        (Always step PassesOn (forwarding (BlitzBucket.start 2 1000 0) 0) (oneChunk [1, 2] ++ taken) ↔
          Along step FindsTokens (forwarding (BlitzBucket.start 2 1000 0) 0)
            (oneChunk [1, 2] ++ taken)) := by
  have hrun : (run step (forwarding (BlitzBucket.start 2 1000 0) 0) (oneChunk [1, 2] ++ taken)).any
      (fun t => decide (t.asking = none)) = true := by decide
  obtain ⟨t, ht, hnone⟩ := run_of_any hrun
  obtain ⟨hsafe, hiff⟩ := plainProxy_passesOn_iff (BlitzBucket.start 2 1000 0) 0
    (oneChunk [1, 2] ++ taken)
  exact ⟨by decide, hsafe (by decide), t, ht, hiff t ht (of_decide_eq_true hnone)⟩

/-- Three bytes of the upstream are lost, and an error is in their place. -/
theorem plainProxy_loses :
    ∃ t, run step (forwarding (BlitzBucket.start 2 1000 0) 0)
        (oneChunk [1, 2, 3] ++ [.result, .poll (.ready none)]) = some t ∧
      t.ended = true ∧ t.produced = [.ok [1, 2, 3]] ∧ t.delivered = [.error limitExceeded] ∧
      ¬ PassesOn t := by
  have hrun : (run step (forwarding (BlitzBucket.start 2 1000 0) 0)
      (oneChunk [1, 2, 3] ++ [.result, .poll (.ready none)])).any (fun t =>
        decide (t.ended = true ∧ t.asking = none ∧ t.produced = [.ok [1, 2, 3]] ∧
          t.delivered = [.error limitExceeded])) = true := by decide
  obtain ⟨t, ht, htest⟩ := run_of_any hrun
  obtain ⟨hended, hnone, hproduced, hdelivered⟩ := of_decide_eq_true htest
  refine ⟨t, ht, hended, hproduced, hdelivered, fun h => ?_⟩
  have heq := h.delivered_eq
  rw [hnone, hproduced, hdelivered] at heq
  cases heq

end Examples

end BlitzPlainProxy
