import AptBlitz.DownloaderOrphans
import AptBlitz.FtpResults
import AptBlitz.Library.Ledger

/-! # How often a download asks upstream

    A worker asks for a range it has claimed, at most four times over HTTP
    and once over FTP.  No two claims share a byte and all but the last are
    of `MIN_SEGMENT_SIZE` bytes at least, so the size of the file bounds the
    requests of a whole run and the bytes they ask for, whatever upstream
    answers and however many workers there are.

    The bound is a budget that `next_unassigned` earns and the requests
    spend: what a worker may still ask for its claim is its part of it
    (`asked`). -/

namespace BlitzRequestBounds

open BlitzBuffer SegmentsBuffer Runs Ledger
open BlitzDownloader (minSegmentSize maxSegmentSize initialSegmentSize maxSegmentRetries
  nextSegmentSize)

variable {totalSize n p next : Nat} {ω : Nat × Nat → Nat} {β : Nat → Nat}
  {b b' : SegmentsBuffer} {r : Nat × Nat} {file : Bytes}

/-! ## The budget -/

/-- Up to `next` the claims earn `β next`: at least the weight `ω` of every
    range that was claimed. -/
def Earns (totalSize : Nat) (ω : Nat × Nat → Nat) (β : Nat → Nat) : Prop :=
  ∀ next p, next < totalSize → minSegmentSize ≤ p →
    β next + ω (next, next + min p (totalSize - next)) ≤ β (next + min p (totalSize - next))

/-- The claims there can have been up to `next`. -/
def claimsUpTo (totalSize next : Nat) : Nat :=
  if next < totalSize then next / minSegmentSize
  else (totalSize + (minSegmentSize - 1)) / minSegmentSize

/-- The claims of the whole file are the most. -/
theorem claimsUpTo_le : claimsUpTo totalSize next
    ≤ (totalSize + (minSegmentSize - 1)) / minSegmentSize := by
  rw [claimsUpTo]
  split
  next hlt => exact Nat.div_le_div_right (by omega)
  next => exact Nat.le_refl _

/-- Every claim counts for one. -/
theorem earns_one : Earns totalSize (fun _ => 1) (claimsUpTo totalSize) := by
  intro next p hlt hp
  have hm : 0 < minSegmentSize := by decide
  have hold : claimsUpTo totalSize next = next / minSegmentSize := if_pos hlt
  have hfloor := Nat.div_mul_le_self next minSegmentSize
  rw [hold]
  rcases Nat.lt_or_ge (next + min p (totalSize - next)) totalSize with hmore | hlast
  · -- a claim of full size
    have hnew : claimsUpTo totalSize (next + min p (totalSize - next))
        = (next + min p (totalSize - next)) / minSegmentSize := if_pos hmore
    rw [hnew, Nat.le_div_iff_mul_le hm, Nat.add_mul, Nat.one_mul]
    omega
  · -- the last claim, of at least one byte
    have hnew : claimsUpTo totalSize (next + min p (totalSize - next))
        = (totalSize + (minSegmentSize - 1)) / minSegmentSize := if_neg (by omega)
    rw [hnew, Nat.le_div_iff_mul_le hm, Nat.add_mul, Nat.one_mul]
    omega

/-- Every claim counts for its bytes. -/
theorem earns_bytes : Earns totalSize (fun r => r.2 - r.1) id := by
  intro next p _ _
  show next + (next + min p (totalSize - next) - next) ≤ next + min p (totalSize - next)
  omega

/-- A claim earns what it weighs. -/
theorem Earns.claimCas (hβ : Earns b.totalSize ω β) (hp : minSegmentSize ≤ p)
    (h : b.claimCas p = (b', some r)) :
    β b.nextUnassigned + ω r ≤ β b'.nextUnassigned := by
  have hm : 0 < minSegmentSize := by decide
  rw [SegmentsBuffer.claimCas, if_neg (by omega)] at h
  split at h
  next => cases h
  next hlt =>
    cases h
    exact hβ _ _ (not_le.mp hlt) hp

/-! ## Workers on a budget -/

section Workers

variable {σ : Type} {asked size : σ → Nat} {k w : Nat} {workers workers' : Nat → σ}
  {reqs new : List (Nat × Nat)} {x : σ}

/-- A step of worker `w`, with the requests `new`: what it may ask for
    afterwards, and what it has asked, comes from what it might have asked
    before and from what its claim earns, `k` requests for each range. -/
structure Afforded (asked size : σ → Nat) (ω : Nat × Nat → Nat) (k : Nat) (β : Nat → Nat)
    (workers : Nat → σ) (b : SegmentsBuffer) (w : Nat) (workers' : Nat → σ) (b' : SegmentsBuffer)
    (new : List (Nat × Nat)) : Prop where
  moves : workers' = Function.update workers w (workers' w)
  total : b'.totalSize = b.totalSize
  within : b.nextUnassigned ≤ b.totalSize → b'.nextUnassigned ≤ b.totalSize
  sized : minSegmentSize ≤ size (workers w) → minSegmentSize ≤ size (workers' w)
  cost : (new.map ω).sum + asked (workers' w) + k * β b.nextUnassigned
    ≤ asked (workers w) + k * β b'.nextUnassigned

/-- What was asked for so far is paid, and so is what may follow. -/
structure Account (asked size : σ → Nat) (totalSize : Nat) (ω : Nat × Nat → Nat) (k : Nat)
    (β : Nat → Nat) (workers : Nat → σ) (b : SegmentsBuffer) (reqs : List (Nat × Nat)) :
    Prop where
  total : b.totalSize = totalSize
  within : b.nextUnassigned ≤ totalSize
  sized : ∀ w, minSegmentSize ≤ size (workers w)
  covers : Covers asked workers (reqs.map ω).sum (k * β b.nextUnassigned)

/-- A step that can be afforded keeps the account. -/
theorem Account.step (h : Account asked size totalSize ω k β workers b reqs)
    (hs : Afforded asked size ω k β workers b w workers' b' new) :
    Account asked size totalSize ω k β workers' b' (reqs ++ new) where
  total := hs.total.trans h.total
  within := h.total ▸ hs.within (h.total.symm ▸ h.within)
  sized v := by
    rw [hs.moves]
    by_cases hv : v = w
    · subst hv
      rw [Function.update_self]
      exact hs.sized (h.sized v)
    · rw [Function.update_of_ne hv]
      exact h.sized v
  covers := by
    rw [hs.moves, List.map_append, List.sum_append]
    refine h.covers.update ?_
    have := hs.cost
    omega

/-- The worker goes on, asks for nothing, and may ask for no more than
    before. -/
theorem afforded_goto (hworkers : workers' = Function.update workers w x)
    (htotal : b'.totalSize = b.totalSize) (hnext : b'.nextUnassigned = b.nextUnassigned)
    (hsize : minSegmentSize ≤ size (workers w) → minSegmentSize ≤ size x)
    (hle : asked x ≤ asked (workers w)) :
    Afforded asked size ω k β workers b w workers' b' [] := by
  have hw : workers' w = x := by
    rw [hworkers, Function.update_self]
  refine ⟨hw.symm ▸ hworkers, htotal, fun h => hnext ▸ h, hw.symm ▸ hsize, ?_⟩
  rw [hw, hnext]
  show 0 + asked x + k * β b.nextUnassigned ≤ _
  omega

/-- The worker claims a range, for which it may ask `k` times. -/
theorem afforded_claim (hworkers : workers' = Function.update workers w x)
    (hβ : Earns b.totalSize ω β) (hp : minSegmentSize ≤ p) (hcas : b.claimCas p = (b', some r))
    (hsize : size x = p) (hnone : asked (workers w) = 0) (hasked : asked x = k * ω r) :
    Afforded asked size ω k β workers b w workers' b' [] := by
  have hw : workers' w = x := by
    rw [hworkers, Function.update_self]
  have hearn := hβ.claimCas hp hcas
  obtain ⟨rfl, -, -, hle⟩ := claimCas_some hcas
  refine ⟨hw.symm ▸ hworkers, rfl, fun _ => hle, fun _ => ?_, ?_⟩
  · rw [hw, hsize]
    exact hp
  · rw [hw, hnone, hasked]
    have hearn : β b.nextUnassigned + ω r ≤ β r.2 := hearn
    have hmul := Nat.mul_le_mul_left k hearn
    rw [Nat.mul_add] at hmul
    show 0 + k * ω r + k * β b.nextUnassigned ≤ 0 + k * β r.2
    omega

/-- As many requests as the claims of the file allow. -/
theorem Account.count_le
    (h : Account asked size totalSize (fun _ => 1) k (claimsUpTo totalSize) workers b reqs) :
    reqs.length ≤ k * ((totalSize + (minSegmentSize - 1)) / minSegmentSize) := by
  have hsum := h.covers.amount_le
  rw [List.map_const', List.sum_replicate_nat, Nat.mul_one] at hsum
  exact hsum.trans (Nat.mul_le_mul_left _ claimsUpTo_le)

end Workers

/-! ## An HTTP download -/

section Http

open BlitzDownloader BlitzDownloaderSteps BlitzDownloaderResults BlitzDownloaderOrphans Download

variable {d d' : BlitzDownloader.Download} {w : Nat} {a : BlitzDownloader.Act}
  {acts : List BlitzDownloader.Act} {pc pc' : BlitzDownloader.Pc} {input : BlitzDownloader.Input}
  {reqs : List (Nat × Nat)} {owed : BlitzDownloader.Pc → Nat} {k : Nat}

/-- What a worker owes goes to no more than it was at every step, but for the
    claim, which it owes `k` times. -/
structure Spending (owed : BlitzDownloader.Pc → Nat) (ω : Nat × Nat → Nat) (k : Nat) : Prop where
  moves : ∀ {pc pc'}, Moves pc pc' → owed pc' ≤ owed pc
  claim : ∀ p, owed (.claim p) = 0
  claimed : ∀ p a z, owed (.push p a z) = k * ω (a, z)
  pushed : ∀ p id a z, owed (.attempt ⟨p, id, a, z, 0, none⟩) ≤ owed (.push p a z)
  opened : ∀ c, owed (.body c c.start) ≤ owed (.send c)
  received : ∀ c fo data, owed (.chunk c fo data) ≤ owed (.body c fo)
  wrote : ∀ c fo fo' rest rest', owed (.chunk c fo' rest') ≤ owed (.chunk c fo rest)
  marked : ∀ c, owed (.markCount c) ≤ owed (.markState c)
  unlisted : ∀ c, owed (.notify c) ≤ owed (.markState c)
  counted : ∀ c, owed (.notify c) ≤ owed (.markCount c)
  measure : ∀ c, owed (.measure c) = 0
  top : ∀ p, owed (.top p) = 0
  finish : ∀ r, owed (.finish r) = 0
  ended : ∀ r, owed (.ended r) = 0
  panicked : ∀ l, owed (.panicked l) = 0

/-- A preferred size is never below the least. -/
theorem minSegmentSize_le_next (speed : Option Nat) : minSegmentSize ≤ nextSegmentSize speed := by
  cases speed with
  | none => exact (by decide : minSegmentSize ≤ initialSegmentSize)
  | some p => exact le_max_left ..

/-- A preferred size that is measured is not below `MIN_SEGMENT_SIZE`, the
    others stay. -/
theorem size_moves (hnot : ∀ c, pc ≠ .measure c) (h : Moves pc pc') :
    Pc.size pc' = Pc.size pc ∨ Pc.size pc' = initialSegmentSize := by
  cases h with
  | permit => exact Or.inr rfl
  | again => exact absurd rfl (hnot _)
  | _ => exact Or.inl rfl

/-- A step that measures nothing. -/
theorem afforded_worked (h : Spending owed ω k) (hβ : Earns d.buf.totalSize ω β)
    (hsize : minSegmentSize ≤ Pc.size (d.workers w)) (hnot : ∀ c, d.workers w ≠ .measure c)
    (hs : Worked d w d') :
    Afforded owed Pc.size ω k β d.workers d.buf w d'.workers d'.buf [] := by
  have hfirst : minSegmentSize ≤ initialSegmentSize := by decide
  have hzero : ∀ {pc}, owed pc = 0 → owed pc ≤ owed (d.workers w) :=
    fun hz => hz ▸ Nat.zero_le _
  cases hs with
  | moved hm =>
      refine afforded_goto rfl rfl rfl (fun hsize => ?_) (h.moves hm)
      rcases size_moves hnot hm with hsame | hnew
      · rw [hsame]
        exact hsize
      · rw [hnew]
        exact hfirst
  | failed => exact afforded_goto rfl rfl rfl (fun _ => hfirst) (hzero (h.finish _))
  | exhausted hw hcas =>
      rcases claimCas_none hcas with rfl | ⟨rfl, -⟩
      · exact afforded_goto rfl rfl rfl (fun _ => hfirst) (hzero (h.finish _))
      · exact afforded_goto rfl rfl rfl (fun _ => hfirst) (hzero (h.finish _))
  | @cas p b r hw hcas =>
      rw [hw] at hsize
      exact afforded_claim rfl hβ hsize hcas rfl (hw ▸ h.claim p) (h.claimed p r.1 r.2)
  | push hw =>
      exact afforded_goto rfl rfl rfl (by rw [hw]; exact id) (by rw [hw]; exact h.pushed ..)
  | opened hw =>
      exact afforded_goto rfl rfl rfl (by rw [hw]; exact id) (by rw [hw]; exact h.opened _)
  | received hw =>
      exact afforded_goto rfl rfl rfl (by rw [hw]; exact id) (by rw [hw]; exact h.received ..)
  | wrote hw _ hwrite =>
      obtain ⟨file, rfl⟩ := writeData_file hwrite
      exact afforded_goto rfl rfl rfl (by rw [hw]; exact id) (by rw [hw]; exact h.wrote ..)
  | wroteSome hw _ hwrite =>
      obtain ⟨file, rfl⟩ := writeData_file hwrite
      exact afforded_goto rfl rfl rfl (fun _ => hfirst) (hzero (h.finish _))
  | ready hw =>
      exact afforded_goto rfl rfl rfl (by rw [hw]; exact id) (by rw [hw]; exact h.marked _)
  | unlisted hw =>
      exact afforded_goto rfl rfl rfl (by rw [hw]; exact id) (by rw [hw]; exact h.unlisted _)
  | counted hw =>
      exact afforded_goto rfl rfl rfl (by rw [hw]; exact id) (by rw [hw]; exact h.counted _)
  | notified hw => exact afforded_goto rfl rfl rfl (by rw [hw]; exact id) (hzero (h.measure _))
  | finished hw => exact afforded_goto rfl rfl rfl (fun _ => hfirst) (hzero (h.ended _))
  | panicked => exact afforded_goto rfl rfl rfl (fun _ => hfirst) (hzero (h.panicked _))

/-- The step that measures a new preferred size. -/
theorem afforded_measure {c : BlitzDownloader.Claim} (h : Spending owed ω k)
    (hw : d.workers w = .measure c) (hs : workerStep d w input = some d') :
    Afforded owed Pc.size ω k β d.workers d.buf w d'.workers d'.buf [] := by
  have hgoto : ∀ pc, minSegmentSize ≤ Pc.size pc ∨ Pc.size pc = c.preferredSize →
      owed pc = 0 → d' = d.goto w pc →
      Afforded owed Pc.size ω k β d.workers d.buf w d'.workers d'.buf [] := by
    rintro pc hsize hnone rfl
    refine afforded_goto rfl rfl rfl (fun hsz => ?_) (hnone ▸ Nat.zero_le _)
    rcases hsize with hnew | hsame
    · exact hnew
    · rw [hsame]
      rw [hw] at hsz
      exact hsz
  cases input with
  | panic inLock =>
      simp only [workerStep, panicStep, hw, Option.some.injEq] at hs
      exact hgoto (.panicked none) (Or.inl (by decide)) (h.panicked _) hs.symm
  | measured speed =>
      cases speed with
      | none =>
          simp only [workerStep, hw, Option.some.injEq] at hs
          exact hgoto (.top c.preferredSize) (Or.inr rfl) (h.top _) hs.symm
      | some speed =>
          simp only [workerStep, hw, Option.some.injEq] at hs
          exact hgoto (.top (nextSegmentSize speed)) (Or.inl (minSegmentSize_le_next speed))
            (h.top _) hs.symm
  | _ =>
      simp only [workerStep, hw] at hs
      cases hs

/-- A worker's step for which nothing is paid. -/
theorem Spending.quiet (h : Spending owed ω k) (hβ : Earns d.buf.totalSize ω β)
    (hsize : minSegmentSize ≤ Pc.size (d.workers w)) (hs : workerStep d w input = some d') :
    Afforded owed Pc.size ω k β d.workers d.buf w d'.workers d'.buf [] := by
  by_cases hmeasure : ∃ c, d.workers w = .measure c
  · obtain ⟨c, hw⟩ := hmeasure
    exact afforded_measure h hw hs
  · exact afforded_worked h hβ hsize (not_exists.mp hmeasure) (worked_of_workerStep hs)

/-- The account of a download. -/
abbrev HttpAccount (owed : BlitzDownloader.Pc → Nat) (totalSize : Nat) (ω : Nat × Nat → Nat)
    (k : Nat) (β : Nat → Nat) (d : BlitzDownloader.Download) : List (Nat × Nat) → Prop :=
  Account owed Pc.size totalSize ω k β d.workers d.buf

/-- At the start. -/
theorem httpAccount_start (hpermit : owed .permit = 0) (hunspawned : owed .unspawned = 0) :
    HttpAccount owed totalSize ω k β (start n totalSize file) [] := by
  have hidle : ∀ w, (start n totalSize file).workers w = .permit ∨
      (start n totalSize file).workers w = .unspawned := by
    intro w
    have hw : (start n totalSize file).workers w
        = if w < min n initialWorkerCount then .permit else .unspawned := rfl
    rw [hw]
    split
    next => exact Or.inl rfl
    next => exact Or.inr rfl
  refine ⟨rfl, Nat.zero_le _, fun w => ?_, covers_of_zero (fun w => ?_) (Nat.zero_le _)⟩
  · rcases hidle w with hw | hw <;> rw [hw] <;> decide
  · rcases hidle w with hw | hw
    · rw [hw]
      exact hpermit
    · rw [hw]
      exact hunspawned

/-- A step of the coordinator, with which nothing is paid. -/
theorem httpAccount_coordinator (h : HttpAccount owed totalSize ω k β d reqs)
    (hpermit : owed .permit = 0) (ha : ∀ w input, a ≠ .worker w input)
    (hs : BlitzDownloader.step d a = some d') :
    HttpAccount owed totalSize ω k β d' (reqs ++ []) := by
  have hfirst : minSegmentSize ≤ Pc.size .permit := by decide
  cases stepped_of_step hs with
  | worker hw => exact absurd rfl (ha _ _)
  | spawned =>
      exact h.step (afforded_goto rfl rfl rfl (fun _ => hfirst) (hpermit ▸ Nat.zero_le _))
  | _ =>
      rw [List.append_nil]
      exact h

/-! ### Requests -/

/-- The range of the request that goes out with this step. -/
def requests (d : BlitzDownloader.Download) : BlitzDownloader.Act → List (Nat × Nat)
  | .worker w .go =>
      match d.workers w with
      | .attempt c =>
          if c.attempt > maxSegmentRetries ∨ d.cancelled then [] else [(c.start, c.end)]
      | _ => []
  | _ => []

/-- What the worker may still ask for with the range it has. -/
def asked (ω : Nat × Nat → Nat) : BlitzDownloader.Pc → Nat
  | .push _ a z => (maxSegmentRetries + 1) * ω (a, z)
  | .attempt c => (maxSegmentRetries + 1 - c.attempt) * ω (c.start, c.end)
  | .send c => (maxSegmentRetries - c.attempt) * ω (c.start, c.end)
  | .body c _ => (maxSegmentRetries - c.attempt) * ω (c.start, c.end)
  | .chunk c _ _ => (maxSegmentRetries - c.attempt) * ω (c.start, c.end)
  | _ => 0

/-- The next attempt has been counted already. -/
theorem asked_retry {c : BlitzDownloader.Claim} {err : DownloadError} :
    asked ω (.attempt (c.retry err)) = (maxSegmentRetries - c.attempt) * ω (c.start, c.end) := by
  show (maxSegmentRetries + 1 - (c.attempt + 1)) * ω (c.start, c.end) = _
  rw [Nat.add_sub_add_right]

/-- No move adds to the requests to come. -/
theorem asked_moves (h : Moves pc pc') : asked ω pc' ≤ asked ω pc := by
  cases h with
  | send => exact Nat.mul_le_mul_right _ (by omega)
  | resend => exact Nat.le_of_eq asked_retry
  | restart => exact Nat.le_of_eq asked_retry
  | restartChunk => exact Nat.le_of_eq asked_retry
  | more => exact Nat.le_refl _
  | _ => exact Nat.zero_le _

/-- A request is one of the attempts that its range has. -/
theorem requests_worker (hs : workerStep d w input = some d') :
    requests d (.worker w input) = [] ∨
      ∃ c, d.workers w = .attempt c ∧ requests d (.worker w input) = [(c.start, c.end)] ∧
        c.attempt ≤ maxSegmentRetries ∧ d' = d.goto w (.send c) := by
  cases input with
  | go =>
      cases hw : d.workers w with
      | attempt c =>
          simp only [workerStep, hw] at hs
          simp only [requests, hw]
          by_cases hmany : c.attempt > maxSegmentRetries
          · rw [if_pos (Or.inl hmany)]
            exact Or.inl rfl
          · rw [if_neg hmany] at hs
            by_cases hcancel : d.cancelled = true
            · rw [if_pos (Or.inr hcancel)]
              exact Or.inl rfl
            · rw [if_neg hcancel] at hs
              rw [if_neg (not_or.mpr ⟨hmany, hcancel⟩)]
              exact Or.inr ⟨c, rfl, rfl, not_lt.mp hmany, (Option.some.inj hs).symm⟩
      | _ => exact Or.inl (by simp only [requests, hw])
  | _ => exact Or.inl rfl

/-- A claim is worth four requests. -/
theorem spending_asked : Spending (asked ω) ω (maxSegmentRetries + 1) where
  moves := asked_moves
  claim _ := rfl
  claimed _ _ _ := rfl
  pushed _ _ _ _ := Nat.le_refl _
  opened _ := Nat.le_refl _
  received _ _ _ := Nat.le_refl _
  wrote _ _ _ _ _ := Nat.le_refl _
  marked _ := Nat.le_refl _
  unlisted _ := Nat.le_refl _
  counted _ := Nat.le_refl _
  measure _ := rfl
  top _ := rfl
  finish _ := rfl
  ended _ := rfl
  panicked _ := rfl

/-- **Step**: what a worker's step asks for is paid. -/
theorem afforded_workerStep (hβ : Earns d.buf.totalSize ω β)
    (hsize : minSegmentSize ≤ Pc.size (d.workers w)) (hs : workerStep d w input = some d') :
    Afforded (asked ω) Pc.size ω (maxSegmentRetries + 1) β d.workers d.buf w d'.workers d'.buf
      (requests d (.worker w input)) := by
  rcases requests_worker hs with hnone | ⟨c, hc, hone, hle, rfl⟩
  · rw [hnone]
    exact spending_asked.quiet hβ hsize hs
  · -- the request takes one of the attempts that are left
    have hw : (d.goto w (.send c)).workers w = .send c := Function.update_self ..
    have hleft : asked ω (.attempt c) = ω (c.start, c.end) + asked ω (.send c) := by
      show (maxSegmentRetries + 1 - c.attempt) * ω (c.start, c.end)
        = ω (c.start, c.end) + (maxSegmentRetries - c.attempt) * ω (c.start, c.end)
      rw [Nat.succ_sub hle, Nat.succ_mul, Nat.add_comm]
    refine ⟨hw.symm ▸ rfl, rfl, id, ?_, ?_⟩
    · rw [hw, hc]
      exact id
    · rw [hone, hw, hc, hleft]
      exact Nat.le_refl _

/-- **Step** of the download: its requests are paid for. -/
theorem requests_account (hβ : Earns totalSize ω β) (d : BlitzDownloader.Download)
    (a : BlitzDownloader.Act) (d' : BlitzDownloader.Download) (reqs : List (Nat × Nat))
    (h : HttpAccount (asked ω) totalSize ω (maxSegmentRetries + 1) β d reqs)
    (hs : BlitzDownloader.step d a = some d') :
    HttpAccount (asked ω) totalSize ω (maxSegmentRetries + 1) β d' (reqs ++ requests d a) := by
  cases a with
  | worker w input => exact h.step (afforded_workerStep (h.total.symm ▸ hβ) (h.sized w) hs)
  | _ => exact httpAccount_coordinator h rfl (by rintro _ _ ⟨⟩) hs

/-- **Run** of the download. -/
theorem requests_run (hβ : Earns totalSize ω β)
    (hrun : run BlitzDownloader.step (start n totalSize file) acts = some d) :
    HttpAccount (asked ω) totalSize ω (maxSegmentRetries + 1) β d
      (outputs BlitzDownloader.step requests (start n totalSize file) acts) :=
  outputs_invariant (requests_account hβ) (httpAccount_start rfl rfl) hrun

/-- **Requests of a download**: in every run, whatever upstream answers and
    however many workers there are, at most four requests go out for each
    `MIN_SEGMENT_SIZE` bytes of the file, the last of them counted as
    full. -/
theorem requests_bounded
    (hrun : run BlitzDownloader.step (start n totalSize file) acts = some d) :
    (outputs BlitzDownloader.step requests (start n totalSize file) acts).length
      ≤ (maxSegmentRetries + 1) * ((totalSize + (minSegmentSize - 1)) / minSegmentSize) :=
  (requests_run earns_one hrun).count_le

/-- **Bytes a download asks for**: in every run the requests ask for no more
    than four times the bytes of the file. -/
theorem bytes_requested_bounded
    (hrun : run BlitzDownloader.step (start n totalSize file) acts = some d) :
    ((outputs BlitzDownloader.step requests (start n totalSize file) acts).map
      fun r => r.2 - r.1).sum ≤ (maxSegmentRetries + 1) * totalSize := by
  have h := requests_run earns_bytes hrun
  exact h.covers.amount_le.trans (Nat.mul_le_mul_left _ h.within)

theorem requests_bounded_twoPieces :
    ∃ d, run BlitzDownloader.step (start 2 (initialSegmentSize + 1) newFile)
        (twoPieces firstSegmentBytes [8]) = some d ∧
      (outputs BlitzDownloader.step requests (start 2 (initialSegmentSize + 1) newFile)
        (twoPieces firstSegmentBytes [8])).length
          ≤ (maxSegmentRetries + 1)
            * ((initialSegmentSize + 1 + (minSegmentSize - 1)) / minSegmentSize) := by
  obtain ⟨d, hrun, -⟩ := twoPieces_run firstSegmentBytes [8] newFile length_firstSegmentBytes rfl
  exact ⟨d, hrun, requests_bounded hrun⟩

theorem bytes_requested_bounded_twoPieces :
    ∃ d, run BlitzDownloader.step (start 2 (initialSegmentSize + 1) newFile)
        (twoPieces firstSegmentBytes [8]) = some d ∧
      ((outputs BlitzDownloader.step requests (start 2 (initialSegmentSize + 1) newFile)
        (twoPieces firstSegmentBytes [8])).map fun r => r.2 - r.1).sum
          ≤ (maxSegmentRetries + 1) * (initialSegmentSize + 1) := by
  obtain ⟨d, hrun, -⟩ := twoPieces_run firstSegmentBytes [8] newFile length_firstSegmentBytes rfl
  exact ⟨d, hrun, bytes_requested_bounded hrun⟩

end Http

/-! ## An FTP download -/

section Ftp

open BlitzFtp BlitzFtpSteps BlitzFtpResults Download

variable {d d' : BlitzFtp.Download} {w : Nat} {a : BlitzFtp.Act} {acts : List BlitzFtp.Act}
  {pc pc' : BlitzFtp.Pc} {input : BlitzFtp.Input} {reqs : List (Nat × Nat)}

/-- The range of the `RETR` that is sent with this step. -/
def retrs (d : BlitzFtp.Download) : BlitzFtp.Act → List (Nat × Nat)
  | .worker w (.sent _) =>
      match d.workers w with
      | .retr c _ => [(c.start, c.end)]
      | _ => []
  | _ => []

/-- What the worker may still ask for with the range it has. -/
def retrAsked (ω : Nat × Nat → Nat) : BlitzFtp.Pc → Nat
  | .push _ a z => ω (a, z)
  | .pasv c => ω (c.start, c.end)
  | .rest c _ => ω (c.start, c.end)
  | .retr c _ => ω (c.start, c.end)
  | _ => 0

/-- The size the worker will claim next. -/
def ftpSize : BlitzFtp.Pc → Nat
  | .top p => p.1
  | .claim p => p.1
  | .push p _ _ => p.1
  | .pasv c => c.preferredSize.1
  | .rest c _ => c.preferredSize.1
  | .retr c _ => c.preferredSize.1
  | .connect c _ => c.preferredSize.1
  | .reply150 c => c.preferredSize.1
  | .read c _ => c.preferredSize.1
  | .write c _ _ => c.preferredSize.1
  | .reply226 c => c.preferredSize.1
  | .markState c => c.preferredSize.1
  | .markCount c => c.preferredSize.1
  | .measure c => c.preferredSize.1
  | _ => initialSegmentSize

/-- A move leaves the preferred size alone, or makes it the first one. -/
theorem ftpSize_moves (hnot : ∀ c, pc ≠ .measure c) (h : Moves pc pc') :
    ftpSize pc' = ftpSize pc ∨ ftpSize pc' = initialSegmentSize := by
  cases h with
  | login => exact Or.inr rfl
  | loggedIn => exact Or.inr rfl
  | again => exact absurd rfl (hnot _)
  | _ => exact Or.inl rfl

/-- No move adds to the requests to come. -/
theorem retrAsked_moves (h : Moves pc pc') : retrAsked ω pc' ≤ retrAsked ω pc := by
  cases h with
  | rest => exact Nat.le_refl _
  | fromStart => exact Nat.le_refl _
  | rested => exact Nat.le_refl _
  | _ => exact Nat.zero_le _

/-- A step with which no `RETR` goes out. -/
theorem ftpAfforded_worked (hβ : Earns d.buf.totalSize ω β)
    (hsize : minSegmentSize ≤ ftpSize (d.workers w)) (hnot : ∀ c, d.workers w ≠ .measure c)
    (h : Worked d w input d') :
    Afforded (retrAsked ω) ftpSize ω 1 β d.workers d.buf w d'.workers d'.buf [] := by
  have hfirst : minSegmentSize ≤ initialSegmentSize := by decide
  cases h with
  | moved hm =>
      refine afforded_goto rfl rfl rfl (fun h => ?_) (retrAsked_moves hm)
      rcases ftpSize_moves hnot hm with hsame | hnew
      · rw [hsame]
        exact h
      · rw [hnew]
        exact hfirst
  | failed => exact afforded_goto rfl rfl rfl (fun _ => hfirst) (Nat.zero_le _)
  | exhausted hw hcas =>
      rcases claimCas_none hcas with rfl | ⟨rfl, -⟩
      · exact afforded_goto rfl rfl rfl (fun _ => hfirst) (Nat.zero_le _)
      · exact afforded_goto rfl rfl rfl (fun _ => hfirst) (Nat.zero_le _)
  | @cas _ b r p hw hcas =>
      rw [hw] at hsize
      exact afforded_claim rfl hβ hsize hcas rfl (by rw [hw]; rfl) (Nat.one_mul _).symm
  | push hw => exact afforded_goto rfl rfl rfl (by rw [hw]; exact id) (by rw [hw]; rfl)
  | opened hw => exact afforded_goto rfl rfl rfl (by rw [hw]; exact id) (Nat.zero_le _)
  | received hw => exact afforded_goto rfl rfl rfl (by rw [hw]; exact id) (Nat.zero_le _)
  | closedEarly hw => exact afforded_goto rfl rfl rfl (by rw [hw]; exact id) (Nat.zero_le _)
  | @wrote _ c k data b results hw hwrite =>
      obtain ⟨file, rfl⟩ := writeData_file hwrite
      have hloop : ftpSize (readLoop c (k + data.length)) = c.preferredSize.1 ∧
          retrAsked ω (readLoop c (k + data.length)) = 0 := by
        rw [readLoop]
        split <;> exact ⟨rfl, rfl⟩
      refine afforded_goto rfl rfl rfl (fun h => ?_) (hloop.2 ▸ Nat.zero_le _)
      rw [hloop.1]
      rw [hw] at h
      exact h
  | wroteSome hw hwrite =>
      obtain ⟨file, rfl⟩ := writeData_file hwrite
      exact afforded_goto rfl rfl rfl (fun _ => hfirst) (Nat.zero_le _)
  | ready hw => exact afforded_goto rfl rfl rfl (by rw [hw]; exact id) (Nat.zero_le _)
  | unlisted hw => exact afforded_goto rfl rfl rfl (by rw [hw]; exact id) (Nat.zero_le _)
  | counted hw => exact afforded_goto rfl rfl rfl (by rw [hw]; exact id) (Nat.zero_le _)
  | finished hw => exact afforded_goto rfl rfl rfl (fun _ => hfirst) (Nat.zero_le _)
  | panicked => exact afforded_goto rfl rfl rfl (fun _ => hfirst) (Nat.zero_le _)

/-- The step that measures a new preferred size. -/
theorem ftpAfforded_measure {c : BlitzFtp.Claim} (hw : d.workers w = .measure c)
    (hs : BlitzFtp.workerStep d w input = some d') :
    Afforded (retrAsked ω) ftpSize ω 1 β d.workers d.buf w d'.workers d'.buf [] := by
  have hgoto : ∀ pc, minSegmentSize ≤ ftpSize pc ∨ ftpSize pc = c.preferredSize.1 →
      retrAsked ω pc = 0 → d' = d.goto w pc →
      Afforded (retrAsked ω) ftpSize ω 1 β d.workers d.buf w d'.workers d'.buf [] := by
    rintro pc hsize hnone rfl
    refine afforded_goto rfl rfl rfl (fun h => ?_) (hnone ▸ Nat.zero_le _)
    rcases hsize with hnew | hsame
    · exact hnew
    · rw [hsame]
      rw [hw] at h
      exact h
  cases input with
  | panic inLock =>
      simp only [BlitzFtp.workerStep, BlitzFtp.panicStep, hw, Option.some.injEq] at hs
      exact hgoto (.panicked none) (Or.inl (by decide)) rfl hs.symm
  | measured preferred =>
      cases preferred with
      | none =>
          simp only [BlitzFtp.workerStep, hw, Option.some.injEq] at hs
          exact hgoto _ (Or.inr rfl) rfl hs.symm
      | some preferred =>
          simp only [BlitzFtp.workerStep, hw, Option.some.injEq] at hs
          exact hgoto (.top (clampPreferred preferred)) (Or.inl (le_max_left _ _)) rfl hs.symm
  | _ =>
      simp only [BlitzFtp.workerStep, hw] at hs
      cases hs

/-- A range is asked for once. -/
theorem retrs_worker (hs : BlitzFtp.workerStep d w input = some d') :
    retrs d (.worker w input) = [] ∨
      ∃ c conn pc, d.workers w = .retr c conn ∧ retrs d (.worker w input) = [(c.start, c.end)] ∧
        retrAsked ω pc = 0 ∧ (ftpSize pc = c.preferredSize.1 ∨ ftpSize pc = initialSegmentSize) ∧
        d' = d.goto w pc := by
  cases input with
  | sent result =>
      cases hw : d.workers w with
      | retr c conn =>
          refine Or.inr ⟨c, conn, ?_⟩
          cases result with
          | error msg =>
              simp only [BlitzFtp.workerStep, hw, Option.some.injEq] at hs
              exact ⟨_, rfl, by simp only [retrs, hw], rfl, Or.inr rfl, hs.symm⟩
          | ok u =>
              simp only [BlitzFtp.workerStep, hw, Option.some.injEq] at hs
              exact ⟨_, rfl, by simp only [retrs, hw], rfl, Or.inl rfl, hs.symm⟩
      | _ => exact Or.inl (by simp only [retrs, hw])
  | _ => exact Or.inl rfl

/-- **Step**: the `RETR` of a worker's step is paid. -/
theorem ftpAfforded_workerStep (hβ : Earns d.buf.totalSize ω β)
    (hsize : minSegmentSize ≤ ftpSize (d.workers w))
    (hs : BlitzFtp.workerStep d w input = some d') :
    Afforded (retrAsked ω) ftpSize ω 1 β d.workers d.buf w d'.workers d'.buf
      (retrs d (.worker w input)) := by
  rcases @retrs_worker ω d d' w input hs with hnone | ⟨c, conn, pc, hc, hone, hzero, hpc, rfl⟩
  · rw [hnone]
    by_cases hmeasure : ∃ c, d.workers w = .measure c
    · obtain ⟨c, hw⟩ := hmeasure
      exact ftpAfforded_measure hw hs
    · exact ftpAfforded_worked hβ hsize (not_exists.mp hmeasure) (worked_of_workerStep hs)
  · have hw : (d.goto w pc).workers w = pc := Function.update_self ..
    refine ⟨hw.symm ▸ rfl, rfl, id, ?_, ?_⟩
    · rw [hw, hc]
      rcases hpc with hsame | hnew
      · rw [hsame]
        exact id
      · rw [hnew]
        exact fun _ => by decide
    · rw [hone, hw, hc, hzero]
      exact Nat.le_refl _

/-- The account of a download. -/
abbrev FtpAccount (totalSize : Nat) (ω : Nat × Nat → Nat) (β : Nat → Nat)
    (d : BlitzFtp.Download) : List (Nat × Nat) → Prop :=
  Account (retrAsked ω) ftpSize totalSize ω 1 β d.workers d.buf

/-- At the start. -/
theorem ftpAccount_start : FtpAccount totalSize ω β (start n totalSize file) [] := by
  have hidle : ∀ w, (start n totalSize file).workers w = .permit ∨
      (start n totalSize file).workers w = .unspawned := by
    intro w
    have hw : (start n totalSize file).workers w = if w < n then .permit else .unspawned := rfl
    rw [hw]
    split
    next => exact Or.inl rfl
    next => exact Or.inr rfl
  refine ⟨rfl, Nat.zero_le _, fun w => ?_, covers_of_zero (fun w => ?_) (Nat.zero_le _)⟩
  · rcases hidle w with hw | hw <;> rw [hw] <;> decide
  · rcases hidle w with hw | hw <;> rw [hw] <;> rfl

/-- **Step** of the download: its requests are paid for. -/
theorem ftpAccount_step (hβ : Earns totalSize ω β) (d : BlitzFtp.Download) (a : BlitzFtp.Act)
    (d' : BlitzFtp.Download) (reqs : List (Nat × Nat)) (h : FtpAccount totalSize ω β d reqs)
    (hs : BlitzFtp.step d a = some d') : FtpAccount totalSize ω β d' (reqs ++ retrs d a) := by
  cases a with
  | worker w input => exact h.step (ftpAfforded_workerStep (h.total.symm ▸ hβ) (h.sized w) hs)
  | await =>
      show Account _ _ _ _ _ _ _ _ (reqs ++ [])
      rw [List.append_nil]
      cases awaited_of_awaitStep hs with
      | errors => exact ⟨h.total, h.within, h.sized, h.covers⟩
      | _ => exact h

/-- **Transfers of an FTP download**: in every run, whatever the server
    answers and however many workers there are, at most one `RETR` goes out
    for each `MIN_SEGMENT_SIZE` bytes of the file, the last of them counted
    as full. -/
theorem retrs_bounded (hrun : run BlitzFtp.step (start n totalSize file) acts = some d) :
    (outputs BlitzFtp.step retrs (start n totalSize file) acts).length
      ≤ (totalSize + (minSegmentSize - 1)) / minSegmentSize := by
  have h : FtpAccount totalSize (fun _ => 1) (claimsUpTo totalSize) d
      (outputs BlitzFtp.step retrs (start n totalSize file) acts) :=
    outputs_invariant (ftpAccount_step earns_one) ftpAccount_start hrun
  exact h.count_le.trans (Nat.le_of_eq (Nat.one_mul _))

theorem retrs_bounded_oneByte :
    ∃ d, run BlitzFtp.step (start 1 1 [0]) BlitzFtpResults.oneByte = some d ∧
      (outputs BlitzFtp.step retrs (start 1 1 [0]) BlitzFtpResults.oneByte).length
        ≤ (1 + (minSegmentSize - 1)) / minSegmentSize := by
  have hany : (run BlitzFtp.step (start 1 1 [0]) BlitzFtpResults.oneByte).any (fun d =>
      decide (d.coord = .returned (.ok ()))) = true := by decide
  obtain ⟨d, hrun, -⟩ := run_of_any hany
  exact ⟨d, hrun, retrs_bounded hrun⟩

end Ftp

end BlitzRequestBounds
