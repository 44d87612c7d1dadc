import AptBlitz.SimultaneousRuns

/-! # A download that is torn down

    A download that has failed is torn down in steps: `set_failed` on its
    buffer, the removal of the temp file, and `coalescer.fail` last.  An FTP
    download calls `set_failed` itself before it returns its error.  Requests
    that join meanwhile are those of `BlitzSimultaneous`.

    `intact_iff` says when no request is given a buffer that has failed. -/

namespace BlitzTeardown

open RustText BlitzCoalescer BlitzLeader BlitzLeaderRuns BlitzSimultaneous Runs
open BlitzLeader hiding Act step
open BlitzSimultaneous hiding Act step

variable {γ β ε : Type}

/-- The system in which the download may call `set_failed` before it returns.
    -/
structure Tearing (γ β ε : Type) extends System γ β ε where
  /-- the FTP download has called `set_failed` -/
  gaveUp : Bool

/-- The acts of the system and the early `set_failed`. -/
inductive Act (γ β ε : Type) where
  | system (act : BlitzSimultaneous.Act γ β ε)
  /-- `buffer.set_failed()` in `download_ftp_multithreaded` -/
  | giveUp

/-- The URL is fetched by `download_ftp_multithreaded`. -/
def isFtpUrl (url : Text) : Bool := "ftp://".toList.isPrefixOf url || "ftps://".toList.isPrefixOf url

/-- After its `set_failed` the FTP download returns an error. -/
def mayReturn (s : Tearing γ β ε) : BlitzSimultaneous.Act γ β ε → Bool
  | .leader (.task (.downloaded (some (.error _)))) => true
  | .leader (.task (.downloaded _)) => !s.gaveUp
  | _ => true

/-- `set_failed` of the leader's buffer. -/
def setFailed (s : System γ β ε) : System γ β ε :=
  { s with leader := { s.leader with bufferFailed := true } }

/-- `BlitzSimultaneous.step` with the early `set_failed` of an FTP download. -/
def step (K : ResolveConfig γ) (s : Tearing γ β ε) : Act γ β ε → Option (Tearing γ β ε)
  | .system act =>
      if mayReturn s act then
        (BlitzSimultaneous.step K s.toSystem act).map fun t => { s with toSystem := t }
      else none
  | .giveUp =>
      if isFtpUrl s.leader.url && s.leader.task == .download && !s.gaveUp then
        some ⟨setFailed s.toSystem, true⟩
      else none

/-! ## The entry of a leader that has failed -/

variable {l l' : Leader β ε} {s s' : System γ β ε} {K : ResolveConfig γ}

/-- The entry of the URL hands out the leader's buffer. -/
def HandsOut (l : Leader β ε) : Prop :=
  l.entries.coalescer.inflight.lookup l.url = some (.downloading l.buffer)

/-- Whatever comes after a `set_failed` in a clean-up, the entry is removed. -/
def WellOrdered (todo : List Cleanup) : Prop :=
  ∀ before after, todo = before ++ .setFailed :: after → after.any Cleanup.closes = true

/-- A buffer fails when the task is under way, and the entry that hands it
    out is removed after that. -/
structure FailInv (l : Leader β ε) : Prop where
  spawned : l.task ≠ .unspawned → ∃ r, l.handler = .returned r
  ordered : ∀ todo, l.task = .cleanup todo → WellOrdered todo
  failed : l.bufferFailed = true → l.task ≠ .unspawned ∧
    (Task.waiting l.task = true ∨ ¬ HandsOut l)

/-- The rest of a well-ordered clean-up is well ordered. -/
theorem WellOrdered.tail {e : Cleanup} {todo : List Cleanup} (h : WellOrdered (e :: todo)) :
    WellOrdered todo := by
  intro before after heq
  exact h (e :: before) after (by rw [heq]; rfl)

/-- The clean-up of a failed download sets the buffer failed first. -/
theorem wellOrdered_fail (etagChanged : Bool) :
    WellOrdered [.setFailed, .removeTemp, .fail etagChanged] := by
  intro before after heq
  cases before with
  | nil =>
      cases heq
      rfl
  | cons e before =>
      -- what is left has no other `set_failed`
      have htail := (List.cons.inj heq).2
      have hmem : Cleanup.setFailed ∈ [.removeTemp, .fail etagChanged] := by
        rw [htail]
        exact List.mem_append_right _ List.mem_cons_self
      simp at hmem

theorem wellOrdered_of_notMem {todo : List Cleanup} (h : .setFailed ∉ todo) : WellOrdered todo := by
  rintro before after rfl
  exact absurd (List.mem_append_right _ List.mem_cons_self) h

/-- What follows the download is well ordered. -/
theorem ordered_afterDownload (f : ε → Bool) (result : Option (Except ε Unit)) (todo : List Cleanup)
    (h : afterDownload f result = .cleanup todo) : WellOrdered todo := by
  cases result with
  | none =>
      cases h
      exact wellOrdered_fail _
  | some result =>
      cases result with
      | ok _ => cases h
      | error e =>
          cases h
          exact wellOrdered_fail _

/-- What follows the sync is well ordered. -/
theorem ordered_afterSync (url : Text) (synced : Bool) (todo : List Cleanup)
    (h : afterSync url synced = .cleanup todo) : WellOrdered todo := by
  rw [afterSync] at h
  split at h
  · split at h
    · cases h
    · cases h
  · cases h
    exact wellOrdered_of_notMem (by simp)

/-- What follows the check is well ordered. -/
theorem ordered_afterVerify (intact : Bool) (todo : List Cleanup)
    (h : afterVerify intact = .cleanup todo) : WellOrdered todo := by
  cases intact with
  | true => cases h
  | false =>
      cases h
      exact wellOrdered_fail _

/-- What follows the store is well ordered. -/
theorem ordered_afterStore (stored : Bool) (todo : List Cleanup)
    (h : afterStore stored = .cleanup todo) : WellOrdered todo := by
  cases stored with
  | true =>
      cases h
      exact wellOrdered_of_notMem (by simp)
  | false =>
      cases h
      exact wellOrdered_of_notMem (by simp)

theorem not_handsOut_of_none (h : l.entries.coalescer.inflight.lookup l.url = none) :
    ¬ HandsOut l := by
  intro hands
  cases h.symm.trans hands

/-- The task goes on without touching the flag or the entries. -/
theorem FailInv.goto_task {t : Task} (h : FailInv l) (hspawned : l.task ≠ .unspawned)
    (hwaiting : Task.waiting t = true)
    (hordered : ∀ todo, t = .cleanup todo → WellOrdered todo) : FailInv { l with task := t } where
  spawned _ := h.spawned hspawned
  ordered := hordered
  failed _ := by
    refine ⟨?_, Or.inl hwaiting⟩
    rintro rfl
    cases hwaiting

/-- Every step of the task keeps `FailInv`. -/
theorem FailInv.task {input : TaskInput ε} (h : FailInv l) (hs : taskStep l input = some l') :
    FailInv l' := by
  simp only [taskStep] at hs
  split at hs
  next result ht =>
    cases hs
    exact h.goto_task (by simp [ht]) (waiting_afterDownload l.etagChangedFor result)
      (ordered_afterDownload _ _)
  next well ht =>
    cases hs
    exact h.goto_task (by simp [ht]) (waiting_afterSync l.url well) (ordered_afterSync _ _)
  next well ht =>
    cases hs
    exact h.goto_task (by simp [ht]) (waiting_afterVerify well) (ordered_afterVerify _)
  next well ht =>
    cases hs
    exact h.goto_task (by simp [ht]) (waiting_afterStore well) (ordered_afterStore _)
  next e todo ht =>
    cases hs
    have hspawned := h.spawned (by simp [ht])
    have hne : Task.cleanup todo ≠ .unspawned := by
      intro hc
      cases hc
    have hordered : ∀ rest, Task.cleanup todo = .cleanup rest → WellOrdered rest := by
      rintro rest ⟨⟩
      exact (h.ordered _ ht).tail
    cases e with
    | setFailed =>
        refine ⟨fun _ => hspawned, hordered, fun _ => ⟨hne, Or.inl ?_⟩⟩
        exact h.ordered _ ht [] todo rfl
    | removeTemp =>
        refine ⟨fun _ => hspawned, hordered, fun hfailed => ⟨hne, ?_⟩⟩
        rcases (h.failed hfailed).2 with hwaiting | hgone
        · rw [ht] at hwaiting
          exact Or.inl hwaiting
        · exact Or.inr hgone
    | fail etagChanged =>
        refine ⟨fun _ => hspawned, hordered, fun _ => ⟨hne, Or.inr ?_⟩⟩
        exact not_handsOut_of_none (Finmap.lookup_erase ..)
    | complete =>
        refine ⟨fun _ => hspawned, hordered, fun _ => ⟨hne, Or.inr ?_⟩⟩
        exact not_handsOut_of_none (Finmap.lookup_erase ..)
  next => cases hs

/-- The handler has returned when the task runs, so it does nothing more. -/
theorem FailInv.handler {input : HandlerInput} (h : FailInv l)
    (hs : handlerStep l input = some l') : FailInv l' := by
  have hunspawned : (∀ r, l.handler ≠ .returned r) → l.task = .unspawned ∧ l.bufferFailed = false := by
    intro hnot
    have htask : l.task = .unspawned := by
      by_contra hne
      obtain ⟨r, hr⟩ := h.spawned hne
      exact hnot r hr
    refine ⟨htask, Bool.eq_false_iff.mpr fun hfailed => ?_⟩
    exact (h.failed hfailed).1 htask
  have hwaits : Pc.waiting l.handler = true → ∀ r, l.handler ≠ .returned r := by
    intro hw r hr
    rw [hr] at hw
    cases hw
  have hsame : ∀ pc (entries : Entries β), l.task = .unspawned → l.bufferFailed = false →
      FailInv { l with entries := entries, handler := pc } := by
    intro pc entries htask hfailed
    refine ⟨fun hne => absurd htask hne, ?_, fun hf => ?_⟩
    · intro todo ht
      cases htask.symm.trans ht
    · cases hfailed.symm.trans hf
  cases stepped_of_handlerStep hs with
  | on hw =>
      obtain ⟨htask, hfailed⟩ := hunspawned (hwaits hw)
      exact hsame _ _ htask hfailed
  | forgot hw =>
      obtain ⟨htask, hfailed⟩ := hunspawned (hwaits hw)
      exact hsame _ _ htask hfailed
  | completed hw =>
      obtain ⟨htask, hfailed⟩ := hunspawned (hwaits hw)
      exact hsame _ _ htask hfailed
  | answered hplain =>
      obtain ⟨htask, hfailed⟩ := hunspawned (by simp [hplain])
      exact hsame _ _ htask hfailed
  | attached hw =>
      obtain ⟨htask, hfailed⟩ := hunspawned (hwaits hw)
      refine ⟨fun _ => ⟨_, rfl⟩, ?_, fun hf => ?_⟩
      · intro todo ht
        cases ht
      · cases hfailed.symm.trans hf

/-- Another request's operation hands out no buffer of the leader. -/
theorem FailInv.other {op : Op β} (h : FailInv l)
    (hop : (l.entries.coalescer.after op).inflight.lookup l.url = some (.downloading l.buffer) →
      HandsOut l) : FailInv { l with entries := l.entries.perform .other op } where
  spawned := h.spawned
  ordered := h.ordered
  failed hfailed := by
    obtain ⟨htask, hrest⟩ := h.failed hfailed
    refine ⟨htask, ?_⟩
    rcases hrest with hwaiting | hgone
    · exact Or.inl hwaiting
    · exact Or.inr fun hands => hgone (hop hands)

/-- Every step of the leader keeps `FailInv`. -/
theorem FailInv.step {act : BlitzLeader.Act β ε} (h : FailInv l)
    (hs : BlitzLeader.step l act = some l') (hother : ∀ op, act = .other op → op.url ≠ l.url) :
    FailInv l' := by
  cases act with
  | handler input => exact h.handler hs
  | task input => exact h.task hs
  | other op =>
      cases hs
      refine h.other fun hands => ?_
      rwa [Coalescer.lookup_after_of_ne (Ne.symm (hother op rfl))] at hands

/-- A request that registers creates no entry that hands out a buffer. -/
theorem handsOut_of_register {c : Coalescer β} {url : Text} {channel : Nat} {buffer : β}
    (h : (c.register url channel).1.inflight.lookup url = some (.downloading buffer)) :
    c.inflight.lookup url = some (.downloading buffer) := by
  rw [Coalescer.register] at h
  split at h
  · exact h
  · cases hc : c.inflight.lookup url with
    | none =>
        simp only [hc] at h
        rw [Finmap.lookup_insert] at h
        cases h
    | some e =>
        cases e with
        | downloading b =>
            simp only [hc] at h
            exact h
        | pending senders =>
            simp only [hc] at h
            rw [Finmap.lookup_insert] at h
            cases h

/-! ## Steps of the system -/

/-- Every step of the system keeps `FailInv`. -/
theorem failInv_system {a : BlitzSimultaneous.Act γ β ε} (h : FailInv s.leader)
    (hs : BlitzSimultaneous.step K s a = some s') : FailInv s'.leader := by
  cases BlitzSimultaneousRuns.does_of_step hs with
  | served => exact h
  | looked => exact h
  | led hleader hother => exact h.step hleader hother
  | registered => exact h.other handsOut_of_register
  | moved => exact h

variable {d d' : Tearing γ β ε} {a : Act γ β ε}

/-- **Step** of the system with the early `set_failed`. -/
theorem failInv_step (h : FailInv d.leader) (hs : step K d a = some d') : FailInv d'.leader := by
  cases a with
  | system act =>
      rw [step] at hs
      split at hs
      · obtain ⟨t, ht, rfl⟩ := Option.map_eq_some_iff.mp hs
        exact failInv_system h ht
      · cases hs
  | giveUp =>
      rw [step] at hs
      split at hs
      next hmay =>
        cases hs
        have htask : d.leader.task = .download := by
          simp only [Bool.and_eq_true, beq_iff_eq] at hmay
          exact hmay.1.2
        refine ⟨h.spawned, h.ordered, fun _ => ⟨?_, Or.inl ?_⟩⟩
        · show d.leader.task ≠ .unspawned
          rw [htask]
          exact nofun
        · show Task.waiting d.leader.task = true
          rw [htask]
          rfl
      next => cases hs

/-! ## What a request is given -/

/-- The request has just been given a buffer. -/
def Given (s s' : System γ β ε) (r : Nat) (buffer : β) : Prop :=
  s'.joins r = .followerBuffer buffer ∧ ∀ b, s.joins r ≠ .followerBuffer b

theorem given_goto {r v : Nat} {join : Join β} {b : β} (h : Given s (s.goto v join) r b) :
    r = v ∧ join = .followerBuffer b := by
  obtain ⟨hnew, hold⟩ := h
  have hnew : Function.update s.joins v join r = .followerBuffer b := hnew
  by_cases hr : r = v
  · subst hr
    rw [Function.update_self] at hnew
    exact ⟨rfl, hnew⟩
  · rw [Function.update_of_ne hr] at hnew
    exact absurd hnew (hold b)

theorem not_given_of_joins {r : Nat} {b : β} (h : s'.joins = s.joins) : ¬ Given s s' r b := by
  rintro ⟨hnew, hold⟩
  rw [h] at hnew
  exact hold b hnew

/-- Steps of the server give nobody a buffer. -/
theorem not_given_server {act : BlitzServing.Act γ} {r : Nat} {b : β}
    (hs : serverStep K s act = some s') : ¬ Given s s' r b := by
  simp only [serverStep] at hs
  split at hs
  next v url now later =>
    split at hs
    next =>
      split at hs
      next =>
        obtain ⟨t, ht, rfl⟩ := Option.map_eq_some_iff.mp hs
        obtain ⟨server, -, rfl⟩ := Option.map_eq_some_iff.mp ht
        intro hgiven
        have hgoto : Given s (s.goto v (.looked !s.inserted)) r b := hgiven
        cases (given_goto hgoto).2
      next => cases hs
    next => cases hs
  next =>
    split at hs
    next => cases hs
    next =>
      obtain ⟨server, -, rfl⟩ := Option.map_eq_some_iff.mp hs
      exact not_given_of_joins rfl
  next =>
    obtain ⟨t, ht, rfl⟩ := Option.map_eq_some_iff.mp hs
    obtain ⟨server, -, rfl⟩ := Option.map_eq_some_iff.mp ht
    exact not_given_of_joins rfl
  next =>
    obtain ⟨server, -, rfl⟩ := Option.map_eq_some_iff.mp hs
    exact not_given_of_joins rfl

/-- A request is given a buffer by the channel it waits on, or by the entry
    of the URL when it registers. -/
theorem given_cases {act : BlitzSimultaneous.Act γ β ε} {r : Nat} {b : β}
    (hs : BlitzSimultaneous.step K s act = some s') (hgiven : Given s s' r b) :
    (act = .receive r ∧ b = s.leader.buffer) ∨
      (act = .register r ∧ (s.coalescer.register s.leader.url s.channels).2 = .followerBuffer b) := by
  cases act with
  | server act => exact absurd hgiven (not_given_server hs)
  | leader act =>
      simp only [BlitzSimultaneous.step, leaderStep] at hs
      split at hs
      · obtain ⟨leader, -, rfl⟩ := Option.map_eq_some_iff.mp hs
        exact absurd hgiven (not_given_of_joins rfl)
      · cases hs
  | register v =>
      simp only [BlitzSimultaneous.step] at hs
      split at hs
      · cases hs
        have hgoto : Given s (s.goto v (afterRegister
            (s.coalescer.register s.leader.url s.channels).2)) r b := hgiven
        obtain ⟨rfl, hjoin⟩ := given_goto hgoto
        refine Or.inr ⟨rfl, ?_⟩
        cases hresult : (s.coalescer.register s.leader.url s.channels).2 with
        | leader =>
            rw [hresult] at hjoin
            cases hjoin
        | follower rx =>
            rw [hresult] at hjoin
            cases hjoin
        | followerBuffer b' =>
            rw [hresult] at hjoin
            cases hjoin
            rfl
      · cases hs
  | receive v =>
      simp only [BlitzSimultaneous.step] at hs
      split at hs
      · split at hs
        · cases hs
          obtain ⟨rfl, hjoin⟩ := given_goto hgiven
          cases hjoin
          exact Or.inl ⟨rfl, rfl⟩
        · cases hs
      · cases hs
  | closed v =>
      simp only [BlitzSimultaneous.step] at hs
      split at hs
      · split at hs
        · cases hs
          obtain ⟨-, hjoin⟩ := given_goto hgiven
          refine absurd hjoin (BlitzSimultaneousRuns.retried_ne ?_ ?_)
          · intro e hc
            cases hc
          · intro hc
            cases hc
        · cases hs
      · cases hs
  | timedOut v =>
      simp only [BlitzSimultaneous.step] at hs
      split at hs
      · cases hs
        cases (given_goto hgiven).2
      · cases hs
  | rejected v =>
      simp only [BlitzSimultaneous.step] at hs
      split at hs
      · cases hs
        cases (given_goto hgiven).2
      · cases hs

/-- `register` gives the buffer of the entry, while there is room. -/
theorem register_gives {c : Coalescer β} {url : Text} {channel : Nat} {b : β} :
    (c.register url channel).2 = .followerBuffer b ↔
      c.inflight.keys.card < maxInflight ∧ c.inflight.lookup url = some (.downloading b) := by
  rw [Coalescer.register]
  split
  next hfull =>
    constructor
    · intro h
      cases h
    · intro h
      exact absurd hfull (not_le.mpr h.1)
  next hroom =>
    rw [and_iff_right (not_le.mp hroom)]
    cases c.inflight.lookup url with
    | none =>
        constructor
        · intro h
          cases h
        · intro h
          cases h
    | some e =>
        cases e with
        | pending senders =>
            constructor
            · intro h
              cases h
            · intro h
              cases h
        | downloading b' =>
            constructor
            · intro h
              cases h
              rfl
            · intro h
              cases h
              rfl

/-! ## The condition -/

/-- A step that gives a request a buffer gives it one that has not failed. -/
def Intact (K : ResolveConfig γ) (d : Tearing γ β ε) (a : Act γ β ε) : Prop :=
  ∀ d' r b, step K d a = some d' → Given d.toSystem d'.toSystem r b →
    ¬ (b = d'.leader.buffer ∧ d'.leader.bufferFailed = true)

/-- The buffer has failed, and the task has yet to call `coalescer.fail`. -/
def BeingTornDown (l : Leader β ε) : Prop := l.bufferFailed = true ∧ Task.waiting l.task = true

/-- No request registers while the download is being torn down, its entry
    hands out the buffer and the map has room; and none takes the buffer out
    of its channel once it has failed. -/
def InTime (d : Tearing γ β ε) : Act γ β ε → Prop
  | .system (.register _) => ¬ (BeingTornDown d.leader ∧ HandsOut d.leader ∧
      d.coalescer.inflight.keys.card < maxInflight)
  | .system (.receive _) => d.leader.bufferFailed = false
  | _ => True

/-- `register` leaves the leader alone and gives what the coalescer returns. -/
theorem given_register {s s' : System γ β ε} {r : Nat}
    (hs : BlitzSimultaneous.step K s (.register r) = some s') :
    (s'.leader.buffer = s.leader.buffer ∧ s'.leader.bufferFailed = s.leader.bufferFailed) ∧
      ∀ b, (s.coalescer.register s.leader.url s.channels).2 = .followerBuffer b →
        Given s s' r b := by
  simp only [BlitzSimultaneous.step] at hs
  split at hs
  next hlooked _ =>
    cases hs
    refine ⟨⟨rfl, rfl⟩, ?_⟩
    intro b hgives
    refine ⟨?_, ?_⟩
    · show Function.update s.joins r (afterRegister _) r = _
      rw [Function.update_self, hgives]
      rfl
    · intro b'
      rw [hlooked]
      intro hc
      cases hc
  next => cases hs

/-- A receiver is given the leader's buffer, as it is. -/
theorem given_receive {s s' : System γ β ε} {r : Nat}
    (hs : BlitzSimultaneous.step K s (.receive r) = some s') :
    s'.leader = s.leader ∧ Given s s' r s.leader.buffer := by
  simp only [BlitzSimultaneous.step] at hs
  split at hs
  next hfollows =>
    split at hs
    · cases hs
      refine ⟨rfl, Function.update_self .., ?_⟩
      intro b
      rw [hfollows]
      intro hc
      cases hc
    · cases hs
  next => cases hs

/-- `set_failed` hands out no buffer. -/
theorem not_given_giveUp {r : Nat} {b : β} (hs : step K d .giveUp = some d') :
    ¬ Given d.toSystem d'.toSystem r b := by
  rw [step] at hs
  split at hs
  · cases hs
    exact not_given_of_joins rfl
  · cases hs

theorem system_of_step {act : BlitzSimultaneous.Act γ β ε}
    (hs : step K d (.system act) = some d') :
    ∃ t, BlitzSimultaneous.step K d.toSystem act = some t ∧ d' = { d with toSystem := t } := by
  rw [step] at hs
  split at hs
  · obtain ⟨t, ht, rfl⟩ := Option.map_eq_some_iff.mp hs
    exact ⟨t, ht, rfl⟩
  · cases hs

/-- In time, nobody is given a buffer that has failed. -/
theorem intact_of_inTime (h : FailInv d.leader) (hin : InTime d a) : Intact K d a := by
  rintro e r b hs hgiven ⟨rfl, hfailed⟩
  cases a with
  | giveUp => exact not_given_giveUp hs hgiven
  | system act =>
      obtain ⟨t, ht, rfl⟩ := system_of_step hs
      rcases given_cases ht hgiven with ⟨rfl, -⟩ | ⟨rfl, hgives⟩
      · have hgood : d.leader.bufferFailed = false := hin
        have hbad : t.leader.bufferFailed = true := hfailed
        rw [(given_receive ht).1, hgood] at hbad
        cases hbad
      · obtain ⟨⟨hbuffer, hsame⟩, -⟩ := given_register ht
        obtain ⟨hroom, hentry⟩ := register_gives.mp hgives
        have hands : HandsOut d.leader := by
          rw [HandsOut, ← hbuffer]
          exact hentry
        have hfailed : d.leader.bufferFailed = true := hsame.symm.trans hfailed
        -- what has failed and is still handed out is being torn down
        have hwaiting := (h.failed hfailed).2.resolve_right fun hgone => hgone hands
        exact hin ⟨⟨hfailed, hwaiting⟩, hands, hroom⟩

/-- Out of time, somebody is given one. -/
theorem inTime_of_intact (hs : step K d a = some d') (hintact : Intact K d a) : InTime d a := by
  cases a with
  | giveUp => trivial
  | system act =>
      obtain ⟨t, ht, rfl⟩ := system_of_step hs
      cases act with
      | register r =>
          rintro ⟨⟨hfailed, -⟩, hands, hroom⟩
          obtain ⟨⟨hbuffer, hsame⟩, hgives⟩ := given_register ht
          refine hintact _ r d.leader.buffer hs (hgives _ (register_gives.mpr ⟨hroom, hands⟩)) ?_
          exact ⟨hbuffer.symm, hsame.trans hfailed⟩
      | receive r =>
          obtain ⟨hsame, hgiven⟩ := given_receive ht
          show d.leader.bufferFailed = false
          rw [← Bool.not_eq_true]
          intro hfailed
          refine hintact _ r d.leader.buffer hs hgiven ⟨?_, ?_⟩
          · show d.leader.buffer = t.leader.buffer
            rw [hsame]
          · show t.leader.bufferFailed = true
            rw [hsame, hfailed]
      | _ => trivial

/-- A request gets a live buffer if and only if it came in time. -/
theorem inTime_iff (h : FailInv d.leader) (hs : step K d a = some d') :
    InTime d a ↔ Intact K d a :=
  ⟨intact_of_inTime h, inTime_of_intact hs⟩

/-! ## Runs -/

/-- A request has just become the leader of the URL. -/
def begun (server : BlitzServing.Server γ) (coalescer : Coalescer β) (url : Text) (buffer : β)
    (etagChangedFor : ε → Bool) (first : Pc) (joins : Nat → Join β) : Tearing γ β ε :=
  ⟨led server coalescer url buffer etagChangedFor first joins, false⟩

theorem failInv_begun {server : BlitzServing.Server γ} {coalescer : Coalescer β} {url : Text}
    {buffer : β} {etagChangedFor : ε → Bool} {first : Pc} {joins : Nat → Join β} :
    FailInv (begun server coalescer url buffer etagChangedFor first joins).leader := by
  refine ⟨fun h => absurd rfl h, ?_, ?_⟩
  · intro todo h
    cases h
  · intro h
    cases h

/-- **No buffer that has failed, exactly**: in the runs of a leader with the
    requests for its URL, whatever the coalescer held before, each request is
    given a buffer that has not failed if and only if none registers while
    the download is being torn down, and none takes the buffer out of its
    channel after that has begun. -/
theorem intact_iff {server : BlitzServing.Server γ} {coalescer : Coalescer β} {url : Text}
    {buffer : β} {etagChangedFor : ε → Bool} {first : Pc} {joins : Nat → Join β}
    {acts : List (Act γ β ε)} {t : Tearing γ β ε}
    (hrun : run (step K) (begun server coalescer url buffer etagChangedFor first joins) acts = some t) :
    Along (step K) InTime (begun server coalescer url buffer etagChangedFor first joins) acts ↔
      Along (step K) (Intact K) (begun server coalescer url buffer etagChangedFor first joins) acts :=
  along_congr (I := fun d => FailInv d.leader) (fun _ _ _ => failInv_step)
    (fun _ _ _ => inTime_iff) failInv_begun hrun

section Examples

open BlitzSimultaneousRuns (exampleConfig started lookedUp)

/-- Request 1 registers while the download is under way, and it fails then. -/
def joinedInTime : List (Act (List UInt8) Nat Nat) :=
  lookedUp.map .system ++ [.system (.register 1),
    .system (.leader (.task (.downloaded none))), .system (.leader (.task .go))]

/-- Request 1 registers when the buffer has failed, before
    `coalescer.fail`. -/
def joinedLate : List (Act (List UInt8) Nat Nat) :=
  lookedUp.map .system ++ [.system (.leader (.task (.downloaded none))),
    .system (.leader (.task .go)), .system (.register 1)]

theorem intact_joinedInTime :
    Along (step exampleConfig) InTime ⟨started, false⟩ joinedInTime ↔
      Along (step exampleConfig) (Intact exampleConfig) ⟨started, false⟩ joinedInTime := by
  obtain ⟨t, hrun⟩ : ∃ t, run (step exampleConfig) ⟨started, false⟩ joinedInTime = some t := ⟨_, rfl⟩
  exact intact_iff hrun

theorem not_intact_joinedLate :
    ∃ t, run (step exampleConfig) ⟨started, false⟩ joinedLate = some t ∧
      t.joins 1 = .followerBuffer t.leader.buffer ∧ t.leader.bufferFailed = true :=
  ⟨_, rfl, rfl, rfl⟩

end Examples

end BlitzTeardown
