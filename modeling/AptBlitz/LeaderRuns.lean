import AptBlitz.Downloader
import AptBlitz.Leader
import AptBlitz.Library.Runs

/-! # What a leader leaves in the coalescer

    The entry that made a request the leader of its URL is removed by
    `complete` or `fail`, either in the handler or in the persistence task.
    `leader_entry_gone` says for which answers of the world neither is
    reached: those on which the handler returns an error through `?` before
    the task is spawned. -/

namespace BlitzLeaderRuns

open RustText BlitzCoalescer BlitzFtpUrl BlitzHeaders BlitzLeader Leader Runs

variable {β ε : Type} {s s' : Leader β ε} {a : Act β ε} {acts : List (Act β ε)}

/-! ## Entries and who created them -/

/-- No entry is the leader's. -/
def NoneOwn (m : Entries β) : Prop :=
  ∀ u e, m.coalescer.inflight.lookup u = some e → m.creator u ≠ .leader

/-- Only an entry of this URL can be the leader's. -/
def OnlyAt (m : Entries β) (url : Text) : Prop :=
  ∀ u e, u ≠ url → m.coalescer.inflight.lookup u = some e → m.creator u ≠ .leader

/-- The entry of this URL is the leader's. -/
def OwnAt (m : Entries β) (url : Text) : Prop :=
  (∃ e, m.coalescer.inflight.lookup url = some e) ∧ m.creator url = .leader

section

variable {m : Entries β} {op : Op β} {who : Creator} {url u : Text}

theorem OwnAt.not_noneOwn (h : OwnAt m url) : ¬ NoneOwn m := by
  obtain ⟨⟨e, he⟩, hown⟩ := h
  intro hnone
  exact hnone url e he hown

/-- An operation touches the entry of its own URL only. -/
theorem creator_perform_of_ne (h : u ≠ op.url) : (m.perform who op).creator u = m.creator u := by
  show (if m.coalescer.creates op then Function.update m.creator op.url who else m.creator) u = _
  split
  · exact Function.update_of_ne h ..
  · rfl

/-- The entry an operation leaves for its URL is new, or it was there. -/
theorem creator_perform_self {e : Inflight β}
    (h : (m.perform who op).coalescer.inflight.lookup op.url = some e) :
    (m.perform who op).creator op.url = who ∨
      (∃ e', m.coalescer.inflight.lookup op.url = some e') ∧
        (m.perform who op).creator op.url = m.creator op.url := by
  show (if m.coalescer.creates op then Function.update m.creator op.url who else m.creator) op.url
      = who ∨ _ ∧ (if m.coalescer.creates op then Function.update m.creator op.url who
        else m.creator) op.url = _
  split
  next => exact Or.inl (Function.update_self ..)
  next hno =>
    rcases Coalescer.lookup_after_self h with hyes | hold
    · exact absurd hyes hno
    · exact Or.inr ⟨hold, rfl⟩

/-- Others create no entry of the leader's. -/
theorem NoneOwn.other (h : NoneOwn m) : NoneOwn (m.perform .other op) := by
  intro u e he
  by_cases hu : u = op.url
  · subst hu
    rcases creator_perform_self he with hc | ⟨⟨e', he'⟩, hc⟩
    · rw [hc]
      exact nofun
    · rw [hc]
      exact h _ e' he'
  · rw [creator_perform_of_ne hu]
    exact h u e ((Coalescer.lookup_after_of_ne hu).symm.trans he)

/-- Others create no entry of the leader's, elsewhere either. -/
theorem OnlyAt.other (h : OnlyAt m url) : OnlyAt (m.perform .other op) url := by
  intro u e hurl he
  by_cases hu : u = op.url
  · subst hu
    rcases creator_perform_self he with hc | ⟨⟨e', he'⟩, hc⟩
    · rw [hc]
      exact nofun
    · rw [hc]
      exact h _ e' hurl he'
  · rw [creator_perform_of_ne hu]
    exact h u e hurl ((Coalescer.lookup_after_of_ne hu).symm.trans he)

/-- An operation on the leader's own URL stays there. -/
theorem OnlyAt.perform (h : OnlyAt m url) (hop : op.url = url) :
    OnlyAt (m.perform who op) url := by
  intro u e hu he
  have hne : u ≠ op.url := hop ▸ hu
  rw [creator_perform_of_ne hne]
  exact h u e hu ((Coalescer.lookup_after_of_ne hne).symm.trans he)

/-- `complete` and `fail` remove the entry, whoever created it. -/
theorem OnlyAt.removed (h : OnlyAt m url) (hop : op.url = url)
    (hgone : (m.coalescer.after op).inflight.lookup url = none) :
    NoneOwn (m.perform who op) := by
  intro u e he
  by_cases hu : u = url
  · subst hu
    exact nomatch hgone.symm.trans he
  · exact h.perform hop u e hu he

/-- An operation of another request that leaves the entry of this URL in its
    place: about another URL, or a request that follows. -/
def Leaves (url : Text) (op : Op β) : Prop :=
  op.url ≠ url ∨ ∃ channel, op = .register url channel

/-- An operation of another that leaves the entry alone. -/
theorem OwnAt.other (h : OwnAt m url) (hop : Leaves url op) : OwnAt (m.perform .other op) url := by
  obtain ⟨⟨e, he⟩, hown⟩ := h
  rcases hop with hne | ⟨channel, rfl⟩
  · refine ⟨⟨e, (Coalescer.lookup_after_of_ne (Ne.symm hne)).trans he⟩, ?_⟩
    rw [creator_perform_of_ne (Ne.symm hne)]
    exact hown
  · obtain ⟨e', he'⟩ := Coalescer.lookup_after_register channel he
    refine ⟨⟨e', he'⟩, ?_⟩
    show (if m.coalescer.creates (.register url channel) then _ else m.creator) url = _
    rw [Coalescer.creates_register_of_some he]
    exact hown

end

/-! ## Everything a step can be -/

/-- The handler has yet to remove its entry or to hand it over. -/
def Pc.waiting : Pc → Bool
  | .plain => false
  | .returned _ => false
  | _ => true

/-- The cleanup removes the entry. -/
def Cleanup.closes : Cleanup → Bool
  | .fail _ => true
  | .complete => true
  | _ => false

/-- The task has yet to remove the entry. -/
def Task.waiting : Task → Bool
  | .unspawned => false
  | .cleanup todo => todo.any Cleanup.closes
  | _ => true

/-- The handler returns an error and nobody will remove its entry. -/
def Forgets (s : Leader β ε) (a : Act β ε) : Prop :=
  match s.handler, a with
  | .head, .handler (.sent (.error _)) => True
  | .parseUrl, .handler .go => ∃ e, parseFtpUrl s.url = .error e
  | .size _, .handler (.sized login reply) => ∃ e, checkFtpSize login reply = .error e
  | .create _ _, .handler (.file (.error _)) => True
  | .setLen _ _, .handler (.file (.error _)) => True
  | _, _ => False

/-- What a step of the leader can be. -/
inductive Stepped (s : Leader β ε) : Act β ε → Leader β ε → Prop
  | on {input pc} (h : Pc.waiting s.handler = true) (h' : Pc.waiting pc = true) :
      Stepped s (.handler input) (s.goto pc)
  | forgot {input e} (h : Pc.waiting s.handler = true) (hf : Forgets s (.handler input)) :
      Stepped s (.handler input) (s.goto (.returned (.error e)))
  | completed {input pc} (h : Pc.waiting s.handler = true) (h' : Pc.waiting pc = false) :
      Stepped s (.handler input) ((s.perform (.complete s.url)).goto pc)
  | answered {input r} (h : s.handler = .plain) :
      Stepped s (.handler input) (s.goto (.returned r))
  | attached {input r} (h : Pc.waiting s.handler = true) :
      Stepped s (.handler input)
        ({ s.perform (.attachBuffer s.url s.buffer) with task := .download }.goto (.returned r))
  | worked {input t b} (h : s.task ≠ .unspawned)
      (ht : Task.waiting s.task = true → Task.waiting t = true) :
      Stepped s (.task input) { s with task := t, bufferFailed := b }
  | closed {input op t} (h : s.task ≠ .unspawned) (hop : op.url = s.url)
      (hgone : (s.entries.coalescer.after op).inflight.lookup s.url = none) :
      Stepped s (.task input) { s.perform op with task := t }
  | other {op} : Stepped s (.other op) { s with entries := s.entries.perform .other op }

/-- A head that was looked at leads to no removed entry. -/
theorem waiting_afterHead (resp : Response) : Pc.waiting (afterHead resp) = true := by
  rw [afterHead]
  split
  · split
    · split <;> rfl
    · rfl
  · split <;> rfl

/-- The entry is there still when the download is over. -/
theorem waiting_afterDownload (f : ε → Bool) (r : Option (Except ε Unit)) :
    Task.waiting (afterDownload f r) = true := by
  cases r with
  | none => rfl
  | some r => cases r <;> rfl

/-- The entry is there still when the buffer is synced. -/
theorem waiting_afterSync (url : Text) (synced : Bool) :
    Task.waiting (afterSync url synced) = true := by
  rw [afterSync]
  split
  · split <;> rfl
  · rfl

/-- The entry is there still when the file is tested. -/
theorem waiting_afterVerify (intact : Bool) : Task.waiting (afterVerify intact) = true := by
  cases intact <;> rfl

/-- The entry is there still when the file is stored. -/
theorem waiting_afterStore (stored : Bool) : Task.waiting (afterStore stored) = true := by
  cases stored <;> rfl

/-- `handlerStep` does nothing but this. -/
theorem stepped_of_handlerStep {input : HandlerInput} (h : handlerStep s input = some s') :
    Stepped s (.handler input) s' := by
  have hat : ∀ {pc}, s.handler = pc → Pc.waiting pc = true → Pc.waiting s.handler = true :=
    fun hpc hw => hpc ▸ hw
  simp only [handlerStep] at h
  split at h
  next hpc => cases h; exact .forgot (hat hpc rfl) (by simp [Forgets, hpc])
  next hpc => cases h; exact .on (hat hpc rfl) (waiting_afterHead _)
  next hpc => cases h; exact .completed (hat hpc rfl) rfl
  next hpc => cases h; exact .completed (hat hpc rfl) rfl
  next hpc => cases h; exact .answered hpc
  next hpc => cases h; exact .answered hpc
  next hpc =>
    split at h
    next e he => cases h; exact .forgot (hat hpc rfl) (by simp [Forgets, hpc, he])
    next => cases h; exact .on (hat hpc rfl) rfl
  next hpc =>
    split at h
    next e he => cases h; exact .forgot (hat hpc rfl) (by simp [Forgets, hpc, he])
    next => cases h; exact .on (hat hpc rfl) rfl
  next hpc => cases h; exact .forgot (hat hpc rfl) (by simp [Forgets, hpc])
  next hpc => cases h; exact .on (hat hpc rfl) rfl
  next hpc => cases h; exact .forgot (hat hpc rfl) (by simp [Forgets, hpc])
  next hpc => cases h; exact .on (hat hpc rfl) rfl
  next hpc => cases h; exact .attached (hat hpc rfl)
  next => exact nomatch h

/-- `taskStep` does nothing but this. -/
theorem stepped_of_taskStep {input : TaskInput ε} (h : taskStep s input = some s') :
    Stepped s (.task input) s' := by
  have hat : ∀ {t}, s.task = t → t ≠ .unspawned → s.task ≠ .unspawned :=
    fun ht hne => ht ▸ hne
  simp only [taskStep] at h
  split at h
  next ht => cases h; exact .worked (hat ht nofun) fun _ => waiting_afterDownload ..
  next ht => cases h; exact .worked (hat ht nofun) fun _ => waiting_afterSync ..
  next ht => cases h; exact .worked (hat ht nofun) fun _ => waiting_afterVerify ..
  next ht => cases h; exact .worked (hat ht nofun) fun _ => waiting_afterStore ..
  next e todo ht =>
    cases h
    cases e with
    | setFailed => exact .worked (hat ht nofun) fun hw => by rw [ht] at hw; exact hw
    | removeTemp => exact .worked (hat ht nofun) fun hw => by rw [ht] at hw; exact hw
    | fail etagChanged =>
        have hgone : (s.entries.coalescer.after (.fail s.url etagChanged)).inflight.lookup s.url
            = none := Finmap.lookup_erase ..
        exact .closed (hat ht nofun) rfl hgone
    | complete =>
        have hgone : (s.entries.coalescer.after (.complete s.url)).inflight.lookup s.url
            = none := Finmap.lookup_erase ..
        exact .closed (hat ht nofun) rfl hgone
  next => exact nomatch h

/-- **What a leader does**: `step` does nothing but this. -/
theorem stepped_of_step (h : step s a = some s') : Stepped s a s' := by
  cases a with
  | handler input => exact stepped_of_handlerStep h
  | task input => exact stepped_of_taskStep h
  | other op => cases h; exact .other

/-! ## Runs -/

/-- Until the handler or the task has removed it, the leader's entry is the
    only one it may have. -/
structure Cared (s : Leader β ε) : Prop where
  only : OnlyAt s.entries s.url
  removed : Pc.waiting s.handler = true ∨ Task.waiting s.task = true ∨ NoneOwn s.entries

/-- **Step**: somebody is still there to remove the entry. -/
theorem cared_step (h : Cared s) (hf : ¬ Forgets s a) (hs : Stepped s a s') : Cared s' := by
  cases hs with
  | on _ hw' => exact ⟨h.only, Or.inl hw'⟩
  | forgot _ hforgets => exact absurd hforgets hf
  | completed =>
      exact ⟨h.only.perform rfl, Or.inr (Or.inr (h.only.removed rfl (Finmap.lookup_erase ..)))⟩
  | answered hplain =>
      refine ⟨h.only, ?_⟩
      have hremoved := h.removed
      rw [hplain] at hremoved
      rcases hremoved with hw | hrest
      · exact nomatch hw
      · exact Or.inr hrest
  | attached => exact ⟨h.only.perform rfl, Or.inr (Or.inl rfl)⟩
  | worked _ ht =>
      refine ⟨h.only, ?_⟩
      rcases h.removed with hw | hw | hnone
      · exact Or.inl hw
      · exact Or.inr (Or.inl (ht hw))
      · exact Or.inr (Or.inr hnone)
  | closed _ hop hgone =>
      exact ⟨h.only.perform hop, Or.inr (Or.inr (h.only.removed hop hgone))⟩
  | other =>
      refine ⟨h.only.other, ?_⟩
      rcases h.removed with hw | hw | hnone
      · exact Or.inl hw
      · exact Or.inr (Or.inl hw)
      · exact Or.inr (Or.inr hnone.other)

/-- While the handler has its entry to see to, the entry is there, and no
    task has been spawned. -/
def Holding (s : Leader β ε) : Prop :=
  Pc.waiting s.handler = true → OwnAt s.entries s.url ∧ s.task = .unspawned

/-- The handler has returned without removing its entry. -/
def Forgotten (s : Leader β ε) : Prop :=
  (∃ r, s.handler = .returned r) ∧ s.task = .unspawned ∧ OwnAt s.entries s.url

/-- Other requests leave the entry of this URL alone. -/
def LeftAlone (s : Leader β ε) (a : Act β ε) : Prop :=
  ∀ op, a = .other op → Leaves s.url op

/-- **Step**: the leader still holds its entry, or it is gone. -/
theorem holding_step (h : Holding s) (ha : LeftAlone s a) (hs : Stepped s a s') :
    Holding s' := by
  intro hw'
  cases hs with
  | on hw _ => exact h hw
  | forgot => exact nomatch hw'
  | completed _ hno => exact nomatch hno.symm.trans hw'
  | answered => exact nomatch hw'
  | attached => exact nomatch hw'
  | worked hne => exact absurd (h hw').2 hne
  | closed hne => exact absurd (h hw').2 hne
  | other => exact ⟨(h hw').1.other (ha _ rfl), (h hw').2⟩

/-- An early return ends the handler. -/
theorem returned_of_forgets (hf : Forgets s a) (hs : step s a = some s') :
    Pc.waiting s.handler = true ∧ ∃ r, s' = s.goto (.returned r) := by
  simp only [Forgets] at hf
  split at hf
  next hpc => simp only [step, handlerStep, hpc] at hs; cases hs; exact ⟨hpc ▸ rfl, _, rfl⟩
  next hpc =>
    obtain ⟨e, he⟩ := hf
    simp only [step, handlerStep, hpc, he] at hs
    cases hs
    exact ⟨hpc ▸ rfl, _, rfl⟩
  next hpc =>
    obtain ⟨e, he⟩ := hf
    simp only [step, handlerStep, hpc, he] at hs
    cases hs
    exact ⟨hpc ▸ rfl, _, rfl⟩
  next hpc => simp only [step, handlerStep, hpc] at hs; cases hs; exact ⟨hpc ▸ rfl, _, rfl⟩
  next hpc => simp only [step, handlerStep, hpc] at hs; cases hs; exact ⟨hpc ▸ rfl, _, rfl⟩
  next => exact hf.elim

/-- After an early return nobody is there to remove the entry. -/
theorem forgotten_of_forgets (h : Holding s) (hf : Forgets s a) (hs : step s a = some s') :
    Forgotten s' := by
  obtain ⟨hw, r, rfl⟩ := returned_of_forgets hf hs
  obtain ⟨hown, htask⟩ := h hw
  exact ⟨⟨r, rfl⟩, htask, hown⟩

/-- **Step**: a forgotten entry stays. -/
theorem forgotten_step (h : Forgotten s) (ha : LeftAlone s a) (hs : Stepped s a s') :
    Forgotten s' := by
  obtain ⟨⟨r, hr⟩, htask, hown⟩ := h
  have hno : Pc.waiting s.handler ≠ true := by
    rw [hr]
    exact nofun
  cases hs with
  | on hw _ => exact absurd hw hno
  | forgot hw => exact absurd hw hno
  | completed hw _ => exact absurd hw hno
  | answered hplain => exact nomatch hr.symm.trans hplain
  | attached hw => exact absurd hw hno
  | worked hne => exact absurd htask hne
  | closed hne => exact absurd htask hne
  | other => exact ⟨⟨r, hr⟩, htask, hown.other (ha _ rfl)⟩

/-! ## The entry is gone -/

variable {coalescer : Coalescer β} {url : Text} {channel : Nat} {buffer : β}
  {etagChangedFor : ε → Bool} {first : Pc}

/-- At the start the leader has its own entry and no other. -/
theorem onlyAt_start :
    OnlyAt (start coalescer url channel buffer etagChangedFor first).entries url := by
  have hother : OnlyAt (⟨coalescer, fun _ => .other⟩ : Entries β) url := fun _ _ _ _ => nofun
  show OnlyAt (Entries.perform _ .leader (.register url channel)) url
  exact hother.perform rfl

/-- Below the limit, and with no entry for its URL, the request that becomes
    the leader creates one. -/
theorem ownAt_start (hfree : coalescer.inflight.lookup url = none)
    (hroom : coalescer.inflight.keys.card < maxInflight) :
    OwnAt (start coalescer url channel buffer etagChangedFor first).entries url := by
  constructor
  · refine ⟨.pending [], ?_⟩
    show (coalescer.register url channel).1.inflight.lookup url = _
    simp only [Coalescer.register, hfree, if_neg (not_le.mpr hroom)]
    exact Finmap.lookup_insert _
  · show (if coalescer.creates (.register url channel) then
        Function.update (fun _ => Creator.other) url .leader else fun _ => .other) url = .leader
    have hcreates : coalescer.creates (Op.register url channel) = true := by
      simp [Coalescer.creates, hfree, hroom]
    rw [if_pos hcreates]
    exact Function.update_self ..

/-- **The leader's entry, exactly**: once the handler has returned and its
    task has ended, no entry of the leader is left in a run in which the
    handler did not return early; if other requests leave the URL's entry
    alone, only in such a run. -/
theorem leader_entry_gone (hfirst : first = .head ∨ first = .parseUrl)
    (hfree : coalescer.inflight.lookup url = none)
    (hroom : coalescer.inflight.keys.card < maxInflight)
    (hrun : run step (start coalescer url channel buffer etagChangedFor first) acts = some s)
    (hreturned : ∃ r, s.handler = .returned r)
    (hended : s.task = .unspawned ∨ s.task = .cleanup []) :
    let began := start coalescer url channel buffer etagChangedFor first
    (Along step (fun s a => ¬ Forgets s a) began acts → NoneOwn s.entries) ∧
      (Along step LeftAlone began acts →
        (NoneOwn s.entries ↔ Along step (fun s a => ¬ Forgets s a) began acts)) := by
  intro began
  have hwaiting : Pc.waiting began.handler = true := by
    rcases hfirst with rfl | rfl <;> rfl
  have hgone : Along step (fun s a => ¬ Forgets s a) began acts → NoneOwn s.entries := by
    intro halong
    have hcared : Cared s := along_invariant
      (fun _ _ _ h hf hs => cared_step h hf (stepped_of_step hs))
      ⟨onlyAt_start, Or.inl hwaiting⟩ halong hrun
    obtain ⟨r, hr⟩ := hreturned
    -- a leader that has returned and ended its task is not waiting
    rcases hcared.removed with hw | hw | hnone
    · rw [hr] at hw
      exact nomatch hw
    · rcases hended with ht | ht
      · rw [ht] at hw
        exact nomatch hw
      · rw [ht] at hw
        exact nomatch hw
    · exact hnone
  refine ⟨hgone, fun halone => ⟨?_, hgone⟩⟩
  intro hnone
  -- from the first forgetful step on, the entry stays
  have hholding : Holding began := fun _ => ⟨ownAt_start hfree hroom, rfl⟩
  rcases along_or_last (G := fun s a => ¬ Forgets s a)
    (fun _ _ _ h ha hs => holding_step h ha (stepped_of_step hs))
    (fun _ _ _ h _ hs hf => forgotten_of_forgets h (not_not.mp hf) hs)
    (fun _ _ _ h ha hs => forgotten_step h ha (stepped_of_step hs))
    hholding halone hrun with halong | ⟨-, -, hown⟩
  · exact halong
  · exact absurd hnone hown.not_noneOwn

section Examples

open BlitzDownloader (DownloadError)

/-- `|e| matches!(e, DownloadError::EtagChanged)`. -/
def etagChangedForHttp (e : DownloadError) : Bool := e == .etagChanged

/-- The head of a file of one byte that can be had in ranges. -/
def headOneByte : Response :=
  ⟨200, [("content-length".toList, "1".toList), ("accept-ranges".toList, "bytes".toList)]⟩

/-- The leader of a URL that nobody else asks for. -/
def alone : Leader Nat DownloadError := start .new "http://u".toList 0 0 etagChangedForHttp .head

/-- A one-byte file over HTTP, from the HEAD to the store. -/
def oneByte : List (Act Nat DownloadError) :=
  [.handler (.sent (.ok headOneByte)), .handler (.file (.ok ())), .handler (.file (.ok ())),
    .handler .go, .task (.downloaded (some (.ok ()))), .task (.went true), .task (.went true),
    .task .go]

theorem leader_entry_gone_oneByte :
    ∃ s, run step alone oneByte = some s ∧
      (Along step (fun s a => ¬ Forgets s a) alone oneByte → NoneOwn s.entries) ∧
      (Along step LeftAlone alone oneByte →
        (NoneOwn s.entries ↔ Along step (fun s a => ¬ Forgets s a) alone oneByte)) := by
  have hany : (run step alone oneByte).any (fun s =>
      decide (s.handler = .returned (.ok ⟨200, copyForwardHeaders headOneByte.headers⟩) ∧
        s.task = .cleanup [])) = true := by decide
  obtain ⟨s, hrun, hs⟩ := run_of_any hany
  obtain ⟨hreturned, hended⟩ := of_decide_eq_true hs
  exact ⟨s, hrun, leader_entry_gone (Or.inl rfl) rfl (by decide) hrun ⟨_, hreturned⟩
    (Or.inr hended)⟩

/-- The HEAD request of a leader fails: the handler returns the error, no task
    is spawned, and the leader's entry stays. -/
theorem leader_entry_kept :
    ∃ s, run step alone [.handler (.sent (.error []))] = some s ∧
      s.handler = .returned (.error (.upstream [])) ∧ s.task = .unspawned ∧
      ¬ NoneOwn s.entries := by
  refine ⟨_, rfl, rfl, rfl, ?_⟩
  have hown : OwnAt alone.entries alone.url := ownAt_start rfl (by decide)
  exact hown.not_noneOwn

end Examples

end BlitzLeaderRuns
