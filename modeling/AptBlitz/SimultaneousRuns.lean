import AptBlitz.CacheRuns
import AptBlitz.LeaderRuns
import AptBlitz.Simultaneous

/-! # One download for simultaneous requests

    A request that has missed the cache registers without looking again.
    When the leader's insert and its `complete` both come in between, there
    is nothing left to follow, and the request downloads the file once more.
    `one_download_iff` says that nothing else makes a second leader, but a
    full map. -/

namespace BlitzSimultaneousRuns

open RustText BlitzCoalescer BlitzHeaders BlitzFtpUrl BlitzLeader BlitzSimultaneous Runs
open BlitzServing hiding Act step afterHead
open BlitzFreshness (isFresh)
open BlitzLeader hiding Act step
open BlitzSimultaneous hiding Act step

variable {γ β ε : Type} {l l' : Leader β ε} {act : BlitzLeader.Act β ε} {K : ResolveConfig γ}
  {s s' : System γ β ε} {a : BlitzSimultaneous.Act γ β ε}

/-! ## A leader that succeeds -/

/-- The answers of the world are those of a download that succeeds. -/
def Succeeds (l : Leader β ε) : BlitzLeader.Act β ε → Prop
  | .handler .go => ∀ e, l.handler = .parseUrl → parseFtpUrl l.url ≠ .error e
  | .handler (.sent result) =>
      ∃ resp totalSize headers, result = .ok resp ∧ afterHead resp = .create totalSize headers
  | .handler (.sized login reply) => ∀ e, checkFtpSize login reply ≠ .error e
  | .handler (.file result) => ∀ e, result ≠ .error e
  | .task (.downloaded result) => ∃ u, result = some (.ok u)
  | .task (.went well) => well = true
  | .task .go => True
  | .other _ => True

/-- The handler is on its way to `attach_buffer`. -/
def Pc.early : Pc → Bool
  | .head => true
  | .parseUrl => true
  | .size _ => true
  | .create _ _ => true
  | .setLen _ _ => true
  | .attach _ _ => true
  | _ => false

/-- The task is on its way to `complete`. -/
def Task.working : Task → Bool
  | .download => true
  | .sync => true
  | .verify => true
  | .store => true
  | .cleanup [.complete] => true
  | _ => false

/-- How far a leader is that succeeds. -/
inductive Phase (l : Leader β ε) : Prop
  | early (hpc : Pc.early l.handler = true) (ht : l.task = .unspawned)
  | working {r} (hpc : l.handler = .returned r) (ht : Task.working l.task = true)
  | done {r} (hpc : l.handler = .returned r) (ht : l.task = .cleanup [])

/-- What a step of such a leader can be. -/
inductive Advances (l : Leader β ε) : BlitzLeader.Act β ε → Leader β ε → Prop
  | on {input pc} (hpc : Pc.early l.handler = true) (ht : l.task = .unspawned)
      (hpc' : Pc.early pc = true) : Advances l (.handler input) (l.goto pc)
  | attached {input r} (hpc : Pc.early l.handler = true) (ht : l.task = .unspawned) :
      Advances l (.handler input)
        ({ l.perform (.attachBuffer l.url l.buffer) with task := .download }.goto (.returned r))
  | worked {input r t} (hpc : l.handler = .returned r) (ht : Task.working l.task = true)
      (ht' : Task.working t = true) : Advances l (.task input) { l with task := t }
  | completed {input r} (hpc : l.handler = .returned r) (ht : Task.working l.task = true) :
      Advances l (.task input) { l.perform (.complete l.url) with task := .cleanup [] }
  | other {op} : Advances l (.other op) { l with entries := l.entries.perform .other op }

/-- A handler whose calls succeed goes on. -/
theorem advances_of_handlerStep {input : HandlerInput} (hphase : Phase l)
    (hsucceeds : Succeeds l (.handler input)) (h : handlerStep l input = some l') :
    Advances l (.handler input) l' := by
  have hearly : (∀ r, l.handler ≠ .returned r) → Pc.early l.handler = true ∧ l.task = .unspawned := by
    intro hnot
    cases hphase with
    | early hpc ht => exact ⟨hpc, ht⟩
    | working hpc => exact absurd hpc (hnot _)
    | done hpc => exact absurd hpc (hnot _)
  simp only [handlerStep] at h
  split at h
  next hpc =>
    obtain ⟨resp, totalSize, headers, hr, -⟩ := hsucceeds
    cases hr
  next resp hpc =>
    obtain ⟨_, totalSize, headers, hr, hafter⟩ := hsucceeds
    cases hr
    cases h
    obtain ⟨he, ht⟩ := hearly (by simp [hpc])
    exact .on he ht (by rw [hafter]; rfl)
  next hpc => cases (hearly (by simp [hpc])).1.symm.trans (congrArg Pc.early hpc)
  next hpc => cases (hearly (by simp [hpc])).1.symm.trans (congrArg Pc.early hpc)
  next hpc => cases (hearly (by simp [hpc])).1.symm.trans (congrArg Pc.early hpc)
  next hpc => cases (hearly (by simp [hpc])).1.symm.trans (congrArg Pc.early hpc)
  next hpc =>
    obtain ⟨he, ht⟩ := hearly (by simp [hpc])
    split at h
    next e hparse => exact absurd hparse (hsucceeds e hpc)
    next => cases h; exact .on he ht rfl
  next hpc =>
    obtain ⟨he, ht⟩ := hearly (by simp [hpc])
    split at h
    next e hsize => exact absurd hsize (hsucceeds e)
    next => cases h; exact .on he ht rfl
  next e hpc => exact absurd rfl (hsucceeds e)
  next hpc =>
    obtain ⟨he, ht⟩ := hearly (by simp [hpc])
    cases h
    exact .on he ht rfl
  next e hpc => exact absurd rfl (hsucceeds e)
  next hpc =>
    obtain ⟨he, ht⟩ := hearly (by simp [hpc])
    cases h
    exact .on he ht rfl
  next hpc =>
    obtain ⟨he, ht⟩ := hearly (by simp [hpc])
    cases h
    exact .attached he ht
  next => cases h

/-- A task whose calls succeed goes on. -/
theorem advances_of_taskStep {input : TaskInput ε} (hphase : Phase l)
    (hsucceeds : Succeeds l (.task input)) (h : taskStep l input = some l') :
    Advances l (.task input) l' := by
  have hworking : l.task ≠ .unspawned → l.task ≠ .cleanup [] →
      ∃ r, l.handler = .returned r ∧ Task.working l.task = true := by
    intro hspawned hdone
    cases hphase with
    | early hpc ht => exact absurd ht hspawned
    | working hpc ht => exact ⟨_, hpc, ht⟩
    | done hpc ht => exact absurd ht hdone
  simp only [taskStep] at h
  split at h
  next ht =>
    obtain ⟨r, hpc, hw⟩ := hworking (by simp [ht]) (by simp [ht])
    obtain ⟨u, rfl⟩ := hsucceeds
    cases h
    exact .worked hpc hw rfl
  next ht =>
    obtain ⟨r, hpc, hw⟩ := hworking (by simp [ht]) (by simp [ht])
    obtain rfl : _ = true := hsucceeds
    cases h
    refine .worked hpc hw ?_
    rw [afterSync, if_pos rfl]
    split <;> rfl
  next ht =>
    obtain ⟨r, hpc, hw⟩ := hworking (by simp [ht]) (by simp [ht])
    obtain rfl : _ = true := hsucceeds
    cases h
    exact .worked hpc hw rfl
  next ht =>
    obtain ⟨r, hpc, hw⟩ := hworking (by simp [ht]) (by simp [ht])
    obtain rfl : _ = true := hsucceeds
    cases h
    exact .worked hpc hw rfl
  next e todo ht =>
    obtain ⟨r, hpc, hw⟩ := hworking (by simp [ht]) (by simp [ht])
    -- the only cleanup of a task that works is `complete`
    have hlast : e = .complete ∧ todo = [] := by
      rw [ht] at hw
      cases e with
      | complete =>
          cases todo with
          | nil => exact ⟨rfl, rfl⟩
          | cons _ _ => cases hw
      | setFailed => cases hw
      | removeTemp => cases hw
      | fail _ => cases hw
    obtain ⟨rfl, rfl⟩ := hlast
    cases h
    exact .completed hpc hw
  next => cases h

/-- A leader whose calls succeed goes on. -/
theorem advances_of_step (hphase : Phase l) (hsucceeds : Succeeds l act)
    (h : BlitzLeader.step l act = some l') : Advances l act l' := by
  cases act with
  | handler input => exact advances_of_handlerStep hphase hsucceeds h
  | task input => exact advances_of_taskStep hphase hsucceeds h
  | other op => cases h; exact .other

/-! ## Steps of the system -/

/-- The request has missed the cache, or will if the upstream says so. -/
def onTheWay : RequestPc γ → Bool
  | .stale _ => true
  | .missed => true
  | _ => false

/-- What a step of the system can be. -/
inductive Does (K : ResolveConfig γ) (s : System γ β ε) :
    BlitzSimultaneous.Act γ β ε → System γ β ε → Prop
  | served {b server inserted} (hs : BlitzServing.step K.toServerConfig s.server b = some server)
      (hnot : ∀ r u now later, b ≠ .lookupEntry r u now later) :
      Does K s (.server b) { s with server, inserted }
  | looked {r now later server} (hjoin : s.joins r = .looking)
      (hs : BlitzServing.step K.toServerConfig s.server (.lookupEntry r s.leader.url now later)
        = some server) :
      Does K s (.server (.lookupEntry r s.leader.url now later))
        ({ s with server }.goto r (.looked !s.inserted))
  | led {b leader sent dropped} (hs : BlitzLeader.step s.leader b = some leader)
      (hother : ∀ op, b = .other op → op.url ≠ s.leader.url) :
      Does K s (.leader b) { s with leader, sent, dropped }
  | registered {r early} (hjoin : s.joins r = .looked early) (hmissed : s.server.requests r = .missed) :
      Does K s (.register r) (registerStep s r)
  | moved {b r join retries} (hold : s.joins r ≠ .leader) (hnew : join ≠ .leader)
      (hlooked : ∀ early, join ≠ .looked early) (hb : ∀ r, b ≠ .register r) :
      Does K s b { s.goto r join with retries }

/-- A step of the server that is no `lookup_entry`. -/
theorem does_of_serverStep {b : BlitzServing.Act γ} (h : serverStep K s b = some s') :
    Does K s (.server b) s' := by
  simp only [serverStep] at h
  split at h
  next r url now later =>
    split at h
    next hjoin =>
      split at h
      next hurl =>
        subst hurl
        obtain ⟨t, ht, rfl⟩ := Option.map_eq_some_iff.mp h
        obtain ⟨server, hserver, rfl⟩ := Option.map_eq_some_iff.mp ht
        exact .looked hjoin hserver
      next => exact nomatch h
    next => exact nomatch h
  next w url content headers =>
    split at h
    next => exact nomatch h
    next =>
      obtain ⟨server, hserver, rfl⟩ := Option.map_eq_some_iff.mp h
      exact .served hserver nofun
  next =>
    obtain ⟨t, ht, rfl⟩ := Option.map_eq_some_iff.mp h
    obtain ⟨server, hserver, rfl⟩ := Option.map_eq_some_iff.mp ht
    exact .served hserver nofun
  next hlookup _ _ =>
    obtain ⟨server, hserver, rfl⟩ := Option.map_eq_some_iff.mp h
    exact .served hserver fun r u now later heq => hlookup r u now later heq

/-- A request that tries again is none that has joined. -/
theorem retried_ne {p : Prop} [Decidable p] {e : ProxyError} {join : Join β}
    (hfailed : ∀ e, join ≠ .failed e) (hlooking : join ≠ .looking) :
    (if p then .failed e else .looking) ≠ join := by
  split
  · exact (hfailed e).symm
  · exact hlooking.symm

/-- **What the system does**: `step` does nothing but this. -/
theorem does_of_step (h : BlitzSimultaneous.step K s a = some s') : Does K s a s' := by
  cases a with
  | server b => exact does_of_serverStep h
  | leader b =>
      simp only [BlitzSimultaneous.step, leaderStep] at h
      split at h
      next hmay =>
        obtain ⟨leader, hleader, rfl⟩ := Option.map_eq_some_iff.mp h
        -- of the coalescer the leader's model may touch other URLs only
        refine .led hleader ?_
        rintro op rfl
        simpa [mayStep] using hmay
      next => exact nomatch h
  | register r =>
      simp only [BlitzSimultaneous.step] at h
      split at h
      next hjoin hmissed => cases h; exact .registered hjoin hmissed
      next => exact nomatch h
  | receive r =>
      simp only [BlitzSimultaneous.step] at h
      split at h
      next hjoin =>
        split at h
        · cases h
          exact .moved (by simp [hjoin]) nofun nofun nofun
        · exact nomatch h
      next => exact nomatch h
  | closed r =>
      simp only [BlitzSimultaneous.step] at h
      split at h
      next hjoin =>
        split at h
        · cases h
          exact .moved (by simp [hjoin]) (retried_ne nofun nofun)
            (fun _ => retried_ne nofun nofun) nofun
        · exact nomatch h
      next => exact nomatch h
  | timedOut r =>
      simp only [BlitzSimultaneous.step] at h
      split at h
      next hjoin => cases h; exact .moved (by simp [hjoin]) nofun nofun nofun
      next => exact nomatch h
  | rejected r =>
      simp only [BlitzSimultaneous.step] at h
      split at h
      next hjoin => cases h; exact .moved (by simp [hjoin]) nofun nofun nofun
      next => exact nomatch h

/-! ## The invariant -/

/-- What is noted is no matter of the requests. -/
theorem requests_noteSource {server : Server γ} {b : BlitzCache.Act γ} :
    (noteSource K.toServerConfig server b).requests = server.requests := by
  simp only [noteSource]
  split
  · split <;> rfl
  · rfl

/-- No step but a lookup puts a request on the way to `register`. -/
theorem onTheWay_step {server server' : Server γ} {b : BlitzServing.Act γ} {r : Nat}
    (h : BlitzServing.step K.toServerConfig server b = some server')
    (hnot : ∀ u now later, b ≠ .lookupEntry r u now later)
    (hway : onTheWay (server'.requests r) = true) : onTheWay (server.requests r) = true := by
  -- what a step of request `v` leaves at `r`
  have hgoto : ∀ {t : Server γ} {v : Nat} {pc : RequestPc γ}, t.requests = server.requests →
      (r = v → onTheWay pc = true → onTheWay (server.requests r) = true) →
      onTheWay ((t.goto v pc).requests r) = true → onTheWay (server.requests r) = true := by
    intro t v pc ht hself hpc
    have hpc : onTheWay (Function.update t.requests v pc r) = true := hpc
    by_cases hr : r = v
    · subst hr
      rw [Function.update_self] at hpc
      exact hself rfl hpc
    · rwa [Function.update_of_ne hr, ht] at hpc
  cases b with
  | cache b =>
      have hmap : (BlitzCache.step K.toConfig server.cache b).map
          (fun cache => { noteSource K.toServerConfig server b with cache }) = some server' := by
        cases b with
        | refresh => exact nomatch h
        | _ => exact h
      obtain ⟨cache, -, rfl⟩ := Option.map_eq_some_iff.mp hmap
      have hsame : (noteSource K.toServerConfig server b).requests r = server.requests r :=
        congrFun requests_noteSource r
      rwa [← hsame]
  | publish u generation =>
      cases h
      exact hway
  | lookupEntry v u now later =>
      have hv : r ≠ v := fun hv => hnot u now later (hv ▸ rfl)
      simp only [BlitzServing.step] at h
      split at h
      · cases h
        exact hgoto rfl (fun heq => absurd heq hv) hway
      · cases h
        exact hgoto rfl (fun heq => absurd heq hv) hway
      · exact nomatch h
  | head v answer =>
      simp only [BlitzServing.step] at h
      split at h
      next found hpc =>
        cases h
        refine hgoto rfl ?_ hway
        rintro rfl -
        rw [hpc]
        rfl
      next => exact nomatch h
  | refresh v now =>
      simp only [BlitzServing.step] at h
      split at h
      · cases h
        refine hgoto rfl ?_ hway
        exact fun _ hpc => nomatch hpc
      · exact nomatch h
  | openFile v =>
      simp only [BlitzServing.step] at h
      split at h
      next =>
        split at h
        · cases h
          refine hgoto rfl ?_ hway
          exact fun _ hpc => nomatch hpc
        · cases h
          refine hgoto rfl ?_ hway
          exact fun _ hpc => nomatch hpc
      next => exact nomatch h

/-- The leader's file is in the cache, and fresh, when a request looks. -/
def StaysFresh (K : ResolveConfig γ) (s : System γ β ε) : BlitzSimultaneous.Act γ β ε → Prop
  | .server (.lookupEntry _ url now later) => s.inserted = true →
      ∃ path headers cachedAt,
        (s.server.cache.disk.lookupEntry K.urlHash url now).2 = some (path, headers, cachedAt) ∧
          isFresh K.parseHttpDate later cachedAt headers K.maxCacheAge = true
  | _ => True

/-- The leader's download succeeds, and its file stays. -/
def Smooth (K : ResolveConfig γ) (s : System γ β ε) (a : BlitzSimultaneous.Act γ β ε) : Prop :=
  (∀ b, a = .leader b → Succeeds s.leader b) ∧ StaysFresh K s a

/-- A fresh file is a hit. -/
theorem not_onTheWay_of_fresh {server' : Server γ} {r now later : Nat} {url : Text}
    (hs : BlitzServing.step K.toServerConfig s.server (.lookupEntry r url now later) = some server')
    (hfresh : ∃ path headers cachedAt,
      (s.server.cache.disk.lookupEntry K.urlHash url now).2 = some (path, headers, cachedAt) ∧
        isFresh K.parseHttpDate later cachedAt headers K.maxCacheAge = true) :
    onTheWay (server'.requests r) = false := by
  obtain ⟨path, headers, cachedAt, hhit, hfresh⟩ := hfresh
  have hcached : ∀ source, onTheWay (afterLookup K.toServerConfig url source later
      (s.server.cache.disk.lookupEntry K.urlHash url now).2) = false := by
    intro source
    rw [hhit]
    show onTheWay (if isFresh K.parseHttpDate later cachedAt headers K.maxCacheAge then _ else _) = _
    rw [if_pos hfresh]
    rfl
  have hgoto : ∀ {t : Server γ} {pc : RequestPc γ}, (t.goto r pc).requests r = pc :=
    Function.update_self ..
  simp only [BlitzServing.step] at hs
  split at hs
  · cases hs
    rw [hgoto]
    exact hcached _
  · cases hs
    rw [hgoto]
    exact hcached _
  · exact nomatch hs

/-- A phase is a matter of the handler and the task. -/
theorem phase_congr (h : Phase l) (hpc : l'.handler = l.handler) (ht : l'.task = l.task) :
    Phase l' := by
  cases h with
  | early hpc' ht' => exact .early (hpc ▸ hpc') (ht.trans ht')
  | working hpc' ht' => exact .working (hpc.trans hpc') (ht ▸ ht')
  | done hpc' ht' => exact .done (hpc.trans hpc') (ht.trans ht')

/-- The entry of the URL, as long as nobody else leads. -/
structure SimInv (s : System γ β ε) : Prop where
  phase : Phase s.leader
  early : Pc.early s.leader.handler = true →
    ∃ senders, s.coalescer.inflight.lookup s.leader.url = some (.pending senders)
  working : Task.working s.leader.task = true →
    ∃ e, s.coalescer.inflight.lookup s.leader.url = some e
  done : s.leader.task = .cleanup [] →
    s.coalescer.inflight.lookup s.leader.url = none ∨ ∃ r, s.joins r = .leader
  looked : ∀ r early, s.joins r = .looked early → onTheWay (s.server.requests r) = true →
    early = true

/-- A request goes on that does not lead. -/
theorem leads_goto {joins : Nat → Join β} {r : Nat} {join : Join β} (hold : joins r ≠ .leader)
    (h : ∃ v, joins v = .leader) : ∃ v, Function.update joins r join v = .leader := by
  obtain ⟨v, hv⟩ := h
  refine ⟨v, ?_⟩
  rw [Function.update_of_ne]
  · exact hv
  · rintro rfl
    exact hold hv

/-- A step of the leader. -/
theorem SimInv.led {leader : Leader β ε} {sent dropped : List Nat} {b : BlitzLeader.Act β ε}
    (h : SimInv s) (hsucceeds : Succeeds s.leader b) (hs : BlitzLeader.step s.leader b = some leader)
    (hother : ∀ op, b = .other op → op.url ≠ s.leader.url) :
    SimInv { s with leader, sent, dropped } := by
  cases advances_of_step h.phase hsucceeds hs with
  | on hpc ht hpc' =>
      refine ⟨.early hpc' ht, fun _ => h.early hpc, fun hw => ?_, fun hd => ?_, h.looked⟩
      · cases (congrArg Task.working ht).symm.trans hw
      · cases ht.symm.trans hd
  | attached hpc ht =>
      refine ⟨.working rfl rfl, (by rintro ⟨⟩), fun _ => ?_, (by rintro ⟨⟩), h.looked⟩
      obtain ⟨senders, hsenders⟩ := h.early hpc
      refine ⟨.downloading s.leader.buffer, ?_⟩
      show ((s.coalescer.attachBuffer s.leader.url s.leader.buffer).1.inflight.lookup s.leader.url) = _
      rw [Coalescer.attachBuffer, hsenders]
      exact Finmap.lookup_insert _
  | worked hpc ht ht' =>
      refine ⟨.working hpc ht', fun he => ?_, fun _ => h.working ht, fun hd => ?_, h.looked⟩
      · cases (congrArg Pc.early hpc).symm.trans he
      · cases (congrArg Task.working hd).symm.trans ht'
  | completed hpc ht =>
      refine ⟨.done hpc rfl, fun he => ?_, (by rintro ⟨⟩),
        fun _ => Or.inl (Finmap.lookup_erase ..), h.looked⟩
      cases (congrArg Pc.early hpc).symm.trans he
  | @other op =>
      have hsame : (s.coalescer.after op).inflight.lookup s.leader.url
          = s.coalescer.inflight.lookup s.leader.url :=
        Coalescer.lookup_after_of_ne (Ne.symm (hother op rfl))
      refine ⟨phase_congr h.phase rfl rfl, fun he => ?_, fun hw => ?_, fun hd => ?_, h.looked⟩
      · obtain ⟨senders, hsenders⟩ := h.early he
        exact ⟨senders, hsame.trans hsenders⟩
      · obtain ⟨e, he⟩ := h.working hw
        exact ⟨e, hsame.trans he⟩
      · exact (h.done hd).imp_left hsame.trans

/-- A request that registers. -/
theorem SimInv.registered {r : Nat} {early : Bool} (h : SimInv s) (hjoin : s.joins r = .looked early) :
    SimInv (registerStep s r) := by
  have hold : s.joins r ≠ .leader := by rw [hjoin]; exact nofun
  refine ⟨phase_congr h.phase rfl rfl, fun he => ?_, fun hw => ?_, fun hd => ?_, ?_⟩
  · obtain ⟨senders, hsenders⟩ := h.early he
    exact Coalescer.register_pending hsenders
  · obtain ⟨e, he⟩ := h.working hw
    exact Coalescer.lookup_after_register _ he
  · refine Or.inr ?_
    rcases h.done hd with hnone | hleads
    · refine ⟨r, (Function.update_self ..).trans ?_⟩
      rw [Coalescer.register_of_none hnone]
      rfl
    · exact leads_goto hold hleads
  · intro v early' hv hway
    have hv : Function.update s.joins r _ v = .looked early' := hv
    by_cases hvr : v = r
    · subst hvr
      rw [Function.update_self] at hv
      simp only [afterRegister] at hv
      split at hv <;> exact nomatch hv
    · rw [Function.update_of_ne hvr] at hv
      exact h.looked v early' hv hway

/-- A request that goes on otherwise. -/
theorem SimInv.goto {server : Server γ} {r : Nat} {join : Join β} (h : SimInv s)
    (hold : s.joins r ≠ .leader)
    (hserver : ∀ v, v ≠ r → onTheWay (server.requests v) = true → onTheWay (s.server.requests v) = true)
    (hlooked : ∀ early, join = .looked early → onTheWay (server.requests r) = true → early = true) :
    SimInv ({ s with server }.goto r join) := by
  refine ⟨h.phase, h.early, h.working, fun hd => (h.done hd).imp_right (leads_goto hold), ?_⟩
  intro v early hv hway
  have hv : Function.update s.joins r join v = .looked early := hv
  by_cases hvr : v = r
  · subst hvr
    rw [Function.update_self] at hv
    exact hlooked early hv hway
  · rw [Function.update_of_ne hvr] at hv
    exact h.looked v early hv (hserver v hvr hway)

/-- **Step** of the system. -/
theorem simInv_step (h : SimInv s) (hsmooth : Smooth K s a)
    (hs : BlitzSimultaneous.step K s a = some s') : SimInv s' := by
  obtain ⟨hsucceeds, hfresh⟩ := hsmooth
  cases does_of_step hs with
  | served hserver hnot =>
      refine ⟨h.phase, h.early, h.working, h.done, ?_⟩
      intro r early hr hway
      exact h.looked r early hr (onTheWay_step hserver (hnot r) hway)
  | @looked r now later server hjoin hserver =>
      refine h.goto (by rw [hjoin]; exact nofun) ?_ ?_
      · intro v hv
        exact onTheWay_step hserver fun u now later heq => by cases heq; exact hv rfl
      · rintro early ⟨⟩ hway
        cases hinserted : s.inserted with
        | false => rfl
        | true =>
            have hnot := not_onTheWay_of_fresh hserver (hfresh hinserted)
            exact nomatch hnot.symm.trans hway
  | led hleader hother => exact h.led (hsucceeds _ rfl) hleader hother
  | registered hjoin => exact h.registered hjoin
  | moved hold hnew hlooked =>
      have hgoto : SimInv ({ s with server := s.server }.goto _ _) :=
        h.goto hold (fun _ _ => id) fun early heq => absurd heq (hlooked early)
      exact ⟨hgoto.phase, hgoto.early, hgoto.working, hgoto.done, hgoto.looked⟩

/-! ## The condition -/

/-- No other request has become the leader. -/
def NoOther (s : System γ β ε) : Prop := ∀ r, s.joins r ≠ .leader

/-- A request registers while there is room in the map, and not after the
    leader's `complete` if it has looked before the leader's insert. -/
def RegistersInTime (s : System γ β ε) : BlitzSimultaneous.Act γ β ε → Prop
  | .register r => s.coalescer.inflight.keys.card < maxInflight ∧
      ¬ (s.joins r = .looked true ∧ s.leader.task = .cleanup [])
  | _ => True

theorem noOther_goto {r : Nat} {join : Join β} (h : NoOther s) (hjoin : join ≠ .leader) :
    ∀ v, Function.update s.joins r join v ≠ .leader :=
  (Function.forall_update_iff s.joins fun _ j => j ≠ .leader).mpr ⟨hjoin, fun v _ => h v⟩

/-- Only `Leader` makes a leader. -/
theorem afterRegister_leader {result : RegisterResult β} :
    afterRegister result = .leader ↔ result = .leader := by
  cases result with
  | leader => exact iff_of_true rfl rfl
  | follower rx => exact iff_of_false nofun nofun
  | followerBuffer buffer => exact iff_of_false nofun nofun

/-- A `register` makes a second leader exactly when it comes too late. -/
theorem noOther_registered {r : Nat} {early : Bool} (h : SimInv s) (hno : NoOther s)
    (hjoin : s.joins r = .looked early) (hmissed : s.server.requests r = .missed) :
    RegistersInTime (β := β) s (.register r) ↔ NoOther (registerStep s r) := by
  obtain rfl : early = true := h.looked r early hjoin (by rw [hmissed]; rfl)
  have hnext : NoOther (registerStep s r) ↔
      (s.coalescer.register s.leader.url s.channels).2 ≠ .leader := by
    constructor
    · intro hno' hleader
      exact hno' r ((Function.update_self ..).trans (afterRegister_leader.mpr hleader))
    · exact fun hnot => noOther_goto hno (mt afterRegister_leader.mp hnot)
  rw [hnext]
  have hentry : ∀ e, s.coalescer.inflight.lookup s.leader.url = some e →
      s.leader.task ≠ .cleanup [] → (RegistersInTime (β := β) s (.register r) ↔
        (s.coalescer.register s.leader.url s.channels).2 ≠ .leader) := by
    intro e he hnot
    rw [ne_eq, Coalescer.register_leader_iff he, not_le]
    exact ⟨And.left, fun hroom => ⟨hroom, fun hlate => hnot hlate.2⟩⟩
  cases h.phase with
  | early hpc ht =>
      obtain ⟨senders, hsenders⟩ := h.early hpc
      exact hentry _ hsenders (by rw [ht]; exact nofun)
  | working hpc ht =>
      obtain ⟨e, he⟩ := h.working ht
      exact hentry e he (fun hd => nomatch (congrArg Task.working hd).symm.trans ht)
  | done hpc ht =>
      have hnone : s.coalescer.inflight.lookup s.leader.url = none :=
        (h.done ht).resolve_right fun ⟨v, hv⟩ => hno v hv
      exact iff_of_false (fun hintime => hintime.2 ⟨hjoin, ht⟩)
        (fun hnot => hnot (Coalescer.register_of_none hnone))

/-- **Step**: nobody else becomes a leader if and only if everybody registers
    in time. -/
theorem noOther_step (h : SimInv s) (hno : NoOther s) (hs : BlitzSimultaneous.step K s a = some s') :
    RegistersInTime s a ↔ NoOther s' := by
  cases does_of_step hs with
  | served => exact iff_of_true trivial hno
  | looked => exact iff_of_true trivial (noOther_goto hno nofun)
  | led => exact iff_of_true trivial hno
  | registered hjoin hmissed => exact noOther_registered h hno hjoin hmissed
  | @moved b r join retries hold hnew hlooked hb =>
      refine iff_of_true ?_ (noOther_goto hno hnew)
      cases a with
      | register r => exact absurd rfl (hb r)
      | _ => trivial

/-! ## Runs -/

section

variable {server : Server γ} {coalescer : Coalescer β} {url : Text} {buffer : β}
  {etagChangedFor : ε → Bool} {first : Pc} {joins : Nat → Join β}

/-- At the start there is one leader, and the others look for its entry. -/
theorem simInv_led (hnone : coalescer.inflight.lookup url = none)
    (hroom : coalescer.inflight.keys.card < maxInflight) (hfirst : Pc.early first = true)
    (hjoins : ∀ r, joins r = .looking ∨ joins r = .looked true) :
    SimInv (led server coalescer url buffer etagChangedFor first joins) := by
  refine ⟨.early hfirst rfl, fun _ => ?_, nofun, nofun, ?_⟩
  · refine ⟨[], ?_⟩
    show (coalescer.register url 0).1.inflight.lookup url = _
    rw [Coalescer.register_new hnone hroom]
    exact Finmap.lookup_insert _
  · intro r early hr _
    have hr : joins r = .looked early := hr
    rcases hjoins r with hlooking | hlooked
    · rw [hlooking] at hr
      exact nomatch hr
    · rw [hlooked] at hr
      cases hr
      rfl

/-- **One download**: when a request has become the leader of a URL that was
    not in flight, its download succeeds, and its file stays in the cache and
    fresh, then no other request becomes a leader exactly in the runs in
    which each registers in time. -/
theorem one_download_iff {acts : List (BlitzSimultaneous.Act γ β ε)} {t : System γ β ε}
    (hnone : coalescer.inflight.lookup url = none)
    (hroom : coalescer.inflight.keys.card < maxInflight)
    (hfirst : first = .head ∨ first = .parseUrl)
    (hjoins : ∀ r, joins r = .looking ∨ joins r = .looked true)
    (hsmooth : Along (BlitzSimultaneous.step K) (Smooth K)
      (led server coalescer url buffer etagChangedFor first joins) acts)
    (hrun : run (BlitzSimultaneous.step K)
      (led server coalescer url buffer etagChangedFor first joins) acts = some t) :
    Along (BlitzSimultaneous.step K) RegistersInTime
        (led server coalescer url buffer etagChangedFor first joins) acts ↔
      Always (BlitzSimultaneous.step K) NoOther
        (led server coalescer url buffer etagChangedFor first joins) acts := by
  have hearly : Pc.early first = true := by
    rcases hfirst with rfl | rfl <;> rfl
  have hno : NoOther (led server coalescer url buffer etagChangedFor first joins) := by
    intro r hr
    have hr : joins r = .leader := hr
    rcases hjoins r with hjoin | hjoin <;> rw [hjoin] at hr <;> exact nomatch hr
  exact along_iff_always (fun _ _ _ => simInv_step) (fun _ _ _ h _ hno hs => noOther_step h hno hs)
    (simInv_led hnone hroom hearly hjoins) hno hsmooth hrun

end

section Examples

open BlitzCacheRuns (exampleUrl example100)

/-- A server with the limits of the defaults. -/
def exampleConfig : ResolveConfig (List UInt8) where
  toConfig := example100
  parseHttpDate := fun _ => none
  maxCacheAge := 86400
  maxRetries := 3
  etagMaxRetries := 8

/-- The head of a file of one byte that can be had in ranges. -/
def oneByte : Response :=
  ⟨200, [("content-length".toList, "1".toList), ("accept-ranges".toList, "bytes".toList)]⟩

/-- The leader has looked, and another request begins. -/
def started : System (List UInt8) Nat Nat :=
  led ⟨BlitzCache.opened .empty, fun _ => [], fun _ => .start, fun _ => []⟩ Coalescer.new exampleUrl 7
    (fun _ => false) .head fun _ => .looking

/-- Request 1 looks the URL up, and the leader gets as far as its task. -/
def lookedUp : List (BlitzSimultaneous.Act (List UInt8) Nat Nat) :=
  [.server (.lookupEntry 1 exampleUrl 1 1), .leader (.handler (.sent (.ok oneByte))),
    .leader (.handler (.file (.ok ()))), .leader (.handler (.file (.ok ()))),
    .leader (.handler .go)]

/-- The leader downloads, stores and completes. -/
def finished : List (BlitzSimultaneous.Act (List UInt8) Nat Nat) :=
  [.leader (.task (.downloaded (some (.ok ())))), .leader (.task (.went true)),
    .server (.cache (.rename 0 exampleUrl [7] (copyForwardHeaders oneByte.headers))),
    .server (.cache (.measure 0)), .server (.cache (.insert 0 2 [])),
    .leader (.task (.went true)), .leader (.task .go)]

/-- A leader's step is smooth if its call succeeds. -/
theorem smooth_leader {b : BlitzLeader.Act β ε} (h : Succeeds s.leader b) :
    Smooth K s (.leader b) := by
  refine ⟨?_, trivial⟩
  rintro _ ⟨⟩
  exact h

/-- The first lookups are smooth. -/
theorem smooth_lookedUp {acts : List (BlitzSimultaneous.Act (List UInt8) Nat Nat)}
    (h : ∀ t, run (BlitzSimultaneous.step exampleConfig) started lookedUp = some t →
      Along (BlitzSimultaneous.step exampleConfig) (Smooth exampleConfig) t acts) :
    Along (BlitzSimultaneous.step exampleConfig) (Smooth exampleConfig) started
      (lookedUp ++ acts) := by
  refine ⟨⟨nofun, fun hinserted => nomatch hinserted⟩, ?_⟩
  rintro s ⟨⟩
  refine ⟨smooth_leader ⟨oneByte, 1, copyForwardHeaders oneByte.headers, rfl, by decide⟩, ?_⟩
  rintro s ⟨⟩
  refine ⟨smooth_leader nofun, ?_⟩
  rintro s ⟨⟩
  refine ⟨smooth_leader nofun, ?_⟩
  rintro s ⟨⟩
  refine ⟨smooth_leader nofun, ?_⟩
  rintro s ⟨⟩
  exact h _ rfl

/-- Request 1 registers as the leader begins its download, and follows. -/
theorem one_download_inTime :
    (run (BlitzSimultaneous.step exampleConfig) started (lookedUp ++ [.register 1])).any
        (fun s => match s.joins 1 with
          | .followerBuffer buffer => buffer == 7
          | _ => false) = true ∧
      Along (BlitzSimultaneous.step exampleConfig) (Smooth exampleConfig) started
        (lookedUp ++ [.register 1]) ∧
      (Along (BlitzSimultaneous.step exampleConfig) RegistersInTime started
          (lookedUp ++ [.register 1]) ↔
        Always (BlitzSimultaneous.step exampleConfig) NoOther started
          (lookedUp ++ [.register 1])) := by
  have hsmooth : Along (BlitzSimultaneous.step exampleConfig) (Smooth exampleConfig) started
      (lookedUp ++ [.register 1]) :=
    smooth_lookedUp fun t _ => ⟨⟨nofun, trivial⟩, fun _ _ => trivial⟩
  obtain ⟨t, hrun⟩ : ∃ t, run (BlitzSimultaneous.step exampleConfig) started
      (lookedUp ++ [.register 1]) = some t := ⟨_, rfl⟩
  refine ⟨by decide, hsmooth, ?_⟩
  exact one_download_iff rfl (by decide) (Or.inl rfl) (fun _ => Or.inl rfl) hsmooth hrun

/-- Request 1 registers when the leader has finished. -/
theorem one_download_late :
    Along (BlitzSimultaneous.step exampleConfig) (Smooth exampleConfig) started
        (lookedUp ++ (finished ++ [.register 1])) ∧
      ∃ t, run (BlitzSimultaneous.step exampleConfig) started
          (lookedUp ++ (finished ++ [.register 1])) = some t ∧ t.joins 1 = .leader := by
  refine ⟨smooth_lookedUp ?_, _, rfl, rfl⟩
  rintro s ⟨⟩
  refine ⟨smooth_leader ⟨(), rfl⟩, ?_⟩
  rintro s ⟨⟩
  refine ⟨smooth_leader rfl, ?_⟩
  rintro s ⟨⟩
  refine ⟨⟨nofun, trivial⟩, ?_⟩
  rintro s ⟨⟩
  refine ⟨⟨nofun, trivial⟩, ?_⟩
  rintro s ⟨⟩
  refine ⟨⟨nofun, trivial⟩, ?_⟩
  rintro s ⟨⟩
  refine ⟨smooth_leader rfl, ?_⟩
  rintro s ⟨⟩
  refine ⟨smooth_leader trivial, ?_⟩
  rintro s ⟨⟩
  exact ⟨⟨nofun, trivial⟩, fun _ _ => trivial⟩

end Examples

end BlitzSimultaneousRuns
