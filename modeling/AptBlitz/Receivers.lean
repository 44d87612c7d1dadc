import AptBlitz.Coalescer
import AptBlitz.Library.Runs

/-! # What becomes of the followers

    A follower gets the receiver of a `oneshot` channel, and the sender stays
    in the map.  `Receivers` is the coalescer with a record of the followers
    there have been, by the number of their channel, and of what each has
    been told.

    One equation carries everything (`Kept`): how often the sender of a
    channel is in the entry of a URL. -/

namespace BlitzReceivers

open RustText BlitzCoalescer Runs

variable {β : Type}

/-- What a receiver can be told. -/
inductive Outcome (β : Type) where
  | buffer (b : β)
  /-- the sender was dropped -/
  | dropped
  deriving DecidableEq

/-- A call of any request. -/
inductive Call (β : Type) where
  | register (url : Text)
  | attachBuffer (url : Text) (buffer : β)
  | complete (url : Text)
  | fail (url : Text) (etagChanged : Bool)

/-- The coalescer, the URLs of the followers by their channels, and what each
    channel has been told. -/
structure Receivers (β : Type) where
  coalescer : Coalescer β
  followers : List Text
  told : Nat → List (Outcome β)

/-- Each sender among `channels` is used up. -/
def tell (told : Nat → List (Outcome β)) (channels : List Nat) (outcome : Outcome β) :
    Nat → List (Outcome β) :=
  fun channel => told channel ++ List.replicate (channels.count channel) outcome

/-- A call, and what it does to the senders; the channel of a new follower is
    the next one. -/
def perform (s : Receivers β) : Call β → Receivers β
  | .register url =>
      match s.coalescer.register url s.followers.length with
      | (coalescer, .follower _) => { s with coalescer, followers := s.followers ++ [url] }
      | (coalescer, _) => { s with coalescer }
  | .attachBuffer url buffer =>
      let (coalescer, senders) := s.coalescer.attachBuffer url buffer
      { s with coalescer, told := tell s.told senders (.buffer buffer) }
  | .complete url =>
      let (coalescer, senders) := s.coalescer.complete url
      { s with coalescer, told := tell s.told senders .dropped }
  | .fail url etagChanged =>
      let (coalescer, senders) := s.coalescer.fail url etagChanged
      { s with coalescer, told := tell s.told senders .dropped }

/-- Every call is possible in every state. -/
def step (s : Receivers β) (call : Call β) : Option (Receivers β) := some (perform s call)

/-- No request has joined. -/
def new : Receivers β := ⟨.new, [], fun _ => []⟩

/-! ## The law -/

/-- The follower of the channel is of the URL and has been told nothing. -/
def Waits (s : Receivers β) (url : Text) (channel : Nat) : Prop :=
  s.followers[channel]? = some url ∧ s.told channel = []

/-- Where the senders are, and how often receivers have been told. -/
structure Accounted (s : Receivers β) : Prop where
  held : ∀ url channel, Waits s url channel →
    ∃ senders, s.coalescer.inflight.lookup url = some (.pending senders) ∧
      senders.count channel = 1
  elsewhere : ∀ url senders channel, s.coalescer.inflight.lookup url = some (.pending senders) →
    channel ∈ senders → Waits s url channel
  once : ∀ channel, (s.told channel).length ≤ 1
  gone : ∀ url channel, s.followers[channel]? = some url →
    (∀ senders, s.coalescer.inflight.lookup url ≠ some (.pending senders)) → s.told channel ≠ []

/-- The call tells the waiting followers of the URL, and no other. -/
def Resolves (s s' : Receivers β) (url : Text) (outcome : Outcome β) : Prop :=
  (∀ channel, Waits s url channel → s'.told channel = [outcome]) ∧
    ∀ channel, ¬ Waits s url channel → s'.told channel = s.told channel

/-- What a call does to the followers there are. -/
def Tells (s : Receivers β) (call : Call β) : Prop :=
  ∀ s', step s call = some s' →
    match call with
    | .register _ => s'.told = s.told
    | .attachBuffer url buffer =>
        ((∃ senders, s.coalescer.inflight.lookup url = some (.pending senders)) →
          Resolves s s' url (.buffer buffer)) ∧
        ((∀ senders, s.coalescer.inflight.lookup url ≠ some (.pending senders)) →
          s'.told = s.told)
    | .complete url => Resolves s s' url .dropped
    | .fail url _ => Resolves s s' url .dropped

/-- The senders of a channel are counted; a channel without a follower has
    been told nothing. -/
structure Kept (s : Receivers β) : Prop where
  count : ∀ url channel, (Waits s url channel → (s.coalescer.sendersOf url).count channel = 1) ∧
    (¬ Waits s url channel → (s.coalescer.sendersOf url).count channel = 0)
  once : ∀ channel, (s.told channel).length ≤ 1
  fresh : ∀ channel, s.followers.length ≤ channel → s.told channel = []

variable {c c' : Coalescer β} {s s' : Receivers β} {url u : Text} {channel : Nat}
  {outcome : Outcome β} {call : Call β} {senders : List Nat}

theorem sendersOf_of_lookup (h : c.inflight.lookup url = some (.pending senders)) :
    c.sendersOf url = senders := by
  rw [Coalescer.sendersOf, h]

/-- Senders are in a pending entry. -/
theorem lookup_of_mem (h : channel ∈ c.sendersOf url) :
    c.inflight.lookup url = some (.pending (c.sendersOf url)) := by
  cases hc : c.inflight.lookup url with
  | none =>
      rw [Coalescer.sendersOf, hc] at h
      cases h
  | some e =>
      cases e with
      | pending senders => rw [sendersOf_of_lookup hc]
      | downloading buffer =>
          rw [Coalescer.sendersOf, hc] at h
          cases h

theorem sendersOf_eq_nil (h : ∀ senders, c.inflight.lookup url ≠ some (.pending senders)) :
    c.sendersOf url = [] := by
  refine List.eq_nil_iff_forall_not_mem.mpr fun channel hmem => ?_
  exact h _ (lookup_of_mem hmem)

/-- Nobody waits without a sender. -/
theorem accounted_of_kept (h : Kept s) : Accounted s := by
  have hheld : ∀ url channel, Waits s url channel →
      s.coalescer.inflight.lookup url = some (.pending (s.coalescer.sendersOf url)) := by
    intro url channel hwaits
    have hmem : channel ∈ s.coalescer.sendersOf url := by
      rw [← List.count_pos_iff, (h.count url channel).1 hwaits]
      exact Nat.one_pos
    exact lookup_of_mem hmem
  refine ⟨?_, ?_, h.once, ?_⟩
  · intro url channel hwaits
    exact ⟨_, hheld url channel hwaits, (h.count url channel).1 hwaits⟩
  · intro url senders channel hlookup hmem
    by_contra hnot
    have hzero := (h.count url channel).2 hnot
    rw [sendersOf_of_lookup hlookup] at hzero
    exact List.count_eq_zero.mp hzero hmem
  · intro url channel hfollower hgone htold
    exact hgone _ (hheld url channel ⟨hfollower, htold⟩)

/-! ## Using the senders of a URL up -/

/-- The state with the senders of the URL used up. -/
def release (s : Receivers β) (c' : Coalescer β) (url : Text) (outcome : Outcome β) : Receivers β :=
  { s with coalescer := c', told := tell s.told (s.coalescer.sendersOf url) outcome }

/-- An entry that goes tells all who wait for it. -/
theorem resolves_release (h : Kept s) (c' : Coalescer β) (url : Text) (outcome : Outcome β) :
    Resolves s (release s c' url outcome) url outcome := by
  constructor
  · intro channel hwaits
    show s.told channel ++ List.replicate _ outcome = _
    rw [hwaits.2, (h.count url channel).1 hwaits]
    rfl
  · intro channel hnot
    show s.told channel ++ List.replicate _ outcome = _
    rw [(h.count url channel).2 hnot]
    exact List.append_nil _

/-- Who waits after a release waited before, for another URL. -/
theorem waits_release (h : Kept s) :
    Waits (release s c' url outcome) u channel ↔ Waits s u channel ∧ u ≠ url := by
  obtain ⟨htold, hkept⟩ := resolves_release h c' url outcome
  constructor
  · rintro ⟨hfollower, hnil⟩
    by_cases hwaits : Waits s url channel
    · rw [htold channel hwaits] at hnil
      cases hnil
    · rw [hkept channel hwaits] at hnil
      refine ⟨⟨hfollower, hnil⟩, ?_⟩
      rintro rfl
      exact hwaits ⟨hfollower, hnil⟩
  · rintro ⟨⟨hfollower, hnil⟩, hne⟩
    refine ⟨hfollower, ?_⟩
    rw [hkept channel ?_]
    · exact hnil
    · intro hwaits
      exact hne (Option.some.inj (hfollower.symm.trans hwaits.1))

/-- Where an entry goes, the others keep theirs. -/
theorem kept_release (h : Kept s) (hself : c'.sendersOf url = [])
    (hother : ∀ u, u ≠ url → c'.sendersOf u = s.coalescer.sendersOf u) :
    Kept (release s c' url outcome) := by
  obtain ⟨htold, hkept⟩ := resolves_release h c' url outcome
  refine ⟨fun u channel => ?_, fun channel => ?_, fun channel hfresh => ?_⟩
  · show (_ → (c'.sendersOf u).count channel = 1) ∧ (_ → (c'.sendersOf u).count channel = 0)
    rw [waits_release h]
    by_cases hu : u = url
    · subst hu
      rw [hself]
      exact ⟨fun hwaits => absurd rfl hwaits.2, fun _ => rfl⟩
    · rw [hother u hu]
      exact ⟨fun hwaits => (h.count u channel).1 hwaits.1,
        fun hnot => (h.count u channel).2 fun hwaits => hnot ⟨hwaits, hu⟩⟩
  · by_cases hwaits : Waits s url channel
    · rw [htold channel hwaits]
      exact le_refl _
    · rw [hkept channel hwaits]
      exact h.once channel
  · have hnot : ¬ Waits s url channel := by
      intro hwaits
      have hlt := (List.getElem?_eq_some_iff.mp hwaits.1).1
      exact absurd hlt (not_lt.mpr hfresh)
    rw [hkept channel hnot]
    exact h.fresh channel hfresh

theorem sendersOf_of_ne (op : Op β) (h : u ≠ op.url) :
    (c.after op).sendersOf u = c.sendersOf u := by
  rw [Coalescer.sendersOf, Coalescer.lookup_after_of_ne h]
  rfl

/-- A buffer takes the senders along. -/
theorem sendersOf_attach (c : Coalescer β) (url : Text) (buffer : β) :
    (c.attachBuffer url buffer).1.sendersOf url = [] ∧
      (c.attachBuffer url buffer).2 = c.sendersOf url := by
  rw [Coalescer.attachBuffer, Coalescer.sendersOf, Coalescer.sendersOf]
  cases hc : c.inflight.lookup url with
  | none =>
      dsimp only
      rw [Finmap.lookup_erase]
      exact ⟨rfl, rfl⟩
  | some e =>
      cases e with
      | pending senders =>
          dsimp only
          rw [Finmap.lookup_insert]
          exact ⟨rfl, rfl⟩
      | downloading b =>
          dsimp only
          rw [Finmap.lookup_erase]
          exact ⟨rfl, rfl⟩

theorem sendersOf_erase (c : Coalescer β) (url : Text) (etags : Finmap fun _ : Text => Bool) :
    (⟨c.inflight.erase url, etags⟩ : Coalescer β).sendersOf url = [] := by
  rw [Coalescer.sendersOf]
  dsimp only
  rw [Finmap.lookup_erase]

/-! ## A new follower -/

/-- The entry of the URL with one more sender. -/
def withSender (c : Coalescer β) (url : Text) (channel : Nat) : Coalescer β :=
  ⟨c.inflight.insert url (.pending (c.sendersOf url ++ [channel])), c.etagFailed⟩

/-- `register` leaves the senders alone, or makes a follower by adding one to
    the pending entry. -/
theorem register_cases (c : Coalescer β) (url : Text) (channel : Nat) :
    ((∀ u, (c.register url channel).1.sendersOf u = c.sendersOf u) ∧
        ∀ rx, (c.register url channel).2 ≠ .follower rx) ∨
      c.register url channel = (withSender c url channel, .follower channel) := by
  rw [Coalescer.register]
  split
  · refine Or.inl ⟨fun _ => rfl, fun rx hrx => ?_⟩
    cases hrx
  · cases hc : c.inflight.lookup url with
    | none =>
        refine Or.inl ⟨fun u => ?_, fun rx hrx => ?_⟩
        · rw [Coalescer.sendersOf, Coalescer.sendersOf]
          dsimp only
          by_cases hu : u = url
          · subst hu
            rw [Finmap.lookup_insert, hc]
          · rw [Finmap.lookup_insert_of_ne _ hu]
        · cases hrx
    | some e =>
        cases e with
        | downloading buffer =>
            refine Or.inl ⟨fun _ => rfl, fun rx hrx => ?_⟩
            cases hrx
        | pending senders =>
            refine Or.inr ?_
            rw [withSender, sendersOf_of_lookup hc]

/-- A sender more. -/
theorem sendersOf_withSender (c : Coalescer β) (url u : Text) (channel : Nat) :
    (withSender c url channel).sendersOf u
      = if u = url then c.sendersOf url ++ [channel] else c.sendersOf u := by
  rw [withSender, Coalescer.sendersOf]
  dsimp only
  by_cases hu : u = url
  · subst hu
    rw [Finmap.lookup_insert, if_pos rfl]
  · rw [Finmap.lookup_insert_of_ne _ hu, if_neg hu]
    rfl

/-- The state with one more follower. -/
def join (s : Receivers β) (url : Text) : Receivers β :=
  { s with
    coalescer := withSender s.coalescer url s.followers.length
    followers := s.followers ++ [url] }

/-- The new follower waits for its URL, the others as before. -/
theorem waits_join (h : Kept s) : Waits (join s url) u channel ↔
    Waits s u channel ∨ channel = s.followers.length ∧ u = url := by
  show (s.followers ++ [url])[channel]? = some u ∧ s.told channel = [] ↔ _
  by_cases hlt : channel < s.followers.length
  · rw [List.getElem?_append_left hlt]
    constructor
    · exact Or.inl
    · rintro (hwaits | ⟨rfl, -⟩)
      · exact hwaits
      · exact absurd hlt (lt_irrefl _)
  · have hnone : ¬ Waits s u channel := by
      intro hwaits
      exact hlt (List.getElem?_eq_some_iff.mp hwaits.1).1
    rw [List.getElem?_append_right (not_lt.mp hlt)]
    constructor
    · rintro ⟨hfollower, -⟩
      obtain ⟨hzero, hu⟩ := List.getElem?_eq_some_iff.mp hfollower
      rw [List.length_singleton] at hzero
      refine Or.inr ⟨by omega, ?_⟩
      rw [List.getElem_singleton] at hu
      exact hu.symm
    · rintro (hwaits | ⟨rfl, rfl⟩)
      · exact absurd hwaits hnone
      · rw [Nat.sub_self]
        exact ⟨rfl, h.fresh _ (le_refl _)⟩

/-- A request that waits has a sender. -/
theorem kept_join (h : Kept s) (url : Text) : Kept (join s url) := by
  have hunknown : ∀ u, ¬ Waits s u s.followers.length := by
    intro u hwaits
    exact absurd (List.getElem?_eq_some_iff.mp hwaits.1).1 (lt_irrefl _)
  refine ⟨fun u channel => ?_, h.once, fun channel hfresh => h.fresh channel ?_⟩
  · rw [waits_join h]
    show (_ → ((withSender s.coalescer url s.followers.length).sendersOf u).count channel = 1) ∧
      (_ → ((withSender s.coalescer url s.followers.length).sendersOf u).count channel = 0)
    rw [sendersOf_withSender]
    by_cases hchannel : channel = s.followers.length
    · subst hchannel
      have hzero := (h.count u _).2 (hunknown u)
      by_cases hu : u = url
      · subst hu
        rw [if_pos rfl, List.count_append, hzero, List.count_singleton_self]
        exact ⟨fun _ => rfl, fun hnot => absurd (Or.inr ⟨rfl, rfl⟩) hnot⟩
      · rw [if_neg hu, hzero]
        refine ⟨?_, fun _ => rfl⟩
        rintro (hwaits | ⟨-, heq⟩)
        · exact absurd hwaits (hunknown u)
        · exact absurd heq hu
    · -- the new sender is not this channel's
      have hsame : (if u = url then s.coalescer.sendersOf url ++ [s.followers.length]
          else s.coalescer.sendersOf u).count channel
            = (s.coalescer.sendersOf u).count channel := by
        split
        next hu =>
          have hzero : [s.followers.length].count channel = 0 := by
            rw [List.count_eq_zero, List.mem_singleton]
            exact hchannel
          rw [hu, List.count_append, hzero, Nat.add_zero]
        next => rfl
      rw [hsame]
      refine ⟨?_, fun hnot => (h.count u channel).2 fun hwaits => hnot (Or.inl hwaits)⟩
      rintro (hwaits | ⟨heq, -⟩)
      · exact (h.count u channel).1 hwaits
      · exact absurd heq hchannel
  · have hlen : (s.followers ++ [url]).length ≤ channel := hfresh
    rw [List.length_append, List.length_singleton] at hlen
    omega

/-! ## Calls -/

/-- What a call can be. -/
inductive Performed (s : Receivers β) : Call β → Receivers β → Prop
  | same {url : Text} (c' : Coalescer β) (h : ∀ u, c'.sendersOf u = s.coalescer.sendersOf u) :
      Performed s (.register url) { s with coalescer := c' }
  | joined {url : Text} : Performed s (.register url) (join s url)
  | attached {url : Text} {buffer : β} : Performed s (.attachBuffer url buffer)
      (release s (s.coalescer.attachBuffer url buffer).1 url (.buffer buffer))
  | completed {url : Text} : Performed s (.complete url)
      (release s (s.coalescer.complete url).1 url .dropped)
  | failed {url : Text} {etagChanged : Bool} : Performed s (.fail url etagChanged)
      (release s (s.coalescer.fail url etagChanged).1 url .dropped)

/-- **What a call does**: `perform` does nothing but this. -/
theorem performed (s : Receivers β) (call : Call β) : Performed s call (perform s call) := by
  cases call with
  | register url =>
      rcases register_cases s.coalescer url s.followers.length with ⟨hsame, hnot⟩ | hjoined
      · have hperform : perform s (.register url)
            = { s with coalescer := (s.coalescer.register url s.followers.length).1 } := by
          rw [perform]
          split
          next rx heq => exact absurd (congrArg Prod.snd heq) (hnot rx)
          next heq => rw [heq]
        rw [hperform]
        exact .same _ hsame
      · rw [perform, hjoined]
        exact .joined
  | attachBuffer url buffer =>
      have hreleased : perform s (.attachBuffer url buffer)
          = release s (s.coalescer.attachBuffer url buffer).1 url (.buffer buffer) := by
        rw [release, ← (sendersOf_attach s.coalescer url buffer).2]
        rfl
      rw [hreleased]
      exact .attached
  | complete url => exact .completed
  | fail url etagChanged => exact .failed

/-- **Step**: who waits has a sender. -/
theorem kept_performed (h : Kept s) (hp : Performed s call s') : Kept s' := by
  cases hp with
  | same c' hsame =>
      refine ⟨fun u channel => ?_, h.once, h.fresh⟩
      show (_ → (c'.sendersOf u).count channel = 1) ∧ (_ → (c'.sendersOf u).count channel = 0)
      rw [hsame]
      exact h.count u channel
  | joined => exact kept_join h _
  | @attached url buffer =>
      refine kept_release h (sendersOf_attach s.coalescer url buffer).1 fun u hu => ?_
      exact sendersOf_of_ne (.attachBuffer url buffer) hu
  | @completed url =>
      refine kept_release h (sendersOf_erase s.coalescer url _) fun u hu => ?_
      exact sendersOf_of_ne (.complete url) hu
  | @failed url etagChanged =>
      refine kept_release h (sendersOf_erase s.coalescer url _) fun u hu => ?_
      exact sendersOf_of_ne (.fail url etagChanged) hu

/-- A call that ends an entry tells all who wait for it. -/
theorem tells_of_kept (h : Kept s) (call : Call β) : Tells s call := by
  intro s' hs
  have hp : Performed s call s' := Option.some.inj hs ▸ performed s call
  clear hs
  cases hp with
  | same c' hsame => rfl
  | joined => rfl
  | @attached url =>
      refine ⟨fun _ => resolves_release h _ url _, fun hnot => ?_⟩
      -- no pending entry, no sender
      show tell s.told (s.coalescer.sendersOf url) _ = s.told
      rw [sendersOf_eq_nil hnot]
      funext channel
      exact List.append_nil _
  | completed => exact resolves_release h _ _ _
  | failed => exact resolves_release h _ _ _

/-- At the start nobody waits. -/
theorem kept_new : Kept (new : Receivers β) where
  count url channel := by
    refine ⟨fun hwaits => ?_, fun _ => ?_⟩
    · exact nomatch hwaits.1
    · have hnone : ∀ senders, (new : Receivers β).coalescer.inflight.lookup url
          ≠ some (.pending senders) := by
        intro senders hlookup
        cases (Finmap.lookup_empty url).symm.trans hlookup
      rw [sendersOf_eq_nil hnone]
      rfl
  once _ := Nat.zero_le _
  fresh _ _ := rfl

/-- **No follower is forgotten**: in every state that calls of any requests
    lead to, a follower that has been told nothing has its one sender in the
    pending entry of its URL; a buffer attached to a pending URL is told to
    all who wait for it and to nobody else, an end tells the rest that there
    is none, and nobody is told twice. -/
theorem receivers_resolved (calls : List (Call β)) :
    Always step Accounted (new : Receivers β) calls ∧
      Along step Tells (new : Receivers β) calls := by
  have hstep : ∀ (s : Receivers β) (call : Call β) (s' : Receivers β),
      Kept s → step s call = some s' → Kept s' := by
    rintro s call _ h ⟨⟩
    exact kept_performed h (performed s call)
  constructor
  · exact always_of_step hstep (fun _ => accounted_of_kept) kept_new
  · exact along_of_step hstep (fun _ call h => tells_of_kept h call) kept_new

/-- A follower of a URL that gets a buffer, and one of a URL that fails. -/
example : ((run step (new : Receivers Nat) [.register ['u'], .register ['v'], .register ['v'],
      .register ['u'], .attachBuffer ['u'] 7, .fail ['v'] true, .complete ['u']]).map fun s =>
    (s.followers, s.told 0, s.told 1)) = some ([['v'], ['u']], [.dropped], [.buffer 7]) := by
  decide

end BlitzReceivers
