import AptBlitz.Leader
import AptBlitz.Serving

/-! # Simultaneous requests

    Any number of requests for one URL in `resolve_with_coalescing`, while
    the leader of the URL downloads, stores, and calls `complete`.  The cache
    lookup and the `register` after it are steps of their own, and so are the
    steps of the leader's store; the requests for other URLs work on the same
    coalescer and the same cache.

    What a second leader would do is left out: the run has decided then. -/

namespace BlitzSimultaneous

open RustText BlitzCoalescer BlitzHeaders
open BlitzServing hiding Act step
open BlitzLeader hiding Act step

/-- Where a request is in the loop of `resolve_with_coalescing`. -/
inductive Join (β : Type) where
  /-- before `lookup_entry` -/
  | looking
  /-- after it, with whether the leader's file was not in the cache then -/
  | looked (early : Bool)
  | follower (rx : Nat)
  | followerBuffer (buffer : β)
  | leader
  | failed (e : ProxyError)

/-- What does not change. -/
structure ResolveConfig (γ : Type) extends ServerConfig γ where
  maxRetries : Nat
  etagMaxRetries : Nat

/-- The cache with the requests' lookups, the leader with the coalescer, and
    the requests. -/
structure System (γ β ε : Type) where
  server : Server γ
  leader : Leader β ε
  joins : Nat → Join β
  retries : Nat → Nat
  /-- the leader's `store` has made its insert -/
  inserted : Bool
  /-- how many channels there have been -/
  channels : Nat
  /-- the channels on which the buffer was sent -/
  sent : List Nat
  /-- the channels whose sender was dropped -/
  dropped : List Nat

/-- The leader's `store` among those of the cache. -/
def leaderStore : Nat := 0

/-- Whose step it is. -/
inductive Act (γ β ε : Type) where
  | server (act : BlitzServing.Act γ)
  | leader (act : BlitzLeader.Act β ε)
  | register (r : Nat)
  /-- the buffer comes out of the channel -/
  | receive (r : Nat)
  /-- the sender is gone -/
  | closed (r : Nat)
  | timedOut (r : Nat)
  /-- the failure tracker has the URL in cooldown -/
  | rejected (r : Nat)

variable {γ β ε : Type}

namespace System

/-- The coalescer that all requests share. -/
def coalescer (s : System γ β ε) : Coalescer β := s.leader.entries.coalescer

/-- Request `r` goes on to `join`. -/
def goto (s : System γ β ε) (r : Nat) (join : Join β) : System γ β ε :=
  { s with joins := Function.update s.joins r join }

end System

/-! ## The errors of the loop -/

/-- The answer in the cooldown. -/
def cooldownError (url : Text) : ProxyError :=
  .serviceUnavailable ("upstream in failure cooldown for ".toList ++ url ++ ", retry later".toList)

/-- The answer after the timeout. -/
def timeoutError (url : Text) : ProxyError :=
  .internal ("timed out waiting for in-flight download of ".toList ++ url)

/-- The answer after too many drops. -/
def retriesError (url : Text) (retries : Nat) (etagChanged : Bool) : ProxyError :=
  if etagChanged then
    .serviceUnavailable ("upstream file kept changing for ".toList ++ url ++ ", retry later".toList)
  else
    .internal ("leader failed ".toList ++ natText retries ++ " times for ".toList ++ url ++
      ", giving up".toList)

/-! ## Steps -/

/-- The file that the leader stores is the one it has downloaded, with the
    headers of its response. -/
def mayRename (s : System γ β ε) (url : Text) (headers : HeaderMap) : Bool :=
  s.leader.task == .store && !s.inserted && url == s.leader.url &&
    s.leader.handler == .returned (.ok ⟨200, headers⟩)

/-- A step of the cache, or of a request there. -/
def serverStep (K : ResolveConfig γ) (s : System γ β ε) (act : BlitzServing.Act γ) :
    Option (System γ β ε) :=
  let next := (BlitzServing.step K.toServerConfig s.server act).map fun server => { s with server }
  match act with
  | .lookupEntry r url _ _ =>
      match s.joins r with
      | .looking =>
          if url = s.leader.url then next.map fun t => t.goto r (.looked !s.inserted) else none
      | _ => none
  | .cache (.rename w url _ headers) =>
      if w = leaderStore ∧ mayRename s url headers = false then none else next
  | .cache (.insert w _ _) =>
      next.map fun t => { t with inserted := s.inserted || w == leaderStore }
  | _ => next

/-- The channels on which a step of the leader sends its buffer, and those
    whose senders it drops. -/
def channelsOf (s : System γ β ε) : BlitzLeader.Act β ε → List Nat × List Nat
  | .handler .go =>
      match s.leader.handler with
      | .completePlain => ([], (s.coalescer.complete s.leader.url).2)
      | .completeForward _ => ([], (s.coalescer.complete s.leader.url).2)
      | .attach _ _ => ((s.coalescer.attachBuffer s.leader.url s.leader.buffer).2, [])
      | _ => ([], [])
  | .task .go =>
      match s.leader.task with
      | .cleanup (.fail etagChanged :: _) => ([], (s.coalescer.fail s.leader.url etagChanged).2)
      | .cleanup (.complete :: _) => ([], (s.coalescer.complete s.leader.url).2)
      | _ => ([], [])
  | _ => ([], [])

/-- The step is one of the leader's, or of a request for another URL; its
    `store` goes well with an insert only. -/
def mayStep (s : System γ β ε) : BlitzLeader.Act β ε → Bool
  | .other op => op.url != s.leader.url
  | .task (.went true) => s.leader.task != .store || s.inserted
  | _ => true

/-- A step of the leader, and what becomes of its channels. -/
def leaderStep (s : System γ β ε) (act : BlitzLeader.Act β ε) : Option (System γ β ε) :=
  if mayStep s act then
    (BlitzLeader.step s.leader act).map fun leader =>
      { s with
        leader
        sent := s.sent ++ (channelsOf s act).1
        dropped := s.dropped ++ (channelsOf s act).2 }
  else none

/-- What `register` makes of a request. -/
def afterRegister : RegisterResult β → Join β
  | .leader => .leader
  | .follower rx => .follower rx
  | .followerBuffer buffer => .followerBuffer buffer

/-- `coalescer.register(url)`. -/
def registerStep (s : System γ β ε) (r : Nat) : System γ β ε :=
  let result := (s.coalescer.register s.leader.url s.channels).2
  let entries := s.leader.entries.perform .other (.register s.leader.url s.channels)
  { s with
    leader := { s.leader with entries }
    joins := Function.update s.joins r (afterRegister result)
    channels := s.channels + 1 }

/-- The sender of a follower's channel was dropped. -/
def retryStep (K : ResolveConfig γ) (s : System γ β ε) (r : Nat) : System γ β ε :=
  let etagChanged := s.coalescer.etagFailedFor s.leader.url
  let budget := if etagChanged then K.etagMaxRetries else K.maxRetries
  let retries := s.retries r + 1
  let join := if budget < retries then .failed (retriesError s.leader.url retries etagChanged)
    else .looking
  { s.goto r join with retries := Function.update s.retries r retries }

/-- One step of the system. -/
def step (K : ResolveConfig γ) (s : System γ β ε) : Act γ β ε → Option (System γ β ε)
  | .server act => serverStep K s act
  | .leader act => leaderStep s act
  | .register r =>
      match s.joins r, s.server.requests r with
      | .looked _, .missed => some (registerStep s r)
      | _, _ => none
  | .receive r =>
      match s.joins r with
      | .follower rx =>
          if rx ∈ s.sent then some (s.goto r (.followerBuffer s.leader.buffer)) else none
      | _ => none
  | .closed r =>
      match s.joins r with
      | .follower rx => if rx ∈ s.dropped then some (retryStep K s r) else none
      | _ => none
  | .timedOut r =>
      match s.joins r with
      | .follower _ => some (s.goto r (.failed (timeoutError s.leader.url)))
      | _ => none
  | .rejected r =>
      match s.joins r with
      | .looking => some (s.goto r (.failed (cooldownError s.leader.url)))
      | _ => none

/-- A request has just become the leader of the URL, and its `store` has not
    begun; others have looked the URL up, or will. -/
def led (server : Server γ) (coalescer : Coalescer β) (url : Text) (buffer : β)
    (etagChangedFor : ε → Bool) (first : Pc) (joins : Nat → Join β) : System γ β ε where
  server :=
    { server with
      cache :=
        { server.cache with stores := Function.update server.cache.stores leaderStore .idle } }
  leader := BlitzLeader.start coalescer url 0 buffer etagChangedFor first
  joins := joins
  retries := fun _ => 0
  inserted := false
  channels := 1
  sent := []
  dropped := []

end BlitzSimultaneous
