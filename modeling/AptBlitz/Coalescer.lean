import AptBlitz.Library.Text
import Mathlib.Data.Finmap

/-! # The coalescer

    `Coalescer` deduplicates the requests in flight: the first request for a
    URL becomes its leader, later ones follow.  Buffers are any type; the two
    ends of a `oneshot` channel are known by the channel's number, and an
    operation that drops senders, or sends on them, gives their numbers
    back. -/

namespace BlitzCoalescer

open RustText

variable {β : Type}

/-- `Inflight`; a sender stands for a request that waits. -/
inductive Inflight (β : Type) where
  | pending (senders : List Nat)
  | downloading (buffer : β)
  deriving DecidableEq

/-- `DownloadCoalescer`: its two maps. -/
structure Coalescer (β : Type) where
  inflight : Finmap fun _ : Text => Inflight β
  /-- whether the last failure was an upstream generation change -/
  etagFailed : Finmap fun _ : Text => Bool

/-- `MAX_INFLIGHT`. -/
def maxInflight : Nat := 1024

/-- `RegisterResult`. -/
inductive RegisterResult (β : Type) where
  | leader
  | follower (rx : Nat)
  | followerBuffer (buffer : β)
  deriving DecidableEq

namespace Coalescer

/-- Nothing is in flight. -/
def new : Coalescer β := ⟨∅, ∅⟩

/-- `register`; `channel` is the number of the channel a follower gets. -/
def register (c : Coalescer β) (url : Text) (channel : Nat) : Coalescer β × RegisterResult β :=
  if c.inflight.keys.card ≥ maxInflight then (c, .leader)
  else match c.inflight.lookup url with
    | some (.downloading buffer) => (c, .followerBuffer buffer)
    | some (.pending senders) =>
        ({ c with inflight := c.inflight.insert url (.pending (senders ++ [channel])) },
          .follower channel)
    | none => ({ c with inflight := c.inflight.insert url (.pending []) }, .leader)

/-- `attach_buffer`, with the channels on which the buffer is sent.  The entry
    is removed before its kind is looked at. -/
def attachBuffer (c : Coalescer β) (url : Text) (buffer : β) : Coalescer β × List Nat :=
  match c.inflight.lookup url with
  | some (.pending senders) =>
      ({ c with inflight := (c.inflight.erase url).insert url (.downloading buffer) }, senders)
  | _ => ({ c with inflight := c.inflight.erase url }, [])

/-- The senders that go when the entry of the URL is removed. -/
def sendersOf (c : Coalescer β) (url : Text) : List Nat :=
  match c.inflight.lookup url with
  | some (.pending senders) => senders
  | _ => []

/-- `complete`, with the channels whose senders are dropped. -/
def complete (c : Coalescer β) (url : Text) : Coalescer β × List Nat :=
  (⟨c.inflight.erase url, c.etagFailed.erase url⟩, c.sendersOf url)

/-- `fail`, with the channels whose senders are dropped. -/
def fail (c : Coalescer β) (url : Text) (etagChanged : Bool) : Coalescer β × List Nat :=
  (⟨c.inflight.erase url, c.etagFailed.insert url etagChanged⟩, c.sendersOf url)

/-- `etag_failed_for`. -/
def etagFailedFor (c : Coalescer β) (url : Text) : Bool :=
  (c.etagFailed.lookup url).getD false

end Coalescer

/-! ## Operations of many requests -/

/-- The operations on the maps. -/
inductive Op (β : Type) where
  | register (url : Text) (channel : Nat)
  | attachBuffer (url : Text) (buffer : β)
  | complete (url : Text)
  | fail (url : Text) (etagChanged : Bool)

/-- The URL that an operation is about. -/
def Op.url : Op β → Text
  | .register url _ => url
  | .attachBuffer url _ => url
  | .complete url => url
  | .fail url _ => url

namespace Coalescer

/-- The coalescer after an operation. -/
def after (c : Coalescer β) : Op β → Coalescer β
  | .register url channel => (c.register url channel).1
  | .attachBuffer url buffer => (c.attachBuffer url buffer).1
  | .complete url => (c.complete url).1
  | .fail url etagChanged => (c.fail url etagChanged).1

/-- The operation inserts an entry that was not there, or replaces the one
    that was by a new one. -/
def creates (c : Coalescer β) : Op β → Bool
  | .register url _ =>
      decide (c.inflight.keys.card < maxInflight) && (c.inflight.lookup url).isNone
  | .attachBuffer url _ =>
      match c.inflight.lookup url with
      | some (.pending _) => true
      | _ => false
  | .complete _ => false
  | .fail _ _ => false

section

variable {c : Coalescer β} {op : Op β} {u : Text}

/-- An operation leaves the entries of other URLs alone. -/
theorem lookup_after_of_ne (h : u ≠ op.url) :
    (c.after op).inflight.lookup u = c.inflight.lookup u := by
  cases op with
  | register url channel =>
      simp only [after, register]
      split
      · rfl
      · split
        · rfl
        · exact Finmap.lookup_insert_of_ne _ h
        · exact Finmap.lookup_insert_of_ne _ h
  | attachBuffer url buffer =>
      simp only [after, attachBuffer]
      split
      · exact (Finmap.lookup_insert_of_ne _ h).trans (Finmap.lookup_erase_ne h)
      · exact Finmap.lookup_erase_ne h
  | complete url => exact Finmap.lookup_erase_ne h
  | fail url etagChanged => exact Finmap.lookup_erase_ne h

/-- Only `register` and an `attach_buffer` that creates leave an entry for
    the URL they are about. -/
theorem lookup_after_self {e : Inflight β}
    (h : (c.after op).inflight.lookup op.url = some e) :
    c.creates op = true ∨ ∃ e', c.inflight.lookup op.url = some e' := by
  cases op with
  | register url channel =>
      simp only [after, register] at h
      split at h
      · exact Or.inr ⟨e, h⟩
      next hroom =>
        split at h
        next hsome => exact Or.inr ⟨_, hsome⟩
        next hsome => exact Or.inr ⟨_, hsome⟩
        next hnone =>
          refine Or.inl ?_
          simp only [creates, Bool.and_eq_true, decide_eq_true_eq]
          refine ⟨not_le.mp hroom, ?_⟩
          rw [show c.inflight.lookup url = none from hnone]
          rfl
  | attachBuffer url buffer =>
      cases hc : c.inflight.lookup url with
      | some e' => exact Or.inr ⟨e', hc⟩
      | none =>
          simp only [after, attachBuffer, hc] at h
          rw [show (Op.attachBuffer url buffer).url = url from rfl, Finmap.lookup_erase] at h
          exact nomatch h
  | complete url => exact nomatch h.symm.trans (Finmap.lookup_erase ..)
  | fail url etagChanged => exact nomatch h.symm.trans (Finmap.lookup_erase ..)

/-- `register` never removes an entry, and creates none where there is one. -/
theorem lookup_after_register {url : Text} {e : Inflight β} (channel : Nat)
    (h : c.inflight.lookup url = some e) :
    ∃ e', (c.after (.register url channel)).inflight.lookup url = some e' := by
  simp only [after, register]
  split
  · exact ⟨e, h⟩
  · split
    next => exact ⟨e, h⟩
    next => exact ⟨_, Finmap.lookup_insert _⟩
    next => exact ⟨_, Finmap.lookup_insert _⟩

/-- A URL with an entry gets no new one. -/
theorem creates_register_of_some {url : Text} {e : Inflight β} {channel : Nat}
    (h : c.inflight.lookup url = some e) : c.creates (.register url channel) = false := by
  simp [creates, h]

/-! ### `register` -/

variable {url : Text} {channel : Nat}

/-- **The shortcut**: `register` makes a leader of a URL that is in flight
    exactly when the map is full. -/
theorem register_leader_iff {e : Inflight β} (h : c.inflight.lookup url = some e) :
    (c.register url channel).2 = .leader ↔ maxInflight ≤ c.inflight.keys.card := by
  rw [register]
  split
  next hfull => exact iff_of_true rfl hfull
  next hroom =>
    rw [h]
    cases e with
    | downloading buffer => exact iff_of_false nofun hroom
    | pending senders => exact iff_of_false nofun hroom

/-- A URL without an entry, where there is room. -/
theorem register_new (h : c.inflight.lookup url = none)
    (hroom : c.inflight.keys.card < maxInflight) :
    c.register url channel
      = ({ c with inflight := c.inflight.insert url (.pending []) }, .leader) := by
  rw [register, if_neg (not_le.mpr hroom), h]

theorem register_full (hfull : maxInflight ≤ c.inflight.keys.card) :
    c.register url channel = (c, .leader) :=
  if_pos hfull

/-- A URL without an entry makes its caller the leader. -/
theorem register_of_none (h : c.inflight.lookup url = none) :
    (c.register url channel).2 = .leader := by
  by_cases hroom : c.inflight.keys.card < maxInflight
  · rw [register_new h hroom]
  · rw [register_full (not_lt.mp hroom)]

/-- An entry with senders gets one more, or stays as it is. -/
theorem register_pending {senders : List Nat} (h : c.inflight.lookup url = some (.pending senders)) :
    ∃ senders', (c.register url channel).1.inflight.lookup url = some (.pending senders') := by
  rw [register]
  split
  · exact ⟨senders, h⟩
  · rw [h]
    exact ⟨_, Finmap.lookup_insert _⟩

end

end Coalescer

end BlitzCoalescer
