import AptBlitz.Coalescer
import AptBlitz.Library.Runs

/-! # The leaders of a URL

    Callers of the coalescer, each known by a number.  A caller leads a URL
    from the `register` that made it the leader to its own `complete` or
    `fail`.  Counted are the leaders whose `register` left an entry in the
    map: it has inserted it, or found it.

    As long as nobody registers a URL whose entry is in a full map, and only
    the leader of an entry removes it, there is one leader for each entry and
    none for a URL without: the number of leaders is conserved. -/

namespace BlitzOneLeader

open RustText BlitzCoalescer Coalescer Runs

variable {β : Type}

/-- The coalescer, and by URL the callers that lead it. -/
structure Callers (β : Type) where
  coalescer : Coalescer β
  leaders : Text → List Nat

/-- An operation, and the request that makes it. -/
structure Call (β : Type) where
  who : Nat
  op : Op β

/-- `register` returns `Leader`, and the map has an entry for the URL. -/
def leads (c : Coalescer β) (url : Text) (channel : Nat) : Bool :=
  let result := c.register url channel
  (match result.2 with
    | .leader => true
    | _ => false) && (result.1.inflight.lookup url).isSome

/-- Who leads after a call. -/
def leadersAfter (s : Callers β) (call : Call β) : Text → List Nat :=
  match call.op with
  | .register url channel =>
      if leads s.coalescer url channel then
        Function.update s.leaders url (call.who :: s.leaders url)
      else s.leaders
  | .attachBuffer _ _ => s.leaders
  | .complete url => Function.update s.leaders url ((s.leaders url).erase call.who)
  | .fail url _ => Function.update s.leaders url ((s.leaders url).erase call.who)

/-- One call. -/
def step (s : Callers β) (call : Call β) : Option (Callers β) :=
  some ⟨s.coalescer.after call.op, leadersAfter s call⟩

/-- Nobody has called yet. -/
def start : Callers β := ⟨Coalescer.new, fun _ => []⟩

/-! ## Who becomes a leader -/

variable {s s' : Callers β} {call : Call β} {c : Coalescer β} {url u : Text} {channel : Nat}

/-- A URL without an entry makes its caller the leader, where there is room. -/
theorem leads_new (h : c.inflight.lookup url = none)
    (hroom : c.inflight.keys.card < maxInflight) : leads c url channel = true := by
  simp [leads, register_new h hroom]

/-- In a full map it is the entry that makes a leader. -/
theorem leads_full (hfull : maxInflight ≤ c.inflight.keys.card) :
    leads c url channel = (c.inflight.lookup url).isSome := by
  simp [leads, register_full hfull]

/-- A caller that finds an entry follows it, where there is room. -/
theorem leads_found {e : Inflight β} (h : c.inflight.lookup url = some e)
    (hroom : c.inflight.keys.card < maxInflight) : leads c url channel = false := by
  have hnot : (c.register url channel).2 ≠ .leader :=
    fun hl => not_le.mpr hroom ((register_leader_iff h).mp hl)
  unfold leads
  dsimp only
  split
  next hl => exact absurd hl hnot
  next => rfl

/-! ## One leader for each entry -/

/-- The call keeps leaders and entries together. -/
def KeepsOne (s : Callers β) (call : Call β) : Prop :=
  match call.op with
  | .register url _ =>
      s.coalescer.inflight.lookup url = none ∨ s.coalescer.inflight.keys.card < maxInflight
  | .attachBuffer url _ => ∀ buffer, s.coalescer.inflight.lookup url ≠ some (.downloading buffer)
  | .complete url => s.coalescer.inflight.lookup url = none ∨ call.who ∈ s.leaders url
  | .fail url _ => s.coalescer.inflight.lookup url = none ∨ call.who ∈ s.leaders url

/-- One for an entry, none for none. -/
def tally : Option (Inflight β) → Nat
  | some _ => 1
  | none => 0

/-- One leader for each entry, and no other. -/
def Counted (s : Callers β) : Prop :=
  ∀ u, (s.leaders u).length = tally (s.coalescer.inflight.lookup u)

/-- A call is about its own URL. -/
theorem leadersAfter_of_ne (h : u ≠ call.op.url) : leadersAfter s call u = s.leaders u := by
  obtain ⟨who, op⟩ := call
  cases op with
  | register url channel =>
      simp only [leadersAfter]
      split
      · exact Function.update_of_ne h ..
      · rfl
  | attachBuffer url buffer => rfl
  | complete url => exact Function.update_of_ne h ..
  | fail url etagChanged => exact Function.update_of_ne h ..

/-- Removing an entry takes its leader away. -/
theorem length_erase {leaders : List Nat} {entry : Option (Inflight β)} {who : Nat}
    (h : leaders.length = tally entry) (hwho : entry = none ∨ who ∈ leaders) :
    (leaders.erase who).length = 0 := by
  rcases hwho with rfl | hmem
  · have hnil : leaders = [] := List.length_eq_zero_iff.mp h
    rw [hnil]
    rfl
  · rw [List.length_erase_of_mem hmem]
    cases entry with
    | none => exact Nat.sub_eq_zero_of_le (h.trans_le (Nat.zero_le 1))
    | some e => exact Nat.sub_eq_zero_of_le h.le

/-- The call's URL has as many leaders as entries. -/
theorem counted_self (h : Counted s) (hkeeps : KeepsOne s call) :
    (leadersAfter s call call.op.url).length
      = tally ((s.coalescer.after call.op).inflight.lookup call.op.url) := by
  obtain ⟨who, op⟩ := call
  have hlen := h op.url
  cases op with
  | register url channel =>
      have hlen : (s.leaders url).length = tally (s.coalescer.inflight.lookup url) := hlen
      simp only [leadersAfter, after, Op.url]
      cases hentry : s.coalescer.inflight.lookup url with
      | none =>
          rw [hentry] at hlen
          by_cases hroom : s.coalescer.inflight.keys.card < maxInflight
          · rw [leads_new hentry hroom, if_pos rfl, Function.update_self, register_new hentry hroom,
              Finmap.lookup_insert]
            exact congrArg Nat.succ hlen
          · have hfull := not_lt.mp hroom
            rw [leads_full hfull, hentry, Option.isSome_none, if_neg Bool.false_ne_true,
              register_full hfull, hentry]
            exact hlen
      | some e =>
          rw [hentry] at hlen
          have hroom : s.coalescer.inflight.keys.card < maxInflight :=
            hkeeps.resolve_left (by simp [hentry])
          obtain ⟨e', he'⟩ := lookup_after_register channel hentry
          have he' : (s.coalescer.register url channel).1.inflight.lookup url = some e' := he'
          rw [leads_found hentry hroom, if_neg Bool.false_ne_true, he']
          exact hlen
  | attachBuffer url buffer =>
      have hlen : (s.leaders url).length = tally (s.coalescer.inflight.lookup url) := hlen
      simp only [leadersAfter, after, attachBuffer, Op.url]
      cases hentry : s.coalescer.inflight.lookup url with
      | none =>
          rw [hentry] at hlen
          rw [Finmap.lookup_erase]
          exact hlen
      | some e =>
          rw [hentry] at hlen
          cases e with
          | pending senders =>
              rw [Finmap.lookup_insert]
              exact hlen
          | downloading old => exact absurd hentry (hkeeps old)
  | complete url =>
      show (Function.update s.leaders url ((s.leaders url).erase who) url).length
        = tally ((s.coalescer.inflight.erase url).lookup url)
      rw [Function.update_self, Finmap.lookup_erase]
      exact length_erase hlen hkeeps
  | fail url etagChanged =>
      show (Function.update s.leaders url ((s.leaders url).erase who) url).length
        = tally ((s.coalescer.inflight.erase url).lookup url)
      rw [Function.update_self, Finmap.lookup_erase]
      exact length_erase hlen hkeeps

/-- **Step**: every URL keeps as many leaders as entries. -/
theorem counted_step (h : Counted s) (hkeeps : KeepsOne s call) (hs : step s call = some s') :
    Counted s' := by
  cases hs
  intro u
  by_cases hu : u = call.op.url
  · subst hu
    exact counted_self h hkeeps
  · have hlookup : (s.coalescer.after call.op).inflight.lookup u = s.coalescer.inflight.lookup u :=
      lookup_after_of_ne hu
    show (leadersAfter s call u).length = _
    rw [leadersAfter_of_ne hu, hlookup]
    exact h u

/-- At the start there is neither a leader nor an entry. -/
theorem counted_start : Counted (start : Callers β) := fun _ => rfl

/-- At most one caller leads a URL. -/
def AtMostOne (s : Callers β) : Prop := ∀ u, (s.leaders u).length ≤ 1

/-- An entry is one entry. -/
theorem Counted.atMostOne (h : Counted s) : AtMostOne s := by
  intro u
  rw [h u]
  cases s.coalescer.inflight.lookup u with
  | none => exact Nat.zero_le 1
  | some e => exact le_refl 1

/-- `register` makes no leader of a URL that is in flight. -/
def Follows (s : Callers β) (call : Call β) : Prop :=
  ∀ url channel e, call.op = .register url channel →
    s.coalescer.inflight.lookup url = some e → (s.coalescer.register url channel).2 ≠ .leader

/-- The condition is enough for the call by itself. -/
theorem KeepsOne.follows (h : KeepsOne s call) : Follows s call := by
  obtain ⟨who, op⟩ := call
  rintro url channel e rfl he hleader
  have hroom : s.coalescer.inflight.keys.card < maxInflight := h.resolve_left (by simp [he])
  exact not_le.mpr hroom ((register_leader_iff he).mp hleader)

/-- **One leader**: a URL in flight gets a second one exactly when the map is
    full; and where that does not happen, and entries are removed by their
    leaders, no URL ever has two. -/
theorem one_leader :
    (∀ (c : Coalescer β) url channel e, c.inflight.lookup url = some e →
      ((c.register url channel).2 = .leader ↔ maxInflight ≤ c.inflight.keys.card)) ∧
    (∀ calls, Along step KeepsOne (start : Callers β) calls →
      Always step AtMostOne (start : Callers β) calls ∧ Along step Follows start calls) := by
  refine ⟨fun c url channel e => register_leader_iff, fun calls hkeeps => ⟨?_, ?_⟩⟩
  · exact always_of_along (fun _ _ _ => counted_step) (fun _ => Counted.atMostOne) counted_start hkeeps
  · exact along_mono (fun _ _ => KeepsOne.follows) hkeeps

/-- One caller leads, another follows it; then a third one leads. -/
def ledTwice : List (Call Nat) :=
  [⟨0, .register ['a'] 0⟩, ⟨1, .register ['a'] 1⟩, ⟨0, .attachBuffer ['a'] 7⟩, ⟨0, .complete ['a']⟩,
    ⟨2, .register ['a'] 2⟩]

theorem one_leader_again :
    (run step start ledTwice).any (fun s => s.leaders ['a'] == [2]) = true ∧
      Along step KeepsOne start ledTwice ∧ Always step AtMostOne start ledTwice := by
  have hkeeps : Along step KeepsOne start ledTwice := by
    refine ⟨Or.inl rfl, ?_⟩
    rintro s ⟨⟩
    refine ⟨Or.inr (by decide), ?_⟩
    rintro s ⟨⟩
    refine ⟨nofun, ?_⟩
    rintro s ⟨⟩
    refine ⟨Or.inr (by decide), ?_⟩
    rintro s ⟨⟩
    refine ⟨Or.inl (by decide), ?_⟩
    rintro s ⟨⟩
    exact trivial
  exact ⟨by decide, hkeeps, (one_leader.2 ledTwice hkeeps).1⟩

/-! ## A full map -/

/-- The URLs of the calls below: no two are the same. -/
def urlOf (i : Nat) : Text := List.replicate i 'a'

/-- The first `n` of these URLs, each registered by a caller of its own. -/
def registrations (n : Nat) : List (Call β) :=
  (List.range n).map fun i => ⟨i, .register (urlOf i) i⟩

theorem urlOf_injective : Function.Injective urlOf :=
  fun i j h => by simpa [urlOf] using congrArg List.length h

/-- The map after the first `n` registrations. -/
structure Registered (n : Nat) (s : Callers β) : Prop where
  keys : s.coalescer.inflight.keys = (Finset.range n).image urlOf
  led : ∀ i < n, s.leaders (urlOf i) = [i]
  free : ∀ i, n ≤ i → s.leaders (urlOf i) = []

/-- The URLs that were registered are as many as the entries. -/
theorem Registered.card {n : Nat} (h : Registered n s) : s.coalescer.inflight.keys.card = n := by
  rw [h.keys, Finset.card_image_of_injective _ urlOf_injective, Finset.card_range]

/-- The URLs to come have no entry yet. -/
theorem Registered.lookup {n i : Nat} (h : Registered n s) (hi : n ≤ i) :
    s.coalescer.inflight.lookup (urlOf i) = none := by
  rw [Finmap.lookup_eq_none, ← Finmap.mem_keys, h.keys]
  intro hmem
  obtain ⟨j, hj, heq⟩ := Finset.mem_image.mp hmem
  have hlt := Finset.mem_range.mp hj
  have hji : j = i := urlOf_injective heq
  omega

/-- There is room for the next URL. -/
theorem Registered.next {n : Nat} (h : Registered n s) (hn : n < maxInflight) :
    ∃ t, step s ⟨n, .register (urlOf n) n⟩ = some t ∧ Registered (n + 1) t := by
  have hroom : s.coalescer.inflight.keys.card < maxInflight := h.card.trans_lt hn
  have hnew := h.lookup (le_refl n)
  have hleaders : leadersAfter s ⟨n, .register (urlOf n) n⟩
      = Function.update s.leaders (urlOf n) [n] := by
    show (if leads s.coalescer (urlOf n) n then
      Function.update s.leaders (urlOf n) (n :: s.leaders (urlOf n)) else s.leaders) = _
    rw [leads_new hnew hroom, if_pos rfl, h.free n (le_refl n)]
  refine ⟨_, rfl, ?_, ?_, ?_⟩
  · show (s.coalescer.register (urlOf n) n).1.inflight.keys = _
    rw [register_new hnew hroom]
    ext u
    simp [Finmap.mem_keys, Finmap.mem_insert, ← h.keys, Finset.range_add_one, Finset.image_insert]
  · intro i hi
    refine (congrFun hleaders _).trans ?_
    rcases Nat.lt_succ_iff_lt_or_eq.mp hi with hlt | rfl
    · rw [Function.update_of_ne (urlOf_injective.ne hlt.ne), h.led i hlt]
    · exact Function.update_self ..
  · intro i hi
    refine (congrFun hleaders _).trans ?_
    rw [Function.update_of_ne (urlOf_injective.ne (by omega))]
    exact h.free i (by omega)

/-- The map can be filled to its limit. -/
theorem run_registrations {n : Nat} (hn : n ≤ maxInflight) :
    ∃ s, run step (start : Callers β) (registrations n) = some s ∧ Registered n s := by
  induction n with
  | zero => exact ⟨start, rfl, ⟨rfl, nofun, fun _ _ => rfl⟩⟩
  | succ n ih =>
      obtain ⟨s, hrun, hs⟩ := ih (Nat.le_of_succ_le hn)
      obtain ⟨t, hstep, ht⟩ := hs.next hn
      refine ⟨t, ?_, ht⟩
      rw [registrations, List.range_succ, List.map_append]
      exact run_append hrun (by rw [List.map_singleton, run_cons hstep]; rfl)

/-- 1024 URLs are in flight, and the first of them is registered again. -/
theorem one_leader_full :
    ∃ s : Callers Nat, run step start (registrations maxInflight) = some s ∧
      (∃ e, s.coalescer.inflight.lookup (urlOf 0) = some e) ∧
      (s.coalescer.register (urlOf 0) maxInflight).2 = .leader ∧
      ∃ t, step s ⟨maxInflight, .register (urlOf 0) maxInflight⟩ = some t ∧
        t.leaders (urlOf 0) = [maxInflight, 0] := by
  obtain ⟨s, hrun, hs⟩ := run_registrations (β := Nat) (le_refl maxInflight)
  have hfull : maxInflight ≤ s.coalescer.inflight.keys.card := hs.card.ge
  have hsome : (s.coalescer.inflight.lookup (urlOf 0)).isSome := by
    rw [Finmap.lookup_isSome, ← Finmap.mem_keys, hs.keys]
    exact Finset.mem_image_of_mem _ (Finset.mem_range.mpr (by decide))
  refine ⟨s, hrun, Option.isSome_iff_exists.mp hsome, ?_, _, rfl, ?_⟩
  · rw [register_full hfull]
  · show (if leads s.coalescer (urlOf 0) maxInflight then
      Function.update s.leaders (urlOf 0) (maxInflight :: s.leaders (urlOf 0)) else s.leaders)
      (urlOf 0) = _
    rw [leads_full hfull, if_pos hsome, Function.update_self, hs.led 0 (by decide)]

end BlitzOneLeader
