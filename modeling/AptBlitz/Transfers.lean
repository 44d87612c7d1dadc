import AptBlitz.Claims

/-! # Transfers: how a segment got its bytes

    A downloader's worker takes a segment, opens a transfer for it (an HTTP
    response, an FTP data connection), receives bytes, writes them into the
    buffer, perhaps starts over with another transfer, and in the end marks
    the segment ready.  The log records these events, for all workers in the
    order they happened; it is what the results about downloads speak of.

    `LogInv` is the invariant that ties the log to the segments and to what
    each worker is doing.  It is stated for any kind of transfer; both
    downloaders instantiate it. -/

namespace BlitzTransfers

open BlitzBuffer SegmentsBuffer Tiling

variable {ρ : Type}

/-- What can happen to a segment; `ρ` is the head of a transfer. -/
inductive What (ρ : Type) where
  | claimed (start stop : Nat)
  /-- a transfer begins; an earlier one is given up -/
  | opened (head : ρ)
  | received (bytes : Bytes)
  /-- `write_data(offset, data)` returned `Ok` -/
  | wrote (offset : Nat) (data : Bytes)
  | ready

/-- An event, the worker and the segment. -/
structure Event (ρ : Type) where
  worker : Nat
  id : Nat
  what : What ρ

/-- One transfer: the bytes received on it, and the writes made from them. -/
structure Transfer (ρ : Type) where
  head : ρ
  body : Bytes
  writes : List (Nat × Bytes)

namespace Transfer

/-- The ranges written, in order. -/
def ranges (t : Transfer ρ) : List (Nat × Nat) :=
  t.writes.map fun w => (w.1, w.1 + w.2.length)

/-- The bytes written, in order. -/
def data (t : Transfer ρ) : Bytes := t.writes.flatMap Prod.snd

/-- What an event makes of the last transfer. -/
def next : Option (Transfer ρ) → What ρ → Option (Transfer ρ)
  | _, .opened head => some ⟨head, [], []⟩
  | some t, .received bytes => some { t with body := t.body ++ bytes }
  | some t, .wrote offset data => some { t with writes := t.writes ++ [(offset, data)] }
  | t, _ => t

end Transfer

/-- The last transfer of segment `id`: what has happened since it was
    opened. -/
def lastTransfer (id : Nat) (log : List (Event ρ)) : Option (Transfer ρ) :=
  log.foldl (fun t e => if e.id = id then Transfer.next t e.what else t) none

/-- Segment `id` was marked ready exactly once, by the worker that claimed
    its range, and its last transfer by then satisfies `P`. -/
def Delivered (P : Segment → Transfer ρ → Prop) (log : List (Event ρ)) (id : Nat)
    (seg : Segment) : Prop :=
  ∃ w before after t, log = before ++ ⟨w, id, .ready⟩ :: after ∧
    ⟨w, id, .claimed seg.start seg.end⟩ ∈ before ∧
    (∀ e ∈ before, e.id = id → e.worker = w ∧ e.what ≠ .ready) ∧
    (∀ e ∈ after, e.id ≠ id) ∧
    lastTransfer id before = some t ∧ P seg t

section

variable {log : List (Event ρ)} {e : Event ρ} {id w : Nat} {x : What ρ}
  {t : Transfer ρ} {a m : Nat} {P : Segment → Transfer ρ → Prop} {seg : Segment}

/-! ## Reading the log -/

theorem lastTransfer_self :
    lastTransfer id (log ++ [⟨w, id, x⟩]) = Transfer.next (lastTransfer id log) x := by
  simp only [lastTransfer]
  rw [List.foldl_append]
  simp

theorem lastTransfer_of_ne (h : e.id ≠ id) :
    lastTransfer id (log ++ [e]) = lastTransfer id log := by
  simp only [lastTransfer]
  rw [List.foldl_append]
  simp [h]

/-- The bytes of a chain of writes are as many as the offsets between its
    ends. -/
theorem length_data (h : Chain a t.ranges m) : a + t.data.length = m := by
  obtain ⟨head, body, writes⟩ := t
  change Chain a (writes.map fun w => (w.1, w.1 + w.2.length)) m at h
  show a + (writes.flatMap Prod.snd).length = m
  induction writes generalizing a with
  | nil =>
      have ham : a = m := h
      simpa using ham
  | cons p writes ih =>
      obtain ⟨hstart, hrest⟩ := h
      have hp : p.1 = a := hstart
      have : p.1 + p.2.length + (writes.flatMap Prod.snd).length = m := ih hrest
      rw [List.flatMap_cons, List.length_append]
      omega

/-- Another write where the last one ended. -/
theorem chain_wrote (data : Bytes) (h : Chain a t.ranges m) :
    Chain a ({ t with writes := t.writes ++ [(m, data)] } : Transfer ρ).ranges
      (m + data.length) := by
  rw [Transfer.ranges]
  rw [List.map_append]
  exact h.snoc (r := (m, m + data.length)) rfl

theorem data_wrote {data : Bytes} {off : Nat} :
    ({ t with writes := t.writes ++ [(off, data)] } : Transfer ρ).data = t.data ++ data := by
  simp only [Transfer.data]
  rw [List.flatMap_append, List.flatMap_singleton]

/-- Events of other segments. -/
theorem lastTransfer_append {after : List (Event ρ)} (h : ∀ e ∈ after, e.id ≠ id) :
    lastTransfer id (log ++ after) = lastTransfer id log := by
  induction after generalizing log with
  | nil => rw [List.append_nil]
  | cons e after ih =>
      rw [List.append_cons, ih fun e' he' => h e' (List.mem_cons_of_mem _ he')]
      exact lastTransfer_of_ne (h e List.mem_cons_self)

/-- What the transfer was when the segment was marked, it still is. -/
theorem Delivered.lastTransfer (h : Delivered P log id seg) :
    ∃ t, lastTransfer id log = some t ∧ P seg t := by
  obtain ⟨w, before, after, t, rfl, -, -, hafter, ht, hP⟩ := h
  refine ⟨t, ?_, hP⟩
  rw [List.append_cons, lastTransfer_append hafter, lastTransfer_self, ht]
  rfl

/-- What holds of the transfer is enough. -/
theorem Delivered.imp {Q : Segment → Transfer ρ → Prop} (h : Delivered P log id seg)
    (hPQ : ∀ t, P seg t → Q seg t) : Delivered Q log id seg := by
  obtain ⟨w, before, after, t, hlog, hcl, hbefore, hafter, ht, hP⟩ := h
  exact ⟨w, before, after, t, hlog, hcl, hbefore, hafter, ht, hPQ t hP⟩

/-- A transfer keeps its head until the next one is opened. -/
theorem head_next {o : Option (Transfer ρ)} (h : Transfer.next o x = some t) :
    x = .opened t.head ∨ ∃ t', o = some t' ∧ t'.head = t.head := by
  cases x with
  | opened head =>
      cases h
      exact Or.inl rfl
  | _ =>
      -- the others go on with the transfer there is
      cases o with
      | none => cases h
      | some t' =>
          cases h
          exact Or.inr ⟨_, rfl, rfl⟩

/-- The head of a transfer is that of a transfer opened for the segment. -/
theorem opened_of_lastTransfer (h : lastTransfer id log = some t) :
    ∃ e ∈ log, e.id = id ∧ e.what = .opened t.head := by
  induction log using List.reverseRecOn generalizing t with
  | nil => cases h
  | append_singleton log e ih =>
      have hold : ∀ {t'}, lastTransfer id log = some t' → t'.head = t.head →
          ∃ e' ∈ log ++ [e], e'.id = id ∧ e'.what = .opened t.head := by
        intro t' ht' hhead
        obtain ⟨e', hmem, hid, hwhat⟩ := ih ht'
        exact ⟨e', List.mem_append_left _ hmem, hid, hhead ▸ hwhat⟩
      by_cases hid : e.id = id
      · subst hid
        rw [lastTransfer_self] at h
        rcases head_next h with hwhat | ⟨t', ht', hhead⟩
        · exact ⟨e, List.mem_append_right _ (List.mem_singleton_self e), rfl, hwhat⟩
        · exact hold ht' hhead
      · rw [lastTransfer_of_ne hid] at h
        exact hold h rfl

/-- What is known of the heads of all transfers, and follows for a segment. -/
theorem Delivered.imp_opened {Q : Segment → Transfer ρ → Prop} (h : Delivered P log id seg)
    (hPQ : ∀ t, (∃ e ∈ log, e.id = id ∧ e.what = .opened t.head) → P seg t → Q seg t) :
    Delivered Q log id seg := by
  obtain ⟨w, before, after, t, hlog, hcl, hbefore, hafter, ht, hP⟩ := h
  obtain ⟨e, hmem, he⟩ := opened_of_lastTransfer ht
  refine ⟨w, before, after, t, hlog, hcl, hbefore, hafter, ht, hPQ t ⟨e, ?_, he⟩ hP⟩
  rw [hlog]
  exact List.mem_append_left _ hmem

/-- Events about other segments do not touch what was delivered. -/
theorem Delivered.append (h : Delivered P log id seg) (he : e.id ≠ id) :
    Delivered P (log ++ [e]) id seg := by
  obtain ⟨w, before, after, t, hlog, hcl, hbefore, hafter, ht⟩ := h
  refine ⟨w, before, after ++ [e], t, ?_, hcl, hbefore, ?_, ht⟩
  · rw [hlog, List.append_assoc, List.cons_append]
  · intro e' he'
    rcases List.mem_append.mp he' with hold | hnew
    · exact hafter e' hold
    · rw [List.mem_singleton.mp hnew]
      exact he

end

/-! ## The invariant of the log -/

/-- A worker's segment and what its last transfer must look like. -/
structure Doing (ρ : Type) where
  id : Nat
  start : Nat
  stop : Nat
  ok : Option (Transfer ρ) → Prop

/-- All that happened to the segment is worker `w`'s doing, from the claim
    on, and the segment has not been marked. -/
def Doing.By (d : Doing ρ) (w : Nat) (log : List (Event ρ)) : Prop :=
  ⟨w, d.id, .claimed d.start d.stop⟩ ∈ log ∧
    (∀ e ∈ log, e.id = d.id → e.worker = w ∧ e.what ≠ .ready) ∧
    d.ok (lastTransfer d.id log)

/-- The log, the segments and the workers agree. -/
structure LogInv (P : Segment → Transfer ρ → Prop) (segs : List Segment)
    (log : List (Event ρ)) (doing : Nat → Option (Doing ρ)) : Prop where
  ids : ∀ e ∈ log, e.id < segs.length
  working : ∀ w d, doing w = some d → d.By w log
  ready : ∀ (id : Nat) (seg : Segment), segs[id]? = some seg → seg.state = .ready →
    Delivered P log id seg

section

variable {P : Segment → Transfer ρ → Prop} {segs segs' : List Segment}
  {log : List (Event ρ)} {doing doing' : Nat → Option (Doing ρ)} {d : Doing ρ}
  {w : Nat} {x : What ρ}

/-- Events about other segments are not of this work. -/
theorem Doing.By.append {e : Event ρ} (h : d.By w log) (he : e.id ≠ d.id) :
    d.By w (log ++ [e]) := by
  obtain ⟨hcl, hall, ht⟩ := h
  refine ⟨List.mem_append_left _ hcl, ?_, ?_⟩
  · intro e' he' hid
    rcases List.mem_append.mp he' with hold | hnew
    · exact hall e' hold hid
    · rw [List.mem_singleton.mp hnew] at hid
      exact absurd hid he
  · rw [lastTransfer_of_ne he]
    exact ht

theorem logInv_start (h : ∀ w, doing w = none) : LogInv P [] [] doing where
  ids _ he := nomatch he
  working w d hd := by rw [h w] at hd; exact nomatch hd
  ready _ _ h := nomatch h

/-- No event: the worker goes on with its segment or lets it go. -/
theorem LogInv.quiet (h : LogInv P segs log doing)
    (hother : ∀ v, v ≠ w → doing' v = doing v)
    (hw : ∀ d', doing' w = some d' → ∃ d, doing w = some d ∧ d'.id = d.id ∧
      d'.start = d.start ∧ d'.stop = d.stop ∧ ∀ t, d.ok t → d'.ok t) :
    LogInv P segs log doing' := by
  refine ⟨h.ids, ?_, h.ready⟩
  intro v d' hv
  by_cases hvw : v = w
  · subst hvw
    obtain ⟨d, hd, hid, hstart, hstop, hok⟩ := hw d' hv
    obtain ⟨hcl, hall, ht⟩ := h.working v d hd
    refine ⟨?_, ?_, ?_⟩
    · rw [hid, hstart, hstop]; exact hcl
    · rw [hid]; exact hall
    · rw [hid]; exact hok _ ht
  · rw [hother v hvw] at hv
    exact h.working v d' hv

/-- The worker logs an event about its segment. -/
theorem LogInv.event {ok' : Option (Transfer ρ) → Prop}
    (h : LogInv P segs log doing) (hd : doing w = some d)
    (hx : x ≠ .ready) (hother : ∀ v, v ≠ w → doing' v = doing v)
    (hw : doing' w = some { d with ok := ok' })
    (hids : ∀ v d', v ≠ w → doing v = some d' → d'.id ≠ d.id)
    (hseg : ∃ seg, segs[d.id]? = some seg ∧ seg.state = .downloading)
    (hok : ∀ t, d.ok t → ok' (Transfer.next t x)) :
    LogInv P segs (log ++ [⟨w, d.id, x⟩]) doing' := by
  obtain ⟨seg, hget, hstate⟩ := hseg
  obtain ⟨hcl, hall, ht⟩ := h.working w d hd
  refine ⟨?_, ?_, ?_⟩
  · intro e he
    rcases List.mem_append.mp he with hold | hnew
    · exact h.ids e hold
    · rw [List.mem_singleton.mp hnew]
      exact (List.getElem?_eq_some_iff.mp hget).1
  · intro v dv hv
    by_cases hvw : v = w
    · subst hvw
      rw [hw] at hv
      cases hv
      refine ⟨List.mem_append_left _ hcl, ?_, ?_⟩
      · intro e he hid
        rcases List.mem_append.mp he with hold | hnew
        · exact hall e hold hid
        · rw [List.mem_singleton.mp hnew]
          exact ⟨rfl, hx⟩
      · show ok' (lastTransfer d.id _)
        rw [lastTransfer_self]
        exact hok _ ht
    · rw [hother v hvw] at hv
      -- the others' segments have other ids, so their transfers stay
      exact (h.working v dv hv).append (Ne.symm (hids v dv hvw hv))
  · intro id sg hsg hready
    refine (h.ready id sg hsg hready).append ?_
    intro hid
    have hid : d.id = id := hid
    subst hid
    rw [hget] at hsg
    cases hsg
    -- the segment of the event is not ready
    rw [hstate] at hready
    exact nomatch hready

/-- A claim: a new segment and its first event. -/
theorem LogInv.claimed (h : LogInv P segs log doing) {a z : Nat}
    (hother : ∀ v, v ≠ w → doing' v = doing v)
    (hids : ∀ v d', v ≠ w → doing v = some d' → d'.id < segs.length)
    (hw : doing' w = some ⟨segs.length, a, z, fun _ => True⟩) :
    LogInv P (segs ++ [⟨a, z, .downloading⟩])
      (log ++ [⟨w, segs.length, .claimed a z⟩]) doing' := by
  refine ⟨?_, ?_, ?_⟩
  · intro e he
    rw [List.length_append, List.length_singleton]
    rcases List.mem_append.mp he with hold | hnew
    · have := h.ids e hold
      omega
    · rw [List.mem_singleton.mp hnew]
      show segs.length < segs.length + 1
      omega
  · intro v dv hv
    by_cases hvw : v = w
    · subst hvw
      rw [hw] at hv
      cases hv
      refine ⟨List.mem_append_right _ (List.mem_singleton_self _), ?_, trivial⟩
      intro e he hid
      rcases List.mem_append.mp he with hold | hnew
      · exact absurd hid (Nat.ne_of_lt (h.ids e hold))
      · rw [List.mem_singleton.mp hnew]
        exact ⟨rfl, nofun⟩
    · rw [hother v hvw] at hv
      exact (h.working v dv hv).append (Nat.ne_of_gt (hids v dv hvw hv))
  · intro id sg hsg hready
    by_cases hid : id = segs.length
    · subst hid
      rw [List.getElem?_append_right (Nat.le_refl _), Nat.sub_self] at hsg
      cases hsg
      exact nomatch hready
    · have hlt := (List.getElem?_eq_some_iff.mp hsg).1
      rw [List.length_append, List.length_singleton] at hlt
      rw [List.getElem?_append_left (by omega)] at hsg
      exact (h.ready id sg hsg hready).append (fun he => hid (Eq.symm he))

/-- The segment is marked ready: if its last transfer is good, it has been
    delivered. -/
theorem LogInv.marked (h : LogInv P segs log doing) (hd : doing w = some d)
    (hother : ∀ v, v ≠ w → doing' v = doing v) (hw : doing' w = none)
    (hids : ∀ v d', v ≠ w → doing v = some d' → d'.id ≠ d.id)
    (hself : segs[d.id]? = some ⟨d.start, d.stop, .downloading⟩)
    (hself' : segs'[d.id]? = some ⟨d.start, d.stop, .ready⟩)
    (hlen : segs'.length = segs.length) (hsegs : ∀ i, i ≠ d.id → segs'[i]? = segs[i]?)
    (hok : ∀ t, d.ok t → ∃ t', t = some t' ∧ P ⟨d.start, d.stop, .ready⟩ t') :
    LogInv P segs' (log ++ [⟨w, d.id, .ready⟩]) doing' := by
  obtain ⟨hcl, hall, ht⟩ := h.working w d hd
  refine ⟨?_, ?_, ?_⟩
  · intro e he
    rw [hlen]
    rcases List.mem_append.mp he with hold | hnew
    · exact h.ids e hold
    · rw [List.mem_singleton.mp hnew]
      exact (List.getElem?_eq_some_iff.mp hself).1
  · intro v dv hv
    by_cases hvw : v = w
    · rw [hvw, hw] at hv
      exact nomatch hv
    · rw [hother v hvw] at hv
      exact (h.working v dv hv).append (Ne.symm (hids v dv hvw hv))
  · intro id sg hsg hready
    by_cases hid : id = d.id
    · subst hid
      rw [hself'] at hsg
      cases hsg
      -- the transfer that this log ends with is the one that is marked
      obtain ⟨t, hlast, hP⟩ := hok _ ht
      exact ⟨w, log, [], t, rfl, hcl, hall, nofun, hlast, hP⟩
    · rw [hsegs id hid] at hsg
      exact (h.ready id sg hsg hready).append (fun he => hid (Eq.symm he))

end

end BlitzTransfers
