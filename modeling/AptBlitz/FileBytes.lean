import AptBlitz.Clients
import AptBlitz.Library.WrittenBytes

/-! # The bytes in the file

    The log tells which bytes the workers wrote and where; the backing file is
    what the streams read and the cache keeps.  `FileInv` ties the two: the
    file is what the writes in the log make of the file there was at first.
    Segments that were given up are left out, for a write that fails may have
    gone half its way.

    It is proved for any client whose steps write as `FileStep` says. -/

namespace BlitzFileBytes

open BlitzBuffer SegmentsBuffer BlitzClaims BlitzTransfers BlitzClients WrittenBytes Tiling

variable {ρ P : Type} {C : Client ρ P} {Good : Segment → Transfer ρ → Prop}
  {s s' : Snap ρ P} {b : SegmentsBuffer} {w totalSize id off x : Nat} {pc : P} {y : Doing ρ}
  {seg : Segment} {t : Transfer ρ} {file₀ data : Bytes} {log : List (Event ρ)} {e : Event ρ}

/-! ## The writes of a log -/

/-- The write that an event tells of. -/
def Event.write (e : Event ρ) : Option (Nat × Bytes) :=
  match e.what with
  | .wrote offset data => some (offset, data)
  | _ => none

/-- All writes, in order. -/
def writes (log : List (Event ρ)) : List (Nat × Bytes) := log.filterMap Event.write

/-- The write that an event about segment `id` tells of. -/
def writeOf (id : Nat) (e : Event ρ) : Option (Nat × Bytes) :=
  if e.id = id then Event.write e else none

/-- The writes for one segment, in order. -/
def writesOf (id : Nat) (log : List (Event ρ)) : List (Nat × Bytes) :=
  log.filterMap (writeOf id)

theorem writes_snoc : writes (log ++ [e]) = writes log ++ (Event.write e).toList := by
  rw [writes]
  rw [List.filterMap_append]
  rfl

theorem writesOf_snoc : writesOf id (log ++ [e]) = writesOf id log ++ (writeOf id e).toList := by
  rw [writesOf]
  rw [List.filterMap_append]
  rfl

/-- The writes of the last transfer are the last writes for the segment. -/
theorem writesOf_lastTransfer (h : lastTransfer id log = some t) :
    ∃ before, writesOf id log = before ++ t.writes := by
  induction log using List.reverseRecOn generalizing t with
  | nil => cases h
  | append_singleton log e ih =>
      rw [writesOf_snoc]
      by_cases hid : e.id = id
      · subst hid
        rw [lastTransfer_self] at h
        rw [writeOf, if_pos rfl, Event.write]
        cases hw : e.what with
        | opened head =>
            rw [hw] at h
            cases h
            exact ⟨writesOf e.id log, rfl⟩
        | _ =>
            -- the others go on with the transfer there is
            rw [hw] at h
            cases hlast : lastTransfer e.id log with
            | none =>
                rw [hlast] at h
                cases h
            | some t₀ =>
                rw [hlast] at h
                cases h
                obtain ⟨before, hbefore⟩ := ih hlast
                refine ⟨before, ?_⟩
                rw [hbefore, List.append_assoc]
                simp
      · rw [lastTransfer_of_ne hid] at h
        rw [writeOf, if_neg hid]
        obtain ⟨before, hbefore⟩ := ih h
        exact ⟨before, by rw [hbefore]; exact List.append_nil _⟩

/-! ## The segments that count -/

/-- Segment `id` is ready, or somebody fills it. -/
def Live (C : Client ρ P) (s : Snap ρ P) (id : Nat) (seg : Segment) : Prop :=
  s.buf.segments[id]? = some seg ∧
    (seg.state = .ready ∨ ∃ v y, C.doing (s.workers v) = some y ∧ y.id = id)

/-- `x` lies in a segment that was given up. -/
def GivenUp (C : Client ρ P) (s : Snap ρ P) (x : Nat) : Prop :=
  ∃ id seg, s.buf.segments[id]? = some seg ∧ seg.start ≤ x ∧ x < seg.end ∧ ¬ Live C s id seg

/-- No segment is filled by a worker that was not filling it before. -/
theorem Live.of_put (h : Live C (s.put b w pc) id seg)
    (hsegs : b.segments = s.buf.segments)
    (hpc : ∀ y', C.doing pc = some y' →
      ∃ y, C.doing (s.workers w) = some y ∧ y'.id = y.id) : Live C s id seg := by
  obtain ⟨hseg, hlive⟩ := h
  have hseg : b.segments[id]? = some seg := hseg
  rw [hsegs] at hseg
  refine ⟨hseg, hlive.imp_right ?_⟩
  rintro ⟨v, y', hy', hid⟩
  have hy' : filling C (Function.update s.workers w pc) v = some y' := hy'
  by_cases hv : v = w
  · subst hv
    rw [filling_self rfl] at hy'
    obtain ⟨y, hy, hsame⟩ := hpc y' hy'
    exact ⟨v, y, hy, hsame.symm.trans hid⟩
  · rw [filling_other v hv] at hy'
    exact ⟨v, y', hy', hid⟩

/-- A worker that lets go fills nothing. -/
theorem Live.of_idle (h : Live C (s.put b w pc) id seg)
    (hsegs : b.segments = s.buf.segments) (hidle : C.doing pc = none) : Live C s id seg :=
  h.of_put hsegs fun _ hy => absurd (hidle.symm.trans hy) nofun

/-- **Live segments** were live before, unless they are new. -/
theorem Effect.live (hb : BufferInv totalSize (s.view C)) (h : Effect C Good s w s')
    (hlt : id < s.buf.segments.length) (hlive : Live C s' id seg) : ∃ seg₀, Live C s id seg₀ := by
  cases h with
  | quiet _ hdoing =>
      refine ⟨seg, hlive.of_put rfl ?_⟩
      intro y' hy'
      obtain ⟨y, hy, hid, -⟩ := hdoing y' hy'
      exact ⟨y, hy, hid⟩
  | dropped _ hidle => exact ⟨seg, hlive.of_idle rfl (doing_none_of_idle hidle)⟩
  | exhausted _ hcas hidle =>
      rcases claimCas_none hcas with rfl | ⟨rfl, -⟩
      · exact ⟨seg, hlive.of_idle rfl (doing_none_of_idle hidle)⟩
      · exact ⟨seg, hlive.of_idle rfl (doing_none_of_idle hidle)⟩
  | cas _ hcas hcall =>
      obtain ⟨rfl, -⟩ := claimCas_some hcas
      have hnone := doing_none fun _ _ _ hc => nomatch hcall.symm.trans hc
      exact ⟨seg, hlive.of_idle rfl hnone⟩
  | @push pc a z hw hdoing =>
      obtain ⟨hseg, hl⟩ := hlive
      have hseg : (s.buf.segments ++ [⟨a, z, .downloading⟩])[id]? = some seg := hseg
      rw [List.getElem?_append_left hlt] at hseg
      refine ⟨seg, hseg, hl.imp_right ?_⟩
      rintro ⟨v, y, hy, rfl⟩
      have hy : filling C (Function.update s.workers w pc) v = some y := hy
      by_cases hv : v = w
      · -- the worker fills the new segment
        subst hv
        rw [filling_self hdoing] at hy
        cases hy
        exact absurd hlt (lt_irrefl _)
      · rw [filling_other v hv] at hy
        exact ⟨v, y, hy, rfl⟩
  | event hw _ hdoing _ =>
      have hl := Live.of_put (s := s) (b := s.buf) (w := w) hlive rfl
      refine ⟨seg, hl fun y' hy' => ⟨_, hw, ?_⟩⟩
      rw [hdoing] at hy'
      cases hy'
      rfl
  | wrote hw _ _ hwrite hdoing _ =>
      obtain ⟨file, rfl⟩ := writeData_file hwrite
      have hl := Live.of_put (s := s) (b := { s.buf with file := file }) (w := w) hlive rfl
      refine ⟨seg, hl fun y' hy' => ⟨_, hw, ?_⟩⟩
      rw [hdoing] at hy'
      cases hy'
      rfl
  | wroteSome _ _ _ hwrite hidle =>
      obtain ⟨file, rfl⟩ := writeData_file hwrite
      exact ⟨seg, hlive.of_idle rfl (doing_none_of_idle hidle)⟩
  | @ready pc y hw hcall _ =>
      have hnone := doing_none fun _ _ _ hc => nomatch hcall.symm.trans hc
      obtain ⟨hseg, hl⟩ := hlive
      have hseg : (s.buf.setReady y.id).segments[id]? = some seg := hseg
      by_cases hid : id = y.id
      · -- the segment that is marked was being filled
        subst hid
        exact ⟨_, seg_of_doing hb hw, Or.inr ⟨w, y, hw, rfl⟩⟩
      · rw [setReady_of_ne hid] at hseg
        exact ⟨seg, Live.of_idle (b := s.buf) (w := w) ⟨hseg, hl⟩ rfl hnone⟩
  | counted _ hidle => exact ⟨seg, hlive.of_idle rfl (doing_none_of_idle hidle)⟩
  | setFailed => exact ⟨seg, hlive⟩

/-- What was given up stays given up. -/
theorem Effect.givenUp (hb : BufferInv totalSize (s.view C)) (h : Effect C Good s w s')
    (hx : GivenUp C s x) : GivenUp C s' x := by
  obtain ⟨id, seg, hseg, hlo, hhi, hdead⟩ := hx
  obtain ⟨seg', hseg', hstart, hend⟩ := h.segment hseg
  refine ⟨id, seg', hseg', by omega, by omega, ?_⟩
  intro hlive
  obtain ⟨seg₀, hlive₀⟩ := Effect.live hb h (List.getElem?_eq_some_iff.mp hseg).1 hlive
  have hsame := Option.some.inj (hlive₀.1.symm.trans hseg)
  exact hdead (hsame ▸ hlive₀)

/-! ## What a step does to the file -/

/-- A step of worker `w` as the file sees it. -/
inductive FileStep (C : Client ρ P) (s : Snap ρ P) (w : Nat) (s' : Snap ρ P) : Prop
  /-- the file stays as it is, and the log tells of no write -/
  | kept (hfile : s'.buf.file = s.buf.file)
      (hlog : s'.log = s.log ∨ ∃ e, Event.write e = none ∧ s'.log = s.log ++ [e])
  /-- a write inside the worker's segment, and the log tells of it -/
  | wrote {y : Doing ρ} {off : Nat} {data : Bytes} (hw : C.doing (s.workers w) = some y)
      (hlo : y.start ≤ off) (hhi : off + data.length ≤ y.stop)
      (hfile : s'.buf.file = FileContent.overwrite 0 s.buf.file off data)
      (hlog : s'.log = s.log ++ [⟨w, y.id, .wrote off data⟩])
  /-- a write inside the worker's segment, which the worker then gives up -/
  | spoilt {y : Doing ρ} {off : Nat} {data : Bytes} (hw : C.doing (s.workers w) = some y)
      (hlo : y.start ≤ off) (hhi : off + data.length ≤ y.stop)
      (hfile : s'.buf.file = FileContent.overwrite 0 s.buf.file off data)
      (hlog : s'.log = s.log) (hsegs : s'.buf.segments = s.buf.segments)
      (hothers : ∀ v, v ≠ w → s'.workers v = s.workers v)
      (hidle : C.doing (s'.workers w) = none)

/-- **The file and the log**: every write was made inside its segment, and at
    every offset that does not lie in a segment given up the file is what the
    writes made of the file there was at first. -/
structure FileInv (C : Client ρ P) (file₀ : Bytes) (s : Snap ρ P) : Prop where
  inside : ∀ e ∈ s.log, ∀ p, Event.write e = some p → ∃ seg, s.buf.segments[e.id]? = some seg ∧
    seg.start ≤ p.1 ∧ p.1 + p.2.length ≤ seg.end
  length_eq : s.buf.file.length = file₀.length
  replayed : ∀ x, ¬ GivenUp C s x → s.buf.file[x]? = (replay 0 file₀ (writes s.log))[x]?

/-- At the start nothing was written. -/
theorem fileInv_start {workers : Nat → P} :
    FileInv C file₀ ⟨SegmentsBuffer.new totalSize file₀, workers, []⟩ where
  inside _ h := nomatch h
  length_eq := rfl
  replayed _ _ := rfl

theorem mem_writes {p : Nat × Bytes} (h : p ∈ writes log) : ∃ e ∈ log, Event.write e = some p :=
  List.mem_filterMap.mp h

/-- Every write stays in the file. -/
theorem FileInv.writes_le (h : FileInv C file₀ s) (hb : BufferInv totalSize (s.view C)) :
    ∀ p ∈ writes s.log, p.1 + p.2.length ≤ file₀.length := by
  intro p hp
  obtain ⟨e, he, hw⟩ := mem_writes hp
  obtain ⟨seg, hseg, -, hhi⟩ := h.inside e he p hw
  have hle : seg.end ≤ s.buf.totalSize := (hb.claims.seg_le hseg).2
  have hlen : s.buf.file.length = s.buf.totalSize := hb.file_len
  rw [← h.length_eq]
  omega

/-- **Step**: the file goes on agreeing with the log. -/
theorem FileInv.step (h : FileInv C file₀ s) (hb : BufferInv totalSize (s.view C))
    (he : Effect C Good s w s') (hf : FileStep C s w s') : FileInv C file₀ s' := by
  have hkeep : ∀ x, ¬ GivenUp C s' x → s.buf.file[x]? = (replay 0 file₀ (writes s.log))[x]? :=
    fun x hx => h.replayed x fun hgiven => hx (Effect.givenUp hb he hgiven)
  have hinside : ∀ e ∈ s.log, ∀ p, Event.write e = some p →
      ∃ seg, s'.buf.segments[e.id]? = some seg ∧ seg.start ≤ p.1 ∧
        p.1 + p.2.length ≤ seg.end := by
    intro e hmem p hp
    obtain ⟨seg, hseg, hlo, hhi⟩ := h.inside e hmem p hp
    obtain ⟨seg', hseg', hstart, hend⟩ := he.segment hseg
    exact ⟨seg', hseg', by omega, by omega⟩
  cases hf with
  | kept hfile hlog =>
      rcases hlog with hsame | ⟨e, hno, hadd⟩
      · refine ⟨hsame ▸ hinside, hfile ▸ h.length_eq, ?_⟩
        rw [hfile, hsame]
        exact hkeep
      · refine ⟨?_, hfile ▸ h.length_eq, ?_⟩
        · rw [hadd]
          intro e' he' p hp
          rcases List.mem_append.mp he' with hold | hnew
          · exact hinside e' hold p hp
          · rw [List.mem_singleton.mp hnew, hno] at hp
            cases hp
        · rw [hfile, hadd, writes_snoc, hno]
          show ∀ x, _ → _ = (replay 0 file₀ (writes s.log ++ []))[x]?
          rw [List.append_nil]
          exact hkeep
  | @wrote y off data hw hlo hhi hfile hadd =>
      have hle := (bounds_of_doing hb hw).2
      have hlen := @length_replay _ 0 file₀ _ (h.writes_le hb)
      have hin : off + data.length ≤ s.buf.file.length := le_trans hhi hle
      refine ⟨?_, ?_, ?_⟩
      · rw [hadd]
        intro e' he' p hp
        rcases List.mem_append.mp he' with hold | hnew
        · exact hinside e' hold p hp
        · rw [List.mem_singleton.mp hnew] at hp ⊢
          cases hp
          obtain ⟨seg', hseg', hstart, hend⟩ := he.segment (seg_of_doing hb hw)
          exact ⟨seg', hseg', hstart.trans_le hlo, hend ▸ hhi⟩
      · rw [hfile, FileContent.length_overwrite hin, h.length_eq]
      · intro x hx
        rw [hfile, hadd, writes_snoc]
        show _ = (replay 0 file₀ (writes s.log ++ [(off, data)]))[x]?
        rw [replay_snoc, FileContent.getElem?_overwrite hin,
          FileContent.getElem?_overwrite (by rw [hlen, ← h.length_eq]; exact hin), hkeep x hx]
  | @spoilt y off data hw hlo hhi hfile hsame hsegs hothers hidle =>
      have hin : off + data.length ≤ s.buf.file.length :=
        le_trans hhi (bounds_of_doing hb hw).2
      refine ⟨hsame ▸ hinside, ?_, ?_⟩
      · rw [hfile, FileContent.length_overwrite hin, h.length_eq]
      · intro x hx
        rw [hfile, hsame, FileContent.getElem?_overwrite_of_outside hin ?_]
        · exact hkeep x hx
        · -- the segment that was written to is given up
          by_contra hwithin
          have hseg' : s'.buf.segments[y.id]? = some ⟨y.start, y.stop, .downloading⟩ := by
            rw [hsegs]
            exact seg_of_doing hb hw
          refine hx ⟨y.id, _, hseg', by show y.start ≤ x; omega,
            by show x < y.stop; omega, ?_⟩
          rintro ⟨-, hready | ⟨v, u, hu, hid⟩⟩
          · cases hready
          · by_cases hv : v = w
            · subst hv
              rw [hidle] at hu
              cases hu
            · rw [hothers v hv] at hu
              exact ids_of_doing hb hw v u hv hu hid

/-! ## The bytes of a segment -/

/-- Segments do not overlap. -/
theorem same_segment (hb : BufferInv totalSize (s.view C)) {i j : Nat} {si sj : Segment}
    (hi : s.buf.segments[i]? = some si) (hj : s.buf.segments[j]? = some sj)
    (hxi : si.start ≤ x ∧ x < si.end) (hxj : sj.start ≤ x ∧ x < sj.end) : i = j := by
  have howner : ∀ {k sk}, s.buf.segments[k]? = some sk →
      owners (s.view C) (.inl k) = some sk.range := by
    intro k sk hk
    show s.buf.ranges[k]? = _
    rw [getElem?_ranges, hk]
    rfl
  exact Sum.inl.inj (hb.claims.tiles.unique _ _ _ _ x (howner hi) (howner hj) hxi hxj)

/-- In a segment only the writes for it matter. -/
theorem FileInv.byteAt_eq (h : FileInv C file₀ s) (hb : BufferInv totalSize (s.view C))
    (hseg : s.buf.segments[id]? = some seg) (hlo : seg.start ≤ x) (hhi : x < seg.end) :
    byteAt (writesOf id s.log) x = byteAt (writes s.log) x := by
  refine byteAt_filterMap fun e he => ?_
  by_cases hid : e.id = id
  · exact Or.inl (if_pos hid)
  · refine Or.inr ⟨if_neg hid, ?_⟩
    rintro p hp hcovers
    obtain ⟨sg, hsg, hplo, hphi⟩ := h.inside e he p hp
    exact hid (same_segment hb hsg hseg ⟨by omega, by omega⟩ ⟨hlo, hhi⟩)

/-- **Bytes of a segment** that is ready or being filled: what its last
    transfer wrote without gap, and behind that, where no other transfer of
    the segment has written, what was in the file at first. -/
theorem FileInv.slice_eq (h : FileInv C file₀ s) (hb : BufferInv totalSize (s.view C))
    (hlive : Live C s id seg) (ht : lastTransfer id s.log = some t) {m : Nat}
    (hchain : Chain seg.start t.ranges m) (hm : m ≤ seg.end)
    (honly : m = seg.end ∨ writesOf id s.log = t.writes) :
    slice s.buf.file seg.start seg.end = t.data ++ slice file₀ m seg.end := by
  have hfile : ∀ x, seg.start ≤ x → x < seg.end →
      s.buf.file[x]? = (byteAt (writesOf id s.log) x).or file₀[x]? := by
    intro x hlo hhi
    rw [h.byteAt_eq hb hlive.1 hlo hhi, h.replayed x ?_]
    · exact getElem?_replay (h.writes_le hb)
    · rintro ⟨i, sg, hsg, hxlo, hxhi, hdead⟩
      have hid : i = id := same_segment hb hsg hlive.1 ⟨hxlo, hxhi⟩ ⟨hlo, hhi⟩
      subst hid
      have hsame := Option.some.inj (hsg.symm.trans hlive.1)
      exact hdead (hsame ▸ hlive)
  have hlen := length_of_chain hchain
  refine slice_of_chain hchain hm ?_ ?_
  · intro x hlo hhi
    have hidx : x - seg.start < (t.writes.flatMap Prod.snd).length := by omega
    have hbyte : byteAt t.writes x = some ((t.writes.flatMap Prod.snd)[x - seg.start]) := by
      rw [byteAt_of_chain hchain hlo, List.getElem?_eq_getElem hidx]
    obtain ⟨before, hbefore⟩ := writesOf_lastTransfer ht
    rw [hfile x hlo (by omega), hbefore, byteAt_append_of_some hbyte, hbyte]
    rfl
  · intro x hlo hhi
    rcases honly with rfl | honly
    · omega
    · rw [hfile x (by omega) hhi, honly, byteAt_of_chain hchain (by omega),
        List.getElem?_eq_none (by omega)]
      rfl

end BlitzFileBytes
