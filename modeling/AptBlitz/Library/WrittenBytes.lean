import Mathlib.Algebra.BigOperators.Group.Finset.Basic
import Mathlib.Algebra.Ring.Nat
import Mathlib.Data.List.Induction
import Mathlib.Order.Interval.Finset.Nat
import AptBlitz.Library.FileContent
import AptBlitz.Library.Tiling

/-! # What a list of writes leaves in a file

    Writes are positional: each brings some bytes and the offset of the first
    of them.  `replay` makes them one after the other; `byteAt` is the byte
    they leave at an offset, the last write there deciding, and
    `getElem?_replay` says that this is what a reader finds.

    The rules about `byteAt` are for telling the writes that matter at an
    offset from those that do not; writes that follow each other without gap
    leave the concatenation of their bytes (`byteAt_of_chain`). -/

namespace WrittenBytes

open FileContent Tiling

variable {β : Type}

/-- The offsets of a write, as a half-open range. -/
def range (w : Nat × List β) : Nat × Nat := (w.1, w.1 + w.2.length)

/-- The content of `f` after the writes. -/
def replay (zero : β) (f : List β) (ws : List (Nat × List β)) : List β :=
  ws.foldl (fun f w => overwrite zero f w.1 w.2) f

/-- What one write makes of the byte at `x`. -/
def put (x : Nat) (o : Option β) (w : Nat × List β) : Option β :=
  if w.1 ≤ x ∧ x < w.1 + w.2.length then w.2[x - w.1]? else o

/-- The byte that the writes leave at `x`, if any of them goes there. -/
def byteAt (ws : List (Nat × List β)) (x : Nat) : Option β :=
  ws.foldl (put x) none

/-- The bytes of `f` at the offsets from `a` up to `z`. -/
def slice (f : List β) (a z : Nat) : List β := (f.drop a).take (z - a)

variable {zero : β} {f g : List β} {ws vs : List (Nat × List β)} {w : Nat × List β}
  {x off a z m : Nat} {b : β}

/-! ## Replaying -/

theorem replay_snoc : replay zero f (ws ++ [w]) = overwrite zero (replay zero f ws) w.1 w.2 := by
  rw [replay]
  rw [List.foldl_append]
  rfl

/-- Writes inside a file keep its length. -/
theorem length_replay (h : ∀ w ∈ ws, w.1 + w.2.length ≤ f.length) :
    (replay zero f ws).length = f.length := by
  induction ws using List.reverseRecOn with
  | nil => rfl
  | append_singleton ws w ih =>
      have hold := ih fun v hv => h v (List.mem_append_left _ hv)
      have hw := h w (List.mem_append_right _ (List.mem_singleton_self w))
      rw [replay_snoc, length_overwrite (by omega), hold]

theorem byteAt_snoc : byteAt (ws ++ [w]) x = put x (byteAt ws x) w := by
  rw [byteAt]
  rw [List.foldl_append]
  rfl

theorem put_inside {o : Option β} (h : w.1 ≤ x ∧ x < w.1 + w.2.length) :
    put x o w = w.2[x - w.1]? := if_pos h

theorem put_outside {o : Option β} (h : ¬ (w.1 ≤ x ∧ x < w.1 + w.2.length)) :
    put x o w = o := if_neg h

/-- **Replay**: a reader finds the byte of the last write, or the byte that
    was there. -/
theorem getElem?_replay (h : ∀ w ∈ ws, w.1 + w.2.length ≤ f.length) :
    (replay zero f ws)[x]? = (byteAt ws x).or f[x]? := by
  induction ws using List.reverseRecOn with
  | nil => rfl
  | append_singleton ws w ih =>
      have hlen := @length_replay β zero f ws fun v hv => h v (List.mem_append_left _ hv)
      have hw := h w (List.mem_append_right _ (List.mem_singleton_self w))
      rw [replay_snoc, byteAt_snoc, getElem?_overwrite (by omega)]
      by_cases hx : w.1 ≤ x ∧ x < w.1 + w.2.length
      · have hlt : x - w.1 < w.2.length := by omega
        rw [if_pos hx, put_inside hx, List.getElem?_eq_getElem hlt]
        rfl
      · rw [if_neg hx, put_outside hx]
        exact ih fun v hv => h v (List.mem_append_left _ hv)

/-! ## The writes that matter at an offset -/

/-- The writes that go elsewhere may be left out. -/
theorem byteAt_filterMap {α : Type} {g g' : α → Option (Nat × List β)} {l : List α}
    (h : ∀ e ∈ l, g' e = g e ∨
      g' e = none ∧ ∀ w, g e = some w → ¬ (w.1 ≤ x ∧ x < w.1 + w.2.length)) :
    byteAt (l.filterMap g') x = byteAt (l.filterMap g) x := by
  induction l using List.reverseRecOn with
  | nil => rfl
  | append_singleton l e ih =>
      have hold := ih fun v hv => h v (List.mem_append_left _ hv)
      rw [List.filterMap_append, List.filterMap_append]
      rcases h e (List.mem_append_right _ (List.mem_singleton_self e)) with hsame | ⟨hno, hout⟩
      · cases hg : g e with
        | none =>
            rw [List.filterMap_cons_none (hsame.trans hg), List.filterMap_cons_none hg,
              List.filterMap_nil, List.filterMap_nil, List.append_nil, List.append_nil, hold]
        | some w =>
            rw [List.filterMap_cons_some (hsame.trans hg), List.filterMap_cons_some hg,
              List.filterMap_nil, List.filterMap_nil, byteAt_snoc, byteAt_snoc, hold]
      · rw [List.filterMap_cons_none hno, List.filterMap_nil, List.append_nil, hold]
        cases hg : g e with
        | none => rw [List.filterMap_cons_none hg, List.filterMap_nil, List.append_nil]
        | some w =>
            rw [List.filterMap_cons_some hg, List.filterMap_nil, byteAt_snoc,
              put_outside (hout w hg)]

/-- Later writes decide where they go. -/
theorem byteAt_append_of_some (h : byteAt vs x = some b) : byteAt (ws ++ vs) x = some b := by
  induction vs using List.reverseRecOn generalizing b with
  | nil => cases h
  | append_singleton vs w ih =>
      rw [← List.append_assoc, byteAt_snoc]
      rw [byteAt_snoc] at h
      by_cases hx : w.1 ≤ x ∧ x < w.1 + w.2.length
      · rw [put_inside hx] at h ⊢
        exact h
      · rw [put_outside hx] at h ⊢
        exact ih h

/-! ## Writes without gap -/

/-- The bytes of writes that follow each other are as many as the offsets
    between the ends. -/
theorem length_of_chain (h : Chain a (ws.map range) m) :
    a + (ws.flatMap Prod.snd).length = m := by
  induction ws generalizing a with
  | nil => exact h
  | cons w ws ih =>
      obtain ⟨hstart, hrest⟩ := h
      have hstart : w.1 = a := hstart
      have : w.1 + w.2.length + (ws.flatMap Prod.snd).length = m := ih hrest
      rw [List.flatMap_cons, List.length_append]
      omega

/-- Ranges that follow each other end where the last of them ends. -/
theorem chain_le {ranges : List (Nat × Nat)} (h : Chain a ranges m) (haz : a ≤ z)
    (hle : ∀ r ∈ ranges, r.2 ≤ z) : m ≤ z := by
  induction ranges generalizing a with
  | nil =>
      have ham : a = m := h
      omega
  | cons r ranges ih =>
      exact ih h.2 (hle r List.mem_cons_self) fun q hq => hle q (List.mem_cons_of_mem _ hq)

/-- What writes that follow each other leave is their bytes in order. -/
theorem byteAt_of_chain (h : Chain a (ws.map range) m) (hlo : a ≤ x) :
    byteAt ws x = (ws.flatMap Prod.snd)[x - a]? := by
  induction ws using List.reverseRecOn generalizing m with
  | nil => rfl
  | append_singleton ws w ih =>
      rw [List.map_append] at h
      obtain ⟨k, hk, hstart, -⟩ := chain_append.mp h
      have hstart : w.1 = k := hstart
      have hlen := length_of_chain hk
      rw [byteAt_snoc, List.flatMap_append, List.flatMap_singleton]
      by_cases hw : w.1 ≤ x
      · rw [List.getElem?_append_right (by omega)]
        have hidx : x - a - (ws.flatMap Prod.snd).length = x - w.1 := by omega
        rw [hidx]
        by_cases hin : x < w.1 + w.2.length
        · exact put_inside ⟨hw, hin⟩
        · -- behind the last write there is nothing
          rw [put_outside fun hc => hin hc.2, ih hk, List.getElem?_eq_none (by omega),
            List.getElem?_eq_none (by omega)]
      · rw [put_outside fun hc => hw hc.1, List.getElem?_append_left (by omega)]
        exact ih hk

/-! ## Slices -/

theorem getElem?_slice {i : Nat} : (slice f a z)[i]? = if i < z - a then f[a + i]? else none := by
  rw [slice, List.getElem?_take, List.getElem?_drop]

theorem slice_nil : slice f a a = [] := by
  rw [slice]
  rw [Nat.sub_self, List.take_zero]

/-- The length of a slice inside the file. -/
theorem length_slice (h : z ≤ f.length) : (slice f a z).length = z - a := by
  rw [slice]
  rw [List.length_take, List.length_drop]
  omega

/-- The first `m` bytes of a slice. -/
theorem slice_first (h : m ≤ z - a) : slice f a (a + m) = (slice f a z).take m := by
  rw [slice]
  rw [slice, List.take_take, Nat.add_sub_cancel_left, Nat.min_eq_left h]

/-- Two slices, one behind the other. -/
theorem slice_append (h : a ≤ m) (h' : m ≤ z) : slice f a m ++ slice f m z = slice f a z := by
  have hfront : slice f a m = (slice f a z).take (m - a) := by
    rw [slice]
    rw [slice, List.take_take, Nat.min_eq_left (by omega)]
  have hback : slice f m z = (slice f a z).drop (m - a) := by
    rw [slice]
    rw [slice, List.drop_take, List.drop_drop]
    congr 1
    · omega
    · congr 1
      omega
  rw [hfront, hback, List.take_append_drop]

/-- Slices that follow each other, from the first to the last. -/
theorem flatMap_slice {ranges : List (Nat × Nat)} (h : Chain a ranges z)
    (hproper : ∀ r ∈ ranges, r.1 < r.2) :
    (ranges.flatMap fun r => slice f r.1 r.2) = slice f a z := by
  induction ranges generalizing a with
  | nil =>
      have haz : a = z := h
      rw [haz, slice_nil]
      rfl
  | cons r ranges ih =>
      have hrest : ∀ q ∈ ranges, q.1 < q.2 := fun q hq => hproper q (List.mem_cons_of_mem _ hq)
      have hr := hproper r List.mem_cons_self
      rw [List.flatMap_cons, ih h.2 hrest, ← h.1]
      exact slice_append hr.le (h.2.le hrest)

/-- Two slices are the same if the files are the same there. -/
theorem slice_eq_iff : slice f a z = slice g a z ↔ ∀ x, a ≤ x → x < z → f[x]? = g[x]? := by
  constructor
  · intro h x hlo hhi
    have := congrArg (fun l => l[x - a]?) h
    have hi : x - a < z - a := by omega
    simp only [getElem?_slice, if_pos hi, Nat.add_sub_cancel' hlo] at this
    exact this
  · intro h
    apply List.ext_getElem?
    intro i
    rw [getElem?_slice, getElem?_slice]
    by_cases hi : i < z - a
    · rw [if_pos hi, if_pos hi]
      exact h (a + i) (Nat.le_add_right ..) (by omega)
    · rw [if_neg hi, if_neg hi]

/-- Files of one length are the same if their slices are, for slices that
    cover them. -/
theorem eq_iff_slices {ranges : List (Nat × Nat)} (hlen : f.length = g.length)
    (hcover : ∀ x, x < f.length → ∃ r ∈ ranges, r.1 ≤ x ∧ x < r.2) :
    f = g ↔ ∀ r ∈ ranges, slice f r.1 r.2 = slice g r.1 r.2 := by
  constructor
  · intro h r _
    rw [h]
  · intro h
    apply List.ext_getElem?
    intro x
    by_cases hx : x < f.length
    · obtain ⟨r, hr, hlo, hhi⟩ := hcover x hx
      exact slice_eq_iff.mp (h r hr) x hlo hhi
    · rw [List.getElem?_eq_none (by omega), List.getElem?_eq_none (by omega)]

/-- **Slices after writes**: where writes without gap decide, the slice is
    their bytes; behind them it is the other file's. -/
theorem slice_of_chain (hc : Chain a (ws.map range) m) (hm : m ≤ z)
    (hin : ∀ x, a ≤ x → x < m → f[x]? = byteAt ws x)
    (hbehind : ∀ x, m ≤ x → x < z → f[x]? = g[x]?) :
    slice f a z = ws.flatMap Prod.snd ++ slice g m z := by
  have hlen := length_of_chain hc
  apply List.ext_getElem?
  intro i
  rw [getElem?_slice]
  by_cases hi : a + i < m
  · have hidx : a + i - a = i := Nat.add_sub_cancel_left ..
    rw [if_pos (by omega), List.getElem?_append_left (by omega),
      hin _ (Nat.le_add_right ..) hi, byteAt_of_chain hc (Nat.le_add_right ..), hidx]
  · rw [List.getElem?_append_right (by omega), getElem?_slice]
    by_cases hz : i < z - a
    · rw [if_pos hz, if_pos (by omega), hbehind _ (by omega) (by omega)]
      congr 1
      omega
    · rw [if_neg hz, if_neg (by omega)]

/-! ## Slices of a tiling -/

/-- The ranges of a list that divides `[a, b)` have `b - a` elements. -/
theorem sum_lengths {l : List (ℕ × ℕ)} {a b : ℕ} (h : Tiles (fun i : ℕ => l[i]?) a b) :
    (l.map fun r => r.2 - r.1).sum = b - a := by
  have hat : ∀ {r}, r ∈ l → ∃ i : ℕ, l[i]? = some r := fun hr => List.mem_iff_getElem?.mp hr
  have hnodup : l.Nodup := by
    refine List.nodup_iff_injective_getElem.mpr ?_
    intro i j hij
    have hi : l[i.1]? = some l[i] := List.getElem?_eq_getElem i.2
    have hj : l[j.1]? = some l[i] := (List.getElem?_eq_getElem j.2).trans (congrArg some hij.symm)
    exact Fin.ext (h.unique i.1 j.1 l[i] l[i] l[i].1 hi hj ⟨le_refl _, h.proper _ _ hi⟩
      ⟨le_refl _, h.proper _ _ hi⟩)
  have hdisjoint : (l.toFinset : Set (ℕ × ℕ)).PairwiseDisjoint fun r => Finset.Ico r.1 r.2 := by
    intro r hr q hq hne
    refine Finset.disjoint_left.mpr fun x hxr hxq => hne ?_
    obtain ⟨i, hi⟩ := hat (List.mem_toFinset.mp hr)
    obtain ⟨j, hj⟩ := hat (List.mem_toFinset.mp hq)
    have hij := h.unique i j r q x hi hj (Finset.mem_Ico.mp hxr) (Finset.mem_Ico.mp hxq)
    subst hij
    exact Option.some.inj (hi.symm.trans hj)
  have hcover : l.toFinset.biUnion (fun r => Finset.Ico r.1 r.2) = Finset.Ico a b := by
    ext x
    rw [Finset.mem_biUnion, Finset.mem_Ico]
    constructor
    · rintro ⟨r, hr, hx⟩
      obtain ⟨i, hi⟩ := hat (List.mem_toFinset.mp hr)
      exact (h.covers x).mpr ⟨i, r, hi, Finset.mem_Ico.mp hx⟩
    · intro hx
      obtain ⟨i, r, hi, hxr⟩ := (h.covers x).mp hx
      exact ⟨r, List.mem_toFinset.mpr (List.mem_of_getElem? hi), Finset.mem_Ico.mpr hxr⟩
  calc (l.map fun r => r.2 - r.1).sum
      = ∑ r ∈ l.toFinset, (Finset.Ico r.1 r.2).card := by
        rw [List.sum_toFinset _ hnodup]
        simp only [Nat.card_Ico]
    _ = (l.toFinset.biUnion fun r => Finset.Ico r.1 r.2).card :=
        (Finset.card_biUnion hdisjoint).symm
    _ = b - a := by rw [hcover, Nat.card_Ico]

/-- Slices that divide a part of the file have all its bytes between them. -/
theorem length_flatMap_slice {l : List (ℕ × ℕ)} (h : Tiles (fun i : ℕ => l[i]?) a z)
    (hz : z ≤ f.length) : (l.flatMap fun r => slice f r.1 r.2).length = z - a := by
  rw [List.length_flatMap, ← sum_lengths h]
  refine congrArg List.sum (List.map_congr_left fun r hr => ?_)
  obtain ⟨i, hi⟩ := List.mem_iff_getElem?.mp hr
  exact length_slice ((h.within hi).2.trans hz)

end WrittenBytes
