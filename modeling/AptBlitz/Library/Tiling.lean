import Mathlib.Order.Interval.Set.Basic
import Mathlib.Logic.Equiv.Basic

/-! # Half-open ranges: tilings and chains

    A range is a pair `(start, end)` over a linear order, standing for the
    points `start ≤ x < end`.  Two views of a set of ranges that divide
    `[a, b)` between them:

    * `Tiles fam a b` — a family indexed by who owns the range (at most one
      each): nothing empty, no point owned twice, every point of `[a, b)`
      owned and no other.  The order of the owners means nothing.
    * `Chain a l b` — a list of ranges each starting where the one before it
      ended, from `a` to `b`.  The order of the list is the order of points.

    `Tiles.start_of_least` relates them: when part of a tiling is a chain from
    `a` to `e`, the least start outside that part is `e`. -/

namespace Tiling

variable {ι κ α : Type}

/-! ## Chains -/

/-- Each range of the list starts where the one before it ended. -/
def Chain (a : α) : List (α × α) → α → Prop
  | [], b => a = b
  | r :: rs, b => r.1 = a ∧ Chain r.2 rs b

/-- The same, said by positions: the first range starts at `a` and each
    range ends where the next one starts. -/
def Adjacent (a : α) (l : List (α × α)) : Prop :=
  (∀ r, l[0]? = some r → r.1 = a) ∧
    ∀ i r q, l[i]? = some r → l[i + 1]? = some q → r.2 = q.1

section Chain

variable {a b c : α} {l m : List (α × α)} {r : α × α}

/-- A chain in two parts. -/
theorem chain_append :
    Chain a (l ++ m) c ↔ ∃ b, Chain a l b ∧ Chain b m c := by
  induction l generalizing a with
  | nil =>
      constructor
      · intro h; exact ⟨a, rfl, h⟩
      · rintro ⟨b, rfl, h⟩; exact h
  | cons r l ih =>
      constructor
      · rintro ⟨hr, h⟩
        obtain ⟨b, h₁, h₂⟩ := ih.mp h
        exact ⟨b, ⟨hr, h₁⟩, h₂⟩
      · rintro ⟨b, ⟨hr, h₁⟩, h₂⟩
        exact ⟨hr, ih.mpr ⟨b, h₁, h₂⟩⟩

/-- A chain grows by a range that starts where it ends. -/
theorem Chain.snoc (h : Chain a l b) (hr : r.1 = b) :
    Chain a (l ++ [r]) r.2 :=
  chain_append.mpr ⟨b, h, hr, rfl⟩

theorem Chain.end_unique (h₁ : Chain a l b) (h₂ : Chain a l c) : b = c := by
  induction l generalizing a with
  | nil => exact h₁.symm.trans h₂
  | cons r l ih => exact ih h₁.2 h₂.2

/-- The first `k` ranges of a chain are a chain up to where the rest
    starts. -/
theorem Chain.split (h : Chain a l b) (k : ℕ) :
    ∃ e, Chain a (l.take k) e ∧ Chain e (l.drop k) b := by
  rw [← List.take_append_drop k l] at h
  exact chain_append.mp h

/-- The range at a position starts where the ranges before it end. -/
theorem Chain.getElem_start {e : α} {k : ℕ} (h : Chain a l b)
    (he : Chain a (l.take k) e) (hr : l[k]? = some r) : r.1 = e := by
  obtain ⟨e', h₁, h₂⟩ := h.split k
  have hlt : k < l.length := (List.getElem?_eq_some_iff.mp hr).1
  rw [List.drop_eq_getElem_cons hlt,
    (List.getElem?_eq_some_iff.mp hr).2] at h₂
  exact h₂.1.trans (h₁.end_unique he)

/-- One range further. -/
theorem Chain.take_succ {e : α} {k : ℕ} (he : Chain a (l.take k) e)
    (hr : l[k]? = some r) (hre : r.1 = e) :
    Chain a (l.take (k + 1)) r.2 := by
  rw [List.take_add_one, hr]
  exact he.snoc hre

/-- Adjacency by positions is being a chain. -/
theorem adjacent_iff_chain : Adjacent a l ↔ ∃ b, Chain a l b := by
  induction l generalizing a with
  | nil =>
      constructor
      · intro _; exact ⟨a, rfl⟩
      · intro _
        exact ⟨by simp, by simp⟩
  | cons r l ih =>
      constructor
      · rintro ⟨h0, hs⟩
        -- the pairs of the rest are the later pairs of the whole
        have hrest : Adjacent r.2 l := by
          refine ⟨?_, ?_⟩
          · intro q hq
            exact (hs 0 r q rfl (by simpa using hq)).symm
          · intro i p q hp hq
            exact hs (i + 1) p q (by simpa using hp) (by simpa using hq)
        obtain ⟨b, hb⟩ := ih.mp hrest
        exact ⟨b, h0 r rfl, hb⟩
      · rintro ⟨b, hr, hb⟩
        obtain ⟨h0, hs⟩ := ih.mpr ⟨b, hb⟩
        refine ⟨?_, ?_⟩
        · intro q hq
          have : r = q := by simpa using hq
          exact this ▸ hr
        · intro i p q hp hq
          cases i with
          | zero =>
              have hpr : r = p := by simpa using hp
              subst hpr
              exact (h0 q (by simpa using hq)).symm
          | succ i =>
              exact hs i p q (by simpa using hp) (by simpa using hq)

variable [LinearOrder α]

/-- A chain goes upwards. -/
theorem Chain.le (h : Chain a l b) (hp : ∀ r ∈ l, r.1 < r.2) : a ≤ b := by
  induction l generalizing a with
  | nil => exact le_of_eq h
  | cons r l ih =>
      have hr := hp r List.mem_cons_self
      have := ih h.2 (fun q hq => hp q (List.mem_cons_of_mem _ hq))
      exact h.1 ▸ le_trans hr.le this

/-- A chain from `a` to `b` covers the points from `a` to `b`. -/
theorem Chain.covers (h : Chain a l b) (hp : ∀ r ∈ l, r.1 < r.2) (x : α) :
    x ∈ Set.Ico a b ↔ ∃ r ∈ l, x ∈ Set.Ico r.1 r.2 := by
  induction l generalizing a with
  | nil =>
      have hab : a = b := h
      subst hab
      simp
  | cons r l ih =>
      have hp' : ∀ q ∈ l, q.1 < q.2 := fun q hq =>
        hp q (List.mem_cons_of_mem _ hq)
      have hle : r.2 ≤ b := Chain.le h.2 hp'
      have hr := hp r List.mem_cons_self
      have hstart : r.1 = a := h.1
      constructor
      · intro hx
        by_cases hxr : x < r.2
        · exact ⟨r, List.mem_cons_self, hstart ▸ hx.1, hxr⟩
        · obtain ⟨q, hq, hxq⟩ := (ih h.2 hp').mp ⟨not_lt.mp hxr, hx.2⟩
          exact ⟨q, List.mem_cons_of_mem _ hq, hxq⟩
      · rintro ⟨q, hq, hxq⟩
        rcases List.mem_cons.mp hq with heq | hmem
        · subst heq
          exact ⟨hstart ▸ hxq.1, lt_of_lt_of_le hxq.2 hle⟩
        · have hin := (ih h.2 hp').mpr ⟨q, hmem, hxq⟩
          exact ⟨hstart ▸ le_trans hr.le hin.1, hin.2⟩

/-- No range goes beyond the end. -/
theorem Chain.mem_le (h : Chain a l b) (hp : ∀ r ∈ l, r.1 < r.2)
    (hr : r ∈ l) : r.2 ≤ b := by
  by_contra hlt
  -- otherwise `b` would be a point of `r`, hence one before `b`
  have hin : b ∈ Set.Ico a b := by
    have hs := (h.covers hp r.1).mpr ⟨r, hr, le_refl _, hp r hr⟩
    exact (h.covers hp b).mpr ⟨r, hr, hs.2.le, lt_of_not_ge hlt⟩
  exact absurd hin.2 (lt_irrefl b)

/-- Of two ranges of a chain the earlier one ends before the later one
    starts. -/
theorem Chain.pos_le {q : α × α} {i j : ℕ} (h : Chain a l b)
    (hp : ∀ r ∈ l, r.1 < r.2) (hi : l[i]? = some r) (hj : l[j]? = some q)
    (hij : i < j) : r.2 ≤ q.1 := by
  obtain ⟨e, he, -⟩ := h.split j
  have hmem : r ∈ l.take j := by
    refine List.mem_of_getElem? (i := i) ?_
    rw [List.getElem?_take, if_pos hij, hi]
  rw [h.getElem_start he hj]
  exact he.mem_le (fun q hq => hp q (List.mem_of_mem_take hq)) hmem

end Chain

/-! ## Tilings -/

variable [LinearOrder α]

/-- The family of ranges `fam` divides `[a, b)` between its indices. -/
structure Tiles (fam : ι → Option (α × α)) (a b : α) : Prop where
  proper : ∀ i r, fam i = some r → r.1 < r.2
  unique : ∀ i j r q x, fam i = some r → fam j = some q →
    x ∈ Set.Ico r.1 r.2 → x ∈ Set.Ico q.1 q.2 → i = j
  covers : ∀ x, x ∈ Set.Ico a b ↔ ∃ i r, fam i = some r ∧ x ∈ Set.Ico r.1 r.2

namespace Tiles

variable {fam : ι → Option (α × α)} {a b c : α}

/-- Nobody owns anything: the empty tiling. -/
theorem empty (h : ∀ i, fam i = none) : Tiles fam a a where
  proper i r hi := by rw [h i] at hi; exact nomatch hi
  unique i _ r _ _ hi := by rw [h i] at hi; exact nomatch hi
  covers x := by
    constructor
    · intro hx
      exact absurd (lt_of_le_of_lt hx.1 hx.2) (lt_irrefl a)
    · rintro ⟨i, r, hi, -⟩
      rw [h i] at hi
      exact nomatch hi

/-- A range of a tiling of `[a, b)` lies inside `[a, b)`. -/
theorem within (h : Tiles fam a b) {i : ι} {r : α × α} (hi : fam i = some r) :
    a ≤ r.1 ∧ r.2 ≤ b := by
  have hr := h.proper i r hi
  have hstart := (h.covers r.1).mpr ⟨i, r, hi, le_refl _, hr⟩
  refine ⟨hstart.1, ?_⟩
  by_contra hlt
  -- otherwise `b` itself would be a point of `r`
  have hb : b ∈ Set.Ico r.1 r.2 := ⟨hstart.2.le, lt_of_not_ge hlt⟩
  exact absurd ((h.covers b).mpr ⟨i, r, hi, hb⟩).2 (lt_irrefl b)

/-- An index that owned nothing takes the next range, from `b` to `c`. -/
theorem extend [DecidableEq ι] (h : Tiles fam a b) {i : ι}
    (hi : fam i = none) (hab : a ≤ b) (hbc : b < c) :
    Tiles (Function.update fam i (some (b, c))) a c := by
  have hold : ∀ {j r}, j ≠ i →
      (Function.update fam i (some (b, c)) j = some r ↔ fam j = some r) := by
    intro j r hj
    rw [Function.update_of_ne hj]
  refine ⟨?_, ?_, ?_⟩
  · intro j r hj
    by_cases hji : j = i
    · subst hji
      rw [Function.update_self] at hj
      cases hj
      exact hbc
    · exact h.proper j r ((hold hji).mp hj)
  · intro j k r q x hj hk hxr hxq
    -- the old ranges end where the new one begins
    by_cases hji : j = i <;> by_cases hki : k = i
    · rw [hji, hki]
    · subst hji
      rw [Function.update_self] at hj
      cases hj
      have := (h.within ((hold hki).mp hk)).2
      exact absurd (lt_of_lt_of_le hxq.2 this) (not_lt.mpr hxr.1)
    · subst hki
      rw [Function.update_self] at hk
      cases hk
      have := (h.within ((hold hji).mp hj)).2
      exact absurd (lt_of_lt_of_le hxr.2 this) (not_lt.mpr hxq.1)
    · exact h.unique j k r q x ((hold hji).mp hj) ((hold hki).mp hk) hxr hxq
  · intro x
    constructor
    · intro hx
      by_cases hxb : x < b
      · obtain ⟨j, r, hj, hxr⟩ := (h.covers x).mp ⟨hx.1, hxb⟩
        have hji : j ≠ i := by
          intro he
          rw [he, hi] at hj
          exact nomatch hj
        exact ⟨j, r, (hold hji).mpr hj, hxr⟩
      · exact ⟨i, (b, c), Function.update_self .., not_lt.mp hxb, hx.2⟩
    · rintro ⟨j, r, hj, hxr⟩
      by_cases hji : j = i
      · subst hji
        rw [Function.update_self] at hj
        cases hj
        exact ⟨le_trans hab hxr.1, hxr.2⟩
      · have hin := (h.covers x).mpr ⟨j, r, (hold hji).mp hj, hxr⟩
        exact ⟨hin.1, lt_trans hin.2 hbc⟩

/-- Renaming the owners keeps a tiling. -/
theorem rename (h : Tiles fam a b) (σ : κ ≃ ι) :
    Tiles (fun k => fam (σ k)) a b where
  proper k r hk := h.proper (σ k) r hk
  unique k l r q x hk hl hxr hxq :=
    σ.injective (h.unique (σ k) (σ l) r q x hk hl hxr hxq)
  covers x := by
    rw [h.covers x]
    constructor
    · rintro ⟨i, r, hi, hx⟩
      exact ⟨σ.symm i, r, by simpa using hi, hx⟩
    · rintro ⟨k, r, hk, hx⟩
      exact ⟨σ k, r, hk, hx⟩

/-- A range changes hands: from `i` to `j`, who owned nothing. -/
theorem move [DecidableEq ι] (h : Tiles fam a b) {i j : ι} (hj : fam j = none) :
    Tiles (Function.update (Function.update fam i none) j (fam i)) a b := by
  have hswap : Function.update (Function.update fam i none) j (fam i)
      = fun k => fam (Equiv.swap i j k) := by
    funext k
    by_cases hkj : k = j
    · subst hkj
      rw [Function.update_self, Equiv.swap_apply_right]
    · rw [Function.update_of_ne hkj]
      by_cases hki : k = i
      · subst hki
        rw [Function.update_self, Equiv.swap_apply_left, hj]
      · rw [Function.update_of_ne hki, Equiv.swap_apply_of_ne_of_ne hki hkj]
  rw [hswap]
  exact h.rename (Equiv.swap i j)

end Tiles

/-! ## A tiling part of which is a chain -/

section Part

variable {fam : ι → Option (α × α)} {a b e : α} {l : List (α × α)}
  {listed : ι → Prop}

/-- Outside the chained part every range starts at its end or later. -/
theorem Tiles.unlisted_ge (h : Tiles fam a b) (hc : Chain a l e)
    (hl : ∀ r, r ∈ l ↔ ∃ i, listed i ∧ fam i = some r) {j : ι} {r : α × α}
    (hj : ¬ listed j) (hr : fam j = some r) : e ≤ r.1 := by
  have hp : ∀ q ∈ l, q.1 < q.2 := by
    intro q hq
    obtain ⟨i, -, hi⟩ := (hl q).mp hq
    exact h.proper i q hi
  by_contra hlt
  have hin : r.1 ∈ Set.Ico a e := ⟨(h.within hr).1, lt_of_not_ge hlt⟩
  obtain ⟨q, hq, hxq⟩ := (hc.covers hp r.1).mp hin
  obtain ⟨i, hi, hfi⟩ := (hl q).mp hq
  have hij := h.unique i j q r r.1 hfi hr hxq ⟨le_refl _, h.proper j r hr⟩
  exact hj (hij ▸ hi)

/-- While the chained part is not everything, some range outside it starts
    exactly where it ends. -/
theorem Tiles.exists_unlisted_start (h : Tiles fam a b) (hc : Chain a l e)
    (hl : ∀ r, r ∈ l ↔ ∃ i, listed i ∧ fam i = some r) (he : e < b) :
    ∃ j r, ¬ listed j ∧ fam j = some r ∧ r.1 = e := by
  have hp : ∀ q ∈ l, q.1 < q.2 := by
    intro q hq
    obtain ⟨i, -, hi⟩ := (hl q).mp hq
    exact h.proper i q hi
  obtain ⟨j, r, hr, hx⟩ := (h.covers e).mp ⟨hc.le hp, he⟩
  have hj : ¬ listed j := by
    intro hlj
    have := hc.mem_le hp ((hl r).mpr ⟨j, hlj, hr⟩)
    exact absurd hx.2 (not_lt.mpr this)
  exact ⟨j, r, hj, hr, le_antisymm hx.1 (h.unlisted_ge hc hl hj hr)⟩

/-- A least start outside the chained part is the chain's end. -/
theorem Tiles.start_of_least (h : Tiles fam a b) (hc : Chain a l e)
    (hl : ∀ r, r ∈ l ↔ ∃ i, listed i ∧ fam i = some r) {j : ι} {r : α × α}
    (hj : ¬ listed j) (hr : fam j = some r)
    (hleast : ∀ k q, ¬ listed k → fam k = some q → r.1 ≤ q.1) : r.1 = e := by
  have hge := h.unlisted_ge hc hl hj hr
  have hlt : e < b :=
    lt_of_le_of_lt hge (lt_of_lt_of_le (h.proper j r hr) (h.within hr).2)
  obtain ⟨k, q, hk, hq, hqe⟩ := h.exists_unlisted_start hc hl hlt
  exact le_antisymm (hqe ▸ hleast k q hk hq) hge

end Part

end Tiling
