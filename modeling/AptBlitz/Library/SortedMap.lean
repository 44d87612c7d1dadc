import Mathlib.Algebra.Ring.Nat
import Mathlib.Order.Lattice
import Mathlib.Data.List.Basic
import Mathlib.Data.List.Induction
import Mathlib.Data.List.Pairwise

/-! # Maps in the order of their keys

    A map as the list of its keys and values, in the order of the keys, and
    what becomes of a key when values are put in and changed one after the
    other (`get_upsert`).

    Changes of different keys commute (`upsert_comm`), so the order of the
    changes matters for those of one key only (`collect_perm`).  Where the
    elements are added up under their keys, a key has all of its elements and
    nothing else (`get_groups`). -/

namespace SortedMap

variable {κ V E : Type} [LinearOrder κ]

/-- The value under a key. -/
def get (k : κ) : List (κ × V) → Option V
  | [] => none
  | (k', v) :: m => if k = k' then some v else get k m

/-- The value of a key is put in, or changed. -/
def upsert (f : Option V → V) (k : κ) : List (κ × V) → List (κ × V)
  | [] => [(k, f none)]
  | (k', v) :: m =>
      if k < k' then (k, f none) :: (k', v) :: m
      else if k = k' then (k', f (some v)) :: m
      else (k', v) :: upsert f k m

/-- The keys are in strictly increasing order. -/
def Sorted (m : List (κ × V)) : Prop := m.Pairwise fun a b => a.1 < b.1

/-- One change after the other, for the elements that make one. -/
def collect (change : E → Option (κ × (Option V → V))) (m : List (κ × V)) (es : List E) :
    List (κ × V) :=
  es.foldl (fun m e => match change e with
    | some (k, f) => upsert f k m
    | none => m) m

variable {m : List (κ × V)} {k k' : κ} {v : V} {f g : Option V → V} {es : List E}
  {change : E → Option (κ × (Option V → V))}

theorem mem_upsert {p : κ × V} (h : p ∈ upsert f k m) : p.1 = k ∨ p ∈ m := by
  induction m with
  | nil =>
      rw [upsert, List.mem_singleton] at h
      exact Or.inl (by rw [h])
  | cons q m ih =>
      obtain ⟨k', v⟩ := q
      rw [upsert] at h
      split at h
      next =>
        rcases List.mem_cons.mp h with rfl | h
        · exact Or.inl rfl
        · exact Or.inr h
      next =>
        split at h
        next heq =>
          rcases List.mem_cons.mp h with rfl | h
          · exact Or.inl heq.symm
          · exact Or.inr (List.mem_cons_of_mem _ h)
        next =>
          rcases List.mem_cons.mp h with rfl | h
          · exact Or.inr List.mem_cons_self
          · rcases ih h with hk | hmem
            · exact Or.inl hk
            · exact Or.inr (List.mem_cons_of_mem _ hmem)

/-- An update keeps the order. -/
theorem Sorted.upsert (h : Sorted m) (f : Option V → V) (k : κ) :
    Sorted (upsert f k m) := by
  induction m with
  | nil => exact List.pairwise_singleton _ _
  | cons q m ih =>
      obtain ⟨k', v⟩ := q
      obtain ⟨hhead, htail⟩ := List.pairwise_cons.mp h
      rw [SortedMap.upsert]
      split
      next hlt =>
        refine List.pairwise_cons.mpr ⟨?_, h⟩
        intro p hp
        rcases List.mem_cons.mp hp with rfl | hp
        · exact hlt
        · exact lt_trans hlt (hhead p hp)
      next hnlt =>
        split
        next => exact List.pairwise_cons.mpr ⟨hhead, htail⟩
        next hne =>
          refine List.pairwise_cons.mpr ⟨?_, ih htail⟩
          intro p hp
          rcases mem_upsert hp with hk | hp
          · rw [hk]
            exact lt_of_le_of_ne (not_lt.mp hnlt) (Ne.symm hne)
          · exact hhead p hp

theorem upsert_of_lt (h : k < k') (f : Option V → V) (v : V) (m : List (κ × V)) :
    upsert f k ((k', v) :: m) = (k, f none) :: (k', v) :: m := by
  rw [SortedMap.upsert, if_pos h]

theorem upsert_self (f : Option V → V) (k : κ) (v : V) (m : List (κ × V)) :
    upsert f k ((k, v) :: m) = (k, f (some v)) :: m := by
  rw [SortedMap.upsert, if_neg (lt_irrefl k), if_pos rfl]

theorem upsert_of_gt (h : k' < k) (f : Option V → V) (v : V) (m : List (κ × V)) :
    upsert f k ((k', v) :: m) = (k', v) :: upsert f k m := by
  rw [SortedMap.upsert, if_neg (lt_asymm h), if_neg (ne_of_gt h)]

theorem get_none (h : ∀ p ∈ m, k ≠ p.1) : get k m = none := by
  induction m with
  | nil => rfl
  | cons q m ih =>
      rw [get, if_neg (h q List.mem_cons_self)]
      exact ih fun p hp => h p (List.mem_cons_of_mem _ hp)

/-- What an update leaves under a key. -/
theorem get_upsert (h : Sorted m) (f : Option V → V) (k k' : κ) :
    get k' (upsert f k m) = if k = k' then some (f (get k m)) else get k' m := by
  induction m with
  | nil =>
      show (if k' = k then some (f none) else none) = _
      by_cases hk : k = k'
      · rw [if_pos hk, if_pos hk.symm]
        rfl
      · rw [if_neg hk, if_neg (Ne.symm hk)]
        rfl
  | cons q m ih =>
      obtain ⟨j, v⟩ := q
      obtain ⟨hhead, htail⟩ := List.pairwise_cons.mp h
      rw [SortedMap.upsert]
      split
      next hlt =>
        have hnone : get k ((j, v) :: m) = none := by
          refine get_none ?_
          intro p hp
          rcases List.mem_cons.mp hp with rfl | hp
          · exact ne_of_lt hlt
          · exact ne_of_lt (lt_trans hlt (hhead p hp))
        rw [hnone, get]
        by_cases hk : k = k'
        · rw [if_pos hk, if_pos hk.symm]
        · rw [if_neg hk, if_neg (Ne.symm hk)]
      next hnlt =>
        split
        next heq =>
          subst heq
          rw [get, get, if_pos rfl, get]
          by_cases hk : k = k'
          · rw [if_pos hk, if_pos hk.symm]
          · rw [if_neg hk, if_neg (Ne.symm hk), if_neg (Ne.symm hk)]
        next hne =>
          rw [get, ih htail, get, if_neg hne, get]
          by_cases hj : k' = j
          · rw [if_pos hj, if_pos hj, if_neg]
            rintro rfl
            exact hne hj
          · rw [if_neg hj, if_neg hj]

/-- Updates at two keys may change places. -/
theorem upsert_comm_of_lt (h : k < k') (f g : Option V → V) (m : List (κ × V)) :
    upsert g k' (upsert f k m) = upsert f k (upsert g k' m) := by
  induction m with
  | nil =>
      show upsert g k' [(k, f none)] = upsert f k [(k', g none)]
      rw [upsert_of_gt h, upsert_of_lt h]
      rfl
  | cons q m ih =>
      obtain ⟨j, v⟩ := q
      rcases lt_trichotomy k j with hkj | rfl | hkj
      · rw [upsert_of_lt hkj, upsert_of_gt h]
        rcases lt_trichotomy k' j with hkj' | rfl | hkj'
        · rw [upsert_of_lt hkj', upsert_of_lt h]
        · rw [upsert_self, upsert_of_lt h]
        · rw [upsert_of_gt hkj', upsert_of_lt hkj]
      · rw [upsert_self, upsert_of_gt h, upsert_of_gt h, upsert_self]
      · rw [upsert_of_gt hkj, upsert_of_gt (lt_trans hkj h), upsert_of_gt (lt_trans hkj h),
          upsert_of_gt hkj, ih]

/-- **Different keys commute.** -/
theorem upsert_comm (h : k ≠ k') (f g : Option V → V) (m : List (κ × V)) :
    upsert g k' (upsert f k m) = upsert f k (upsert g k' m) := by
  rcases lt_or_gt_of_ne h with hlt | hgt
  · exact upsert_comm_of_lt hlt f g m
  · exact (upsert_comm_of_lt hgt g f m).symm

/-- Two changes of one key are one. -/
theorem upsert_upsert (f g : Option V → V) (k : κ) (m : List (κ × V)) :
    upsert g k (upsert f k m) = upsert (fun o => g (some (f o))) k m := by
  induction m with
  | nil =>
      show upsert g k [(k, f none)] = _
      rw [upsert_self]
      rfl
  | cons q m ih =>
      obtain ⟨j, v⟩ := q
      rcases lt_trichotomy k j with hkj | rfl | hkj
      · rw [upsert_of_lt hkj, upsert_self, upsert_of_lt hkj]
      · rw [upsert_self, upsert_self, upsert_self]
      · rw [upsert_of_gt hkj, upsert_of_gt hkj, upsert_of_gt hkj, ih]

/-- Changes that come to the same are the same. -/
theorem upsert_congr (h : ∀ o, f o = g o) (k : κ) (m : List (κ × V)) :
    upsert f k m = upsert g k m := by
  rw [funext h]

/-- Collecting keeps the order. -/
theorem Sorted.collect (h : Sorted m) (change : E → Option (κ × (Option V → V))) (es : List E) :
    Sorted (collect change m es) := by
  induction es generalizing m with
  | nil => exact h
  | cons e es ih =>
      refine ih ?_
      dsimp only
      cases change e with
      | none => exact h
      | some p => exact h.upsert p.2 p.1

theorem collect_concat_some {e : E} (h : change e = some (k, f)) (m : List (κ × V)) (es : List E) :
    collect change m (es ++ [e]) = upsert f k (collect change m es) := by
  rw [collect, List.foldl_append, List.foldl_cons, List.foldl_nil, h]
  rfl

theorem collect_concat_none {e : E} (h : change e = none) (m : List (κ × V)) (es : List E) :
    collect change m (es ++ [e]) = collect change m es := by
  rw [collect, List.foldl_append, List.foldl_cons, List.foldl_nil, h]
  rfl

/-- **In any order**: changes of which those of one key commute. -/
theorem collect_perm {es' : List E}
    (h : ∀ e ∈ es, ∀ e' ∈ es, ∀ k f g, change e = some (k, f) → change e' = some (k, g) →
      ∀ o, g (some (f o)) = f (some (g o)))
    (hperm : es.Perm es') (m : List (κ × V)) : collect change m es = collect change m es' := by
  refine hperm.foldl_eq' ?_ m
  intro e he e' he' m
  cases hchange : change e with
  | none => rfl
  | some p =>
      cases hchange' : change e' with
      | none => rfl
      | some p' =>
          obtain ⟨k, f⟩ := p
          obtain ⟨k', g⟩ := p'
          show upsert g k' (upsert f k m) = upsert f k (upsert g k' m)
          by_cases hk : k = k'
          · subst hk
            rw [upsert_upsert, upsert_upsert]
            exact upsert_congr (h e he e' he' k f g hchange hchange') k m
          · exact upsert_comm hk f g m

/-- The entries of a sorted map are what `get` finds. -/
theorem mem_iff_get (h : Sorted m) {p : κ × V} : p ∈ m ↔ get p.1 m = some p.2 := by
  induction m with
  | nil => simp [get]
  | cons q m ih =>
      obtain ⟨k', v⟩ := q
      obtain ⟨hhead, htail⟩ := List.pairwise_cons.mp h
      rw [List.mem_cons, get]
      by_cases hk : p.1 = k'
      · rw [if_pos hk]
        constructor
        · rintro (rfl | hmem)
          · rfl
          · exact absurd (hhead p hmem) (by rw [hk]; exact lt_irrefl _)
        · intro hv
          exact Or.inl (Prod.ext hk (Option.some.inj hv).symm)
      · rw [if_neg hk, ← ih htail]
        constructor
        · rintro (rfl | hmem)
          · exact absurd rfl hk
          · exact hmem
        · exact Or.inr

/-- No key stands twice in a sorted map. -/
theorem nodup_keys (h : Sorted m) : (m.map Prod.fst).Nodup := by
  rw [List.Nodup, List.pairwise_map]
  exact h.imp fun hlt => ne_of_lt hlt

/-! ## Elements put together by their keys -/

section Groups

variable {key : E → κ} {add : V → E → V} {z : V} {weight : V → Nat}

/-- The elements of a key are added up under it, one after the other. -/
def groups (key : E → κ) (add : V → E → V) (z : V) (es : List E) : List (κ × V) :=
  collect (fun e => some (key e, fun o => add (o.getD z) e)) [] es

theorem groups_concat (es : List E) (e : E) :
    groups key add z (es ++ [e])
      = upsert (fun o => add (o.getD z) e) (key e) (groups key add z es) := by
  rw [groups, collect, List.foldl_concat]
  rfl

/-- The groups are in the order of their keys. -/
theorem sorted_groups (es : List E) : Sorted (groups key add z es) :=
  Sorted.collect List.Pairwise.nil _ es

/-- **A key's elements**: they are all under it, and if there are none it is
    not there. -/
theorem get_groups {p : E → Bool} (hp : ∀ e, p e = true ↔ key e = k) (es : List E) :
    (es.filter p = [] → get k (groups key add z es) = none) ∧
      (es.filter p ≠ [] → get k (groups key add z es) = some ((es.filter p).foldl add z)) := by
  induction es using List.reverseRecOn with
  | nil => exact ⟨fun _ => rfl, fun h => absurd rfl h⟩
  | append_singleton es e ih =>
      rw [groups_concat, get_upsert (sorted_groups es), List.filter_append, List.filter_singleton]
      by_cases hk : key e = k
      · rw [if_pos hk, hk, (hp e).mpr hk, cond_true]
        refine ⟨fun h => absurd h (List.append_ne_nil_of_right_ne_nil _ (List.cons_ne_nil _ _)),
          fun _ => ?_⟩
        by_cases hnil : es.filter p = []
        · rw [ih.1 hnil, hnil]
          rfl
        · rw [ih.2 hnil, List.foldl_append]
          rfl
      · rw [if_neg hk, Bool.eq_false_iff.mpr fun h => hk ((hp e).mp h), cond_false,
          List.append_nil]
        exact ih

/-- What the values weigh together, when one of them is put in or changed. -/
theorem sum_upsert (h : Sorted m) (f : Option V → V) (k : κ) :
    ((upsert f k m).map fun p => weight p.2).sum + ((get k m).map weight).getD 0
      = (m.map fun p => weight p.2).sum + weight (f (get k m)) := by
  induction m with
  | nil =>
      show weight (f none) + 0 + 0 = 0 + weight (f none)
      omega
  | cons q m ih =>
      obtain ⟨k', v⟩ := q
      obtain ⟨hhead, htail⟩ := List.pairwise_cons.mp h
      rcases lt_trichotomy k k' with hlt | rfl | hgt
      · have hnone : get k ((k', v) :: m) = none := by
          refine get_none fun p hp => ?_
          rcases List.mem_cons.mp hp with rfl | hp
          · exact ne_of_lt hlt
          · exact ne_of_lt (lt_trans hlt (hhead p hp))
        rw [hnone, upsert_of_lt hlt]
        show weight (f none) + (((k', v) :: m).map fun p => weight p.2).sum + 0
          = (((k', v) :: m).map fun p => weight p.2).sum + weight (f none)
        omega
      · rw [upsert_self, get, if_pos rfl]
        show weight (f (some v)) + (m.map fun p => weight p.2).sum + weight v
          = weight v + (m.map fun p => weight p.2).sum + weight (f (some v))
        omega
      · have hrest := ih htail
        rw [upsert_of_gt hgt, get, if_neg (ne_of_gt hgt)]
        show weight v + ((upsert f k m).map fun p => weight p.2).sum + _
          = weight v + (m.map fun p => weight p.2).sum + _
        omega

end Groups

end SortedMap
