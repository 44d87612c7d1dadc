import AptBlitz.Simultaneous
import Mathlib.Data.List.Count

/-! # Retry budgets

    The loop of `resolve_with_coalescing`, round by round: what the tracker,
    the cache and the coalescer answer is given.  One counter of `u32` counts
    the drops of both kinds, and is compared with the budget of the kind that
    came last.

    `dedicated_iff` says when a follower that gives up has used up the budget
    it gives up on. -/

namespace BlitzRetryBudgets

open RustText BlitzLeader BlitzSimultaneous

/-- The two budgets. -/
structure Budgets where
  maxRetries : Nat
  etagMaxRetries : Nat

/-- The budget for a drop. -/
def Budgets.budget (B : Budgets) (etagChanged : Bool) : Nat :=
  if etagChanged then B.etagMaxRetries else B.maxRetries

/-- How a round goes. -/
inductive Round where
  /-- the URL is in cooldown -/
  | rejected
  /-- the file is in the cache, or still valid -/
  | cached
  | leads
  /-- `register` or the channel gave a buffer -/
  | given
  | timedOut
  /-- the leader's sender is gone -/
  | dropped (etagChanged : Bool)

/-- How a round of `resolve_with_coalescing` ends well. -/
inductive Outcome where
  | cached
  | leader
  | followerBuffer
  deriving DecidableEq

/-- `retries += 1`. -/
def increment (retries : Nat) : Nat := (retries + 1) % 2 ^ 32

/-- The loop; `none` when there are no more rounds and it goes on. -/
def resolve (B : Budgets) (url : Text) : Nat → List Round → Option (Except ProxyError Outcome)
  | _, [] => none
  | retries, round :: rounds =>
      match round with
      | .rejected => some (.error (cooldownError url))
      | .cached => some (.ok .cached)
      | .leads => some (.ok .leader)
      | .given => some (.ok .followerBuffer)
      | .timedOut => some (.error (timeoutError url))
      | .dropped etagChanged =>
          let budget := if etagChanged then B.etagMaxRetries else B.maxRetries
          let retries := increment retries
          if budget < retries then some (.error (retriesError url retries etagChanged))
          else resolve B url retries rounds

variable {B : Budgets} {url : Text} {retries i : Nat} {drops : List Bool} {kind : Bool}

/-- A drop among simultaneous requests is such a round, as long as the counter
    does not come around. -/
theorem retryStep_eq {γ β ε : Type} {K : ResolveConfig γ} {s : System γ β ε} {r : Nat}
    (hsmall : s.retries r + 1 < 2 ^ 32) :
    (retryStep K s r).retries r = increment (s.retries r) ∧
      (retryStep K s r).joins r
        = match resolve ⟨K.maxRetries, K.etagMaxRetries⟩ s.leader.url (s.retries r)
            [.dropped (s.coalescer.etagFailedFor s.leader.url)] with
          | some (.error e) => .failed e
          | _ => .looking := by
  have hcount : increment (s.retries r) = s.retries r + 1 := Nat.mod_eq_of_lt hsmall
  constructor
  · rw [hcount]
    exact Function.update_self ..
  · show Function.update s.joins r _ r = _
    rw [Function.update_self]
    simp only [resolve, hcount]
    split
    · split
      · rfl
      · rfl
    · split
      · rfl
      · rfl

/-! ## The rounds of one follower -/

/-- The rounds in which a follower sees its leaders drop. -/
def roundsOf (drops : List Bool) : List Round := drops.map .dropped

theorem resolve_cons :
    resolve B url retries (roundsOf (kind :: drops))
      = if B.budget kind < increment retries then
          some (.error (retriesError url (increment retries) kind))
        else resolve B url (increment retries) (roundsOf drops) := rfl

/-- The counter after `n` more drops. -/
theorem increment_mod (retries n : Nat) :
    (increment retries + n) % 2 ^ 32 = (retries + (n + 1)) % 2 ^ 32 := by
  rw [increment, Nat.mod_add_mod]
  congr 1
  omega

/-- The follower still follows when no drop was one too many. -/
theorem resolve_none_iff :
    resolve B url retries (roundsOf drops) = none ↔
      ∀ j k, drops[j]? = some k → (retries + (j + 1)) % 2 ^ 32 ≤ B.budget k := by
  induction drops generalizing retries with
  | nil => simp [roundsOf, resolve]
  | cons kind drops ih =>
      rw [resolve_cons]
      constructor
      · intro h
        split at h
        · cases h
        next hover =>
          intro j k hj
          cases j with
          | zero =>
              cases hj
              exact not_lt.mp hover
          | succ j =>
              rw [← increment_mod]
              exact ih.mp h j k hj
      · intro h
        have hfirst : increment retries ≤ B.budget kind := h 0 kind rfl
        rw [if_neg (not_lt.mpr hfirst)]
        refine ih.mpr fun j k hj => ?_
        rw [increment_mod]
        exact h (j + 1) k hj

/-- The drop on which the follower gives up. -/
def GivesUpAt (B : Budgets) (url : Text) (drops : List Bool) (i : Nat) : Prop :=
  resolve B url 0 (roundsOf (drops.take i)) = none ∧
    ∃ e, resolve B url 0 (roundsOf (drops.take (i + 1))) = some (.error e)

/-- It is the first whose number exceeds the budget of its kind. -/
def FirstOver (B : Budgets) (drops : List Bool) (i : Nat) (kind : Bool) : Prop :=
  drops[i]? = some kind ∧ B.budget kind < (i + 1) % 2 ^ 32 ∧
    ∀ j k, j < i → drops[j]? = some k → (j + 1) % 2 ^ 32 ≤ B.budget k

/-- Rounds that all drop lead to another round or to an error. -/
theorem resolve_eq_none_or_error :
    resolve B url retries (roundsOf drops) = none ∨
      ∃ e, resolve B url retries (roundsOf drops) = some (.error e) := by
  induction drops generalizing retries with
  | nil => exact Or.inl rfl
  | cons kind drops ih =>
      rw [resolve_cons]
      split
      · exact Or.inr ⟨_, rfl⟩
      · exact ih

/-- The first rounds lead on if each of them was within its budget. -/
theorem resolve_take_none_iff :
    resolve B url 0 (roundsOf (drops.take i)) = none ↔
      ∀ j k, j < i → drops[j]? = some k → (j + 1) % 2 ^ 32 ≤ B.budget k := by
  rw [resolve_none_iff]
  constructor
  · intro h j k hj hk
    have hle := h j k (by rwa [List.getElem?_take_of_lt hj])
    rwa [Nat.zero_add] at hle
  · intro h j k hk
    rw [Nat.zero_add]
    by_cases hj : j < i
    · rw [List.getElem?_take_of_lt hj] at hk
      exact h j k hj hk
    · rw [List.getElem?_take_eq_none (not_lt.mp hj)] at hk
      cases hk

/-- The call gives up at the first drop over its budget. -/
theorem givesUpAt_iff : GivesUpAt B url drops i ↔ ∃ kind, FirstOver B drops i kind := by
  rw [GivesUpAt, resolve_take_none_iff]
  constructor
  · rintro ⟨hbefore, e, herr⟩
    have hnot : ¬ resolve B url 0 (roundsOf (drops.take (i + 1))) = none := by
      rw [herr]
      exact nofun
    rw [resolve_take_none_iff] at hnot
    simp only [not_forall, not_le] at hnot
    obtain ⟨j, k, hj, hk, hover⟩ := hnot
    rcases Nat.lt_succ_iff_lt_or_eq.mp hj with hlt | rfl
    · exact absurd hover (not_lt.mpr (hbefore j k hlt hk))
    · exact ⟨k, hk, hover, hbefore⟩
  · rintro ⟨kind, hkind, hover, hbefore⟩
    refine ⟨hbefore, (resolve_eq_none_or_error).resolve_left ?_⟩
    rw [resolve_take_none_iff]
    intro hall
    exact absurd hover (not_lt.mpr (hall i kind (Nat.lt_succ_self i) hkind))

/-! ## Whose budget is used up -/

/-- A follower that gives up on a drop of one kind has seen more drops of
    that kind than its budget. -/
def Dedicated (B : Budgets) (url : Text) (drops : List Bool) : Prop :=
  ∀ i kind, GivesUpAt B url drops i → drops[i]? = some kind →
    B.budget kind < (drops.take (i + 1)).count kind

theorem count_take_succ (hkind : drops[i]? = some kind) :
    (drops.take (i + 1)).count kind = (drops.take i).count kind + 1 := by
  rw [List.take_add_one, hkind, List.count_append]
  simp

/-- Before the follower gives up on a kind, its drops came within the
    budget's number of drops. -/
theorem count_take_of_firstOver (hfirst : FirstOver B drops i kind) (hsmall : i + 1 < 2 ^ 32) :
    (drops.take i).count kind = (drops.take (B.budget kind)).count kind := by
  obtain ⟨-, hover, hbefore⟩ := hfirst
  rw [Nat.mod_eq_of_lt hsmall] at hover
  have hsplit := (List.take_append_drop (B.budget kind) (drops.take i)).symm
  rw [List.take_take, Nat.min_eq_left (Nat.lt_succ_iff.mp hover)] at hsplit
  have hnone : ((drops.take i).drop (B.budget kind)).count kind = 0 := by
    refine List.count_eq_zero.mpr fun hmem => ?_
    obtain ⟨j, hj⟩ := List.mem_iff_getElem?.mp hmem
    rw [List.getElem?_drop] at hj
    have hlt : B.budget kind + j < i := by
      by_contra hge
      rw [List.getElem?_take_eq_none (not_lt.mp hge)] at hj
      cases hj
    rw [List.getElem?_take_of_lt hlt] at hj
    have hwithin := hbefore _ kind hlt hj
    rw [Nat.mod_eq_of_lt (by omega)] at hwithin
    omega
  rw [hsplit, List.count_append, hnone, Nat.add_zero]

/-- A drop of the other kind whose number, as the counter shows it, is within
    the budget. -/
def isStranger (B : Budgets) (drops : List Bool) (kind : Bool) (j : Nat) : Bool :=
  decide ((j + 1) % 2 ^ 32 ≤ B.budget kind) && drops[j]? == some (!kind)

/-- The drops that came first are of the kind that the follower gives up on:
    as many as its budget.  When the counter has come around, the numbers
    within the budget have come again, once for each time; of the drops with
    such numbers, no more are of the other kind than came in one of the later
    rounds of the counter. -/
def OwnFirst (B : Budgets) (drops : List Bool) (i : Nat) (kind : Bool) : Prop :=
  if i + 1 < 2 ^ 32 then ∀ j < B.budget kind, drops[j]? = some kind
  else (List.range i).countP (isStranger B drops kind)
    ≤ (i + 1) / 2 ^ 32 * (B.budget kind + 1)

/-- How many of the first numbers are within a budget, as the counter shows
    them. -/
theorem countP_within (budget n : Nat) (hbudget : budget < 2 ^ 32) :
    (List.range n).countP (fun j => decide ((j + 1) % 2 ^ 32 ≤ budget))
      = n / 2 ^ 32 * (budget + 1) + min (n % 2 ^ 32) budget := by
  induction n with
  | zero => simp
  | succ n ih =>
      rw [List.range_succ, List.countP_append, ih, List.countP_singleton]
      by_cases haround : (n + 1) % 2 ^ 32 = 0
      · have hquot : (n + 1) / 2 ^ 32 = n / 2 ^ 32 + 1 := by omega
        rw [hquot, Nat.succ_mul, if_pos (by rw [haround]; exact decide_eq_true (Nat.zero_le _))]
        omega
      · have hquot : (n + 1) / 2 ^ 32 = n / 2 ^ 32 := by omega
        rw [hquot]
        split
        next hwithin =>
          have := of_decide_eq_true hwithin
          omega
        next hwithin =>
          have : ¬ (n + 1) % 2 ^ 32 ≤ budget := fun hle => hwithin (decide_eq_true hle)
          omega

/-- The drops of the kind, before the follower gives up on it, all have
    numbers within the budget; the others with such numbers are strangers. -/
theorem count_add_strangers (hfirst : FirstOver B drops i kind) :
    (drops.take i).count kind + (List.range i).countP (isStranger B drops kind)
      = (i + 1) / 2 ^ 32 * (B.budget kind + 1) + B.budget kind := by
  obtain ⟨hkind, hover, hbefore⟩ := hfirst
  have hwithin := countP_within (B.budget kind) i (by omega)
  have hquot : i / 2 ^ 32 = (i + 1) / 2 ^ 32 := by omega
  have hmin : min (i % 2 ^ 32) (B.budget kind) = B.budget kind := by omega
  rw [hquot, hmin] at hwithin
  rw [← hwithin]
  clear hwithin hquot hmin
  have hlong : i < drops.length := (List.getElem?_eq_some_iff.mp hkind).1
  have hsum : ∀ n ≤ i, (drops.take n).count kind + (List.range n).countP (isStranger B drops kind)
      = (List.range n).countP (fun j => decide ((j + 1) % 2 ^ 32 ≤ B.budget kind)) := by
    intro n hn
    induction n with
    | zero => rfl
    | succ n ih =>
        have hk : drops[n]? = some drops[n] := List.getElem?_eq_getElem (by omega)
        rw [List.take_add_one, List.count_append, List.range_succ, List.countP_append,
          List.countP_append, List.countP_singleton, List.countP_singleton, ← ih (by omega), hk]
        by_cases hown : drops[n] = kind
        · -- one of the kind is within the budget
          have hle : (n + 1) % 2 ^ 32 ≤ B.budget kind := hbefore n kind hn (hown ▸ hk)
          have hstranger : isStranger B drops kind n = false := by simp [isStranger, hk, hown]
          have hone : (some drops[n]).toList.count kind = 1 := by simp [hown]
          rw [if_pos (decide_eq_true hle), if_neg (by rw [hstranger]; exact nofun), hone]
          omega
        · have hother : drops[n] = !kind := by
            revert hown
            cases drops[n] <;> cases kind <;> decide
          have hsame : isStranger B drops kind n
              = decide ((n + 1) % 2 ^ 32 ≤ B.budget kind) := by
            simp [isStranger, hk, hother]
          have hnone : (some drops[n]).toList.count kind = 0 := by simp [hother]
          rw [hsame, hnone]
          omega
  exact hsum i (le_refl i)

/-- The condition, in numbers. -/
theorem ownFirst_iff (hfirst : FirstOver B drops i kind) :
    OwnFirst B drops i kind ↔ B.budget kind < (drops.take (i + 1)).count kind := by
  rw [count_take_succ hfirst.1, Nat.lt_succ_iff, OwnFirst]
  split
  next hsmall =>
    rw [count_take_of_firstOver hfirst hsmall]
    obtain ⟨hkind, hover, -⟩ := hfirst
    rw [Nat.mod_eq_of_lt hsmall] at hover
    have hlong : B.budget kind ≤ drops.length := by
      have hi := (List.getElem?_eq_some_iff.mp hkind).1
      omega
    have hlength : (drops.take (B.budget kind)).length = B.budget kind :=
      List.length_take_of_le hlong
    constructor
    · intro hall
      refine le_of_eq ?_
      rw [List.count_eq_length.mpr, hlength]
      intro k hk
      obtain ⟨j, hj⟩ := List.mem_iff_getElem?.mp hk
      have hlt : j < B.budget kind := by
        rw [← hlength]
        exact (List.getElem?_eq_some_iff.mp hj).1
      rw [List.getElem?_take_of_lt hlt, hall j hlt] at hj
      exact Option.some.inj hj
    · intro hcount j hj
      have hfull : (drops.take (B.budget kind)).count kind
          = (drops.take (B.budget kind)).length := by
        refine le_antisymm List.count_le_length ?_
        rwa [hlength]
      have hj' : j < drops.length := hj.trans_le hlong
      have hmem : drops[j] ∈ drops.take (B.budget kind) :=
        List.mem_of_getElem? (by rw [List.getElem?_take_of_lt hj, List.getElem?_eq_getElem hj'])
      rw [List.getElem?_eq_getElem hj', List.count_eq_length.mp hfull _ hmem]
  next =>
    have hall := count_add_strangers hfirst
    omega

/-- **Dedicated budgets, exactly**: for all budgets and all sequences of
    drops, a follower gives up on a budget that it has used up if and only if
    the drops that came first, as many as that budget, were of that kind. -/
theorem dedicated_iff (B : Budgets) (url : Text) (drops : List Bool) :
    Dedicated B url drops ↔ ∀ i kind, FirstOver B drops i kind → OwnFirst B drops i kind := by
  constructor
  · intro hdedicated i kind hfirst
    exact (ownFirst_iff hfirst).mpr
      (hdedicated i kind (givesUpAt_iff.mpr ⟨kind, hfirst⟩) hfirst.1)
  · intro hown i kind hgives hkind
    obtain ⟨k, hfirst⟩ := givesUpAt_iff.mp hgives
    obtain rfl : k = kind := Option.some.inj (hfirst.1.symm.trans hkind)
    exact (ownFirst_iff hfirst).mp (hown i k hfirst)

/-- With budgets of 3 and 8: three changed ETags, and the first ordinary drop
    is one too many. -/
theorem not_dedicated :
    resolve ⟨3, 8⟩ ['u'] 0 (roundsOf [true, true, true]) = none ∧
      resolve ⟨3, 8⟩ ['u'] 0 (roundsOf [true, true, true, false])
        = some (.error (retriesError ['u'] 4 false)) := by
  constructor
  · decide
  · decide

end BlitzRetryBudgets
