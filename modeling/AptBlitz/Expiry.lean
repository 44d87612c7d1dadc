import AptBlitz.Freshness
import AptBlitz.Library.I64
import AptBlitz.Library.TextRules

/-! # Fresh, and how long

    The proxy asks `is_fresh`; `blitzctl` and the logs ask
    `time_until_expiry`.  Both look for what limits the life of an entry in
    the same order, and then compute in `i64`, each in its own way.  `Limit`
    is what they find; `isFresh_eq` and `expiryTime_eq` say what each makes of
    it.

    `freshAgrees_iff` says when the two agree, and `lifetimes_iff` when
    `is_fresh` compares lifetimes as the numbers they are. -/

namespace BlitzExpiry

open RustText BlitzHeaders BlitzFreshness I64

/-- A parser of HTTP dates, in seconds since the epoch; system times end
    before 2^63 seconds. -/
structure HttpDates where
  parse : Text → Option Nat
  lt : ∀ t n, parse t = some n → n < 2 ^ 63

/-! ## `time_until_expiry` -/

/-- The end of the age limits of `time_until_expiry`. -/
def expiryByExpires (parseHttpDate : Text → Option Nat) (cachedAt : Int) (headers : HeaderMap)
    (maxCacheAge : Nat) : Option Int :=
  match ((headers.get "expires".toList).bind toStr).bind parseHttpDate with
  | some expiresAt => some (asI64 expiresAt)
  | none =>
      if 0 < maxCacheAge then some (saturate (cachedAt + asI64 maxCacheAge)) else none

/-- The time from which `time_until_expiry` subtracts `now`, where it gets
    that far. -/
def expiryTime (parseHttpDate : Text → Option Nat) (now cachedAt : Int) (headers : HeaderMap)
    (maxCacheAge : Nat) : Option Int :=
  if cachedAt ≤ 0 ∨ now < cachedAt then none
  else match (headers.get "cache-control".toList).bind toStr with
    | some cc =>
        if forbidsCaching cc then none
        else match parseMaxAge cc with
          | some maxAge => some (saturate (cachedAt + asI64 maxAge))
          | none => expiryByExpires parseHttpDate cachedAt headers maxCacheAge
    | none => expiryByExpires parseHttpDate cachedAt headers maxCacheAge

/-- `time_until_expiry`: every branch that answers is
    `Some((time - now).max(0) as u64)`. -/
def timeUntilExpiry (parseHttpDate : Text → Option Nat) (now cachedAt : Int)
    (headers : HeaderMap) (maxCacheAge : Nat) : Option Nat :=
  (expiryTime parseHttpDate now cachedAt headers maxCacheAge).map fun time =>
    (max (wrap (time - now)) 0).toNat

/-! ## What limits the life of an entry -/

/-- What decides how long an entry is fresh. -/
inductive Limit where
  /-- `no-cache` or `no-store` -/
  | forbidden
  | maxAge (n : Nat)
  | expires (at_ : Nat)
  /-- the configured `max_cache_age` -/
  | ttl (n : Nat)
  deriving DecidableEq

/-- `Expires`, or else the configured age. -/
def limitByExpires (parseHttpDate : Text → Option Nat) (headers : HeaderMap)
    (maxCacheAge : Nat) : Limit :=
  match ((headers.get "expires".toList).bind toStr).bind parseHttpDate with
  | some expiresAt => .expires expiresAt
  | none => .ttl maxCacheAge

/-- `max-age`, then `Expires`, then `max_cache_age`. -/
def limit (parseHttpDate : Text → Option Nat) (headers : HeaderMap) (maxCacheAge : Nat) : Limit :=
  match (headers.get "cache-control".toList).bind toStr with
  | some cc =>
      if forbidsCaching cc then .forbidden
      else match parseMaxAge cc with
        | some maxAge => .maxAge maxAge
        | none => limitByExpires parseHttpDate headers maxCacheAge
  | none => limitByExpires parseHttpDate headers maxCacheAge

namespace Limit

/-- The limit as a lifetime from `cached_at` on. -/
def lifetime : Limit → Option Nat
  | .maxAge n => some n
  | .ttl n => some n
  | _ => none

/-- What `is_fresh` asks. -/
def fresh (now age : Int) : Limit → Bool
  | .forbidden => false
  | .maxAge n => age < asI64 n
  | .expires time => now < asI64 time
  | .ttl n => 0 < n && age < asI64 n

/-- What `time_until_expiry` counts to. -/
def time (cachedAt : Int) : Limit → Option Int
  | .forbidden => none
  | .maxAge n => some (saturate (cachedAt + asI64 n))
  | .expires time => some (asI64 time)
  | .ttl n => if 0 < n then some (saturate (cachedAt + asI64 n)) else none

end Limit

/-- The entry is not from the future, and not from before the epoch. -/
def Dated (now cachedAt : Int) : Prop := 0 < cachedAt ∧ cachedAt ≤ now

instance (now cachedAt : Int) : Decidable (Dated now cachedAt) :=
  inferInstanceAs (Decidable (_ ∧ _))

section

variable {parseHttpDate : Text → Option Nat} {now cachedAt : Int} {headers : HeaderMap}
  {maxCacheAge : Nat}

/-- `is_fresh` without `max-age` goes by this limit. -/
theorem freshByExpires_eq {age : Int} :
    freshByExpires parseHttpDate now age headers maxCacheAge
      = (limitByExpires parseHttpDate headers maxCacheAge).fresh now age := by
  rw [freshByExpires, limitByExpires]
  generalize ((headers.get "expires".toList).bind toStr).bind parseHttpDate = date
  cases date with
  | none => rfl
  | some time => rfl

/-- `expiry_time` without `max-age` goes by this limit. -/
theorem expiryByExpires_eq :
    expiryByExpires parseHttpDate cachedAt headers maxCacheAge
      = (limitByExpires parseHttpDate headers maxCacheAge).time cachedAt := by
  rw [expiryByExpires, limitByExpires]
  generalize ((headers.get "expires".toList).bind toStr).bind parseHttpDate = date
  cases date with
  | none => rfl
  | some time => rfl

/-- `is_fresh` asks the limit it finds. -/
theorem isFresh_eq :
    isFresh parseHttpDate now cachedAt headers maxCacheAge
      = (decide (Dated now cachedAt)
        && (limit parseHttpDate headers maxCacheAge).fresh now (now - cachedAt)) := by
  rw [isFresh]
  by_cases hguard : cachedAt ≤ 0 ∨ now < cachedAt
  · rw [if_pos hguard, decide_eq_false (by rw [Dated]; omega), Bool.false_and]
  · rw [if_neg hguard, decide_eq_true (by rw [Dated]; omega), Bool.true_and]
    dsimp only
    rw [limit]
    generalize (headers.get "cache-control".toList).bind toStr = control
    cases control with
    | none => exact freshByExpires_eq
    | some cc =>
        cases hforbids : forbidsCaching cc with
        | true => simp only [hforbids, if_true]; rfl
        | false =>
            simp only [hforbids, Bool.false_eq_true, if_false]
            cases parseMaxAge cc with
            | none => exact freshByExpires_eq
            | some maxAge => rfl

/-- So does `time_until_expiry`. -/
theorem expiryTime_eq :
    expiryTime parseHttpDate now cachedAt headers maxCacheAge
      = if Dated now cachedAt then
          (limit parseHttpDate headers maxCacheAge).time cachedAt
        else none := by
  rw [expiryTime]
  by_cases hguard : cachedAt ≤ 0 ∨ now < cachedAt
  · rw [if_pos hguard, if_neg (by rw [Dated]; omega)]
  · rw [if_neg hguard, if_pos (by rw [Dated]; omega), limit]
    generalize (headers.get "cache-control".toList).bind toStr = control
    cases control with
    | none => exact expiryByExpires_eq
    | some cc =>
        cases hforbids : forbidsCaching cc with
        | true => simp only [hforbids, if_true]; rfl
        | false =>
            simp only [hforbids, Bool.false_eq_true, if_false]
            cases parseMaxAge cc with
            | none => exact expiryByExpires_eq
            | some maxAge => rfl

/-- A `max-age` that is read is a `u64`. -/
theorem parseMaxAge_lt {cc : Text} {n : Nat} (h : parseMaxAge cc = some n) : n < 2 ^ 64 := by
  rw [parseMaxAge] at h
  obtain ⟨rest, -, hrest⟩ := Option.bind_eq_some_iff.mp h
  dsimp only at hrest
  have hlt : ∀ text, (parseUnsigned (2 ^ 64 - 1) text).toOption = some n → n < 2 ^ 64 := by
    intro text h
    cases hparsed : parseUnsigned (2 ^ 64 - 1) text with
    | error e =>
        rw [hparsed] at h
        cases h
    | ok m =>
        rw [hparsed] at h
        cases h
        exact Nat.lt_of_le_pred (by decide) (parseUnsigned_le hparsed)
  split at hrest
  · exact hlt _ hrest
  · exact hlt _ hrest

/-- Where a limit is from. -/
theorem limit_cases :
    limit parseHttpDate headers maxCacheAge = .forbidden ∨
      (∃ cc n, parseMaxAge cc = some n ∧ limit parseHttpDate headers maxCacheAge = .maxAge n) ∨
      (∃ text n, parseHttpDate text = some n ∧
        limit parseHttpDate headers maxCacheAge = .expires n) ∨
      limit parseHttpDate headers maxCacheAge = .ttl maxCacheAge := by
  have hrest : (∃ text n, parseHttpDate text = some n ∧
        limitByExpires parseHttpDate headers maxCacheAge = .expires n) ∨
      limitByExpires parseHttpDate headers maxCacheAge = .ttl maxCacheAge := by
    rw [limitByExpires]
    cases htime : ((headers.get "expires".toList).bind toStr).bind parseHttpDate with
    | none => exact Or.inr rfl
    | some n =>
        obtain ⟨text, -, hn⟩ := Option.bind_eq_some_iff.mp htime
        exact Or.inl ⟨text, n, hn, rfl⟩
  rw [limit]
  cases (headers.get "cache-control".toList).bind toStr with
  | none => exact Or.inr (Or.inr hrest)
  | some cc =>
      dsimp only
      by_cases hforbids : forbidsCaching cc
      · rw [if_pos hforbids]
        exact Or.inl rfl
      · rw [if_neg hforbids]
        cases hage : parseMaxAge cc with
        | none => exact Or.inr (Or.inr hrest)
        | some n => exact Or.inr (Or.inl ⟨cc, n, hage, rfl⟩)

/-- Every lifetime is a `u64`. -/
theorem lifetime_lt {n : Nat} (hmax : maxCacheAge < 2 ^ 64)
    (h : (limit parseHttpDate headers maxCacheAge).lifetime = some n) : n < 2 ^ 64 := by
  rcases limit_cases with hlimit | ⟨cc, age, hage, hlimit⟩ | ⟨-, time, -, hlimit⟩ | hlimit
  · rw [hlimit] at h
    cases h
  · rw [hlimit] at h
    cases h
    exact parseMaxAge_lt hage
  · rw [hlimit] at h
    cases h
  · rw [hlimit] at h
    cases h
    exact hmax

end

/-! ## The two answers -/

/-- The two functions agree, and neither subtraction leaves the range. -/
def FreshAgrees (parseHttpDate : Text → Option Nat) (now cachedAt : Int) (headers : HeaderMap)
    (maxCacheAge : Nat) : Prop :=
  (isFresh parseHttpDate now cachedAt headers maxCacheAge = true ↔
      ∃ n, timeUntilExpiry parseHttpDate now cachedAt headers maxCacheAge = some n ∧ 0 < n) ∧
    (Dated now cachedAt → InRange (now - cachedAt)) ∧
    ∀ time, expiryTime parseHttpDate now cachedAt headers maxCacheAge = some time →
      InRange (time - now)

/-- A lifetime for which the two ways of computing agree: it is over, or it
    is an `i64` and the clock has not come to its last second, or it is so
    large that its end as an `i64` lies before all `i64` seconds ahead. -/
def Agreeing (now cachedAt : Int) (n : Nat) : Prop :=
  n ≤ now - cachedAt ∨ (n < 2 ^ 63 ∧ now < 2 ^ 63 - 1) ∨ 2 ^ 63 + (now - cachedAt) ≤ n

/-- One lifetime, computed in two ways. -/
theorem lifetime_agrees {now cachedAt : Int} {n : Nat} (hdated : Dated now cachedAt)
    (hnow : now < 2 ^ 63) (hn : n < 2 ^ 64) :
    ((now - cachedAt < asI64 n ↔ 0 < wrap (saturate (cachedAt + asI64 n) - now)) ∧
      InRange (saturate (cachedAt + asI64 n) - now)) ↔ Agreeing now cachedAt n := by
  obtain ⟨hpos, hle⟩ := hdated
  have hcast : asI64 n = wrap n := rfl
  rw [hcast, Agreeing]
  by_cases hsmall : n < 2 ^ 63
  · rw [wrap_natCast hsmall]
    by_cases hsum : cachedAt + n < 2 ^ 63
    · have hrange : InRange (cachedAt + n - now) := ⟨by omega, by omega⟩
      rw [saturate_of_inRange ⟨by omega, hsum⟩, wrap_of_inRange hrange]
      refine iff_of_true ⟨by omega, hrange⟩ ?_
      omega
    · have hrange : InRange (2 ^ 63 - 1 - now) := ⟨by omega, by omega⟩
      rw [saturate_of_above (by omega), wrap_of_inRange hrange]
      simp only [hrange, and_true]
      omega
  · rw [wrap_natCast_of_le (by omega) hn, saturate_of_inRange ⟨by omega, by omega⟩]
    by_cases hrange : InRange (cachedAt + (n - 2 ^ 64) - now)
    · rw [wrap_of_inRange hrange]
      obtain ⟨hlow, -⟩ := id hrange
      refine iff_of_true ⟨by omega, hrange⟩ ?_
      omega
    · -- the difference is below the range, and wraps to a positive number
      refine iff_of_false (fun h => hrange h.2) ?_
      rw [InRange] at hrange
      omega

section

variable {parseHttpDate : Text → Option Nat} {now cachedAt : Int} {headers : HeaderMap}
  {maxCacheAge : Nat}

/-- There is time left if the difference, as it wraps, is positive. -/
theorem timeUntilExpiry_pos_iff :
    (∃ n, timeUntilExpiry parseHttpDate now cachedAt headers maxCacheAge = some n ∧ 0 < n) ↔
      ∃ time, expiryTime parseHttpDate now cachedAt headers maxCacheAge = some time ∧
        0 < wrap (time - now) := by
  rw [timeUntilExpiry]
  constructor
  · rintro ⟨n, hn, hpos⟩
    obtain ⟨time, htime, rfl⟩ := Option.map_eq_some_iff.mp hn
    exact ⟨time, htime, by omega⟩
  · rintro ⟨time, htime, hpos⟩
    exact ⟨_, Option.map_eq_some_iff.mpr ⟨time, htime, rfl⟩, by omega⟩

/-- An entry with a date: it is the limit that the two functions see. -/
theorem freshAgrees_of_dated (hdated : Dated now cachedAt) (hnow : now < 2 ^ 63) :
    FreshAgrees parseHttpDate now cachedAt headers maxCacheAge ↔
      ((limit parseHttpDate headers maxCacheAge).fresh now (now - cachedAt) = true ↔
        ∃ time, (limit parseHttpDate headers maxCacheAge).time cachedAt = some time ∧
          0 < wrap (time - now)) ∧
      ∀ time, (limit parseHttpDate headers maxCacheAge).time cachedAt = some time →
        InRange (time - now) := by
  have hrange : InRange (now - cachedAt) := by
    obtain ⟨hpos, hle⟩ := hdated
    exact ⟨by omega, by omega⟩
  rw [FreshAgrees, timeUntilExpiry_pos_iff, isFresh_eq, expiryTime_eq, if_pos hdated,
    decide_eq_true hdated, Bool.true_and]
  constructor
  · rintro ⟨hiff, -, htime⟩
    exact ⟨hiff, htime⟩
  · rintro ⟨hiff, htime⟩
    exact ⟨hiff, fun _ => hrange, htime⟩

/-- An entry with a limit that is no lifetime, or one whose lifetime is
    agreeing. -/
theorem limit_agrees_iff {l : Limit} (hdated : Dated now cachedAt) (hnow : now < 2 ^ 63)
    (hlifetime : ∀ n, l.lifetime = some n → n < 2 ^ 64)
    (hexpires : ∀ n, l = .expires n → n < 2 ^ 63) :
    ((l.fresh now (now - cachedAt) = true ↔
        ∃ time, l.time cachedAt = some time ∧ 0 < wrap (time - now)) ∧
      ∀ time, l.time cachedAt = some time → InRange (time - now)) ↔
      ∀ n, l.lifetime = some n → Agreeing now cachedAt n := by
  obtain ⟨hpos, hle⟩ := id hdated
  cases l with
  | forbidden => simp [Limit.fresh, Limit.time, Limit.lifetime]
  | maxAge n =>
      have hagrees := lifetime_agrees hdated hnow (hlifetime n rfl)
      simpa [Limit.fresh, Limit.time, Limit.lifetime] using hagrees
  | expires n =>
      have hn := hexpires n rfl
      have hcast : asI64 n = n := wrap_natCast hn
      have hrange : InRange (n - now) := ⟨by omega, by omega⟩
      simp [Limit.fresh, Limit.time, Limit.lifetime, hcast, wrap_of_inRange hrange, hrange]
  | ttl n =>
      by_cases hzero : n = 0
      · subst hzero
        have hagreeing : Agreeing now cachedAt 0 := Or.inl (by omega)
        simpa [Limit.fresh, Limit.time, Limit.lifetime] using hagreeing
      · have hagrees := lifetime_agrees hdated hnow (hlifetime n rfl)
        have hpos : 0 < n := Nat.pos_of_ne_zero hzero
        simpa [Limit.fresh, Limit.time, Limit.lifetime, hpos] using hagrees

end

/-- A limit by `Expires` is a date that was read. -/
theorem limit_expires {parseHttpDate : Text → Option Nat} {headers : HeaderMap}
    {maxCacheAge n : Nat} (h : limit parseHttpDate headers maxCacheAge = .expires n) :
    ∃ t, parseHttpDate t = some n := by
  rcases limit_cases with hlimit | ⟨-, age, -, hlimit⟩ | ⟨text, time, htime, hlimit⟩ | hlimit
  · cases hlimit.symm.trans h
  · cases hlimit.symm.trans h
  · cases hlimit.symm.trans h
    exact ⟨text, htime⟩
  · cases hlimit.symm.trans h

/-- **Two ways to say fresh, exactly**: for an entry with a date, `is_fresh`
    and `time_until_expiry` agree and compute without overflow if and only if
    the lifetime that limits it, if one does, is agreeing. -/
theorem freshAgrees_iff (D : HttpDates) (now cachedAt : Int64) (headers : HeaderMap)
    (maxCacheAge : UInt64) :
    FreshAgrees D.parse now.toInt cachedAt.toInt headers maxCacheAge.toNat ↔
      (Dated now.toInt cachedAt.toInt →
        ∀ n, (limit D.parse headers maxCacheAge.toNat).lifetime = some n →
          Agreeing now.toInt cachedAt.toInt n) := by
  by_cases hdated : Dated now.toInt cachedAt.toInt
  · rw [freshAgrees_of_dated hdated now.toInt_lt, limit_agrees_iff hdated now.toInt_lt]
    · constructor
      · intro hall _
        exact hall
      · intro hall
        exact hall hdated
    · intro n hn
      exact lifetime_lt maxCacheAge.toNat_lt hn
    · intro n hn
      obtain ⟨t, ht⟩ := limit_expires hn
      exact D.lt t n ht
  · refine iff_of_true ⟨?_, ?_, ?_⟩ fun h => absurd h hdated
    · rw [timeUntilExpiry_pos_iff, isFresh_eq, expiryTime_eq, if_neg hdated,
        decide_eq_false hdated]
      simp
    · intro h
      exact absurd h hdated
    · intro time htime
      rw [expiryTime_eq, if_neg hdated] at htime
      cases htime

/-- No text is a date. -/
def noDates : HttpDates := ⟨fun _ => none, nofun⟩

/-- A `max-age` of 2^63 seconds. -/
def hugeMaxAge : HeaderMap :=
  [("cache-control".toList, "max-age=9223372036854775808".toList)]

/-- A lifetime of 2^63 seconds, ten seconds after the file was cached: it is
    not fresh, and will be for 2^63 - 10 seconds. -/
theorem not_freshAgrees :
    isFresh noDates.parse 1000 990 hugeMaxAge 0 = false ∧
      timeUntilExpiry noDates.parse 1000 990 hugeMaxAge 0 = some 9223372036854775798 ∧
      ∃ time, expiryTime noDates.parse 1000 990 hugeMaxAge 0 = some time ∧
        ¬ InRange (time - 1000) := by
  refine ⟨?_, ?_, -9223372036854774818, ?_, ?_⟩
  · decide
  · decide
  · decide
  · decide

/-! ## Longer lifetimes -/

/-- `is_fresh` compares the age with the lifetime as integers. -/
def ComparesExactly (parseHttpDate : Text → Option Nat) (now cachedAt : Int) (headers : HeaderMap)
    (maxCacheAge n : Nat) : Prop :=
  isFresh parseHttpDate now cachedAt headers maxCacheAge = true ↔
    Dated now cachedAt ∧ now - cachedAt < n

section

variable {parseHttpDate : Text → Option Nat} {now cachedAt : Int} {headers : HeaderMap}
  {maxCacheAge n : Nat}

/-- A lifetime is compared as an `i64`. -/
theorem isFresh_of_lifetime
    (hn : (limit parseHttpDate headers maxCacheAge).lifetime = some n) :
    isFresh parseHttpDate now cachedAt headers maxCacheAge = true ↔
      Dated now cachedAt ∧ now - cachedAt < asI64 n := by
  rw [isFresh_eq, Bool.and_eq_true, decide_eq_true_iff]
  refine and_congr_right fun hdated => ?_
  cases hl : limit parseHttpDate headers maxCacheAge with
  | forbidden =>
      rw [hl] at hn
      cases hn
  | maxAge m =>
      rw [hl] at hn
      cases hn
      rw [Limit.fresh, decide_eq_true_iff]
  | expires m =>
      rw [hl] at hn
      cases hn
  | ttl m =>
      rw [hl] at hn
      cases hn
      simp only [Limit.fresh, Bool.and_eq_true, decide_eq_true_iff]
      refine and_iff_right_of_imp fun hfresh => ?_
      -- no age is negative
      by_contra hzero
      obtain rfl : n = 0 := Nat.eq_zero_of_not_pos hzero
      obtain ⟨-, hle⟩ := hdated
      have hcast : asI64 0 = 0 := rfl
      omega

/-- A lifetime from 2^63 on leaves no time at all. -/
theorem isFresh_iff (hn : (limit parseHttpDate headers maxCacheAge).lifetime = some n)
    (hlt : n < 2 ^ 64) :
    isFresh parseHttpDate now cachedAt headers maxCacheAge = true ↔
      Dated now cachedAt ∧ n < 2 ^ 63 ∧ now - cachedAt < n := by
  rw [isFresh_of_lifetime hn]
  refine and_congr_right fun ⟨_, hle⟩ => ?_
  by_cases hsmall : n < 2 ^ 63
  · have hcast : asI64 n = n := wrap_natCast hsmall
    rw [hcast, and_iff_right hsmall]
  · have hcast : asI64 n = n - 2 ^ 64 := wrap_natCast_of_le (not_lt.mp hsmall) hlt
    rw [hcast]
    omega

end

/-- **Longer lifetimes, exactly**: an entry that is fresh stays fresh with a
    longer lifetime if and only if that is an `i64` (or the entry was not
    fresh); and the comparison with it is that of integers if and only if it
    is an `i64`, or the entry has no date. -/
theorem lifetimes_iff (D : HttpDates) (now cachedAt : Int64) (headers headers' : HeaderMap)
    (maxCacheAge maxCacheAge' : UInt64) (n n' : Nat)
    (hn : (limit D.parse headers maxCacheAge.toNat).lifetime = some n)
    (hn' : (limit D.parse headers' maxCacheAge'.toNat).lifetime = some n') (hle : n ≤ n') :
    ((isFresh D.parse now.toInt cachedAt.toInt headers maxCacheAge.toNat = true →
        isFresh D.parse now.toInt cachedAt.toInt headers' maxCacheAge'.toNat = true) ↔
      n' < 2 ^ 63 ∨ 2 ^ 63 ≤ n ∨ ¬ Dated now.toInt cachedAt.toInt ∨
        n ≤ now.toInt - cachedAt.toInt) ∧
    (ComparesExactly D.parse now.toInt cachedAt.toInt headers' maxCacheAge'.toNat n' ↔
      n' < 2 ^ 63 ∨ ¬ Dated now.toInt cachedAt.toInt) := by
  have hnow := now.toInt_lt
  rw [ComparesExactly, isFresh_iff hn (lifetime_lt maxCacheAge.toNat_lt hn),
    isFresh_iff hn' (lifetime_lt maxCacheAge'.toNat_lt hn')]
  constructor
  · by_cases hdated : Dated now.toInt cachedAt.toInt
    · simp only [hdated, true_and, not_true_eq_false, false_or]
      omega
    · simp [hdated]
  · by_cases hdated : Dated now.toInt cachedAt.toInt
    · obtain ⟨hpos, hage⟩ := id hdated
      simp only [hdated, true_and, not_true_eq_false, or_false]
      omega
    · simp [hdated]

/-- A `max-age` of an hour. -/
def hourMaxAge : HeaderMap := [("cache-control".toList, "max-age=3600".toList)]

/-- What is fresh for an hour is fresh with a `max_cache_age` of a day. -/
theorem lifetimes_hour_day :
    isFresh noDates.parse (1000 : Int64).toInt (990 : Int64).toInt hourMaxAge (0 : UInt64).toNat
        = true ∧
      isFresh noDates.parse (1000 : Int64).toInt (990 : Int64).toInt [] (86400 : UInt64).toNat
        = true := by
  have hfresh : isFresh noDates.parse (1000 : Int64).toInt (990 : Int64).toInt hourMaxAge
      (0 : UInt64).toNat = true := by decide
  have hlonger := (lifetimes_iff noDates 1000 990 hourMaxAge [] 0 86400 3600 86400 (by decide)
    (by decide) (by decide)).1.mpr (Or.inl (by decide))
  exact ⟨hfresh, hlonger hfresh⟩

/-- `max-age`, or `max_cache_age`, goes from 2^63 - 1 to 2^63. -/
theorem not_lifetimes :
    (isFresh noDates.parse 1000 990
        [("cache-control".toList, "max-age=9223372036854775807".toList)] 0 = true ∧
      isFresh noDates.parse 1000 990 hugeMaxAge 0 = false) ∧
    isFresh noDates.parse 1000 990 [] (2 ^ 63 - 1) = true ∧
      isFresh noDates.parse 1000 990 [] (2 ^ 63) = false := by
  refine ⟨⟨?_, ?_⟩, ?_, ?_⟩
  · decide
  · decide
  · decide
  · decide

end BlitzExpiry
