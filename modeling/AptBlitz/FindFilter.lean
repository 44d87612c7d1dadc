import AptBlitz.Library.I64
import AptBlitz.Library.Numerals

/-! # The filter of `find`

    `FindFilter` bounds the size of an entry and its age, from below and from
    above.  Sizes are compared as they are.  The bound on an age is a `u64`
    that is compared as an `i64`, and from 2^63 on it is 2^64 too small: then
    an entry passes that is not old enough, or does not that is young enough,
    unless another bound hides it: `passes_exact_iff`. -/

namespace BlitzFindFilter

open RustText I64

/-! ## Sizes and durations -/

/-- A number with the letter of a unit behind it. -/
def parseWithUnit (units : List (List Char × Nat)) (arg : Text) : Option UInt64 :=
  match (trim arg).getLast? with
  | none => none
  | some last =>
      let (digits, mult) :=
        match units.find? fun u => u.1.contains last with
        | some u => ((trim arg).dropLast, u.2)
        | none => (trim arg, 1)
      match parseUnsigned (2 ^ 64 - 1) (trim digits) with
      | .error _ => none
      | .ok n => if n * mult < 2 ^ 64 then some (.ofNat (n * mult)) else none

/-- `parse_size`. -/
def parseSize : Text → Option UInt64 :=
  parseWithUnit [(['k', 'K'], 1024), (['m', 'M'], 1024 * 1024), (['g', 'G'], 1024 * 1024 * 1024),
    (['t', 'T'], 1024 * 1024 * 1024 * 1024)]

/-- `parse_duration`. -/
def parseDuration : Text → Option UInt64 :=
  parseWithUnit [(['s', 'S'], 1), (['m', 'M'], 60), (['h', 'H'], 3600), (['d', 'D'], 86400),
    (['w', 'W'], 604800)]

/-! ## The filter -/

/-- `FindFilter`. -/
structure FindFilter where
  minSize : Option UInt64
  maxSize : Option UInt64
  cachedMinAge : Option UInt64
  cachedMaxAge : Option UInt64
  accessMinAge : Option UInt64
  accessMaxAge : Option UInt64
  deriving DecidableEq

/-- What the filter reads of an entry; the times are `i64`. -/
structure CachedFile where
  size : UInt64
  lastAccess : Int
  cachedAt : Int
  deriving DecidableEq

/-- `now.saturating_sub(at) < age as i64` -/
def tooYoung (now at_ : Int) (age : UInt64) : Bool := saturate (now - at_) < wrap age.toNat

/-- `now.saturating_sub(at) > age as i64` -/
def tooOld (now at_ : Int) (age : UInt64) : Bool := wrap age.toNat < saturate (now - at_)

/-- `passes`. -/
def FindFilter.passes (f : FindFilter) (entry : CachedFile) (now : Int) : Bool :=
  if f.minSize.any fun min => entry.size < min then false
  else if f.maxSize.any fun max => max < entry.size then false
  else if f.cachedMinAge.any (tooYoung now entry.cachedAt) then false
  else if f.cachedMaxAge.any (tooOld now entry.cachedAt) then false
  else if f.accessMinAge.any (tooYoung now entry.lastAccess) then false
  else if f.accessMaxAge.any (tooOld now entry.lastAccess) then false
  else true

/-! ## What it should say -/

/-- Every bound that is given holds, in the integers. -/
structure Within (f : FindFilter) (entry : CachedFile) (now : Int) : Prop where
  minSize : ∀ min ∈ f.minSize, min.toNat ≤ entry.size.toNat
  maxSize : ∀ max ∈ f.maxSize, entry.size.toNat ≤ max.toNat
  cachedMinAge : ∀ age ∈ f.cachedMinAge, (age.toNat : Int) ≤ now - entry.cachedAt
  cachedMaxAge : ∀ age ∈ f.cachedMaxAge, now - entry.cachedAt ≤ age.toNat
  accessMinAge : ∀ age ∈ f.accessMinAge, (age.toNat : Int) ≤ now - entry.lastAccess
  accessMaxAge : ∀ age ∈ f.accessMaxAge, now - entry.lastAccess ≤ age.toNat

/-- `g` has no greater minimum than `f`, and no smaller maximum. -/
structure Wider (f g : FindFilter) : Prop where
  minSize : ∀ min ∈ g.minSize, ∃ min' ∈ f.minSize, min.toNat ≤ min'.toNat
  maxSize : ∀ max ∈ g.maxSize, ∃ max' ∈ f.maxSize, max'.toNat ≤ max.toNat
  cachedMinAge : ∀ age ∈ g.cachedMinAge, ∃ age' ∈ f.cachedMinAge, age.toNat ≤ age'.toNat
  cachedMaxAge : ∀ age ∈ g.cachedMaxAge, ∃ age' ∈ f.cachedMaxAge, age'.toNat ≤ age.toNat
  accessMinAge : ∀ age ∈ g.accessMinAge, ∃ age' ∈ f.accessMinAge, age.toNat ≤ age'.toNat
  accessMaxAge : ∀ age ∈ g.accessMaxAge, ∃ age' ∈ f.accessMaxAge, age'.toNat ≤ age.toNat

/-- A time that the clock can show, from the epoch on. -/
def IsTime (t : Int) : Prop := 0 ≤ t ∧ t < 2 ^ 63

instance (t : Int) : Decidable (IsTime t) := inferInstanceAs (Decidable (_ ∧ _))

/-- One of the bounds on an age: the time it counts from, and whether it is a
    minimum. -/
structure AgeBound where
  isMin : Bool
  age : UInt64
  since : Int

namespace AgeBound

/-- The entry's age keeps to the bound, less `deduction`. -/
def Holds (b : AgeBound) (now deduction : Int) : Prop :=
  if b.isMin then b.age.toNat - deduction ≤ now - b.since
  else now - b.since ≤ b.age.toNat - deduction

/-- The bound is no `i64`. -/
def Huge (b : AgeBound) : Prop := 2 ^ 63 ≤ b.age.toNat

end AgeBound

/-- The bounds on the ages of an entry. -/
def FindFilter.ageBounds (f : FindFilter) (entry : CachedFile) : List AgeBound :=
  (f.cachedMinAge.map (⟨true, ·, entry.cachedAt⟩)).toList ++
    (f.cachedMaxAge.map (⟨false, ·, entry.cachedAt⟩)).toList ++
    (f.accessMinAge.map (⟨true, ·, entry.lastAccess⟩)).toList ++
    (f.accessMaxAge.map (⟨false, ·, entry.lastAccess⟩)).toList

/-- The size is between its bounds. -/
def SizeFits (f : FindFilter) (entry : CachedFile) : Prop :=
  (∀ min ∈ f.minSize, min.toNat ≤ entry.size.toNat) ∧
    ∀ max ∈ f.maxSize, entry.size.toNat ≤ max.toNat

/-- A bound that is not huge excludes the entry; or there is a huge minimum,
    which excludes every entry, exactly if a huge bound that is 2^64 too small
    excludes it. -/
def Settled (f : FindFilter) (entry : CachedFile) (now : Int) : Prop :=
  SizeFits f entry → (∀ b ∈ f.ageBounds entry, ¬ b.Huge → b.Holds now 0) →
    ((∃ b ∈ f.ageBounds entry, b.Huge ∧ b.isMin = true) ↔
      ∃ b ∈ f.ageBounds entry, b.Huge ∧ ¬ b.Holds now (2 ^ 64))

variable {f g : FindFilter} {entry : CachedFile} {now : Int} {b : AgeBound} {n : Nat}

/-! ## Any bound can be given -/

/-- Every `u64` without a unit is read back, as a size and as a duration. -/
theorem parseWithUnit_natText {units : List (List Char × Nat)}
    (hunits : units.all (fun u => u.1.all (!·.isDigit)) = true) (n : UInt64) :
    parseWithUnit units (natText n.toNat) = some n := by
  have hnumeral : IsNumeral (natText n.toNat) := isNumeral_natText n.toNat
  have hlt : n.toNat < 2 ^ 64 := n.toNat_lt
  have hlast := List.getLast?_eq_some_getLast hnumeral.1
  have hnone : units.find? (fun u => u.1.contains ((natText n.toNat).getLast hnumeral.1)) = none := by
    refine List.find?_eq_none.mpr ?_
    intro u hu hcontains
    have hletters := List.all_eq_true.mp (List.all_eq_true.mp hunits u hu)
    have hletter := hletters _ (List.contains_iff_mem.mp hcontains)
    rw [hnumeral.2 _ (List.getLast_mem hnumeral.1)] at hletter
    cases hletter
  rw [parseWithUnit, hnumeral.trim, hlast]
  dsimp only
  rw [hnone]
  dsimp only
  rw [hnumeral.trim, parseUnsigned_natText (by omega)]
  dsimp only
  rw [Nat.mul_one, if_pos hlt, UInt64.ofNat_toNat]

/-! ## The bounds, one by one -/

theorem forall_mem_map_toList {P : AgeBound → Prop} {o : Option UInt64} {bound : UInt64 → AgeBound} :
    (∀ b ∈ (o.map bound).toList, P b) ↔ ∀ age ∈ o, P (bound age) := by
  cases o with
  | none => exact iff_of_true nofun nofun
  | some age => simp

/-- The four bounds, one by one. -/
theorem forall_ageBounds {P : AgeBound → Prop} :
    (∀ b ∈ f.ageBounds entry, P b) ↔
      (∀ age ∈ f.cachedMinAge, P ⟨true, age, entry.cachedAt⟩) ∧
      (∀ age ∈ f.cachedMaxAge, P ⟨false, age, entry.cachedAt⟩) ∧
      (∀ age ∈ f.accessMinAge, P ⟨true, age, entry.lastAccess⟩) ∧
      ∀ age ∈ f.accessMaxAge, P ⟨false, age, entry.lastAccess⟩ := by
  rw [FindFilter.ageBounds, List.forall_mem_append, List.forall_mem_append, List.forall_mem_append,
    forall_mem_map_toList, forall_mem_map_toList, forall_mem_map_toList, forall_mem_map_toList,
    and_assoc, and_assoc]

/-- A bound counts from one of the entry's two times. -/
theorem since_of_mem (h : b ∈ f.ageBounds entry) :
    b.since = entry.cachedAt ∨ b.since = entry.lastAccess := by
  revert b
  rw [forall_ageBounds]
  exact ⟨fun _ _ => Or.inl rfl, fun _ _ => Or.inl rfl, fun _ _ => Or.inr rfl,
    fun _ _ => Or.inr rfl⟩

/-- The entry is within the filter if its size fits and every bound on its
    ages holds. -/
theorem within_iff :
    Within f entry now ↔ SizeFits f entry ∧ ∀ b ∈ f.ageBounds entry, b.Holds now 0 := by
  rw [forall_ageBounds]
  simp only [AgeBound.Holds, if_true, Bool.false_eq_true, if_false, sub_zero]
  constructor
  · rintro ⟨hmin, hmax, h1, h2, h3, h4⟩
    exact ⟨⟨hmin, hmax⟩, h1, h2, h3, h4⟩
  · rintro ⟨⟨hmin, hmax⟩, h1, h2, h3, h4⟩
    exact ⟨hmin, hmax, h1, h2, h3, h4⟩

/-- What `passes` makes of a bound. -/
def AgeBound.Reads (b : AgeBound) (now : Int) : Prop :=
  if b.isMin then tooYoung now b.since b.age = false else tooOld now b.since b.age = false

/-- A test of `passes` that returns early. -/
theorem unless_iff {excluded passed : Bool} :
    (if excluded then false else passed) = true ↔ excluded = false ∧ passed = true := by
  cases excluded with
  | true => exact iff_of_false nofun nofun
  | false => exact (and_iff_right rfl).symm

/-- A test of a bound that may be missing. -/
theorem any_eq_false_iff {o : Option UInt64} {p : UInt64 → Bool} :
    o.any p = false ↔ ∀ x ∈ o, p x = false := by
  cases o with
  | none => exact iff_of_true rfl nofun
  | some x =>
      constructor
      · intro h y hy
        cases hy
        exact h
      · intro h
        exact h x rfl

/-- What `passes` says, bound by bound. -/
theorem passes_iff :
    f.passes entry now = true ↔ SizeFits f entry ∧ ∀ b ∈ f.ageBounds entry, b.Reads now := by
  rw [forall_ageBounds, FindFilter.passes]
  simp only [unless_iff, any_eq_false_iff, AgeBound.Reads, SizeFits, if_true,
    Bool.false_eq_true, if_false, decide_eq_false_iff_not, UInt64.lt_iff_toNat_lt, not_lt, and_true,
    and_assoc]

/-- What the test of a bound says, with the cast it makes. -/
theorem reads_iff (hnow : IsTime now) (hsince : IsTime b.since) :
    b.Reads now ↔ if b.isMin then wrap b.age.toNat ≤ now - b.since
      else now - b.since ≤ wrap b.age.toNat := by
  obtain ⟨hnow0, hnow1⟩ := hnow
  obtain ⟨hsince0, hsince1⟩ := hsince
  have hexact : saturate (now - b.since) = now - b.since :=
    saturate_of_inRange ⟨by omega, by omega⟩
  rw [AgeBound.Reads, tooYoung, tooOld, hexact]
  cases b.isMin with
  | true => simp
  | false => simp

/-- A bound that is an `i64` is read as it is. -/
theorem reads_of_not_huge (hnow : IsTime now) (hsince : IsTime b.since) (h : ¬ b.Huge) :
    b.Reads now ↔ b.Holds now 0 := by
  have hexact : wrap b.age.toNat = b.age.toNat := wrap_natCast (not_le.mp h)
  rw [reads_iff hnow hsince, hexact, AgeBound.Holds, sub_zero]

/-- A huge one is read as 2^64 less. -/
theorem reads_of_huge (hnow : IsTime now) (hsince : IsTime b.since) (h : b.Huge) :
    b.Reads now ↔ b.Holds now (2 ^ 64) := by
  have hwrap : wrap b.age.toNat = b.age.toNat - 2 ^ 64 := wrap_natCast_of_le h b.age.toNat_lt
  rw [reads_iff hnow hsince, hwrap, AgeBound.Holds]

/-- In the integers a huge minimum excludes everything, and a huge maximum
    nothing. -/
theorem holds_of_huge (hnow : IsTime now) (hsince : IsTime b.since) (h : b.Huge) :
    b.Holds now 0 ↔ b.isMin = false := by
  obtain ⟨hnow0, hnow1⟩ := hnow
  obtain ⟨hsince0, hsince1⟩ := hsince
  rw [AgeBound.Huge] at h
  rw [AgeBound.Holds]
  cases b.isMin with
  | true =>
      refine iff_of_false ?_ nofun
      rw [if_pos rfl]
      omega
  | false =>
      refine iff_of_true ?_ rfl
      rw [if_neg Bool.false_ne_true]
      omega

/-! ## Exactly when -/

/-- A bound that is no stricter than another holds where that one does. -/
theorem holds_of_wider {P : UInt64 → Prop} {le : UInt64 → UInt64 → Prop} {o o' : Option UInt64}
    (hwider : ∀ x ∈ o', ∃ y ∈ o, le x y) (hle : ∀ {x y}, le x y → P y → P x) (h : ∀ y ∈ o, P y) :
    ∀ x ∈ o', P x := by
  intro x hx
  obtain ⟨y, hy, hxy⟩ := hwider x hx
  exact hle hxy (h y hy)

/-- What is within narrower bounds is within wider ones. -/
theorem Within.of_wider (h : Within f entry now) (hwider : Wider f g) : Within g entry now where
  minSize := holds_of_wider hwider.minSize (fun hle hmin => hle.trans hmin) h.minSize
  maxSize := holds_of_wider hwider.maxSize (fun hle hmax => hmax.trans hle) h.maxSize
  cachedMinAge := holds_of_wider hwider.cachedMinAge (fun hle hage => by omega) h.cachedMinAge
  cachedMaxAge := holds_of_wider hwider.cachedMaxAge (fun hle hage => by omega) h.cachedMaxAge
  accessMinAge := holds_of_wider hwider.accessMinAge (fun hle hage => by omega) h.accessMinAge
  accessMaxAge := holds_of_wider hwider.accessMaxAge (fun hle hage => by omega) h.accessMaxAge

/-- Where the bounds that are not huge are met, only the huge ones are left. -/
theorem forall_iff_of_small {P Q : AgeBound → Prop} {bounds : List AgeBound}
    (hsmall : ∀ b ∈ bounds, ¬ b.Huge → Q b) (hhuge : ∀ b ∈ bounds, b.Huge → (Q b ↔ ¬ P b)) :
    (∀ b ∈ bounds, Q b) ↔ ¬ ∃ b ∈ bounds, b.Huge ∧ P b := by
  constructor
  · rintro hall ⟨b, hb, hbig, hP⟩
    exact (hhuge b hb hbig).mp (hall b hb) hP
  · intro hnone b hb
    by_cases hbig : b.Huge
    · exact (hhuge b hb hbig).mpr fun hP => hnone ⟨b, hb, hbig, hP⟩
    · exact hsmall b hb hbig

/-- The filter is exact for an entry if and only if its huge bounds settle
    what they should. -/
theorem passes_iff_within_iff (hnow : IsTime now) (hcached : IsTime entry.cachedAt)
    (haccess : IsTime entry.lastAccess) :
    (f.passes entry now = true ↔ Within f entry now) ↔ Settled f entry now := by
  have hsince : ∀ b ∈ f.ageBounds entry, IsTime b.since := by
    intro b hb
    rcases since_of_mem hb with heq | heq
    · exact heq ▸ hcached
    · exact heq ▸ haccess
  rw [passes_iff, within_iff, Settled]
  by_cases hrest : SizeFits f entry ∧ ∀ b ∈ f.ageBounds entry, ¬ b.Huge → b.Holds now 0
  · obtain ⟨hsize, hsmall⟩ := hrest
    have hreads : (∀ b ∈ f.ageBounds entry, b.Reads now) ↔
        ¬ ∃ b ∈ f.ageBounds entry, b.Huge ∧ ¬ b.Holds now (2 ^ 64) := by
      refine forall_iff_of_small ?_ ?_
      · intro b hb hhuge
        exact (reads_of_not_huge hnow (hsince b hb) hhuge).mpr (hsmall b hb hhuge)
      · intro b hb hhuge
        rw [not_not]
        exact reads_of_huge hnow (hsince b hb) hhuge
    have hholds : (∀ b ∈ f.ageBounds entry, b.Holds now 0) ↔
        ¬ ∃ b ∈ f.ageBounds entry, b.Huge ∧ b.isMin = true := by
      refine forall_iff_of_small hsmall ?_
      intro b hb hhuge
      rw [Bool.not_eq_true]
      exact holds_of_huge hnow (hsince b hb) hhuge
    rw [and_iff_right hsize, and_iff_right hsize, hreads, hholds, not_iff_not]
    constructor
    · intro h _ _
      exact h.symm
    · intro h
      exact (h hsize hsmall).symm
  · -- another bound excludes the entry, whatever the huge ones do
    refine iff_of_true (iff_of_false ?_ ?_) ?_
    · rintro ⟨hsize, hall⟩
      refine hrest ⟨hsize, fun b hb hhuge => ?_⟩
      exact (reads_of_not_huge hnow (hsince b hb) hhuge).mp (hall b hb)
    · rintro ⟨hsize, hall⟩
      exact hrest ⟨hsize, fun b hb _ => hall b hb⟩
    · intro hsize hsmall
      exact absurd ⟨hsize, hsmall⟩ hrest

/-- **Exactly**: an entry passes if and only if all bounds hold, under the
    exact condition; and where two filters meet it, the wider one admits no
    less. -/
theorem passes_exact_iff (f : FindFilter) (hnow : IsTime now) (hcached : IsTime entry.cachedAt)
    (haccess : IsTime entry.lastAccess) :
    ((f.passes entry now = true ↔ Within f entry now) ↔ Settled f entry now) ∧
      ∀ g, Wider f g → Settled f entry now → Settled g entry now → f.passes entry now = true →
        g.passes entry now = true := by
  refine ⟨passes_iff_within_iff hnow hcached haccess, ?_⟩
  intro g hwider hf hg hpasses
  have hwithin := ((passes_iff_within_iff hnow hcached haccess).mpr hf).mp hpasses
  exact ((passes_iff_within_iff hnow hcached haccess).mpr hg).mpr (hwithin.of_wider hwider)

/-- A file that has just been cached, and a filter for files of 2^63 seconds
    and more. -/
def justCached : CachedFile := ⟨10, 1000000, 1000000⟩

/-- The filter for files of 2^63 seconds and more. -/
def veryOld : FindFilter := ⟨none, none, some 9223372036854775808, none, none, none⟩

theorem passes_exact_iff_justCached :
    ((veryOld.passes justCached 1000000 = true ↔ Within veryOld justCached 1000000) ↔
        Settled veryOld justCached 1000000) ∧
      ∀ g, Wider veryOld g → Settled veryOld justCached 1000000 → Settled g justCached 1000000 →
        veryOld.passes justCached 1000000 = true → g.passes justCached 1000000 = true :=
  passes_exact_iff veryOld (by decide) (by decide) (by decide)

/-- It passes, and is not old at all. -/
theorem not_passes_iff_within_veryOld :
    ¬ (veryOld.passes justCached 1000000 = true ↔ Within veryOld justCached 1000000) := by
  intro hexact
  have hwithin := hexact.mp (by decide)
  have hage := hwithin.cachedMinAge 9223372036854775808 rfl
  exact absurd hage (by decide)

end BlitzFindFilter
