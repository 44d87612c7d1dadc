import AptBlitz.CacheDisk
import AptBlitz.Library.Eviction
import Mathlib.Algebra.BigOperators.Group.Finset.Basic
import Mathlib.Algebra.Order.BigOperators.Group.Finset

/-! # `evict_inner`

    The loop asks for the sum of the sizes, and removes the row that was
    accessed least recently, with its file, until the sum is at most
    `max_size`.  This is an eviction in the sense of `Eviction`, by
    `last_access`, as long as the database can tell the sum: beyond `i64` it
    answers with an error, and the loop takes the cache for empty.

    `evictInner_lru_iff` says that the loop does what it is for if and only
    if that does not happen, or nothing had to be evicted. -/

namespace BlitzCacheEviction

open RustText BlitzHeaders BlitzCache Disk BlitzCacheDisk Eviction

variable {φ : Type} {d d' : Disk φ} {h hash p : Text} {row : Row} {victims : List Text}
  {maxSize : Nat}

/-! ## The table as a set of entries -/

/-- A row and its hash. -/
abbrev Entry := Sigma fun _ : Text => Row

/-- The rows of the cache, as a set. -/
def table (d : Disk φ) : Finset Entry := d.rows.entries.toFinset

/-- When the entry was last used. -/
def Entry.lastAccess (e : Entry) : Int := e.2.lastAccess

/-- What the entries take. -/
def weight (s : Finset Entry) : Nat := ∑ e ∈ s, e.2.size

/-- `total <= max_size`, of the true sum. -/
def Fits (maxSize : Nat) (s : Finset Entry) : Prop := weight s ≤ maxSize

theorem mem_table {e : Entry} : e ∈ table d ↔ d.rows.lookup e.1 = some e.2 := by
  rw [table, List.mem_toFinset]
  exact AList.mem_lookup_iff.symm

/-- The rows take what `SUM(size)` adds up. -/
theorem weight_table : weight (table d) = d.sizeSum :=
  List.sum_toFinset _ d.rows.nodupKeys.nodup

theorem isLowerSet_fits : IsLowerSet (Fits maxSize) := by
  intro s t hts hs
  have hs : weight s ≤ maxSize := hs
  exact (Finset.sum_le_sum_of_subset hts).trans hs

theorem fits_empty : Fits maxSize ∅ := Nat.zero_le _

/-- A row less. -/
theorem table_remove (hrow : d.rows.lookup hash = some row) :
    table (d.remove hash p) = (table d).erase ⟨hash, row⟩ := by
  ext ⟨h, r⟩
  rw [Finset.mem_erase, mem_table, mem_table]
  show (d.rows.erase hash).lookup h = some r ↔ _
  by_cases hh : h = hash
  · subst hh
    rw [AList.lookup_erase]
    constructor
    · exact nofun
    · rintro ⟨hne, hr⟩
      obtain rfl : row = r := Option.some.inj (hrow.symm.trans hr)
      exact absurd rfl hne
  · rw [AList.lookup_erase_ne hh]
    constructor
    · intro hr
      refine ⟨?_, hr⟩
      intro heq
      exact hh (congrArg Sigma.fst heq)
    · exact And.right

/-! ## One turn of the loop -/

/-- A turn of the loop that removes a row. -/
def evictTurn (maxSize : Nat) (d : Disk φ) (hash : Text) : Option (Disk φ) :=
  if d.totalSize ≤ maxSize then none
  else match d.rows.lookup hash with
    | none => none
    | some row =>
        if d.rows.entries.all fun e => row.lastAccess ≤ e.2.lastAccess then
          some (d.remove hash row.filePath)
        else none

/-- One victim after the other. -/
theorem evictInner_cons :
    evictInner maxSize d (hash :: victims)
      = (evictTurn maxSize d hash).bind fun d => evictInner maxSize d victims := by
  rw [evictInner, evictTurn]
  split
  · rfl
  · cases d.rows.lookup hash with
    | none => rfl
    | some row =>
        dsimp only
        split
        · rfl
        · rfl

/-- The sum of a cache below 2^63 is exact. -/
theorem totalSize_eq (hsmall : d.sizeSum < 2 ^ 63) : d.totalSize = weight (table d) := by
  rw [totalSize, if_pos hsmall, weight_table]

/-- What a turn does, where the sum is no error. -/
theorem evictTurn_some (hsmall : d.sizeSum < 2 ^ 63) :
    evictTurn maxSize d hash = some d' ↔ ∃ row, d.rows.lookup hash = some row ∧
      ¬ Fits maxSize (table d) ∧ (∀ e ∈ table d, row.lastAccess ≤ e.2.lastAccess) ∧
      d' = d.remove hash row.filePath := by
  have hall : ∀ row : Row, (d.rows.entries.all fun e => row.lastAccess ≤ e.2.lastAccess) = true ↔
      ∀ e ∈ table d, row.lastAccess ≤ e.2.lastAccess := by
    intro row
    simp only [List.all_eq_true, decide_eq_true_iff, table, List.mem_toFinset]
  rw [evictTurn, totalSize_eq hsmall]
  constructor
  · intro h
    split at h
    · cases h
    next hgo =>
      split at h
      · cases h
      next row hrow =>
        split at h
        next hmin =>
          cases h
          exact ⟨row, hrow, hgo, (hall row).mp hmin, rfl⟩
        next => cases h
  · rintro ⟨row, hrow, hgo, hmin, rfl⟩
    rw [if_neg (show ¬ weight (table d) ≤ maxSize from hgo), hrow]
    exact if_pos ((hall row).mpr hmin)

theorem sizeSum_remove_le (hrow : d.rows.lookup hash = some row) :
    (d.remove hash p).sizeSum ≤ d.sizeSum := by
  rw [← weight_table, ← weight_table, table_remove hrow]
  exact Finset.sum_le_sum_of_subset (Finset.erase_subset ..)

/-! ## The loop is an eviction -/

/-- The loop stops when what is left fits. -/
theorem evictInner_nil (hsmall : d.sizeSum < 2 ^ 63) :
    evictInner maxSize d [] = some d' ↔ Fits maxSize (table d) ∧ d' = d := by
  rw [evictInner, totalSize_eq hsmall]
  constructor
  · intro h
    split at h
    next hfits =>
      cases h
      exact ⟨hfits, rfl⟩
    next => cases h
  · rintro ⟨hfits, rfl⟩
    exact if_pos hfits

/-- The loop takes entries in the order of `last_access`, and their files. -/
theorem evicts_of_evictInner (hsmall : d.sizeSum < 2 ^ 63)
    (hev : evictInner maxSize d victims = some d') :
    ∃ is : List Entry, is.map Sigma.fst = victims ∧
      Evicts Entry.lastAccess (Fits maxSize) (table d) is (table d') ∧
      ∀ p, d'.files.lookup p
        = if p ∈ is.map (fun e => e.2.filePath) then none else d.files.lookup p := by
  induction victims generalizing d with
  | nil =>
      obtain ⟨hfits, rfl⟩ := (evictInner_nil hsmall).mp hev
      exact ⟨[], rfl, .done hfits, fun _ => rfl⟩
  | cons hash victims ih =>
      rw [evictInner_cons] at hev
      obtain ⟨d₁, hturn, hrest⟩ := Option.bind_eq_some_iff.mp hev
      obtain ⟨row, hrow, hgo, hmin, rfl⟩ := (evictTurn_some hsmall).mp hturn
      obtain ⟨is, rfl, hevicts, hfiles⟩ := ih ((sizeSum_remove_le hrow).trans_lt hsmall) hrest
      rw [table_remove hrow] at hevicts
      refine ⟨⟨hash, row⟩ :: is, rfl, .evict hgo (mem_table.mpr hrow) hmin hevicts, fun p => ?_⟩
      rw [hfiles]
      by_cases hp : p = row.filePath
      · subst hp
        have hgone : (d.remove hash row.filePath).files.lookup row.filePath = none :=
          Finmap.lookup_erase ..
        rw [hgone, ite_self, if_pos (List.mem_map.mpr ⟨_, List.mem_cons_self, rfl⟩)]
      · have hstays : (d.remove hash row.filePath).files.lookup p = d.files.lookup p :=
          Finmap.lookup_erase_ne hp
        rw [hstays, List.map_cons]
        simp only [List.mem_cons, hp, false_or]

/-- Every eviction of the table is one that the loop may do. -/
theorem evictInner_of_evicts {s t : Finset Entry} {is : List Entry}
    (h : Evicts Entry.lastAccess (Fits maxSize) s is t) (hs : table d = s)
    (hsmall : d.sizeSum < 2 ^ 63) :
    ∃ d', evictInner maxSize d (is.map Sigma.fst) = some d' ∧ table d' = t := by
  induction h generalizing d with
  | done hfits =>
      subst hs
      exact ⟨d, (evictInner_nil hsmall).mpr ⟨hfits, rfl⟩, rfl⟩
  | @evict s t e is hgo he hmin _ ih =>
      subst hs
      have hrow := mem_table.mp he
      have hturn : evictTurn maxSize d e.1 = some (d.remove e.1 e.2.filePath) :=
        (evictTurn_some hsmall).mpr ⟨e.2, hrow, hgo, hmin, rfl⟩
      obtain ⟨d', hrest, ht⟩ := ih (table_remove hrow)
        ((sizeSum_remove_le hrow).trans_lt hsmall)
      refine ⟨d', ?_, ht⟩
      rw [List.map_cons, evictInner_cons, hturn]
      exact hrest

/-- Where the sum is an error, the loop ends at once. -/
theorem evictInner_overflow (hbig : ¬ d.sizeSum < 2 ^ 63) :
    evictInner maxSize d victims = some d' ↔ victims = [] ∧ d' = d := by
  have hstop : d.totalSize ≤ maxSize := by
    rw [totalSize, if_neg hbig]
    exact Nat.zero_le _
  cases victims with
  | nil =>
      rw [evictInner, if_pos hstop]
      constructor
      · intro hev
        cases hev
        exact ⟨rfl, rfl⟩
      · rintro ⟨-, rfl⟩
        rfl
  | cons hash victims =>
      rw [evictInner, if_pos hstop]
      constructor
      · intro hev
        cases hev
      · rintro ⟨hnil, -⟩
        cases hnil

/-! ## What the loop is for -/

/-- Whatever rows the database picks, the loop comes to its end. -/
inductive Terminates (maxSize : Nat) : Disk φ → Prop
  | intro {d : Disk φ} (hend : (∀ hash, evictTurn maxSize d hash = none) → evictInner maxSize d [] = some d)
      (hnext : ∀ hash d', evictTurn maxSize d hash = some d' → Terminates maxSize d') :
      Terminates maxSize d

/-- The cache fits or is empty; what was evicted is no younger than what is
    left, and was in the way; and the files that are gone are those of the
    evicted rows. -/
structure Evicted (maxSize : Nat) (d d' : Disk φ) (victims : List Text) : Prop where
  fits : d'.sizeSum ≤ maxSize ∨ d'.rows = ∅
  rows : ∀ h, d'.rows.lookup h = if h ∈ victims then none else d.rows.lookup h
  oldest : ∀ h row h' row', h ∈ victims → d.rows.lookup h = some row →
    d'.rows.lookup h' = some row' → row.lastAccess ≤ row'.lastAccess
  needed : ∀ before h after, victims = before ++ h :: after →
    maxSize < weight ((table d).filter fun e => e.1 ∉ before)
  files : ∀ h row, h ∈ victims → d.rows.lookup h = some row →
    d'.files.lookup row.filePath = none
  others : ∀ p, (∀ h row, h ∈ victims → d.rows.lookup h = some row → row.filePath ≠ p) →
    d'.files.lookup p = d.files.lookup p

/-- An entry taken is that of its hash. -/
theorem mem_of_mem_map {s t : Finset Entry} {is : List Entry} (hs : table d = s)
    (hev : Evicts Entry.lastAccess (Fits maxSize) s is t) (hh : h ∈ is.map Sigma.fst)
    (hrow : d.rows.lookup h = some row) : ⟨h, row⟩ ∈ is := by
  obtain ⟨e, he, rfl⟩ := List.mem_map.mp hh
  have hsame : d.rows.lookup e.1 = some e.2 := mem_table.mp (hs ▸ hev.mem he)
  obtain rfl : e.2 = row := Option.some.inj (hsame.symm.trans hrow)
  exact he

/-- What the loop has done when it stops. -/
theorem evicted_of_evictInner (hsmall : d.sizeSum < 2 ^ 63)
    (h : evictInner maxSize d victims = some d') : Evicted maxSize d d' victims := by
  obtain ⟨is, rfl, hev, hfiles⟩ := evicts_of_evictInner hsmall h
  refine ⟨?_, ?_, ?_, ?_, ?_, ?_⟩
  · left
    rw [← weight_table]
    exact hev.may_stay
  · intro h
    have hiff : ∀ row, d'.rows.lookup h = some row ↔
        d.rows.lookup h = some row ∧ (⟨h, row⟩ : Entry) ∉ is := by
      intro row
      rw [← mem_table (e := ⟨h, row⟩), ← mem_table (e := ⟨h, row⟩)]
      exact hev.mem_iff
    apply Option.ext
    intro row
    rw [hiff]
    by_cases hh : h ∈ is.map Sigma.fst
    · rw [if_pos hh]
      constructor
      · rintro ⟨hrow, hnot⟩
        exact absurd (mem_of_mem_map rfl hev hh hrow) hnot
      · exact nofun
    · rw [if_neg hh]
      constructor
      · exact And.left
      · intro hrow
        refine ⟨hrow, fun he => hh (List.mem_map.mpr ⟨_, he, rfl⟩)⟩
  · intro h row h' row' hh hrow hrow'
    have hleft : (⟨h', row'⟩ : Entry) ∈ table d' := mem_table.mpr hrow'
    exact hev.rank_le (mem_of_mem_map rfl hev hh hrow) hleft
  · intro before h after hvictims
    obtain ⟨before, rest, rfl, rfl, hrest⟩ := List.map_eq_append_iff.mp hvictims
    obtain ⟨e, after, rfl, rfl, rfl⟩ := List.map_eq_cons_iff.mp hrest
    refine Nat.lt_of_not_le fun hfits => hev.not_stop rfl ?_
    refine isLowerSet_fits (fun x hx => ?_) hfits
    obtain ⟨hx, hnot⟩ := Finset.mem_filter.mp hx
    refine Finset.mem_filter.mpr ⟨hx, fun hmem => hnot ?_⟩
    -- entries of the table with one hash are the same
    obtain ⟨b, hb, hhash⟩ := List.mem_map.mp hmem
    have hbrow := mem_table.mp (hev.mem (List.mem_append_left _ hb))
    rw [hhash, mem_table.mp hx] at hbrow
    obtain rfl : b = x := Sigma.ext hhash (heq_of_eq (Option.some.inj hbrow).symm)
    exact hb
  · intro h row hh hrow
    rw [hfiles, if_pos]
    exact List.mem_map.mpr ⟨_, mem_of_mem_map rfl hev hh hrow, rfl⟩
  · intro p hp
    rw [hfiles, if_neg]
    intro hmem
    obtain ⟨e, he, hpath⟩ := List.mem_map.mp hmem
    exact hp e.1 e.2 (List.mem_map.mpr ⟨e, he, rfl⟩) (mem_table.mp (hev.mem he)) hpath

/-- The loop of a cache below 2^63 stops. -/
theorem terminates_of_small (hsmall : d.sizeSum < 2 ^ 63) : Terminates maxSize d := by
  induction hn : (table d).card using Nat.strong_induction_on generalizing d with
  | _ n ih =>
      refine ⟨fun hstuck => (evictInner_nil hsmall).mpr ⟨?_, rfl⟩, fun hash d' hturn => ?_⟩
      · by_contra hgo
        -- a table that does not fit has an oldest row
        have hne : (table d).Nonempty := by
          rw [Finset.nonempty_iff_ne_empty]
          intro hempty
          rw [hempty] at hgo
          exact hgo fits_empty
        obtain ⟨e, he, hmin⟩ := (table d).exists_min_image Entry.lastAccess hne
        have hturn := (evictTurn_some hsmall).mpr ⟨e.2, mem_table.mp he, hgo, hmin, rfl⟩
        rw [hstuck e.1] at hturn
        cases hturn
      · obtain ⟨row, hrow, -, -, rfl⟩ := (evictTurn_some hsmall).mp hturn
        refine ih _ ?_ ((sizeSum_remove_le hrow).trans_lt hsmall) rfl
        rw [← hn, table_remove hrow]
        exact Finset.card_erase_lt_of_mem (mem_table.mpr hrow)

/-- Where `SUM(size)` overflows, the loop stops at once. -/
theorem terminates_of_overflow (hbig : ¬ d.sizeSum < 2 ^ 63) : Terminates maxSize d := by
  have hstop : d.totalSize ≤ maxSize := by
    rw [totalSize, if_neg hbig]
    exact Nat.zero_le _
  refine ⟨fun _ => (evictInner_overflow hbig).mpr ⟨rfl, rfl⟩, fun hash d' hturn => ?_⟩
  rw [evictTurn, if_pos hstop] at hturn
  cases hturn

/-- A cache that fits loses nothing. -/
theorem evicted_of_fits (hfits : d.sizeSum ≤ maxSize) : Evicted maxSize d d [] where
  fits := Or.inl hfits
  rows _ := rfl
  oldest _ _ _ _ hh := nomatch hh
  needed _ _ _ hvictims := absurd hvictims.symm (List.append_ne_nil_of_right_ne_nil _ nofun)
  files _ _ hh := nomatch hh
  others _ _ := rfl

/-- **`evict_inner`, exactly**: it ends, and evicts what it should, whatever
    rows the database picks, if and only if the sum of the sizes is an `i64`
    or at most `max_size`. -/
theorem evictInner_lru_iff (maxSize : Nat) (d : Disk φ) :
    (Terminates maxSize d ∧ ∀ victims d', evictInner maxSize d victims = some d' →
      Evicted maxSize d d' victims) ↔ d.sizeSum < 2 ^ 63 ∨ d.sizeSum ≤ maxSize := by
  constructor
  · rintro ⟨-, hall⟩
    by_contra hneither
    rw [not_or] at hneither
    obtain ⟨hbig, hover⟩ := hneither
    have hstays := hall [] d ((evictInner_overflow hbig).mpr ⟨rfl, rfl⟩)
    rcases hstays.fits with hfits | hempty
    · exact hover hfits
    · refine hover ?_
      rw [sizeSum, hempty]
      exact Nat.zero_le _
  · intro hcond
    by_cases hsmall : d.sizeSum < 2 ^ 63
    · exact ⟨terminates_of_small hsmall, fun _ _ => evicted_of_evictInner hsmall⟩
    · refine ⟨terminates_of_overflow hsmall, fun victims d' h => ?_⟩
      obtain ⟨rfl, rfl⟩ := (evictInner_overflow hsmall).mp h
      exact evicted_of_fits (hcond.resolve_left hsmall)

/-- Two rows of 2^62 bytes each. -/
def hugeRows : AList fun _ : Text => Row :=
  (AList.singleton ['b'] ⟨[], 2 ^ 62, 0, ['b'], [], 0⟩ : AList fun _ : Text => Row).insert ['a']
    ⟨[], 2 ^ 62, 0, ['a'], [], 0⟩

theorem not_evictInner_lru :
    evictInner 1000 (⟨hugeRows, ∅⟩ : Disk Nat) [] = some ⟨hugeRows, ∅⟩ ∧
      ¬ (⟨hugeRows, ∅⟩ : Disk Nat).sizeSum ≤ 1000 ∧ hugeRows ≠ ∅ := by
  refine ⟨?_, ?_, ?_⟩
  · exact (evictInner_overflow (by decide)).mpr ⟨rfl, rfl⟩
  · decide
  · intro hempty
    have hmem : (['a'] : Text) ∈ hugeRows := by decide
    rw [hempty] at hmem
    exact AList.notMem_empty _ hmem

/-! ## `store`

    The row just inserted takes part in the eviction that follows, with the
    time of the insert, in whole seconds, as its `last_access`. -/

variable {H : UrlHash} {url : Text} {content : φ} {headers : HeaderMap} {now : Nat}
  {len : φ → Nat}

/-- `store` with nothing between its parts. -/
def store (d : Disk φ) (len : φ → Nat) (maxSize : Nat) (H : UrlHash) (url : Text) (content : φ)
    (headers : HeaderMap) (now : Nat) (victims : List Text) : Option (Disk φ) :=
  let d := d.rename H url content
  match d.metadata len H url with
  | none => none
  | some size => d.storeLocked maxSize H url size headers now victims

/-- The cache between the insert and the eviction. -/
def inserted (d : Disk φ) (len : φ → Nat) (H : UrlHash) (url : Text) (content : φ)
    (headers : HeaderMap) (now : Nat) : Disk φ :=
  (d.rename H url content).insertEntry H url (len content) headers now

/-- The row that `store` inserts. -/
def newRow (len : φ → Nat) (H : UrlHash) (url : Text) (content : φ) (headers : HeaderMap)
    (now : Nat) : Row :=
  ⟨url, len content, now, fileName (H.hash url), headersToMap headers, now⟩

/-- A store inserts and then evicts. -/
theorem store_eq : store d len maxSize H url content headers now victims
    = evictInner maxSize (inserted d len H url content headers now) victims := by
  have hsize : (d.rename H url content).metadata len H url = some (len content) := by
    have hfile : (d.rename H url content).files.lookup (fileName (H.hash url)) = some content :=
      Finmap.lookup_insert _
    rw [metadata, hfile]
    rfl
  simp only [store, hsize]
  rfl

/-- The new row and its file. -/
theorem lookup_inserted :
    (inserted d len H url content headers now).rows.lookup (H.hash url)
        = some (newRow len H url content headers now) ∧
      (inserted d len H url content headers now).files.lookup (fileName (H.hash url))
        = some content :=
  ⟨AList.lookup_insert _, Finmap.lookup_insert _⟩

/-- The sizes of the rows that were accessed when `e` was, or later. -/
def sizeFrom (d : Disk φ) (e : Entry) : Nat := weight (notBelow Entry.lastAccess (table d) e)

/-- **`store`, exactly**: whatever rows the database picks, the row and the
    file just stored are there when `store` returns, if and only if the sum
    of the sizes is no `i64`, or each row of that file fits with all rows
    that were accessed when it was, or later. -/
theorem store_keeps_iff (d : Disk φ) (len : φ → Nat) (maxSize : Nat) (H : UrlHash) (url : Text)
    (content : φ) (headers : HeaderMap) (now : Nat) :
    (∀ victims d', store d len maxSize H url content headers now victims = some d' →
      d'.rows.lookup (H.hash url) = some (newRow len H url content headers now) ∧
        d'.files.lookup (fileName (H.hash url)) = some content) ↔
      2 ^ 63 ≤ (inserted d len H url content headers now).sizeSum ∨
        ∀ h row, (inserted d len H url content headers now).rows.lookup h = some row →
          row.filePath = fileName (H.hash url) →
            sizeFrom (inserted d len H url content headers now) ⟨h, row⟩ ≤ maxSize := by
  simp only [store_eq]
  obtain ⟨hnew, hfile⟩ := @lookup_inserted _ d H url content headers now len
  generalize inserted d len H url content headers now = d₁ at hnew hfile ⊢
  constructor
  · intro hall
    refine or_iff_not_imp_left.mpr fun hsmall h row hrow hpath => ?_
    have hsmall := Nat.lt_of_not_le hsmall
    have hthere : (⟨h, row⟩ : Entry) ∈ table d₁ := mem_table.mpr hrow
    refine (survives_iff isLowerSet_fits fits_empty hthere).mp fun is t hev => ?_
    refine hev.mem_iff.mpr ⟨hthere, fun hmem => ?_⟩
    -- an eviction that takes the row takes the file
    obtain ⟨d', hrun, -⟩ := evictInner_of_evicts hev rfl hsmall
    have hgone := (evicted_of_evictInner hsmall hrun).files h row
      (List.mem_map.mpr ⟨_, hmem, rfl⟩) hrow
    rw [hpath, (hall _ d' hrun).2] at hgone
    cases hgone
  · intro hcond victims d' hrun
    rcases hcond with hbig | hfits
    · obtain ⟨-, rfl⟩ := (evictInner_overflow (Nat.not_lt.mpr hbig)).mp hrun
      exact ⟨hnew, hfile⟩
    · by_cases hsmall : d₁.sizeSum < 2 ^ 63
      · obtain ⟨is, -, hev, hfiles⟩ := evicts_of_evictInner hsmall hrun
        have hkept : ∀ h row, d₁.rows.lookup h = some row →
            row.filePath = fileName (H.hash url) → (⟨h, row⟩ : Entry) ∉ is := by
          intro h row hrow hpath
          have hthere : (⟨h, row⟩ : Entry) ∈ table d₁ := mem_table.mpr hrow
          have hsurvives := (survives_iff isLowerSet_fits fits_empty hthere).mpr
            (hfits h row hrow hpath)
          exact (hev.mem_iff.mp (hsurvives is _ hev)).2
        constructor
        · have hleft : (⟨H.hash url, newRow len H url content headers now⟩ : Entry) ∈ table d' :=
            hev.mem_iff.mpr ⟨mem_table.mpr hnew, hkept _ _ hnew rfl⟩
          exact mem_table.mp hleft
        · rw [hfiles, if_neg, hfile]
          intro hmem
          obtain ⟨e, he, hpath⟩ := List.mem_map.mp hmem
          exact hkept e.1 e.2 (mem_table.mp (hev.mem he)) hpath he
      · obtain ⟨-, rfl⟩ := (evictInner_overflow hsmall).mp hrun
        exact ⟨hnew, hfile⟩

/-- A digest that marks its URL. -/
def markedHash : UrlHash where
  hash url := 'h' :: url
  injective _ _ heq := (List.cons.inj heq).2
  relative _ := by simp [fileName]

/-- A cache with a file of six bytes, accessed at second 5. -/
def sixBytes : Disk Nat where
  rows := AList.singleton ['h', 'a'] ⟨['a'], 6, 5, fileName ['h', 'a'], [], 5⟩
  files := Finmap.singleton (fileName ['h', 'a']) 6

/-- Another file of six bytes, where there is room for ten, stored when the
    clock is a second behind: the row just inserted is the older one, and the
    one that goes. -/
theorem not_store_keeps :
    ∃ d', store sixBytes id 10 markedHash ['b'] 6 [] 4 [['h', 'b']] = some d' ∧
      d'.rows.lookup ['h', 'b'] = none ∧ d'.files.lookup (fileName ['h', 'b']) = none := by
  refine ⟨_, rfl, ?_, ?_⟩
  · decide
  · decide

end BlitzCacheEviction
