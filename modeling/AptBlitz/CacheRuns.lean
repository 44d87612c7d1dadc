import AptBlitz.CacheDisk
import AptBlitz.Library.Runs

/-! # Rows and files over whole runs

    `store` puts its file in place before, and outside the lock under which
    it inserts the row.  What comes in between may take the file away, or
    replace it; the row then describes a file that is not there.
    `cache_corresponds` says that nothing else can go wrong. -/

namespace BlitzCacheRuns

open RustText BlitzHeaders BlitzCache BlitzCacheDisk Disk Runs

variable {φ : Type} {K : Config φ} {s s' : Process φ} {a : Act φ} {acts : List (Act φ)}
  {disk : Disk φ} {url : Text}

/-! ## What is to hold -/

/-- Rows and files correspond one to one, and a row's size is the length of
    its file. -/
structure Correspond (len : φ → Nat) (d : Disk φ) : Prop where
  has_file : ∀ h row, d.rows.lookup h = some row →
    ∃ f, d.files.lookup row.filePath = some f ∧ len f = row.size
  has_row : ∀ p f, d.files.lookup p = some f →
    ∃! h, ∃ row, d.rows.lookup h = some row ∧ row.filePath = p

/-- No operation is in progress: the others are one step. -/
def Quiet (s : Process φ) : Prop := ∀ w, s.stores w = .idle

/-- The row's size is the length of the file. -/
def SizeOf (len : φ → Nat) (row : Row) (f : φ) : Prop := len f = row.size

/-- A `store` of the URL is between its rename and its insert. -/
def Storing (s : Process φ) (url : Text) : Prop := ∃ w, (s.stores w).url = some url

/-- Every URL that is not being stored has what it should have. -/
structure Settled (K : Config φ) (s : Process φ) : Prop where
  wellFormed : WellFormed K.urlHash s.disk
  settled : ∀ url, ¬ Storing s url → At (SizeOf K.len) s.disk (K.urlHash.hash url)

/-- Between two stores rows and files correspond. -/
theorem Settled.correspond (h : Settled K s) (hq : Quiet s) : Correspond K.len s.disk := by
  have hat : ∀ url, At (SizeOf K.len) s.disk (K.urlHash.hash url) := by
    intro url
    refine h.settled url ?_
    rintro ⟨w, hw⟩
    rw [hq w] at hw
    exact nomatch hw
  constructor
  · intro hash row hrow
    obtain ⟨hhash, hpath⟩ := h.wellFormed.rows hash row hrow
    obtain ⟨f, hf, hR⟩ := (hhash ▸ hat row.url).has_file hrow
    exact ⟨f, by rw [hpath]; exact hf, hR⟩
  · intro p f hf
    obtain ⟨url, rfl⟩ := h.wellFormed.files p f hf
    obtain ⟨row, hrow, -⟩ := (hat url).has_row hf
    refine ⟨K.urlHash.hash url, ⟨row, hrow, (h.wellFormed.rows _ row hrow).2⟩, ?_⟩
    rintro hash ⟨row', hrow', hpath⟩
    rw [(h.wellFormed.rows hash row' hrow').2] at hpath
    exact fileName_injective hpath

/-! ## Steps -/

/-- The metadata call of a `store` finds a file. -/
def MetadataFound (K : Config φ) (s : Process φ) (a : Act φ) : Prop :=
  ∀ w url content headers, a = .measure w → s.stores w = .renamed url content headers →
    s.disk.metadata K.len K.urlHash url ≠ none

/-- An insert finds a file of the size that its metadata call gave, unless
    another `store` of the URL is in progress or the same call evicts the row
    again. -/
def InsertsWhatIsThere (K : Config φ) (s : Process φ) (a : Act φ) : Prop :=
  ∀ w now victims url content headers size, a = .insert w now victims →
    s.stores w = .measured url content headers size →
      (∃ v, v ≠ w ∧ (s.stores v).url = some url) ∨ K.urlHash.hash url ∈ victims ∨
        s.disk.metadata K.len K.urlHash url = some size

/-- After a step of store `w` the other stores stand where they stood. -/
theorem storing_put {w : Nat} {d : Disk φ} {pc : StorePc φ} :
    Storing (s.put d w pc) url ↔
      pc.url = some url ∨ ∃ v, v ≠ w ∧ (s.stores v).url = some url := by
  constructor
  · rintro ⟨v, hv⟩
    have hv : (Function.update s.stores w pc v).url = some url := hv
    by_cases hvw : v = w
    · subst hvw
      rw [Function.update_self] at hv
      exact Or.inl hv
    · rw [Function.update_of_ne hvw] at hv
      exact Or.inr ⟨v, hvw, hv⟩
  · rintro (hpc | ⟨v, hvw, hv⟩)
    · refine ⟨w, ?_⟩
      show (Function.update s.stores w pc w).url = some url
      rw [Function.update_self]
      exact hpc
    · refine ⟨v, ?_⟩
      show (Function.update s.stores w pc v).url = some url
      rw [Function.update_of_ne hvw]
      exact hv

/-- A store that goes on with its URL. -/
theorem storing_put_same {w : Nat} {d : Disk φ} {pc : StorePc φ}
    (hpc : pc.url = (s.stores w).url) : Storing (s.put d w pc) url ↔ Storing s url := by
  rw [storing_put, hpc]
  constructor
  · rintro (hw | ⟨v, -, hv⟩)
    · exact ⟨w, hw⟩
    · exact ⟨v, hv⟩
  · rintro ⟨v, hv⟩
    by_cases hvw : v = w
    · exact Or.inl (hvw ▸ hv)
    · exact Or.inr ⟨v, hvw, hv⟩

/-- A store of another URL. -/
theorem storing_of_put {w : Nat} {d : Disk φ} {pc : StorePc φ}
    (h : ¬ Storing (s.put d w pc) url) (hurl : (s.stores w).url ≠ some url) :
    ¬ Storing s url := by
  rintro ⟨v, hv⟩
  by_cases hvw : v = w
  · exact hurl (hvw ▸ hv)
  · exact h (storing_put.mpr (Or.inr ⟨v, hvw, hv⟩))

/-- What a step can be. -/
inductive Stepped (K : Config φ) (s : Process φ) : Act φ → Process φ → Prop
  | renamed {w u content headers} (hw : s.stores w = .idle) :
      Stepped K s (.rename w u content headers)
        (s.put (s.disk.rename K.urlHash u content) w (.renamed u content headers))
  | measured {w u content headers size} (hw : s.stores w = .renamed u content headers)
      (hm : s.disk.metadata K.len K.urlHash u = some size) :
      Stepped K s (.measure w) (s.put s.disk w (.measured u content headers size))
  | missing {w u content headers} (hw : s.stores w = .renamed u content headers)
      (hm : s.disk.metadata K.len K.urlHash u = none) :
      Stepped K s (.measure w) (s.put s.disk w .idle)
  | inserted {w now victims u content headers size d}
      (hw : s.stores w = .measured u content headers size)
      (hd : s.disk.storeLocked K.maxSize K.urlHash u size headers now victims = some d) :
      Stepped K s (.insert w now victims) (s.put d w .idle)
  | locked {b d} (hwf : WellFormed K.urlHash s.disk → WellFormed K.urlHash d)
      (hat : WellFormed K.urlHash s.disk → ∀ u,
        At (SizeOf K.len) s.disk (K.urlHash.hash u) → At (SizeOf K.len) d (K.urlHash.hash u))
      (hsub : Shrinks s.disk d) (hb : ∀ w now victims, b ≠ .insert w now victims) :
      Stepped K s b { s with disk := d }
  | refreshed {u headers now} : Stepped K s (.refresh u headers now)
      { s with disk := s.disk.refresh K.urlHash u headers now }

/-- **What the cache does**: `step` does nothing but this. -/
theorem stepped_of_step (h : step K s a = some s') : Stepped K s a s' := by
  cases a with
  | rename w url content headers =>
      simp only [step] at h
      split at h
      next hw => cases h; exact .renamed hw
      next => exact nomatch h
  | measure w =>
      simp only [step] at h
      split at h
      next hw =>
        split at h
        next hm => cases h; exact .measured hw hm
        next hm => cases h; exact .missing hw hm
      next => exact nomatch h
  | insert w now victims =>
      simp only [step] at h
      split at h
      next hw =>
        obtain ⟨disk, hd, rfl⟩ := Option.map_eq_some_iff.mp h
        exact .inserted hw hd
      next => exact nomatch h
  -- the others are one step, under the lock
  | lookupEntry url now =>
      cases h
      exact .locked wellFormed_lookupEntry
        (fun hwf _ hat => at_lookupEntry hwf hat fun _ _ hR => hR) shrinks_lookupEntry nofun
  | refresh url headers now =>
      cases h
      exact .refreshed
  | deleteByUrls urls =>
      cases h
      exact .locked wellFormed_deleteByUrls (fun hwf _ hat => at_deleteByUrls hwf hat)
        shrinks_deleteByUrls nofun
  | clearAll =>
      cases h
      exact .locked wellFormed_clearAll (fun hwf _ hat => at_clearAll hwf hat) shrinks_clearAll
        nofun

/-- **Step**: rows and files correspond but for the stores under way. -/
theorem settled_step (h : Settled K s) (hm : MetadataFound K s a)
    (hg : InsertsWhatIsThere K s a) (hs : Stepped K s a s') : Settled K s' := by
  obtain ⟨hwf, hset⟩ := h
  cases hs with
  | @renamed w url content headers hw =>
      refine ⟨wellFormed_rename hwf, ?_⟩
      intro url' hno
      -- the renaming store is now storing `url`, which asks nothing of `url`
      have hne : url' ≠ url := by
        rintro rfl
        exact hno (storing_put.mpr (Or.inl rfl))
      have hno' := storing_of_put hno (by rw [hw]; exact nofun)
      have hne' : K.urlHash.hash url' ≠ K.urlHash.hash url :=
        mt (fun e => K.urlHash.injective e) hne
      refine at_of_eq (hset url' hno') rfl ?_
      show (s.disk.rename K.urlHash url content).files.lookup _ = _
      rw [lookup_rename, if_neg hne']
  | measured hw =>
      refine ⟨hwf, ?_⟩
      intro url' hno
      rw [storing_put_same (by rw [hw]; rfl)] at hno
      exact hset url' hno
  | missing hw hnone => exact absurd hnone (hm _ _ _ _ rfl hw)
  | @inserted w now victims url content headers size disk hw hd =>
      refine ⟨wellFormed_storeLocked hwf hd, ?_⟩
      intro url' hno
      by_cases hurl : url' = url
      · subst hurl
        refine (storeLocked_self hwf hd).mpr ?_
        -- here the file may be another store's, or gone
        rcases hg _ _ _ _ _ _ _ rfl hw with ⟨v, hvw, hv⟩ | hvictim | hsize
        · exact absurd (storing_put.mpr (Or.inr ⟨v, hvw, hv⟩)) hno
        · exact Or.inl hvictim
        · obtain ⟨f, hf, hlen⟩ := Option.map_eq_some_iff.mp hsize
          exact Or.inr ⟨f, hf, hlen⟩
      · have hno' := storing_of_put hno (by
          rw [hw]
          intro heq
          exact hurl (Option.some.inj heq).symm)
        exact storeLocked_other hwf (hset url' hno')
          (mt (fun e => K.urlHash.injective e) hurl) hd
  | locked hwf' hat' => exact ⟨hwf' hwf, fun url' hno => hat' hwf url' (hset url' hno)⟩
  | refreshed =>
      refine ⟨wellFormed_refresh hwf, ?_⟩
      intro url' hno
      exact at_updateRow (hset url' hno) fun _ _ _ _ _ hR => hR

/-- An insert that finds another file, or none, unsettles its URL. -/
theorem insertsWhatIsThere_of_settled (h : Settled K s) (hs : step K s a = some s')
    (h' : Settled K s') : InsertsWhatIsThere K s a := by
  rintro w now victims url content headers size rfl hw
  simp only [step, hw] at hs
  obtain ⟨disk, hd, rfl⟩ := Option.map_eq_some_iff.mp hs
  by_cases hother : ∃ v, v ≠ w ∧ (s.stores v).url = some url
  · exact Or.inl hother
  · have hno : ¬ Storing (s.put disk w .idle) url := by
      rw [storing_put]
      rintro (hpc | hv)
      · exact nomatch hpc
      · exact hother hv
    rcases (storeLocked_self h.wellFormed hd).mp (h'.settled url hno) with hv | ⟨f, hf, hlen⟩
    · exact Or.inr (Or.inl hv)
    · refine Or.inr (Or.inr ?_)
      show (s.disk.files.lookup _).map K.len = some size
      rw [hf]
      exact congrArg some hlen

/-! ## Runs -/

/-- At the start, with a cache whose rows and files correspond. -/
theorem settled_opened (hwf : WellFormed K.urlHash disk)
    (hat : ∀ url, At (SizeOf K.len) disk (K.urlHash.hash url)) : Settled K (opened disk) :=
  ⟨hwf, fun url _ => hat url⟩

/-- **Rows and files**: if every insert finds the file it has measured, then
    rows and files correspond whenever no operation is in progress.  The
    condition is exact for the URLs taken one by one: a run that keeps every
    URL settled while nobody stores it meets it. -/
theorem cache_corresponds (hwf : WellFormed K.urlHash disk)
    (hat : ∀ url, At (SizeOf K.len) disk (K.urlHash.hash url))
    (hrun : run (step K) (opened disk) acts = some s)
    (hm : Along (step K) (MetadataFound K) (opened disk) acts) :
    (Along (step K) (InsertsWhatIsThere K) (opened disk) acts →
      Always (step K) (fun s => Quiet s → Correspond K.len s.disk) (opened disk) acts) ∧
    (Along (step K) (InsertsWhatIsThere K) (opened disk) acts ↔
      Always (step K) (Settled K) (opened disk) acts) := by
  have hsettled : Along (step K) (InsertsWhatIsThere K) (opened disk) acts → ∀ P : Process φ → Prop,
      (∀ s, Settled K s → P s) → Always (step K) P (opened disk) acts := by
    intro hg P hP
    exact always_of_along (I := Settled K)
      (fun _ _ _ h hgm hs => settled_step h hgm.2 hgm.1 (stepped_of_step hs)) hP
      (settled_opened hwf hat) (along_and hg hm)
  refine ⟨fun hg => hsettled hg _ fun s h => h.correspond, fun hg => hsettled hg _ fun _ h => h, ?_⟩
  intro halways
  exact along_of_always (fun _ _ _ h hs h' => insertsWhatIsThere_of_settled h hs h') hrun halways

section Examples

/-- The URL of the examples. -/
def exampleUrl : Text := "http://u".toList

/-- The digest of `exampleUrl`; other URLs get digests that no URL shares. -/
def exampleDigest (url : Text) : Text :=
  if url = exampleUrl then
    "060bf283b6cb806170e43802eb74c9d1278f471f0f824f4252ced2a0e2aadfa2".toList
  else 'h' :: url

/-- The digest of the examples has no collisions. -/
theorem exampleDigest_injective : Function.Injective exampleDigest := by
  intro u v huv
  by_cases hu : u = exampleUrl <;> by_cases hv : v = exampleUrl
  · exact hu.trans hv.symm
  · rw [exampleDigest, exampleDigest, if_pos hu, if_neg hv] at huv
    exact absurd (List.cons.inj huv).1 (by decide)
  · rw [exampleDigest, exampleDigest, if_neg hu, if_pos hv] at huv
    exact absurd (List.cons.inj huv).1 (by decide)
  · rw [exampleDigest, exampleDigest, if_neg hu, if_neg hv] at huv
    exact (List.cons.inj huv).2

/-- A digest for the examples. -/
def exampleHash : UrlHash where
  hash := exampleDigest
  injective := exampleDigest_injective
  relative url := by
    by_cases hu : url = exampleUrl
    · subst hu
      decide
    · rw [exampleDigest, if_neg hu]
      simp [fileName]

/-- A cache of 100 bytes. -/
def example100 : Config (List UInt8) := ⟨exampleHash, 100, List.length⟩

/-- A `store` on its own. -/
def storeOnce : List (Act (List UInt8)) :=
  [.rename 0 exampleUrl [7] [], .measure 0, .insert 0 1 []]

/-- The example's file is there when it is looked at. -/
theorem metadataFound_storeOnce :
    Along (step example100) (MetadataFound example100) (opened .empty) storeOnce := by
  refine ⟨fun _ _ _ _ hact => (nomatch hact), ?_⟩
  rintro s ⟨⟩
  refine ⟨?_, ?_⟩
  · rintro w url content headers ⟨⟩ ⟨⟩
    decide
  · rintro s ⟨⟩
    exact ⟨fun _ _ _ _ hact => (nomatch hact), fun _ _ => trivial⟩

theorem cache_corresponds_storeOnce :
    ∃ s, run (step example100) (opened .empty) storeOnce = some s ∧
      (Along (step example100) (InsertsWhatIsThere example100) (opened .empty) storeOnce →
        Always (step example100) (fun s => Quiet s → Correspond List.length s.disk)
          (opened .empty) storeOnce) ∧
      (Along (step example100) (InsertsWhatIsThere example100) (opened .empty) storeOnce ↔
        Always (step example100) (Settled example100) (opened .empty) storeOnce) := by
  refine ⟨_, rfl, ?_⟩
  exact cache_corresponds wellFormed_empty (fun _ => at_empty) rfl metadataFound_storeOnce

/-- While a second `store` of a URL is between its metadata call and its
    insert, `delete_by_urls` removes the row of the first one, and with it
    the file that is already the second one's. -/
def deletedInBetween : List (Act (List UInt8)) :=
  storeOnce ++ [.rename 0 exampleUrl [8] [], .measure 0, .deleteByUrls [exampleUrl],
    .insert 0 2 []]

/-- The row stays without a file. -/
theorem cache_row_without_file :
    ∃ s, run (step example100) (opened .empty) deletedInBetween = some s ∧ Quiet s ∧
      ¬ Correspond List.length s.disk := by
  refine ⟨_, rfl, ?_, ?_⟩
  · intro w
    by_cases hw : w = 0
    · subst hw
      rfl
    · -- only store 0 takes steps
      iterate 6 refine (Function.update_of_ne hw ..).trans ?_
      rfl
  · intro hc
    obtain ⟨f, hf, -⟩ := hc.has_file (exampleDigest exampleUrl)
      ⟨exampleUrl, 1, 2, fileName (exampleDigest exampleUrl), [], 2⟩ (by decide)
    have hnone : (none : Option (List UInt8)) = some f := hf
    exact nomatch hnone

end Examples

end BlitzCacheRuns
