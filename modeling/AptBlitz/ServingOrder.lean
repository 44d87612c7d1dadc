import AptBlitz.ServingRuns

/-! # The order of lookups, opens and stores

    Requests and stores of one URL know of each other only through its row
    and its file, and a `store` replaces the file before and outside the lock
    under which it replaces the row.  The orders in which that does no harm
    say nothing of what is in a file (`InTurn`): what a request has looked up
    outside of all stores of the URL it opens or refreshes before another file
    is renamed onto it, and of stores that overlap the one that renamed last
    inserts last.  In such an order every response, and every row, has the
    headers of its body: `served_as_described`. -/

namespace BlitzServingOrder

open RustText BlitzHeaders BlitzCacheDisk BlitzCacheRuns BlitzServing BlitzServingRuns Runs
open BlitzCache hiding Act step
open BlitzCache.Disk hiding refresh

variable {γ : Type} {K : ServerConfig γ} {V : γ → Text → Option Text} {s s' : Server γ}
  {a : Act γ} {acts : List (Act γ)} {url : Text} {r w : Nat} {found : Found γ}

/-! ## Notes of the order -/

/-- What a request has found, until it has opened it. -/
def current : RequestPc γ → Option (Found γ)
  | .stale found => some found
  | .confirmed found => some found
  | .cached found => some found
  | _ => none

/-- What is noted of the steps so far. -/
structure Order where
  /-- the requests that looked their URL up while a store of it was between
      its rename and its insert, or whose URL a file was renamed onto since -/
  overtaken : Nat → Prop
  /-- the store that was the last to rename a file onto a URL -/
  renamer : Text → Option Nat

/-- Nothing has happened. -/
def Order.none : Order := ⟨fun _ => False, fun _ => Option.none⟩

/-- Only lookups and renames are noted. -/
def note (s : Server γ) (o : Order) : Act γ → Order
  | .lookupEntry r url _ _ =>
      { o with overtaken := Function.update o.overtaken r (Storing s.cache url) }
  | .cache (.rename w url _ _) =>
      { overtaken := fun r => o.overtaken r ∨ (current (s.requests r)).map Found.url = some url
        renamer := Function.update o.renamer url (some w) }
  | _ => o

/-- Steps in their turn.  A request that was overtaken does not open a file.
    It does not refresh a row either, unless the insert that overwrites the
    row is still to come, or there is no row or no file.  An insert is by the
    store that renamed last, or another store of the URL is still to insert,
    or there is no file. -/
def InTurn (K : ServerConfig γ) (x : Server γ × Order) : Act γ → Prop
  | .openFile r => x.2.overtaken r → ∀ found, x.1.requests r = .cached found →
      x.1.cache.disk.files.lookup found.path = none
  | .refresh r _ => x.2.overtaken r → ∀ found, x.1.requests r = .confirmed found →
      Storing x.1.cache found.url ∨
      x.1.cache.disk.rows.lookup (K.urlHash.hash found.url) = none ∨
      x.1.cache.disk.files.lookup found.path = none
  | .cache (.insert w _ _) => ∀ url, (x.1.cache.stores w).url = some url →
      x.2.renamer url = some w ∨ (∃ v, v ≠ w ∧ (x.1.cache.stores v).url = some url) ∨
      x.1.cache.disk.files.lookup (fileName (K.urlHash.hash url)) = none
  | _ => True

/-! ## What a step does to files, requests and stores -/

/-- The file of a URL. -/
def fileOf (K : ServerConfig γ) (cache : Process γ) (url : Text) : Option γ :=
  cache.disk.files.lookup (fileName (K.urlHash.hash url))

/-- What a store has renamed, until it inserts the row. -/
def stored : StorePc γ → Option (Text × γ)
  | .idle => none
  | .renamed url content _ => some (url, content)
  | .measured url content _ _ => some (url, content)

/-- What a step of the server can be: the cache's own, in which no row is
    refreshed, or that of a request. -/
inductive ServerStepped (K : ServerConfig γ) (s : Server γ) : Act γ → Server γ → Prop
  | cache {act cache} (hcache : BlitzCache.step K.toConfig s.cache act = some cache)
      (hact : ∀ u hs now, act ≠ .refresh u hs now) :
      ServerStepped K s (.cache act) { noteSource K s act with cache }
  | publish {url generation} : ServerStepped K s (.publish url generation)
      { s with upstream := Function.update s.upstream url generation }
  | lookedUp {r url now later} (hnone : current (s.requests r) = none) :
      ServerStepped K s (.lookupEntry r url now later)
        ((s.withDisk (s.cache.disk.lookupEntry K.urlHash url now).1).goto r
          (afterLookup K url (s.source (K.urlHash.hash url)) later
            (s.cache.disk.lookupEntry K.urlHash url now).2))
  | asked {r answer found} (hr : s.requests r = .stale found) :
      ServerStepped K s (.head r answer)
        (s.goto r (afterHead found (revalidate answer found.headers)))
  | refreshed {r now found} (hr : s.requests r = .confirmed found) :
      ServerStepped K s (.refresh r now)
        (((s.withDisk (s.cache.disk.refresh K.urlHash found.url found.headers now)).setSource
          (K.urlHash.hash found.url) found.source).goto r (.cached found))
  | opened {r found pc} (hr : s.requests r = .cached found) (hpc : current pc = none) :
      ServerStepped K s (.openFile r) (s.goto r pc)

/-- `step` does nothing but this. -/
theorem serverStepped (hs : step K s a = some s') : ServerStepped K s a s' := by
  cases a with
  | cache act =>
      cases act with
      | refresh => cases hs
      | _ =>
          simp only [step] at hs
          obtain ⟨cache, hcache, rfl⟩ := Option.map_eq_some_iff.mp hs
          exact .cache hcache (by rintro _ _ _ ⟨⟩)
  | publish url generation =>
      cases hs
      exact .publish
  | lookupEntry r u now later =>
      simp only [step] at hs
      split at hs
      next hr =>
        cases hs
        exact .lookedUp (by rw [hr]; rfl)
      next hr =>
        cases hs
        exact .lookedUp (by rw [hr]; rfl)
      next => cases hs
  | head r answer =>
      simp only [step] at hs
      split at hs
      next hr =>
        cases hs
        exact .asked hr
      next => cases hs
  | refresh r now =>
      simp only [step] at hs
      split at hs
      next hr =>
        cases hs
        exact .refreshed hr
      next => cases hs
  | openFile r =>
      simp only [step] at hs
      split at hs
      next hr =>
        split at hs <;> cases hs
        · exact .opened hr rfl
        · exact .opened hr rfl
      next => cases hs

/-- A file comes to a URL by a rename for it alone. -/
theorem fileOf_stepped {cache cache' : Process γ} {act : BlitzCache.Act γ} {file : γ}
    (hwf : WellFormed K.urlHash cache.disk) (hs : Stepped K.toConfig cache act cache')
    (hact : ∀ u hs now, act ≠ .refresh u hs now) (hfile : fileOf K cache' url = some file) :
    fileOf K cache url = some file ∨ ∃ w headers, act = .rename w url file headers := by
  cases hs with
  | @renamed w u content headers hw =>
      have hfile : (cache.disk.rename K.urlHash u content).files.lookup
          (fileName (K.urlHash.hash url)) = some file := hfile
      rw [lookup_rename] at hfile
      split at hfile
      next heq =>
        cases hfile
        obtain rfl := K.urlHash.injective heq
        exact Or.inr ⟨w, headers, rfl⟩
      next => exact Or.inl hfile
  | measured hw hm => exact Or.inl hfile
  | missing hw hm => exact Or.inl hfile
  | inserted hw hd => exact Or.inl (storeLocked_file hwf hd hfile).2
  | locked _ _ hsub _ => exact Or.inl (hsub.files _ file hfile)
  | @refreshed u headers now => exact absurd rfl (hact u headers now)

/-- A store has its content from its rename. -/
theorem stored_stepped {cache cache' : Process γ} {act : BlitzCache.Act γ} {v : Nat} {content : γ}
    (hs : Stepped K.toConfig cache act cache')
    (hv : stored (cache'.stores v) = some (url, content)) :
    stored (cache.stores v) = some (url, content) ∨
      ∃ headers, act = .rename v url content headers := by
  have hput : ∀ {w : Nat} {d : Disk γ} {pc : StorePc γ},
      stored ((cache.put d w pc).stores v) = some (url, content) →
        (v = w ∧ stored pc = some (url, content)) ∨
          stored (cache.stores v) = some (url, content) := by
    intro w d pc h
    have h : stored (Function.update cache.stores w pc v) = some (url, content) := h
    by_cases hvw : v = w
    · rw [hvw, Function.update_self] at h
      exact Or.inl ⟨hvw, h⟩
    · rw [Function.update_of_ne hvw] at h
      exact Or.inr h
  cases hs with
  | @renamed w u c headers hw =>
      rcases hput hv with ⟨rfl, hpc⟩ | hold
      · cases hpc
        exact Or.inr ⟨headers, rfl⟩
      · exact Or.inl hold
  | @measured w u c headers size hw hm =>
      rcases hput hv with ⟨rfl, hpc⟩ | hold
      · rw [hw]
        exact Or.inl hpc
      · exact Or.inl hold
  | missing hw hm =>
      rcases hput hv with ⟨-, hpc⟩ | hold
      · cases hpc
      · exact Or.inl hold
  | inserted hw hd =>
      rcases hput hv with ⟨-, hpc⟩ | hold
      · cases hpc
      · exact Or.inl hold
  | locked => exact Or.inl hv
  | refreshed => exact Or.inl hv

/-- A file that was not there before has been renamed there. -/
theorem fileOf_step {file : γ} (hwf : WellFormed K.urlHash s.cache.disk)
    (hs : step K s a = some s') (hfile : fileOf K s'.cache url = some file) :
    fileOf K s.cache url = some file ∨ ∃ w headers, a = .cache (.rename w url file headers) := by
  cases serverStepped hs with
  | cache hcache hact =>
      rcases fileOf_stepped hwf (stepped_of_step hcache) hact hfile with hold | ⟨w, headers, rfl⟩
      · exact Or.inl hold
      · exact Or.inr ⟨w, headers, rfl⟩
  | publish => exact Or.inl hfile
  | lookedUp => exact Or.inl (shrinks_lookupEntry.files _ file hfile)
  | asked => exact Or.inl hfile
  | @refreshed _ now found hr =>
      have hfile : (s.cache.disk.refresh K.urlHash found.url found.headers now).files.lookup
          (fileName (K.urlHash.hash url)) = some file := hfile
      rw [BlitzCache.Disk.refresh, (@lookup_updateRow _ _ [] _ _).2] at hfile
      exact Or.inl hfile
  | opened => exact Or.inl hfile

/-- What a store has renamed it renamed in this step, or had before. -/
theorem stored_step {v : Nat} {content : γ} (hs : step K s a = some s')
    (hv : stored (s'.cache.stores v) = some (url, content)) :
    stored (s.cache.stores v) = some (url, content) ∨
      ∃ headers, a = .cache (.rename v url content headers) := by
  cases serverStepped hs with
  | cache hcache hact =>
      exact (stored_stepped (stepped_of_step hcache) hv).imp_right
        fun ⟨headers, hact⟩ => ⟨headers, congrArg Act.cache hact⟩
  | _ => exact Or.inl hv

/-- A request goes on with what it has found, or finds it in this step. -/
inductive Goes (K : ServerConfig γ) (s : Server γ) (a : Act γ) (r : Nat) (found' : Found γ) : Prop
  | on {found : Found γ} (hcurrent : current (s.requests r) = some found)
      (hurl : found'.url = found.url) (hsource : found'.source = found.source)
      (hact : ∀ url now later, a ≠ .lookupEntry r url now later)
  | finds {now later : Nat} {row : Row} (hact : a = .lookupEntry r found'.url now later)
      (hsource : found'.source = s.source (K.urlHash.hash found'.url))
      (hrow : s.cache.disk.rows.lookup (K.urlHash.hash found'.url) = some row)

/-- The others keep what they have found. -/
theorem current_goto {pc : RequestPc γ} {r' : Nat}
    (h : current ((s.goto r pc).requests r') = some found) :
    (r' = r ∧ current pc = some found) ∨ (r' ≠ r ∧ current (s.requests r') = some found) := by
  have h : current (Function.update s.requests r pc r') = some found := h
  by_cases hr : r' = r
  · rw [hr, Function.update_self] at h
    exact Or.inl ⟨hr, h⟩
  · rw [Function.update_of_ne hr] at h
    exact Or.inr ⟨hr, h⟩

/-- A HEAD request changes no more than the headers. -/
theorem current_afterHead {rev : Revalidate} {found' : Found γ}
    (h : current (afterHead found rev) = some found') :
    found'.url = found.url ∧ found'.source = found.source := by
  cases rev with
  | fresh headers =>
      cases h
      exact ⟨rfl, rfl⟩
  | stale => cases h
  | unreachable =>
      cases h
      exact ⟨rfl, rfl⟩

/-- What a lookup has found. -/
theorem current_afterLookup {source : γ} {later : Nat} {result : Option (Text × HeaderMap × Nat)}
    (h : current (afterLookup K url source later result) = some found) :
    found.url = url ∧ found.source = source ∧ result.isSome := by
  cases result with
  | none => cases h
  | some result =>
      obtain ⟨path, headers, cachedAt⟩ := result
      simp only [afterLookup] at h
      split at h
      · cases h
        exact ⟨rfl, rfl, rfl⟩
      · split at h
        · cases h
          exact ⟨rfl, rfl, rfl⟩
        · cases h

/-- A lookup that finds something finds a row. -/
theorem row_of_lookupEntry {d : Disk γ} {H : UrlHash} {now : Nat}
    (h : (d.lookupEntry H url now).2.isSome) : ∃ row, d.rows.lookup (H.hash url) = some row := by
  rw [lookupEntry] at h
  cases hrow : d.rows.lookup (H.hash url) with
  | some row => exact ⟨row, rfl⟩
  | none =>
      rw [hrow] at h
      cases h

/-- A request that goes on takes along what it has found, if anything. -/
theorem goes_goto {found' : Found γ} {pc : RequestPc γ} {r' : Nat}
    (hact : ∀ url now later, a ≠ .lookupEntry r' url now later)
    (hkept : current pc = some found' →
      ∃ found, current (s.requests r) = some found ∧ found'.url = found.url ∧
        found'.source = found.source)
    (hf : current ((s.goto r pc).requests r') = some found') : Goes K s a r' found' := by
  rcases current_goto hf with ⟨rfl, hnew⟩ | ⟨-, hold⟩
  · obtain ⟨found, hcurrent, hurl, hsource⟩ := hkept hnew
    exact .on hcurrent hurl hsource hact
  · exact .on hold rfl rfl hact

/-- What a request has found it had before, or has it from its lookup. -/
theorem goes_of_step {found' : Found γ} (hs : step K s a = some s')
    (hf : current (s'.requests r) = some found') : Goes K s a r found' := by
  cases serverStepped hs with
  | @cache act cache hcache hact =>
      have hsame : (noteSource K s act).requests = s.requests := by
        unfold noteSource
        split
        · split <;> rfl
        · rfl
      have hf : current ((noteSource K s act).requests r) = some found' := hf
      exact .on (hsame ▸ hf) rfl rfl (by rintro _ _ _ ⟨⟩)
  | publish => exact .on hf rfl rfl (by rintro _ _ _ ⟨⟩)
  | lookedUp =>
      rcases current_goto hf with ⟨rfl, hnew⟩ | ⟨hne, hold⟩
      · obtain ⟨rfl, hsource, hsome⟩ := current_afterLookup hnew
        obtain ⟨row, hrow⟩ := row_of_lookupEntry hsome
        exact .finds rfl hsource hrow
      · refine .on hold rfl rfl ?_
        rintro u n l ⟨⟩
        exact hne rfl
  | @asked _ _ found hr =>
      refine goes_goto (by rintro _ _ _ ⟨⟩) (fun hnew => ⟨found, ?_, ?_⟩) hf
      · rw [hr]
        rfl
      · exact current_afterHead hnew
  | @refreshed _ _ found hr =>
      refine goes_goto (s := s) (by rintro _ _ _ ⟨⟩) (fun hnew => ⟨found, ?_, ?_⟩) hf
      · rw [hr]
        rfl
      · cases hnew
        exact ⟨rfl, rfl⟩
  | opened hr hpc =>
      refine goes_goto (by rintro _ _ _ ⟨⟩) (fun hnew => ?_) hf
      cases hpc.symm.trans hnew

/-! ## The invariant -/

/-- The file of a URL is the one that a request has found there, unless the
    request was overtaken, and the one that the last store has renamed there. -/
structure Meant (K : ServerConfig γ) (x : Server γ × Order) : Prop where
  found : ∀ r found, current (x.1.requests r) = some found → ¬ x.2.overtaken r →
    ∀ file, fileOf K x.1.cache found.url = some file → file = found.source
  stored : ∀ w url content, stored (x.1.cache.stores w) = some (url, content) →
    x.2.renamer url = some w →
    ∀ file, fileOf K x.1.cache url = some file → file = content

/-- In its turn a step finds what it means. -/
theorem findsItsOwn_of_inTurn {o : Order} (hsound : Sound K V s) (h : Meant K (s, o))
    (hturn : InTurn K (s, o) a) : FindsItsOwn K s a := by
  have hpath : ∀ r found, current (s.requests r) = some found →
      found.path = fileName (K.urlHash.hash found.url) := by
    intro r found hr
    have hrequest := hsound.requests r
    cases hpc : s.requests r with
    | stale f | confirmed f | cached f =>
        rw [hpc] at hr hrequest
        cases hr
        exact hrequest.1
    | start | missed | served | failed =>
        rw [hpc] at hr
        cases hr
  cases a with
  | openFile r =>
      intro found body hr hbody
      have hcurrent : current (s.requests r) = some found := by rw [hr]; rfl
      by_cases hover : o.overtaken r
      · exact nomatch (hturn hover found hr).symm.trans hbody
      · refine h.found r found hcurrent hover body ?_
        rw [fileOf, ← hpath r found hcurrent]
        exact hbody
  | refresh r now =>
      intro found row file hr hno hrow hfile
      have hcurrent : current (s.requests r) = some found := by rw [hr]; rfl
      by_cases hover : o.overtaken r
      · rcases hturn hover found hr with hstoring | hgone | hgone
        · exact absurd hstoring hno
        · exact nomatch hgone.symm.trans hrow
        · exact nomatch hgone.symm.trans hfile
      · refine h.found r found hcurrent hover file ?_
        rw [fileOf, ← hpath r found hcurrent]
        exact hfile
  | cache act =>
      cases act with
      | insert w now victims =>
          intro url content headers size file hw hfile
          rcases hturn url (by rw [hw]; rfl) with hlast | hother | hgone
          · exact Or.inr (Or.inr (h.stored w url content (by rw [hw]; rfl) hlast file hfile))
          · exact Or.inl hother
          · exact nomatch hgone.symm.trans hfile
      | _ => trivial
  | publish | lookupEntry | head => trivial

/-- What was overtaken stays so until the next lookup. -/
theorem overtaken_note {o : Order} (hact : ∀ url now later, a ≠ .lookupEntry r url now later)
    (h : o.overtaken r) : (note s o a).overtaken r := by
  cases a with
  | lookupEntry r' url now later =>
      have hne : r ≠ r' := by
        rintro rfl
        exact hact url now later rfl
      show Function.update o.overtaken r' _ r
      rwa [Function.update_of_ne hne]
  | cache act =>
      cases act with
      | rename => exact Or.inl h
      | _ => exact h
  | publish | head | refresh | openFile => exact h

/-- A rename begins a store, and its file is the URL's. -/
theorem rename_step {content : γ} {headers : HeaderMap}
    (hs : step K s (.cache (.rename w url content headers)) = some s') :
    s.cache.stores w = .idle ∧ fileOf K s'.cache url = some content := by
  obtain ⟨hcache, -⟩ := serverStepped hs
  simp only [BlitzCache.step] at hcache
  split at hcache
  next hw =>
    cases hcache
    refine ⟨hw, ?_⟩
    show (s.cache.disk.rename K.urlHash url content).files.lookup _ = some content
    rw [lookup_rename, if_pos rfl]
  next => cases hcache

/-- What a request has found is the file still, where nobody has overtaken it.
    -/
theorem meant_found {o : Order} (hsound : Sound K V s) (h : Meant K (s, o))
    (hs : step K s a = some s') (hcurrent : current (s'.requests r) = some found)
    (hover : ¬ (note s o a).overtaken r) {file : γ}
    (hfile : fileOf K s'.cache found.url = some file) : file = found.source := by
  have hold := fileOf_step hsound.disk.wellFormed hs hfile
  cases goes_of_step hs hcurrent with
  | on hbefore hurl hsource hact =>
      have hover' := mt (overtaken_note hact) hover
      rcases hold with hold | ⟨w, headers, rfl⟩
      · rw [hsource]
        exact h.found r _ hbefore hover' file (hurl ▸ hold)
      · -- the rename overtakes the request
        refine absurd (Or.inr ?_) hover
        rw [hbefore, hurl]
        rfl
  | finds hact hsource hrow =>
      subst hact
      have hno : ¬ Storing s.cache found.url := by
        intro hstoring
        refine hover ?_
        show Function.update o.overtaken r _ r
        rwa [Function.update_self]
      rcases hold with hold | ⟨w, headers, hact⟩
      · rw [hsource]
        exact hsound.disk.files _ _ file hno hrow hold
      · cases hact

/-- What the last store has renamed is the file still. -/
theorem meant_stored {o : Order} (hwf : WellFormed K.urlHash s.cache.disk) (h : Meant K (s, o))
    (hs : step K s a = some s') {content : γ}
    (hw : stored (s'.cache.stores w) = some (url, content))
    (hlast : (note s o a).renamer url = some w) {file : γ}
    (hfile : fileOf K s'.cache url = some file) : file = content := by
  rcases stored_step hs hw with hbefore | ⟨headers, rfl⟩
  · -- a store renames once
    have hnot : ∀ u c headers, a ≠ .cache (.rename w u c headers) := by
      rintro u c headers rfl
      rw [(rename_step hs).1] at hbefore
      cases hbefore
    have hlast' : o.renamer url = some w := by
      cases a with
      | cache act =>
          cases act with
          | rename v u c headers =>
              have hlast : Function.update o.renamer u (some v) url = some w := hlast
              by_cases hu : url = u
              · rw [hu, Function.update_self] at hlast
                cases hlast
                exact absurd rfl (hnot u c headers)
              · rwa [Function.update_of_ne hu] at hlast
          | _ => exact hlast
      | _ => exact hlast
    rcases fileOf_step hwf hs hfile with hold | ⟨v, headers, rfl⟩
    · exact h.stored w url content hbefore hlast' file hold
    · have hlast : Function.update o.renamer url (some v) url = some w := hlast
      rw [Function.update_self] at hlast
      cases hlast
      exact absurd rfl (hnot url file headers)
  · rw [(rename_step hs).2] at hfile
    exact (Option.some.inj hfile).symm

/-- **Step lemma**: in its turn, a step keeps requests and stores at what
    they mean. -/
theorem inStep_step {x y : Server γ × Order} (hid : Identifies V)
    (h : Sound K V x.1 ∧ Meant K x) (hup : FromUpstream V x.1 a) (hturn : InTurn K x a)
    (hs : watch (step K) note x a = some y) : Sound K V y.1 ∧ Meant K y := by
  obtain ⟨s, o⟩ := x
  obtain ⟨s', o'⟩ := y
  obtain ⟨hs, rfl⟩ := watch_some hs
  obtain ⟨hsound, hmeant⟩ := h
  refine ⟨sound_step hid hsound hup (findsItsOwn_of_inTurn hsound hmeant hturn) hs, ?_, ?_⟩
  · intro r found hcurrent hover file hfile
    exact meant_found hsound hmeant hs hcurrent hover hfile
  · intro w url content hw hlast file hfile
    exact meant_stored hsound.disk.wellFormed hmeant hs hw hlast hfile

/-! ## Runs -/

/-- **Bodies and headers**: if lookups, opens, refreshes and stores come in
    turn, then every response is of the generation that its headers describe,
    and so is every row with its file when no store is in progress. -/
theorem served_as_described {disk : Disk γ} {upstream source : Text → γ} (hid : Identifies V)
    (hwf : WellFormed K.urlHash disk)
    (hrows : ∀ h row, disk.rows.lookup h = some row → Describes V (source h) row.headers)
    (hfiles : ∀ h row file, disk.rows.lookup h = some row →
      disk.files.lookup row.filePath = some file → file = source h)
    (hup : Along (step K) (FromUpstream V) (listening (opened disk) upstream source) acts)
    (hturn : Along (watch (step K) note) (InTurn K)
      (listening (opened disk) upstream source, .none) acts) :
    Always (step K) (AsDescribed V) (listening (opened disk) upstream source) acts := by
  have hmeant : Meant K (listening (opened disk) upstream source, Order.none) :=
    ⟨fun _ _ hcurrent => (nomatch hcurrent), fun _ _ _ hw => (nomatch hw)⟩
  have hwatched : Always (watch (step K) note) (fun x => AsDescribed V x.1)
      (listening (opened disk) upstream source, Order.none) acts :=
    always_of_along (I := fun x => Sound K V x.1 ∧ Meant K x)
      (fun _ _ _ h hg hs => inStep_step hid h hg.1 hg.2 hs) (fun _ h => h.1.asDescribed)
      ⟨sound_listening hwf hrows hfiles, hmeant⟩ (along_and (along_watch hup) hturn)
  exact always_of_watch hwatched

section Examples

/-- Generations are named by their etags. -/
def etagOnly (g name : Text) : Option Text :=
  if name = "etag".toList then some g else none

/-- An ETag that is the body says which body it is. -/
theorem identifies_etagOnly : Identifies etagOnly := by
  intro name _ g g' value hg hg'
  rw [etagOnly] at hg hg'
  split at hg
  next heq =>
    rw [if_pos heq] at hg'
    exact Option.some.inj (hg.trans hg'.symm)
  next => cases hg

/-- A server whose bodies are texts. -/
def exampleServer : ServerConfig Text where
  urlHash := exampleHash
  maxSize := 100
  len := List.length
  parseHttpDate _ := none
  maxCacheAge := 60

/-- A generation is stored. -/
def stores (g : Text) (now : Nat) : List (Act Text) :=
  [.cache (.rename 0 exampleUrl g [("etag".toList, g)]), .cache (.measure 0),
    .cache (.insert 0 now [])]

/-- The headers that name a body by itself. -/
theorem describes_etag (g : Text) : Describes etagOnly g [("etag".toList, g)] := by
  intro name _ value hget
  have hget : (match name == "etag".toList with
    | true => some g
    | false => none) = some value := hget
  by_cases hname : name = "etag".toList
  · rw [etagOnly, if_pos hname]
    rwa [beq_iff_eq.mpr hname] at hget
  · rw [beq_eq_false_iff_ne.mpr hname] at hget
    cases hget

/-- A store of a body under its own ETag. -/
theorem fromUpstream_stores {g : Text} {now : Nat} {a : Act Text} (ha : a ∈ stores g now)
    (s : Server Text) : FromUpstream etagOnly s a := by
  simp only [stores, List.mem_cons, List.not_mem_nil, or_false] at ha
  rcases ha with rfl | rfl | rfl
  · exact describes_etag g
  · trivial
  · trivial

/-- A server without files and requests. -/
def exampleStart : Server Text := listening (opened .empty) (fun _ => []) fun _ => []

/-- A request finds the file stale, has it confirmed and gets it; a second
    generation is stored then, and another request gets that. -/
def servedInTurn : List (Act Text) :=
  .publish exampleUrl ['1'] :: stores ['1'] 1 ++
    [.lookupEntry 0 exampleUrl 100 100, .head 0 (some (304, [("etag".toList, ['1'])])),
      .refresh 0 101, .openFile 0] ++
    stores ['2'] 102 ++ [.lookupEntry 1 exampleUrl 103 103, .openFile 1]

/-- A store that has ended stores nothing. -/
theorem not_storing_update {stores : Nat → StorePc γ} {pc pc' : StorePc γ}
    (h : ∀ v, (stores v).url ≠ some url) (v : Nat) :
    (Function.update (Function.update (Function.update stores 0 pc) 0 pc') 0 .idle v).url
      ≠ some url := by
  by_cases hv : v = 0
  · rw [hv, Function.update_self]
    exact nofun
  · rw [Function.update_of_ne hv, Function.update_of_ne hv, Function.update_of_ne hv]
    exact h v

/-- At the start no store is under way. -/
theorem idle_url (v : Nat) : ((opened .empty : Process γ).stores v).url ≠ some url := nofun

/-- The stores and lookups of the example take turns. -/
theorem inTurn_servedInTurn :
    Along (watch (step exampleServer) note) (InTurn exampleServer) (exampleStart, .none)
      servedInTurn := by
  refine ⟨trivial, ?_⟩
  rintro s ⟨⟩
  refine ⟨trivial, ?_⟩
  rintro s ⟨⟩
  refine ⟨trivial, ?_⟩
  rintro s ⟨⟩
  refine ⟨?_, ?_⟩
  · rintro u ⟨⟩
    exact Or.inl rfl
  rintro s ⟨⟩
  refine ⟨trivial, ?_⟩
  rintro s ⟨⟩
  refine ⟨trivial, ?_⟩
  rintro s ⟨⟩
  refine ⟨?_, ?_⟩
  · rintro ⟨v, hv⟩
    exact absurd hv (not_storing_update idle_url v)
  rintro s ⟨⟩
  refine ⟨?_, ?_⟩
  · rintro ⟨v, hv⟩
    exact absurd hv (not_storing_update idle_url v)
  rintro s ⟨⟩
  refine ⟨trivial, ?_⟩
  rintro s ⟨⟩
  refine ⟨trivial, ?_⟩
  rintro s ⟨⟩
  refine ⟨?_, ?_⟩
  · rintro u ⟨⟩
    exact Or.inl rfl
  rintro s ⟨⟩
  refine ⟨trivial, ?_⟩
  rintro s ⟨⟩
  refine ⟨?_, fun _ _ => trivial⟩
  rintro ⟨v, hv⟩
  exact absurd hv (not_storing_update (not_storing_update idle_url) v)

/-- The example's bodies come with their own ETags. -/
theorem fromUpstream_servedInTurn :
    Along (step exampleServer) (FromUpstream etagOnly) exampleStart servedInTurn := by
  refine ⟨trivial, ?_⟩
  rintro s ⟨⟩
  refine ⟨describes_etag _, ?_⟩
  rintro s ⟨⟩
  refine ⟨trivial, ?_⟩
  rintro s ⟨⟩
  refine ⟨trivial, ?_⟩
  rintro s ⟨⟩
  refine ⟨trivial, ?_⟩
  rintro s ⟨⟩
  refine ⟨?_, ?_⟩
  · rintro found ⟨⟩
    refine ⟨describes_etag _, fun _ => ⟨"etag".toList, by decide, ['1'], rfl, rfl⟩⟩
  rintro s ⟨⟩
  refine ⟨trivial, ?_⟩
  rintro s ⟨⟩
  refine ⟨trivial, ?_⟩
  rintro s ⟨⟩
  refine ⟨describes_etag _, ?_⟩
  rintro s ⟨⟩
  refine ⟨trivial, ?_⟩
  rintro s ⟨⟩
  refine ⟨trivial, ?_⟩
  rintro s ⟨⟩
  exact ⟨trivial, fun _ _ => ⟨trivial, fun _ _ => trivial⟩⟩

/-- Whether a request has been served this body with this etag. -/
def isServed (pc : RequestPc Text) (g : Text) : Bool :=
  match pc with
  | .served headers body => body == g && headers.get "etag".toList == some g
  | _ => false

theorem served_as_described_inTurn :
    ∃ s, run (step exampleServer) exampleStart servedInTurn = some s ∧
      (isServed (s.requests 0) ['1'] && isServed (s.requests 1) ['2']) = true ∧
      Always (step exampleServer) (AsDescribed etagOnly) exampleStart servedInTurn := by
  have hany : (run (step exampleServer) exampleStart servedInTurn).any (fun s =>
      isServed (s.requests 0) ['1'] && isServed (s.requests 1) ['2']) = true := by
    decide +kernel
  obtain ⟨s, hrun, hserved⟩ := run_of_any hany
  refine ⟨s, hrun, hserved, ?_⟩
  exact served_as_described identifies_etagOnly wellFormed_empty (fun _ _ hrow => (nomatch hrow))
    (fun _ _ _ hrow => (nomatch hrow)) fromUpstream_servedInTurn inTurn_servedInTurn

/-- Another store replaces the file before it is opened. -/
def replacedBeforeOpen : List (Act Text) :=
  stores ['1'] 1 ++ [.lookupEntry 0 exampleUrl 2 2,
    .cache (.rename 1 exampleUrl ['2'] [("etag".toList, ['2'])]), .openFile 0]

/-- The second generation is delivered with the etag of the first. -/
theorem served_other_generation :
    ∃ s, run (step exampleServer) exampleStart replacedBeforeOpen = some s ∧
      Along (step exampleServer) (FromUpstream etagOnly) exampleStart replacedBeforeOpen ∧
      ∃ r headers body, s.requests r = .served headers body ∧
        ¬ Describes etagOnly body headers := by
  refine ⟨_, rfl, along_of_mem ?_, 0, _, _, rfl, ?_⟩
  · intro a ha s
    rcases List.mem_append.mp ha with hstore | hrequest
    · exact fromUpstream_stores hstore s
    · simp only [List.mem_cons, List.not_mem_nil, or_false] at hrequest
      rcases hrequest with rfl | rfl | rfl
      · trivial
      · exact describes_etag ['2']
      · trivial
  · intro h
    have hetag : etagOnly ['2'] "etag".toList = some ['1'] := h _ (by decide) _ (by decide)
    exact absurd hetag (by decide)

end Examples

end BlitzServingOrder
