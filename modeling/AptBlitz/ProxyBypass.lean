import AptBlitz.Config

/-! # The bypass list of the HTTP client

    What `run_proxy` does with the upstream proxy before it builds the client:
    each rule of `no_proxy` that can be read is given to the proxy.  A proxy
    has one list of hosts that it leaves alone, and `no_proxy` sets it, so a
    rule takes the place of the one before it.

    The rules have the effect of all of them together if and only if the last
    one that can be read names every host of the earlier ones
    (`bypasses_union_iff`). -/

namespace BlitzProxyBypass

open RustText BlitzConfig

variable {N : Type}

/-- What is asked of the client library: which addresses `Proxy::all` takes,
    the list that a text denotes, and the hosts on a list. -/
structure Reqwest (N : Type) where
  isUrl : Text → Bool
  fromString : Text → Option N
  contains : N → Text → Bool

/-- What reqwest's `Proxy` is told. -/
structure Proxy (N : Type) where
  url : Text
  basicAuth : Option (Text × Text)
  noProxy : Option N
  deriving DecidableEq, Repr

/-- `Proxy::all`. -/
def Reqwest.all (lib : Reqwest N) (url : Text) : Option (Proxy N) :=
  if lib.isUrl url then some ⟨url, none, none⟩ else none

/-- `Proxy::basic_auth`. -/
def Proxy.withBasicAuth (proxy : Proxy N) (user pass : Text) : Proxy N :=
  { proxy with basicAuth := some (user, pass) }

/-- `Proxy::no_proxy`, which sets the list. -/
def Proxy.withNoProxy (proxy : Proxy N) (noProxy : Option N) : Proxy N :=
  { proxy with noProxy := noProxy }

/-- The URL of the proxy. -/
def proxyUrl (proxyCfg : UpstreamProxy) : Text :=
  match proxyCfg.proxyType with
  | .http | .https =>
      "http://".toList ++ proxyCfg.host ++ ':' :: natText proxyCfg.port.toNat
  | .socks5 =>
      "socks5://".toList ++ proxyCfg.host ++ ':' :: natText proxyCfg.port.toNat

/-- The body of the loop over the rules. -/
def applyRule (lib : Reqwest N) (proxy : Proxy N) (noHost : Text) : Proxy N :=
  match lib.fromString noHost with
  | some no => proxy.withNoProxy (some no)
  | none => proxy

/-- The proxy that the client of `run_proxy` is given, if any; `none` where
    the address of the upstream proxy is an error. -/
def clientProxy (lib : Reqwest N) (config : Config) : Option (Option (Proxy N)) :=
  match config.upstreamProxy with
  | none => some none
  | some proxyCfg =>
      match lib.all (proxyUrl proxyCfg) with
      | none => none
      | some proxy =>
          let proxy :=
            match proxyCfg.username, proxyCfg.password with
            | some user, some pass => proxy.withBasicAuth user pass
            | _, _ => proxy
          some (some (config.noProxy.foldl (applyRule lib) proxy))

variable {lib : Reqwest N} {proxy : Proxy N} {config : Config} {rules earlier later : List Text}
  {rule host : Text} {no : N}

/-! ## The loop -/

/-- A rule that names somebody replaces what was there. -/
theorem applyRule_some (h : lib.fromString rule = some no) :
    applyRule lib proxy rule = proxy.withNoProxy (some no) := by
  rw [applyRule, h]

/-- A rule that names nobody changes nothing. -/
theorem applyRule_none (h : lib.fromString rule = none) : applyRule lib proxy rule = proxy := by
  rw [applyRule, h]

/-- Rules that name nobody change nothing. -/
theorem foldl_applyRule_none (h : ∀ s ∈ rules, lib.fromString s = none) :
    rules.foldl (applyRule lib) proxy = proxy := by
  induction rules with
  | nil => rfl
  | cons rule rules ih =>
      rw [List.foldl_cons, applyRule_none (h rule List.mem_cons_self)]
      exact ih fun s hs => h s (List.mem_cons_of_mem _ hs)

/-- The last rule that can be read is the one that stays. -/
theorem foldl_applyRule_last (hrule : lib.fromString rule = some no)
    (hlater : ∀ s ∈ later, lib.fromString s = none) :
    ((earlier ++ rule :: later).foldl (applyRule lib) proxy).noProxy = some no := by
  rw [List.foldl_append, List.foldl_cons, applyRule_some hrule, foldl_applyRule_none hlater]
  rfl

/-- No rule can be read, or there is a last one that can. -/
theorem last_read (lib : Reqwest N) (rules : List Text) :
    (∀ s ∈ rules, lib.fromString s = none) ∨
      ∃ earlier rule later no, rules = earlier ++ rule :: later ∧
        lib.fromString rule = some no ∧ ∀ s ∈ later, lib.fromString s = none := by
  induction rules with
  | nil => exact Or.inl fun s hs => absurd hs List.not_mem_nil
  | cons first rules ih =>
      rcases ih with hnone | ⟨earlier, rule, later, no, rfl, hrule, hlater⟩
      · cases hfirst : lib.fromString first with
        | none =>
            refine Or.inl fun s hs => ?_
            rcases List.mem_cons.mp hs with rfl | hs
            · exact hfirst
            · exact hnone s hs
        | some no => exact Or.inr ⟨[], first, rules, no, rfl, hfirst, hnone⟩
      · exact Or.inr ⟨first :: earlier, rule, later, no, rfl, hrule, hlater⟩

/-- The list is empty when the loop starts. -/
theorem clientProxy_some (h : clientProxy lib config = some (some proxy)) :
    ∃ start : Proxy N, start.noProxy = none ∧
      proxy = config.noProxy.foldl (applyRule lib) start := by
  rw [clientProxy] at h
  cases hup : config.upstreamProxy with
  | none =>
      rw [hup] at h
      cases h
  | some proxyCfg =>
      rw [hup] at h
      dsimp only at h
      rw [Reqwest.all] at h
      split at h
      · cases h
      · next start hall =>
          split at hall
          · cases hall
            cases h
            refine ⟨_, ?_, rfl⟩
            split
            · rfl
            · rfl
          · cases hall

/-! ## What is bypassed -/

/-- The client asks the host itself, and not the proxy. -/
def Bypasses (lib : Reqwest N) (proxy : Proxy N) (host : Text) : Prop :=
  ∃ no, proxy.noProxy = some no ∧ lib.contains no host = true

/-- Some rule that can be read names the host. -/
def Named (lib : Reqwest N) (rules : List Text) (host : Text) : Prop :=
  ∃ rule ∈ rules, ∃ no, lib.fromString rule = some no ∧ lib.contains no host = true

/-- The last rule that can be read names what the earlier ones do. -/
def LastCovers (lib : Reqwest N) (rules : List Text) : Prop :=
  ∀ earlier rule later no, rules = earlier ++ rule :: later → lib.fromString rule = some no →
    (∀ s ∈ later, lib.fromString s = none) →
      ∀ host, Named lib earlier host → lib.contains no host = true

/-- Rules that name nobody name no host. -/
theorem not_named_of_none (h : ∀ s ∈ rules, lib.fromString s = none) : ¬ Named lib rules host := by
  rintro ⟨rule, hmem, no, hrule, -⟩
  rw [h rule hmem] at hrule
  cases hrule

/-- The last rule that names somebody, and those before it. -/
theorem named_split (hrule : lib.fromString rule = some no)
    (hlater : ∀ s ∈ later, lib.fromString s = none) :
    Named lib (earlier ++ rule :: later) host ↔
      Named lib earlier host ∨ lib.contains no host = true := by
  constructor
  · rintro ⟨r, hmem, no', hr, hhost⟩
    rcases List.mem_append.mp hmem with hearlier | htail
    · exact Or.inl ⟨r, hearlier, no', hr, hhost⟩
    · rcases List.mem_cons.mp htail with rfl | hlast
      · have heq : no = no' := Option.some.inj (hrule.symm.trans hr)
        exact Or.inr (heq ▸ hhost)
      · exact absurd ⟨r, hlast, no', hr, hhost⟩ (not_named_of_none hlater)
  · rintro (⟨r, hmem, hr⟩ | hhost)
    · exact ⟨r, List.mem_append_left _ hmem, hr⟩
    · exact ⟨rule, List.mem_append_right _ List.mem_cons_self, no, hrule, hhost⟩

/-- **The union of the rules** is what the client bypasses if and only if the
    last rule that can be read names every host that an earlier one does. -/
theorem bypasses_union_iff (h : clientProxy lib config = some (some proxy)) :
    (∀ host, Bypasses lib proxy host ↔ Named lib config.noProxy host) ↔
      LastCovers lib config.noProxy := by
  obtain ⟨start, hstart, rfl⟩ := clientProxy_some h
  have hlast : ∀ {earlier rule later no host}, lib.fromString rule = some no →
      (∀ s ∈ later, lib.fromString s = none) →
      (Bypasses lib ((earlier ++ rule :: later).foldl (applyRule lib) start) host ↔
        lib.contains no host = true) := by
    intro earlier rule later no host hrule hlater
    rw [Bypasses, foldl_applyRule_last hrule hlater]
    constructor
    · rintro ⟨no', hno, hhost⟩
      exact Option.some.inj hno ▸ hhost
    · intro hhost
      exact ⟨no, rfl, hhost⟩
  constructor
  · intro hunion earlier rule later no hrules hrule hlater host hnamed
    rw [hrules] at hunion
    exact (hlast hrule hlater).mp
      ((hunion host).mpr ((named_split hrule hlater).mpr (Or.inl hnamed)))
  · intro hcovers host
    rcases last_read lib config.noProxy with
      hnone | ⟨earlier, rule, later, no, hrules, hrule, hlater⟩
    · rw [foldl_applyRule_none hnone, Bypasses, hstart]
      refine iff_of_false ?_ (not_named_of_none hnone)
      rintro ⟨no, hno, -⟩
      cases hno
    · have hearlier := hcovers earlier rule later no hrules hrule hlater host
      rw [hrules, hlast hrule hlater, named_split hrule hlater]
      exact ⟨Or.inr, fun hor => hor.elim hearlier id⟩

section Examples

/-- Lists of domains, which name their own subdomains too. -/
def domainLists : Reqwest (List Text) where
  isUrl _ := true
  fromString s := if s = [] then none else some ((split ',' s).map trim)
  contains domains host := domains.any fun d => d == host || ('.' :: d).isSuffixOf host

/-- A configuration with a proxy and these rules. -/
def proxied (noProxy : List Text) : Config where
  port := 8080
  bind := "127.0.0.1".toList
  connections := 4
  cacheDir := defaultCacheDir
  maxCacheSize := 0
  maxCacheAge := 86400
  urlMaps := []
  upstreamProxy := some ⟨.http, "proxy".toList, 3128, none, none⟩
  noProxy := noProxy
  maxConnectionsPerIp := 0
  maxTotalConnections := 0
  maxWorkers := 0
  upstreamBandwidth := 0
  perIpBandwidth := 0
  coalesceFollowerTimeoutSecs := 50
  coalesceMaxRetries := 3
  coalesceEtagMaxRetries := 8

/-- The second of two rules takes the place of the first. -/
theorem not_bypasses_first :
    ∃ proxy, clientProxy domainLists (proxied ["localhost".toList, "example.org".toList]) =
        some (some proxy) ∧
      Named domainLists ["localhost".toList, "example.org".toList] "localhost".toList ∧
        ¬ Bypasses domainLists proxy "localhost".toList := by
  refine ⟨_, rfl, ⟨"localhost".toList, List.mem_cons_self, _, rfl, by decide⟩, ?_⟩
  rintro ⟨no, hno, hhost⟩
  cases hno
  exact absurd hhost (by decide)

theorem bypasses_union_iff_two :
    ∃ proxy, clientProxy domainLists (proxied [[], "localhost".toList]) = some (some proxy) ∧
      ∀ host, Bypasses domainLists proxy host ↔
        Named domainLists [[], "localhost".toList] host := by
  obtain ⟨proxy, hproxy⟩ : ∃ proxy,
      clientProxy domainLists (proxied [[], "localhost".toList]) = some (some proxy) := ⟨_, rfl⟩
  refine ⟨proxy, hproxy, (bypasses_union_iff hproxy).mpr ?_⟩
  rintro earlier rule later no hrules hrule hlater host ⟨r, hr, no', hread, -⟩
  cases earlier with
  | nil => exact absurd hr List.not_mem_nil
  | cons first rest =>
      -- one rule at most is before the last one, and it is empty
      obtain ⟨rfl, hrest⟩ := List.cons.inj hrules
      cases rest with
      | nil =>
          rw [List.mem_singleton.mp hr] at hread
          cases hread
      | cons second rest =>
          have hnil : [] = rest ++ rule :: later := (List.cons.inj hrest).2
          exact absurd (List.append_eq_nil_iff.mp hnil.symm).2 (List.cons_ne_nil _ _)

end Examples

end BlitzProxyBypass
