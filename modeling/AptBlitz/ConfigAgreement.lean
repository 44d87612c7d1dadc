import AptBlitz.Config
import AptBlitz.Library.TextRules

/-! # What `blitzctl` works with

    The server reads the file into the environment, where a variable that is
    set wins, and then takes everything from the environment.  The helpers of
    `blitzctl` read the two themselves.  They agree on the age always, on the
    directory unless the file and the environment name two, and on the URL
    maps unless one in the file has a comma: `helpers_agree_iff`. -/

namespace BlitzConfigAgreement

open RustText RustOs BlitzUrlMap BlitzConfig

variable {host : Host} {clap : Clap} {config : Config} {env env' : Env} {key name : Text}
  {value : Option Text} {v : OsText} {s : Text}

/-! ## The bridge -/

/-- A variable after a key of the file has been applied to it. -/
def overlay (v : Option OsText) (value : Option Text) : Option OsText :=
  match value with
  | none => v
  | some text => if (v.bind toStr).isSome then v else some (ofText text)

/-- What `set_var` leaves in the environment. -/
theorem setMissing_get (h : setMissing env (key, value) = some env') (name : Text) :
    env' name = if name = varName key then overlay (env name) value else env name := by
  cases value with
  | none =>
      cases h
      rw [overlay, ite_self]
  | some text =>
      simp only [setMissing] at h
      split at h
      next hset =>
        cases h
        split
        next heq =>
          subst heq
          exact (if_pos hset).symm
        next => rfl
      next hset =>
        rw [setVar] at h
        split at h
        next => exact nomatch h
        next =>
          cases h
          rw [Function.update_apply]
          split
          next heq =>
            subst heq
            exact (if_neg hset).symm
          next => rfl

theorem varName_inj {k : Text} (h : varName key = varName k) : key = k :=
  List.append_cancel_left h

/-- The others do not touch a variable. -/
theorem foldlM_get_of_notMem {settings : List (Text × Option Text)}
    (h : settings.foldlM setMissing env = some env') (hnot : key ∉ settings.map Prod.fst) :
    env' (varName key) = env (varName key) := by
  induction settings generalizing env with
  | nil => cases h; rfl
  | cons setting settings ih =>
      rw [List.foldlM_cons, Option.bind_eq_bind, Option.bind_eq_some_iff] at h
      obtain ⟨next, hnext, hrest⟩ := h
      rw [List.map_cons, List.mem_cons, not_or] at hnot
      rw [ih hrest hnot.2, setMissing_get hnext, if_neg]
      exact fun heq => hnot.1 (varName_inj heq)

/-- **Each variable once**: a key is applied to what the shell has set. -/
theorem foldlM_get {settings : List (Text × Option Text)}
    (h : settings.foldlM setMissing env = some env') (hnodup : (settings.map Prod.fst).Nodup)
    (hmem : (key, value) ∈ settings) :
    env' (varName key) = overlay (env (varName key)) value := by
  induction settings generalizing env with
  | nil => exact nomatch hmem
  | cons setting settings ih =>
      rw [List.foldlM_cons, Option.bind_eq_bind, Option.bind_eq_some_iff] at h
      obtain ⟨next, hnext, hrest⟩ := h
      rw [List.map_cons, List.nodup_cons] at hnodup
      rcases List.mem_cons.mp hmem with rfl | hlater
      · rw [foldlM_get_of_notMem hrest hnodup.1, setMissing_get hnext, if_pos rfl]
      · rw [ih hrest hnodup.2 hlater, setMissing_get hnext, if_neg]
        intro heq
        have hkey : key ∈ settings.map Prod.fst := List.mem_map_of_mem hlater
        exact hnodup.1 (varName_inj heq ▸ hkey)

theorem nodup_settings (y : YamlConfig) : (y.settings.map Prod.fst).Nodup := by
  simp only [YamlConfig.settings, List.map_cons, List.map_nil]
  decide

/-- An environment that is loaded is the shell's, or has the file applied. -/
theorem loadEnv_ok (h : loadEnv host = .ok env') :
    (discovered host = none ∧ env' = host.env) ∨
      ∃ yaml, discovered host = some yaml ∧ yaml.applyEnv host.env = some env' := by
  rw [loadEnv] at h
  rw [discovered]
  split at h
  next hpath =>
    cases h
    exact Or.inl ⟨by rw [hpath]; rfl, rfl⟩
  next path hpath =>
    split at h
    next => exact nomatch h
    next content hread =>
      split at h
      next => exact nomatch h
      next yaml hyaml =>
        split at h
        next => exact nomatch h
        next happly =>
          cases h
          refine Or.inr ⟨yaml, ?_, happly⟩
          rw [hpath, Option.bind_some, hread, Option.bind_some, hyaml]

/-- **What the arguments are read from**: the variable, or else the key of the
    file. -/
theorem loadEnv_get (h : loadEnv host = .ok env') (key : Text) (get : YamlConfig → Option Text)
    (hkey : ∀ y : YamlConfig, (key, get y) ∈ y.settings) :
    env' (varName key) = overlay (host.env (varName key)) ((discovered host).bind get) := by
  rcases loadEnv_ok h with ⟨hnone, rfl⟩ | ⟨yaml, hyaml, happly⟩
  · rw [hnone]
    rfl
  · rw [hyaml]
    exact foldlM_get happly (nodup_settings yaml) (hkey yaml)

/-- `PROXY_CACHE_DIR` after the YAML file has been applied. -/
theorem cacheDir_get (h : loadEnv host = .ok env') :
    env' "PROXY_CACHE_DIR".toList = overlay (host.env "PROXY_CACHE_DIR".toList)
      ((discovered host).bind YamlConfig.cacheDir) :=
  loadEnv_get h "CACHE_DIR".toList _ fun y => by simp [YamlConfig.settings]

/-- `PROXY_MAX_CACHE_AGE` after the YAML file has been applied. -/
theorem maxCacheAge_get (h : loadEnv host = .ok env') :
    env' "PROXY_MAX_CACHE_AGE".toList = overlay (host.env "PROXY_MAX_CACHE_AGE".toList)
      (((discovered host).bind YamlConfig.maxCacheAge).map fun n => natText n.toNat) := by
  rw [Option.map_bind]
  exact loadEnv_get h "MAX_CACHE_AGE".toList _ fun y => by simp [YamlConfig.settings]

/-- `PROXY_URL_MAP` after the YAML file has been applied. -/
theorem urlMap_get (h : loadEnv host = .ok env') :
    env' "PROXY_URL_MAP".toList = overlay (host.env "PROXY_URL_MAP".toList)
      (joined ((discovered host).bind YamlConfig.urlMap)) := by
  rw [joined, Option.bind_assoc]
  exact loadEnv_get h "URL_MAP".toList _ fun y => by simp [YamlConfig.settings, joined]

/-- A variable that is set wins over the file. -/
theorem overlay_of_var {value : Option Text} {name : Text} (h : var env name = some s) :
    overlay (env name) value = env name := by
  cases value with
  | none => rfl
  | some text => exact if_pos (by rw [← var, h]; rfl)

/-- The file's value stands where the variable is not set. -/
theorem overlay_some {text name : Text} (h : var env name = none) :
    overlay (env name) (some text) = some (ofText text) :=
  if_neg (by rw [← var, h]; exact nofun)

theorem eq_of_var (h : var env name = some s) : env name = some (ofText s) := by
  obtain ⟨v, hv, hstr⟩ := Option.bind_eq_some_iff.mp h
  rw [hv, eq_ofText hstr]

/-! ## What is loaded -/

/-- What is relied on in clap: a value that it accepts is the value that it was
    given. -/
structure Sound (clap : Clap) : Prop where
  u64 : ∀ v n, clap.u64 v = some n → ∃ s, toStr v = some s ∧ parseU64 s = .ok n
  string : ∀ v s, clap.string v = some s → toStr v = some s
  pathBuf : ∀ v p, clap.pathBuf v = some p → p = v

/-- The arguments that the helpers look for as well. -/
structure Loaded (host : Host) (clap : Clap) (config : Config) (env : Env) (urlMap : List Text) :
    Prop where
  env_eq : loadEnv host = .ok env
  cacheDir : argValue env "PROXY_CACHE_DIR" clap.pathBuf defaultCacheDir = some config.cacheDir
  maxCacheAge : argValue env "PROXY_MAX_CACHE_AGE" clap.u64 86400 = some config.maxCacheAge
  urlMap_eq : argValue env "PROXY_URL_MAP" clap.delimited [] = some urlMap
  urlMaps : urlMap.mapM UrlMap.parse = .ok config.urlMaps

theorem bind_some {T U : Type} {x : Option T} {f : T → Option U} {u : U}
    (h : (x >>= f) = some u) : ∃ t, x = some t ∧ f t = some u :=
  Option.bind_eq_some_iff.mp h

/-- The three arguments that the helpers read again. -/
theorem args_of_parse {cli : Cli} (h : Cli.parse clap env = some cli) :
    argValue env "PROXY_CACHE_DIR" clap.pathBuf defaultCacheDir = some cli.cacheDir ∧
      argValue env "PROXY_MAX_CACHE_AGE" clap.u64 86400 = some cli.maxCacheAge ∧
      argValue env "PROXY_URL_MAP" clap.delimited [] = some cli.urlMap := by
  rw [Cli.parse] at h
  -- port, bind, connections
  iterate 3 obtain ⟨_, -, h⟩ := bind_some h
  obtain ⟨cacheDir, hdir, h⟩ := bind_some h
  obtain ⟨maxCacheSize, -, h⟩ := bind_some h
  obtain ⟨maxCacheAge, hage, h⟩ := bind_some h
  obtain ⟨configFile, -, h⟩ := bind_some h
  obtain ⟨urlMap, hmap, h⟩ := bind_some h
  -- the ten that the helpers do not look for
  iterate 10 obtain ⟨_, -, h⟩ := bind_some h
  cases h
  exact ⟨hdir, hage, hmap⟩

/-- What `build` passes on of the three. -/
theorem build_ok {cli : Cli} (h : cli.build = .ok config) :
    config.cacheDir = cli.cacheDir ∧ config.maxCacheAge = cli.maxCacheAge ∧
      cli.urlMap.mapM UrlMap.parse = .ok config.urlMaps := by
  rw [Cli.build] at h
  split at h
  next => exact nomatch h
  next urlMaps hmaps =>
    split at h
    next => exact nomatch h
    next =>
      cases h
      exact ⟨rfl, rfl, hmaps⟩

/-- Every loaded configuration went through these steps. -/
theorem loaded_of_load (h : load host clap = .ok config) :
    ∃ env urlMap, Loaded host clap config env urlMap := by
  rw [load] at h
  split at h
  next => exact nomatch h
  next env henv =>
    split at h
    next => exact nomatch h
    next cli hcli =>
      obtain ⟨hdir, hage, hmap⟩ := args_of_parse hcli
      obtain ⟨hdirs, hages, hmaps⟩ := build_ok h
      exact ⟨env, cli.urlMap, henv, hdirs ▸ hdir, hages ▸ hage, hmap, hmaps⟩

variable {urlMap : List Text}

/-! ## The age -/

/-- A number is read back from its decimal text. -/
theorem parseU64_natText (n : UInt64) : parseU64 (natText n.toNat) = .ok n := by
  have hle : n.toNat ≤ u64Max := Nat.le_sub_one_of_lt n.toNat_lt
  rw [parseU64, parseUnsigned_natText hle]
  exact congrArg _ n.ofNat_toNat

theorem parseU64_trim {n : UInt64} (h : parseU64 s = .ok n) : parseU64 (trim s) = .ok n := by
  rw [parseU64] at h
  cases hs : parseUnsigned u64Max s with
  | error e => rw [hs] at h; exact nomatch h
  | ok m =>
      rw [parseU64, trim_of_parseUnsigned hs]
      exact h

theorem ofText_of_u64 (hclap : Sound clap) {n : UInt64} (h : clap.u64 (ofText s) = some n) :
    parseU64 s = .ok n := by
  obtain ⟨t, ht, hparse⟩ := hclap.u64 _ _ h
  rw [toStr_ofText] at ht
  cases ht
  exact hparse

/-- **The age agrees** whatever is set where. -/
theorem maxCacheAgeOnly_eq (hclap : Sound clap) (h : Loaded host clap config env urlMap) :
    maxCacheAgeOnly host = config.maxCacheAge := by
  have hage := h.maxCacheAge
  rw [argValue, maxCacheAge_get h.env_eq] at hage
  rw [maxCacheAgeOnly]
  cases hvar : var host.env "PROXY_MAX_CACHE_AGE".toList with
  | some s =>
      -- the shell's value goes through the same parser, once trimmed
      rw [overlay_of_var hvar, eq_of_var hvar] at hage
      rw [Option.bind_some, parseU64_trim (ofText_of_u64 hclap hage)]
      rfl
  | none =>
      rw [Option.bind_none]
      cases hyaml : (discovered host).bind YamlConfig.maxCacheAge with
      | some n =>
          rw [hyaml, Option.map_some, overlay_some hvar] at hage
          have hparse := ofText_of_u64 hclap hage
          rw [parseU64_natText] at hparse
          exact Except.ok.inj hparse
      | none =>
          rw [hyaml, Option.map_none, overlay] at hage
          cases henv : host.env "PROXY_MAX_CACHE_AGE".toList with
          | none =>
              rw [henv] at hage
              exact Option.some.inj hage
          | some v =>
              -- a value that is no text is refused
              rw [henv] at hage
              obtain ⟨s, hs, -⟩ := hclap.u64 v _ hage
              rw [var, henv, Option.bind_some, hs] at hvar
              exact nomatch hvar

/-! ## The directory -/

/-- The file and the environment do not name two directories, and what the
    environment names alone is a text that is not empty. -/
def CacheDirAgrees (yaml : Option YamlConfig) (env : Env) : Prop :=
  match yaml.bind YamlConfig.cacheDir, env "PROXY_CACHE_DIR".toList with
  | some dir, some v => toStr v ≠ none → SamePath (ofText dir) v
  | none, some v => v ≠ [] ∧ toStr v ≠ none
  | _, none => True

/-- The default is all text. -/
theorem not_samePath_of_byte (h : toStr v = none) : ¬ SamePath defaultCacheDir v := by
  intro hsame
  obtain ⟨b, hb⟩ := byte_mem_of_toStr h
  obtain ⟨part, hpart, hmem⟩ := byte_mem_components hb
  have hparts : (components defaultCacheDir).parts
      = ["var", "cache", "apt-blitz"].map fun name => ofText name.toList := by decide
  have heq : components defaultCacheDir = components v := hsame
  rw [← heq, hparts] at hpart
  obtain ⟨name, -, rfl⟩ := List.mem_map.mp hpart
  obtain ⟨c, -, hc⟩ := List.mem_map.mp hmem
  exact nomatch hc

/-- Without a directory in the file. -/
theorem cacheDirOnly_of_none (hyaml : (discovered host).bind YamlConfig.cacheDir = none)
    {p : OsText} (hp : p = (host.env "PROXY_CACHE_DIR".toList).getD defaultCacheDir) :
    SamePath (cacheDirOnly host) p ↔ CacheDirAgrees (discovered host) host.env := by
  subst hp
  rw [cacheDirOnly, CacheDirAgrees, hyaml, var]
  cases henv : host.env "PROXY_CACHE_DIR".toList with
  | none => exact iff_of_true rfl trivial
  | some v =>
      rw [Option.bind_some, Option.getD_some]
      cases hstr : toStr v with
      | none => exact iff_of_false (not_samePath_of_byte hstr) fun hne => hne.2 hstr
      | some s =>
          have hv : v = ofText s := eq_ofText hstr
          subst hv
          dsimp only
          split
          next hnil =>
            subst hnil
            exact iff_of_false (by decide) fun hne => hne.1 rfl
          next hne =>
            have htext : toStr (ofText s) ≠ none := by
              rw [hstr]
              exact nofun
            exact iff_of_true rfl ⟨fun hnil => hne (List.map_eq_nil_iff.mp hnil), htext⟩

/-- `cache_dir_only` agrees with `Config::load` exactly under the condition. -/
theorem cacheDirOnly_iff (hclap : Sound clap) (h : Loaded host clap config env urlMap) :
    SamePath (cacheDirOnly host) config.cacheDir ↔ CacheDirAgrees (discovered host) host.env := by
  have hdir := h.cacheDir
  rw [argValue, cacheDir_get h.env_eq] at hdir
  cases hyaml : (discovered host).bind YamlConfig.cacheDir with
  | none =>
      rw [hyaml, overlay] at hdir
      refine cacheDirOnly_of_none hyaml ?_
      cases henv : host.env "PROXY_CACHE_DIR".toList with
      | none =>
          rw [henv] at hdir
          exact (Option.some.inj hdir).symm
      | some v =>
          rw [henv] at hdir
          exact hclap.pathBuf v _ hdir
  | some dir =>
      rw [cacheDirOnly, CacheDirAgrees, hyaml]
      dsimp only
      rw [hyaml] at hdir
      cases hvar : var host.env "PROXY_CACHE_DIR".toList with
      | some s =>
          -- the server takes the shell's directory, `blitzctl` the file's
          rw [overlay_of_var hvar, eq_of_var hvar] at hdir
          rw [eq_of_var hvar, hclap.pathBuf _ _ hdir]
          exact ⟨fun hsame _ => hsame, fun himp => himp (by rw [toStr_ofText]; exact nofun)⟩
      | none =>
          rw [overlay_some hvar] at hdir
          rw [hclap.pathBuf _ _ hdir]
          refine iff_of_true rfl ?_
          rw [var] at hvar
          cases henv : host.env "PROXY_CACHE_DIR".toList with
          | none => trivial
          | some v =>
              rw [henv] at hvar
              exact fun hne => absurd hvar hne

/-! ## The URL maps -/

/-- The environment has the maps, or no map in the file has a comma. -/
def UrlMapsAgree (yaml : Option YamlConfig) (env : Env) : Prop :=
  var env "PROXY_URL_MAP".toList = none →
    ∀ maps, yaml.bind YamlConfig.urlMap = some maps → ∀ map ∈ maps, ',' ∉ map

/-- A mapping that parses has an `=` in it. -/
theorem equals_mem_of_parse {map : UrlMap} (h : UrlMap.parse s = .ok map) : '=' ∈ s := by
  rw [UrlMap.parse] at h
  split at h
  next => exact nomatch h
  next hsplit =>
    rw [(splitOnce_some hsplit).1]
    exact List.mem_append_right _ List.mem_cons_self

/-- Space around an entry makes no difference to the map. -/
theorem parse_trim {map : UrlMap} (h : UrlMap.parse s = .ok map) :
    UrlMap.parse (trim s) = .ok map := by
  rw [UrlMap.parse] at h ⊢
  cases hsplit : splitOnce '=' s with
  | none => rw [hsplit] at h; exact nomatch h
  | some p =>
      obtain ⟨fake, real⟩ := p
      rw [hsplit] at h
      rw [splitOnce_trim (by decide) hsplit]
      dsimp only at h ⊢
      rwa [trim_dropWhile, trim_trimEnd]

/-- `collect` gives a list when every entry parses. -/
theorem mapM_cons_ok {part : Text} {parts : List Text} {maps : List UrlMap} :
    (part :: parts).mapM UrlMap.parse = .ok maps ↔
      ∃ map rest, UrlMap.parse part = .ok map ∧ parts.mapM UrlMap.parse = .ok rest ∧
        maps = map :: rest := by
  rw [List.mapM_cons]
  constructor
  · intro h
    cases hmap : UrlMap.parse part with
    | error e => rw [hmap] at h; exact nomatch h
    | ok map =>
        cases hrest : parts.mapM UrlMap.parse with
        | error e => rw [hmap, hrest] at h; exact nomatch h
        | ok rest =>
            rw [hmap, hrest] at h
            exact ⟨map, rest, rfl, rfl, (Except.ok.inj h).symm⟩
  · rintro ⟨map, rest, hmap, hrest, rfl⟩
    rw [hmap, hrest]
    rfl

theorem length_mapM {parts : List Text} {maps : List UrlMap}
    (h : parts.mapM UrlMap.parse = .ok maps) : maps.length = parts.length := by
  induction parts generalizing maps with
  | nil => cases h; rfl
  | cons part parts ih =>
      obtain ⟨map, rest, -, hrest, rfl⟩ := mapM_cons_ok.mp h
      rw [List.length_cons, List.length_cons, ih hrest]

/-- Trimming the entries and leaving out empty ones does nothing to a list that
    parses. -/
theorem mapM_trim {parts : List Text} {maps : List UrlMap}
    (h : parts.mapM UrlMap.parse = .ok maps) :
    ((parts.map trim).filter fun s => s ≠ []).mapM UrlMap.parse = .ok maps := by
  induction parts generalizing maps with
  | nil => exact h
  | cons part parts ih =>
      obtain ⟨map, rest, hmap, hrest, rfl⟩ := mapM_cons_ok.mp h
      have hne : trim part ≠ [] :=
        List.ne_nil_of_mem (mem_trim (equals_mem_of_parse hmap) (by decide))
      rw [List.map_cons, List.filter_cons, if_pos (decide_eq_true hne)]
      exact mapM_cons_ok.mpr ⟨map, rest, parse_trim hmap, ih hrest, rfl⟩

theorem trim_ne_nil {maps : List UrlMap} (h : (split ',' s).mapM UrlMap.parse = .ok maps) :
    trim s ≠ [] := by
  obtain ⟨part, parts, hsplit⟩ := List.exists_cons_of_ne_nil (List.splitOn_ne_nil ',' s)
  rw [split, hsplit] at h
  obtain ⟨map, rest, hmap, -⟩ := mapM_cons_ok.mp h
  have hpart : part ∈ split ',' s := by
    rw [split, hsplit]
    exact List.mem_cons_self
  have hmem : '=' ∈ s := mem_of_mem_split hpart (equals_mem_of_parse hmap)
  exact List.ne_nil_of_mem (mem_trim hmem (by decide))

/-- clap splits the variable at each comma. -/
theorem ofText_of_delimited (hclap : Sound clap) (h : clap.delimited (ofText s) = some urlMap) :
    urlMap = split ',' s := by
  obtain ⟨t, ht, rfl⟩ := Option.map_eq_some_iff.mp h
  have hstr := hclap.string _ _ ht
  rw [toStr_ofText] at hstr
  rw [Option.some.inj hstr]

/-- The server has no maps when neither the environment nor the file has. -/
theorem urlMap_eq_nil (hclap : Sound clap) (hvar : var host.env "PROXY_URL_MAP".toList = none)
    (hyaml : joined ((discovered host).bind YamlConfig.urlMap) = none)
    (h : Loaded host clap config env urlMap) : urlMap = [] := by
  have hmap := h.urlMap_eq
  rw [argValue, urlMap_get h.env_eq, hyaml, overlay] at hmap
  cases henv : host.env "PROXY_URL_MAP".toList with
  | none =>
      rw [henv] at hmap
      exact (Option.some.inj hmap).symm
  | some v =>
      -- a value that is no text is refused
      rw [henv] at hmap
      obtain ⟨s, hs, -⟩ := Option.map_eq_some_iff.mp hmap
      rw [var, henv, Option.bind_some, hclap.string v s hs] at hvar
      exact nomatch hvar

/-- The maps of the file, joined for the server and split by clap. -/
theorem loadUrlMaps_of_yaml (hclap : Sound clap)
    (hvar : var host.env "PROXY_URL_MAP".toList = none) {maps : List Text} (hne : maps ≠ [])
    (hyaml : (discovered host).bind YamlConfig.urlMap = some maps)
    (h : Loaded host clap config env urlMap) :
    maps.mapM UrlMap.parse = .ok config.urlMaps ↔ ∀ map ∈ maps, ',' ∉ map := by
  have hmap := h.urlMap_eq
  have hjoined : joined (some maps) = some (join [','] maps) := if_neg hne
  rw [argValue, urlMap_get h.env_eq, hyaml, hjoined, overlay_some hvar] at hmap
  have hurlMap : urlMap = split ',' (join [','] maps) := ofText_of_delimited hclap hmap
  have hparse := h.urlMaps
  rw [hurlMap] at hparse
  constructor
  · intro hsame
    rw [← length_split_join hne, ← length_mapM hparse, length_mapM hsame]
  · intro hcommas
    rwa [split_join hne hcommas] at hparse

/-- **The maps agree** where no entry comes apart. -/
theorem loadUrlMaps_iff (hclap : Sound clap) (h : Loaded host clap config env urlMap) :
    loadUrlMaps host = .ok config.urlMaps ↔ UrlMapsAgree (discovered host) host.env := by
  rw [loadUrlMaps, UrlMapsAgree]
  cases hvar : var host.env "PROXY_URL_MAP".toList with
  | some s =>
      have hmap := h.urlMap_eq
      have hparse := h.urlMaps
      rw [argValue, urlMap_get h.env_eq, overlay_of_var hvar, eq_of_var hvar] at hmap
      rw [ofText_of_delimited hclap hmap] at hparse
      rw [Option.filter_some, if_pos (decide_eq_true (trim_ne_nil hparse))]
      exact iff_of_true (mapM_trim hparse) nofun
  -- the helper reads the entries as the file has them; the server joins
  -- them and splits them again
  | none =>
      rw [Option.filter_none]
      dsimp only
      have hparse := h.urlMaps
      cases hyaml : (discovered host).bind YamlConfig.urlMap with
      | none =>
          rw [urlMap_eq_nil hclap hvar (by rw [hyaml]; rfl) h] at hparse
          exact iff_of_true hparse fun _ _ => nofun
      | some maps =>
          by_cases hne : maps = []
          · subst hne
            rw [urlMap_eq_nil hclap hvar (by rw [hyaml]; rfl) h] at hparse
            refine iff_of_true hparse fun _ maps hmaps => ?_
            rw [← Option.some.inj hmaps]
            exact nofun
          · rw [loadUrlMaps_of_yaml hclap hvar hne hyaml h]
            constructor
            · rintro hcommas - _ ⟨⟩
              exact hcommas
            · exact fun hcommas => hcommas rfl maps rfl

/-! ## Agreement -/

/-- **The helpers agree** with a configuration that the server has loaded
    exactly when the file and the environment leave them no choice. -/
theorem helpers_agree_iff (hclap : Sound clap) (h : load host clap = .ok config) :
    (SamePath (cacheDirOnly host) config.cacheDir ∧ maxCacheAgeOnly host = config.maxCacheAge ∧
        loadUrlMaps host = .ok config.urlMaps) ↔
      CacheDirAgrees (discovered host) host.env ∧ UrlMapsAgree (discovered host) host.env := by
  obtain ⟨env, urlMap, hloaded⟩ := loaded_of_load h
  rw [cacheDirOnly_iff hclap hloaded, loadUrlMaps_iff hclap hloaded,
    eq_true (maxCacheAgeOnly_eq hclap hloaded), true_and]

/-- How clap reads the smaller unsigned types: as an `i64`, whose range it
    then checks.  So `-0` is a value, too. -/
def readRanged (maxValue : Nat) (s : Text) : Option Nat :=
  (parseI64 s).bind fun n => if 0 ≤ n ∧ n ≤ maxValue then some n.toNat else none

/-- clap's reading of a `u16`: through `i64`, then the range. -/
def readU16 (s : Text) : Option UInt16 := (readRanged (2 ^ 16 - 1) s).map UInt16.ofNat

/-- clap's reading of a `u32`. -/
def readU32 (s : Text) : Option UInt32 := (readRanged (2 ^ 32 - 1) s).map UInt32.ofNat

section Examples

/-- Value parsers as clap has them. -/
def clapParsers : Clap where
  u16 v := (toStr v).bind readU16
  u32 v := (toStr v).bind readU32
  u64 v := (toStr v).bind fun s => (parseU64 s).toOption
  string := toStr
  pathBuf v := if v = [] then none else some v

/-- The parsers of clap keep to what its documentation promises. -/
theorem sound_clapParsers : Sound clapParsers where
  u64 v n h := by
    obtain ⟨s, hs, hn⟩ := Option.bind_eq_some_iff.mp h
    refine ⟨s, hs, ?_⟩
    cases hparse : parseU64 s with
    | error e => rw [hparse] at hn; exact nomatch hn
    | ok m =>
        rw [hparse] at hn
        rw [Option.some.inj hn]
  string _ _ h := h
  pathBuf v p h := by
    rw [clapParsers] at h
    dsimp only at h
    split at h
    · exact nomatch h
    · exact (Option.some.inj h).symm

/-- A file with a directory and maps, and nothing else. -/
def fileWith (cacheDir : Text) (maps : List Text) : YamlConfig :=
  { port := none, bind := none, connections := none, cacheDir := some cacheDir,
    maxCacheSize := none, maxCacheAge := none, urlMap := some maps, upstreamProxy := none,
    noProxy := none, maxConnectionsPerIp := none, maxTotalConnections := none, maxWorkers := none,
    upstreamBandwidth := none, perIpBandwidth := none, coalesceFollowerTimeoutSecs := none,
    coalesceMaxRetries := none, coalesceEtagMaxRetries := none }

/-- A host whose only file is `/etc/apt-blitz/config.yaml`. -/
def hostWith (env : Env) (yaml : YamlConfig) : Host where
  env := env
  pathExists path := path == ofText "/etc/apt-blitz/config.yaml".toList
  configDir := none
  readToString _ := some []
  fromStr _ := some yaml

/-- The shell and the file name the same directory, in two spellings. -/
def oneDirectory : Host :=
  hostWith
    (Function.update (fun _ => none) "PROXY_CACHE_DIR".toList (some (ofText "/srv/debs/".toList)))
    (fileWith "/srv/debs".toList ["deb=https://deb.debian.org".toList])

theorem ok_of_any {ε α : Type} {x : Except ε α} {p : α → Bool} (h : x.toOption.any p = true) :
    ∃ a, x = .ok a ∧ p a = true := by
  cases x with
  | error e => cases h
  | ok a => exact ⟨a, rfl, h⟩

theorem helpers_agree_iff_oneDirectory :
    ∃ config, load oneDirectory clapParsers = .ok config ∧
      ((SamePath (cacheDirOnly oneDirectory) config.cacheDir ∧
          maxCacheAgeOnly oneDirectory = config.maxCacheAge ∧
          loadUrlMaps oneDirectory = .ok config.urlMaps) ↔
        CacheDirAgrees (discovered oneDirectory) oneDirectory.env ∧
          UrlMapsAgree (discovered oneDirectory) oneDirectory.env) := by
  have hany : (load oneDirectory clapParsers).toOption.any (fun _ => true) = true := by
    decide +kernel
  obtain ⟨config, hload, -⟩ := ok_of_any hany
  exact ⟨config, hload, helpers_agree_iff sound_clapParsers hload⟩

/-- The shell names another directory than the file, and an entry of the file
    has two maps. -/
def twoDirectories : Host :=
  hostWith
    (Function.update (fun _ => none) "PROXY_CACHE_DIR".toList (some (ofText "/srv/debs".toList)))
    (fileWith "/data/debs".toList ["a=http://a.org,b=http://b.org".toList])

theorem helpers_disagree :
    ∃ config, load twoDirectories clapParsers = .ok config ∧
      config.cacheDir = ofText "/srv/debs".toList ∧
      cacheDirOnly twoDirectories = ofText "/data/debs".toList ∧
      ¬ SamePath (cacheDirOnly twoDirectories) config.cacheDir ∧
      config.urlMaps = [⟨"a".toList, "http://a.org".toList⟩, ⟨"b".toList, "http://b.org".toList⟩] ∧
      loadUrlMaps twoDirectories = .ok [⟨"a".toList, "http://a.org,b=http://b.org".toList⟩] ∧
      loadUrlMaps twoDirectories ≠ .ok config.urlMaps := by
  have hany : (load twoDirectories clapParsers).toOption.any (fun config => decide (
      config.cacheDir = ofText "/srv/debs".toList ∧
      cacheDirOnly twoDirectories = ofText "/data/debs".toList ∧
      ¬ SamePath (cacheDirOnly twoDirectories) config.cacheDir ∧
      config.urlMaps = [⟨"a".toList, "http://a.org".toList⟩, ⟨"b".toList, "http://b.org".toList⟩] ∧
      loadUrlMaps twoDirectories = .ok [⟨"a".toList, "http://a.org,b=http://b.org".toList⟩] ∧
      loadUrlMaps twoDirectories ≠ .ok config.urlMaps)) = true := by
    decide +kernel
  obtain ⟨config, hload, hconfig⟩ := ok_of_any hany
  exact ⟨config, hload, of_decide_eq_true hconfig⟩

end Examples

end BlitzConfigAgreement
