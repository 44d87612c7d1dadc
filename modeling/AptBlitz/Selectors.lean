import AptBlitz.CacheDisk
import AptBlitz.Library.TextRules
import AptBlitz.UrlMap

/-! # Selectors of `blitzctl cache`

    `cache rm` takes one target, `host` or `host/path`; `cache ls` takes the
    host and the path apart, and joins them.  Both parse the target in the
    same way, show each entry in the perspective of the host that was typed,
    and then compare: `rm` by a prefix of the path, `ls` by whole names.

    The URL parser is a parameter, and so is what `ls` makes of globs. -/

namespace BlitzSelectors

open RustText BlitzCache BlitzUrlMap

/-- `url::Url::parse`: the host, where there is one, and the path. -/
abbrev UrlParser := Text → Option (Option Text × Text)

/-- `host_and_path`. -/
def hostAndPath (parseUrl : UrlParser) (url : Text) : Text × Text :=
  match parseUrl url with
  | some (host, path) => (host.getD "(unknown)".toList, path)
  | none => ("(unknown)".toList, url)

/-- What comes after the first occurrence of a separator. -/
def afterFirst (sep : Text) : Text → Option Text
  | [] => if sep.isEmpty then some [] else none
  | c :: s => if sep.isPrefixOf (c :: s) then some ((c :: s).drop sep.length) else afterFirst sep s

/-- `://` -/
def schemeEnd : Text := [':', '/', '/']

/-- `normalize_target`. -/
def normalizeTarget (s : Text) : Text := (afterFirst schemeEnd s).getD s

/-- `Perspective`. -/
inductive Perspective where
  | alias
  | real
  deriving DecidableEq

/-- `perspective_for`. -/
def perspectiveFor (host : Text) (maps : List UrlMap) : Perspective :=
  if maps.any fun map => map.fakeHost == host then .alias else .real

/-- `reverse_resolve`. -/
def reverseResolve (parseUrl : UrlParser) (url : Text) : List UrlMap → Text × Text
  | [] => hostAndPath parseUrl url
  | map :: maps =>
      match stripPrefix (trimEndMatches '/' map.realBase) url with
      | some [] => (map.fakeHost, [])
      | some ('/' :: rest) => (map.fakeHost, '/' :: rest)
      | _ => reverseResolve parseUrl url maps

/-- `Resolved`. -/
structure Resolved where
  realHost : Text
  realPath : Text
  dispHost : Text
  dispPath : Text

namespace Resolved

/-- `Resolved::new`. -/
def new (parseUrl : UrlParser) (url : Text) (maps : List UrlMap) : Resolved where
  realHost := (hostAndPath parseUrl url).1
  realPath := (hostAndPath parseUrl url).2
  dispHost := (reverseResolve parseUrl url maps).1
  dispPath := (reverseResolve parseUrl url maps).2

/-- `Resolved::host_matches`. -/
def hostMatches (r : Resolved) (host : Text) : Bool := r.dispHost == host || r.realHost == host

/-- `Resolved::host`. -/
def host (r : Resolved) : Perspective → Text
  | .alias => r.dispHost
  | .real => r.realHost

/-- `Resolved::path`. -/
def path (r : Resolved) : Perspective → Text
  | .alias => r.dispPath
  | .real => r.realPath

end Resolved

/-- What `parse_target` returns. -/
structure Target where
  host : Text
  pathPrefix : Option Text
  deriving DecidableEq

/-- `parse_target`. -/
def parseTarget (s : Text) : Target :=
  match s.dropWhile (· != '/') with
  | [] => ⟨s, none⟩
  | rest => ⟨s.takeWhile (· != '/'), some rest⟩

/-- `validate_host`. -/
def validateHost (host : Text) : Except Text Unit :=
  if host.contains '/' then
    .error ("host '".toList ++ host ++
      "' must be a plain hostname; use `blitzctl cache <cmd> HOST [PATH]`".toList)
  else .ok ()

/-- `join_host_path`. -/
def joinHostPath (host path : Text) : Text :=
  let p := trimEndMatches '/' (path.dropWhile (· == '/'))
  if p = [] then host else host ++ '/' :: p

/-- What the commands know of the cache and of its configuration. -/
structure Cli where
  parseUrl : UrlParser
  maps : List UrlMap
  /-- whether `ls` has an entry in scope of a normalized target with globs -/
  globInScope : Text → Text → Bool

namespace Cli

variable (cli : Cli)

/-- An entry, resolved with the maps. -/
def resolved (url : Text) : Resolved := .new cli.parseUrl url cli.maps

/-! ## `cache rm` -/

/-- `matches` of `cmd_rm`, for a parsed target. -/
def rmMatches (t : Target) (url : Text) : Bool :=
  let p := perspectiveFor t.host cli.maps
  let r := cli.resolved url
  r.hostMatches t.host &&
    match t.pathPrefix with
    | none => true
    | some pre => pre.isPrefixOf (r.path p)

/-- The URLs that `cmd_rm` deletes. -/
def rmUrls (target : Text) (urls : List Text) : List Text :=
  urls.filter (cli.rmMatches (parseTarget (normalizeTarget target)))

/-- `cmd_rm`, once all questions are answered. -/
def cmdRm {φ : Type} (H : UrlHash) (d : Disk φ) : Option Text → Disk φ
  | none => d.clearAll
  | some target => d.deleteByUrls H (cli.rmUrls target (d.rows.entries.map fun e => e.2.url))

/-! ## `cache ls` -/

/-- `in_scope` of `cmd_ls` with its host check, for a parsed target without
    globs. -/
def lsMatches (t : Target) (url : Text) : Bool :=
  let p := perspectiveFor t.host cli.maps
  let r := cli.resolved url
  let root := r.host p ++ r.path p
  r.hostMatches t.host &&
    match t.pathPrefix with
    | none => true
    | some pre => root == t.host ++ pre || (t.host ++ pre ++ ['/']).isPrefixOf root

/-- Whether `cmd_ls` has an entry in scope of a target. -/
def lsInScope (target url : Text) : Bool :=
  let normalized := normalizeTarget target
  if target = [] then true
  else if normalized.contains '*' || normalized.contains '?' then cli.globInScope normalized url
  else cli.lsMatches (parseTarget normalized) url

/-- The URLs that `cmd_ls` lists. -/
def cmdLs (hostArg : Option Text) (path : Text) (urls : List Text) : Except Text (List Text) :=
  match hostArg with
  | none => .ok (urls.filter (cli.lsInScope []))
  | some host =>
      match validateHost host with
      | .error e => .error e
      | .ok _ => .ok (urls.filter (cli.lsInScope (joinHostPath host path)))

end Cli

/-! ## Text of targets -/

section

variable {sep s pre path host rest : Text} {c : Char}

theorem afterFirst_cons (h : ¬ sep <+: c :: s) : afterFirst sep (c :: s) = afterFirst sep s := by
  rw [afterFirst, if_neg]
  rwa [List.isPrefixOf_iff_prefix]

/-- There is no `://` before the path of a target. -/
theorem afterFirst_append (hhost : '/' ∉ host) (hpath : path.head? ≠ some '/') :
    afterFirst schemeEnd (host ++ '/' :: path) = afterFirst schemeEnd path := by
  induction host with
  | nil =>
      refine afterFirst_cons fun h => ?_
      cases (List.cons_prefix_cons.mp h).1
  | cons c host ih =>
      have hhost : '/' ∉ host := fun hmem => hhost (List.mem_cons_of_mem _ hmem)
      rw [← ih hhost]
      refine afterFirst_cons fun h => ?_
      have hslashes := (List.cons_prefix_cons.mp h).2
      cases host with
      | nil =>
          obtain ⟨rest, hrest⟩ := (List.cons_prefix_cons.mp hslashes).2
          have hslash : path = '/' :: rest := hrest.symm
          exact hpath (congrArg List.head? hslash)
      | cons d host =>
          have hd := (List.cons_prefix_cons.mp hslashes).1
          exact hhost (hd ▸ List.mem_cons_self)

/-- Without a slash there is no `://`. -/
theorem afterFirst_none (h : '/' ∉ s) : afterFirst schemeEnd s = none := by
  induction s with
  | nil => rfl
  | cons c s ih =>
      have hs : '/' ∉ s := fun hmem => h (List.mem_cons_of_mem _ hmem)
      rw [← ih hs]
      refine afterFirst_cons fun hbegins => ?_
      have hslash := (List.cons_prefix_cons.mp hbegins).2
      exact hs (hslash.subset List.mem_cons_self)

/-- What comes behind the separator. -/
theorem afterFirst_suffix (h : afterFirst sep s = some rest) : rest <:+ s := by
  induction s with
  | nil =>
      rw [afterFirst] at h
      split at h
      · cases h
        exact List.suffix_rfl
      · cases h
  | cons c s ih =>
      rw [afterFirst] at h
      split at h
      · cases h
        exact List.drop_suffix ..
      · exact (ih h).trans (List.suffix_cons ..)

/-- A host and a path. -/
theorem parseTarget_append (hhost : '/' ∉ host) :
    parseTarget (host ++ '/' :: path) = ⟨host, some ('/' :: path)⟩ := by
  have hall : ∀ c ∈ host, (c != '/') = true := by
    intro c hc
    rw [bne_iff_ne]
    rintro rfl
    exact hhost hc
  rw [parseTarget, List.dropWhile_append_of_pos hall, List.takeWhile_append_of_pos hall]
  simp

/-- A host alone. -/
theorem parseTarget_host (hhost : '/' ∉ host) : parseTarget host = ⟨host, none⟩ := by
  have hnil : host.dropWhile (· != '/') = [] := by
    rw [List.dropWhile_eq_nil_iff]
    intro c hc
    rw [bne_iff_ne]
    rintro rfl
    exact hhost hc
  rw [parseTarget, hnil]

/-- The host ends at the first slash. -/
theorem parseTarget_plain (s : Text) : '/' ∉ (parseTarget s).host := by
  rw [parseTarget]
  split
  next hnil =>
    intro hmem
    exact absurd (List.dropWhile_eq_nil_iff.mp hnil '/' hmem) (by decide)
  next =>
    intro hmem
    exact absurd (List.mem_takeWhile_imp hmem) (by decide)

/-- The path of a target begins with a slash. -/
theorem parseTarget_path (h : (parseTarget s).pathPrefix = some pre) : ∃ t, pre = '/' :: t := by
  rw [parseTarget] at h
  split at h
  next => cases h
  next hcons =>
    cases h
    have hhead := List.head?_dropWhile_not (· != '/') s
    cases hdrop : s.dropWhile (· != '/') with
    | nil => exact absurd hdrop hcons
    | cons c t =>
        rw [hdrop] at hhead
        have hc : c = '/' := of_not_not fun hne => by simp [hne] at hhead
        exact ⟨t, congrArg (· :: t) hc⟩

/-- A host and a path without slashes around it. -/
theorem joinHostPath_eq (hhead : path.head? ≠ some '/') (hlast : path.getLast? ≠ some '/') :
    joinHostPath host path = if path = [] then host else host ++ '/' :: path := by
  have htrim : ∀ t : Text, t.head? ≠ some '/' → t.dropWhile (· == '/') = t := by
    intro t ht
    cases t with
    | nil => rfl
    | cons c t =>
        refine List.dropWhile_cons_of_neg ?_
        rw [beq_iff_eq]
        rintro rfl
        exact ht rfl
  have hboth : trimEndMatches '/' (path.dropWhile (· == '/')) = path := by
    rw [htrim path hhead, trimEndMatches, htrim, List.reverse_reverse]
    rwa [List.head?_reverse]
  rw [joinHostPath, hboth]

/-! ## Paths by whole names -/

/-- The path itself, or one below it. -/
def AtOrUnder (pre path : Text) : Prop := path = pre ∨ (pre ++ ['/']) <+: path

/-- What is under a path begins with it. -/
theorem AtOrUnder.isPrefix (h : AtOrUnder pre path) : pre <+: path := by
  rcases h with rfl | h
  · exact List.prefix_rfl
  · exact (List.prefix_append ..).trans h

/-- A prefix says the same when no sibling's name goes on after it. -/
theorem prefix_only_iff :
    (pre <+: path → AtOrUnder pre path) ↔ ∀ c rest, path = pre ++ c :: rest → c = '/' := by
  constructor
  · rintro h c rest rfl
    rcases h (List.prefix_append ..) with heq | ⟨tail, htail⟩
    · exact absurd heq (by simp)
    · rw [List.append_assoc] at htail
      exact (List.cons.inj (List.append_cancel_left htail)).1.symm
  · rintro h ⟨rest, rfl⟩
    cases rest with
    | nil => exact Or.inl (List.append_nil _)
    | cons c rest =>
        obtain rfl := h c rest rfl
        right
        exact ⟨rest, by simp⟩

/-- Below what is longer, a path says nothing more than its beginning. -/
theorem atOrUnder_longer (hpath : AtOrUnder pre path) (hs : s ≠ []) :
    AtOrUnder pre (s ++ path) ↔ pre ++ ['/'] <+: s ++ pre := by
  have hlen : 0 < s.length := List.length_pos_iff.mpr hs
  have hpre : s ++ pre <+: s ++ path := (List.prefix_append_right_inj s).mpr hpath.isPrefix
  constructor
  · rintro (heq | hunder)
    · have hlonger := hpath.isPrefix.length_le
      rw [← heq, List.length_append] at hlonger
      omega
    · refine List.prefix_of_prefix_length_le hunder hpre ?_
      rw [List.length_append, List.length_append, List.length_singleton]
      omega
  · intro hunder
    exact Or.inr (hunder.trans hpre)

theorem atOrUnder_append : AtOrUnder (s ++ pre) (s ++ path) ↔ AtOrUnder pre path := by
  rw [AtOrUnder, AtOrUnder, List.append_assoc, List.prefix_append_right_inj,
    List.append_cancel_left_eq]

end

/-! ## One selector for both commands -/

/-- A plain host and a path, neither with globs, the path without slashes
    around it. -/
structure Selector where
  host : Text
  path : Text
  plain : '/' ∉ host
  hostNoGlob : '*' ∉ host ∧ '?' ∉ host
  pathNoGlob : '*' ∉ path ∧ '?' ∉ path
  noLeading : path.head? ≠ some '/'
  noTrailing : path.getLast? ≠ some '/'

/-- `host/path` -/
def Selector.text (s : Selector) : Text := s.host ++ '/' :: s.path

/-- The target that `cache rm host/path` parses. -/
def Selector.target (s : Selector) : Target := parseTarget (normalizeTarget s.text)

variable {cli : Cli} {s : Selector} {t : Target} {urls : List Text} {url pre : Text}

/-- What `rm` makes of a selector without a `://`. -/
theorem Selector.target_eq (h : afterFirst schemeEnd s.path = none) :
    s.target = ⟨s.host, some ('/' :: s.path)⟩ := by
  rw [target, normalizeTarget, text, afterFirst_append s.plain s.noLeading, h]
  exact parseTarget_append s.plain

/-- What `rm` makes of a selector with a `://`. -/
theorem Selector.target_eq_rest {rest : Text} (h : afterFirst schemeEnd s.path = some rest) :
    s.target = parseTarget rest := by
  rw [target, normalizeTarget, text, afterFirst_append s.plain s.noLeading, h]
  rfl

namespace Cli

/-- An entry at `/path`, or below it, in the perspective of the host. -/
def Named (cli : Cli) (s : Selector) (url : Text) : Prop :=
  (cli.resolved url).hostMatches s.host = true ∧
    AtOrUnder ('/' :: s.path) ((cli.resolved url).path (perspectiveFor s.host cli.maps))

/-- What `rm` compares: a beginning of the text. -/
theorem rmMatches_iff :
    cli.rmMatches ⟨t.host, some pre⟩ url = true ↔ (cli.resolved url).hostMatches t.host = true ∧
      pre <+: (cli.resolved url).path (perspectiveFor t.host cli.maps) := by
  simp only [rmMatches, Bool.and_eq_true, List.isPrefixOf_iff_prefix]

/-- What `ls` compares: whole components. -/
theorem lsMatches_iff :
    cli.lsMatches ⟨t.host, some pre⟩ url = true ↔ (cli.resolved url).hostMatches t.host = true ∧
      AtOrUnder (t.host ++ pre) ((cli.resolved url).host (perspectiveFor t.host cli.maps) ++
        (cli.resolved url).path (perspectiveFor t.host cli.maps)) := by
  simp only [lsMatches, Bool.and_eq_true, Bool.or_eq_true, beq_iff_eq,
    List.isPrefixOf_iff_prefix, AtOrUnder]

theorem mem_rmUrls (hurl : url ∈ urls) :
    url ∈ cli.rmUrls s.text urls ↔ cli.rmMatches s.target url = true := by
  rw [rmUrls, List.mem_filter, and_iff_right hurl, Selector.target]

/-- Nothing of the selector is a glob. -/
theorem normalizeTarget_no_glob {c : Char} (hc : c = '*' ∨ c = '?') :
    (normalizeTarget s.text).contains c = false := by
  have htext : c ∉ s.text := by
    obtain ⟨hstar, hquestion⟩ := s.hostNoGlob
    obtain ⟨hstar', hquestion'⟩ := s.pathNoGlob
    rw [Selector.text]
    rcases hc with rfl | rfl
    · simp [hstar, hstar']
    · simp [hquestion, hquestion']
  rw [List.contains_eq_mem, decide_eq_false_iff_not, normalizeTarget]
  cases hrest : afterFirst schemeEnd s.text with
  | none => exact htext
  | some rest => exact fun hmem => htext ((afterFirst_suffix hrest).subset hmem)

/-- What `cache ls host path` has in scope. -/
theorem lsInScope_of_path (hpath : s.path ≠ []) :
    cli.lsInScope (joinHostPath s.host s.path) url = cli.lsMatches s.target url := by
  have hjoin : joinHostPath s.host s.path = s.text := by
    rw [joinHostPath_eq s.noLeading s.noTrailing, if_neg hpath]
    rfl
  have hne : s.text ≠ [] := List.append_ne_nil_of_right_ne_nil _ (List.cons_ne_nil _ _)
  rw [hjoin, lsInScope, if_neg hne, normalizeTarget_no_glob (Or.inl rfl),
    normalizeTarget_no_glob (Or.inr rfl)]
  rfl

/-- Without a path it is all of the host, and without a host all there is. -/
theorem lsInScope_of_host (hpath : s.path = []) :
    cli.lsInScope (joinHostPath s.host s.path) url = true ↔
      s.host = [] ∨ (cli.resolved url).hostMatches s.host = true := by
  rw [joinHostPath_eq s.noLeading s.noTrailing, if_pos hpath, lsInScope]
  by_cases hhost : s.host = []
  · rw [if_pos hhost]
    exact iff_of_true rfl (Or.inl hhost)
  · have hnormal : normalizeTarget s.host = s.host := by
      rw [normalizeTarget, afterFirst_none s.plain]
      rfl
    have hglob : (s.host.contains '*' || s.host.contains '?') = false := by
      simp [s.hostNoGlob.1, s.hostNoGlob.2]
    rw [if_neg hhost, hnormal, hglob, parseTarget_host s.plain]
    simp [lsMatches, hhost]

/-- The two commands agree on the selector: what `rm` deletes and what `ls`
    lists are the entries at `/path` and below it. -/
def Agrees (cli : Cli) (s : Selector) (urls : List Text) : Prop :=
  ∃ listed, cli.cmdLs (some s.host) s.path urls = .ok listed ∧ ∀ url ∈ urls,
    (url ∈ cli.rmUrls s.text urls ↔ cli.Named s url) ∧ (url ∈ listed ↔ cli.Named s url)

/-- The claim on both commands, entry by entry. -/
theorem agrees_iff : cli.Agrees s urls ↔ ∀ url ∈ urls,
    (cli.rmMatches s.target url = true ↔ cli.Named s url) ∧
      (cli.lsInScope (joinHostPath s.host s.path) url = true ↔ cli.Named s url) := by
  have hvalid : validateHost s.host = .ok () := by
    rw [validateHost, List.contains_eq_mem, decide_eq_false s.plain]
    rfl
  have hlist : cli.cmdLs (some s.host) s.path urls
      = .ok (urls.filter (cli.lsInScope (joinHostPath s.host s.path))) := by
    rw [cmdLs, hvalid]
  constructor
  · rintro ⟨listed, hlisted, hall⟩ url hurl
    rw [hlist] at hlisted
    cases hlisted
    have hboth := hall url hurl
    rwa [mem_rmUrls hurl, List.mem_filter, and_iff_right hurl] at hboth
  · intro hall
    refine ⟨_, hlist, fun url hurl => ?_⟩
    rw [mem_rmUrls hurl, List.mem_filter, and_iff_right hurl]
    exact hall url hurl

/-! ## Where an entry is shown -/

/-- An entry is shown under the fake host of a map, with nothing or a slash
    behind it, or under its own host. -/
theorem reverseResolve_cases (parseUrl : UrlParser) (url : Text) (maps : List UrlMap) :
    reverseResolve parseUrl url maps = hostAndPath parseUrl url ∨
      ∃ map ∈ maps, (reverseResolve parseUrl url maps).1 = map.fakeHost ∧
        ((reverseResolve parseUrl url maps).2 = [] ∨
          ∃ t, (reverseResolve parseUrl url maps).2 = '/' :: t) := by
  induction maps with
  | nil => exact Or.inl rfl
  | cons map maps ih =>
      rw [reverseResolve]
      split
      · exact Or.inr ⟨map, List.mem_cons_self, rfl, Or.inl rfl⟩
      · exact Or.inr ⟨map, List.mem_cons_self, rfl, Or.inr ⟨_, rfl⟩⟩
      · rcases ih with hown | ⟨m, hm, hfake⟩
        · exact Or.inl hown
        · exact Or.inr ⟨m, List.mem_cons_of_mem _ hm, hfake⟩

/-- An entry that matches a host, and is shown under another one, has nothing
    or a slash behind that. -/
theorem path_of_host_ne {host : Text} (hmatch : (cli.resolved url).hostMatches host = true)
    (hne : (cli.resolved url).host (perspectiveFor host cli.maps) ≠ host) :
    (cli.resolved url).path (perspectiveFor host cli.maps) = [] ∨
      ∃ t, (cli.resolved url).path (perspectiveFor host cli.maps) = '/' :: t := by
  have hmatch : (cli.resolved url).dispHost = host ∨ (cli.resolved url).realHost = host := by
    simpa [Resolved.hostMatches] using hmatch
  rcases reverseResolve_cases cli.parseUrl url cli.maps with hown | ⟨map, hmap, hfake, hpath⟩
  · -- it has no alias
    have hsame : (cli.resolved url).dispHost = (cli.resolved url).realHost := congrArg Prod.fst hown
    refine absurd ?_ hne
    rw [perspectiveFor]
    split
    · exact hmatch.elim id hsame.trans
    · exact hmatch.elim hsame.symm.trans id
  · by_cases hany : (cli.maps.any fun map => map.fakeHost == host) = true
    · rw [perspectiveFor, if_pos hany]
      exact hpath
    · -- the host that was typed is no alias
      have hreal : (cli.resolved url).realHost = host := by
        refine hmatch.resolve_left fun hdisp => hany (List.any_eq_true.mpr ⟨map, hmap, ?_⟩)
        exact beq_iff_eq.mpr (hfake.symm.trans hdisp)
      rw [perspectiveFor, if_neg hany] at hne
      exact absurd hreal hne

/-- What is shown is at a path of the host if the host is the one shown, or if
    the one shown goes on after the host with a slash. -/
theorem atOrUnder_shown {host shown path : Text} (hplain : '/' ∉ host)
    (hpath : shown ≠ host → path = [] ∨ ∃ t, path = '/' :: t) :
    AtOrUnder (host ++ '/' :: pre) (shown ++ path) ↔
      (shown = host ∧ AtOrUnder ('/' :: pre) path) ∨
        ∃ tail, shown = host ++ '/' :: tail ∧ AtOrUnder ('/' :: pre) ('/' :: tail ++ path) := by
  constructor
  · intro hat
    by_cases hshown : shown = host
    · rw [hshown, atOrUnder_append] at hat
      exact Or.inl ⟨hshown, hat⟩
    right
    have hslash : host ++ ['/'] <+: shown ++ path := by
      refine List.IsPrefix.trans ?_ hat.isPrefix
      exact (List.prefix_append_right_inj host).mpr ⟨pre, rfl⟩
    rcases List.prefix_or_prefix_of_prefix hslash (List.prefix_append shown path) with
      hlong | hshort
    · obtain ⟨tail, rfl⟩ := hlong
      rw [List.append_assoc, List.append_assoc] at hat
      exact ⟨tail, List.append_assoc .., atOrUnder_append.mp hat⟩
    · obtain ⟨u, hu⟩ := hshort
      rcases List.eq_nil_or_concat u with rfl | ⟨v, c, rfl⟩
      · rw [List.append_nil] at hu
        subst hu
        rw [List.append_assoc] at hat
        exact ⟨[], rfl, atOrUnder_append.mp hat⟩
      · -- the host shown would go on in the path
        rw [List.concat_eq_append, ← List.append_assoc] at hu
        obtain ⟨hhost, -⟩ := List.append_inj' hu rfl
        rw [← hhost, List.append_assoc, List.prefix_append_right_inj] at hslash
        have hv : v ≠ [] := by
          rintro rfl
          exact hshown ((List.append_nil _).symm.trans hhost)
        obtain ⟨d, v, rfl⟩ := List.exists_cons_of_ne_nil hv
        rcases hpath hshown with rfl | ⟨t, rfl⟩
        · exact absurd hslash.length_le (by simp)
        · have hd : d = '/' := (List.cons_prefix_cons.mp hslash).1
          refine absurd ?_ hplain
          rw [← hhost, hd]
          exact List.mem_append_right _ List.mem_cons_self
  · rintro (⟨rfl, hat⟩ | ⟨tail, rfl, hat⟩)
    · exact atOrUnder_append.mpr hat
    · rw [List.append_assoc]
      exact atOrUnder_append.mpr hat

/-! ## When they agree -/

/-- An entry of the target: its path begins with the target's, and the host
    it is shown under is the target's, with the path at or below the target's;
    or else it is an alias that goes on after the target's host with a slash,
    and what goes on there leads to the target. -/
def Within (cli : Cli) (t : Target) (url : Text) : Prop :=
  let r := cli.resolved url
  let p := perspectiveFor t.host cli.maps
  r.hostMatches t.host = true ∧ ∀ pre, t.pathPrefix = some pre →
    pre <+: r.path p ∧ ((r.host p = t.host ∧ AtOrUnder pre (r.path p)) ∨
      ∃ tail, r.host p = t.host ++ '/' :: tail ∧ AtOrUnder pre ('/' :: tail ++ r.path p))

/-- No entry of the target: one of another host, or one whose path does not
    begin with the target's, and is not led there by an alias either. -/
def Outside (cli : Cli) (t : Target) (url : Text) : Prop :=
  let r := cli.resolved url
  let p := perspectiveFor t.host cli.maps
  r.hostMatches t.host = true → ∃ pre, t.pathPrefix = some pre ∧ ¬ pre <+: r.path p ∧
    ∀ tail, r.host p = t.host ++ '/' :: tail → ¬ AtOrUnder pre ('/' :: tail ++ r.path p)

/-- Where no `://` is in the way.  An entry of the host is no sibling: no other
    name that begins with the path's last.  One at `/path` or below it is shown
    under the host that was typed, or under an alias that goes on after it with
    a slash, and on to where `/path` is repeated; and no alias leads another
    entry there. -/
def Separate (cli : Cli) (s : Selector) (url : Text) : Prop :=
  let r := cli.resolved url
  let p := perspectiveFor s.host cli.maps
  let path := '/' :: s.path
  r.hostMatches s.host = true →
    (∀ c rest, r.path p = path ++ c :: rest → c = '/') ∧
    (AtOrUnder path (r.path p) → r.host p = s.host ∨
      ∃ tail, r.host p = s.host ++ '/' :: tail ∧ path ++ ['/'] <+: '/' :: tail ++ path) ∧
    (¬ AtOrUnder path (r.path p) → ∀ tail, r.host p = s.host ++ '/' :: tail →
      ¬ AtOrUnder path ('/' :: tail ++ r.path p))

/-- What `ls` shows below a path. -/
theorem lsMatches_path_iff {host : Text} (hplain : '/' ∉ host) :
    cli.lsMatches ⟨host, some ('/' :: pre)⟩ url = true ↔
      (cli.resolved url).hostMatches host = true ∧
        (((cli.resolved url).host (perspectiveFor host cli.maps) = host ∧
          AtOrUnder ('/' :: pre) ((cli.resolved url).path (perspectiveFor host cli.maps))) ∨
        ∃ tail, (cli.resolved url).host (perspectiveFor host cli.maps) = host ++ '/' :: tail ∧
          AtOrUnder ('/' :: pre)
            ('/' :: tail ++ (cli.resolved url).path (perspectiveFor host cli.maps))) := by
  rw [lsMatches_iff (t := ⟨host, none⟩)]
  exact and_congr_right fun hmatch => atOrUnder_shown hplain (path_of_host_ne hmatch)

/-- Both commands select the entries of the target. -/
theorem within_iff (hplain : '/' ∉ t.host)
    (hpath : ∀ pre, t.pathPrefix = some pre → ∃ p, pre = '/' :: p) :
    cli.rmMatches t url = true ∧ cli.lsMatches t url = true ↔ cli.Within t url := by
  obtain ⟨host, pathPrefix⟩ := t
  cases pathPrefix with
  | none => simp [rmMatches, lsMatches, Within]
  | some pre =>
      obtain ⟨pre, rfl⟩ := hpath pre rfl
      rw [rmMatches_iff (t := ⟨host, none⟩), lsMatches_path_iff hplain]
      constructor
      · rintro ⟨⟨hmatch, hbegins⟩, -, hshown⟩
        refine ⟨hmatch, ?_⟩
        rintro _ ⟨⟩
        exact ⟨hbegins, hshown⟩
      · rintro ⟨hmatch, hall⟩
        obtain ⟨hbegins, hshown⟩ := hall _ rfl
        exact ⟨⟨hmatch, hbegins⟩, hmatch, hshown⟩

/-- Neither command selects any other. -/
theorem outside_iff (hplain : '/' ∉ t.host)
    (hpath : ∀ pre, t.pathPrefix = some pre → ∃ p, pre = '/' :: p) :
    ¬ cli.rmMatches t url = true ∧ ¬ cli.lsMatches t url = true ↔ cli.Outside t url := by
  obtain ⟨host, pathPrefix⟩ := t
  cases pathPrefix with
  | none => simp [rmMatches, lsMatches, Outside]
  | some pre =>
      obtain ⟨pre, rfl⟩ := hpath pre rfl
      rw [rmMatches_iff (t := ⟨host, none⟩), lsMatches_path_iff hplain]
      constructor
      · rintro ⟨hrm, hls⟩ hmatch
        refine ⟨_, rfl, fun hbegins => hrm ⟨hmatch, hbegins⟩, ?_⟩
        intro tail hhost hat
        exact hls ⟨hmatch, Or.inr ⟨tail, hhost, hat⟩⟩
      · intro hout
        constructor
        · rintro ⟨hmatch, hbegins⟩
          obtain ⟨_, ⟨⟩, hno, -⟩ := hout hmatch
          exact hno hbegins
        · rintro ⟨hmatch, hshown⟩
          obtain ⟨_, ⟨⟩, hno, htail⟩ := hout hmatch
          rcases hshown with ⟨-, hat⟩ | ⟨tail, hhost, hat⟩
          · exact hno hat.isPrefix
          · exact htail tail hhost hat

/-- Both commands go by one target. -/
theorem both_iff {P : Prop} (hplain : '/' ∉ t.host)
    (hpath : ∀ pre, t.pathPrefix = some pre → ∃ p, pre = '/' :: p) :
    ((cli.rmMatches t url = true ↔ P) ∧ (cli.lsMatches t url = true ↔ P)) ↔
      (P → cli.Within t url) ∧ (¬ P → cli.Outside t url) := by
  rw [← within_iff hplain hpath, ← outside_iff hplain hpath]
  tauto

/-- The two conditions in one. -/
theorem separate_iff : ((cli.Named s url → cli.Within ⟨s.host, some ('/' :: s.path)⟩ url) ∧
    (¬ cli.Named s url → cli.Outside ⟨s.host, some ('/' :: s.path)⟩ url)) ↔ cli.Separate s url := by
  rw [Named, Within, Outside, Separate]
  generalize cli.resolved url = r
  generalize perspectiveFor s.host cli.maps = p
  dsimp only
  by_cases hmatch : r.hostMatches s.host = true
  · simp only [hmatch, true_and, forall_const, Option.some.injEq, forall_eq', exists_eq_left']
    rw [← prefix_only_iff]
    by_cases hat : AtOrUnder ('/' :: s.path) (r.path p)
    · simp only [hat, hat.isPrefix, forall_const, true_and, and_true, not_true_eq_false,
        false_implies]
      refine or_congr_right (exists_congr fun tail => and_congr_right fun _ => ?_)
      exact atOrUnder_longer hat (List.cons_ne_nil _ _)
    · simp only [hat, false_implies, true_and, not_false_eq_true, forall_const, imp_false]
  · simp [hmatch]

/-- **One selector for both, exactly.**  With a path: no entry of the host is
    a sibling of it, and each is shown under that host.  Where the path has a
    `://`, both commands go by what comes after it: the entries at the path
    have to be those of that target.  Without a path, `ls` lists the whole
    host, and every entry has to be at its root. -/
theorem rm_ls_agree_iff (cli : Cli) (s : Selector) (urls : List Text) :
    cli.Agrees s urls ↔
      if s.path = [] then
        ∀ url ∈ urls, s.host = [] ∨ (cli.resolved url).hostMatches s.host = true → cli.Named s url
      else match afterFirst schemeEnd s.path with
        | none => ∀ url ∈ urls, cli.Separate s url
        | some rest => ∀ url ∈ urls, (cli.Named s url → cli.Within (parseTarget rest) url) ∧
            (¬ cli.Named s url → cli.Outside (parseTarget rest) url) := by
  rw [agrees_iff]
  by_cases hpath : s.path = []
  · rw [if_pos hpath]
    refine forall₂_congr fun url _ => ?_
    have hnone : afterFirst schemeEnd s.path = none := by
      rw [hpath]
      rfl
    rw [lsInScope_of_host hpath, Selector.target_eq hnone, rmMatches_iff (t := ⟨s.host, none⟩)]
    constructor
    · rintro ⟨-, hls⟩
      exact hls.mp
    · intro himp
      refine ⟨⟨?_, ?_⟩, himp, ?_⟩
      · intro hrm
        exact himp (Or.inr hrm.1)
      · intro hnamed
        exact ⟨hnamed.1, hnamed.2.isPrefix⟩
      · intro hnamed
        exact Or.inr hnamed.1
  · rw [if_neg hpath]
    cases hrest : afterFirst schemeEnd s.path with
    | none =>
        refine forall₂_congr fun url _ => ?_
        rw [lsInScope_of_path hpath, Selector.target_eq hrest, ← separate_iff]
        refine both_iff s.plain ?_
        rintro _ ⟨⟩
        exact ⟨_, rfl⟩
    | some rest =>
        refine forall₂_congr fun url _ => ?_
        rw [lsInScope_of_path hpath, Selector.target_eq_rest hrest]
        exact both_iff (parseTarget_plain rest) fun _ => parseTarget_path

/-- **What `rm` deletes**: of the rows of a well-formed cache exactly those
    that its target does not match are left. -/
theorem rows_cmdRm {φ : Type} {H : UrlHash} {d : Disk φ} {h target : Text} {row : Row}
    (hwf : BlitzCacheDisk.WellFormed H d) :
    (cli.cmdRm H d (some target)).rows.lookup h = some row ↔ d.rows.lookup h = some row ∧
      cli.rmMatches (parseTarget (normalizeTarget target)) row.url = false := by
  rw [cmdRm, BlitzCacheDisk.rows_deleteByUrls]
  refine and_congr_right fun hrow => ?_
  obtain ⟨hhash, -⟩ := hwf.rows h row hrow
  constructor
  · intro hall
    rw [← Bool.not_eq_true]
    intro hmatches
    have hmem : row.url ∈ d.rows.entries.map fun e => e.2.url :=
      List.mem_map.mpr ⟨⟨h, row⟩, AList.mem_lookup_iff.mp hrow, rfl⟩
    exact hall row.url (List.mem_filter.mpr ⟨hmem, hmatches⟩) hhash
  · intro hmatches url hurl heq
    obtain rfl : row.url = url := H.injective (hhash.symm.trans heq)
    rw [(List.mem_filter.mp hurl).2] at hmatches
    cases hmatches

end Cli

/-- A parser that knows `http://host/path`. -/
def parseHttp : UrlParser := fun url =>
  (stripPrefix "http://".toList url).map fun rest =>
    (some (rest.takeWhile (· != '/')), rest.dropWhile (· != '/'))

/-- Without URL maps. -/
def plainCli : Cli := ⟨parseHttp, [], fun _ _ => false⟩

/-- Two entries, one with a longer name. -/
def siblings : List Text := ["http://h/a/x".toList, "http://h/ab".toList]

/-- `cache rm h/a` deletes `/ab` too, and `cache ls h a` does not list it. -/
theorem not_rm_ls_agree :
    plainCli.rmUrls "h/a".toList siblings = siblings ∧
      plainCli.cmdLs (some "h".toList) "a".toList siblings = .ok ["http://h/a/x".toList] := by
  constructor
  · decide
  · decide

end BlitzSelectors
