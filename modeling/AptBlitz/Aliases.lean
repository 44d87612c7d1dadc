import AptBlitz.Selectors

/-! # There and back through the URL maps

    The proxy puts the real base in the place of the fake host
    (`resolve_url`), and `blitzctl` puts the fake host back
    (`reverse_resolve`).  Each goes through the maps on its own and takes the
    first that applies.

    A map applies where a URL is at or under a text; of two texts that a URL
    is at or under, one is at or under the other (`AtOrUnder.total`).  So with
    fake hosts and bases that are apart no other map applies, and the way
    back leads to where the way there began: `reverseResolve_resolveUrl`. -/

namespace BlitzAliases

open RustText BlitzUrlMap BlitzSelectors

variable {map : UrlMap} {maps before after : List UrlMap} {parseUrl : UrlParser}
  {url pre pre' path rest start scheme : Text}

/-- Nothing, or what goes on with a slash. -/
def IsRest (rest : Text) : Prop := rest = [] ∨ ∃ tail, rest = '/' :: tail

/-- The maps are as `parse` gives them, their fake hosts are hosts and
    differ, and no base is at or under another. -/
structure Apart (maps : List UrlMap) : Prop where
  parsed : ∀ map ∈ maps, ∃ input, UrlMap.parse input = .ok map
  plain : ∀ map ∈ maps, '/' ∉ map.fakeHost
  hosts : maps.Pairwise fun map other => map.fakeHost ≠ other.fakeHost
  bases : maps.Pairwise fun map other =>
    ¬ AtOrUnder map.realBase other.realBase ∧ ¬ AtOrUnder other.realBase map.realBase

/-! ## At or under -/

/-- A path at or under another is that path and a rest. -/
theorem atOrUnder_iff : AtOrUnder pre path ↔ ∃ rest, path = pre ++ rest ∧ IsRest rest := by
  constructor
  · rintro (rfl | ⟨tail, rfl⟩)
    · exact ⟨[], (List.append_nil path).symm, Or.inl rfl⟩
    · exact ⟨'/' :: tail, List.append_assoc pre ['/'] tail, Or.inr ⟨tail, rfl⟩⟩
  · rintro ⟨rest, rfl, rfl | ⟨tail, rfl⟩⟩
    · exact Or.inl (List.append_nil pre)
    · exact Or.inr ⟨tail, List.append_assoc pre ['/'] tail⟩

/-- A path and a rest are under the path. -/
theorem atOrUnder_rest (h : IsRest rest) : AtOrUnder pre (pre ++ rest) :=
  atOrUnder_iff.mpr ⟨rest, rfl, h⟩

/-- What is under a path is under the paths that it is under. -/
theorem AtOrUnder.of_isPrefix (h : AtOrUnder pre path) (h' : AtOrUnder pre' path)
    (hle : pre <+: pre') : AtOrUnder pre pre' := by
  obtain ⟨rest, hpath, hrest⟩ := atOrUnder_iff.mp h
  obtain ⟨more, rfl⟩ := hle
  obtain ⟨rest', hpath', -⟩ := atOrUnder_iff.mp h'
  refine atOrUnder_rest ?_
  have heq : rest = more ++ rest' := by
    rw [hpath', List.append_assoc] at hpath
    exact (List.append_cancel_left hpath).symm
  cases more with
  | nil => exact Or.inl rfl
  | cons c more =>
      rcases hrest with rfl | ⟨tail, rfl⟩
      · cases heq
      · obtain rfl : '/' = c := (List.cons.inj heq).1
        exact Or.inr ⟨more, rfl⟩

/-- Two places on the way to the same path. -/
theorem AtOrUnder.total (h : AtOrUnder pre path) (h' : AtOrUnder pre' path) :
    AtOrUnder pre pre' ∨ AtOrUnder pre' pre := by
  rcases List.prefix_or_prefix_of_prefix h.isPrefix h'.isPrefix with hle | hle
  · exact Or.inl (AtOrUnder.of_isPrefix h h' hle)
  · exact Or.inr (AtOrUnder.of_isPrefix h' h hle)

/-! ## When a map applies -/

/-- A map replaces the alias and keeps the rest. -/
theorem apply_rest (h : IsRest rest) :
    map.apply (start ++ rest) start = some (trimEndMatches '/' map.realBase ++ rest) := by
  rw [UrlMap.apply, stripPrefix_append]
  rcases h with rfl | ⟨tail, rfl⟩
  · exact congrArg some (List.append_nil _).symm
  · rfl

/-- Behind a text that it is not at or under, a URL goes on otherwise. -/
theorem not_isRest (h : ¬ AtOrUnder start url) (hrest : stripPrefix start url = some rest) :
    ¬ IsRest rest := by
  intro hisRest
  rw [stripPrefix_some hrest] at h
  exact h (atOrUnder_rest hisRest)

/-- A map leaves other URLs alone. -/
theorem apply_none (h : ¬ AtOrUnder start url) : map.apply url start = none := by
  rw [UrlMap.apply]
  split
  next hrest => exact absurd (Or.inl rfl) (not_isRest h hrest)
  next tail hrest => exact absurd (Or.inr ⟨tail, rfl⟩) (not_isRest h hrest)
  next => rfl

/-- The first map with a beginning that the URL is at or under. -/
theorem resolveUrl_append (hbefore : ∀ m ∈ before, ∀ start ∈ m.starts, ¬ AtOrUnder start url)
    (hmap : map.starts.findSome? (map.apply url) = some path) :
    resolveUrl url (before ++ map :: after) = path := by
  have hnone : before.findSome? (fun m => m.starts.findSome? (m.apply url)) = none := by
    rw [List.findSome?_eq_none_iff]
    intro m hm
    rw [List.findSome?_eq_none_iff]
    intro start hstart
    exact apply_none (hbefore m hm start hstart)
  rw [resolveUrl, List.findSome?_append, hnone, Option.none_or, List.findSome?_cons, hmap]
  rfl

/-- A map that has nothing to do with the URL. -/
theorem reverseResolve_cons (h : ¬ AtOrUnder (trimEndMatches '/' map.realBase) url) :
    reverseResolve parseUrl url (map :: maps) = reverseResolve parseUrl url maps := by
  rw [reverseResolve]
  split
  next hrest => exact absurd (Or.inl rfl) (not_isRest h hrest)
  next tail hrest => exact absurd (Or.inr ⟨tail, rfl⟩) (not_isRest h hrest)
  next => rfl

/-- The first map with a base that the URL is at or under. -/
theorem reverseResolve_append
    (hbefore : ∀ m ∈ before, ¬ AtOrUnder (trimEndMatches '/' m.realBase) url)
    (hurl : url = trimEndMatches '/' map.realBase ++ rest) (hrest : IsRest rest) :
    reverseResolve parseUrl url (before ++ map :: after) = (map.fakeHost, rest) := by
  induction before with
  | nil =>
      rw [List.nil_append, reverseResolve, hurl, stripPrefix_append]
      rcases hrest with rfl | ⟨tail, rfl⟩
      · rfl
      · rfl
  | cons m before ih =>
      rw [List.cons_append, reverseResolve_cons (hbefore m List.mem_cons_self)]
      exact ih fun m hm => hbefore m (List.mem_cons_of_mem _ hm)

/-! ## Fake hosts -/

/-- The schemes under which a fake host is known. -/
def aliasSchemes : List Text := ["http://".toList, "ftp://".toList]

/-- One host under one scheme is not under another. -/
theorem start_eq {scheme' host host' : Text} (hs : scheme ∈ aliasSchemes)
    (hs' : scheme' ∈ aliasSchemes) (hhost : '/' ∉ host)
    (h : AtOrUnder (scheme' ++ host') (scheme ++ host)) : scheme' = scheme ∧ host' = host := by
  obtain ⟨rest, heq, hrest⟩ := atOrUnder_iff.mp h
  rw [List.append_assoc] at heq
  have hscheme : scheme' = scheme := by
    -- the first letters of the schemes differ
    simp only [aliasSchemes, List.mem_cons, List.not_mem_nil, or_false] at hs hs'
    rcases hs with rfl | rfl <;> rcases hs' with rfl | rfl
    · rfl
    · exact absurd (congrArg List.head? heq) (by simp)
    · exact absurd (congrArg List.head? heq) (by simp)
    · rfl
  subst hscheme
  refine ⟨rfl, ?_⟩
  have hhosts : host = host' ++ rest := List.append_cancel_left heq
  rcases hrest with rfl | ⟨tail, rfl⟩
  · rw [hhosts, List.append_nil]
  · refine absurd ?_ hhost
    rw [hhosts]
    exact List.mem_append_right _ List.mem_cons_self

/-- A URL of a fake host has one beginning. -/
theorem start_unique {scheme' host host' : Text} (hs : scheme ∈ aliasSchemes)
    (hs' : scheme' ∈ aliasSchemes) (hhost : '/' ∉ host) (hhost' : '/' ∉ host')
    (hrest : IsRest rest) (h : AtOrUnder (scheme' ++ host') (scheme ++ host ++ rest)) :
    scheme' = scheme ∧ host' = host := by
  rcases AtOrUnder.total h (atOrUnder_rest hrest) with hle | hle
  · exact start_eq hs hs' hhost hle
  · obtain ⟨rfl, rfl⟩ := start_eq hs' hs hhost' hle
    exact ⟨rfl, rfl⟩

/-- The beginnings that an alias stands for. -/
theorem mem_starts (h : start ∈ map.starts) :
    ∃ scheme ∈ aliasSchemes, start = scheme ++ map.fakeHost := by
  rcases List.mem_cons.mp h with rfl | h
  · exact ⟨_, List.mem_cons_self, rfl⟩
  · obtain rfl := List.mem_singleton.mp h
    exact ⟨_, List.mem_cons_of_mem _ List.mem_cons_self, rfl⟩

/-- The map of the fake host applies, whichever scheme it is under. -/
theorem starts_findSome (hs : scheme ∈ aliasSchemes) (hplain : '/' ∉ map.fakeHost)
    (hrest : IsRest rest) :
    map.starts.findSome? (map.apply (scheme ++ map.fakeHost ++ rest))
      = some (trimEndMatches '/' map.realBase ++ rest) := by
  rcases List.mem_cons.mp hs with rfl | hs'
  · rw [UrlMap.starts, List.findSome?_cons, apply_rest hrest]
  · obtain rfl := List.mem_singleton.mp hs'
    have hhttp : ¬ AtOrUnder ("http://".toList ++ map.fakeHost)
        ("ftp://".toList ++ map.fakeHost ++ rest) := by
      intro h
      have hsame := (start_unique hs List.mem_cons_self hplain hplain hrest h).1
      exact absurd hsame (by decide)
    rw [UrlMap.starts, List.findSome?_cons, apply_none hhttp]
    dsimp only
    rw [List.findSome?_cons, apply_rest hrest]

/-- The base of a map that was parsed has no slash at its end. -/
theorem trimEndMatches_realBase {input : Text} (h : UrlMap.parse input = .ok map) :
    trimEndMatches '/' map.realBase = map.realBase := by
  rw [UrlMap.parse] at h
  split at h
  · cases h
  · dsimp only at h
    split at h
    · cases h
    · split at h
      · cases h
        rw [trimEndMatches, trimEndMatches, List.reverse_reverse, List.dropWhile_idempotent]
      · cases h

/-! ## There and back -/

/-- An alias that stands apart is resolved by its own map. -/
theorem resolveUrl_alias (h : Apart maps) (hmap : map ∈ maps) (hs : scheme ∈ aliasSchemes)
    (hrest : IsRest rest) :
    resolveUrl (scheme ++ map.fakeHost ++ rest) maps = map.realBase ++ rest := by
  obtain ⟨before, after, rfl⟩ := List.append_of_mem hmap
  have hplain := h.plain map hmap
  have hbefore : ∀ m ∈ before, ∀ start ∈ m.starts,
      ¬ AtOrUnder start (scheme ++ map.fakeHost ++ rest) := by
    intro m hm start hstart hunder
    obtain ⟨scheme', hs', rfl⟩ := mem_starts hstart
    have hplain' := h.plain m (List.mem_append_left _ hm)
    have hhost := (start_unique hs hs' hplain hplain' hrest hunder).2
    exact (List.pairwise_append.mp h.hosts).2.2 m hm map List.mem_cons_self hhost
  obtain ⟨input, hinput⟩ := h.parsed map hmap
  rw [resolveUrl_append hbefore (starts_findSome hs hplain hrest), trimEndMatches_realBase hinput]

/-- **There and back**: a URL of a fake host, resolved, is shown as that host
    and what came after it. -/
theorem reverseResolve_resolveUrl (h : Apart maps) (hmap : map ∈ maps)
    (hs : scheme ∈ aliasSchemes) (hrest : IsRest rest) (parseUrl : UrlParser) :
    reverseResolve parseUrl (resolveUrl (scheme ++ map.fakeHost ++ rest) maps) maps
      = (map.fakeHost, rest) := by
  rw [resolveUrl_alias h hmap hs hrest]
  obtain ⟨before, after, rfl⟩ := List.append_of_mem hmap
  have htrim : ∀ m ∈ before ++ map :: after, trimEndMatches '/' m.realBase = m.realBase := by
    intro m hm
    obtain ⟨input, hinput⟩ := h.parsed m hm
    exact trimEndMatches_realBase hinput
  have hbefore : ∀ m ∈ before,
      ¬ AtOrUnder (trimEndMatches '/' m.realBase) (map.realBase ++ rest) := by
    intro m hm hunder
    rw [htrim m (List.mem_append_left _ hm)] at hunder
    obtain ⟨hnot, hnot'⟩ := (List.pairwise_append.mp h.bases).2.2 m hm map List.mem_cons_self
    rcases AtOrUnder.total hunder (atOrUnder_rest hrest) with hle | hle
    · exact hnot hle
    · exact hnot' hle
  exact reverseResolve_append hbefore (by rw [htrim map hmap]) hrest

/-- Two aliases; the host of one begins like that of the other, and so do
    their bases. -/
def twoAliases : List UrlMap :=
  [⟨"deb".toList, "http://m.org/debian".toList⟩, ⟨"deb-sec".toList, "http://m.org/debian-sec".toList⟩]

theorem reverseResolve_resolveUrl_two :
    reverseResolve parseHttp (resolveUrl "ftp://deb-sec/dists".toList twoAliases) twoAliases
      = ("deb-sec".toList, "/dists".toList) := by
  have hapart : Apart twoAliases := by
    refine ⟨?_, ?_, ?_, ?_⟩
    · intro map hmap
      simp only [twoAliases, List.mem_cons, List.not_mem_nil, or_false] at hmap
      rcases hmap with rfl | rfl
      · exact ⟨"deb=http://m.org/debian/".toList, by decide⟩
      · exact ⟨"deb-sec=http://m.org/debian-sec".toList, by decide⟩
    · decide
    · decide
    · simp only [twoAliases, AtOrUnder]
      decide
  have hs : "ftp://".toList ∈ aliasSchemes := List.mem_cons_of_mem _ List.mem_cons_self
  have hrest : IsRest "/dists".toList := Or.inr ⟨_, rfl⟩
  exact reverseResolve_resolveUrl hapart (List.mem_cons_of_mem _ List.mem_cons_self) hs hrest
    parseHttp

end BlitzAliases
