import AptBlitz.Library.Ipv4

/-! # Hosts that bypass the upstream proxy

    `no_proxy_match`.  A rule is `*`, a suffix with a dot in front, or a plain
    one, which is compared first and then, if it has a dot in what comes
    before its slash, read as an IPv4 network: so many of its numbers as the
    bits round up to, written with dots, must begin the host.

    Nothing asks where the numbers end in the host, and a plain name with a
    dot in it is a network too. -/

namespace BlitzNoProxy

open RustText Ipv4

/-- The bits of a rule: `split('/').nth(1)`, parsed as a `u8`. -/
def ruleBits (rule : Text) : Nat :=
  ((split '/' rule)[1]?.bind fun s => (parseUnsigned 255 s).toOption).getD 32

/-- `bits.div_ceil(8)`. -/
def numOctets (bits : Nat) : Nat := (bits + 7) / 8

/-- What must begin the host: the first numbers of the base. -/
def cidrHead (cidrBase : Text) (bits : Nat) : Text :=
  let dotted := split '.' cidrBase
  join ['.'] (dotted.take (min (numOctets bits) dotted.length))

/-- The second half of the branch of the plain rules. -/
def cidrMatches (host rule : Text) : Bool :=
  match (split '/' rule)[0]? with
  | none => false
  | some cidrBase =>
      if '.' ∈ cidrBase then (cidrHead cidrBase (ruleBits rule)).isPrefixOf host else false

/-- The body of the loop, for a trimmed rule; `true` where it returns. -/
def ruleMatches (host rule : Text) : Bool :=
  if rule = [] then false
  else if rule = ['*'] then true
  else
    match stripPrefix ['.'] rule with
    | some suffix => host == suffix || ('.' :: suffix).isSuffixOf host
    | none => host == rule || cidrMatches host rule

/-- `no_proxy_match`. -/
def noProxyMatch (host : Text) (noProxy : List Text) : Bool :=
  if noProxy.isEmpty then false else noProxy.any fun rule => ruleMatches host (trim rule)

variable {host rule s : Text} {rules : List Text} {bits : Nat}

/-- A host matches if one of the rules does. -/
theorem noProxyMatch_iff :
    noProxyMatch host rules = true ↔ ∃ rule ∈ rules, ruleMatches host (trim rule) = true := by
  rw [noProxyMatch]
  cases rules with
  | nil => exact iff_of_false Bool.false_ne_true fun ⟨_, hmem, _⟩ => nomatch hmem
  | cons rule rules => exact List.any_eq_true

/-- A single rule. -/
theorem noProxyMatch_singleton :
    noProxyMatch host [rule] = true ↔ ruleMatches host (trim rule) = true := by
  rw [noProxyMatch_iff]
  constructor
  · rintro ⟨r, hr, hmatch⟩
    exact List.mem_singleton.mp hr ▸ hmatch
  · intro hmatch
    exact ⟨rule, List.mem_singleton.mpr rfl, hmatch⟩

/-! ## One rule -/

theorem stripPrefix_plain (h : ∀ s, rule ≠ '.' :: s) : stripPrefix ['.'] rule = none := by
  rw [stripPrefix, if_neg]
  rw [List.isPrefixOf_iff_prefix]
  rintro ⟨s, rfl⟩
  exact h s rfl

/-- A rule that is compared as it stands, and then as a network. -/
structure IsPlain (rule : Text) : Prop where
  ne_nil : rule ≠ []
  ne_star : rule ≠ ['*']
  no_dot : ∀ s, rule ≠ '.' :: s

/-- A plain rule goes by the whole host, or as a network. -/
theorem ruleMatches_plain (h : IsPlain rule) :
    ruleMatches host rule = true ↔ host = rule ∨ cidrMatches host rule = true := by
  rw [ruleMatches, if_neg h.ne_nil, if_neg h.ne_star, stripPrefix_plain h.no_dot]
  dsimp only
  rw [Bool.or_eq_true, beq_iff_eq]

/-- A rule with a dot in front goes by the end of the host. -/
theorem ruleMatches_suffix :
    ruleMatches host ('.' :: s) = true ↔ host = s ∨ '.' :: s <:+ host := by
  have hstar : '.' :: s ≠ ['*'] := by
    intro h
    cases h
  rw [ruleMatches, if_neg (List.cons_ne_nil _ _), if_neg hstar, stripPrefix_cons]
  dsimp only
  rw [Bool.or_eq_true, beq_iff_eq, List.isSuffixOf_iff_suffix]

/-! ## Networks -/

/-- How many octets the bits of a network round up to. -/
def octetCount (r : Network) : Nat := numOctets r.bits

/-- Its first octets, as they must begin the host. -/
def octetsText (r : Network) : Text := join ['.'] ((r.base.octets.take (octetCount r)).map natText)

theorem octetCount_le (r : Network) : octetCount r ≤ 4 := by
  have hbits := r.bits_le
  rw [octetCount, numOctets]
  omega

/-- The text of a network has one slash. -/
theorem split_slash (r : Network) : split '/' r.text = [r.base.text, natText r.bits] := by
  have hjoin : r.text = join ['/'] [r.base.text, natText r.bits] := by
    rw [join, List.intercalate_cons_of_ne_nil (List.cons_ne_nil _ _), List.intercalate_singleton,
      List.append_assoc]
    rfl
  rw [hjoin]
  refine split_join (List.cons_ne_nil _ _) fun part hpart => ?_
  rcases List.mem_cons.mp hpart with rfl | hlast
  · exact slash_not_mem_text r.base
  · rw [List.mem_singleton.mp hlast]
    exact not_mem_natText (by decide)

/-- The bits of a network are read back. -/
theorem ruleBits_network (r : Network) : ruleBits r.text = r.bits := by
  have hbits : r.bits ≤ 255 := le_trans r.bits_le (by decide)
  rw [ruleBits, split_slash]
  show ((parseUnsigned 255 (natText r.bits)).toOption).getD 32 = r.bits
  rw [parseUnsigned_natText hbits]
  rfl

/-- What is compared are the whole octets. -/
theorem cidrHead_network (r : Network) : cidrHead r.base.text r.bits = octetsText r := by
  have hlen : (r.base.octets.map natText).length = 4 := rfl
  have hmin : min (numOctets r.bits) 4 = octetCount r := min_eq_left (octetCount_le r)
  simp only [cidrHead, split_text, hlen, hmin, octetsText, List.map_take]

/-- The text of a network has no blanks around it. -/
theorem trim_network (r : Network) : trim r.text = r.text := by
  refine trim_eq_self fun c hc => ?_
  rcases List.mem_append.mp hc with hbase | hbits
  · rcases of_mem_text hbase with rfl | hdigit
    · decide
    · exact isWhitespace_of_isDigit hdigit
  · rcases List.mem_cons.mp hbits with rfl | hdigit
    · decide
    · exact isWhitespace_of_isDigit (isDigit_of_mem_natText hdigit)

/-- The text of a network begins with no dot. -/
theorem isPlain_network (r : Network) : IsPlain r.text := by
  obtain ⟨c, rest, hcons, hdigit⟩ := text_eq_cons r.base
  have htext : r.text = c :: (rest ++ '/' :: natText r.bits) := by
    rw [Network.text, hcons]
    rfl
  rw [htext]
  refine ⟨List.cons_ne_nil _ _, ?_, ?_⟩
  · intro hstar
    rw [(List.cons.inj hstar).1] at hdigit
    exact absurd hdigit (by decide)
  · intro s hdot
    rw [(List.cons.inj hdot).1] at hdigit
    exact absurd hdigit (by decide)

/-- The octets of a network begin its text. -/
theorem octetsText_isPrefix (r : Network) : octetsText r <+: r.base.text :=
  join_isPrefix ((List.take_prefix _ _).map natText) _

/-- **A network matches** the hosts that its first octets begin. -/
theorem ruleMatches_network (r : Network) :
    ruleMatches host (trim r.text) = true ↔ octetsText r <+: host := by
  have hcidr : cidrMatches host r.text = true ↔ octetsText r <+: host := by
    simp only [cidrMatches, split_slash, List.getElem?_cons_zero, if_pos (dot_mem_text r.base),
      ruleBits_network, cidrHead_network]
    exact List.isPrefixOf_iff_prefix
  rw [trim_network, ruleMatches_plain (isPlain_network r), hcidr]
  constructor
  · rintro (rfl | hbegins)
    · exact (octetsText_isPrefix r).trans (List.prefix_append _ _)
    · exact hbegins
  · exact Or.inr

/-- Networks are compared by their whole octets alone. -/
theorem noProxyMatch_networks {networks : List Network} :
    noProxyMatch host (networks.map Network.text) = true ↔
      ∃ r ∈ networks, octetsText r <+: host := by
  rw [noProxyMatch_iff]
  constructor
  · rintro ⟨rule, hrule, hmatch⟩
    obtain ⟨r, hr, rfl⟩ := List.mem_map.mp hrule
    exact ⟨r, hr, (ruleMatches_network r).mp hmatch⟩
  · rintro ⟨r, hr, hbegins⟩
    exact ⟨_, List.mem_map_of_mem hr, (ruleMatches_network r).mpr hbegins⟩

/-- The octets, written out, begin the address without being its first ones,
    as those of `10.0.0.0/8` begin `100.0.0.1`. -/
def Cuts (r : Network) (host : Address) : Prop :=
  octetsText r <+: host.text ∧ ¬ SameBits (8 * octetCount r) r.base host

/-- An address in the network begins with its whole octets. -/
theorem begins_of_sameBits {r : Network} {host : Address}
    (h : SameBits (8 * octetCount r) r.base host) : octetsText r <+: host.text := by
  have hoctets := (sameBits_octets (octetCount_le r)).mp h
  rw [octetsText, hoctets]
  exact join_isPrefix ((List.take_prefix _ _).map natText) _

/-- **Networks, to whole octets**: with the bits of each rule rounded up to
    whole octets, an address in one of the networks matches; so do no others,
    but for those that a rule's octets cut; and nothing at all matches that
    does not begin with the octets of a rule. -/
theorem noProxyMatch_octets (networks : List Network) :
    (∀ host : Address, (∃ r ∈ networks, SameBits (8 * octetCount r) r.base host) →
        noProxyMatch host.text (networks.map Network.text) = true) ∧
      (∀ host : Address, (∀ r ∈ networks, ¬ Cuts r host) →
        noProxyMatch host.text (networks.map Network.text) = true →
          ∃ r ∈ networks, SameBits (8 * octetCount r) r.base host) ∧
      ∀ host : Text, noProxyMatch host (networks.map Network.text) = true →
        ∃ r ∈ networks, octetsText r <+: host := by
  refine ⟨?_, ?_, ?_⟩
  · rintro host ⟨r, hr, hsame⟩
    exact noProxyMatch_networks.mpr ⟨r, hr, begins_of_sameBits hsame⟩
  · intro host hcuts hmatch
    obtain ⟨r, hr, hbegins⟩ := noProxyMatch_networks.mp hmatch
    refine ⟨r, hr, ?_⟩
    by_contra hnot
    exact hcuts r hr ⟨hbegins, hnot⟩
  · intro host hmatch
    exact noProxyMatch_networks.mp hmatch

/-! ## Rules without a slash -/

/-- What a trimmed rule is meant to name. -/
def Names (rule host : Text) : Prop :=
  rule = ['*'] ∨ (∃ s, rule = '.' :: s ∧ (host = s ∨ '.' :: s <:+ host)) ∨ rule = host

/-- The first four labels of a rule. -/
def fourLabels (rule : Text) : Text := join ['.'] ((split '.' rule).take 4)

/-- The host begins with the first four labels of a plain rule with a dot. -/
def Begins (rule host : Text) : Prop :=
  IsPlain rule ∧ '.' ∈ rule ∧ fourLabels rule <+: host

/-- What is asked of a list of rules: it bypasses what its rules name, and a
    plain rule no longer host that begins with it. -/
structure Exact (host : Text) (rules : List Text) : Prop where
  names : noProxyMatch host rules = true ↔ ∃ rule ∈ rules, Names (trim rule) host
  plain : ∀ rule ∈ rules, IsPlain (trim rule) → trim rule <+: host → trim rule ≠ host →
    noProxyMatch host [rule] = false

/-- A text without the separator is one piece. -/
theorem split_of_not_mem {c : Char} (h : c ∉ rule) : split c rule = [rule] := by
  have hjoin : join [c] [rule] = rule := List.intercalate_singleton
  rw [← hjoin]
  refine (split_join (List.cons_ne_nil _ _) fun part hpart => ?_).trans (by rw [hjoin])
  rw [List.mem_singleton.mp hpart]
  exact h

/-- Without a slash the bits are 32, and four labels are what counts. -/
theorem cidrMatches_of_not_mem (h : '/' ∉ rule) :
    cidrMatches host rule = true ↔ '.' ∈ rule ∧ fourLabels rule <+: host := by
  have hsplit : split '/' rule = [rule] := split_of_not_mem h
  have hbits : ruleBits rule = 32 := by
    rw [ruleBits, hsplit]
    rfl
  have hhead : cidrHead rule 32 = fourLabels rule := by
    show join ['.'] ((split '.' rule).take (min 4 (split '.' rule).length)) = _
    rw [← List.take_eq_take_min]
    rfl
  simp only [cidrMatches, hsplit, List.getElem?_cons_zero, hbits, hhead]
  by_cases hdot : '.' ∈ rule
  · rw [if_pos hdot, List.isPrefixOf_iff_prefix]
    exact ⟨fun hbegins => ⟨hdot, hbegins⟩, And.right⟩
  · rw [if_neg hdot]
    exact iff_of_false Bool.false_ne_true fun hboth => hdot hboth.1

/-- **A rule matches** what it names, and what its first four labels begin. -/
theorem ruleMatches_iff (hhost : host ≠ []) (hslash : '/' ∉ rule) :
    ruleMatches host rule = true ↔ Names rule host ∨ Begins rule host := by
  by_cases hnil : rule = []
  · subst hnil
    have hnot : ¬ (Names [] host ∨ Begins [] host) := by
      rintro ((hstar | ⟨s, hdot, -⟩ | heq) | hbegins)
      · cases hstar
      · cases hdot
      · exact hhost heq.symm
      · exact hbegins.1.ne_nil rfl
    exact iff_of_false (by rw [ruleMatches, if_pos rfl]; exact Bool.false_ne_true) hnot
  · by_cases hstar : rule = ['*']
    · refine iff_of_true ?_ (Or.inl (Or.inl hstar))
      rw [ruleMatches, if_neg hnil, if_pos hstar]
    · by_cases hdot : ∃ s, rule = '.' :: s
      · obtain ⟨s, rfl⟩ := hdot
        rw [ruleMatches_suffix]
        constructor
        · intro hsuffix
          exact Or.inl (Or.inr (Or.inl ⟨s, rfl, hsuffix⟩))
        · rintro ((hstar' | ⟨s', hs, hsuffix⟩ | rfl) | hbegins)
          · exact absurd hstar' hstar
          · cases hs
            exact hsuffix
          · exact Or.inr List.suffix_rfl
          · exact absurd rfl (hbegins.1.no_dot s)
      · have hplain : IsPlain rule := ⟨hnil, hstar, fun s hs => hdot ⟨s, hs⟩⟩
        rw [ruleMatches_plain hplain, cidrMatches_of_not_mem hslash]
        constructor
        · rintro (rfl | hbegins)
          · exact Or.inl (Or.inr (Or.inr rfl))
          · exact Or.inr ⟨hplain, hbegins⟩
        · rintro ((hstar' | ⟨s, hs, -⟩ | heq) | hbegins)
          · exact absurd hstar' hstar
          · exact absurd hs (hplain.no_dot s)
          · exact Or.inl heq.symm
          · exact Or.inr hbegins.2

/-- Four labels are the beginning of a rule. -/
theorem fourLabels_isPrefix (rule : Text) : fourLabels rule <+: rule := by
  have hbegins := join_isPrefix (List.take_prefix 4 (split '.' rule)) ['.']
  rwa [join_split] at hbegins

/-- A plain rule and a longer host that begins with it. -/
theorem plain_iff (hhost : host ≠ []) (hslash : '/' ∉ trim rule) (hplain : IsPlain (trim rule))
    (hbegins : trim rule <+: host) (hne : trim rule ≠ host) :
    noProxyMatch host [rule] = false ↔ '.' ∉ trim rule := by
  rw [Bool.eq_false_iff, ne_eq, noProxyMatch_singleton, ruleMatches_iff hhost hslash]
  constructor
  · intro hnot hdot
    exact hnot (Or.inr ⟨hplain, hdot, (fourLabels_isPrefix _).trans hbegins⟩)
  · rintro hdot ((hstar | ⟨s, hs, -⟩ | heq) | hfour)
    · exact hplain.ne_star hstar
    · exact hplain.no_dot s hs
    · exact hne heq
    · exact hdot hfour.2.1

/-- **Names, exactly**: the rules bypass what they name and no more if and
    only if no plain rule with a dot begins a longer host, and where the first
    four labels of one begin the host, some rule names it. -/
theorem exact_iff (hhost : host ≠ []) (hslash : ∀ rule ∈ rules, '/' ∉ rule) :
    Exact host rules ↔
      (∀ rule ∈ rules, Begins (trim rule) host → ∃ r ∈ rules, Names (trim r) host) ∧
        ∀ rule ∈ rules, IsPlain (trim rule) → '.' ∈ trim rule → trim rule <+: host →
          trim rule = host := by
  have htrim : ∀ rule ∈ rules, '/' ∉ trim rule := fun rule hrule hmem =>
    hslash rule hrule (mem_of_mem_trim hmem)
  have hmatch : noProxyMatch host rules = true ↔
      ∃ rule ∈ rules, Names (trim rule) host ∨ Begins (trim rule) host := by
    rw [noProxyMatch_iff]
    exact exists_congr fun rule => and_congr_right fun hrule =>
      ruleMatches_iff hhost (htrim rule hrule)
  constructor
  · rintro ⟨hnames, hplain⟩
    refine ⟨fun rule hrule hbegins => ?_, fun rule hrule hp hdot hbegins => ?_⟩
    · exact hnames.mp (hmatch.mpr ⟨rule, hrule, Or.inr hbegins⟩)
    · by_contra hne
      exact (plain_iff hhost (htrim rule hrule) hp hbegins hne).mp
        (hplain rule hrule hp hbegins hne) hdot
  · rintro ⟨hbegins, hlonger⟩
    refine ⟨?_, fun rule hrule hp hprefix hne => ?_⟩
    · rw [hmatch]
      constructor
      · rintro ⟨rule, hrule, hnames | hfour⟩
        · exact ⟨rule, hrule, hnames⟩
        · exact hbegins rule hrule hfour
      · rintro ⟨rule, hrule, hnames⟩
        exact ⟨rule, hrule, Or.inl hnames⟩
    · rw [plain_iff hhost (htrim rule hrule) hp hprefix hne]
      intro hdot
      exact hne (hlonger rule hrule hp hdot hprefix)

section Examples

/-- `10.0.0.0/12`, whose octets are `10.0`. -/
def tenSlash12 : Network := ⟨⟨10, 0, 0, 0⟩, 12, by decide⟩

/-- `10.0.0.0/8`, whose octets are `10`. -/
def tenSlash8 : Network := ⟨⟨10, 0, 0, 0⟩, 8, by decide⟩

/-- Twelve bits are not sixteen, and `10` begins more than addresses. -/
theorem not_noProxyMatch_bits :
    (SameBits tenSlash12.bits tenSlash12.base ⟨10, 1, 0, 1⟩ ∧
        noProxyMatch (Address.text ⟨10, 1, 0, 1⟩) [tenSlash12.text] = false) ∧
      noProxyMatch "10.evil.com".toList [tenSlash8.text] = true := by
  decide

theorem noProxyMatch_octets_twelve :
    noProxyMatch (Address.text ⟨10, 0, 7, 1⟩) ([tenSlash12].map Network.text) = true := by
  refine (noProxyMatch_octets [tenSlash12]).1 ⟨10, 0, 7, 1⟩ ⟨tenSlash12, ?_, ?_⟩
  · exact List.mem_singleton.mpr rfl
  · decide

/-- `example.com` begins `example.com.evil.org`. -/
theorem not_exact_longer : ¬ Exact "example.com.evil.org".toList ["example.com".toList] := by
  intro h
  have hplain : IsPlain (trim "example.com".toList) := by
    constructor
    · decide
    · decide
    · intro s hdot
      exact absurd (List.cons.inj hdot).1 (by decide)
  have hbegins : trim "example.com".toList <+: "example.com.evil.org".toList := by
    rw [← List.isPrefixOf_iff_prefix]
    decide
  have hno := h.plain _ (List.mem_singleton.mpr rfl) hplain hbegins (by decide)
  exact absurd hno (by decide)

/-- Two rules, one of them a host name that does not begin this host. -/
theorem exact_iff_local :
    Exact "localhost".toList [" localhost ".toList, [], ".example.com".toList] := by
  have hslash : ∀ rule ∈ [" localhost ".toList, [], ".example.com".toList], '/' ∉ rule := by decide
  refine (exact_iff (by decide) hslash).mpr ⟨?_, ?_⟩
  · intro rule hrule _
    exact ⟨" localhost ".toList, List.mem_cons_self, Or.inr (Or.inr (by decide))⟩
  · intro rule hrule hplain hdot
    rcases List.mem_cons.mp hrule with rfl | hrest
    · exact absurd hdot (by decide)
    · rcases List.mem_cons.mp hrest with rfl | hlast
      · exact absurd hdot (by decide)
      · rw [List.mem_singleton.mp hlast] at hplain
        exact absurd rfl (hplain.no_dot "example.com".toList)

end Examples

end BlitzNoProxy
