import AptBlitz.Expiry
import AptBlitz.Library.LetterCase

/-! # The case of directives

    The names of the directives in a `Cache-Control` header may be in any
    case.  `is_fresh`, `time_until_expiry` and `parse_max_age` compare them as
    they stand with `no-cache`, `no-store` and `max-age=`.

    So the case of a header makes no difference, and its directives do what
    they say in every case, if and only if there is nothing in it that matters:
    `heeded_iff`. -/

namespace BlitzDirectiveCase

open RustText BlitzHeaders BlitzFreshness BlitzExpiry

/-- Two spellings of a directive: the name ends before the first `=`, if there
    is one, and its letters may differ in case. -/
def SameName (d d' : Text) : Prop :=
  ∃ name name' rest, d = name ++ rest ∧ d' = name' ++ rest ∧ lower name = lower name' ∧
    '=' ∉ name ∧ (rest = [] ∨ ∃ argument, rest = '=' :: argument)

/-- Two spellings of a list of directives. -/
def SameButCase (cc cc' : Text) : Prop := List.Forall₂ SameName (split ',' cc) (split ',' cc')

/-- Two headers that are all the same to an entry, whatever the other headers
    and whenever it was cached. -/
def SameAnswers (cc cc' : Text) : Prop :=
  ∀ (parseHttpDate : Text → Option Nat) (now cachedAt : Int) (headers : HeaderMap)
    (maxCacheAge : Nat),
    let withControl := fun control => headers.insert "cache-control".toList control
    isFresh parseHttpDate now cachedAt (withControl cc) maxCacheAge
        = isFresh parseHttpDate now cachedAt (withControl cc') maxCacheAge ∧
      timeUntilExpiry parseHttpDate now cachedAt (withControl cc) maxCacheAge
        = timeUntilExpiry parseHttpDate now cachedAt (withControl cc') maxCacheAge

/-- The spelling of a header makes no difference. -/
def CaseBlind (cc : Text) : Prop := ∀ cc', SameButCase cc cc' → SameAnswers cc cc'

/-- `parse_max_age` after the `=`. -/
def parseAge (rest : Text) : Option Nat :=
  match stripPrefix ['+'] (trim rest) with
  | some plus => (parseUnsigned (2 ^ 64 - 1) plus).toOption
  | none => (parseUnsigned (2 ^ 64 - 1) (trim rest)).toOption

/-- A `no-cache` or `no-store` directive, in any case. -/
def Forbids (d : Text) : Prop :=
  lower (trim d) = "no-cache".toList ∨ lower (trim d) = "no-store".toList

instance (d : Text) : Decidable (Forbids d) := inferInstanceAs (Decidable (_ ∨ _))

/-- A `max-age` directive with an age, in any case. -/
def SetsAge (d : Text) (age : Nat) : Prop :=
  ∃ name rest, trim d = name ++ '=' :: rest ∧ lower name = "max-age".toList ∧
    parseAge rest = some age

/-- What the case of a header must not change, and what its directives do in
    any case: with `no-cache` or `no-store` nothing is fresh, and with
    `max-age` and none of the two an entry is fresh for the age one names. -/
structure Heeded (cc : Text) : Prop where
  caseBlind : CaseBlind cc
  forbids : (∃ d ∈ split ',' cc, Forbids d) →
    ∀ (parseHttpDate : Text → Option Nat) (now cachedAt : Int) (headers : HeaderMap)
      (maxCacheAge : Nat), isFresh parseHttpDate now cachedAt
        (headers.insert "cache-control".toList cc) maxCacheAge = false
  setsAge : (∃ d ∈ split ',' cc, ∃ age, SetsAge d age) → (∀ d ∈ split ',' cc, ¬ Forbids d) →
    ∃ d ∈ split ',' cc, ∃ age, SetsAge d age ∧
      ∀ (parseHttpDate : Text → Option Nat) (now cachedAt : Int) (headers : HeaderMap)
        (maxCacheAge : Nat), Dated now cachedAt → isFresh parseHttpDate now cachedAt
          (headers.insert "cache-control".toList cc) maxCacheAge
            = decide (now - cachedAt < asI64 age)

/-- Nothing in the header matters to the cache, in any case. -/
def Silent (cc : Text) : Prop := ∀ d ∈ split ',' cc, ¬ Forbids d ∧ ∀ age, ¬ SetsAge d age

variable {d d' cc cc' cc'' : Text} {before after : List Text} {age maxCacheAge : Nat}

/-! ## What the header makes of an entry's life -/

/-- `parse_max_age` takes the first directive that begins with `max-age=`. -/
theorem parseMaxAge_eq (cc : Text) :
    parseMaxAge cc = ((split ',' cc).findSome? fun d =>
      stripPrefix "max-age=".toList (trim d)).bind parseAge := rfl

/-- The limit in the header, if there is any. -/
def controlLimit (cc : Text) : Option Limit :=
  (toStr cc).bind fun cc =>
    if forbidsCaching cc then some .forbidden else (parseMaxAge cc).map .maxAge

/-- The limit with a `Cache-Control` header put in. -/
theorem limit_insert (parseHttpDate : Text → Option Nat) (headers : HeaderMap) :
    limit parseHttpDate (headers.insert "cache-control".toList cc) maxCacheAge
      = (controlLimit cc).getD (limitByExpires parseHttpDate headers maxCacheAge) := by
  have hexpires : limitByExpires parseHttpDate (headers.insert "cache-control".toList cc)
      maxCacheAge = limitByExpires parseHttpDate headers maxCacheAge := by
    rw [limitByExpires, limitByExpires, get_insert, if_neg (by decide)]
  rw [limit, get_insert, if_pos rfl, Option.bind_some, controlLimit, hexpires]
  cases toStr cc with
  | none => rfl
  | some cc =>
      dsimp only [Option.bind_some]
      cases forbidsCaching cc with
      | true => rfl
      | false =>
          cases parseMaxAge cc with
          | none => rfl
          | some age => rfl

/-- Headers of one limit get the same answers. -/
theorem sameAnswers_of_controlLimit (h : controlLimit cc = controlLimit cc') :
    SameAnswers cc cc' := by
  intro parseHttpDate now cachedAt headers maxCacheAge
  constructor
  · rw [isFresh_eq, isFresh_eq, limit_insert, limit_insert, h]
  · rw [timeUntilExpiry, timeUntilExpiry, expiryTime_eq, expiryTime_eq, limit_insert,
      limit_insert, h]

theorem controlLimit_some {l : Limit} (h : controlLimit cc = some l) :
    l = .forbidden ∨ ∃ age, l = .maxAge age := by
  obtain ⟨text, -, hlimit⟩ := Option.bind_eq_some_iff.mp h
  split at hlimit
  · exact Or.inl (Option.some.inj hlimit).symm
  · obtain ⟨age, -, hage⟩ := Option.map_eq_some_iff.mp hlimit
    exact Or.inr ⟨age, hage.symm⟩

/-- A limit in the header shows: an entry just cached is not fresh with a
    `max_cache_age`, or has a time left without one. -/
theorem controlLimit_none (h : SameAnswers cc cc') (hnone : controlLimit cc = none) :
    controlLimit cc' = none := by
  have hfresh := (h (fun _ => none) 1 1 [] 1).1
  have hage := (h (fun _ => none) 1 1 [] 0).2
  simp only [isFresh_eq, limit_insert, hnone] at hfresh
  simp only [timeUntilExpiry, expiryTime_eq, limit_insert, hnone] at hage
  cases hlimit : controlLimit cc' with
  | none => rfl
  | some l =>
      rw [hlimit] at hfresh hage
      rcases controlLimit_some hlimit with rfl | ⟨age, rfl⟩
      · cases hfresh
      · cases hage

/-! ## Spellings -/

/-- The case of a name does not make it one with a `=`. -/
theorem equals_not_mem {name name' : Text} (h : lower name = lower name') (hnot : '=' ∉ name) :
    '=' ∉ name' := by
  intro hmem
  exact hnot (mem_of_lower_eq (by decide) (by decide) h.symm hmem)

theorem equals_not_mem_maxAge {name : Text} (h : lower name = "max-age".toList) : '=' ∉ name :=
  equals_not_mem (show lower "max-age".toList = lower name by rw [h]; decide) (by decide)

theorem SameName.symm (h : SameName d d') : SameName d' d := by
  obtain ⟨name, name', rest, rfl, rfl, hname, hnot, hrest⟩ := h
  exact ⟨name', name, rest, rfl, rfl, hname.symm, equals_not_mem hname hnot, hrest⟩

theorem SameName.lower_eq (h : SameName d d') : lower d = lower d' := by
  obtain ⟨name, name', rest, rfl, rfl, hname, -⟩ := h
  rw [lower_append, lower_append, hname]

/-- The case of a name does not change what the directive forbids. -/
theorem SameName.forbids (h : SameName d d') (hforbids : Forbids d) : Forbids d' := by
  rw [Forbids, lower_trim, ← h.lower_eq, ← lower_trim]
  exact hforbids

/-- The case of a name does not change the age that the directive sets. -/
theorem SameName.setsAge (h : SameName d d') (hage : SetsAge d age) : SetsAge d' age := by
  obtain ⟨name, name', rest, rfl, rfl, hname, hnot, hrest⟩ := h
  obtain ⟨n, r, htrim, hn, hparse⟩ := hage
  have hequals : '=' ∈ name ++ rest := by
    have hmem : '=' ∈ trim (name ++ rest) := htrim ▸ by simp
    exact mem_of_mem_trim hmem
  rcases hrest with rfl | ⟨argument, rfl⟩
  · rw [List.append_nil] at hequals
    exact absurd hequals hnot
  · have hsplit := splitOnce_trim (by decide) (splitOnce_append_cons (b := argument) hnot)
    rw [htrim, splitOnce_append_cons (equals_not_mem_maxAge hn)] at hsplit
    cases hsplit
    refine ⟨name'.dropWhile isWhitespace, trimEnd argument, ?_, ?_, hparse⟩
    · exact trim_append_cons (by decide)
    · rw [lower, ← dropWhile_map isWhitespace_toLower, ← lower, ← hname, lower,
        dropWhile_map isWhitespace_toLower, ← lower]
      exact hn

theorem SameButCase.symm (h : SameButCase cc cc') : SameButCase cc' cc :=
  List.Forall₂.flip (h.imp fun _ _ => SameName.symm)

/-- Each directive has its counterpart. -/
theorem SameButCase.exists_of_mem (h : SameButCase cc cc') (hd : d' ∈ split ',' cc') :
    ∃ d ∈ split ',' cc, SameName d d' := by
  obtain ⟨i, hi, rfl⟩ := List.getElem_of_mem hd
  have hlength := List.Forall₂.length_eq h
  exact ⟨_, List.getElem_mem (hlength ▸ hi), List.Forall₂.get h (hlength ▸ hi) hi⟩

/-- The case of the names does not make a silent header speak. -/
theorem Silent.of_sameButCase (h : SameButCase cc cc') (hsilent : Silent cc) : Silent cc' := by
  intro d' hd'
  obtain ⟨d, hd, hname⟩ := h.exists_of_mem hd'
  obtain ⟨hforbids, hage⟩ := hsilent d hd
  refine ⟨fun hforbids' => hforbids (hname.symm.forbids hforbids'), fun age hage' => ?_⟩
  exact hage age (hname.symm.setsAge hage')

/-- A header that is silent limits nothing. -/
theorem Silent.controlLimit (h : Silent cc) : controlLimit cc = none := by
  rw [BlitzDirectiveCase.controlLimit, Option.bind_eq_none_iff]
  intro text htext
  rw [toStr_some htext]
  have hforbids : forbidsCaching cc = false := by
    refine List.any_eq_false.mpr ?_
    intro d hd hmatch
    refine (h d hd).1 ?_
    rw [Bool.or_eq_true, beq_iff_eq, beq_iff_eq] at hmatch
    rcases hmatch with heq | heq
    · exact Or.inl (by rw [heq]; decide)
    · exact Or.inr (by rw [heq]; decide)
  have hage : parseMaxAge cc = none := by
    rw [parseMaxAge_eq, Option.bind_eq_none_iff]
    intro rest hfound
    obtain ⟨d, hd, hprefix⟩ := List.exists_of_findSome?_eq_some hfound
    refine Option.eq_none_iff_forall_ne_some.mpr fun age hparse => (h d hd).2 age ?_
    have htrim : trim d = "max-age=".toList ++ rest := stripPrefix_some hprefix
    exact ⟨"max-age".toList, rest, htrim, by decide, hparse⟩
  rw [hforbids, hage]
  rfl

/-! ## A header in another spelling -/

/-- A directive with another spelling of its name. -/
def rename (f : Text → Text) (d : Text) : Text :=
  match splitOnce '=' d with
  | some (name, argument) => f name ++ '=' :: argument
  | none => f d

/-- A directive whose name has been respelled is the same one. -/
theorem sameName_rename {f : Text → Text} (hf : ∀ s, lower (f s) = lower s) (d : Text) :
    SameName d (rename f d) := by
  rw [rename]
  cases hsplit : splitOnce '=' d with
  | none =>
      refine ⟨d, f d, [], ?_, ?_, (hf d).symm, splitOnce_none_iff.mp hsplit, Or.inl rfl⟩
      · rw [List.append_nil]
      · rw [List.append_nil]
  | some p =>
      obtain ⟨name, argument⟩ := p
      obtain ⟨rfl, hnot⟩ := splitOnce_some hsplit
      exact ⟨name, f name, '=' :: argument, rfl, rfl, (hf name).symm, hnot, Or.inr ⟨_, rfl⟩⟩

theorem SameName.comma_not_mem (h : SameName d d') (hcomma : ',' ∉ d) : ',' ∉ d' := by
  intro hmem
  exact hcomma (mem_of_lower_eq (by decide) (by decide) h.lower_eq.symm hmem)

/-- In upper case, no directive is one that the functions look for. -/
theorem trim_rename_upper {p s : Text} {c : Char} (hc : c.isLower = true) :
    trim (rename upper d) ≠ (c :: p) ++ s := by
  intro htrim
  rw [rename] at htrim
  have hupper : ∀ (a b : Text), upper a = c :: b → False := by
    intro a b heq
    have hmem : c ∈ upper a := heq ▸ List.mem_cons_self
    rw [not_isLower_of_mem_upper hmem] at hc
    cases hc
  cases hsplit : splitOnce '=' d with
  | none =>
      rw [hsplit] at htrim
      dsimp only at htrim
      rw [← upper_trim] at htrim
      exact hupper _ _ htrim
  | some q =>
      obtain ⟨name, argument⟩ := q
      rw [hsplit] at htrim
      dsimp only at htrim
      rw [trim_append_cons (by decide), upper, dropWhile_map isWhitespace_toUpper] at htrim
      cases hname : (name.dropWhile isWhitespace).map Char.toUpper with
      | nil =>
          rw [hname] at htrim
          obtain rfl : '=' = c := (List.cons.inj htrim).1
          cases hc
      | cons a b =>
          rw [hname] at htrim
          obtain rfl : a = c := (List.cons.inj htrim).1
          exact hupper _ _ hname

/-- The header with one directive as `d'`, and the others in upper case. -/
def spell (before : List Text) (d' : Text) (after : List Text) : Text :=
  join [','] (before.map (rename upper) ++ d' :: after.map (rename upper))

theorem forall₂_rename (parts : List Text) :
    List.Forall₂ SameName parts (parts.map (rename upper)) := by
  induction parts with
  | nil => exact .nil
  | cons d parts ih => exact .cons (sameName_rename lower_upper d) ih

/-- A header may be respelled with one directive as given and the others in
    capitals. -/
theorem split_spell (hsplit : split ',' cc = before ++ d :: after) (h : SameName d d') :
    SameButCase cc (spell before d' after) ∧
      split ',' (spell before d' after)
        = before.map (rename upper) ++ d' :: after.map (rename upper) := by
  have hall : List.Forall₂ SameName (split ',' cc)
      (before.map (rename upper) ++ d' :: after.map (rename upper)) := by
    rw [hsplit]
    exact List.rel_append (forall₂_rename before) (.cons h (forall₂_rename after))
  have hparts : split ',' (spell before d' after)
      = before.map (rename upper) ++ d' :: after.map (rename upper) := by
    refine split_join (by simp) ?_
    intro part hpart
    obtain ⟨i, hi, rfl⟩ := List.getElem_of_mem hpart
    have hlength := hall.length_eq
    have hname := hall.get (hlength ▸ hi) hi
    exact hname.comma_not_mem (not_mem_of_mem_split (List.getElem_mem _))
  exact ⟨by rw [SameButCase, hparts]; exact hall, hparts⟩

/-- Neither function sees a directive in upper case. -/
theorem unseen_rename_upper (d : Text) :
    (trim (rename upper d) == "no-cache".toList || trim (rename upper d) == "no-store".toList)
        = false ∧
      stripPrefix "max-age=".toList (trim (rename upper d)) = none := by
  have hcache : trim (rename upper d) ≠ "no-cache".toList ++ [] := trim_rename_upper (by decide)
  have hstore : trim (rename upper d) ≠ "no-store".toList ++ [] := trim_rename_upper (by decide)
  rw [List.append_nil] at hcache hstore
  refine ⟨?_, ?_⟩
  · rw [beq_eq_false_iff_ne.mpr hcache, beq_eq_false_iff_ne.mpr hstore]
    rfl
  · refine Option.eq_none_iff_forall_ne_some.mpr fun rest hrest => ?_
    exact trim_rename_upper (by decide) (stripPrefix_some hrest)

/-- Such a header forbids caching by that directive alone. -/
theorem forbidsCaching_spell (hparts : split ',' (spell before d' after)
      = before.map (rename upper) ++ d' :: after.map (rename upper)) :
    forbidsCaching (spell before d' after)
      = (trim d' == "no-cache".toList || trim d' == "no-store".toList) := by
  have hothers : ∀ parts : List Text, (parts.map (rename upper)).any (fun d =>
      trim d == "no-cache".toList || trim d == "no-store".toList) = false := by
    intro parts
    refine List.any_eq_false.mpr ?_
    intro d hd
    obtain ⟨e, -, rfl⟩ := List.mem_map.mp hd
    rw [(unseen_rename_upper e).1]
    exact Bool.false_ne_true
  rw [forbidsCaching, hparts, List.any_append, List.any_cons, hothers, hothers, Bool.false_or,
    Bool.or_false]

/-- Such a header gets its age from that directive alone. -/
theorem parseMaxAge_spell (hparts : split ',' (spell before d' after)
      = before.map (rename upper) ++ d' :: after.map (rename upper)) :
    parseMaxAge (spell before d' after)
      = (stripPrefix "max-age=".toList (trim d')).bind parseAge := by
  have hothers : ∀ parts : List Text, (parts.map (rename upper)).findSome? (fun d =>
      stripPrefix "max-age=".toList (trim d)) = none := by
    intro parts
    refine List.findSome?_eq_none_iff.mpr ?_
    intro d hd
    obtain ⟨e, -, rfl⟩ := List.mem_map.mp hd
    exact (unseen_rename_upper e).2
  rw [parseMaxAge_eq, hparts, List.findSome?_append, List.findSome?_cons, hothers, hothers]
  cases stripPrefix "max-age=".toList (trim d') with
  | none => rfl
  | some rest => rfl

/-! ## When the case makes no difference -/

/-- Where case does not matter, two spellings get the same answers. -/
theorem CaseBlind.sameAnswers (h : CaseBlind cc) (hs : SameButCase cc cc')
    (hs' : SameButCase cc cc'') : SameAnswers cc' cc'' := by
  intro parseHttpDate now cachedAt headers maxCacheAge
  have hfirst := h cc' hs parseHttpDate now cachedAt headers maxCacheAge
  have hsecond := h cc'' hs' parseHttpDate now cachedAt headers maxCacheAge
  exact ⟨hfirst.1.symm.trans hsecond.1, hfirst.2.symm.trans hsecond.2⟩

/-- Printable or not, in any case. -/
theorem visible_toLower (c : Char) :
    (c.toLower == '\t' || (decide (32 ≤ c.toLower.toNat) && decide (c.toLower.toNat < 127)))
      = (c == '\t' || (decide (32 ≤ c.toNat) && decide (c.toNat < 127))) := by
  rcases toLower_cases c with heq | ⟨hle, hge, hnat⟩
  · rw [heq]
  · have hlower : decide (32 ≤ c.toLower.toNat) && decide (c.toLower.toNat < 127) := by
      rw [Bool.and_eq_true, decide_eq_true_eq, decide_eq_true_eq]
      omega
    have hupper : decide (32 ≤ c.toNat) && decide (c.toNat < 127) := by
      rw [Bool.and_eq_true, decide_eq_true_eq, decide_eq_true_eq]
      omega
    rw [hlower, hupper, Bool.or_true, Bool.or_true]

theorem visible_of_lower_eq {s t : Text} (h : lower s = lower t)
    (hs : s.all fun c => c == '\t' || (32 ≤ c.toNat && c.toNat < 127)) :
    t.all fun c => c == '\t' || (32 ≤ c.toNat && c.toNat < 127) := by
  have hlower : ∀ u : Text,
      ((lower u).all fun c => c == '\t' || (32 ≤ c.toNat && c.toNat < 127))
        = u.all fun c => c == '\t' || (32 ≤ c.toNat && c.toNat < 127) := by
    intro u
    rw [lower, List.all_map]
    exact congrArg u.all (funext visible_toLower)
  rw [← hlower, ← h, hlower]
  exact hs

/-- A header that can be read can be read in every spelling. -/
theorem toStr_of_sameButCase (h : SameButCase cc cc') (hcc : toStr cc = some cc) :
    toStr cc' = some cc' := by
  have hvisible : cc.all fun c => c == '\t' || (32 ≤ c.toNat && c.toNat < 127) := by
    by_contra hnot
    rw [toStr, if_neg hnot] at hcc
    cases hcc
  rw [toStr, if_pos]
  rw [List.all_eq_true] at hvisible ⊢
  intro c hc
  rw [← join_split ',' cc'] at hc
  rcases mem_join hc with rfl | ⟨d', hd', hc⟩
  · rfl
  · obtain ⟨d, hd, hname⟩ := h.exists_of_mem hd'
    refine List.all_eq_true.mp (visible_of_lower_eq hname.lower_eq ?_) c hc
    exact List.all_eq_true.mpr fun c hc => hvisible c (mem_of_mem_split hd hc)

theorem toStr_none (h : SameButCase cc cc') (hcc : toStr cc = none) : toStr cc' = none := by
  cases hcc' : toStr cc' with
  | none => rfl
  | some text =>
      rw [toStr_some hcc'] at hcc'
      rw [toStr_of_sameButCase h.symm hcc'] at hcc
      cases hcc

/-- The header in upper case says nothing, and with one directive in lower
    case it says what that does. -/
theorem controlLimit_spell (hcc : toStr cc = some cc) (hsplit : split ',' cc = before ++ d :: after)
    (h : SameName d d') :
    controlLimit (spell before d' after)
      = if trim d' == "no-cache".toList || trim d' == "no-store".toList then some .forbidden
        else ((stripPrefix "max-age=".toList (trim d')).bind parseAge).map .maxAge := by
  obtain ⟨hsame, hparts⟩ := split_spell hsplit h
  rw [controlLimit, toStr_of_sameButCase hsame hcc, Option.bind_some, forbidsCaching_spell hparts,
    parseMaxAge_spell hparts]

/-- Where case does not matter, no directive speaks in lower case. -/
theorem CaseBlind.not_lower (h : CaseBlind cc) (hcc : toStr cc = some cc)
    (hd : d ∈ split ',' cc) :
    (trim (rename lower d) == "no-cache".toList || trim (rename lower d) == "no-store".toList)
        = false ∧
      (stripPrefix "max-age=".toList (trim (rename lower d))).bind parseAge = none := by
  obtain ⟨before, after, hsplit⟩ := List.append_of_mem hd
  have hup := sameName_rename lower_upper d
  have hlow := sameName_rename lower_lower d
  have hsilent : controlLimit (spell before (rename upper d) after) = none := by
    rw [controlLimit_spell hcc hsplit hup, (unseen_rename_upper d).1, (unseen_rename_upper d).2]
    rfl
  have hsays := controlLimit_none
    (h.sameAnswers (split_spell hsplit hup).1 (split_spell hsplit hlow).1) hsilent
  rw [controlLimit_spell hcc hsplit hlow] at hsays
  split at hsays
  next => cases hsays
  next hnot => exact ⟨Bool.eq_false_iff.mpr hnot, Option.map_eq_none_iff.mp hsays⟩

/-- A directive that forbids has no argument, and forbids in lower case. -/
theorem Forbids.rename_lower (h : Forbids d) :
    (trim (rename lower d) == "no-cache".toList || trim (rename lower d) == "no-store".toList)
      = true := by
  have hnot : '=' ∉ d := by
    intro hmem
    have hlower : '=' ∈ lower (trim d) :=
      List.mem_map_of_mem (f := Char.toLower) (mem_trim hmem (by decide))
    rcases h with heq | heq
    · rw [heq] at hlower
      exact absurd hlower (by decide)
    · rw [heq] at hlower
      exact absurd hlower (by decide)
  rw [rename, splitOnce_none_iff.mpr hnot, ← lower_trim, Bool.or_eq_true, beq_iff_eq, beq_iff_eq]
  exact h

/-- In lower case the age is read. -/
theorem SetsAge.rename_lower (h : SetsAge d age) :
    (stripPrefix "max-age=".toList (trim (rename lower d))).bind parseAge = some age := by
  obtain ⟨name, rest, htrim, hname, hparse⟩ := h
  have hequals : '=' ∈ d := mem_of_mem_trim (htrim ▸ by simp)
  cases hsplit : splitOnce '=' d with
  | none => exact absurd hequals (splitOnce_none_iff.mp hsplit)
  | some p =>
      obtain ⟨a, b⟩ := p
      have hwhole := splitOnce_trim (by decide) hsplit
      rw [htrim, splitOnce_append_cons (equals_not_mem_maxAge hname)] at hwhole
      cases hwhole
      rw [rename, hsplit]
      dsimp only
      rw [trim_append_cons (by decide), lower, dropWhile_map isWhitespace_toLower, ← lower, hname]
      have hstrip := stripPrefix_append "max-age=".toList (trimEnd b)
      have happend : "max-age=".toList ++ trimEnd b = "max-age".toList ++ '=' :: trimEnd b := rfl
      rw [← happend, hstrip]
      exact hparse

/-- The spelling of a header makes no difference if and only if the header
    cannot be read, or is silent. -/
theorem caseBlind_iff (cc : Text) : CaseBlind cc ↔ toStr cc = none ∨ Silent cc := by
  constructor
  · intro h
    refine or_iff_not_imp_left.mpr fun hread d hd => ?_
    obtain ⟨text, hcc⟩ := Option.ne_none_iff_exists'.mp hread
    rw [toStr_some hcc] at hcc
    obtain ⟨hforbids, hage⟩ := h.not_lower hcc hd
    constructor
    · intro hd
      rw [hd.rename_lower] at hforbids
      cases hforbids
    · intro age hd
      rw [hd.rename_lower] at hage
      cases hage
  · rintro (hunread | hsilent) cc' hs
    · refine sameAnswers_of_controlLimit ?_
      rw [controlLimit, controlLimit, hunread, toStr_none hs hunread]
    · refine sameAnswers_of_controlLimit ?_
      rw [hsilent.controlLimit, (hsilent.of_sameButCase hs).controlLimit]

/-- A header that cannot be read leaves the lifetime to `max_cache_age`. -/
theorem isFresh_unread (hunread : toStr cc = none) (maxCacheAge : Nat) :
    isFresh (fun _ => none) 1 1 (HeaderMap.insert [] "cache-control".toList cc) maxCacheAge
      = decide (0 < maxCacheAge ∧ 0 < asI64 maxCacheAge) := by
  have hlimit : controlLimit cc = none := by
    rw [controlLimit, hunread]
    rfl
  have httl : limitByExpires (fun _ => none) [] maxCacheAge = .ttl maxCacheAge := rfl
  rw [isFresh_eq, limit_insert, hlimit, Option.getD_none, httl, Limit.fresh,
    decide_eq_true (by decide), Bool.true_and, Bool.decide_and, sub_self]

/-- **Case, exactly**: a header is heeded in every spelling if and only if it
    has, in whatever case, no directive that forbids caching or sets an age. -/
theorem heeded_iff (cc : Text) : Heeded cc ↔ Silent cc := by
  constructor
  · intro h
    rcases (caseBlind_iff cc).mp h.caseBlind with hunread | hsilent
    · have hzero := isFresh_unread hunread 0
      have hone := isFresh_unread hunread 1
      have hforbids : ∀ d ∈ split ',' cc, ¬ Forbids d := by
        intro d hd hforbids
        rw [h.forbids ⟨d, hd, hforbids⟩] at hone
        cases hone
      refine fun d hd => ⟨hforbids d hd, fun age hage => ?_⟩
      obtain ⟨e, -, age', -, hfresh⟩ := h.setsAge ⟨d, hd, age, hage⟩ hforbids
      rw [hfresh _ 1 1 [] 0 (by decide)] at hzero
      rw [hfresh _ 1 1 [] 1 (by decide)] at hone
      cases hzero.symm.trans hone
    · exact hsilent
  · intro h
    refine ⟨(caseBlind_iff cc).mpr (Or.inr h), ?_, ?_⟩
    · rintro ⟨d, hd, hforbids⟩
      exact absurd hforbids (h d hd).1
    · rintro ⟨d, hd, age, hage⟩
      exact absurd hage ((h d hd).2 age)

/-- An upstream that writes `No-Cache`: what it sends is fresh for an hour. -/
theorem not_heeded_noCache :
    Forbids "No-Cache".toList ∧
      isFresh (fun _ => none) 20 10 [("cache-control".toList, "No-Cache".toList)] 3600 = true ∧
      ¬ Heeded "No-Cache".toList := by
  have hforbids : Forbids "No-Cache".toList := by decide
  refine ⟨hforbids, by decide, ?_⟩
  intro hheeded
  have hstale := hheeded.forbids ⟨"No-Cache".toList, by decide, hforbids⟩ (fun _ => none) 20 10 [] 3600
  exact absurd hstale (by decide)

end BlitzDirectiveCase
