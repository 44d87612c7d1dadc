import AptBlitz.FtpReplies

/-! # Replies and calls in step

    A connection on which `read_response` is called again and again, and a
    server whose replies are those of the protocol: `ddd text`, or `ddd-text`,
    any lines that do not begin with `ddd ` and `ddd text`.

    A reply is answered as it should be, and the next one left for the next
    call, if and only if it is UTF-8 and no line between the first and the last
    has a space, or a character that is not ASCII, for its fourth byte:
    `inStep_iff`. -/

namespace BlitzFtpInStep

open RustText Utf8 Runs BlitzFtpReplies

/-- A reply of one line, or of several with the text of the first one and the
    lines between. -/
structure Reply where
  code : ByteString
  opening : Option (ByteString × List ByteString)
  text : ByteString
  isCode : code.length = 3 ∧ ∀ b ∈ code, 48 ≤ b.toNat ∧ b.toNat ≤ 57
  textLine : 10 ∉ text
  openingLines : ∀ p ∈ opening, 10 ∉ p.1 ∧ ∀ line ∈ p.2, 10 ∉ line
  notLast : ∀ p ∈ opening, ∀ line ∈ p.2, ¬ code ++ [0x20] <+: line

namespace Reply

/-- The lines between the first and the last. -/
def between (r : Reply) : List ByteString :=
  match r.opening with
  | some (_, between) => between
  | none => []

/-- All lines but the last. -/
def openLines (r : Reply) : List ByteString :=
  match r.opening with
  | some (text, between) => (r.code ++ 45 :: text) :: between
  | none => []

/-- The line that ends the reply. -/
def lastLine (r : Reply) : ByteString := r.code ++ 0x20 :: r.text

/-- All lines of the reply. -/
def lines (r : Reply) : List ByteString := r.openLines ++ [r.lastLine]

/-- What `read_response` should return. -/
def answer (r : Reply) (expected : Option ByteString) : Response :=
  match expected with
  | some code => if r.code = code then .ok r.lastLine else .err (.unexpected code r.lines)
  | none => .ok r.lastLine

end Reply

/-- Lines as they are sent. -/
def sent (lines : List ByteString) : ByteString := lines.flatMap fun line => line ++ [13, 10]

/-- The bytes of the replies, one after the other. -/
def received (replies : List Reply) : ByteString := replies.flatMap fun r => sent r.lines

/-- What is still to be read on the connection, and what the calls have
    returned. -/
structure Connection where
  input : ByteString
  responses : List Response
  deriving DecidableEq

/-- A call of `read_response`; every read but those at the end takes a byte, so
    the length of the input is reads enough. -/
def call (c : Connection) (expected : Option ByteString) : Option Connection :=
  (readResponse expected c.input.length [] c.input).map fun r => ⟨r.2, c.responses ++ [r.1]⟩

/-- After `k` calls there are `k` answers, and the other replies are left. -/
def InStep (calls : List (Reply × Option ByteString)) (after : ByteString) : Prop :=
  ∀ k ≤ calls.length,
    run call ⟨received (calls.map Prod.fst) ++ after, []⟩ ((calls.take k).map Prod.snd)
      = some ⟨received ((calls.drop k).map Prod.fst) ++ after,
          (calls.take k).map fun c => c.1.answer c.2⟩

/-- A line that is no last line: it has three bytes at most, or a character of
    one byte, and no space, in the fourth. -/
def Passes (line : ByteString) : Prop :=
  4 ≤ line.length → ∃ sep, slice line 3 4 = some sep ∧ sep ≠ [0x20]

/-- The reply can be read to its end. -/
structure Legible (r : Reply) : Prop where
  valid : ∀ line ∈ r.lines, isValid line = true
  passes : ∀ line ∈ r.between, Passes line

variable {r : Reply} {expected : Option ByteString} {fuel : Nat} {read lines : List ByteString}
  {line input rest more after : ByteString} {response : Response}

/-! ## The number of reads -/

/-- More fuel changes nothing that was read. -/
theorem readResponse_mono {result : Response × ByteString} {fuel' : Nat}
    (h : readResponse expected fuel read input = some result) (hle : fuel ≤ fuel') :
    readResponse expected fuel' read input = some result := by
  induction fuel generalizing read input fuel' with
  | zero => cases h
  | succ fuel ih =>
      cases fuel' with
      | zero => omega
      | succ fuel' =>
          by_cases hkind : kind (readLine input).1 = .between
          · rw [readResponse_between hkind] at h ⊢
            exact ih h (Nat.le_of_succ_le_succ hle)
          · rw [readResponse_stops hkind fuel' fuel]
            exact h

/-- If any number of reads is enough, the length of the input is. -/
theorem readResponse_length {result : Response × ByteString}
    (h : readResponse expected fuel read input = some result) :
    readResponse expected input.length read input = some result := by
  induction fuel generalizing read input with
  | zero => cases h
  | succ fuel ih =>
      have hne : input ≠ [] := by
        rintro rfl
        rw [readResponse_nil] at h
        cases h
      have hless := (linesOf_cons hne).2
      obtain ⟨n, hn⟩ := Nat.exists_eq_succ_of_ne_zero (Nat.ne_of_gt (Nat.zero_lt_of_lt hless))
      rw [hn]
      by_cases hkind : kind (readLine input).1 = .between
      · rw [readResponse_between hkind] at h ⊢
        exact readResponse_mono (ih h) (by omega)
      · rw [readResponse_stops hkind n fuel]
        exact h

/-! ## Lines of a reply -/

/-- A line is read up to its line feed. -/
theorem readLine_sent (h : 10 ∉ line) (more : ByteString) :
    readLine (line ++ [13, 10] ++ more) = (line ++ [13, 10], more) := by
  have hcr : (10 : UInt8) ∉ line ++ [13] := by
    intro hmem
    rcases List.mem_append.mp hmem with hmem | hmem
    · exact h hmem
    · exact absurd hmem (by decide)
  have hsplit : line ++ [13, 10] ++ more = (line ++ [13]) ++ 10 :: more := by simp
  rw [hsplit, readLine_lf hcr, List.append_assoc]
  rfl

/-- The line feed has no part in the encoding. -/
theorem isValid_sent (line : ByteString) : isValid (line ++ [13, 10]) = isValid line := by
  have hcrlf : isValid [13, 10] = true := by decide
  rw [isValid_append_ascii (by decide), hcrlf, Bool.and_true]

/-- What a line is goes by the line without its end. -/
theorem kind_sent (h : 10 ∉ line) :
    kind (line ++ [13, 10]) = if isValid line then kindOf line else .unreadable := by
  rw [kind, isValid_sent, trimEndCrlf_line h]

/-- A line is passed over if it does not end the reply. -/
theorem kindOf_between_iff : kindOf line = .between ↔ Passes line := by
  rw [kindOf, Passes]
  split
  next hlong =>
    rw [forall_prop_of_true hlong]
    cases slice line 3 4 with
    | none => simp
    | some sep =>
        dsimp only
        split
        next hsep => simp [hsep]
        next hsep => simp [hsep]
  next hshort => exact iff_of_true rfl fun hlong => absurd hlong hshort

theorem code_ascii (r : Reply) : ∀ b ∈ r.code, b.toNat < 0x80 := by
  intro b hb
  have hdigit := r.isCode.2 b hb
  omega

/-- Behind the code the fourth byte decides. -/
theorem kindOf_code {b : UInt8} {text : ByteString} (r : Reply) (hb : b.toNat < 0x80)
    (hvalid : isValid (r.code ++ b :: text) = true) :
    kindOf (r.code ++ b :: text) = if b = 0x20 then .last else .between := by
  have hlength := r.isCode.1
  have hlong : 4 ≤ (r.code ++ b :: text).length := by
    rw [List.length_append, List.length_cons]
    omega
  have hthird : (r.code ++ b :: text)[3]? = some b := by
    rw [List.getElem?_append_right (by omega), hlength]
    rfl
  have hfourth : isCharBoundary (r.code ++ b :: text) 4 = true := by
    rw [isValid_ascii_append (code_ascii r), isValid_ascii_cons hb] at hvalid
    rw [isCharBoundary, List.getElem?_append_right (by omega), hlength, Bool.or_eq_true]
    right
    cases text with
    | nil =>
        show (4 == (r.code ++ [b]).length) = true
        rw [List.length_append, hlength]
        rfl
    | cons c text =>
        show (!isTail c) = true
        rw [not_isTail_of_isValid hvalid]
        rfl
  have hcut : slice (r.code ++ b :: text) 3 4 = some [b] := by
    rw [slice, if_pos]
    · have htake : (r.code ++ b :: text).take 4 = r.code ++ [b] := by
        rw [List.take_append, hlength, List.take_of_length_le (by omega)]
        rfl
      rw [htake, List.drop_append, hlength, List.drop_of_length_le (by omega)]
      rfl
    · refine ⟨by omega, ?_, hfourth⟩
      rw [isCharBoundary, hthird]
      show (!isTail b) = true
      rw [isTail_of_lt hb]
      rfl
  rw [kindOf, if_pos hlong, hcut]
  dsimp only
  by_cases hspace : b = 0x20
  · rw [if_pos hspace, if_pos (by rw [hspace])]
  · rw [if_neg hspace, if_neg (by simpa using hspace)]

/-- A line of the reply has no line feed in it. -/
theorem lf_not_mem_code (r : Reply) (b : UInt8) (hb : b ≠ 10) {text : ByteString} (h : 10 ∉ text) :
    10 ∉ r.code ++ b :: text := by
  intro hmem
  rcases List.mem_append.mp hmem with hmem | hmem
  · have hdigit := r.isCode.2 10 hmem
    exact absurd hdigit.1 (by decide)
  · rcases List.mem_cons.mp hmem with heq | hmem
    · exact hb heq.symm
    · exact h hmem

/-- The lines before the last have no line feed in them. -/
theorem lf_not_mem_openLines (r : Reply) : ∀ line ∈ r.openLines, 10 ∉ line := by
  intro line hline
  rw [Reply.openLines] at hline
  cases hopening : r.opening with
  | none =>
      rw [hopening] at hline
      cases hline
  | some p =>
      rw [hopening] at hline
      obtain ⟨htext, hlines⟩ := r.openingLines p hopening
      rcases List.mem_cons.mp hline with rfl | hline
      · exact lf_not_mem_code r 45 (by decide) htext
      · exact hlines line hline

/-- The lines before the last are read on exactly where they should be. -/
theorem openLines_between_iff (r : Reply) :
    (∀ line ∈ r.openLines, kind (line ++ [13, 10]) = .between) ↔
      (∀ line ∈ r.openLines, isValid line = true) ∧ ∀ line ∈ r.between, Passes line := by
  have hlf := lf_not_mem_openLines r
  rw [Reply.openLines] at hlf ⊢
  rw [Reply.between]
  cases hopening : r.opening with
  | none => simp
  | some p =>
      rw [hopening] at hlf
      dsimp only at hlf ⊢
      have hkind : ∀ line ∈ (r.code ++ 45 :: p.1) :: p.2, (kind (line ++ [13, 10]) = .between ↔
          isValid line = true ∧ kindOf line = .between) := by
        intro line hline
        rw [kind_sent (hlf line hline)]
        cases isValid line with
        | true => simp
        | false => simp
      constructor
      · intro h
        have hboth := fun line hline => (hkind line hline).mp (h line hline)
        refine ⟨fun line hline => (hboth line hline).1, fun line hline => ?_⟩
        exact kindOf_between_iff.mp (hboth line (List.mem_cons_of_mem _ hline)).2
      · rintro ⟨hvalid, hpasses⟩ line hline
        refine (hkind line hline).mpr ⟨hvalid line hline, ?_⟩
        rcases List.mem_cons.mp hline with rfl | hmem
        · rw [kindOf_code r (by decide) (hvalid _ hline)]
          rfl
        · exact kindOf_between_iff.mpr (hpasses line hmem)

/-- The last line has no line feed in it. -/
theorem lf_not_mem_lastLine (r : Reply) : 10 ∉ r.lastLine :=
  lf_not_mem_code r 0x20 (by decide) r.textLine

/-- The last line ends the reply, if it can be read. -/
theorem kind_lastLine (r : Reply) :
    kind (r.lastLine ++ [13, 10]) = if isValid r.lastLine then .last else .unreadable := by
  rw [kind_sent (lf_not_mem_lastLine r)]
  cases hvalid : isValid r.lastLine with
  | true =>
      rw [if_pos rfl, if_pos rfl, Reply.lastLine, kindOf_code r (by decide) hvalid]
      rfl
  | false => rfl

/-! ## One call -/

/-- Lines that are read on are read. -/
theorem readResponse_sent (h : ∀ line ∈ lines, kind (line ++ [13, 10]) = .between)
    (hlf : ∀ line ∈ lines, 10 ∉ line) :
    readResponse expected (lines.length + fuel) read (sent lines ++ input)
      = readResponse expected fuel (read ++ lines) input := by
  induction lines generalizing read with
  | nil =>
      rw [List.append_nil, List.length_nil, Nat.zero_add]
      rfl
  | cons line lines ih =>
      have hfirst := readLine_sent (hlf line List.mem_cons_self) (sent lines ++ input)
      have hsent : sent (line :: lines) ++ input
          = line ++ [13, 10] ++ (sent lines ++ input) := by
        rw [sent, List.flatMap_cons, List.append_assoc]
        rfl
      have hcount : (line :: lines).length + fuel = (lines.length + fuel) + 1 := by
        rw [List.length_cons]
        omega
      have hkind : kind (readLine (line ++ [13, 10] ++ (sent lines ++ input))).1 = .between := by
        rw [hfirst]
        exact h line List.mem_cons_self
      rw [hsent, hcount, readResponse_between hkind, hfirst,
        trimEndCrlf_line (hlf line List.mem_cons_self),
        ih (fun l hl => h l (List.mem_cons_of_mem _ hl))
          (fun l hl => hlf l (List.mem_cons_of_mem _ hl)), List.append_assoc]
      rfl

/-- Lines of which one is not read on stop the reading: with an error or a
    panic, or before what comes behind them. -/
theorem readResponse_stops (h : ¬ ∀ line ∈ lines, kind (line ++ [13, 10]) = .between)
    (hlf : ∀ line ∈ lines, 10 ∉ line)
    (hread : readResponse expected fuel read (sent lines ++ input) = some (response, rest)) :
    response = .err .read ∨ response = .panicked ∨ input.length ≤ rest.length := by
  induction lines generalizing read fuel with
  | nil => exact absurd (fun line hline => absurd hline List.not_mem_nil) h
  | cons line lines ih =>
      have hfirst := readLine_sent (hlf line List.mem_cons_self) (sent lines ++ input)
      have hsent : sent (line :: lines) ++ input
          = line ++ [13, 10] ++ (sent lines ++ input) := by
        rw [sent, List.flatMap_cons, List.append_assoc]
        rfl
      rw [hsent] at hread
      cases fuel with
      | zero => cases hread
      | succ fuel =>
          cases hkind : kind (readLine (line ++ [13, 10] ++ (sent lines ++ input))).1 with
          | between =>
              rw [readResponse_between hkind, hfirst] at hread
              refine ih ?_ (fun l hl => hlf l (List.mem_cons_of_mem _ hl)) hread
              intro hall
              refine h fun l hl => ?_
              rcases List.mem_cons.mp hl with rfl | hl
              · rw [hfirst] at hkind
                exact hkind
              · exact hall l hl
          | last =>
              rw [readResponse_last hkind, hfirst] at hread
              cases hread
              right
              right
              rw [List.length_append]
              omega
          | unreadable =>
              rw [readResponse_unreadable hkind] at hread
              cases hread
              exact Or.inl rfl
          | panics =>
              rw [readResponse_panics hkind] at hread
              cases hread
              exact Or.inr (Or.inl rfl)

/-- The first line of a reply begins with its code. -/
theorem checkCode_lines (r : Reply) (expected : Option ByteString) :
    checkCode expected r.lines r.lastLine = r.answer expected := by
  have hcode : (r.lines.head?.bind fun first => slice first 0 3) = some r.code := by
    have hcut : ∀ (b : UInt8) (text : ByteString), b.toNat < 0x80 →
        slice (r.code ++ b :: text) 0 3 = some r.code := by
      intro b text hb
      have hlength := r.isCode.1
      have hthird : (r.code ++ b :: text)[3]? = some b := by
        rw [List.getElem?_append_right (by omega), hlength]
        rfl
      rw [slice, if_pos, List.drop_zero, List.take_append, hlength,
        List.take_of_length_le (by omega)]
      · exact congrArg some (List.append_nil _)
      · refine ⟨by omega, rfl, ?_⟩
        rw [isCharBoundary, hthird]
        show (!isTail b) = true
        rw [isTail_of_lt hb]
        rfl
    rw [Reply.lines, Reply.openLines]
    cases r.opening with
    | none => exact hcut 0x20 r.text (by decide)
    | some p => exact hcut 45 p.1 (by decide)
  cases expected with
  | none => rfl
  | some code =>
      rw [checkCode, hcode]
      rfl

theorem sent_lines (r : Reply) (more : ByteString) :
    sent r.lines ++ more = sent r.openLines ++ (r.lastLine ++ [13, 10] ++ more) := by
  rw [Reply.lines, sent, List.flatMap_append, List.flatMap_singleton, List.append_assoc]
  rfl

/-- A reply is answered, as expected or not. -/
theorem answer_cases (r : Reply) (expected : Option ByteString) :
    r.answer expected ≠ .err .read ∧ r.answer expected ≠ .panicked := by
  cases expected with
  | none => exact ⟨nofun, nofun⟩
  | some code =>
      rw [Reply.answer]
      split
      · exact ⟨nofun, nofun⟩
      · exact ⟨nofun, nofun⟩

/-- **One call, exactly**: it takes a reply whole and answers with its last
    line, or with its lines where another code is expected, if and only if the
    reply is legible. -/
theorem readResponse_iff (r : Reply) (expected : Option ByteString) (more : ByteString) :
    (∃ fuel, readResponse expected fuel [] (sent r.lines ++ more)
      = some (r.answer expected, more)) ↔ Legible r := by
  have hlf := lf_not_mem_openLines r
  have hlast := readLine_sent (lf_not_mem_lastLine r) more
  constructor
  · rintro ⟨fuel, hread⟩
    rw [sent_lines] at hread
    have hopen : ∀ line ∈ r.openLines, kind (line ++ [13, 10]) = .between := by
      by_contra hnot
      rcases readResponse_stops hnot hlf hread with herr | hpanic | hle
      · exact (answer_cases r expected).1 herr
      · exact (answer_cases r expected).2 hpanic
      · rw [List.length_append, List.length_append] at hle
        have hcrlf : ([13, 10] : ByteString).length = 2 := rfl
        omega
    have hvalid : isValid r.lastLine = true := by
      by_contra hnot
      have hkind : kind (readLine (r.lastLine ++ [13, 10] ++ more)).1 = .unreadable := by
        rw [hlast, kind_lastLine, if_neg hnot]
      have hread := readResponse_mono hread (Nat.le_add_left fuel (r.openLines.length + 1))
      have hcount : r.openLines.length + 1 + fuel = r.openLines.length + (fuel + 1) := by omega
      rw [hcount, readResponse_sent hopen hlf, readResponse_unreadable hkind] at hread
      have hanswer := congrArg Prod.fst (Option.some.inj hread)
      exact (answer_cases r expected).1 hanswer.symm
    obtain ⟨hopenValid, hpasses⟩ := (openLines_between_iff r).mp hopen
    refine ⟨?_, hpasses⟩
    intro line hline
    rcases List.mem_append.mp hline with hline | hline
    · exact hopenValid line hline
    · rw [List.mem_singleton.mp hline]
      exact hvalid
  · intro h
    have hopen := (openLines_between_iff r).mpr
      ⟨fun line hline => h.valid line (List.mem_append_left _ hline), h.passes⟩
    have hvalid : isValid r.lastLine = true :=
      h.valid _ (List.mem_append_right _ (List.mem_singleton_self _))
    have hkind : kind (readLine (r.lastLine ++ [13, 10] ++ more)).1 = .last := by
      rw [hlast, kind_lastLine, if_pos hvalid]
    refine ⟨r.openLines.length + 1, ?_⟩
    rw [sent_lines, readResponse_sent hopen hlf, readResponse_last hkind, hlast,
      trimEndCrlf_line (lf_not_mem_lastLine r), List.nil_append, ← Reply.lines, checkCode_lines]

/-! ## All calls -/

/-- **One reply**: a call reads exactly its own reply if and only if the reply
    is legible. -/
theorem call_iff (r : Reply) (expected : Option ByteString) (responses : List Response)
    (more : ByteString) :
    call ⟨sent r.lines ++ more, responses⟩ expected
        = some ⟨more, responses ++ [r.answer expected]⟩ ↔ Legible r := by
  rw [← readResponse_iff r expected more, call]
  constructor
  · intro h
    obtain ⟨result, hread, hresult⟩ := Option.map_eq_some_iff.mp h
    obtain ⟨response, rest⟩ := result
    obtain ⟨hrest, hresponses⟩ := Connection.mk.inj hresult
    have hresponse := List.append_cancel_left hresponses
    dsimp only at hrest hresponse
    refine ⟨_, hread.trans ?_⟩
    rw [hrest, (List.cons.inj hresponse).1]
  · rintro ⟨fuel, hread⟩
    rw [readResponse_length hread]
    rfl

theorem received_cons (r : Reply) (replies : List Reply) (after : ByteString) :
    received (r :: replies) ++ after = sent r.lines ++ (received replies ++ after) := by
  rw [received, List.flatMap_cons, List.append_assoc]
  rfl

/-- The calls after some have been answered. -/
theorem inStep_from {calls : List (Reply × Option ByteString)} (responses : List Response) :
    (∀ k ≤ calls.length,
      run call ⟨received (calls.map Prod.fst) ++ after, responses⟩ ((calls.take k).map Prod.snd)
        = some ⟨received ((calls.drop k).map Prod.fst) ++ after,
            responses ++ (calls.take k).map fun c => c.1.answer c.2⟩) ↔
      ∀ c ∈ calls, Legible c.1 := by
  induction calls generalizing responses with
  | nil =>
      refine iff_of_true ?_ nofun
      intro k hk
      obtain rfl : k = 0 := Nat.le_zero.mp hk
      simp [run]
  | cons c calls ih =>
      have hcall := call_iff c.1 c.2 responses (received (calls.map Prod.fst) ++ after)
      have hstart : received ((c :: calls).map Prod.fst) ++ after
          = sent c.1.lines ++ (received (calls.map Prod.fst) ++ after) := received_cons _ _ _
      rw [hstart, List.forall_mem_cons]
      constructor
      · intro h
        have hone := h 1 (by simp)
        have hfirst : call ⟨sent c.1.lines ++ (received (calls.map Prod.fst) ++ after), responses⟩
            c.2 = some ⟨received (calls.map Prod.fst) ++ after,
              responses ++ [c.1.answer c.2]⟩ := by
          obtain ⟨m, hm, hrest⟩ := run_cons_some hone
          rw [hm]
          exact hrest
        refine ⟨hcall.mp hfirst, (ih (responses ++ [c.1.answer c.2])).mp ?_⟩
        intro k hk
        have hnext := h (k + 1) (Nat.succ_le_succ hk)
        rw [List.take_succ_cons, List.map_cons, run_cons hfirst] at hnext
        rw [hnext, List.append_assoc]
        rfl
      · rintro ⟨hlegible, hothers⟩ k hk
        have hfirst := hcall.mpr hlegible
        cases k with
        | zero =>
            rw [List.take_zero, List.map_nil, List.map_nil, List.append_nil]
            exact congrArg (fun input => some (Connection.mk input responses)) hstart.symm
        | succ k =>
            have hnext := (ih (responses ++ [c.1.answer c.2])).mpr hothers k
              (Nat.le_of_succ_le_succ hk)
            rw [List.take_succ_cons, List.map_cons, run_cons hfirst, hnext, List.append_assoc]
            rfl

/-- **In step, exactly**: whatever replies come and whatever codes are
    expected, each call takes its own reply and answers with it, if and only if
    every reply is legible. -/
theorem inStep_iff (calls : List (Reply × Option ByteString)) (after : ByteString) :
    InStep calls after ↔ ∀ c ∈ calls, Legible c.1 :=
  inStep_from []

/-- A greeting with a line of which the fourth character is a space. -/
def greeting : Reply where
  code := ascii "230".toList
  opening := some (ascii "Welcome".toList, [ascii "The server".toList])
  text := ascii "ok".toList
  isCode := by simp [ascii]
  textLine := by decide
  openingLines := by
    rintro p ⟨⟩
    decide
  notLast := by
    rintro p ⟨⟩
    decide

/-- A reply of one line. -/
def typeSet : Reply where
  code := ascii "200".toList
  opening := none
  text := ascii "Type set".toList
  isCode := by simp [ascii]
  textLine := by decide
  openingLines := nofun
  notLast := nofun

/-- The first call returns `The server`, and the second one what the first
    should have returned. -/
theorem not_inStep_greeting :
    run call ⟨received [greeting, typeSet], []⟩ [none, none]
        = some ⟨received [typeSet],
            [.ok (ascii "The server".toList), .ok (ascii "230 ok".toList)]⟩ ∧
      ¬ InStep [(greeting, none), (typeSet, none)] [] := by
  have hrun : run call ⟨received [greeting, typeSet], []⟩ [none, none]
      = some ⟨received [typeSet],
          [.ok (ascii "The server".toList), .ok (ascii "230 ok".toList)]⟩ := by decide
  refine ⟨hrun, ?_⟩
  intro h
  have hboth := h 2 (Nat.le_refl 2)
  exact absurd hboth (by decide)

end BlitzFtpInStep
