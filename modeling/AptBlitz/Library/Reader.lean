import Mathlib.Data.List.Infix

/-! # Reading up to a mark

    A reader that takes one element at a time, until what it has read ends
    with a mark, or the input is over, or it has read more than a limit.

    What it has read and what is left are the input (`readUntil_append`).  It
    stops behind the first mark of the input if that comes within the limit
    (`readUntil_head`), and only then for its sake (`readUntil_spec`). -/

namespace Reader

variable {α : Type}

/-- Why the reading stopped. -/
inductive Stop where
  | ending
  | closed
  | limit
  deriving DecidableEq, Repr

/-- How a reading stopped, what was read, and what is left. -/
structure Read (α : Type) where
  stop : Stop
  buf : List α
  rest : List α
  deriving DecidableEq, Repr

/-- Nothing that begins the list ends with the mark. -/
def Open (mark s : List α) : Prop := ∀ s', s' <+: s → ¬ mark <:+ s'

/-- The list ends with the mark, for the first time. -/
def Head (mark s : List α) : Prop :=
  mark <:+ s ∧ ∀ s', s' <+: s → mark <:+ s' → s' = s

variable {mark buf input top top' rest stream s : List α} {limit : Nat} {b : α}

/-! ## Heads -/

theorem open_nil (h : mark ≠ []) : Open mark [] := by
  intro s' hs' hend
  rw [List.prefix_nil.mp hs'] at hend
  exact h (List.suffix_nil.mp hend)

/-- A text without one of the mark's elements. -/
theorem open_of_not_mem (hb : b ∈ mark) (h : b ∉ s) : Open mark s :=
  fun _ hs' hend => h (hs'.subset (hend.subset hb))

/-- What comes before an open text is open. -/
theorem Open.of_isPrefix (h : Open mark s) (hbuf : buf <+: s) : Open mark buf :=
  fun s' hs' => h s' (hs'.trans hbuf)

/-- One element more that does not complete the mark. -/
theorem Open.concat (h : Open mark buf) (hnot : ¬ mark <:+ buf ++ [b]) :
    Open mark (buf ++ [b]) := by
  intro s' hs'
  rcases List.prefix_concat_iff.mp hs' with rfl | hbuf
  · exact hnot
  · exact h s' hbuf

/-- The element that completes the mark. -/
theorem Open.isHead (h : Open mark buf) (hend : mark <:+ buf ++ [b]) :
    Head mark (buf ++ [b]) := by
  refine ⟨hend, fun s' hs' hend' => ?_⟩
  rcases List.prefix_concat_iff.mp hs' with heq | hbuf
  · exact heq
  · exact absurd hend' (h s' hbuf)

/-- A list has one head. -/
theorem Head.eq (h : Head mark top) (h' : Head mark top') (hs : top <+: stream)
    (hs' : top' <+: stream) : top = top' := by
  rcases List.prefix_or_prefix_of_prefix hs hs' with hle | hle
  · exact h'.2 top hle h.1
  · exact (h.2 top' hle h'.1).symm

theorem Head.not_open (h : Head mark top) (hs : top <+: s) : ¬ Open mark s :=
  fun hopen => hopen top hs h.1

/-- What is before the first separator of a list, and what is behind it. -/
theorem cut_unique {front front' back back' : List α} (hfront : b ∉ front) (hfront' : b ∉ front')
    (h : front ++ b :: back = front' ++ b :: back') : front = front' ∧ back = back' := by
  induction front generalizing front' with
  | nil =>
      cases front' with
      | nil => exact ⟨rfl, (List.cons.inj h).2⟩
      | cons c front' => exact absurd (List.mem_cons.mpr (Or.inl (List.cons.inj h).1)) hfront'
  | cons c front ih =>
      cases front' with
      | nil => exact absurd (List.mem_cons.mpr (Or.inl (List.cons.inj h).1.symm)) hfront
      | cons c' front' =>
          obtain ⟨rfl, htail⟩ := List.cons.inj h
          obtain ⟨rfl, hback⟩ := ih (List.not_mem_of_not_mem_cons hfront)
            (List.not_mem_of_not_mem_cons hfront') htail
          exact ⟨rfl, hback⟩

/-- What has no separator in it comes before one. -/
theorem isPrefix_before {front back before after : List α} (hfront : b ∉ front)
    (h : front ++ back = before ++ b :: after) : front <+: before := by
  rcases List.append_eq_append_iff.mp h with ⟨more, hbefore, -⟩ | ⟨more, hmore, hback⟩
  · exact ⟨more, hbefore.symm⟩
  · cases more with
    | nil => exact ⟨[], by rw [hmore, List.append_nil, List.append_nil]⟩
    | cons c more =>
        refine absurd ?_ hfront
        rw [hmore, (List.cons.inj hback).1]
        exact List.mem_append_right _ List.mem_cons_self

/-! ## The reader -/

variable [DecidableEq α]

/-- Reads one element at a time, up to the mark, the limit or the end. -/
def readUntil (mark : List α) (limit : Nat) (buf : List α) : List α → Read α
  | [] => ⟨.closed, buf, []⟩
  | b :: rest =>
      let buf := buf ++ [b]
      if mark <:+ buf then ⟨.ending, buf, rest⟩
      else if limit < buf.length then ⟨.limit, buf, rest⟩
      else readUntil mark limit buf rest

/-- What was read and what is left are the input. -/
theorem readUntil_append :
    (readUntil mark limit buf input).buf ++ (readUntil mark limit buf input).rest
      = buf ++ input := by
  induction input generalizing buf with
  | nil => rfl
  | cons b rest ih =>
      rw [readUntil]
      split
      · exact List.append_assoc buf [b] rest
      · split
        · exact List.append_assoc buf [b] rest
        · rw [ih]
          exact List.append_assoc buf [b] rest

/-- What the reader has read, by why it stopped. -/
structure Spec (mark : List α) (limit : Nat) (r : Read α) : Prop where
  ended : r.stop = .ending → Head mark r.buf
  closed : r.stop = .closed → Open mark r.buf ∧ r.rest = []
  limited : r.stop = .limit → Open mark r.buf ∧ r.buf.length = limit + 1
  length_le : r.buf.length ≤ limit + 1

/-- The reading from an open text on. -/
theorem readUntil_spec_of_open (hopen : Open mark buf) (hlen : buf.length ≤ limit) :
    Spec mark limit (readUntil mark limit buf input) := by
  induction input generalizing buf with
  | nil =>
      refine ⟨?_, fun _ => ⟨hopen, rfl⟩, ?_, Nat.le_succ_of_le hlen⟩
      · intro h
        cases h
      · intro h
        cases h
  | cons b rest ih =>
      have hlength : (buf ++ [b]).length = buf.length + 1 := List.length_append
      rw [readUntil]
      split
      next hend =>
        refine ⟨fun _ => hopen.isHead hend, ?_, ?_, by rw [hlength]; omega⟩
        · intro h
          cases h
        · intro h
          cases h
      next hend =>
        split
        next hlimit =>
          refine ⟨?_, ?_, fun _ => ⟨hopen.concat hend, ?_⟩, ?_⟩
          · intro h
            cases h
          · intro h
            cases h
          · show (buf ++ [b]).length = limit + 1
            omega
          · show (buf ++ [b]).length ≤ limit + 1
            omega
        next hlimit => exact ih (hopen.concat hend) (by omega)

/-- **Reading**: it stops at the mark, behind the limit, or at the end. -/
theorem readUntil_spec (h : mark ≠ []) : Spec mark limit (readUntil mark limit [] input) :=
  readUntil_spec_of_open (open_nil h) (Nat.zero_le _)

/-- What was read is the first part of the stream. -/
theorem buf_isPrefix : (readUntil mark limit [] stream).buf <+: stream :=
  ⟨_, readUntil_append⟩

/-- **The first mark** is where the reader stops, if it comes in time. -/
theorem readUntil_head (h : mark ≠ []) (hhead : Head mark top)
    (hlen : top.length ≤ limit + 1) :
    readUntil mark limit [] (top ++ rest) = ⟨.ending, top, rest⟩ := by
  have hspec := @readUntil_spec α mark (top ++ rest) limit _ h
  have happend := @readUntil_append α mark [] (top ++ rest) limit _
  have hbuf := @buf_isPrefix α mark (top ++ rest) limit _
  cases hr : readUntil mark limit [] (top ++ rest) with
  | mk stop buf left =>
      rw [hr] at hspec happend hbuf
      cases stop with
      | ending =>
          have heq : buf = top := (hspec.ended rfl).eq hhead hbuf (List.prefix_append _ _)
          subst heq
          have hrest : left = rest := List.append_cancel_left happend
          rw [hrest]
      | closed =>
          obtain ⟨hopen, hnil⟩ := hspec.closed rfl
          dsimp only at hopen hnil happend
          rw [hnil, List.append_nil, List.nil_append] at happend
          rw [happend] at hopen
          exact absurd hopen (hhead.not_open (List.prefix_append _ _))
      | limit =>
          obtain ⟨hopen, hlimit⟩ := hspec.limited rfl
          have hshort : top <+: buf :=
            List.prefix_of_prefix_length_le (List.prefix_append _ _) hbuf (hlen.trans hlimit.ge)
          exact absurd hopen (hhead.not_open hshort)

/-- What is open and within the limit begins what is read if it begins the
    input. -/
theorem isPrefix_buf_iff (h : mark ≠ []) (hopen : Open mark s) (hlen : s.length ≤ limit + 1) :
    s <+: (readUntil mark limit [] stream).buf ↔ s <+: stream := by
  constructor
  · intro hs
    exact hs.trans buf_isPrefix
  · intro hs
    have hspec := @readUntil_spec α mark stream limit _ h
    have happend := @readUntil_append α mark [] stream limit _
    rcases List.prefix_or_prefix_of_prefix hs (@buf_isPrefix α mark stream limit _) with hle | hle
    · exact hle
    · cases hstop : (readUntil mark limit [] stream).stop with
      | ending => exact absurd (hspec.ended hstop).1 (hopen _ hle)
      | closed =>
          rw [(hspec.closed hstop).2, List.append_nil, List.nil_append] at happend
          rw [happend]
          exact hs
      | limit =>
          refine List.prefix_of_prefix_length_le hs buf_isPrefix ?_
          rw [(hspec.limited hstop).2]
          exact hlen

end Reader
