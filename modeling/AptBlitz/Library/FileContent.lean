import Mathlib.Data.List.Basic

/-! # The content of a file under positional writes

    A file is the list of its bytes.  `overwrite zero f off d` is its content
    after the bytes `d` were written at offset `off`; writing past the end
    leaves a gap of zeros, writing nothing changes nothing.  The rules say
    what a reader finds at each offset, for writes that stay inside the
    file. -/

namespace FileContent

variable {β : Type}

/-- The content of `f` after writing `d` at offset `off`. -/
def overwrite (zero : β) (f : List β) (off : Nat) : List β → List β
  | [] => f
  | b :: d =>
      f.take off ++ List.replicate (off - f.length) zero ++ (b :: d)
        ++ f.drop (off + (d.length + 1))

variable {zero : β} {f d d₁ d₂ : List β} {off x : Nat}

/-- A write inside a file, in three parts. -/
theorem overwrite_inside (h : off + d.length ≤ f.length) :
    overwrite zero f off d = f.take off ++ d ++ f.drop (off + d.length) := by
  cases d with
  | nil =>
      show f = f.take off ++ [] ++ f.drop (off + 0)
      rw [List.append_nil, Nat.add_zero, List.take_append_drop]
  | cons b d =>
      have hgap : off - f.length = 0 := by omega
      show f.take off ++ List.replicate (off - f.length) zero ++ (b :: d)
        ++ f.drop (off + (d.length + 1)) = _
      rw [hgap, List.replicate_zero, List.append_nil, List.length_cons]

/-- A write inside the file keeps its length. -/
theorem length_overwrite (h : off + d.length ≤ f.length) :
    (overwrite zero f off d).length = f.length := by
  rw [overwrite_inside h]
  simp only [List.length_append, List.length_take, List.length_drop]
  omega

/-- What a reader finds after a write: the written bytes where they were
    written, the old ones elsewhere. -/
theorem getElem?_overwrite (h : off + d.length ≤ f.length) :
    (overwrite zero f off d)[x]?
      = if off ≤ x ∧ x < off + d.length then d[x - off]? else f[x]? := by
  have htake : (f.take off).length = off := by
    rw [List.length_take]; omega
  rw [overwrite_inside h]
  by_cases hlo : off ≤ x
  · by_cases hhi : x < off + d.length
    · rw [if_pos ⟨hlo, hhi⟩, List.getElem?_append_left (by
          rw [List.length_append, htake]; exact hhi),
        List.getElem?_append_right (by omega), htake]
    · rw [if_neg (fun hc => hhi hc.2), List.getElem?_append_right (by
          rw [List.length_append, htake]; omega), List.getElem?_drop,
        List.length_append, htake]
      congr 1
      omega
  · rw [if_neg (fun hc => hlo hc.1), List.append_assoc,
      List.getElem?_append_left (by omega), List.getElem?_take,
      if_pos (by omega)]

/-- Offsets outside the written range keep their byte. -/
theorem getElem?_overwrite_of_outside (h : off + d.length ≤ f.length)
    (hx : x < off ∨ off + d.length ≤ x) :
    (overwrite zero f off d)[x]? = f[x]? := by
  rw [getElem?_overwrite h, if_neg (by omega)]

/-- Two writes one after the other are one write of both. -/
theorem overwrite_append (h : off + (d₁ ++ d₂).length ≤ f.length) :
    overwrite zero (overwrite zero f off d₁) (off + d₁.length) d₂
      = overwrite zero f off (d₁ ++ d₂) := by
  rw [List.length_append] at h
  have h₁ : off + d₁.length ≤ f.length := by omega
  have hlen : (overwrite zero f off d₁).length = f.length := length_overwrite h₁
  have h₂ : off + d₁.length + d₂.length ≤ (overwrite zero f off d₁).length := by
    omega
  have h₁₂ : off + (d₁ ++ d₂).length ≤ f.length := by
    rw [List.length_append]; omega
  apply List.ext_getElem?
  intro x
  rw [getElem?_overwrite h₂, getElem?_overwrite h₁, getElem?_overwrite h₁₂,
    List.length_append]
  by_cases hx₂ : off + d₁.length ≤ x ∧ x < off + d₁.length + d₂.length
  · rw [if_pos hx₂, if_pos (by omega),
      List.getElem?_append_right (by omega)]
    congr 1
    omega
  · rw [if_neg hx₂]
    by_cases hx₁ : off ≤ x ∧ x < off + d₁.length
    · rw [if_pos hx₁, if_pos (by omega),
        List.getElem?_append_left (by omega)]
    · rw [if_neg hx₁, if_neg (by omega)]

end FileContent
