import SplitFleet.Lib.Python

set_option autoImplicit false

namespace SplitFleet.Lib.TextLines

/-- The characters that `str.splitlines` ends a line at. -/
def isBoundary (c : Char) : Bool :=
  [0x0a, 0x0b, 0x0c, 0x0d, 0x1c, 0x1d, 0x1e, 0x85, 0x2028, 0x2029].contains c.toNat

/-- `str.splitlines()` -/
def splitlines : List Char → List (List Char)
  | [] => []
  | '\r' :: '\n' :: t => [] :: splitlines t
  | c :: t =>
    if isBoundary c then [] :: splitlines t
    else
      match splitlines t with
      | [] => [[c]]
      | l :: lines => (c :: l) :: lines

/-- What a file opened as text gives for the newlines in it. -/
def universalNewlines : List Char → List Char
  | [] => []
  | '\r' :: '\n' :: t => '\n' :: universalNewlines t
  | c :: t => (if c = '\r' then '\n' else c) :: universalNewlines t

theorem universalNewlines_of_notMem {t : List Char} (h : '\r' ∉ t) : universalNewlines t = t := by
  fun_induction universalNewlines t with
  | case1 => rfl
  | case2 t => exact absurd List.mem_cons_self h
  | case3 c t hpair ih =>
    rw [List.mem_cons, not_or] at h
    rw [if_neg (Ne.symm h.1), ih h.2]

theorem splitlines_boundary {c : Char} (hc : isBoundary c = true) (hreturn : c ≠ '\r') (t : List Char) :
    splitlines (c :: t) = [] :: splitlines t := by
  rw [splitlines, if_pos hc]
  exact fun _ h ↦ absurd h hreturn

theorem splitlines_cons {c : Char} (hc : ¬isBoundary c = true) {t l : List Char} {lines : List (List Char)}
    (ht : splitlines t = l :: lines) : splitlines (c :: t) = (c :: l) :: lines := by
  have hreturn : c ≠ '\r' := by
    rintro rfl
    exact hc (by decide)
  rw [splitlines, if_neg hc, ht]
  exact fun _ h ↦ absurd h hreturn

/-- A line and what follows it. -/
theorem splitlines_append {l : List Char} (hl : ∀ c ∈ l, ¬isBoundary c = true) {c : Char} (hc : isBoundary c = true)
    (hreturn : c ≠ '\r') (t : List Char) : splitlines (l ++ c :: t) = l :: splitlines t := by
  induction l with
  | nil => exact splitlines_boundary hc hreturn t
  | cons d l ih =>
    rw [List.forall_mem_cons] at hl
    exact splitlines_cons hl.1 (ih hl.2)

/-- A text with a boundary is cut at the first one. -/
theorem exists_cut {t : List Char} (h : ∃ c ∈ t, isBoundary c = true) :
    ∃ l c u, t = l ++ c :: u ∧ isBoundary c = true ∧ ∀ d ∈ l, ¬isBoundary d = true := by
  induction t with
  | nil =>
    obtain ⟨c, hc, -⟩ := h
    exact absurd hc List.not_mem_nil
  | cons d t ih =>
    by_cases hd : isBoundary d = true
    · exact ⟨[], d, t, rfl, hd, by simp⟩
    · obtain ⟨c, hc, hboundary⟩ := h
      have hne : c ≠ d := by
        rintro rfl
        exact hd hboundary
      obtain ⟨l, e, u, rfl, he, hl⟩ := ih ⟨c, List.mem_of_ne_of_mem hne hc, hboundary⟩
      exact ⟨d :: l, e, u, rfl, he, List.forall_mem_cons.mpr ⟨hd, hl⟩⟩

end SplitFleet.Lib.TextLines
