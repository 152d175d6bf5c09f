import Mathlib.Data.String.Basic
import Mathlib.Tactic.Common

set_option autoImplicit false

namespace SplitFleet.Lib

open String in
/-- Where a part was begun at `l` and has reached `m`. -/
theorem splitOnAux_of_valid (c : Char) (l m r : List Char) (acc : List String) :
    splitOnAux (ofList (l ++ m ++ r)) (ofList [c]) ⟨utf8Len l⟩ ⟨utf8Len l + utf8Len m⟩ 0 acc =
      acc.reverse ++ (List.splitOnPPrepend (· == c) r m.reverse).map ofList := by
  have hget : Pos.Raw.get (ofList [c]) 0 = c := by simpa using get_of_valid [] [c]
  have hnext : Pos.Raw.next (ofList [c]) 0 = ⟨c.utf8Size⟩ := by simpa using next_of_valid [] c []
  have hend : Pos.Raw.atEnd (ofList [c]) ⟨c.utf8Size⟩ = true := by
    simp only [atEnd_iff, rawEndPos_ofList, utf8Len_cons, utf8Len_nil, Pos.Raw.mk_le_mk]
    omega
  induction r generalizing l m acc with
  | nil =>
    have hend : Pos.Raw.atEnd (ofList (l ++ m ++ [])) ⟨utf8Len l + utf8Len m⟩ = true := by
      simp only [atEnd_iff, rawEndPos_ofList, utf8Len_append, utf8Len_nil, Pos.Raw.mk_le_mk]
      omega
    rw [splitOnAux, if_pos hend, extract_of_valid l m []]
    simp
  | cons d r ih =>
    have hat : ¬Pos.Raw.atEnd (ofList (l ++ m ++ d :: r)) ⟨utf8Len l + utf8Len m⟩ = true := by
      have hd := Char.utf8Size_pos d
      simp only [atEnd_iff, rawEndPos_ofList, utf8Len_append, utf8Len_cons, Pos.Raw.mk_le_mk]
      omega
    have hd : Pos.Raw.get (ofList (l ++ m ++ d :: r)) ⟨utf8Len l + utf8Len m⟩ = d := by
      simpa using get_of_valid (l ++ m) (d :: r)
    have hn : Pos.Raw.next (ofList (l ++ m ++ d :: r)) ⟨utf8Len l + utf8Len m⟩ =
        ⟨utf8Len l + utf8Len m + d.utf8Size⟩ := by
      simpa [Nat.add_assoc] using next_of_valid (l ++ m) d r
    rw [splitOnAux, if_neg hat, hd, hget]
    by_cases h : d = c
    · subst h
      have hback : Pos.Raw.unoffsetBy ⟨utf8Len l + utf8Len m + d.utf8Size⟩ ⟨d.utf8Size⟩ = ⟨utf8Len l + utf8Len m⟩ := by
        simp [Pos.Raw.unoffsetBy]
      have ih := ih (l ++ m ++ [d]) [] (ofList m :: acc)
      simp only [beq_self_eq_true, if_true, hn, hnext, hend, hback, extract_of_valid l m (d :: r)]
      simp only [List.append_assoc, List.nil_append, List.cons_append, utf8Len_append, utf8Len_cons, utf8Len_nil,
        Nat.add_zero, Nat.zero_add, ← Nat.add_assoc, List.reverse_nil] at ih
      simp only [List.append_assoc, List.splitOnPPrepend_cons_eq_if, beq_self_eq_true, if_true, ih]
      simp
    · have hback : Pos.Raw.unoffsetBy ⟨utf8Len l + utf8Len m⟩ 0 = ⟨utf8Len l + utf8Len m⟩ := by
        simp [Pos.Raw.unoffsetBy]
      have hne : (d == c) = false := by simp [h]
      have ih := ih l (m ++ [d]) acc
      simp only [hne, Bool.false_eq_true, if_false, hback, hn]
      simp only [List.append_assoc, List.cons_append, List.nil_append, utf8Len_append, utf8Len_cons, utf8Len_nil,
        Nat.zero_add, ← Nat.add_assoc] at ih
      simp only [List.append_assoc, List.splitOnPPrepend_cons_eq_if, hne, Bool.false_eq_true, if_false, ih]
      simp

/-- `text.split(c)` for a separator of one character. -/
theorem splitOn_singleton (c : Char) (s : String) :
    s.splitOn (String.ofList [c]) = (s.toList.splitOn c).map String.ofList := by
  have h := splitOnAux_of_valid c [] [] s.toList []
  have hne : (String.ofList [c] == "") = false := by simp
  rw [String.splitOn, hne]
  simpa [List.splitOn] using h

/-- Texts without the separator come back from the text that joins them. -/
theorem splitOn_intercalate (c : Char) {l : List String} (hne : l ≠ []) (h : ∀ s ∈ l, c ∉ s.toList) :
    ((String.ofList [c]).intercalate l).splitOn (String.ofList [c]) = l := by
  have hlists : ∀ s ∈ l.map String.toList, c ∉ s := by
    intro s hs
    obtain ⟨t, ht, rfl⟩ := List.mem_map.mp hs
    exact h t ht
  rw [splitOn_singleton, String.toList_intercalate, String.toList_ofList,
    List.splitOn_intercalate c hlists (by simpa using hne), List.map_map]
  simp

end SplitFleet.Lib
