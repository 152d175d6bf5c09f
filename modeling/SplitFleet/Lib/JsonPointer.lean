import Mathlib.Data.List.TakeWhile
import Mathlib.Tactic.Common

set_option autoImplicit false

namespace SplitFleet.Lib.JsonPointer

/-! ### Escapes -/

/-- `token.replace("~", "~0").replace("/", "~1")` -/
def escape (token : List Char) : List Char :=
  (token.flatMap fun c ↦ if c = '~' then ['~', '0'] else [c]).flatMap fun c ↦ if c = '/' then ['~', '1'] else [c]

/-- `text.replace(a + b, c)` -/
def replacePair (a b c : Char) : List Char → List Char
  | x :: y :: t => if x = a ∧ y = b then c :: replacePair a b c t else x :: replacePair a b c (y :: t)
  | t => t

/-- `part.replace("~1", "/").replace("~0", "~")` -/
def unescape (part : List Char) : List Char := replacePair '~' '0' '~' (replacePair '~' '1' '/' part)

/-- One character, escaped. -/
def escapeChar (c : Char) : List Char := if c = '~' then ['~', '0'] else if c = '/' then ['~', '1'] else [c]

theorem escape_eq (token : List Char) : escape token = token.flatMap escapeChar := by
  rw [escape, List.flatMap_assoc]
  congr 1
  funext c
  by_cases htilde : c = '~'
  · subst htilde
    rfl
  · by_cases hslash : c = '/'
    · subst hslash
      rfl
    · simp [escapeChar, htilde, hslash]

theorem slash_notMem_escape (token : List Char) : '/' ∉ escape token := by
  rw [escape_eq, List.mem_flatMap]
  rintro ⟨c, -, hc⟩
  rw [escapeChar] at hc
  split_ifs at hc with htilde hslash
  · exact absurd hc (by decide)
  · exact absurd hc (by decide)
  · exact hslash (List.mem_singleton.mp hc).symm

theorem replacePair_cons_of_ne {a b c x : Char} (hx : x ≠ a) (t : List Char) :
    replacePair a b c (x :: t) = x :: replacePair a b c t := by
  cases t with
  | nil => rfl
  | cons y t => rw [replacePair, if_neg fun h ↦ hx h.1]

/-- The slashes are back. -/
theorem replacePair_one (token : List Char) : replacePair '~' '1' '/' (escape token) =
    token.flatMap fun c ↦ if c = '~' then ['~', '0'] else [c] := by
  rw [escape_eq]
  induction token with
  | nil => rfl
  | cons c t ih =>
    rw [List.flatMap_cons, List.flatMap_cons, escapeChar]
    split_ifs with htilde hslash
    · rw [List.cons_append, List.cons_append, List.nil_append, replacePair, if_neg (by decide),
        replacePair_cons_of_ne (by decide), ih]
      rfl
    · rw [List.cons_append, List.cons_append, List.nil_append, replacePair, if_pos ⟨rfl, rfl⟩, ih, hslash]
      rfl
    · rw [List.cons_append, List.nil_append, replacePair_cons_of_ne htilde, ih]
      rfl

theorem unescape_escape (token : List Char) : unescape (escape token) = token := by
  rw [unescape, replacePair_one]
  induction token with
  | nil => rfl
  | cons c t ih =>
    rw [List.flatMap_cons]
    split_ifs with htilde
    · rw [List.cons_append, List.cons_append, List.nil_append, replacePair, if_pos ⟨rfl, rfl⟩, ih, htilde]
    · rw [List.cons_append, List.nil_append, replacePair_cons_of_ne htilde, ih]

theorem escape_injective : Function.Injective escape := by
  intro s t h
  rw [← unescape_escape s, h, unescape_escape]

/-- A text without tildes is not escaped. -/
theorem unescape_of_notMem {part : List Char} (h : '~' ∉ part) : unescape part = part := by
  have hone : ∀ b c (t : List Char), '~' ∉ t → replacePair '~' b c t = t := by
    intro b c t ht
    induction t with
    | nil => rfl
    | cons x t ih =>
      rw [List.mem_cons, not_or] at ht
      rw [replacePair_cons_of_ne (Ne.symm ht.1), ih ht.2]
  rw [unescape, hone _ _ _ h, hone _ _ _ h]

/-! ### Paths -/

/-- `path.split("/")[1:]` -/
def parts (path : List Char) : List (List Char) := (path.splitOn '/').tail

/-- Nothing, or a slash and more. -/
def Inside (t : List Char) : Prop := t = [] ∨ ∃ u, t = '/' :: u

theorem splitOn_append {part t : List Char} (hpart : '/' ∉ part) (ht : Inside t) :
    (part ++ t).splitOn '/' = part :: parts t := by
  obtain rfl | ⟨u, rfl⟩ := ht
  · rw [List.append_nil, List.splitOn_eq_singleton hpart]
    rfl
  · rw [parts, List.splitOn_append_cons_self, List.splitOn_eq_singleton hpart]
    rfl

/-- The first part of a path. -/
theorem parts_cons {part t : List Char} (hpart : '/' ∉ part) (ht : Inside t) :
    parts ('/' :: (part ++ t)) = part :: parts t := by
  have hhead := List.splitOn_append_cons_self [] (part ++ t) (a := '/')
  rw [List.nil_append] at hhead
  rw [parts, hhead, splitOn_append hpart ht]
  rfl

/-- Where a part ends is known from the slash behind it. -/
theorem part_append_inj {p q t u : List Char} (hp : '/' ∉ p) (hq : '/' ∉ q) (ht : Inside t) (hu : Inside u)
    (h : p ++ t = q ++ u) : p = q ∧ t = u := by
  have hsplit := congrArg (List.splitOn '/') h
  rw [splitOn_append hp ht, splitOn_append hq hu] at hsplit
  have hpq := (List.cons.inj hsplit).1
  subst hpq
  exact ⟨rfl, List.append_cancel_left h⟩

end SplitFleet.Lib.JsonPointer
