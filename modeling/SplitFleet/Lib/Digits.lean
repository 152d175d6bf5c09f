import Mathlib.Tactic.Common
import SplitFleet.Lib.Python

set_option autoImplicit false

namespace SplitFleet.Lib

/-- The zeros of Unicode 14.0. The nine characters after each are its digits. -/
def digitZeros : List ℕ :=
  [0x30, 0x660, 0x6f0, 0x7c0, 0x966, 0x9e6, 0xa66, 0xae6, 0xb66, 0xbe6, 0xc66, 0xce6, 0xd66, 0xde6, 0xe50, 0xed0,
  0xf20, 0x1040, 0x1090, 0x17e0, 0x1810, 0x1946, 0x19d0, 0x1a80, 0x1a90, 0x1b50, 0x1bb0, 0x1c40, 0x1c50, 0xa620,
  0xa8d0, 0xa900, 0xa9d0, 0xa9f0, 0xaa50, 0xabf0, 0xff10, 0x104a0, 0x10d30, 0x11066, 0x110f0, 0x11136, 0x111d0,
  0x112f0, 0x11450, 0x114d0, 0x11650, 0x116c0, 0x11730, 0x118e0, 0x11950, 0x11c50, 0x11d50, 0x11da0, 0x16a60,
  0x16ac0, 0x16b50, 0x1d7ce, 0x1d7d8, 0x1d7e2, 0x1d7ec, 0x1d7f6, 0x1e140, 0x1e2f0, 0x1e950, 0x1fbf0]

/-- The characters that `str.isdigit` accepts and `int` does not, by ranges. -/
def otherDigits : List (ℕ × ℕ) :=
  [(0xb2, 0xb3), (0xb9, 0xb9), (0x1369, 0x1371), (0x19da, 0x19da), (0x2070, 0x2070), (0x2074, 0x2079),
  (0x2080, 0x2089), (0x2460, 0x2468), (0x2474, 0x247c), (0x2488, 0x2490), (0x24ea, 0x24ea), (0x24f5, 0x24fd),
  (0x24ff, 0x24ff), (0x2776, 0x277e), (0x2780, 0x2788), (0x278a, 0x2792), (0x10a40, 0x10a43), (0x10e60, 0x10e68),
  (0x11052, 0x1105a), (0x1f100, 0x1f10a)]

/-- `unicodedata.decimal(c)` -/
def decimal? (c : Char) : Option ℕ :=
  (digitZeros.find? fun z ↦ decide (z ≤ c.toNat ∧ c.toNat < z + 10)).map (c.toNat - ·)

/-- `c.isdigit()` -/
def isDigitChar (c : Char) : Bool :=
  (decimal? c).isSome || otherDigits.any fun range ↦ decide (range.1 ≤ c.toNat ∧ c.toNat ≤ range.2)

/-- `s.isdigit()` -/
def isDigit (s : String) : Bool := !s.toList.isEmpty && s.toList.all isDigitChar

def digitsValue (l : List Char) : Option ℕ := l.foldlM (fun n c ↦ (decimal? c).map (10 * n + ·)) 0

/-- `sys.int_info.default_max_str_digits` -/
def maxStrDigits : ℕ := 4300

/-- What may stand around a numeral. The separators 0x1c to 0x1f may not, although `str.isspace` accepts them. -/
def isSpaceChar (c : Char) : Bool :=
  c.toNat ∈ [0x20, 0x85, 0xa0, 0x1680, 0x2028, 0x2029, 0x202f, 0x205f, 0x3000] ∨
    0x9 ≤ c.toNat ∧ c.toNat ≤ 0xd ∨ 0x2000 ≤ c.toNat ∧ c.toNat ≤ 0x200a

/-- A numeral without the white space around it. -/
def strip (l : List Char) : List Char := ((l.dropWhile isSpaceChar).reverse.dropWhile isSpaceChar).reverse

/-- The sign of a numeral, and the rest of it. -/
def signOf : List Char → ℤ × List Char
  | '-' :: l => (-1, l)
  | '+' :: l => (1, l)
  | l => (1, l)

def tooManyDigits : PyError :=
  .valueError s!"Exceeds the limit ({maxStrDigits} digits) for integer string conversion"

/-- `int(s)`. Single underscores may stand between digits. -/
def intOfText (s : String) : Except PyError ℤ :=
  let numeral := signOf (strip s.toList)
  let runs := numeral.2.splitOn '_'
  if [] ∈ runs then .error (.valueError s!"invalid literal for int() with base 10: {pyRepr s}")
  else
    match digitsValue runs.flatten with
    | some n => if maxStrDigits < runs.flatten.length then .error tooManyDigits else .ok (numeral.1 * n)
    | none => .error (.valueError s!"invalid literal for int() with base 10: {pyRepr s}")

/-! ### Canonical texts -/

theorem decimal?_of_isDigit {c : Char} (h : c.isDigit = true) : decimal? c = some (c.toNat - '0'.toNat) := by
  have hc : 0x30 ≤ c.toNat ∧ c.toNat ≤ 0x39 := Char.isDigit_iff_toNat.mp h
  have hfound : digitZeros.find? (fun z ↦ decide (z ≤ c.toNat ∧ c.toNat < z + 10)) = some 0x30 :=
    List.find?_cons_of_pos (decide_eq_true ⟨hc.1, Nat.lt_succ_of_le hc.2⟩)
  rw [decimal?, hfound]
  rfl

theorem digitsValue_of_isDigit {l : List Char} (h : ∀ c ∈ l, c.isDigit = true) :
    digitsValue l = some (Nat.ofDigitChars 10 l 0) := by
  rw [digitsValue]
  generalize 0 = n
  induction l generalizing n with
  | nil => rfl
  | cons c l ih =>
    rw [List.foldlM_cons, decimal?_of_isDigit (h c List.mem_cons_self), Nat.ofDigitChars_cons]
    exact ih (fun d hd ↦ h d (List.mem_cons_of_mem c hd)) _

theorem isDigit_of_mem_repr {n : ℕ} : ∀ c ∈ (toString n).toList, c.isDigit = true := by
  intro c hc
  rw [Nat.toString_eq_repr, Nat.toList_repr] at hc
  exact Nat.isDigit_of_mem_toDigits (by decide) (by decide) hc

theorem digitsValue_toString (n : ℕ) : digitsValue (toString n).toList = some n := by
  rw [digitsValue_of_isDigit isDigit_of_mem_repr, Nat.toString_eq_repr, Nat.toList_repr,
    Nat.ofDigitChars_ten_toDigits]

theorem isDigit_toString (n : ℕ) : isDigit (toString n) = true := by
  rw [isDigit, Bool.and_eq_true]
  constructor
  · rw [Nat.toString_eq_repr, Nat.toList_repr, Bool.not_eq_true', List.isEmpty_eq_false_iff]
    exact Nat.toDigits_ne_nil
  · rw [List.all_eq_true]
    intro c hc
    rw [isDigitChar, decimal?_of_isDigit (isDigit_of_mem_repr c hc)]
    rfl

theorem strip_of_isDigit {l : List Char} (h : ∀ c ∈ l, c.isDigit = true) : strip l = l := by
  have hspace : ∀ c : Char, c.isDigit = true → isSpaceChar c = false := by
    intro c hc
    have hc : 0x30 ≤ c.toNat ∧ c.toNat ≤ 0x39 := Char.isDigit_iff_toNat.mp hc
    simp only [isSpaceChar, List.mem_cons, List.not_mem_nil, or_false, decide_eq_false_iff_not]
    omega
  have hdrop : ∀ m : List Char, (∀ c ∈ m, c.isDigit = true) → m.dropWhile isSpaceChar = m := by
    intro m hm
    cases m with
    | nil => rfl
    | cons c m => exact List.dropWhile_cons_of_neg (by rw [hspace c (hm c List.mem_cons_self)]; decide)
  rw [strip, hdrop l h, hdrop l.reverse fun c hc ↦ h c (List.mem_reverse.mp hc), List.reverse_reverse]

theorem signOf_of_isDigit {l : List Char} (h : ∀ c ∈ l, c.isDigit = true) : signOf l = (1, l) := by
  unfold signOf
  split
  · exact absurd (h '-' List.mem_cons_self) (by decide)
  · exact absurd (h '+' List.mem_cons_self) (by decide)
  · rfl

/-- `int(str(n))` -/
theorem intOfText_toString (n : ℕ) : intOfText (toString n) =
    if maxStrDigits < (toString n).length then .error tooManyDigits else .ok (n : ℤ) := by
  have hdigits := isDigit_of_mem_repr (n := n)
  have hunderscore : '_' ∉ (toString n).toList := fun hmem ↦ absurd (hdigits '_' hmem) (by decide)
  have hruns : (toString n).toList.splitOn '_' = [(toString n).toList] := List.splitOn_eq_singleton hunderscore
  have hne : (toString n).toList ≠ [] := by
    rw [Nat.toString_eq_repr, Nat.toList_repr]
    exact Nat.toDigits_ne_nil
  have hnil : [] ∉ [(toString n).toList] := fun hmem ↦ hne (List.mem_singleton.mp hmem).symm
  rw [intOfText, strip_of_isDigit hdigits, signOf_of_isDigit hdigits]
  dsimp only
  rw [hruns, if_neg hnil, List.flatten_singleton, digitsValue_toString, String.length_toList]
  dsimp only
  rw [Int.one_mul]

end SplitFleet.Lib
