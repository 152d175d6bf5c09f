import Mathlib.Data.List.TakeWhile
import SplitFleet.Lib.Digits

set_option autoImplicit false

namespace SplitFleet.Lib

abbrev CodePoint := Fin 0x110000

/-- A text of Python. Unlike a `String` it may hold surrogates. -/
abbrev Text := List CodePoint

def codePoint (n : ℕ) : CodePoint := Fin.ofNat 0x110000 n

def Text.ofString (s : String) : Text := s.toList.map fun c ↦ codePoint c.toNat

namespace JsonText

/-- What `json.loads` returns. The keys of an object are in the order of their first assignments. -/
inductive Value
  | null
  | bool (b : Bool)
  | int (z : ℤ)
  | float (x : Float.Model)
  | str (s : Text)
  | arr (items : List Value)
  | obj (fields : List (Text × Value))

/-- A function that reads a value at the start of a text. -/
abbrev Reader := List Char → Except PyError (Value × List Char)

def decodeError (message : String) : PyError := .raised "JSONDecodeError" message

def recursionError : PyError := .raised "RecursionError" "maximum recursion depth exceeded while decoding JSON"

def isBlank (c : Char) : Bool := c = ' ' || c = '\t' || c = '\n' || c = '\r'

def skip (t : List Char) : List Char := t.dropWhile isBlank

/-! ### Strings -/

def quote : Char := '\x22'

def backslash : Char := '\x5c'

def hexDigit? (c : Char) : Option ℕ :=
  if 48 ≤ c.toNat ∧ c.toNat ≤ 57 then some (c.toNat - 48)
  else if 97 ≤ c.toNat ∧ c.toNat ≤ 102 then some (c.toNat - 87)
  else if 65 ≤ c.toNat ∧ c.toNat ≤ 70 then some (c.toNat - 55)
  else none

/-- The characters that `dumps` writes behind a backslash, and what they stand for. -/
def shortEscapes : List (Char × ℕ) :=
  [(quote, 34), (backslash, 92), ('b', 8), ('f', 12), ('n', 10), ('r', 13), ('t', 9)]

/-- Where the scanner is in a string: `left` digits of an escape are to come, `value` is read of it. -/
inductive Mode
  | plain
  | escape
  | hex (left value : ℕ)

/-- The characters of a string up to the closing quote. A unit comes with whether it was written as four digits. -/
def scanUnits : Mode → List Char → Except PyError (List (ℕ × Bool) × List Char)
  | _, [] => .error (decodeError "Unterminated string starting at")
  | .plain, c :: t =>
    if c = quote then .ok ([], t)
    else if c = backslash then scanUnits .escape t
    else if c.toNat < 32 then .error (decodeError "Invalid control character at")
    else (scanUnits .plain t).map fun p ↦ ((c.toNat, false) :: p.1, p.2)
  | .escape, c :: t =>
    if c = 'u' then scanUnits (.hex 3 0) t
    else
      match (('/', 47) :: shortEscapes).find? (·.1 = c) with
      | some p => (scanUnits .plain t).map fun q ↦ ((p.2, false) :: q.1, q.2)
      | none => .error (decodeError "Invalid \\escape")
  | .hex left value, c :: t =>
    match hexDigit? c with
    | none => .error (decodeError "Invalid \\uXXXX escape")
    | some d =>
      match left with
      | 0 => (scanUnits .plain t).map fun p ↦ ((16 * value + d, true) :: p.1, p.2)
      | left + 1 => scanUnits (.hex left (16 * value + d)) t

def isHigh (n : ℕ) : Bool := 0xd800 ≤ n && n ≤ 0xdbff

def isLow (n : ℕ) : Bool := 0xdc00 ≤ n && n ≤ 0xdfff

/-- `Py_UNICODE_JOIN_SURROGATES` -/
def join (high low : ℕ) : CodePoint := codePoint (0x10000 + (high - 0xd800) * 1024 + (low - 0xdc00))

/-- Two escapes that are a pair of surrogates are one character. -/
def joinPairs : List (ℕ × Bool) → Text
  | [] => []
  | [u] => [codePoint u.1]
  | u :: v :: l =>
    if u.2 ∧ v.2 ∧ isHigh u.1 ∧ isLow v.1 then join u.1 v.1 :: joinPairs l else codePoint u.1 :: joinPairs (v :: l)

/-- `scanstring` behind the opening quote. -/
def scanString (t : List Char) : Except PyError (Text × List Char) :=
  (scanUnits .plain t).map fun p ↦ (joinPairs p.1, p.2)

/-! ### Numbers -/

def wholePart? : List Char → Option (List Char × List Char)
  | [] => none
  | c :: t =>
    if c = '0' then some (['0'], t)
    else if c.isDigit then some ((c :: t).takeWhile Char.isDigit, (c :: t).dropWhile Char.isDigit)
    else none

/-- A point with digits behind it. -/
def fraction? : List Char → Option (List Char × List Char)
  | [] => none
  | c :: t =>
    if c = '.' ∧ t.takeWhile Char.isDigit ≠ [] then some (t.takeWhile Char.isDigit, t.dropWhile Char.isDigit)
    else none

def exponent? : List Char → Option (ℤ × List Char)
  | [] => none
  | c :: t =>
    if (c = 'e' ∨ c = 'E') ∧ (signOf t).2.takeWhile Char.isDigit ≠ [] then
      some ((signOf t).1 * Nat.ofDigitChars 10 ((signOf t).2.takeWhile Char.isDigit) 0,
        (signOf t).2.dropWhile Char.isDigit)
    else none

/-- The double nearest to a decimal number. -/
def nearest (negative : Bool) (whole fraction : List Char) (exponent : ℤ) : Float.Model :=
  let x := Float.Model.ofScientific (Nat.ofDigitChars 10 (whole ++ fraction) 0) (exponent - fraction.length)
  if negative then -x else x

def minus? (t : List Char) : Bool := t.head? = some '-'

/-- `_match_number` -/
def scanNumber : Reader := fun t ↦
  match wholePart? (if minus? t then t.tail else t) with
  | none => .error (decodeError "Expecting value")
  | some (whole, u) =>
    match fraction? u with
    | none =>
      match exponent? u with
      | none =>
        if maxStrDigits < whole.length then .error tooManyDigits
        else .ok (.int ((if minus? t then -1 else 1) * Nat.ofDigitChars 10 whole 0), u)
      | some (e, w) => .ok (.float (nearest (minus? t) whole [] e), w)
    | some (fraction, v) =>
      match exponent? v with
      | none => .ok (.float (nearest (minus? t) whole fraction 0), v)
      | some (e, w) => .ok (.float (nearest (minus? t) whole fraction e), w)

/-! ### Values -/

def nan : Float.Model := .pack .notANumber

def infinity : Float.Model := .pack (.infinity .positive)

def literals : List (String × Value) :=
  [("null", .null), ("true", .bool true), ("false", .bool false), ("NaN", .float nan), ("Infinity", .float infinity),
    ("-Infinity", .float (-infinity))]

def literal? (t : List Char) : Option (Value × List Char) :=
  literals.findSome? fun p ↦ (p.1.toList.isPrefixOf? t).map fun u ↦ (p.2, u)

/-- For more turns than the text has characters. -/
def outOfTurns : PyError := .raised "AssertionError" ""

/-- Items with commas between them, up to the closing character. -/
def scanSeparated {α : Type} (closing : Char) (item : List Char → Except PyError (α × List Char)) :
    ℕ → List Char → Except PyError (List α × List Char)
  | 0, _ => .error outOfTurns
  | turns + 1, t => do
    let (a, t) ← item t
    match skip t with
    | [] => .error (decodeError "Expecting ',' delimiter")
    | c :: t =>
      if c = closing then return ([a], t)
      else if c = ',' then do
        let (items, t) ← scanSeparated closing item turns (skip t)
        return (a :: items, t)
      else .error (decodeError "Expecting ',' delimiter")

/-- What stands behind an opening bracket or brace. -/
def scanContainer {α : Type} (closing : Char) (item : List Char → Except PyError (α × List Char)) (t : List Char) :
    Except PyError (List α × List Char) :=
  if (skip t).head? = some closing then .ok ([], (skip t).tail)
  else scanSeparated closing item ((skip t).length + 1) (skip t)

/-- A key and its value. -/
def scanField (scan : Reader) : List Char → Except PyError ((Text × Value) × List Char)
  | [] => .error (decodeError "Expecting property name enclosed in double quotes")
  | c :: t =>
    if c = quote then do
      let (key, t) ← scanString t
      match skip t with
      | [] => .error (decodeError "Expecting ':' delimiter")
      | c :: t =>
        if c = ':' then do
          let (v, t) ← scan (skip t)
          return ((key, v), t)
        else .error (decodeError "Expecting ':' delimiter")
    else .error (decodeError "Expecting property name enclosed in double quotes")

/-- The dictionary of the fields: a key that comes again gets the later value. -/
def assignAll (fields : List (Text × Value)) : List (Text × Value) :=
  fields.foldl (fun d p ↦ Dict.assign d p.1 p.2) []

def scanArray (scan : Reader) (t : List Char) : Except PyError (Value × List Char) :=
  (scanContainer ']' scan t).map fun p ↦ (.arr p.1, p.2)

def scanObject (scan : Reader) (t : List Char) : Except PyError (Value × List Char) :=
  (scanContainer '}' (scanField scan) t).map fun p ↦ (.obj (assignAll p.1), p.2)

/-- One step of `scan_once`, which reads what stands in a container with `inner`. There is none at the end of the
stack. -/
def scanWith (inner : Option Reader) : Reader
  | [] => .error (decodeError "Expecting value")
  | c :: t =>
    if c = quote then (scanString t).map fun p ↦ (.str p.1, p.2)
    else if c = '{' then inner.elim (.error recursionError) fun scan ↦ scanObject scan t
    else if c = '[' then inner.elim (.error recursionError) fun scan ↦ scanArray scan t
    else (literal? (c :: t)).elim (scanNumber (c :: t)) .ok

/-- `scan_once`, where the stack has room for `depth` nested containers. -/
def scanOnce : ℕ → Reader
  | 0 => scanWith none
  | depth + 1 => scanWith (some (scanOnce depth))

def byteOrderMark : Char := '\ufeff'

/-- `json.loads(s)` -/
def loads (depth : ℕ) (s : List Char) : Except PyError Value :=
  if s.head? = some byteOrderMark then .error (decodeError "Unexpected UTF-8 BOM (decode using utf-8-sig)")
  else do
    let (v, t) ← scanOnce depth (skip s)
    if skip t = [] then return v else .error (decodeError "Extra data")

/-! ### What a reader returns -/

/-- The exceptions of `json.loads`. -/
inductive ScanError : PyError → Prop
  | decode (message : String) : ScanError (decodeError message)
  | recursion : ScanError recursionError
  | digits : ScanError tooManyDigits

/-- The rest is shorter than `n`, or the exception is one of these. -/
def Within {α : Type} (n : ℕ) : Except PyError (α × List Char) → Prop
  | .ok p => p.2.length < n
  | .error e => ScanError e

namespace Within

variable {α β : Type} {m n : ℕ} {x : Except PyError (α × List Char)}

theorem map (h : Within n x) (f : α → β) : Within n (x.map fun p ↦ (f p.1, p.2)) := by
  cases x with
  | error e => exact h
  | ok p => exact h

theorem bind {f : α × List Char → Except PyError (β × List Char)} (h : Within m x)
    (hf : ∀ a u, u.length < m → Within n (f (a, u))) : Within n (x >>= f) := by
  cases x with
  | error e => exact h
  | ok p => exact hf p.1 p.2 h

theorem mono (h : Within m x) (hmn : m ≤ n) : Within n x := by
  cases x with
  | error e => exact h
  | ok p => exact Nat.lt_of_lt_of_le h hmn

end Within

theorem length_skip_le (t : List Char) : (skip t).length ≤ t.length := List.length_dropWhile_le isBlank t

theorem scanUnits_within (mode : Mode) (t : List Char) : Within t.length (scanUnits mode t) := by
  induction t generalizing mode with
  | nil =>
    cases mode with
    | plain | escape | hex => exact .decode _
  | cons c t ih =>
    have hstep (mode : Mode) : Within (c :: t).length (scanUnits mode t) := (ih mode).mono (Nat.le_succ _)
    cases mode with
    | plain =>
      rw [scanUnits]
      split_ifs with hquote hback hcontrol
      · exact Nat.lt_succ_self _
      · exact hstep .escape
      · exact .decode _
      · exact (hstep .plain).map _
    | escape =>
      rw [scanUnits]
      split_ifs with hu
      · exact hstep _
      · cases (('/', 47) :: shortEscapes).find? (·.1 = c) with
        | none => exact .decode _
        | some p => exact (hstep .plain).map _
    | hex left value =>
      rw [scanUnits]
      cases hexDigit? c with
      | none => exact .decode _
      | some d =>
        cases left with
        | zero => exact (hstep .plain).map _
        | succ left => exact hstep _

theorem scanString_within (t : List Char) : Within t.length (scanString t) := (scanUnits_within .plain t).map joinPairs

theorem length_of_wholePart? {t whole u : List Char} (h : wholePart? t = some (whole, u)) : u.length < t.length := by
  cases t with
  | nil => cases h
  | cons c t =>
    rw [wholePart?] at h
    split_ifs at h with hzero hdigit
    · cases h
      exact Nat.lt_succ_self _
    · cases h
      rw [List.dropWhile_cons_of_pos hdigit]
      exact Nat.lt_succ_of_le (List.length_dropWhile_le _ t)

theorem length_of_fraction? {t fraction u : List Char} (h : fraction? t = some (fraction, u)) :
    u.length ≤ t.length := by
  cases t with
  | nil => cases h
  | cons c t =>
    rw [fraction?] at h
    split_ifs at h
    cases h
    exact (List.length_dropWhile_le _ t).trans (Nat.le_succ _)

theorem length_signOf_le (t : List Char) : (signOf t).2.length ≤ t.length := by
  unfold signOf
  split
  · exact Nat.le_succ _
  · exact Nat.le_succ _
  · exact le_rfl

theorem length_of_exponent? {t u : List Char} {e : ℤ} (h : exponent? t = some (e, u)) : u.length ≤ t.length := by
  cases t with
  | nil => cases h
  | cons c t =>
    rw [exponent?] at h
    split_ifs at h
    cases h
    exact ((List.length_dropWhile_le _ _).trans (length_signOf_le t)).trans (Nat.le_succ _)

theorem scanNumber_within (t : List Char) : Within t.length (scanNumber t) := by
  have htail : (if minus? t then t.tail else t).length ≤ t.length := by
    split_ifs
    · exact (List.length_tail).trans_le (Nat.sub_le _ _)
    · exact le_rfl
  rw [scanNumber]
  cases hwhole : wholePart? (if minus? t then t.tail else t) with
  | none => exact .decode _
  | some p =>
    have hu := (length_of_wholePart? hwhole).trans_le htail
    dsimp only
    cases hfraction : fraction? p.2 with
    | none =>
      dsimp only
      cases hexponent : exponent? p.2 with
      | none =>
        dsimp only
        by_cases hlong : maxStrDigits < p.1.length
        · rw [if_pos hlong]
          exact .digits
        · rw [if_neg hlong]
          exact hu
      | some q => exact (length_of_exponent? hexponent).trans_lt hu
    | some q =>
      have hv := (length_of_fraction? hfraction).trans_lt hu
      dsimp only
      cases hexponent : exponent? q.2 with
      | none => exact hv
      | some r => exact (length_of_exponent? hexponent).trans_lt hv

theorem length_of_literal? {t u : List Char} {v : Value} (h : literal? t = some (v, u)) : u.length < t.length := by
  obtain ⟨p, hp, hsome⟩ := List.exists_of_findSome?_eq_some h
  obtain ⟨u', hu', hsome⟩ := Option.map_eq_some_iff.mp hsome
  cases hsome
  have hlength : ∀ p ∈ literals, 0 < p.1.toList.length := by decide +kernel
  have happend := List.isPrefixOf?_eq_some_iff_append_eq.mp hu'
  rw [← happend, List.length_append]
  have := hlength p hp
  omega

section Containers

variable {α : Type} {closing : Char} {item : List Char → Except PyError (α × List Char)}

theorem scanSeparated_within (hitem : ∀ t, Within t.length (item t)) {turns : ℕ} {t : List Char}
    (h : t.length < turns) : Within t.length (scanSeparated closing item turns t) := by
  induction turns generalizing t with
  | zero => exact absurd h (Nat.not_lt_zero _)
  | succ turns ih =>
    refine (hitem t).bind fun a u hu ↦ ?_
    have hskip := length_skip_le u
    dsimp only
    split
    · exact .decode _
    · next c w hw =>
      rw [hw, List.length_cons] at hskip
      by_cases hclosing : c = closing
      · rw [if_pos hclosing]
        exact (by omega : w.length < t.length)
      · rw [if_neg hclosing]
        by_cases hcomma : c = ','
        · have hw' := length_skip_le w
          rw [if_pos hcomma]
          exact ((ih (by omega)).mono (n := t.length) (by omega)).bind fun items x hx ↦ hx
        · rw [if_neg hcomma]
          exact .decode _

theorem scanContainer_within (hitem : ∀ t, Within t.length (item t)) (t : List Char) :
    Within (t.length + 1) (scanContainer closing item t) := by
  have hskip := length_skip_le t
  rw [scanContainer]
  by_cases hclosing : (skip t).head? = some closing
  · rw [if_pos hclosing]
    have htail : (skip t).tail.length ≤ (skip t).length := List.length_tail.trans_le (Nat.sub_le _ _)
    exact Nat.lt_succ_of_le (htail.trans hskip)
  · rw [if_neg hclosing]
    exact (scanSeparated_within hitem (Nat.lt_succ_self _)).mono (by omega)

end Containers

section Values

variable {scan : Reader} (hscan : ∀ t, Within t.length (scan t))

include hscan

theorem scanField_within (t : List Char) : Within t.length (scanField scan t) := by
  cases t with
  | nil => exact .decode _
  | cons c t =>
    rw [scanField]
    by_cases hquote : c = quote
    · rw [if_pos hquote]
      refine (scanString_within t).bind fun key u hu ↦ ?_
      have hskip := length_skip_le u
      dsimp only
      split
      · exact .decode _
      · next d w hw =>
        rw [hw, List.length_cons] at hskip
        by_cases hcolon : d = ':'
        · have hw' := length_skip_le w
          rw [if_pos hcolon]
          exact ((hscan (skip w)).mono (n := (c :: t).length) (by rw [List.length_cons]; omega)).bind fun v x hx ↦ hx
        · rw [if_neg hcolon]
          exact .decode _
    · rw [if_neg hquote]
      exact .decode _

end Values

theorem scanWith_within {inner : Option Reader} (hinner : ∀ scan ∈ inner, ∀ t, Within t.length (scan t))
    (t : List Char) : Within t.length (scanWith inner t) := by
  cases t with
  | nil => exact .decode _
  | cons c t =>
    rw [scanWith]
    by_cases hquote : c = quote
    · rw [if_pos hquote]
      exact ((scanString_within t).mono (Nat.le_succ _)).map _
    · rw [if_neg hquote]
      by_cases hbrace : c = '{'
      · rw [if_pos hbrace]
        cases inner with
        | none => exact .recursion
        | some scan =>
          exact (scanContainer_within (scanField_within (hinner scan rfl)) t).map fun fields ↦ Value.obj (assignAll fields)
      · rw [if_neg hbrace]
        by_cases hbracket : c = '['
        · rw [if_pos hbracket]
          cases inner with
          | none => exact .recursion
          | some scan => exact (scanContainer_within (hinner scan rfl) t).map Value.arr
        · rw [if_neg hbracket]
          cases hliteral : literal? (c :: t) with
          | none => exact scanNumber_within (c :: t)
          | some p => exact length_of_literal? hliteral

theorem scanOnce_within (depth : ℕ) (t : List Char) : Within t.length (scanOnce depth t) := by
  induction depth generalizing t with
  | zero => exact scanWith_within (by simp) t
  | succ depth ih =>
    apply scanWith_within
    rintro scan hscan
    obtain rfl := Option.mem_some_iff.mp hscan
    exact ih

/-- Every text is read or refused with one of three exceptions. -/
theorem loads_error {depth : ℕ} {s : List Char} {e : PyError} (h : loads depth s = .error e) : ScanError e := by
  rw [loads] at h
  split_ifs at h
  · cases h
    exact .decode _
  · have hwithin := scanOnce_within depth (skip s)
    cases hscan : scanOnce depth (skip s) with
    | error e' =>
      rw [hscan] at h hwithin
      cases h
      exact hwithin
    | ok p =>
      rw [hscan, ok_bind] at h
      by_cases hrest : skip p.2 = []
      · cases (if_pos hrest).symm.trans h
      · cases (if_neg hrest).symm.trans h
        exact .decode _

end JsonText

end SplitFleet.Lib
