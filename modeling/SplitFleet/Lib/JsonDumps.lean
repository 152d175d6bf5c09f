import Mathlib.Data.Finset.Card
import SplitFleet.Lib.FloatRepr
import SplitFleet.Lib.JsonWriter

set_option autoImplicit false

namespace SplitFleet.Lib.JsonText

/-- The options of `json.dumps`, and what it puts behind a comma and behind a colon. -/
structure Options where
  ensureAscii : Bool
  allowNan : Bool
  item : List Char
  key : List Char
  item_blank : ∀ c ∈ item, isBlank c = true
  key_blank : ∀ c ∈ key, isBlank c = true

/-- `json.dumps(v)` -/
def Options.standard : Options := ⟨true, true, [' '], [' '], by simp [isBlank], by simp [isBlank]⟩

/-- `separators=(",", ":")` -/
def Options.compact : Options := ⟨true, true, [], [], by simp, by simp⟩

def encodeRecursionError : PyError :=
  .raised "RecursionError" "maximum recursion depth exceeded while encoding a JSON object"

def surrogatesNotAllowed : PyError := .raised "UnicodeEncodeError" "surrogates not allowed"

def isSurrogate (c : CodePoint) : Bool := isHigh c.val || isLow c.val

/-- One character, as `ensure_ascii=False` writes it. -/
def escapeRaw (c : CodePoint) : List Char :=
  match shortEscape? c with
  | some p => [backslash, p.1]
  | none => if c.val < 32 then unicodeEscape c.val else [Char.ofNat c.val]

/-- A string. Without `ensure_ascii` there are no characters for surrogates. -/
def writeString (o : Options) (s : Text) : Except PyError (List Char) :=
  if o.ensureAscii then .ok (quoted s)
  else if s.any isSurrogate then .error surrogatesNotAllowed
  else .ok (quote :: s.flatMap escapeRaw ++ [quote])

/-- `int.__repr__` -/
def writeInt (z : ℤ) : Except PyError (List Char) :=
  let digits := Nat.toDigits 10 z.natAbs
  if maxStrDigits < digits.length then .error tooManyDigits
  else .ok (if z < 0 then '-' :: digits else digits)

def writeFloat (o : Options) (x : Float.Model) : Except PyError (List Char) :=
  if x.isFinite then .ok (floatRepr x)
  else if !o.allowNan then .error (.valueError "Out of range float values are not JSON compliant")
  else if x = nan then .ok "NaN".toList
  else if x = infinity then .ok "Infinity".toList
  else .ok "-Infinity".toList

/-- Texts with commas between them, in brackets or braces. -/
def enclosed (o : Options) (opening closing : Char) (texts : List (List Char)) : List Char :=
  opening :: List.intercalate (',' :: o.item) texts ++ [closing]

mutual

/-- `json.dumps`, where the stack has room for `depth` nested containers. -/
def write (o : Options) : Value → ℕ → Except PyError (List Char)
  | .null, _ => .ok "null".toList
  | .bool b, _ => .ok (if b then "true" else "false").toList
  | .int z, _ => writeInt z
  | .float x, _ => writeFloat o x
  | .str s, _ => writeString o s
  | .arr _, 0 => .error encodeRecursionError
  | .arr items, depth + 1 => (writeItems o items depth).map (enclosed o '[' ']')
  | .obj _, 0 => .error encodeRecursionError
  | .obj fields, depth + 1 => (writeFields o fields depth).map (enclosed o '{' '}')

def writeItems (o : Options) : List Value → ℕ → Except PyError (List (List Char))
  | [], _ => .ok []
  | v :: items, depth => do
    let t ← write o v depth
    let ts ← writeItems o items depth
    return t :: ts

def writeFields (o : Options) : List (Text × Value) → ℕ → Except PyError (List (List Char))
  | [], _ => .ok []
  | (k, v) :: fields, depth => do
    let key ← writeString o k
    let t ← write o v depth
    let ts ← writeFields o fields depth
    return (key ++ ':' :: o.key ++ t) :: ts

end

mutual

/-- What is read back of a value. -/
def Value.loaded : Value → Value
  | .null => .null
  | .bool b => .bool b
  | .int z => .int z
  | .float x => .float x
  | .str s => .str (joined s)
  | .arr items => .arr (loadedItems items)
  | .obj fields => .obj (assignAll (loadedFields fields))

def loadedItems : List Value → List Value
  | [] => []
  | v :: items => v.loaded :: loadedItems items

def loadedFields : List (Text × Value) → List (Text × Value)
  | [] => []
  | (k, v) :: fields => (joined k, v.loaded) :: loadedFields fields

end

/-! ### Texts that a reader reads -/

section Reading

variable {α : Type}

/-- The reader reads the text where no number goes on behind it. -/
def Reads (scan : List Char → Except PyError (α × List Char)) (t : List Char) (a : α) : Prop :=
  ∀ rest, Stops rest → scan (t ++ rest) = .ok (a, rest)

/-- No value starts with a blank, with the end of a container or with a byte order mark. -/
def Opening (c : Char) : Prop := isBlank c = false ∧ c ≠ ']' ∧ c ≠ '}' ∧ c ≠ byteOrderMark

instance (c : Char) : Decidable (Opening c) := inferInstanceAs (Decidable (_ ∧ _))

def Opens (t : List Char) : Prop := ∃ c u, t = c :: u ∧ Opening c

/-- The characters that end a container. -/
def Closes (c : Char) : Prop := c = ']' ∨ c = '}'

theorem Closes.stops {c : Char} (h : Closes c) (t : List Char) : Stops (c :: t) := by
  rintro d ⟨⟩
  rcases h with rfl | rfl <;> decide

theorem stops_nil : Stops [] := by rintro c ⟨⟩

theorem stops_comma (t : List Char) : Stops (',' :: t) := by
  rintro d ⟨⟩
  decide

theorem Closes.notBlank {c : Char} (h : Closes c) : isBlank c = false := by
  rcases h with rfl | rfl <;> decide

theorem Closes.ne_comma {c : Char} (h : Closes c) : ',' ≠ c := by
  rcases h with rfl | rfl <;> decide

theorem skip_of_notBlank {c : Char} {t : List Char} (h : isBlank c = false) : skip (c :: t) = c :: t :=
  List.dropWhile_cons_of_neg (by rw [h]; decide)

theorem Opens.skip_append {t : List Char} (h : Opens t) {blanks : List Char} (hb : ∀ c ∈ blanks, isBlank c = true)
    (rest : List Char) : skip (blanks ++ (t ++ rest)) = t ++ rest := by
  obtain ⟨c, u, rfl, hc, -⟩ := h
  rw [skip, List.dropWhile_append_of_pos hb]
  exact skip_of_notBlank hc

variable {closing : Char} {item : List Char → Except PyError (α × List Char)} {sep : List Char}

theorem scanSeparated_intercalate (hclosing : Closes closing) (hsep : ∀ c ∈ sep, isBlank c = true)
    {t : List Char} {a : α} {ts : List (List Char)} {as : List α} (ht : Reads item t a)
    (hts : List.Forall₂ (fun t a ↦ Opens t ∧ Reads item t a) ts as) {turns : ℕ} (hturns : ts.length < turns)
    (rest : List Char) :
    scanSeparated closing item turns (List.intercalate (',' :: sep) (t :: ts) ++ closing :: rest) =
      .ok (a :: as, rest) := by
  induction hts generalizing t a turns with
  | nil =>
    obtain ⟨turns, rfl⟩ := Nat.exists_eq_succ_of_ne_zero (Nat.ne_of_gt hturns)
    rw [List.intercalate_singleton, scanSeparated, ht _ (hclosing.stops rest), ok_bind]
    dsimp only
    rw [skip_of_notBlank hclosing.notBlank]
    exact if_pos rfl
  | @cons u b us bs hu hus ih =>
    obtain ⟨turns, rfl⟩ := Nat.exists_eq_succ_of_ne_zero (Nat.ne_of_gt (Nat.zero_lt_of_lt hturns))
    obtain ⟨hopens, hreads⟩ := hu
    have hfirst : ∃ w, List.intercalate (',' :: sep) (u :: us) = u ++ w := by
      cases us with
      | nil => exact ⟨[], by rw [List.intercalate_singleton, List.append_nil]⟩
      | cons v vs => exact ⟨',' :: sep ++ List.intercalate (',' :: sep) (v :: vs), by
          rw [List.intercalate_cons_cons, List.append_assoc]⟩
    have hskip : skip (sep ++ (List.intercalate (',' :: sep) (u :: us) ++ closing :: rest)) =
        List.intercalate (',' :: sep) (u :: us) ++ closing :: rest := by
      obtain ⟨w, hw⟩ := hfirst
      rw [hw, List.append_assoc]
      exact hopens.skip_append hsep _
    rw [List.intercalate_cons_cons, List.append_assoc, List.append_assoc, List.cons_append, scanSeparated,
      ht _ (stops_comma _), ok_bind]
    dsimp only
    rw [skip_of_notBlank (by decide)]
    dsimp only
    rw [if_neg hclosing.ne_comma, if_pos rfl, hskip, ih hreads (Nat.lt_of_succ_lt_succ hturns)]
    rfl

theorem length_le_intercalate (sep : List Char) (ts : List (List Char)) (h : ∀ t ∈ ts, t ≠ []) :
    ts.length ≤ (List.intercalate sep ts).length := by
  induction ts with
  | nil => exact Nat.zero_le _
  | cons t ts ih =>
    have hpos := List.length_pos_iff.mpr (h t List.mem_cons_self)
    cases ts with
    | nil =>
      rw [List.intercalate_singleton]
      exact hpos
    | cons u us =>
      have hle := ih fun v hv ↦ h v (List.mem_cons_of_mem t hv)
      rw [List.intercalate_cons_cons, List.length_append, List.length_append, List.length_cons]
      omega

theorem ne_nil_of_opens {ts : List (List Char)} {as : List α}
    (h : List.Forall₂ (fun t a ↦ Opens t ∧ Reads item t a) ts as) : ∀ t ∈ ts, t ≠ [] := by
  induction h with
  | nil => exact fun t ht ↦ absurd ht List.not_mem_nil
  | cons ht _ ih =>
    obtain ⟨⟨c, u, rfl, -⟩, -⟩ := ht
    exact List.forall_mem_cons.mpr ⟨List.cons_ne_nil c u, ih⟩

/-- A container whose items are read. -/
theorem scanContainer_intercalate (hclosing : Closes closing) (hsep : ∀ c ∈ sep, isBlank c = true)
    {ts : List (List Char)} {as : List α} (h : List.Forall₂ (fun t a ↦ Opens t ∧ Reads item t a) ts as)
    (rest : List Char) :
    scanContainer closing item (List.intercalate (',' :: sep) ts ++ closing :: rest) = .ok (as, rest) := by
  cases h with
  | nil =>
    rw [List.intercalate_nil, List.nil_append, scanContainer, skip_of_notBlank hclosing.notBlank]
    exact if_pos rfl
  | @cons t a ts as ht hts =>
    obtain ⟨⟨c, u, rfl, hc⟩, hreads⟩ := ht
    have hne := ne_nil_of_opens (.cons ⟨⟨c, u, rfl, hc⟩, hreads⟩ hts)
    obtain ⟨hblank, hbracket, hbrace, -⟩ := hc
    have hlength := length_le_intercalate (',' :: sep) _ hne
    have hskip : skip (List.intercalate (',' :: sep) ((c :: u) :: ts) ++ closing :: rest) =
        List.intercalate (',' :: sep) ((c :: u) :: ts) ++ closing :: rest := by
      rw [List.intercalate_cons_cons_left]
      exact skip_of_notBlank hblank
    rw [scanContainer, hskip, if_neg]
    · refine scanSeparated_intercalate hclosing hsep hreads hts ?_ rest
      rw [List.length_append]
      rw [List.length_cons] at hlength
      omega
    · rw [List.intercalate_cons_cons_left]
      rintro ⟨⟩
      exact hclosing.elim hbracket hbrace

end Reading

/-! ### Values without items -/

section Scalars

variable {inner : Option Reader}

/-- The characters of the literals. -/
theorem literals_eq : literals =
    [(String.ofList ['n', 'u', 'l', 'l'], .null), (String.ofList ['t', 'r', 'u', 'e'], .bool true),
      (String.ofList ['f', 'a', 'l', 's', 'e'], .bool false), (String.ofList ['N', 'a', 'N'], .float nan),
      (String.ofList ['I', 'n', 'f', 'i', 'n', 'i', 't', 'y'], .float infinity),
      (String.ofList ['-', 'I', 'n', 'f', 'i', 'n', 'i', 't', 'y'], .float (-infinity))] := rfl

theorem reads_literal {t : List Char} {v : Value} (h : (String.ofList t, v) ∈ literals) :
    Opens t ∧ Reads (scanWith inner) t v := by
  simp only [literals_eq, List.mem_cons, List.not_mem_nil, or_false, Prod.mk.injEq, String.ofList_inj] at h
  rcases h with ⟨rfl, rfl⟩ | ⟨rfl, rfl⟩ | ⟨rfl, rfl⟩ | ⟨rfl, rfl⟩ | ⟨rfl, rfl⟩ | ⟨rfl, rfl⟩
  all_goals
    refine ⟨⟨_, _, rfl, by decide⟩, fun rest _ ↦ ?_⟩
    simp [scanWith, literal?, literals_eq, quote, List.isPrefixOf?]

/-- A number starts with a digit, or with a minus and a digit. -/
theorem head_of_scanNumber {s : List Char} {v : Value} {u : List Char} (h : scanNumber s = .ok (v, u)) :
    ∃ c t, s = c :: t ∧ (c.isDigit = true ∨ c = '-' ∧ ∃ d w, t = d :: w ∧ d.isDigit = true) := by
  have hwhole {r : List Char} (hr : wholePart? r ≠ none) : ∃ c t, r = c :: t ∧ c.isDigit = true := by
    cases r with
    | nil => exact absurd rfl hr
    | cons c t =>
      refine ⟨c, t, rfl, ?_⟩
      rw [wholePart?] at hr
      split_ifs at hr with hzero hdigit
      · rw [hzero]
        decide
      · exact hdigit
      · exact absurd rfl hr
  have hsome : wholePart? (if minus? s then s.tail else s) ≠ none := by
    intro hnone
    rw [scanNumber, hnone] at h
    cases h
  by_cases hminus : minus? s = true
  · rw [if_pos hminus] at hsome
    cases s with
    | nil => exact absurd rfl hsome
    | cons c t =>
      have hc : c = '-' := by simpa [minus?] using hminus
      exact ⟨c, t, rfl, .inr ⟨hc, hwhole hsome⟩⟩
  · rw [if_neg hminus] at hsome
    obtain ⟨c, t, hs, hc⟩ := hwhole hsome
    exact ⟨c, t, hs, .inl hc⟩

/-- No literal starts where a number does. -/
theorem literal?_eq_none {c : Char} {t : List Char}
    (h : c.isDigit = true ∨ c = '-' ∧ ∃ d w, t = d :: w ∧ d.isDigit = true) : literal? (c :: t) = none := by
  have hne {d e : Char} (hd : d.isDigit = true) (he : ¬e.isDigit = true) : (e == d) = false := by
    rw [beq_eq_false_iff_ne]
    rintro rfl
    exact he hd
  rw [literal?, literals_eq]
  rcases h with hc | ⟨rfl, d, w, rfl, hd⟩
  · simp [List.isPrefixOf?, hne hc]
  · simp [List.isPrefixOf?, hne hd]

theorem reads_number {s : List Char} {v : Value} (h : scanNumber s = .ok (v, [])) :
    Opens s ∧ Reads (scanWith inner) s v := by
  obtain ⟨c, t, rfl, hc⟩ := head_of_scanNumber h
  have hne {d : Char} (hd : d ≠ '-') (hdigit : ¬d.isDigit = true) : c ≠ d := by
    rintro rfl
    exact hc.elim hdigit fun hminus ↦ hd hminus.1
  refine ⟨⟨c, t, rfl, ?_, hne (by decide) (by decide), hne (by decide) (by decide), hne (by decide) (by decide)⟩,
    fun rest hrest ↦ ?_⟩
  · rw [isBlank]
    simp [hne]
  · have hnone : literal? (c :: (t ++ rest)) = none := by
      refine literal?_eq_none (hc.imp_right fun hminus ↦ ⟨hminus.1, ?_⟩)
      obtain ⟨-, d, w, rfl, hd⟩ := hminus
      exact ⟨d, w ++ rest, rfl, hd⟩
    rw [List.cons_append, scanWith, if_neg (hne (by decide) (by decide)), if_neg (hne (by decide) (by decide)),
      if_neg (hne (by decide) (by decide)), hnone]
    exact scanNumber_append hrest h

theorem scanNumber_writeInt {z : ℤ} {t : List Char} (h : writeInt z = .ok t) :
    scanNumber t = .ok (.int z, []) := by
  have hwhole := wholePart?_toDigits z.natAbs
  have hplain := minus?_of_digits (t := []) Nat.toDigits_ne_nil (isDigit_of_mem_digits (n := z.natAbs))
  rw [List.append_nil] at hplain
  rw [writeInt] at h
  split_ifs at h with hlong hneg
  · cases h
    rw [scanNumber, if_pos (by rfl), List.tail_cons, hwhole]
    dsimp only [fraction?, exponent?]
    rw [if_neg hlong, if_pos (by rfl), Nat.ofDigitChars_ten_toDigits]
    congr
    omega
  · cases h
    rw [scanNumber, if_neg (by rw [hplain]; decide), hwhole]
    dsimp only [fraction?, exponent?]
    rw [if_neg hlong, if_neg (by rw [hplain]; decide), Nat.ofDigitChars_ten_toDigits]
    congr
    omega

theorem reads_int {z : ℤ} {t : List Char} (h : writeInt z = .ok t) :
    Opens t ∧ Reads (scanWith inner) t (.int z) := reads_number (scanNumber_writeInt h)

theorem float_cases {x : Float.Model} (h : ¬x.isFinite = true) : x = nan ∨ x = infinity ∨ x = -infinity := by
  have hpack := pack_unpack x
  rw [Float.Model.isFinite] at h
  cases hu : x.unpack with
  | notANumber =>
    rw [hu] at hpack
    exact .inl hpack.symm
  | infinity s =>
    rw [hu] at hpack
    cases s with
    | positive => exact .inr (.inl hpack.symm)
    | negative => exact .inr (.inr (hpack.symm.trans (by decide)))
  | zero s | finite s m e hm =>
    rw [hu] at h
    exact absurd rfl h

theorem reads_float {o : Options} {x : Float.Model} {t : List Char} (h : writeFloat o x = .ok t) :
    Opens t ∧ Reads (scanWith inner) t (.float x) := by
  rw [writeFloat] at h
  split_ifs at h with hfinite hallow hnan hinfinity
  · cases h
    exact reads_number (scanNumber_floatRepr hfinite)
  · cases h
    rw [hnan]
    exact reads_literal (by simp [literals])
  · cases h
    rw [hinfinity]
    exact reads_literal (by simp [literals])
  · cases h
    obtain hx := ((float_cases hfinite).resolve_left hnan).resolve_left hinfinity
    rw [hx]
    exact reads_literal (by simp [literals])

end Scalars

/-! ### Strings -/

section Strings

/-- What the scanner sees of a character that `ensure_ascii=False` has written. -/
def unitRaw (c : CodePoint) : ℕ × Bool := (c.val, (shortEscape? c).isNone && decide (c.val < 32))

theorem toNat_ofNat_val {c : CodePoint} (hc : isSurrogate c = false) : (Char.ofNat c.val).toNat = c.val := by
  have hlt := c.isLt
  have hvalid : c.val.isValidChar := by
    simp only [isSurrogate, isHigh, isLow, Bool.or_eq_false_iff, Bool.and_eq_false_iff, decide_eq_false_iff_not] at hc
    rw [Nat.isValidChar]
    omega
  rw [Char.ofNat, dif_pos hvalid]
  rfl

theorem scanUnits_escapeRaw {c : CodePoint} (hc : isSurrogate c = false) (t : List Char) :
    scanUnits .plain (escapeRaw c ++ t) = (scanUnits .plain t).map fun p ↦ (unitRaw c :: p.1, p.2) := by
  rw [escapeRaw, unitRaw]
  cases hshort : shortEscape? c with
  | some p =>
    have hvalue : p.2 = c.val := by simpa using List.find?_some hshort
    dsimp only
    rw [List.cons_append, List.singleton_append, scanUnits_shortEscape (List.mem_of_find?_eq_some hshort), hvalue]
    rfl
  | none =>
    dsimp only
    by_cases hcontrol : c.val < 32
    · rw [if_pos hcontrol, scanUnits_unicodeEscape (by omega), decide_eq_true hcontrol]
      rfl
    · have hnat := toNat_ofNat_val hc
      have hne : ∀ d : Char, (∃ p ∈ shortEscapes, p.2 = d.toNat) → Char.ofNat c.val ≠ d := by
        rintro d ⟨p, hp, hd⟩ rfl
        rw [hnat] at hd
        exact absurd hshort (Option.ne_none_iff_isSome.mpr (List.find?_isSome.mpr ⟨p, hp, decide_eq_true hd⟩))
      rw [if_neg hcontrol, List.singleton_append, scanUnits, if_neg (hne quote (by decide)),
        if_neg (hne backslash (by decide)), hnat, if_neg hcontrol, decide_eq_false hcontrol, Bool.and_false]

theorem scanUnits_flatMapRaw {s : Text} (hs : ∀ c ∈ s, isSurrogate c = false) (t : List Char) :
    scanUnits .plain (s.flatMap escapeRaw ++ quote :: t) = .ok (s.map unitRaw, t) := by
  induction s with
  | nil => rw [List.flatMap_nil, List.nil_append, scanUnits, if_pos rfl, List.map_nil]
  | cons c s ih =>
    rw [List.forall_mem_cons] at hs
    rw [List.flatMap_cons, List.append_assoc, scanUnits_escapeRaw hs.1, ih hs.2, List.map_cons]
    rfl

theorem joinPairs_unitRaw {s : Text} (hs : ∀ c ∈ s, isSurrogate c = false) : joinPairs (s.map unitRaw) = s := by
  induction s with
  | nil => rfl
  | cons c s ih =>
    rw [List.forall_mem_cons] at hs
    have hhigh : ¬isHigh c.val = true := by
      have hc := hs.1
      rw [isSurrogate, Bool.or_eq_false_iff] at hc
      rw [hc.1]
      decide
    cases s with
    | nil => rw [List.map_singleton, joinPairs, unitRaw, codePoint_val]
    | cons d s =>
      have hrest := ih hs.2
      rw [List.map_cons, List.map_cons, joinPairs, if_neg fun h ↦ hhigh h.2.2.1, ← List.map_cons, hrest, unitRaw,
        codePoint_val]

theorem joined_of_noSurrogate {s : Text} (hs : ∀ c ∈ s, isSurrogate c = false) : joined s = s := by
  fun_induction joined s with
  | case1 | case2 => rfl
  | case3 c d s h =>
    have hc := hs c List.mem_cons_self
    rw [isSurrogate, h.1] at hc
    cases hc
  | case4 c d s h ih => rw [ih fun d hd ↦ hs d (List.mem_cons_of_mem c hd)]

/-- A string is read behind its opening quote. -/
theorem scanString_writeString {o : Options} {s : Text} {t : List Char} (h : writeString o s = .ok t) :
    ∃ u, t = quote :: u ∧ ∀ rest, scanString (u ++ rest) = .ok (joined s, rest) := by
  rw [writeString] at h
  split_ifs at h with hascii hsurrogate
  · cases h
    refine ⟨s.flatMap escape ++ [quote], rfl, fun rest ↦ ?_⟩
    rw [List.append_assoc]
    exact scanString_quoted s rest
  · cases h
    have hs : ∀ c ∈ s, isSurrogate c = false := by simpa using hsurrogate
    refine ⟨s.flatMap escapeRaw ++ [quote], rfl, fun rest ↦ ?_⟩
    rw [List.append_assoc, List.singleton_append, scanString, scanUnits_flatMapRaw hs, joined_of_noSurrogate hs]
    exact congrArg (fun s ↦ Except.ok (s, rest)) (joinPairs_unitRaw hs)

theorem opens_quote (t : List Char) : Opens (quote :: t) := ⟨quote, t, rfl, by decide⟩

theorem reads_string {o : Options} {s : Text} {t : List Char} {inner : Option Reader}
    (h : writeString o s = .ok t) : Opens t ∧ Reads (scanWith inner) t (.str (joined s)) := by
  obtain ⟨u, rfl, hu⟩ := scanString_writeString h
  refine ⟨opens_quote u, fun rest _ ↦ ?_⟩
  rw [List.cons_append, scanWith, if_pos rfl, hu rest]
  rfl

theorem reads_field {o : Options} {k : Text} {key t : List Char} {v : Value} {scan : Reader}
    (hkey : writeString o k = .ok key) (ht : Opens t) (hreads : Reads scan t v) :
    Opens (key ++ ':' :: o.key ++ t) ∧ Reads (scanField scan) (key ++ ':' :: o.key ++ t) (joined k, v) := by
  obtain ⟨u, rfl, hu⟩ := scanString_writeString hkey
  refine ⟨opens_quote _, fun rest hrest ↦ ?_⟩
  rw [List.append_assoc, List.append_assoc, List.cons_append, List.cons_append, scanField, if_pos rfl, hu, ok_bind]
  dsimp only
  rw [skip_of_notBlank (by decide)]
  dsimp only
  rw [if_pos rfl, ht.skip_append o.key_blank rest, hreads rest hrest]
  rfl

end Strings

/-! ### Containers -/

section Containers

theorem map_eq_ok {α β : Type} {x : Except PyError α} {f : α → β} {b : β} (h : x.map f = .ok b) :
    ∃ a, x = .ok a ∧ f a = b := by
  cases x with
  | error e => cases h
  | ok a =>
    cases h
    exact ⟨a, rfl, rfl⟩

theorem exists_scanWith (depth : ℕ) : ∃ inner, scanOnce depth = scanWith inner := by
  cases depth with
  | zero => exact ⟨none, rfl⟩
  | succ depth => exact ⟨some (scanOnce depth), rfl⟩

theorem reads_enclosed {α : Type} (o : Options) (opening : Char) {closing : Char} (hclosing : Closes closing)
    {item : List Char → Except PyError (α × List Char)} {ts : List (List Char)} {as : List α}
    (h : List.Forall₂ (fun t a ↦ Opens t ∧ Reads item t a) ts as) (rest : List Char) :
    ∃ u, enclosed o opening closing ts ++ rest = opening :: u ∧ scanContainer closing item u = .ok (as, rest) := by
  refine ⟨List.intercalate (',' :: o.item) ts ++ [closing] ++ rest, rfl, ?_⟩
  rw [List.append_assoc]
  exact scanContainer_intercalate hclosing o.item_blank h rest

mutual

theorem reads_write {o : Options} {v : Value} {depth room : ℕ} {t : List Char} (h : write o v depth = .ok t)
    (hroom : depth ≤ room) : Opens t ∧ Reads (scanOnce room) t v.loaded := by
  obtain ⟨inner, hinner⟩ := exists_scanWith room
  cases v with
  | null =>
    cases h
    rw [hinner, Value.loaded]
    exact reads_literal (by simp [literals])
  | bool b =>
    cases h
    rw [hinner]
    cases b with
    | false =>
      rw [Value.loaded]
      exact reads_literal (by simp [literals])
    | true =>
      rw [Value.loaded]
      exact reads_literal (by simp [literals])
  | int z =>
    rw [hinner, Value.loaded]
    exact reads_int h
  | float x =>
    rw [hinner, Value.loaded]
    exact reads_float h
  | str s =>
    rw [hinner, Value.loaded]
    exact reads_string h
  | arr items =>
    cases depth with
    | zero => cases h
    | succ depth =>
      obtain ⟨room, rfl⟩ := Nat.exists_eq_add_of_le' (Nat.le_trans (Nat.succ_le_succ (Nat.zero_le depth)) hroom)
      obtain ⟨ts, hts, rfl⟩ := map_eq_ok h
      refine ⟨⟨'[', _, rfl, by decide⟩, fun rest _ ↦ ?_⟩
      obtain ⟨u, hu, hscan⟩ := reads_enclosed o '[' (.inl rfl)
        (reads_writeItems hts (Nat.le_of_succ_le_succ hroom)) rest
      rw [hu, scanOnce, scanWith, if_neg (by decide), if_neg (by decide), if_pos rfl, Option.elim_some, scanArray,
        hscan, Value.loaded]
      rfl
  | obj fields =>
    cases depth with
    | zero => cases h
    | succ depth =>
      obtain ⟨room, rfl⟩ := Nat.exists_eq_add_of_le' (Nat.le_trans (Nat.succ_le_succ (Nat.zero_le depth)) hroom)
      obtain ⟨ts, hts, rfl⟩ := map_eq_ok h
      refine ⟨⟨'{', _, rfl, by decide⟩, fun rest _ ↦ ?_⟩
      obtain ⟨u, hu, hscan⟩ := reads_enclosed o '{' (.inr rfl)
        (reads_writeFields hts (Nat.le_of_succ_le_succ hroom)) rest
      rw [hu, scanOnce, scanWith, if_neg (by decide), if_pos rfl, Option.elim_some, scanObject, hscan, Value.loaded]
      rfl

theorem reads_writeItems {o : Options} {items : List Value} {depth room : ℕ} {ts : List (List Char)}
    (h : writeItems o items depth = .ok ts) (hroom : depth ≤ room) :
    List.Forall₂ (fun t a ↦ Opens t ∧ Reads (scanOnce room) t a) ts (loadedItems items) := by
  cases items with
  | nil =>
    cases h
    exact .nil
  | cons v items =>
    obtain ⟨t, ht, h⟩ := bind_eq_ok h
    obtain ⟨us, hus, h⟩ := bind_eq_ok h
    cases h
    exact .cons (reads_write ht hroom) (reads_writeItems hus hroom)

theorem reads_writeFields {o : Options} {fields : List (Text × Value)} {depth room : ℕ} {ts : List (List Char)}
    (h : writeFields o fields depth = .ok ts) (hroom : depth ≤ room) :
    List.Forall₂ (fun t a ↦ Opens t ∧ Reads (scanField (scanOnce room)) t a) ts (loadedFields fields) := by
  cases fields with
  | nil =>
    cases h
    exact .nil
  | cons p fields =>
    obtain ⟨k, v⟩ := p
    obtain ⟨key, hkey, h⟩ := bind_eq_ok h
    obtain ⟨t, ht, h⟩ := bind_eq_ok h
    obtain ⟨us, hus, h⟩ := bind_eq_ok h
    cases h
    obtain ⟨hopens, hreads⟩ := reads_write ht hroom
    exact .cons (reads_field hkey hopens hreads) (reads_writeFields hus hroom)

end

/-- What is written is read back. -/
theorem loads_write {o : Options} {v : Value} {depth room : ℕ} {t : List Char} (h : write o v depth = .ok t)
    (hroom : depth ≤ room) : loads room t = .ok v.loaded := by
  obtain ⟨⟨c, u, rfl, hblank, -, -, hmark⟩, hreads⟩ := reads_write h hroom
  have hread := hreads [] stops_nil
  rw [List.append_nil] at hread
  rw [loads, List.head?_cons, if_neg fun h ↦ hmark (Option.some.inj h), skip_of_notBlank hblank, hread, ok_bind]
  exact if_pos rfl

end Containers

/-! ### Values that come back as they are -/

section Clean

theorem assignAll_eq (fields : List (Text × Value)) : assignAll fields = (Dict.ofList fields).entries := by
  have h (d : Dict Text Value) : fields.foldl (fun d p ↦ Dict.assign d p.1 p.2) d.entries =
      (fields.foldl (fun d p ↦ d.insert p.1 p.2) d).entries := by
    induction fields generalizing d with
    | nil => rfl
    | cons p fields ih => exact ih (d.insert p.1 p.2)
  exact h Dict.empty

theorem assignAll_of_nodup {fields : List (Text × Value)} (h : (fields.map Prod.fst).Nodup) :
    assignAll fields = fields := by
  rw [assignAll_eq, Dict.entries_ofList h]

theorem nodup_of_length_assignAll {fields : List (Text × Value)} (h : (assignAll fields).length = fields.length) :
    (fields.map Prod.fst).Nodup := by
  have hkeys (d : Dict Text Value) (k : Text) :
      k ∈ (fields.foldl (fun d p ↦ d.insert p.1 p.2) d).keys ↔ k ∈ d.keys ∨ k ∈ fields.map Prod.fst := by
    clear h
    induction fields generalizing d with
    | nil => simp
    | cons p fields ih =>
      rw [List.foldl_cons, ih, Dict.mem_keys_insert, List.map_cons, List.mem_cons]
      tauto
  have hcard : (fields.map Prod.fst).toFinset.card = (fields.map Prod.fst).length := by
    have hsize : (assignAll fields).length = (Dict.ofList fields).keys.toFinset.card := by
      rw [assignAll_eq]
      exact Dict.size_eq_card_keys _
    have hset : (Dict.ofList fields).keys.toFinset = (fields.map Prod.fst).toFinset := by
      ext k
      rw [List.mem_toFinset, List.mem_toFinset, Dict.ofList, hkeys]
      simp [Dict.keys, Dict.empty]
    rw [← hset, ← hsize, h, List.length_map]
  exact Multiset.coe_nodup.mp (Multiset.toFinset_card_eq_card_iff_nodup.mp hcard)

mutual

/-- No dictionary has a key twice and no string has a pair of surrogates. -/
def Value.Clean : Value → Prop
  | .null => True
  | .bool _ => True
  | .int _ => True
  | .float _ => True
  | .str s => Whole s
  | .arr items => CleanItems items
  | .obj fields => (fields.map Prod.fst).Nodup ∧ CleanFields fields

def CleanItems : List Value → Prop
  | [] => True
  | v :: items => v.Clean ∧ CleanItems items

def CleanFields : List (Text × Value) → Prop
  | [] => True
  | (k, v) :: fields => Whole k ∧ v.Clean ∧ CleanFields fields

end

theorem length_loadedFields (fields : List (Text × Value)) : (loadedFields fields).length = fields.length := by
  induction fields with
  | nil => rfl
  | cons p fields ih =>
    rw [loadedFields, List.length_cons, List.length_cons, ih]

mutual

theorem loaded_eq_self_iff (v : Value) : v.loaded = v ↔ v.Clean := by
  cases v with
  | null | bool | int | float => simp only [Value.loaded, Value.Clean]
  | str s =>
    rw [Value.loaded, Value.Clean, Value.str.injEq]
    exact joined_eq_self_iff s
  | arr items =>
    rw [Value.loaded, Value.Clean, Value.arr.injEq]
    exact loadedItems_eq_self_iff items
  | obj fields =>
    rw [Value.loaded, Value.Clean, Value.obj.injEq, ← loadedFields_eq_self_iff fields]
    constructor
    · intro h
      have hlength : (assignAll (loadedFields fields)).length = (loadedFields fields).length := by
        rw [h, length_loadedFields]
      have hnodup := nodup_of_length_assignAll hlength
      have hself := (assignAll_of_nodup hnodup).symm.trans h
      rw [hself] at hnodup
      exact ⟨hnodup, hself⟩
    · rintro ⟨hnodup, hself⟩
      rw [hself, assignAll_of_nodup hnodup]

theorem loadedItems_eq_self_iff (items : List Value) : loadedItems items = items ↔ CleanItems items := by
  cases items with
  | nil => simp only [loadedItems, CleanItems]
  | cons v items =>
    rw [loadedItems, CleanItems, List.cons.injEq, loaded_eq_self_iff v, loadedItems_eq_self_iff items]

theorem loadedFields_eq_self_iff (fields : List (Text × Value)) :
    loadedFields fields = fields ↔ CleanFields fields := by
  cases fields with
  | nil => simp only [loadedFields, CleanFields]
  | cons p fields =>
    rw [loadedFields, CleanFields, List.cons.injEq, Prod.ext_iff, joined_eq_self_iff, loaded_eq_self_iff p.2,
      loadedFields_eq_self_iff fields, and_assoc]

end

end Clean

end SplitFleet.Lib.JsonText
