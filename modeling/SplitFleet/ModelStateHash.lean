import SplitFleet.Lib.Framing
import SplitFleet.Lib.JsonWriter
import SplitFleet.Lib.Sorting
import Mathlib.Algebra.BigOperators.Group.List.Basic

set_option autoImplicit false

namespace SplitFleet.ModelStateHash

open Lib

/-! ### States -/

/-- The data types of Torch. -/
structure TorchDtypes (δ : Type) where
  /-- What `str` puts behind `torch.`. -/
  name : δ → String
  itemsize : δ → ℕ
  name_injective : Function.Injective name
  word : ∀ d, ∀ c ∈ (name d).toList, c.isAlphanum = true ∨ c = '_'

variable {δ : Type} {D : TorchDtypes δ} {width : String → ℕ}

structure Tensor (D : TorchDtypes δ) where
  dtype : δ
  shape : List ℕ
  /-- `value.reshape(-1).view(torch.uint8)` -/
  bytes : Bytes
  length_bytes : bytes.length = shape.prod * D.itemsize dtype

/-- An array of NumPy, where the text of a data type gives the size of its items. -/
structure NativeArray (width : String → ℕ) where
  dtype : String
  shape : List ℕ
  /-- `value.tobytes(order="C")` -/
  bytes : Bytes
  length_bytes : bytes.length = shape.prod * width dtype

/-- A state, with names that are not empty. -/
structure State (τ : Type) where
  entries : Dict String τ
  named : ∀ name ∈ entries.keys, name ≠ ""

/-- `sorted(state.items())`, where no two names are equal. -/
def State.listed {τ : Type} (s : State τ) : List (String × τ) := sortedBy Prod.fst s.entries.entries

/-- The states map the same names to the same values. -/
def Same {τ : Type} (s s' : State τ) : Prop := ∀ name, s.entries.get? name = s'.entries.get? name

/-! ### Texts -/

/-- `str` of a tuple, behind the parenthesis. -/
def tupleTail : List ℕ → List Char
  | [] => [')']
  | [n] => digits n ++ [',', ')']
  | n :: m :: ns => digits n ++ restText [' '] ')' (m :: ns)

def tupleText (shape : List ℕ) : String := String.ofList ('(' :: tupleTail shape)

/-- `json.dumps` of a list of numbers with the separators `,` and `:`, behind the bracket. -/
def listTail : List ℕ → List Char
  | [] => [']']
  | n :: ns => digits n ++ restText [] ']' ns

/-- `json.dumps([name, dtype, shape], separators=(",", ":"))` -/
def headerText (layout : String × String × List ℕ) : List Char :=
  '[' :: JsonText.quoted (Text.ofString layout.1) ++
    ',' :: JsonText.quoted (Text.ofString layout.2.1) ++ ',' :: '[' :: listTail layout.2.2 ++ [']']

/-! ### What the digests are fed -/

/-- `str(value.dtype).encode()` and `str(tuple(value.shape)).encode()` -/
def layoutBytes (D : TorchDtypes δ) (dtype : δ) (shape : List ℕ) : Bytes :=
  utf8 ("torch." ++ D.name dtype) ++ utf8 (tupleText shape)

def Tensor.header (t : Tensor D) : Bytes := layoutBytes D t.dtype t.shape

def tensorEntry (e : String × Tensor D) : Bytes := utf8 e.1 ++ (e.2.header ++ e.2.bytes)

def tensorStream (l : List (String × Tensor D)) : Bytes := l.flatMap tensorEntry

/-- `tensor_state_hash`, before the digest. -/
def tensorStateHash (state : State (Tensor D)) : Bytes := tensorStream state.listed

def nativeEntry (e : String × NativeArray width) : Bytes :=
  utf8 (String.ofList (headerText (e.1, e.2.dtype, e.2.shape))) ++ e.2.bytes

/-- `native_array_state_hash`, before the digest. -/
def nativeArrayStateHash (backend : String) (names : List String) (arrays : List (NativeArray width)) :
    Except PyError Bytes := do
  require (names.length = arrays.length) (.valueError "Native state tensor count differs from the model")
  return utf8 s!"splitfleet.native-state.v1:{backend}" ++ (sortedBy Prod.fst (names.zip arrays)).flatMap nativeEntry

/-- The names and the arrays of a state, in its order. -/
def State.nativeHash (backend : String) (s : State (NativeArray width)) : Except PyError Bytes :=
  nativeArrayStateHash backend s.entries.keys s.entries.values

/-! ### ASCII -/

theorem utf8_eq (s : String) : utf8 s = s.toList.flatMap String.utf8EncodeChar := by
  rw [utf8, ← String.utf8Encode_toList, List.utf8Encode]
  simp

theorem utf8_injective : Function.Injective utf8 := by
  intro s t h
  have hs := utf8Decode_utf8 s
  rw [h, utf8Decode_utf8] at hs
  exact (Except.ok.inj hs).symm

theorem utf8_append (s t : String) : utf8 (s ++ t) = utf8 s ++ utf8 t := by
  rw [utf8_eq, utf8_eq, utf8_eq, String.toList_append, List.flatMap_append]

def asciiByte (c : Char) : UInt8 := UInt8.ofNat c.toNat

/-- Latin-1, which reads the bytes of an ASCII text. -/
def latin (b : UInt8) : Char := Char.ofNat b.toNat

theorem utf8_ofList {l : List Char} (h : ∀ c ∈ l, c.toNat < 128) : utf8 (String.ofList l) = l.map asciiByte := by
  rw [utf8_eq, String.toList_ofList]
  induction l with
  | nil => rfl
  | cons c l ih =>
    obtain ⟨hc, h⟩ := List.forall_mem_cons.mp h
    have hone : String.utf8EncodeChar c = [asciiByte c] := by
      unfold String.utf8EncodeChar
      exact if_pos (Nat.le_of_lt_succ hc)
    rw [List.flatMap_cons, ih h, hone]
    rfl

theorem latin_injective : Function.Injective latin := by
  intro a b h
  have hvalid : ∀ b : UInt8, (Char.ofNat b.toNat).toNat = b.toNat := by
    intro b
    exact JsonText.toNat_ofNat (b.toNat_lt.trans (by decide))
  have hnat := congrArg Char.toNat h
  rw [latin, latin, hvalid, hvalid] at hnat
  exact UInt8.toNat_inj.mp hnat

theorem latin_asciiByte {c : Char} (h : c.toNat < 128) : latin (asciiByte c) = c := by
  rw [latin, asciiByte, UInt8.toNat_ofNat', Nat.mod_eq_of_lt (h.trans (by decide)), Char.ofNat_toNat]

/-! ### Headers -/

theorem tupleTail_selfDelimiting : SelfDelimiting tupleTail := by
  have hdigit : (')' : Char).isDigit = false := rfl
  intro ms ns r s h
  obtain _ | ⟨m, _ | ⟨m', ms⟩⟩ := ms
  · obtain _ | ⟨n, _ | ⟨n', ns⟩⟩ := ns
    · exact ⟨rfl, (List.cons.inj h).2⟩
    · exact absurd h.symm (List.append_assoc (digits n) _ _ ▸ digits_append_ne hdigit)
    · exact absurd h.symm (List.append_assoc (digits n) _ _ ▸ digits_append_ne hdigit)
  · obtain _ | ⟨n, _ | ⟨n', ns⟩⟩ := ns
    · exact absurd h (List.append_assoc (digits m) _ _ ▸ digits_append_ne hdigit)
    · rw [tupleTail, tupleTail, List.append_assoc, List.append_assoc] at h
      obtain ⟨hmn, -, hrs⟩ := digits_append rfl rfl h
      exact ⟨hmn ▸ rfl, (List.cons.inj hrs).2⟩
    · rw [tupleTail, tupleTail, restText, List.append_assoc, List.append_assoc] at h
      obtain ⟨-, -, hrs⟩ := digits_append rfl rfl h
      exact absurd (List.cons.inj hrs).1 (by decide)
  · obtain _ | ⟨n, _ | ⟨n', ns⟩⟩ := ns
    · exact absurd h (List.append_assoc (digits m) _ _ ▸ digits_append_ne hdigit)
    · rw [tupleTail, tupleTail, restText, List.append_assoc, List.append_assoc] at h
      obtain ⟨-, -, hrs⟩ := digits_append rfl rfl h
      exact absurd (List.cons.inj hrs).1 (by decide)
    · rw [tupleTail, tupleTail] at h
      obtain ⟨hmn, hrest⟩ := digits_restText hdigit h
      obtain ⟨htail, hrs⟩ := restText_selfDelimiting [' '] hdigit (by decide) _ _ r s hrest
      exact ⟨hmn ▸ htail ▸ rfl, hrs⟩

theorem listTail_selfDelimiting : SelfDelimiting listTail := by
  have hdigit : (']' : Char).isDigit = false := rfl
  intro ms ns r s h
  cases ms with
  | nil =>
    cases ns with
    | nil => exact ⟨rfl, (List.cons.inj h).2⟩
    | cons n ns => exact absurd h.symm (List.append_assoc (digits n) _ _ ▸ digits_append_ne hdigit)
  | cons m ms =>
    cases ns with
    | nil => exact absurd h (List.append_assoc (digits m) _ _ ▸ digits_append_ne hdigit)
    | cons n ns =>
      rw [listTail, listTail] at h
      obtain ⟨hmn, hrest⟩ := digits_restText hdigit h
      obtain ⟨htail, hrs⟩ := restText_selfDelimiting [] hdigit (by decide) _ _ r s hrest
      exact ⟨hmn ▸ htail ▸ rfl, hrs⟩

/-- `str(dtype)` and `str(tuple(shape))`, one behind the other. -/
def layoutText (D : TorchDtypes δ) (layout : δ × List ℕ) : List Char :=
  "torch.".toList ++ ((D.name layout.1).toList ++ '(' :: tupleTail layout.2)

theorem layoutText_selfDelimiting (D : TorchDtypes δ) : SelfDelimiting (layoutText D) := by
  have hname : SelfDelimiting fun d ↦ (D.name d).toList ++ ['('] := by
    refine .terminated (fun a b h ↦ D.name_injective (String.toList_injective h)) fun d hmem ↦ ?_
    obtain h | h := D.word d '(' hmem
    · exact absurd h (by decide)
    · exact absurd h (by decide)
  rintro ⟨d, shape⟩ ⟨d', shape'⟩ r s h
  have hshape : ∀ (d : δ) (shape : List ℕ) (r : List Char), layoutText D (d, shape) ++ r =
      "torch.".toList ++ (((D.name d).toList ++ ['(']) ++ (tupleTail shape ++ r)) := by
    intro d shape r
    simp [layoutText]
  rw [hshape, hshape] at h
  obtain ⟨hd, hrest⟩ := hname d d' _ _ (List.append_cancel_left h)
  obtain ⟨htail, hrs⟩ := tupleTail_selfDelimiting shape shape' r s hrest
  exact ⟨hd ▸ htail ▸ rfl, hrs⟩

theorem toNat_lt_of_isDigit {c : Char} (h : c.isDigit = true) : c.toNat < 128 := by
  simp only [Char.isDigit, Bool.and_eq_true, decide_eq_true_eq] at h
  exact (UInt32.le_iff_toNat_le.mp h.2).trans_lt (by decide)

theorem mem_restText {gap : List Char} {closing : Char} {ns : List ℕ} :
    ∀ c ∈ restText gap closing ns, c.isDigit = true ∨ c ∈ ',' :: closing :: gap := by
  induction ns with
  | nil =>
    intro c hc
    obtain rfl := List.mem_singleton.mp hc
    simp
  | cons n ns ih =>
    intro c hc
    simp only [restText, List.mem_cons, List.mem_append] at hc
    obtain rfl | hc | hc | hc := hc
    · simp
    · exact .inr (List.mem_cons_of_mem _ (List.mem_cons_of_mem _ hc))
    · exact .inl (isDigit_of_mem_digits c hc)
    · exact ih c hc

theorem mem_tupleTail {ns : List ℕ} : ∀ c ∈ tupleTail ns, c.isDigit = true ∨ c ∈ [',', ')', ' '] := by
  intro c hc
  obtain _ | ⟨n, _ | ⟨m, ns⟩⟩ := ns
  · obtain rfl := List.mem_singleton.mp hc
    simp
  · obtain hc | hc := List.mem_append.mp hc
    · exact .inl (isDigit_of_mem_digits c hc)
    · exact .inr (List.mem_append_left [' '] hc)
  · obtain hc | hc := List.mem_append.mp hc
    · exact .inl (isDigit_of_mem_digits c hc)
    · exact mem_restText c hc

theorem mem_listTail {ns : List ℕ} : ∀ c ∈ listTail ns, c.isDigit = true ∨ c ∈ [',', ']'] := by
  intro c hc
  cases ns with
  | nil =>
    obtain rfl := List.mem_singleton.mp hc
    simp
  | cons n ns =>
    obtain hc | hc := List.mem_append.mp hc
    · exact .inl (isDigit_of_mem_digits c hc)
    · exact mem_restText c hc

theorem toNat_lt_of_all {l : List Char} (h : l.all (·.toNat < 128) = true) {c : Char} (hc : c ∈ l) : c.toNat < 128 :=
  of_decide_eq_true (List.all_eq_true.mp h c hc)

theorem toNat_lt_of_mark {c : Char} {marks : List Char} (h : c.isDigit = true ∨ c ∈ marks)
    (hmarks : marks.all (·.toNat < 128) = true) : c.toNat < 128 := by
  obtain h | h := h
  · exact toNat_lt_of_isDigit h
  · exact toNat_lt_of_all hmarks h

theorem toNat_lt_of_word {c : Char} (h : c.isAlphanum = true ∨ c = '_') : c.toNat < 128 := by
  obtain h | rfl := h
  · have hrange : ((('A'.val ≤ c.val ∧ c.val ≤ 'Z'.val) ∨ ('a'.val ≤ c.val && c.val ≤ 'z'.val) = true)) ∨
        ('0'.val ≤ c.val && c.val ≤ '9'.val) = true := by
      rwa [← decide_eq_true_eq (p := _ ∧ _), ← Bool.or_eq_true, ← Bool.or_eq_true]
    simp only [Bool.and_eq_true, decide_eq_true_eq] at hrange
    obtain (h | h) | h := hrange
    · exact (UInt32.le_iff_toNat_le.mp h.2).trans_lt (by decide)
    · exact (UInt32.le_iff_toNat_le.mp h.2).trans_lt (by decide)
    · exact (UInt32.le_iff_toNat_le.mp h.2).trans_lt (by decide)
  · decide

theorem layoutText_ascii (layout : δ × List ℕ) : ∀ c ∈ layoutText D layout, c.toNat < 128 := by
  intro c hc
  simp only [layoutText, List.mem_append, List.mem_cons] at hc
  obtain hc | hc | rfl | hc := hc
  · exact toNat_lt_of_all rfl hc
  · exact toNat_lt_of_word (D.word _ c hc)
  · decide
  · exact toNat_lt_of_mark (mem_tupleTail c hc) rfl

theorem header_eq (t : Tensor D) : t.header = (layoutText D (t.dtype, t.shape)).map asciiByte := by
  rw [← utf8_ofList (layoutText_ascii _), Tensor.header, layoutBytes, ← utf8_append]
  congr 1
  apply String.toList_injective
  simp [layoutText, tupleText]

theorem tensor_ext {t t' : Tensor D} (hdtype : t.dtype = t'.dtype) (hshape : t.shape = t'.shape)
    (hbytes : t.bytes = t'.bytes) : t = t' := by
  cases t
  cases t'
  cases hdtype
  cases hshape
  cases hbytes
  rfl

/-- Where a tensor ends is known from its layout. -/
theorem tensor_selfDelimiting : SelfDelimiting fun t : Tensor D ↦ t.header ++ t.bytes := by
  have hlayout := (layoutText_selfDelimiting D).map latin_injective fun a c hc ↦
    latin_asciiByte (layoutText_ascii a c hc)
  refine @SelfDelimiting.append (Tensor D) _ _ _ _ (fun t ↦ (t.dtype, t.shape)) _ hlayout header_eq ?_
  intro t t' r s hkey h
  obtain ⟨hdtype, hshape⟩ := Prod.mk.inj hkey
  have hlength : t.bytes.length = t'.bytes.length := by rw [t.length_bytes, t'.length_bytes, hdtype, hshape]
  obtain ⟨hbytes, hrs⟩ := List.append_inj h hlength
  exact ⟨tensor_ext hdtype hshape hbytes, hrs⟩

theorem restText_ends (gap : List Char) (closing : Char) (ns : List ℕ) :
    ∃ l, restText gap closing ns = l ++ [closing] := by
  induction ns with
  | nil => exact ⟨[], rfl⟩
  | cons n ns ih =>
    obtain ⟨l, hl⟩ := ih
    exact ⟨',' :: (gap ++ (digits n ++ l)), by rw [restText, hl]; simp⟩

theorem tupleTail_ends (ns : List ℕ) : ∃ l, tupleTail ns = l ++ [')'] := by
  obtain _ | ⟨n, _ | ⟨m, ns⟩⟩ := ns
  · exact ⟨[], rfl⟩
  · exact ⟨digits n ++ [','], by simp [tupleTail]⟩
  · obtain ⟨l, hl⟩ := restText_ends [' '] ')' (m :: ns)
    exact ⟨digits n ++ l, by rw [tupleTail, hl, List.append_assoc]⟩

/-- The bytes of `torch.`. -/
def torchBytes : Bytes := "torch.".toList.map asciiByte

/-- The full stop of `torch.` is the only one of a header, and a header ends with a parenthesis. -/
theorem header_shape (t : Tensor D) : ∃ l, t.header = torchBytes ++ (l ++ [41]) ∧ (46 : UInt8) ∉ l ++ [41] := by
  obtain ⟨l, hl⟩ := tupleTail_ends t.shape
  have htext : layoutText D (t.dtype, t.shape) =
      "torch.".toList ++ (((D.name t.dtype).toList ++ '(' :: l) ++ [')']) := by
    rw [layoutText, hl]
    simp
  have hstop : ∀ c ∈ ((D.name t.dtype).toList ++ '(' :: l) ++ [')'], c.toNat < 128 ∧ c ≠ '.' := by
    intro c hc
    have hmem : c ∈ (D.name t.dtype).toList ∨ c = '(' ∨ c ∈ tupleTail t.shape := by
      rw [hl]
      simpa [or_assoc] using hc
    obtain hc | rfl | hc := hmem
    · refine ⟨toNat_lt_of_word (D.word _ c hc), ?_⟩
      rintro rfl
      exact absurd (D.word _ _ hc) (by decide)
    · exact ⟨by decide, by decide⟩
    · refine ⟨toNat_lt_of_mark (mem_tupleTail c hc) rfl, ?_⟩
      rintro rfl
      exact absurd (mem_tupleTail _ hc) (by decide)
  refine ⟨((D.name t.dtype).toList ++ '(' :: l).map asciiByte, ?_, ?_⟩
  · rw [header_eq, htext, List.map_append, List.map_append]
    rfl
  · intro hmem
    have hmap : (46 : UInt8) ∈ (((D.name t.dtype).toList ++ '(' :: l) ++ [')']).map asciiByte := by
      rw [List.map_append]
      exact hmem
    obtain ⟨c, hc, hbyte⟩ := List.mem_map.mp hmap
    obtain ⟨hascii, hne⟩ := hstop c hc
    have hlatin := latin_asciiByte hascii
    rw [hbyte] at hlatin
    exact hne hlatin.symm

/-- A header does not begin inside another one. -/
theorem header_prefix {e f : Tensor D} {t X Y : Bytes} (ht : t ≠ []) (h : e.header ++ X = t ++ (f.header ++ Y)) :
    ∃ w, t = e.header ++ w ∧ X = w ++ (f.header ++ Y) := by
  obtain ⟨w, hw, hX⟩ | ⟨u, hu, hY⟩ := List.append_eq_append_iff.mp h
  · exact ⟨w, hw, hX⟩
  · obtain ⟨l, hl, hstop⟩ := header_shape e
    obtain ⟨l', hl', -⟩ := header_shape f
    by_cases hnil : u = []
    · subst hnil
      rw [List.append_nil] at hu
      exact ⟨[], by rw [List.append_nil, hu], hY.symm⟩
    · exfalso
      have hparen : (41 : UInt8) ∈ u := by
        have hlast := congrArg List.getLast? (hl.symm.trans hu)
        rw [← List.append_assoc, List.getLast?_concat, List.getLast?_append_of_ne_nil _ hnil] at hlast
        exact List.mem_of_getLast? hlast.symm
      rw [hl', List.append_assoc] at hY
      by_cases hlength : u.length < 6
      · have hpart : u = torchBytes.take u.length := by
          have htake := congrArg (List.take u.length) hY
          have hle : u.length ≤ torchBytes.length := hlength.le
          rw [List.take_left, List.take_append_of_le_length hle] at htake
          exact htake.symm
        rw [hpart] at hparen
        exact absurd (List.mem_of_mem_take hparen) (by decide)
      · have hdot : u[5]? = some 46 := by
          rw [← List.getElem?_append_left (show 5 < u.length by omega), ← hY]
          rfl
        have hpos := List.length_pos_iff.mpr ht
        have hfar := congrArg (fun l : Bytes ↦ l[t.length + 5]?) (hl.symm.trans hu)
        have htorch : torchBytes.length = 6 := rfl
        rw [List.getElem?_append_right (show torchBytes.length ≤ t.length + 5 by omega),
          List.getElem?_append_right (Nat.le_add_right _ _), Nat.add_sub_cancel_left, hdot] at hfar
        exact hstop (List.mem_of_getElem? hfar)

/-! ### Framing with JSON -/

theorem quoted_selfDelimiting : SelfDelimiting fun s : String ↦ JsonText.quoted (Text.ofString s) := by
  intro s t r r' h
  simp only [JsonText.quoted, List.cons_append, List.append_assoc, List.nil_append] at h
  have hscan := congrArg JsonText.scanString (List.cons.inj h).2
  rw [JsonText.scanString_quoted, JsonText.scanString_quoted,
    (JsonText.joined_eq_self_iff _).mpr (JsonText.whole_ofString s),
    (JsonText.joined_eq_self_iff _).mpr (JsonText.whole_ofString t)] at hscan
  obtain ⟨hst, hrr⟩ := Prod.mk.inj (Except.ok.inj hscan)
  exact ⟨JsonText.ofString_injective hst, hrr⟩

theorem toNat_digitChar (n : ℕ) : n.digitChar.toNat < 128 := by
  by_cases hn : n < 16
  · revert n
    decide
  · have hstar : n.digitChar = '*' := by
      unfold Nat.digitChar
      repeat rw [if_neg (by omega)]
    rw [hstar]
    decide

theorem unicodeEscape_ascii {n : ℕ} : ∀ c ∈ JsonText.unicodeEscape n, c.toNat < 128 := by
  intro c hc
  obtain rfl | hc := List.mem_cons.mp hc
  · decide
  · obtain rfl | hc := List.mem_cons.mp hc
    · decide
    · obtain ⟨d, -, rfl⟩ := List.mem_map.mp hc
      exact toNat_digitChar d

theorem escape_ascii (a : CodePoint) : ∀ c ∈ JsonText.escape a, c.toNat < 128 := by
  rw [JsonText.escape]
  cases hshort : JsonText.shortEscape? a with
  | some p =>
    have hvalues : ∀ p ∈ JsonText.shortEscapes, [JsonText.backslash, p.1].all (·.toNat < 128) = true := by decide
    intro c hc
    exact toNat_lt_of_all (hvalues p (List.mem_of_find?_eq_some hshort)) hc
  | none =>
    dsimp only
    split_ifs with hplain hsmall
    · intro c hc
      obtain rfl := List.mem_singleton.mp hc
      rw [JsonText.toNat_ofNat (by omega)]
      omega
    · exact unicodeEscape_ascii
    · intro c hc
      obtain hc | hc := List.mem_append.mp hc
      · exact unicodeEscape_ascii c hc
      · exact unicodeEscape_ascii c hc

theorem quoted_ascii (s : Text) : ∀ c ∈ JsonText.quoted s, c.toNat < 128 := by
  intro c hc
  simp only [JsonText.quoted, List.cons_append, List.mem_cons, List.mem_append, List.mem_flatMap,
    List.not_mem_nil, or_false] at hc
  obtain rfl | ⟨a, -, hc⟩ | rfl := hc
  · decide
  · exact escape_ascii a c hc
  · decide

theorem headerText_selfDelimiting : SelfDelimiting headerText := by
  rintro ⟨name, dtype, shape⟩ ⟨name', dtype', shape'⟩ r s h
  simp only [headerText, List.cons_append, List.append_assoc, List.nil_append] at h
  obtain ⟨hname, hrest⟩ := quoted_selfDelimiting name name' _ _ (List.cons.inj h).2
  obtain ⟨hdtype, hrest⟩ := quoted_selfDelimiting dtype dtype' _ _ (List.cons.inj hrest).2
  obtain ⟨hshape, hrest⟩ := listTail_selfDelimiting shape shape' _ _ (List.cons.inj (List.cons.inj hrest).2).2
  exact ⟨hname ▸ hdtype ▸ hshape ▸ rfl, (List.cons.inj hrest).2⟩

theorem headerText_ascii (layout : String × String × List ℕ) : ∀ c ∈ headerText layout, c.toNat < 128 := by
  intro c hc
  simp only [headerText, List.cons_append, List.append_assoc, List.mem_cons, List.mem_append,
    List.not_mem_nil, or_false] at hc
  obtain rfl | hc | rfl | hc | rfl | rfl | hc | rfl := hc
  · decide
  · exact quoted_ascii _ c hc
  · decide
  · exact quoted_ascii _ c hc
  · decide
  · decide
  · exact toNat_lt_of_mark (mem_listTail c hc) rfl
  · decide

theorem native_ext {a a' : NativeArray width} (hdtype : a.dtype = a'.dtype) (hshape : a.shape = a'.shape)
    (hbytes : a.bytes = a'.bytes) : a = a' := by
  cases a
  cases a'
  cases hdtype
  cases hshape
  cases hbytes
  rfl

theorem nativeEntry_selfDelimiting : SelfDelimiting (@nativeEntry width) := by
  have hheader := headerText_selfDelimiting.map latin_injective fun a c hc ↦ latin_asciiByte (headerText_ascii a c hc)
  refine @SelfDelimiting.append (String × NativeArray width) _ _ _ _ (fun e ↦ (e.1, e.2.dtype, e.2.shape)) _
    hheader (fun e ↦ utf8_ofList (headerText_ascii _)) ?_
  rintro ⟨name, a⟩ ⟨name', a'⟩ r s hkey h
  obtain ⟨hname, hlayout⟩ := Prod.mk.inj hkey
  obtain ⟨hdtype, hshape⟩ := Prod.mk.inj hlayout
  dsimp only at hname hdtype hshape h
  have hlength : a.bytes.length = a'.bytes.length := by rw [a.length_bytes, a'.length_bytes, hdtype, hshape]
  obtain ⟨hbytes, hrs⟩ := List.append_inj h hlength
  exact ⟨Prod.ext hname (native_ext hdtype hshape hbytes), hrs⟩

theorem nativeEntry_ne_nil (e : String × NativeArray width) : nativeEntry e ≠ [] := by
  rw [nativeEntry, utf8_ofList (headerText_ascii _)]
  exact List.cons_ne_nil _ _

theorem nativeHash_eq (backend : String) (s : State (NativeArray width)) : s.nativeHash backend =
    .ok (utf8 s!"splitfleet.native-state.v1:{backend}" ++ s.listed.flatMap nativeEntry) := by
  have hzip : s.entries.keys.zip s.entries.values = s.entries.entries := by
    rw [Dict.keys, Dict.values, ← List.unzip_fst, ← List.unzip_snd, List.zip_unzip]
  have hlength : s.entries.keys.length = s.entries.values.length := by
    rw [Dict.keys, Dict.values, List.length_map, List.length_map]
  rw [State.nativeHash, nativeArrayStateHash, require_of hlength, hzip]
  rfl

/-! ### States and their lists -/

section Listed

variable {τ : Type}

theorem mem_listed {s : State τ} {name : String} {v : τ} : (name, v) ∈ s.listed ↔ s.entries.get? name = some v := by
  rw [State.listed, mem_sortedBy, Dict.get?_eq_some_iff]

/-- The order in which a state lists its entries does not show. -/
theorem listed_eq_iff {s s' : State τ} : s.listed = s'.listed ↔ Same s s' := by
  constructor
  · intro h name
    apply Option.ext
    intro v
    rw [← mem_listed, ← mem_listed, h]
  · intro h
    refine sortedBy_congr _ (Dict.entries_perm_of_get? h) fun a ha b hb hname ↦ ?_
    exact List.inj_on_of_nodup_map s.entries.nodup ha hb hname

theorem named_of_mem_listed {s : State τ} {e : String × τ} (he : e ∈ s.listed) : e.1 ≠ "" :=
  s.named e.1 (List.mem_map_of_mem ((mem_sortedBy _).mp he))

end Listed

theorem utf8_ne_nil {s : String} (h : s ≠ "") : utf8 s ≠ [] := by
  intro hnil
  exact h (utf8_injective (hnil.trans rfl))

/-! ### When two streams can be told apart -/

/-- The name goes on, behind the name of the entry, with the data type and the shape of the entry. -/
def GoesOn (e : String × Tensor D) (name : String) : Prop := ∃ w, utf8 name = utf8 e.1 ++ (e.2.header ++ w)

/-- No name of the one list goes on with an entry of the other one. -/
def Apart (l l' : List (String × Tensor D)) : Prop := ∀ e ∈ l, ∀ f ∈ l', ¬GoesOn e f.1

theorem name_eq_of_stream {e f : String × Tensor D} {X Y : Bytes} (h : tensorEntry e ++ X = tensorEntry f ++ Y)
    (hef : ¬GoesOn e f.1) (hfe : ¬GoesOn f e.1) : e.1 = f.1 := by
  simp only [tensorEntry, List.append_assoc] at h
  obtain ⟨t, ht, hX⟩ | ⟨t, ht, hY⟩ := List.append_eq_append_iff.mp h
  · by_cases hnil : t = []
    · rw [hnil, List.append_nil] at ht
      exact (utf8_injective ht).symm
    · obtain ⟨w, hw, -⟩ := header_prefix hnil hX
      exact absurd ⟨w, hw ▸ ht⟩ hef
  · by_cases hnil : t = []
    · rw [hnil, List.append_nil] at ht
      exact utf8_injective ht
    · obtain ⟨w, hw, -⟩ := header_prefix hnil hY
      exact absurd ⟨w, hw ▸ ht⟩ hfe

theorem tensorStream_injective_of_apart {l l' : List (String × Tensor D)} (hl : ∀ e ∈ l, e.1 ≠ "")
    (hl' : ∀ e ∈ l', e.1 ≠ "") (hll' : Apart l l') (hl'l : Apart l' l) (h : tensorStream l = tensorStream l') :
    l = l' := by
  have hne : ∀ e : String × Tensor D, e.1 ≠ "" → ∀ X, tensorEntry e ++ X ≠ [] := by
    intro e he X hnil
    exact utf8_ne_nil he (List.append_eq_nil_iff.mp (List.append_eq_nil_iff.mp hnil).1).1
  induction l generalizing l' with
  | nil =>
    cases l' with
    | nil => rfl
    | cons f fs => exact absurd h.symm (hne f (hl' f List.mem_cons_self) _)
  | cons e es ih =>
    cases l' with
    | nil => exact absurd h (hne e (hl e List.mem_cons_self) _)
    | cons f fs =>
      have hef := hll' e List.mem_cons_self f List.mem_cons_self
      have hfe := hl'l f List.mem_cons_self e List.mem_cons_self
      rw [tensorStream, tensorStream, List.flatMap_cons, List.flatMap_cons] at h
      have hname := name_eq_of_stream h hef hfe
      rw [tensorEntry, tensorEntry, hname, List.append_assoc (utf8 f.1), List.append_assoc (utf8 f.1)] at h
      obtain ⟨htensor, hrest⟩ := tensor_selfDelimiting e.2 f.2 _ _ (List.append_cancel_left h)
      rw [Prod.ext hname htensor, ih (fun e he ↦ hl e (List.mem_cons_of_mem _ he))
        (fun e he ↦ hl' e (List.mem_cons_of_mem _ he))
        (fun e he f hf ↦ hll' e (List.mem_cons_of_mem _ he) f (List.mem_cons_of_mem _ hf))
        (fun e he f hf ↦ hl'l e (List.mem_cons_of_mem _ he) f (List.mem_cons_of_mem _ hf)) hrest]

/-! ### The streams of a layout -/

/-- What an entry is without its bytes. -/
def layout (e : String × Tensor D) : String × δ × List ℕ := (e.1, e.2.dtype, e.2.shape)

/-- The entries of a state without their bytes. -/
def State.layout (s : State (Tensor D)) : List (String × δ × List ℕ) := s.listed.map ModelStateHash.layout

/-- What a layout fixes of the stream of an entry. -/
def holed (D : TorchDtypes δ) (x : String × δ × List ℕ) : List (Option UInt8) :=
  (utf8 x.1 ++ layoutBytes D x.2.1 x.2.2).map some ++ List.replicate (x.2.2.prod * D.itemsize x.2.1) none

def pattern (D : TorchDtypes δ) (L : List (String × δ × List ℕ)) : List (Option UInt8) := L.flatMap (holed D)

/-- As long as each other, and the same wherever both are fixed. -/
def Fits (p q : List (Option UInt8)) : Prop := List.Forall₂ (fun a b ↦ ∀ x ∈ a, ∀ y ∈ b, x = y) p q

def Fills (z : Bytes) (p : List (Option UInt8)) : Prop := List.Forall₂ (fun x a ↦ ∀ y ∈ a, x = y) z p

theorem fits_iff {p q : List (Option UInt8)} : Fits p q ↔ ∃ z, Fills z p ∧ Fills z q := by
  constructor
  · intro h
    induction h with
    | nil => exact ⟨[], .nil, .nil⟩
    | @cons a b p q hab _ ih =>
      obtain ⟨z, hp, hq⟩ := ih
      cases a with
      | none => exact ⟨b.getD 0 :: z, .cons (by simp) hp, .cons (by rintro y rfl; rfl) hq⟩
      | some x => exact ⟨x :: z, .cons (by rintro y ⟨⟩; rfl) hp, .cons (hab x rfl) hq⟩
  · rintro ⟨z, hp, hq⟩
    induction hp generalizing q with
    | nil =>
      cases hq
      exact .nil
    | @cons x a z p hxa _ ih =>
      cases hq with
      | cons hxb hq => exact .cons (fun y hy y' hy' ↦ (hxa y hy).symm.trans (hxb y' hy')) (ih hq)

theorem fills_map_some {z b : Bytes} : Fills z (b.map some) ↔ z = b := by
  rw [Fills, List.forall₂_map_right_iff]
  simp only [Option.mem_def, Option.some.injEq, forall_eq']
  exact List.forall₂_eq_eq_eq ▸ Iff.rfl

theorem fills_replicate {z : Bytes} {n : ℕ} : Fills z (List.replicate n none) ↔ z.length = n := by
  constructor
  · intro h
    rw [h.length_eq, List.length_replicate]
  · rintro rfl
    induction z with
    | nil => exact .nil
    | cons x z ih => exact .cons (by simp) ih

theorem fills_append {z : Bytes} {p q : List (Option UInt8)} :
    Fills z (p ++ q) ↔ ∃ u v, z = u ++ v ∧ Fills u p ∧ Fills v q := by
  constructor
  · intro h
    exact ⟨_, _, (List.take_append_drop p.length z).symm, List.forall₂_take_append z p q h,
      List.forall₂_drop_append z p q h⟩
  · rintro ⟨u, v, rfl, hu, hv⟩
    exact List.rel_append hu hv

/-- What fills the holes of an entry are the bytes of a tensor. -/
theorem fills_holed {z : Bytes} {x : String × δ × List ℕ} :
    Fills z (holed D x) ↔ ∃ e : String × Tensor D, layout e = x ∧ z = tensorEntry e := by
  rw [holed, fills_append]
  constructor
  · rintro ⟨u, v, rfl, hu, hv⟩
    rw [fills_map_some] at hu
    rw [fills_replicate] at hv
    exact ⟨(x.1, ⟨x.2.1, x.2.2, v, hv⟩), rfl, by rw [hu, List.append_assoc]; rfl⟩
  · rintro ⟨e, rfl, rfl⟩
    exact ⟨_, e.2.bytes, (List.append_assoc _ _ _).symm, fills_map_some.mpr rfl, fills_replicate.mpr e.2.length_bytes⟩

theorem fills_pattern {z : Bytes} {L : List (String × δ × List ℕ)} :
    Fills z (pattern D L) ↔ ∃ l : List (String × Tensor D), l.map layout = L ∧ z = tensorStream l := by
  induction L generalizing z with
  | nil =>
    constructor
    · intro h
      exact ⟨[], rfl, List.forall₂_nil_right_iff.mp h⟩
    · rintro ⟨l, hl, rfl⟩
      rw [List.map_eq_nil_iff.mp hl]
      exact .nil
  | cons x L ih =>
    rw [pattern, List.flatMap_cons, fills_append]
    constructor
    · rintro ⟨u, v, rfl, hu, hv⟩
      obtain ⟨e, he, rfl⟩ := fills_holed.mp hu
      obtain ⟨l, hl, rfl⟩ := ih.mp hv
      exact ⟨e :: l, by rw [List.map_cons, he, hl], rfl⟩
    · rintro ⟨l, hl, rfl⟩
      cases l with
      | nil => cases hl
      | cons e l =>
        obtain ⟨he, hl⟩ := List.cons.inj hl
        exact ⟨_, _, rfl, fills_holed.mpr ⟨e, he, rfl⟩, ih.mpr ⟨l, hl, rfl⟩⟩

/-- A layout and a stream leave one list of entries. -/
theorem eq_of_layout_eq {l l' : List (String × Tensor D)} (hlayout : l.map layout = l'.map layout)
    (h : tensorStream l = tensorStream l') : l = l' := by
  induction l generalizing l' with
  | nil => exact (List.map_eq_nil_iff.mp hlayout.symm).symm
  | cons e es ih =>
    cases l' with
    | nil => cases hlayout
    | cons f fs =>
      obtain ⟨hef, hrest⟩ := List.cons.inj hlayout
      obtain ⟨hname, -⟩ := Prod.mk.inj hef
      rw [tensorStream, tensorStream, List.flatMap_cons, List.flatMap_cons, tensorEntry, tensorEntry, hname,
        List.append_assoc (utf8 f.1), List.append_assoc (utf8 f.1)] at h
      obtain ⟨htensor, htail⟩ := tensor_selfDelimiting e.2 f.2 _ _ (List.append_cancel_left h)
      rw [Prod.ext hname htensor, ih hrest htail]

/-- A state of the same layout with other bytes. -/
theorem exists_listed {s : State (Tensor D)} {l : List (String × Tensor D)} (hl : l.map layout = s.layout) :
    ∃ t : State (Tensor D), t.listed = l := by
  have hnames : l.map Prod.fst = s.listed.map Prod.fst := by
    have hfst := congrArg (List.map Prod.fst) hl
    rw [State.layout, List.map_map, List.map_map] at hfst
    exact hfst
  have hnodup : (l.map Prod.fst).Nodup := by
    rw [hnames]
    exact ((sortedBy_perm _ s.entries.entries).map Prod.fst).nodup_iff.mpr s.entries.nodup
  have hsorted : l.Pairwise fun a b ↦ a.1 ≤ b.1 := by
    have hpairwise := pairwise_sortedBy Prod.fst s.entries.entries
    rw [← List.pairwise_map (f := Prod.fst) (R := (· ≤ ·))] at hpairwise ⊢
    rw [hnames]
    exact hpairwise
  refine ⟨⟨⟨l, hnodup⟩, fun name hname ↦ ?_⟩, sortedBy_of_pairwise _ hsorted⟩
  rw [Dict.keys, hnames] at hname
  obtain ⟨e, he, rfl⟩ := List.mem_map.mp hname
  exact named_of_mem_listed he

/-- The states of two layouts can be told apart where the layouts are one or do not fit. -/
theorem layouts_apart_iff (s s' : State (Tensor D)) :
    (∀ t t' : State (Tensor D), t.layout = s.layout → t'.layout = s'.layout →
      tensorStateHash t = tensorStateHash t' → Same t t') ↔
    (Fits (pattern D s.layout) (pattern D s'.layout) → s.layout = s'.layout) := by
  constructor
  · intro h hfits
    obtain ⟨z, hz, hz'⟩ := fits_iff.mp hfits
    obtain ⟨l, hl, hstream⟩ := fills_pattern.mp hz
    obtain ⟨l', hl', hstream'⟩ := fills_pattern.mp hz'
    obtain ⟨t, ht⟩ := exists_listed hl
    obtain ⟨t', ht'⟩ := exists_listed hl'
    have hsame := h t t' (by rw [State.layout, ht, hl]) (by rw [State.layout, ht', hl'])
      (by rw [tensorStateHash, tensorStateHash, ht, ht', ← hstream, hstream'])
    rw [← hl, ← hl', ← ht, ← ht', listed_eq_iff.mpr hsame]
  · intro h t t' ht ht' hstream
    have hfits : Fits (pattern D s.layout) (pattern D s'.layout) := by
      rw [← ht, ← ht']
      exact fits_iff.mpr ⟨_, fills_pattern.mpr ⟨_, rfl, rfl⟩, fills_pattern.mpr ⟨_, rfl, hstream⟩⟩
    exact listed_eq_iff.mp (eq_of_layout_eq (ht.trans ((h hfits).trans ht'.symm)) hstream)

/-- Where no name goes on with an entry of the other state, a stream belongs to one state. -/
theorem same_of_apart {s s' : State (Tensor D)} (hs : Apart s.listed s'.listed) (hs' : Apart s'.listed s.listed)
    (h : tensorStateHash s = tensorStateHash s') : Same s s' :=
  listed_eq_iff.mp
    (tensorStream_injective_of_apart (fun _ ↦ named_of_mem_listed) (fun _ ↦ named_of_mem_listed) hs hs' h)

theorem same_of_nativeHash_eq {backend : String} {s s' : State (NativeArray width)}
    (h : s.nativeHash backend = s'.nativeHash backend) : Same s s' := by
  rw [nativeHash_eq, nativeHash_eq] at h
  refine listed_eq_iff.mp (nativeEntry_selfDelimiting.flatMap_injective nativeEntry_ne_nil ?_)
  exact List.append_cancel_left (Except.ok.inj h)

inductive CommonDtype
  | float32
  | int64
  | uint8
  deriving DecidableEq

def CommonDtype.text : CommonDtype → String
  | .float32 => "float32"
  | .int64 => "int64"
  | .uint8 => "uint8"

def CommonDtype.itemsize : CommonDtype → ℕ
  | .float32 => 4
  | .int64 => 8
  | .uint8 => 1

def commonDtypes : TorchDtypes CommonDtype where
  name := CommonDtype.text
  itemsize := CommonDtype.itemsize
  name_injective := by
    intro a b
    cases a <;> cases b <;> decide
  word := by
    have hall : ∀ d : CommonDtype, d.text.toList.all (fun c ↦ c.isAlphanum || c = '_') = true := by
      intro d
      cases d <;> decide
    intro d c hc
    have hword := List.all_eq_true.mp (hall d) c hc
    rwa [Bool.or_eq_true, decide_eq_true_eq] at hword

/-- `torch.empty(0, dtype=torch.uint8)` -/
def emptyTensor : Tensor commonDtypes := ⟨.uint8, [0], [], rfl⟩

def twoBuffers : State (Tensor commonDtypes) where
  entries := ⟨[("a", emptyTensor), ("b", emptyTensor)], by decide⟩
  named := by decide

/-- The buffer `uint8(0,)b` of the child `atorch`. -/
def oneBuffer : State (Tensor commonDtypes) where
  entries := ⟨[("atorch.uint8(0,)b", emptyTensor)], by decide⟩
  named := by decide

end SplitFleet.ModelStateHash
