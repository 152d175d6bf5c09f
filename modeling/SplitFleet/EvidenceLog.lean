import SplitFleet.Lib.JsonSpelling
import SplitFleet.Lib.TextLines

set_option autoImplicit false

namespace SplitFleet.EvidenceLog

open Lib Lib.JsonText Lib.TextLines

/-! ### The rows of an evidence file -/

/-- A key of a Python dictionary, as the encoder tells them apart. -/
inductive RowKey
  | str (s : Text)
  | float (x : Float.Model)
  | bool (b : Bool)
  | none
  | int (z : ℤ)
  | other (type : String)

/-- A Python value that is appended: `generic` is a NumPy scalar with its `item()`, `other` has no rule. -/
inductive RowValue
  | none
  | bool (b : Bool)
  | int (z : ℤ)
  | float (x : Float.Model)
  | str (s : Text)
  | list (items : List RowValue)
  | dict (fields : List (RowKey × RowValue))
  | generic (item : RowValue)
  | path (s : Text)
  | other (type : String)

/-- `ensure_ascii=False, allow_nan=False` -/
def evidenceOptions : Options :=
  ⟨false, false, [' '], [' '], Options.standard.item_blank, Options.standard.key_blank⟩

def asText (t : List Char) : Text := t.map fun c ↦ codePoint c.toNat

/-- What the encoder makes of a key. -/
def RowKey.text : RowKey → Except PyError Text
  | .str s => .ok s
  | .float x => (writeFloat evidenceOptions x).map asText
  | .bool b => .ok (asText (if b then "true" else "false").toList)
  | .none => .ok (asText "null".toList)
  | .int z => (writeInt z).map asText
  | .other type => .error (.raised "TypeError" s!"keys must be str, int, float, bool or None, not {type}")

mutual

/-- The value that is encoded, with `json_value` for what JSON does not have. -/
def RowValue.plain : RowValue → Except PyError Value
  | .none => .ok .null
  | .bool b => .ok (.bool b)
  | .int z => .ok (.int z)
  | .float x => .ok (.float x)
  | .str s => .ok (.str s)
  | .list items => (plainItems items).map .arr
  | .dict fields => (plainFields fields).map .obj
  | .generic item => item.plain
  | .path s => .ok (.str s)
  | .other type => .error (.raised "TypeError" s!"Not a JSON evidence value: {type}")

def plainItems : List RowValue → Except PyError (List Value)
  | [] => .ok []
  | v :: items => do
    let a ← v.plain
    let l ← plainItems items
    return a :: l

def plainFields : List (RowKey × RowValue) → Except PyError (List (Text × Value))
  | [] => .ok []
  | (k, v) :: fields => do
    let key ← k.text
    let a ← v.plain
    let l ← plainFields fields
    return (key, a) :: l

end

/-- The line of a row, and the value that stands in it. -/
def line (depth : ℕ) (row : RowValue) : Except PyError (Value × List Char) := do
  let v ← row.plain
  let t ← write evidenceOptions v depth
  return (v, t)

/-- `append`: what is returned or raised, and the file afterwards. -/
def append (depth : ℕ) (file : List Char) (row : RowValue) : Except PyError Unit × List Char :=
  match line depth row with
  | .ok p => (.ok (), file ++ (p.2 ++ ['\n']))
  | .error e => (.error e, file)

/-- The file after the rows of a run. -/
def appendAll (depth : ℕ) (rows : List RowValue) (file : List Char) : List Char :=
  rows.foldl (fun file row ↦ (append depth file row).2) file

/-- `read_rows` -/
def readRows (room : ℕ) (file : List Char) : Except PyError (List Value) :=
  (splitlines (universalNewlines file)).mapM (loads room)

/-- The rows that `append` has not refused. -/
def accepted (depth : ℕ) (rows : List RowValue) : List Value :=
  rows.filterMap fun row ↦ (line depth row).toOption.map Prod.fst

/-- NEL and the line and paragraph separators of Unicode: JSON leaves them as they are. -/
def isSeparator (c : CodePoint) : Bool := c.val = 0x85 || c.val = 0x2028 || c.val = 0x2029

/-- A string or a key of the value has a separator in it. -/
def HasSeparator (v : Value) : Prop := ∃ c ∈ v.chars, isSeparator c = true

theorem evidenceOptions_raw : evidenceOptions.Raw :=
  ⟨rfl, .ascii (by simp [evidenceOptions]), .ascii (by simp [evidenceOptions])⟩

theorem isBoundary_iff {c : Char} (hc : 32 ≤ c.toNat) :
    isBoundary c = true ↔ c.toNat = 0x85 ∨ c.toNat = 0x2028 ∨ c.toNat = 0x2029 := by
  simp only [isBoundary, List.contains_cons, List.contains_nil, Bool.or_eq_true, beq_iff_eq, Bool.false_eq_true,
    or_false]
  omega

theorem boundary_mem_write_iff {v : Value} {depth : ℕ} {t : List Char} (h : write evidenceOptions v depth = .ok t) :
    (∃ c ∈ t, isBoundary c = true) ↔ HasSeparator v := by
  have hspells := spells_write evidenceOptions_raw h
  constructor
  · rintro ⟨c, hc, hboundary⟩
    rw [isBoundary_iff (hspells.printable c hc)] at hboundary
    obtain ⟨p, hp, hval⟩ := (hspells.high c (by omega)).mp hc
    refine ⟨p, hp, ?_⟩
    simpa [isSeparator, hval, or_assoc] using hboundary
  · rintro ⟨p, hp, hseparator⟩
    have hval : p.val = 0x85 ∨ p.val = 0x2028 ∨ p.val = 0x2029 := by
      simpa [isSeparator, or_assoc] using hseparator
    have hnat : (Char.ofNat p.val).toNat = p.val := by
      refine toNat_ofNat ?_
      omega
    refine ⟨Char.ofNat p.val, (hspells.high _ (by omega)).mpr ⟨p, hp, hnat.symm⟩, ?_⟩
    rw [isBoundary_iff (by omega), hnat]
    exact hval

/-- The lines of a file that rows were appended to. -/
def fileOf (texts : List (List Char)) : List Char := texts.flatMap (· ++ ['\n'])

theorem fileOf_cons (t : List Char) (texts : List (List Char)) : fileOf (t :: texts) = t ++ '\n' :: fileOf texts := by
  rw [fileOf, List.flatMap_cons, List.append_assoc]
  rfl

theorem line_eq_ok {depth : ℕ} {row : RowValue} {p : Value × List Char} (h : line depth row = .ok p) :
    write evidenceOptions p.1 depth = .ok p.2 := by
  obtain ⟨v, -, h⟩ := bind_eq_ok h
  obtain ⟨t, ht, h⟩ := bind_eq_ok h
  cases h
  exact ht

/-- The file holds one line for each accepted row, in the order of the calls. -/
theorem exists_texts (depth : ℕ) (rows : List RowValue) (file : List Char) :
    ∃ texts, appendAll depth rows file = file ++ fileOf texts ∧
      List.Forall₂ (fun t v ↦ write evidenceOptions v depth = .ok t) texts (accepted depth rows) := by
  induction rows generalizing file with
  | nil => exact ⟨[], (List.append_nil file).symm, .nil⟩
  | cons row rows ih =>
    cases hline : line depth row with
    | error e =>
      obtain ⟨texts, hfile, htexts⟩ := ih file
      refine ⟨texts, ?_, ?_⟩
      · rw [← hfile, appendAll, List.foldl_cons, append, hline]
        rfl
      · rw [accepted, List.filterMap_cons, hline]
        exact htexts
    | ok p =>
      obtain ⟨texts, hfile, htexts⟩ := ih (file ++ (p.2 ++ ['\n']))
      refine ⟨p.2 :: texts, ?_, ?_⟩
      · rw [fileOf, List.flatMap_cons, ← List.append_assoc, ← fileOf, ← hfile, appendAll, List.foldl_cons, append,
          hline]
        rfl
      · rw [accepted, List.filterMap_cons, hline]
        exact .cons (line_eq_ok hline) htexts

theorem return_notMem {depth : ℕ} {texts : List (List Char)} {values : List Value}
    (h : List.Forall₂ (fun t v ↦ write evidenceOptions v depth = .ok t) texts values) : '\r' ∉ fileOf texts := by
  induction h with
  | nil => exact List.not_mem_nil
  | cons ht _ ih =>
    rw [fileOf, List.flatMap_cons, List.mem_append, List.mem_append, ← fileOf]
    rintro ((hreturn | hreturn) | hreturn)
    · exact absurd ((spells_write evidenceOptions_raw ht).printable _ hreturn) (by decide)
    · exact absurd hreturn (by decide)
    · exact ih hreturn

section Reading

variable {depth room : ℕ} (hroom : depth ≤ room) {texts : List (List Char)} {values : List Value}

include hroom

theorem mapM_loads (h : List.Forall₂ (fun t v ↦ write evidenceOptions v depth = .ok t) texts values)
    (hvalues : ∀ v ∈ values, ¬HasSeparator v) :
    (splitlines (fileOf texts)).mapM (loads room) = .ok (values.map Value.loaded) := by
  induction h with
  | nil => rfl
  | @cons t v texts values ht hts ih =>
    rw [List.forall_mem_cons] at hvalues
    have hl : ∀ c ∈ t, ¬isBoundary c = true := fun c hc hboundary ↦
      hvalues.1 ((boundary_mem_write_iff ht).mp ⟨c, hc, hboundary⟩)
    rw [fileOf_cons, splitlines_append hl (by decide) (by decide), List.mapM_cons, loads_write ht hroom, ok_bind,
      ih hvalues.2]
    rfl

/-- A line that a separator has cut is no JSON text. -/
theorem loads_cut {v : Value} {l u : List Char} {c : Char} (h : write evidenceOptions v depth = .ok (l ++ c :: u))
    (hc : isBoundary c = true) : c ≠ '\r' ∧ ∃ e, loads room l = .error e ∧ ScanError e := by
  have hprintable := (spells_write evidenceOptions_raw h).printable c (List.mem_append_right l List.mem_cons_self)
  have hlarge := (isBoundary_iff hprintable).mp hc
  have hne {d : Char} (hd : d.toNat < 127) : c ≠ d := by
    rintro rfl
    omega
  have hstops : Stops [c] := by
    rintro d ⟨⟩
    refine ⟨fun hdigit ↦ ?_, hne (by decide), hne (by decide), hne (by decide), hne (by decide), hne (by decide)⟩
    have := (Numeric.ascii (.inl hdigit)).2
    omega
  refine ⟨hne (by decide), ?_⟩
  cases hloads : loads room l with
  | error e => exact ⟨e, rfl, loads_error hloads⟩
  | ok w => exact absurd hloads (loads_take_write h hroom hstops w)

/-- Reading stops at the first row that has a separator. -/
theorem mapM_loads_error (h : List.Forall₂ (fun t v ↦ write evidenceOptions v depth = .ok t) texts values)
    (hvalues : ∃ v ∈ values, HasSeparator v) :
    ∃ e, (splitlines (fileOf texts)).mapM (loads room) = .error e ∧ ScanError e := by
  induction h with
  | nil =>
    obtain ⟨v, hv, -⟩ := hvalues
    exact absurd hv List.not_mem_nil
  | @cons t v texts values ht hts ih =>
    by_cases hv : HasSeparator v
    · obtain ⟨l, c, u, rfl, hc, hl⟩ := exists_cut ((boundary_mem_write_iff ht).mpr hv)
      obtain ⟨hreturn, e, he, hscan⟩ := loads_cut hroom ht hc
      refine ⟨e, ?_, hscan⟩
      rw [fileOf_cons, List.append_assoc, List.cons_append, splitlines_append hl hc hreturn, List.mapM_cons, he]
      rfl
    · have hl : ∀ c ∈ t, ¬isBoundary c = true := fun c hc hboundary ↦
        hv ((boundary_mem_write_iff ht).mp ⟨c, hc, hboundary⟩)
      have hrest : ∃ v ∈ values, HasSeparator v := by
        obtain ⟨w, hw, hseparator⟩ := hvalues
        have hne : w ≠ v := by
          rintro rfl
          exact hv hseparator
        exact ⟨w, List.mem_of_ne_of_mem hne hw, hseparator⟩
      obtain ⟨e, he, hscan⟩ := ih hrest
      refine ⟨e, ?_, hscan⟩
      rw [fileOf_cons, splitlines_append hl (by decide) (by decide), List.mapM_cons, loads_write ht hroom, ok_bind, he]
      rfl

end Reading

example : appendAll 1 [.dict [(.str (Text.ofString "a"), .int 1)], .other "set"] [] =
    "\x7b\x22a\x22: 1\x7d\n".toList := by
  decide +kernel

end SplitFleet.EvidenceLog
