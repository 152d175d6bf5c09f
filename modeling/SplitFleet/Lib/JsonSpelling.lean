import SplitFleet.Lib.JsonPrefix

set_option autoImplicit false

namespace SplitFleet.Lib.JsonText

/-! ### The characters of a written value -/

/-- The text has no control characters, and beyond ASCII the given ones. -/
structure Spells (t : List Char) (cs : Text) : Prop where
  printable : ∀ c ∈ t, 32 ≤ c.toNat
  high : ∀ c : Char, 127 ≤ c.toNat → (c ∈ t ↔ ∃ p ∈ cs, p.val = c.toNat)

namespace Spells

variable {t u : List Char} {cs ds : Text}

theorem ascii (h : ∀ c ∈ t, 32 ≤ c.toNat ∧ c.toNat < 127) : Spells t [] := by
  refine ⟨fun c hc ↦ (h c hc).1, fun c hhigh ↦ ⟨fun hc ↦ ?_, ?_⟩⟩
  · exact absurd hhigh (Nat.not_le_of_lt (h c hc).2)
  · rintro ⟨p, hp, -⟩
    exact absurd hp List.not_mem_nil

theorem append (ht : Spells t cs) (hu : Spells u ds) : Spells (t ++ u) (cs ++ ds) := by
  refine ⟨fun c hc ↦ (List.mem_append.mp hc).elim (ht.printable c) (hu.printable c), fun c hhigh ↦ ?_⟩
  rw [List.mem_append, ht.high c hhigh, hu.high c hhigh]
  simp only [List.mem_append, or_and_right, exists_or]

theorem cons {c : Char} (hc : 32 ≤ c.toNat ∧ c.toNat < 127) (ht : Spells t cs) : Spells (c :: t) cs :=
  append (t := [c]) (ascii (by simpa using hc)) ht

theorem flatMap {α : Type} {f : α → List Char} {g : α → Text} {l : List α} (h : ∀ a ∈ l, Spells (f a) (g a)) :
    Spells (l.flatMap f) (l.flatMap g) := by
  induction l with
  | nil => exact ascii (by simp)
  | cons a l ih =>
    rw [List.forall_mem_cons] at h
    rw [List.flatMap_cons, List.flatMap_cons]
    exact h.1.append (ih h.2)

theorem intercalate {sep : List Char} (hsep : Spells sep []) {ts : List (List Char)} {l : List Text}
    (h : List.Forall₂ Spells ts l) : Spells (List.intercalate sep ts) l.flatten := by
  induction h with
  | nil => exact ascii (by simp)
  | @cons t cs ts l ht hts ih =>
    cases hts with
    | nil =>
      rw [List.intercalate_singleton, List.flatten_cons, List.flatten_nil, List.append_nil]
      exact ht
    | cons hu hus =>
      rw [List.intercalate_cons_cons, List.flatten_cons, List.append_assoc]
      exact ht.append (hsep.append ih)

end Spells

/-! ### Numbers -/

/-- A character that a numeral may have. -/
def Numeric (c : Char) : Prop := c.isDigit = true ∨ c = '.' ∨ c = 'e' ∨ c = 'E' ∨ c = '-' ∨ c = '+'

theorem Numeric.ascii {c : Char} (h : Numeric c) : 32 ≤ c.toNat ∧ c.toNat < 127 := by
  rcases h with h | rfl | rfl | rfl | rfl | rfl
  · simp only [Char.isDigit, Bool.and_eq_true, decide_eq_true_eq] at h
    obtain ⟨h1, h2⟩ := h
    have h1' : 48 ≤ c.toNat := h1
    have h2' : c.toNat ≤ 57 := h2
    omega
  all_goals decide

/-- What the scanner has read of the text is part of a numeral. -/
def Eats (t u : List Char) : Prop := ∃ w, t = w ++ u ∧ ∀ c ∈ w, Numeric c

namespace Eats

variable {t u v : List Char}

theorem refl (t : List Char) : Eats t t := ⟨[], rfl, by simp⟩

theorem trans (h : Eats t u) (h' : Eats u v) : Eats t v := by
  obtain ⟨w, rfl, hw⟩ := h
  obtain ⟨x, rfl, hx⟩ := h'
  exact ⟨w ++ x, (List.append_assoc w x v).symm, fun c hc ↦ (List.mem_append.mp hc).elim (hw c) (hx c)⟩

theorem cons {c : Char} (hc : Numeric c) (h : Eats t u) : Eats (c :: t) u := by
  obtain ⟨w, rfl, hw⟩ := h
  exact ⟨c :: w, rfl, List.forall_mem_cons.mpr ⟨hc, hw⟩⟩

theorem digits (t : List Char) : Eats t (t.dropWhile Char.isDigit) :=
  ⟨t.takeWhile Char.isDigit, List.takeWhile_append_dropWhile.symm, fun _ hc ↦ .inl (List.mem_takeWhile_imp hc)⟩

theorem wholePart {whole : List Char} (h : wholePart? t = some (whole, u)) : Eats t u := by
  cases t with
  | nil => cases h
  | cons c t =>
    rw [wholePart?] at h
    split_ifs at h with hzero hdigit
    · cases h
      exact cons (hzero ▸ .inl (by decide)) (refl _)
    · cases h
      exact digits (c :: t)

theorem fraction {f : List Char} (h : fraction? t = some (f, u)) : Eats t u := by
  cases t with
  | nil => cases h
  | cons c t =>
    rw [fraction?] at h
    split_ifs at h with hpoint
    cases h
    exact cons (.inr (.inl hpoint.1)) (digits t)

theorem signOf (t : List Char) : Eats t (Lib.signOf t).2 := by
  cases t with
  | nil => exact refl []
  | cons c t =>
    by_cases hminus : c = '-'
    · subst hminus
      exact cons (by simp [Numeric]) (refl t)
    · by_cases hplus : c = '+'
      · subst hplus
        exact cons (by simp [Numeric]) (refl t)
      · rw [signOf_of_ne hminus hplus]
        exact refl _

theorem exponent {e : ℤ} (h : exponent? t = some (e, u)) : Eats t u := by
  cases t with
  | nil => cases h
  | cons c t =>
    rw [exponent?] at h
    split_ifs at h with hc
    cases h
    exact cons (.inr (.inr (hc.1.imp_right .inl))) ((signOf t).trans (digits _))

theorem number {x : Value} (h : scanNumber t = .ok (x, u)) : Eats t u := by
  rw [scanNumber] at h
  have hminus : Eats t (if minus? t then t.tail else t) := by
    split_ifs with hminus
    · cases t with
      | nil => exact refl []
      | cons c t =>
        have hc : c = '-' := by simpa [minus?] using hminus
        exact cons (by simp [Numeric, hc]) (refl t)
    · exact refl t
  cases hwhole : wholePart? (if minus? t then t.tail else t) with
  | none =>
    rw [hwhole] at h
    cases h
  | some p =>
    obtain ⟨whole, w⟩ := p
    rw [hwhole] at h
    dsimp only at h
    refine hminus.trans ((wholePart hwhole).trans ?_)
    cases hfraction : fraction? w with
    | none =>
      rw [hfraction] at h
      cases hexponent : exponent? w with
      | none =>
        rw [hexponent] at h
        dsimp only at h
        by_cases hlong : maxStrDigits < whole.length
        · rw [if_pos hlong] at h
          cases h
        · rw [if_neg hlong] at h
          cases h
          exact refl _
      | some q =>
        rw [hexponent] at h
        cases h
        exact exponent hexponent
    | some q =>
      rw [hfraction] at h
      dsimp only at h
      refine (fraction hfraction).trans ?_
      cases hexponent : exponent? q.2 with
      | none =>
        rw [hexponent] at h
        cases h
        exact refl _
      | some r =>
        rw [hexponent] at h
        cases h
        exact exponent hexponent

end Eats

theorem spells_number {t : List Char} {v : Value} (h : scanNumber t = .ok (v, [])) : Spells t [] := by
  obtain ⟨w, rfl, hw⟩ := Eats.number h
  rw [List.append_nil]
  exact .ascii fun c hc ↦ (hw c hc).ascii

/-! ### Values -/

mutual

/-- The characters of the strings and of the keys. -/
def Value.chars : Value → Text
  | .null => []
  | .bool _ => []
  | .int _ => []
  | .float _ => []
  | .str s => s
  | .arr items => charsOfItems items
  | .obj fields => charsOfFields fields

def charsOfItems : List Value → Text
  | [] => []
  | v :: items => v.chars ++ charsOfItems items

def charsOfFields : List (Text × Value) → Text
  | [] => []
  | (k, v) :: fields => k ++ v.chars ++ charsOfFields fields

end

theorem spells_unicodeEscape {n : ℕ} (hn : n < 0x10000) : Spells (unicodeEscape n) [] := by
  have hdigit : ∀ d < 16, 32 ≤ d.digitChar.toNat ∧ d.digitChar.toNat < 127 := by decide
  refine .ascii ?_
  simp only [unicodeEscape, hex4, List.map_cons, List.map_nil, List.forall_mem_cons]
  exact ⟨by decide, by decide, hdigit _ (by omega), hdigit _ (by omega), hdigit _ (by omega), hdigit _ (by omega),
    by simp⟩

theorem spells_escapeRaw {c : CodePoint} (hc : isSurrogate c = false) : Spells (escapeRaw c) [c] := by
  have hlow {t : List Char} (ht : Spells t []) (h : c.val < 127) : Spells t [c] := by
    refine ⟨ht.printable, fun d hd ↦ ?_⟩
    rw [ht.high d hd]
    simp only [List.not_mem_nil, false_and, exists_false, List.mem_singleton, exists_eq_left, false_iff]
    omega
  rw [escapeRaw]
  cases hshort : shortEscape? c with
  | some p =>
    have hmem := List.mem_of_find?_eq_some hshort
    have hvalue : p.2 = c.val := by simpa using List.find?_some hshort
    have hall : ∀ p ∈ shortEscapes, (32 ≤ p.1.toNat ∧ p.1.toNat < 127) ∧ p.2 < 127 := by decide
    exact hlow (.ascii (by simpa [backslash] using (hall p hmem).1)) (hvalue ▸ (hall p hmem).2)
  | none =>
    dsimp only
    by_cases hcontrol : c.val < 32
    · rw [if_pos hcontrol]
      exact hlow (spells_unicodeEscape (by omega)) (by omega)
    · have hnat := toNat_ofNat_val hc
      rw [if_neg hcontrol]
      refine ⟨by simpa [hnat] using hcontrol, fun d _ ↦ ?_⟩
      simp only [List.mem_singleton, exists_eq_left]
      constructor
      · rintro rfl
        exact hnat.symm
      · intro h
        exact Char.toNat_inj.mp (h.symm.trans hnat.symm)

theorem spells_writeString {o : Options} (ho : o.ensureAscii = false) {s : Text} {t : List Char}
    (h : writeString o s = .ok t) : Spells t s := by
  rw [writeString, ho, if_neg Bool.false_ne_true] at h
  split_ifs at h with hsurrogate
  cases h
  have hs : ∀ c ∈ s, isSurrogate c = false := by simpa using hsurrogate
  have hflat := Spells.flatMap fun c hc ↦ spells_escapeRaw (hs c hc)
  rw [List.flatMap_singleton'] at hflat
  have hclosed := hflat.append (.ascii (t := [quote]) (by simp [quote]))
  rw [List.append_nil] at hclosed
  exact .cons (by decide) hclosed

theorem spells_literal {t : List Char} {v : Value} (h : (String.ofList t, v) ∈ literals) : Spells t [] := by
  simp only [literals_eq, List.mem_cons, List.not_mem_nil, or_false, Prod.mk.injEq, String.ofList_inj] at h
  rcases h with ⟨rfl, rfl⟩ | ⟨rfl, rfl⟩ | ⟨rfl, rfl⟩ | ⟨rfl, rfl⟩ | ⟨rfl, rfl⟩ | ⟨rfl, rfl⟩
  all_goals exact .ascii (by simp)

theorem spells_writeFloat {o : Options} {x : Float.Model} {t : List Char} (h : writeFloat o x = .ok t) :
    Spells t [] := by
  rw [writeFloat] at h
  split_ifs at h with hfinite hallow hnan hinfinity
  · cases h
    exact spells_number (scanNumber_floatRepr hfinite)
  · cases h
    exact spells_literal (v := .float nan) (by simp [literals])
  · cases h
    exact spells_literal (v := .float infinity) (by simp [literals])
  · cases h
    exact spells_literal (v := .float (-infinity)) (by simp [literals])

/-- `ensure_ascii=False`, and no newline between the items. -/
structure Options.Raw (o : Options) : Prop where
  raw : o.ensureAscii = false
  item : Spells o.item []
  key : Spells o.key []

theorem spells_enclosed {o : Options} (ho : o.Raw) {opening closing : Char}
    (hopening : 32 ≤ opening.toNat ∧ opening.toNat < 127)
    (hclosing : 32 ≤ closing.toNat ∧ closing.toNat < 127) {ts : List (List Char)} {l : List Text}
    (h : List.Forall₂ Spells ts l) : Spells (enclosed o opening closing ts) l.flatten := by
  have hclosed := (Spells.intercalate (.cons (c := ',') (by decide) ho.item) h).append
    (.cons hclosing (.ascii (t := []) (by simp)))
  rw [List.append_nil] at hclosed
  exact .cons hopening hclosed

mutual

theorem spells_write {o : Options} (ho : o.Raw) {v : Value} {depth : ℕ} {t : List Char}
    (h : write o v depth = .ok t) : Spells t v.chars := by
  cases v with
  | null =>
    cases h
    rw [Value.chars]
    exact spells_literal (v := .null) (by simp [literals])
  | bool b =>
    cases h
    rw [Value.chars]
    cases b with
    | false => exact spells_literal (v := .bool false) (by simp [literals])
    | true => exact spells_literal (v := .bool true) (by simp [literals])
  | int z =>
    rw [Value.chars]
    exact spells_number (scanNumber_writeInt h)
  | float x =>
    rw [Value.chars]
    exact spells_writeFloat h
  | str s =>
    rw [Value.chars]
    exact spells_writeString ho.raw h
  | arr items =>
    cases depth with
    | zero => cases h
    | succ depth =>
      obtain ⟨ts, hts, rfl⟩ := map_eq_ok h
      obtain ⟨l, hl, hflatten⟩ := spells_writeItems ho hts
      rw [Value.chars, ← hflatten]
      exact spells_enclosed ho (by decide) (by decide) hl
  | obj fields =>
    cases depth with
    | zero => cases h
    | succ depth =>
      obtain ⟨ts, hts, rfl⟩ := map_eq_ok h
      obtain ⟨l, hl, hflatten⟩ := spells_writeFields ho hts
      rw [Value.chars, ← hflatten]
      exact spells_enclosed ho (by decide) (by decide) hl

theorem spells_writeItems {o : Options} (ho : o.Raw) {items : List Value} {depth : ℕ} {ts : List (List Char)}
    (h : writeItems o items depth = .ok ts) : ∃ l, List.Forall₂ Spells ts l ∧ l.flatten = charsOfItems items := by
  cases items with
  | nil =>
    cases h
    exact ⟨[], .nil, by rw [charsOfItems, List.flatten_nil]⟩
  | cons v items =>
    obtain ⟨t, ht, h⟩ := bind_eq_ok h
    obtain ⟨us, hus, h⟩ := bind_eq_ok h
    cases h
    obtain ⟨l, hl, hflatten⟩ := spells_writeItems ho hus
    exact ⟨v.chars :: l, .cons (spells_write ho ht) hl, by rw [List.flatten_cons, hflatten, charsOfItems]⟩

theorem spells_writeFields {o : Options} (ho : o.Raw) {fields : List (Text × Value)} {depth : ℕ}
    {ts : List (List Char)} (h : writeFields o fields depth = .ok ts) :
    ∃ l, List.Forall₂ Spells ts l ∧ l.flatten = charsOfFields fields := by
  cases fields with
  | nil =>
    cases h
    exact ⟨[], .nil, by rw [charsOfFields, List.flatten_nil]⟩
  | cons p fields =>
    obtain ⟨k, v⟩ := p
    obtain ⟨key, hk, h⟩ := bind_eq_ok h
    obtain ⟨t, ht, h⟩ := bind_eq_ok h
    obtain ⟨us, hus, h⟩ := bind_eq_ok h
    cases h
    obtain ⟨l, hl, hflatten⟩ := spells_writeFields ho hus
    have hvalue := Spells.cons (c := ':') (by decide) (ho.key.append (spells_write ho ht))
    have hfield := (spells_writeString ho.raw hk).append hvalue
    refine ⟨(k ++ v.chars) :: l, .cons ?_ hl, by rw [List.flatten_cons, hflatten, charsOfFields]⟩
    rw [List.append_assoc]
    exact hfield

end

end SplitFleet.Lib.JsonText
