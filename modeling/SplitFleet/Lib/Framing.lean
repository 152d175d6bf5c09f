import SplitFleet.Lib.Digits
import SplitFleet.Lib.Bytes

set_option autoImplicit false

namespace SplitFleet.Lib

variable {α β γ : Type}

/-- A text of the encoding ends where it ends, whatever stands behind it. -/
def SelfDelimiting (f : α → List β) : Prop := ∀ a b r s, f a ++ r = f b ++ s → a = b ∧ r = s

namespace SelfDelimiting

theorem injective {f : α → List β} (hf : SelfDelimiting f) : Function.Injective f := by
  intro a b h
  exact (hf a b [] [] (congrArg (· ++ []) h)).1

theorem comp {f : α → List β} (hf : SelfDelimiting f) {g : γ → α} (hg : Function.Injective g) :
    SelfDelimiting fun c ↦ f (g c) := by
  intro a b r s h
  obtain ⟨hab, hrs⟩ := hf _ _ r s h
  exact ⟨hg hab, hrs⟩

/-- A text with a mark behind it that is not in it. -/
theorem terminated {f : α → List β} (hf : Function.Injective f) {mark : β} (hmark : ∀ a, mark ∉ f a) :
    SelfDelimiting fun a ↦ f a ++ [mark] := by
  have hsplit : ∀ u v r s : List β, mark ∉ u → mark ∉ v → u ++ mark :: r = v ++ mark :: s → u = v ∧ r = s := by
    intro u
    induction u with
    | nil =>
      intro v r s _ hv h
      cases v with
      | nil => exact ⟨rfl, (List.cons.inj h).2⟩
      | cons y v => exact absurd (List.mem_cons.mpr (.inl (List.cons.inj h).1)) hv
    | cons x u ih =>
      intro v r s hu hv h
      cases v with
      | nil => exact absurd (List.mem_cons.mpr (.inl (List.cons.inj h).1.symm)) hu
      | cons y v =>
        obtain ⟨hxy, htail⟩ := List.cons.inj h
        obtain ⟨huv, hrs⟩ := ih v r s (fun hm ↦ hu (List.mem_cons_of_mem _ hm))
          (fun hm ↦ hv (List.mem_cons_of_mem _ hm)) htail
        exact ⟨hxy ▸ huv ▸ rfl, hrs⟩
  intro a b r s h
  rw [List.append_assoc, List.append_assoc] at h
  obtain ⟨hab, hrs⟩ := hsplit _ _ r s (hmark a) (hmark b) h
  exact ⟨hf hab, hrs⟩

/-- One text behind another, where the second may depend on what the first says. -/
theorem append {f : α → List β} {g : α → List β} {key : α → γ} {e : γ → List β} (he : SelfDelimiting e)
    (hf : ∀ a, f a = e (key a)) (hg : ∀ a b r s, key a = key b → g a ++ r = g b ++ s → a = b ∧ r = s) :
    SelfDelimiting fun a ↦ f a ++ g a := by
  intro a b r s h
  rw [List.append_assoc, List.append_assoc, hf, hf] at h
  obtain ⟨hkey, h⟩ := he _ _ _ _ h
  exact hg a b r s hkey h

/-- The same text in other symbols. -/
theorem map {f : α → List β} (hf : SelfDelimiting f) {enc : β → γ} {dec : γ → β} (hdec : Function.Injective dec)
    (hf' : ∀ a, ∀ x ∈ f a, dec (enc x) = x) : SelfDelimiting fun a ↦ (f a).map enc := by
  have hback : ∀ a, ((f a).map enc).map dec = f a := by
    intro a
    rw [List.map_map]
    exact (List.map_congr_left (hf' a)).trans (List.map_id _)
  intro a b r s h
  have h := congrArg (List.map dec) h
  rw [List.map_append, List.map_append, hback, hback] at h
  obtain ⟨hab, hrs⟩ := hf a b _ _ h
  exact ⟨hab, List.map_injective_iff.mpr hdec hrs⟩

theorem cons {f : α → List β} (hf : SelfDelimiting f) (x : β) : SelfDelimiting fun a ↦ x :: f a := by
  intro a b r s h
  exact hf a b r s (List.cons.inj h).2

/-- Texts that are not empty can be told apart one behind the other. -/
theorem flatMap_injective {f : α → List β} (hf : SelfDelimiting f) (hne : ∀ a, f a ≠ []) :
    Function.Injective fun l : List α ↦ l.flatMap f := by
  intro l
  induction l with
  | nil =>
    intro l' h
    cases l' with
    | nil => rfl
    | cons b l' => exact absurd (List.append_eq_nil_iff.mp h.symm).1 (hne b)
  | cons a l ih =>
    intro l' h
    cases l' with
    | nil => exact absurd (List.append_eq_nil_iff.mp h).1 (hne a)
    | cons b l' =>
      obtain ⟨hab, hrest⟩ := hf a b (l.flatMap f) (l'.flatMap f) h
      rw [hab, ih hrest]

end SelfDelimiting

/-! ### Numbers -/

def digits (n : ℕ) : List Char := (toString n).toList

theorem isDigit_of_mem_digits {n : ℕ} : ∀ c ∈ digits n, c.isDigit = true := isDigit_of_mem_repr

theorem digits_injective : Function.Injective digits := by
  intro m n h
  have hvalue := digitsValue_toString m
  rw [← digits, h, digits, digitsValue_toString] at hvalue
  exact (Option.some.inj hvalue).symm

theorem digits_ne_nil (n : ℕ) : digits n ≠ [] := by
  intro h
  have hdigit := isDigit_toString n
  rw [isDigit, ← digits, h] at hdigit
  cases hdigit

/-- The digits of a number end where something else begins. -/
theorem digits_append {m n : ℕ} {c d : Char} {r s : List Char} (hc : c.isDigit = false) (hd : d.isDigit = false)
    (h : digits m ++ c :: r = digits n ++ d :: s) : m = n ∧ c = d ∧ r = s := by
  have htake : ∀ (n : ℕ) (c : Char) (r : List Char), c.isDigit = false →
      (digits n ++ c :: r).takeWhile Char.isDigit = digits n := by
    intro n c r hc
    have hneg : ¬ c.isDigit = true := hc ▸ Bool.false_ne_true
    rw [List.takeWhile_append_of_pos isDigit_of_mem_digits, List.takeWhile_cons_of_neg hneg, List.append_nil]
  have hdigits := congrArg (List.takeWhile Char.isDigit) h
  rw [htake m c r hc, htake n d s hd] at hdigits
  rw [hdigits] at h
  obtain ⟨hcd, hrs⟩ := List.cons.inj (List.append_cancel_left h)
  exact ⟨digits_injective hdigits, hcd, hrs⟩

/-- A number does not begin like a mark. -/
theorem digits_append_ne {n : ℕ} {c : Char} {r s : List Char} (hc : c.isDigit = false) : digits n ++ r ≠ c :: s := by
  cases hn : digits n with
  | nil => exact absurd hn (digits_ne_nil n)
  | cons d ds =>
    intro h
    have hd : d.isDigit = true := isDigit_of_mem_digits d (hn ▸ List.mem_cons_self : d ∈ digits n)
    rw [(List.cons.inj h).1, hc] at hd
    cases hd

/-- What stands behind the first of some numbers. -/
def restText (gap : List Char) (closing : Char) : List ℕ → List Char
  | [] => [closing]
  | n :: ns => ',' :: (gap ++ (digits n ++ restText gap closing ns))

theorem restText_head (gap : List Char) (closing : Char) (ns : List ℕ) :
    ∃ c l, restText gap closing ns = c :: l ∧ (c = closing ∨ c = ',') := by
  cases ns with
  | nil => exact ⟨closing, [], rfl, .inl rfl⟩
  | cons n ns => exact ⟨',', _, rfl, .inr rfl⟩

theorem digits_restText {gap : List Char} {closing : Char} (hclosing : closing.isDigit = false) {m n : ℕ}
    {ms ns : List ℕ} {r s : List Char}
    (h : digits m ++ restText gap closing ms ++ r = digits n ++ restText gap closing ns ++ s) :
    m = n ∧ restText gap closing ms ++ r = restText gap closing ns ++ s := by
  obtain ⟨c, l, hc, hmark⟩ := restText_head gap closing ms
  obtain ⟨d, l', hd, hmark'⟩ := restText_head gap closing ns
  have hdigit : ∀ c, c = closing ∨ c = ',' → c.isDigit = false := by
    rintro c (rfl | rfl)
    · exact hclosing
    · rfl
  rw [List.append_assoc, List.append_assoc, hc, hd, List.cons_append, List.cons_append] at h
  obtain ⟨hmn, hcd, hll⟩ := digits_append (hdigit c hmark) (hdigit d hmark') h
  rw [hc, hd, List.cons_append, List.cons_append, hcd, hll]
  exact ⟨hmn, rfl⟩

theorem restText_selfDelimiting (gap : List Char) {closing : Char} (hdigit : closing.isDigit = false)
    (hcomma : closing ≠ ',') : SelfDelimiting (restText gap closing) := by
  intro ms
  induction ms with
  | nil =>
    intro ns r s h
    cases ns with
    | nil => exact ⟨rfl, (List.cons.inj h).2⟩
    | cons n ns => exact absurd (List.cons.inj h).1 hcomma
  | cons m ms ih =>
    intro ns r s h
    cases ns with
    | nil => exact absurd (List.cons.inj h).1.symm hcomma
    | cons n ns =>
      rw [restText, restText, List.cons_append, List.cons_append, List.append_assoc gap, List.append_assoc gap] at h
      obtain ⟨-, htail⟩ := List.cons.inj h
      obtain ⟨hmn, hrest⟩ := digits_restText hdigit (List.append_cancel_left htail)
      obtain ⟨hms, hrs⟩ := ih ns r s hrest
      exact ⟨hmn ▸ hms ▸ rfl, hrs⟩

end SplitFleet.Lib
