import SplitFleet.Lib.JsonDumps

set_option autoImplicit false

namespace SplitFleet.Lib.JsonText

/-- What the first reading returns, the second returns too, with `q` behind the rest. -/
def Extends {α : Type} (q : List Char) (x y : Except PyError (α × List Char)) : Prop :=
  ∀ a r, x = .ok (a, r) → y = .ok (a, r ++ q)

namespace Extends

variable {α β : Type} {q : List Char} {x y : Except PyError (α × List Char)}

theorem error {e : PyError} : Extends q (.error e) y := by rintro a r ⟨⟩

theorem of_ne (h : ∀ p, x ≠ .ok p) : Extends q x y := fun _ _ hx ↦ absurd hx (h _)

theorem ok {a : α} {r : List Char} : Extends q (.ok (a, r)) (.ok (a, r ++ q)) := by
  rintro a r ⟨⟩
  rfl

theorem map (h : Extends q x y) (f : α → β) :
    Extends q (x.map fun p ↦ (f p.1, p.2)) (y.map fun p ↦ (f p.1, p.2)) := by
  cases x with
  | error e => exact error
  | ok p =>
    rw [h p.1 p.2 rfl]
    exact ok

theorem bind {f g : α × List Char → Except PyError (β × List Char)} (h : Extends q x y)
    (hf : ∀ a r, Extends q (f (a, r)) (g (a, r ++ q))) : Extends q (x >>= f) (y >>= g) := by
  cases x with
  | error e => exact error
  | ok p =>
    rw [h p.1 p.2 rfl]
    exact hf p.1 p.2

end Extends

theorem skip_append {t : List Char} (h : skip t ≠ []) (q : List Char) : skip (t ++ q) = skip t ++ q := by
  rw [skip, List.dropWhile_append, if_neg]
  · rfl
  · exact fun hnil ↦ h (List.isEmpty_iff.mp hnil)

theorem scanUnits_extends (q : List Char) (mode : Mode) (t : List Char) :
    Extends q (scanUnits mode t) (scanUnits mode (t ++ q)) := by
  induction t generalizing mode with
  | nil =>
    cases mode with
    | plain | escape | hex => exact .error
  | cons c t ih =>
    rw [List.cons_append]
    cases mode with
    | plain =>
      rw [scanUnits, scanUnits]
      split_ifs with hquote hback hcontrol
      · exact .ok
      · exact ih .escape
      · exact .error
      · exact (ih .plain).map _
    | escape =>
      rw [scanUnits, scanUnits]
      split_ifs with hu
      · exact ih _
      · cases (('/', 47) :: shortEscapes).find? (·.1 = c) with
        | none => exact .error
        | some p => exact (ih .plain).map _
    | hex left value =>
      rw [scanUnits, scanUnits]
      cases hexDigit? c with
      | none => exact .error
      | some d =>
        cases left with
        | zero => exact (ih .plain).map _
        | succ left => exact ih _

theorem scanString_extends (q t : List Char) : Extends q (scanString t) (scanString (t ++ q)) :=
  (scanUnits_extends q .plain t).map joinPairs

theorem literal?_append {t u : List Char} {v : Value} (h : literal? t = some (v, u)) (q : List Char) :
    literal? (t ++ q) = some (v, u ++ q) := by
  obtain ⟨p, hp, hsome⟩ := List.exists_of_findSome?_eq_some h
  obtain ⟨w, hw, hsome⟩ := Option.map_eq_some_iff.mp hsome
  cases hsome
  obtain rfl := List.isPrefixOf?_eq_some_iff_append_eq.mp hw
  rw [List.append_assoc]
  generalize u ++ q = r
  rw [literals_eq] at hp
  simp only [List.mem_cons, List.not_mem_nil, or_false] at hp
  rcases hp with rfl | rfl | rfl | rfl | rfl | rfl
  all_goals simp [literal?, literals_eq, List.isPrefixOf?]

section Containers

variable {α : Type} {closing : Char} {item : List Char → Except PyError (α × List Char)} {q : List Char}
  (hnil : ∀ p, item [] ≠ .ok p) (hitem : ∀ t, Extends q (item t) (item (t ++ q)))

include hnil

theorem scanSeparated_nil (turns : ℕ) (p : List α × List Char) : scanSeparated closing item turns [] ≠ .ok p := by
  cases turns with
  | zero =>
    rw [scanSeparated]
    rintro ⟨⟩
  | succ turns =>
    intro h
    obtain ⟨a, ha, -⟩ := bind_eq_ok h
    exact hnil a ha

include hitem

theorem scanSeparated_extends {turns more : ℕ} (hmore : turns ≤ more) (t : List Char) :
    Extends q (scanSeparated closing item turns t) (scanSeparated closing item more (t ++ q)) := by
  induction turns generalizing more t with
  | zero => exact .error
  | succ turns ih =>
    obtain ⟨more, rfl⟩ := Nat.exists_eq_add_of_le' (Nat.le_trans (Nat.succ_le_succ (Nat.zero_le turns)) hmore)
    refine (hitem t).bind fun a u ↦ ?_
    dsimp only
    cases hskip : skip u with
    | nil => exact .error
    | cons c w =>
      rw [skip_append (by rw [hskip]; exact List.cons_ne_nil c w), hskip, List.cons_append]
      dsimp only
      by_cases hclosing : c = closing
      · rw [if_pos hclosing, if_pos hclosing]
        exact .ok
      · rw [if_neg hclosing, if_neg hclosing]
        by_cases hcomma : c = ','
        · rw [if_pos hcomma, if_pos hcomma]
          by_cases hend : skip w = []
          · refine .of_ne fun p hp ↦ ?_
            obtain ⟨items, hitems, -⟩ := bind_eq_ok hp
            rw [hend] at hitems
            exact scanSeparated_nil hnil turns items hitems
          · rw [skip_append hend]
            exact (ih (Nat.le_of_succ_le_succ hmore) _).bind fun items r ↦ .ok
        · rw [if_neg hcomma]
          exact .error

theorem scanContainer_extends (t : List Char) :
    Extends q (scanContainer closing item t) (scanContainer closing item (t ++ q)) := by
  rw [scanContainer, scanContainer]
  by_cases hend : skip t = []
  · refine .of_ne fun p hp ↦ ?_
    rw [hend] at hp
    exact scanSeparated_nil hnil _ p hp
  · rw [skip_append hend, List.head?_append_of_ne_nil _ hend, List.tail_append_of_ne_nil hend]
    by_cases hclosing : (skip t).head? = some closing
    · rw [if_pos hclosing, if_pos hclosing]
      exact .ok
    · rw [if_neg hclosing, if_neg hclosing]
      refine scanSeparated_extends hnil hitem (Nat.succ_le_succ ?_) _
      rw [List.length_append]
      exact Nat.le_add_right _ _

end Containers

section Values

variable {scan : Reader} {q : List Char}

theorem scanField_nil (p : (Text × Value) × List Char) : scanField scan [] ≠ .ok p := by
  rw [scanField]
  rintro ⟨⟩

theorem scanField_extends (hnil : ∀ p, scan [] ≠ .ok p) (hscan : ∀ t, Extends q (scan t) (scan (t ++ q)))
    (t : List Char) : Extends q (scanField scan t) (scanField scan (t ++ q)) := by
  cases t with
  | nil => exact .of_ne scanField_nil
  | cons c t =>
    rw [List.cons_append, scanField, scanField]
    by_cases hquote : c = quote
    · rw [if_pos hquote, if_pos hquote]
      refine (scanString_extends q t).bind fun key u ↦ ?_
      dsimp only
      cases hskip : skip u with
      | nil => exact .error
      | cons d w =>
        rw [skip_append (by rw [hskip]; exact List.cons_ne_nil d w), hskip, List.cons_append]
        dsimp only
        by_cases hcolon : d = ':'
        · rw [if_pos hcolon, if_pos hcolon]
          by_cases hend : skip w = []
          · refine .of_ne fun p hp ↦ ?_
            obtain ⟨v, hv, -⟩ := bind_eq_ok hp
            rw [hend] at hv
            exact hnil v hv
          · rw [skip_append hend]
            exact (hscan _).bind fun v r ↦ .ok
        · rw [if_neg hcolon]
          exact .error
    · rw [if_neg hquote]
      exact .error

end Values

theorem scanWith_extends {inner : Option Reader} {q : List Char} (hq : Stops q)
    (hinner : ∀ scan ∈ inner, (∀ p, scan [] ≠ .ok p) ∧ ∀ t, Extends q (scan t) (scan (t ++ q))) (t : List Char) :
    Extends q (scanWith inner t) (scanWith inner (t ++ q)) := by
  cases t with
  | nil => exact .error
  | cons c t =>
    rw [List.cons_append, scanWith, scanWith]
    by_cases hquote : c = quote
    · rw [if_pos hquote, if_pos hquote]
      exact (scanString_extends q t).map _
    · rw [if_neg hquote, if_neg hquote]
      by_cases hbrace : c = '{'
      · rw [if_pos hbrace, if_pos hbrace]
        cases inner with
        | none => exact .error
        | some scan =>
          obtain ⟨hnil, hscan⟩ := hinner scan rfl
          exact (scanContainer_extends scanField_nil (scanField_extends hnil hscan) t).map
            fun fields ↦ Value.obj (assignAll fields)
      · rw [if_neg hbrace, if_neg hbrace]
        by_cases hbracket : c = '['
        · rw [if_pos hbracket, if_pos hbracket]
          cases inner with
          | none => exact .error
          | some scan =>
            obtain ⟨hnil, hscan⟩ := hinner scan rfl
            exact (scanContainer_extends hnil hscan t).map Value.arr
        · rw [if_neg hbracket, if_neg hbracket]
          cases hliteral : literal? (c :: t) with
          | none =>
            intro v r h
            obtain ⟨d, u, hcons, hd⟩ := head_of_scanNumber h
            cases hcons
            have hnone : literal? (c :: (t ++ q)) = none := by
              refine literal?_eq_none (hd.imp_right fun hminus ↦ ⟨hminus.1, ?_⟩)
              obtain ⟨-, d, w, rfl, hw⟩ := hminus
              exact ⟨d, w ++ q, rfl, hw⟩
            rw [hnone]
            exact scanNumber_append hq h
          | some p =>
            rw [← List.cons_append, literal?_append hliteral]
            exact .ok

/-- A value that is read is read in the same way when more text follows. -/
theorem scanOnce_extends {q : List Char} (hq : Stops q) (depth : ℕ) (t : List Char) :
    Extends q (scanOnce depth t) (scanOnce depth (t ++ q)) := by
  induction depth generalizing t with
  | zero => exact scanWith_extends hq (by simp) t
  | succ depth ih =>
    refine scanWith_extends hq ?_ t
    rintro scan hscan
    obtain rfl := Option.mem_some_iff.mp hscan
    refine ⟨fun p ↦ ?_, ih⟩
    obtain ⟨inner, hinner⟩ := exists_scanWith depth
    rw [hinner]
    rintro ⟨⟩

/-- A written value is not read when its end is missing. -/
theorem loads_take_write {o : Options} {v : Value} {depth room : ℕ} {t q : List Char} {c : Char}
    (h : write o v depth = .ok (t ++ c :: q)) (hroom : depth ≤ room) (hc : Stops [c]) (w : Value) :
    loads room t ≠ .ok w := by
  intro hloads
  obtain ⟨⟨d, u, htext, hblank, -⟩, hreads⟩ := reads_write h hroom
  have hwhole := hreads [] stops_nil
  rw [List.append_nil] at hwhole
  have hskip : skip t = t := by
    cases t with
    | nil => rfl
    | cons e t =>
      rw [List.cons_append] at htext
      rw [(List.cons.inj htext).1]
      exact skip_of_notBlank hblank
  rw [loads, hskip] at hloads
  split_ifs at hloads with hmark
  obtain ⟨p, hp, -⟩ := bind_eq_ok hloads
  have hq : Stops (c :: q) := hc
  have hmore := scanOnce_extends hq room t p.1 p.2 hp
  have hrest := (Prod.mk.inj (Except.ok.inj (hmore.symm.trans hwhole))).2
  exact List.append_ne_nil_of_right_ne_nil _ (List.cons_ne_nil c q) hrest

end SplitFleet.Lib.JsonText
