import SplitFleet.ModelCall

set_option autoImplicit false

namespace SplitFleet.ModelCall

open Lib JsonPointer

/-! ### Pointers to arguments -/

inductive Target
  | position (index : ℕ)
  | rest (index : ℕ)
  | keyword (name : String)
  deriving DecidableEq

/-- An argument, and a path inside of it. -/
structure Pointer where
  target : Target
  inside : Path
  wf : Inside inside

def nameAt (sig : Signature) (index : ℕ) : String := (sig.positional[index]?.map (·.name)).getD ""

/-- The text of a pointer for a call that passes `count` arguments by position. -/
def write (sig : Signature) (count : ℕ) (p : Pointer) : Path :=
  match p.target with
  | .position i => (if i < count then argsPath i else kwargsPath (nameAt sig i)) ++ p.inside
  | .rest j => argsPath (sig.positional.length + j) ++ p.inside
  | .keyword name => kwargsPath name ++ p.inside

/-- The argument has a text for such a call. -/
def Names (sig : Signature) (count : ℕ) (p : Pointer) : Prop :=
  match p.target with
  | .position i => ∃ q, sig.positional[i]? = some q ∧ (q.byName = true ∨ i < count)
  | .rest _ => True
  | .keyword name => ∀ q ∈ sig.positional, q.byName = true → q.name ≠ name

/-- The axes are written for a call that passes `count` arguments by position. -/
def WrittenFor (sig : Signature) (count : ℕ) (L : List (Pointer × ℤ)) (axes : Dict Path ℤ) : Prop :=
  ∀ path axis, axes.get? path = some axis ↔ ∃ p, (p, axis) ∈ L ∧ write sig count p = path

section Paths

theorem slash_notMem_digits (n : ℕ) : '/' ∉ digits n := fun h ↦ absurd (isDigit_of_mem_digits _ h) (by decide)

theorem argsPath_append_inj {i j : ℕ} {t u : Path} (ht : Inside t) (hu : Inside u)
    (h : argsPath i ++ t = argsPath j ++ u) : i = j ∧ t = u := by
  rw [argsPath, argsPath, List.append_assoc, List.append_assoc] at h
  have hcut := List.append_cancel_left h
  obtain ⟨hij, htu⟩ := part_append_inj (slash_notMem_digits i) (slash_notMem_digits j) ht hu hcut
  exact ⟨digits_injective hij, htu⟩

theorem kwargsPath_append_inj {m n : String} {t u : Path} (ht : Inside t) (hu : Inside u)
    (h : kwargsPath m ++ t = kwargsPath n ++ u) : m = n ∧ t = u := by
  rw [kwargsPath, kwargsPath, List.append_assoc, List.append_assoc] at h
  have hcut := List.append_cancel_left h
  obtain ⟨hmn, htu⟩ := part_append_inj (slash_notMem_escape m.toList) (slash_notMem_escape n.toList) ht hu hcut
  exact ⟨String.toList_injective (escape_injective hmn), htu⟩

theorem argsPath_ne_kwargsPath (i : ℕ) (n : String) (t u : Path) : argsPath i ++ t ≠ kwargsPath n ++ u := by
  intro h
  rw [argsPath, kwargsPath, List.append_assoc, List.append_assoc] at h
  have hhead := congrArg (·[1]?) h
  exact absurd hhead (by simp [argsRoot, kwargsRoot])

theorem below_iff {source path : Path} : Below source path ↔ ∃ t, Inside t ∧ path = source ++ t := by
  constructor
  · rintro (rfl | ⟨r, rfl⟩)
    · exact ⟨[], .inl rfl, (List.append_nil _).symm⟩
    · exact ⟨'/' :: r, .inr ⟨r, rfl⟩, by simp⟩
  · rintro ⟨t, rfl | ⟨u, rfl⟩, rfl⟩
    · exact .inl (List.append_nil _)
    · exact .inr ⟨u, by simp⟩

variable {sig : Signature} {s t : ℕ} {p q : Pointer}

theorem Names.mono (h : Names sig s p) (hst : s ≤ t) : Names sig t p := by
  obtain ⟨target, inside, wf⟩ := p
  cases target with
  | position i =>
    obtain ⟨q, hq, hname⟩ := h
    exact ⟨q, hq, hname.imp_right fun hi ↦ hi.trans_le hst⟩
  | rest j => trivial
  | keyword name => exact h

theorem nameAt_eq {i : ℕ} {q : Positional} (h : sig.positional[i]? = some q) : nameAt sig i = q.name := by
  rw [nameAt, h]
  rfl

/-- Two pointers do not have one text. -/
theorem write_inj (hp : Names sig t p) (hq : Names sig t q) (h : write sig t p = write sig t q) : p = q := by
  obtain ⟨a, u, hu⟩ := p
  obtain ⟨b, v, hv⟩ := q
  have hresult : a = b ∧ u = v := by
    cases a with
    | position i =>
      obtain ⟨p, hp, hi⟩ := hp
      have hlt := (List.getElem?_eq_some_iff.mp hp).1
      cases b with
      | position j =>
        obtain ⟨q, hq, hj⟩ := hq
        simp only [write, nameAt_eq hp, nameAt_eq hq] at h
        split_ifs at h with hit hjt hjt
        · exact (argsPath_append_inj hu hv h).imp_left (congrArg _)
        · exact absurd h (argsPath_ne_kwargsPath _ _ _ _)
        · exact absurd h.symm (argsPath_ne_kwargsPath _ _ _ _)
        · obtain ⟨hname, huv⟩ := kwargsPath_append_inj hu hv h
          exact ⟨congrArg _ (index_unique hp hq hname), huv⟩
      | rest j =>
        simp only [write] at h
        split_ifs at h with hit
        · obtain ⟨hij, -⟩ := argsPath_append_inj hu hv h
          omega
        · exact absurd h.symm (argsPath_ne_kwargsPath _ _ _ _)
      | keyword name =>
        simp only [write, nameAt_eq hp] at h
        split_ifs at h with hit
        · exact absurd h (argsPath_ne_kwargsPath _ _ _ _)
        · obtain ⟨hname, -⟩ := kwargsPath_append_inj hu hv h
          exact absurd hname (hq p (List.mem_of_getElem? hp) (hi.resolve_right hit))
    | rest i =>
      cases b with
      | position j =>
        obtain ⟨q, hq, hj⟩ := hq
        have hlt := (List.getElem?_eq_some_iff.mp hq).1
        simp only [write] at h
        split_ifs at h with hjt
        · obtain ⟨hij, -⟩ := argsPath_append_inj hu hv h
          omega
        · exact absurd h (argsPath_ne_kwargsPath _ _ _ _)
      | rest j =>
        obtain ⟨hij, huv⟩ := argsPath_append_inj hu hv h
        exact ⟨congrArg _ (Nat.add_left_cancel hij), huv⟩
      | keyword name => exact absurd h (argsPath_ne_kwargsPath _ _ _ _)
    | keyword name =>
      cases b with
      | position j =>
        obtain ⟨q, hq, hj⟩ := hq
        simp only [write, nameAt_eq hq] at h
        split_ifs at h with hjt
        · exact absurd h.symm (argsPath_ne_kwargsPath _ _ _ _)
        · obtain ⟨hname, -⟩ := kwargsPath_append_inj hu hv h
          exact absurd hname.symm (hp q (List.mem_of_getElem? hq) (hj.resolve_right hjt))
      | rest j => exact absurd h.symm (argsPath_ne_kwargsPath _ _ _ _)
      | keyword other =>
        obtain ⟨hname, huv⟩ := kwargsPath_append_inj hu hv h
        exact ⟨congrArg _ hname, huv⟩
  obtain ⟨rfl, rfl⟩ := hresult
  rfl

theorem write_congr (hp : Names sig s p) (h : ∀ i < sig.positional.length, i < s ↔ i < t) :
    write sig s p = write sig t p := by
  obtain ⟨target, inside, wf⟩ := p
  cases target with
  | position i =>
    obtain ⟨q, hq, -⟩ := hp
    simp only [write, h i (List.getElem?_eq_some_iff.mp hq).1]
  | rest j => rfl
  | keyword name => rfl

end Paths

/-! ### The axes follow their arguments -/

section Axes

variable {sig : Signature} {L : List (Pointer × ℤ)} {axes : Dict Path ℤ}

theorem below_write {t : ℕ} {q : Positional} (hq : sig.positional[t]? = some q) (hname : q.byName = true)
    {p : Pointer}
    (hp : Names sig t p) : Below (kwargsPath q.name) (write sig t p) ↔ p.target = .position t := by
  rw [below_iff]
  obtain ⟨target, inside, wf⟩ := p
  constructor
  · rintro ⟨u, hu, hwrite⟩
    cases target with
    | position i =>
      obtain ⟨p, hp, -⟩ := hp
      simp only [write, nameAt_eq hp] at hwrite
      split_ifs at hwrite with hi
      · exact absurd hwrite (argsPath_ne_kwargsPath _ _ _ _)
      · exact congrArg _ (index_unique hp hq (kwargsPath_append_inj wf hu hwrite).1)
    | rest j => exact absurd hwrite (argsPath_ne_kwargsPath _ _ _ _)
    | keyword name =>
      exact absurd (kwargsPath_append_inj wf hu hwrite).1.symm (hp q (List.mem_of_getElem? hq) hname)
  · rintro rfl
    refine ⟨inside, wf, ?_⟩
    simp only [write, nameAt_eq hq, lt_irrefl, if_false]

/-- One argument is passed on by position from now on. -/
theorem writtenFor_moveArgument {t : ℕ} (h : WrittenFor sig t L axes) {q : Positional}
    (hq : sig.positional[t]? = some q) (hname : q.byName = true) (hL : ∀ a ∈ L, Names sig t a.1) :
    WrittenFor sig (t + 1) L (moveArgument axes t q.name) := by
  have hbelow : ∀ a ∈ L, Below (kwargsPath q.name) (write sig t a.1) ↔ a.1.target = .position t :=
    fun a ha ↦ below_write hq hname (hL a ha)
  have hnext : ∀ a ∈ L, (if Below (kwargsPath q.name) (write sig t a.1) then
      argsPath t ++ (write sig t a.1).drop (kwargsPath q.name).length else write sig t a.1) =
      write sig (t + 1) a.1 := by
    intro a ha
    rw [if_congr (hbelow a ha) rfl rfl]
    obtain ⟨⟨target, inside, wf⟩, axis⟩ := a
    cases target with
    | position i =>
      by_cases hi : i = t
      · subst hi
        simp only [if_true, write, nameAt_eq hq, lt_irrefl, if_false, List.drop_left, Nat.lt_succ_self]
      · have hiff : i < t + 1 ↔ i < t := by omega
        simp only [Target.position.injEq, hi, if_false, write, hiff]
    | rest j => exact if_neg (by rintro ⟨⟩)
    | keyword name => exact if_neg (by rintro ⟨⟩)
  have hkeys : ∀ path ∈ axes.keys, ∃ a ∈ L, write sig t a.1 = path := by
    intro path hpath
    obtain ⟨axis, haxis⟩ := axes.mem_keys_iff.mp hpath
    obtain ⟨p, hp, hwrite⟩ := (h path axis).mp haxis
    exact ⟨(p, axis), hp, hwrite⟩
  intro path axis
  rw [moveArgument, Dict.get?_foldl_move (P := Below (kwargsPath q.name))
    (f := fun path ↦ argsPath t ++ path.drop (kwargsPath q.name).length)]
  · constructor
    · rintro ⟨x, hx, hxy⟩
      obtain ⟨p, hp, rfl⟩ := (h x axis).mp hx
      exact ⟨p, hp, (hnext _ hp).symm.trans hxy⟩
    · rintro ⟨p, hp, hwrite⟩
      exact ⟨_, (h _ axis).mpr ⟨p, hp, rfl⟩, (hnext _ hp).trans hwrite⟩
  · intro e k v hk
    rw [movePath, hk]
  · intro x hx y hy hxy
    obtain ⟨a, ha, rfl⟩ := hkeys x hx
    obtain ⟨b, hb, rfl⟩ := hkeys y hy
    rw [hnext a ha, hnext b hb] at hxy
    rw [write_inj ((hL a ha).mono (Nat.le_succ t)) ((hL b hb).mono (Nat.le_succ t)) hxy]
  · intro x _ hx
    obtain ⟨u, -, hu⟩ := below_iff.mp hx
    exact argsPath_ne_kwargsPath _ _ _ _ hu

theorem WrittenFor.congr {s t : ℕ} (h : WrittenFor sig s L axes) (hL : ∀ a ∈ L, Names sig s a.1)
    (hst : ∀ i < sig.positional.length, i < s ↔ i < t) : WrittenFor sig t L axes := by
  intro path axis
  rw [h path axis]
  refine exists_congr fun p ↦ and_congr_right fun hp ↦ ?_
  rw [write_congr (hL _ hp) hst]

variable {V : Type} {inputs : List V} {kwargs : Dict String V}

/-- One parameter in front of the first one that is not bound. -/
theorem writtenFor_step (haccepts : Accepts sig inputs kwargs) {k : ℕ} (hk : k < (bound sig inputs kwargs).full)
    {q : Positional} (hq : sig.positional[k]? = some q) (h : WrittenFor sig (max inputs.length k) L axes)
    (hL : ∀ a ∈ L, Names sig inputs.length a.1) :
    WrittenFor sig (max inputs.length (k + 1)) L
      (if kwargs.get? q.name = none ∨ (((bound sig inputs kwargs).kwargs sig).get? q.name).isSome then axes
        else moveArgument axes k q.name) := by
  obtain hpos | hname := lt_or_ge k inputs.length
  · -- the argument is passed by position already
    have hskip : kwargs.get? q.name = none ∨ (((bound sig inputs kwargs).kwargs sig).get? q.name).isSome := by
      cases hvalue : kwargs.get? q.name with
      | none => exact .inl rfl
      | some v =>
        have hnot : ¬Moved sig (bound sig inputs kwargs).full q.name := by
          rintro ⟨j, p, -, hp, hbyName, hsame⟩
          obtain rfl := index_unique hp hq hsame
          obtain rfl := Option.some.inj (hp.symm.trans hq)
          have honce := haccepts.once (p, j) (List.mk_mem_zipIdx_iff_getElem?.mpr hp) hpos hbyName
          rw [hvalue] at honce
          cases honce
        refine .inr ?_
        rw [get?_kwargs_of_notMoved hnot, hvalue]
        rfl
    rw [max_eq_left hpos.le] at h
    rw [max_eq_left (Nat.succ_le_of_lt hpos), if_pos hskip]
    exact h
  · obtain ⟨v, hv, -⟩ := (filled sig inputs kwargs).value k q hk hq
    rw [passed_of_le hname] at hv
    split_ifs at hv with hbyName
    rw [max_eq_right hname] at h
    rw [max_eq_right (hname.trans (Nat.le_succ k)), hv, get?_kwargs_of_moved ⟨k, q, hk, hq, hbyName, rfl⟩,
      if_neg (by simp)]
    exact writtenFor_moveArgument h hq hbyName fun a ha ↦ (hL a ha).mono hname

/-- The axes follow the arguments of a call into its normal form. -/
theorem writtenFor_moveAxes (haccepts : Accepts sig inputs kwargs) (h : WrittenFor sig inputs.length L axes)
    (hL : ∀ a ∈ L, Names sig inputs.length a.1) :
    WrittenFor sig (bound sig inputs kwargs).args.length L
      (moveAxes sig (bound sig inputs kwargs).args kwargs ((bound sig inputs kwargs).kwargs sig) axes) := by
  have hfilled := filled sig inputs kwargs
  have htake : sig.positional.take (bound sig inputs kwargs).args.length =
      sig.positional.take (bound sig inputs kwargs).full := by
    obtain hlt | heq := hfilled.le.lt_or_eq
    · rw [hfilled.short hlt]
    · rw [heq, List.take_length, List.take_of_length_le (heq ▸ (hfilled.rest heq).1)]
  rw [moveAxes, htake]
  have hrun : ∀ k ≤ (bound sig inputs kwargs).full, WrittenFor sig (max inputs.length k) L
      (((sig.positional.take k).zipIdx).foldl (fun axes q ↦
        if kwargs.get? q.1.name = none ∨ (((bound sig inputs kwargs).kwargs sig).get? q.1.name).isSome then axes
        else moveArgument axes q.2 q.1.name) axes) := by
    intro k
    induction k with
    | zero =>
      intro _
      rw [Nat.max_zero]
      exact h
    | succ k ih =>
      intro hk
      have hlt : k < sig.positional.length := lt_of_lt_of_le hk hfilled.le
      have hlength : (sig.positional.take k).length = k := List.length_take_of_le hlt.le
      rw [List.take_succ_eq_append_getElem hlt, List.zipIdx_append, List.foldl_append, hlength, Nat.zero_add]
      exact writtenFor_step haccepts hk (List.getElem?_eq_getElem hlt) (ih (Nat.le_of_succ_le hk)) hL
  refine (hrun _ le_rfl).congr (fun a ha ↦ (hL a ha).mono (le_max_left _ _)) fun i hi ↦ ?_
  obtain hlt | heq := hfilled.le.lt_or_eq
  · have hreach := hfilled.reach hlt
    have hshort := hfilled.short hlt
    omega
  · have hlong := (hfilled.rest heq).1
    omega

end Axes

/-! ### Reading the sizes -/

section Sizes

variable {V : Type} {T : Values V} {sig : Signature} {inputs : List V} {kwargs : Dict String V}

theorem foldlM_value {inputs' : List V} {kwargs' : Dict String V} (l : List (List Char)) (v : V) :
    l.foldlM (step T inputs kwargs) (.value v) = l.foldlM (step T inputs' kwargs') (.value v) := by
  induction l generalizing v with
  | nil => rfl
  | cons part l ih =>
    rw [List.foldlM_cons, List.foldlM_cons, step, step]
    cases T.child v (String.ofList (unescape part)) with
    | error e => rfl
    | ok w => exact ih w

/-- What a bound call passes for a target. An index with too many digits is not read. -/
def Bound.valueOf (sig : Signature) (b : Bound V) : Target → Option V
  | .position i => (b.positional[i]?).join
  | .rest j => if maxStrDigits < (toString (sig.positional.length + j)).length then none else b.rest[j]?
  | .keyword name => (b.kwargs sig).get? name

/-- The size of a value along an axis. -/
def sizeInside (T : Values V) (v : V) (inside : Path) (axis : ℤ) : Option ℤ :=
  (do
    let node ← (parts inside).foldlM (step T [] (Dict.empty : Dict String V)) (.value v)
    shapeAt T node axis).toOption

def Bound.sizeOf (T : Values V) (sig : Signature) (b : Bound V) (p : Pointer) (axis : ℤ) : Option ℤ :=
  (b.valueOf sig p.target).bind fun v ↦ sizeInside T v p.inside axis

theorem sizeAt_argsPath (i : ℕ) {inside : Path} (h : Inside inside) (axis : ℤ) :
    (sizeAt T inputs kwargs (argsPath i ++ inside) axis).toOption =
      (if maxStrDigits < (toString i).length then none else inputs[i]?).bind fun v ↦ sizeInside T v inside axis := by
  have hparts : parts (argsPath i ++ inside) = ['a', 'r', 'g', 's'] :: digits i :: parts inside := by
    have hroot : argsPath i ++ inside = '/' :: (['a', 'r', 'g', 's'] ++ '/' :: (digits i ++ inside)) := by
      simp [argsPath, argsRoot]
    rw [hroot, parts_cons (by decide) (.inr ⟨_, rfl⟩), parts_cons (slash_notMem_digits i) h]
  have htilde : '~' ∉ digits i := fun hmem ↦ absurd (isDigit_of_mem_digits _ hmem) (by decide)
  have hroots : step T inputs kwargs .roots ['a', 'r', 'g', 's'] = .ok .args := rfl
  have hindex : String.ofList (unescape (digits i)) = toString i := by
    rw [unescape_of_notMem htilde, digits, String.ofList_toList]
  rw [sizeAt, hparts, List.foldlM_cons, hroots, ok_bind, List.foldlM_cons, step, hindex, intOfText_toString]
  split_ifs with hlong
  · rfl
  · have hneg : ¬(i : ℤ) < 0 := not_lt.mpr (Int.natCast_nonneg i)
    rw [ok_bind, itemAt]
    simp only [if_neg hneg, Int.natCast_nonneg, if_true, Int.toNat_natCast]
    cases inputs[i]? with
    | none => rfl
    | some v =>
      dsimp only
      rw [ok_bind, pure_bind, Option.bind_some, sizeInside,
        ← @foldlM_value V T inputs kwargs [] Dict.empty (parts inside) v]

theorem sizeAt_kwargsPath (name : String) {inside : Path} (h : Inside inside) (axis : ℤ) :
    (sizeAt T inputs kwargs (kwargsPath name ++ inside) axis).toOption =
      (kwargs.get? name).bind fun v ↦ sizeInside T v inside axis := by
  have hparts : parts (kwargsPath name ++ inside) =
      ['k', 'w', 'a', 'r', 'g', 's'] :: escape name.toList :: parts inside := by
    have hroot : kwargsPath name ++ inside =
        '/' :: (['k', 'w', 'a', 'r', 'g', 's'] ++ '/' :: (escape name.toList ++ inside)) := by
      simp [kwargsPath, kwargsRoot]
    rw [hroot, parts_cons (by decide) (.inr ⟨_, rfl⟩), parts_cons (slash_notMem_escape _) h]
  have hroots : step T inputs kwargs .roots ['k', 'w', 'a', 'r', 'g', 's'] = .ok .kwargs := rfl
  have hkey : String.ofList (unescape (escape name.toList)) = name := by
    rw [unescape_escape, String.ofList_toList]
  rw [sizeAt, hparts, List.foldlM_cons, hroots, ok_bind, List.foldlM_cons, step, hkey, keyAt]
  cases kwargs.get? name with
  | none => rfl
  | some v =>
    dsimp only
    rw [ok_bind, pure_bind, Option.bind_some, sizeInside,
      ← @foldlM_value V T inputs kwargs [] Dict.empty (parts inside) v]

/-- A pointer that is written for a call leads to what the call binds. -/
theorem sizeAt_write {p : Pointer} (hp : Names sig inputs.length p) (axis : ℤ) :
    (sizeAt T inputs kwargs (write sig inputs.length p) axis).toOption =
      (bound sig inputs kwargs).sizeOf T sig p axis := by
  obtain ⟨target, inside, wf⟩ := p
  cases target with
  | position i =>
    obtain ⟨q, hq, hname⟩ := hp
    have hvalue : ((bound sig inputs kwargs).positional[i]?).join = passed inputs kwargs q i := by
      rw [getElem?_positional, hq]
      rfl
    rw [Bound.sizeOf, Bound.valueOf, hvalue, write]
    dsimp only
    split_ifs with hi
    · have hshort : ¬maxStrDigits < (toString i).length := by
        have hlt := (List.getElem?_eq_some_iff.mp hq).1.trans sig.count
        have hlength := (Nat.length_repr_le_iff (n := i) (k := 10) (by decide)).mpr (by omega)
        rw [Nat.toString_eq_repr, maxStrDigits]
        omega
      rw [sizeAt_argsPath i wf, if_neg hshort, passed_of_lt (List.getElem?_eq_getElem hi), List.getElem?_eq_getElem hi]
    · rw [sizeAt_kwargsPath _ wf, nameAt_eq hq, passed_of_le (not_lt.mp hi), if_pos (hname.resolve_right hi)]
  | rest j =>
    rw [Bound.sizeOf, Bound.valueOf, write]
    dsimp only
    rw [sizeAt_argsPath _ wf, bound, List.getElem?_drop]
  | keyword name =>
    rw [Bound.sizeOf, Bound.valueOf, write]
    dsimp only
    rw [sizeAt_kwargsPath _ wf, get?_kwargs_of_notMoved]
    rintro ⟨j, q, -, hq, hbyName, rfl⟩
    exact hp q (List.mem_of_getElem? hq) hbyName rfl

theorem toOption_eq_some_iff {α : Type} {x : Except PyError α} {a : α} : x.toOption = some a ↔ x = .ok a := by
  cases x with
  | error e => exact iff_of_false (by rintro ⟨⟩) (by rintro ⟨⟩)
  | ok b => exact ⟨fun h ↦ congrArg Except.ok (Option.some.inj h), fun h ↦ congrArg some (Except.ok.inj h)⟩

theorem declared_eq_ok_iff {path : Path} {axis n : ℤ} {x : Except PyError ℤ} :
    declared path axis x = .ok n ↔ x = .ok n := by
  cases x with
  | ok size => rfl
  | error e =>
    rw [declared]
    split_ifs
    · exact iff_of_false (by rintro ⟨⟩) (by rintro ⟨⟩)
    · rfl

theorem inputBatchSize_eq_ok_iff {axes : Dict Path ℤ} {r : Option ℤ} :
    inputBatchSize T inputs kwargs (some axes) = .ok r ↔ (r = none ∧ axes.entries = []) ∨
      ∃ n, r = some n ∧ axes.entries ≠ [] ∧ 1 ≤ n ∧ ∀ p ∈ axes.entries, sizeAt T inputs kwargs p.1 p.2 = .ok n := by
  rw [inputBatchSize]
  dsimp only
  split_ifs with hnil
  · simp [hnil, eq_comm]
  · constructor
    · intro h
      obtain ⟨sizes, hsizes, h⟩ := bind_eq_ok h
      obtain ⟨_, hsame, h⟩ := bind_eq_ok h
      obtain ⟨_, hpos, h⟩ := bind_eq_ok h
      refine .inr ⟨sizes.headD 0, (Except.ok.inj h).symm, hnil, of_require hpos, fun p hp ↦ ?_⟩
      obtain ⟨size, hsize, hp⟩ := forall₂_exists_of_mem_left (mapM_eq_ok_iff.mp hsizes) hp
      rw [← of_require hsame size hsize]
      exact declared_eq_ok_iff.mp hp
    · rintro (⟨-, h⟩ | ⟨n, rfl, -, hpos, hall⟩)
      · exact absurd h hnil
      · have hsizes : axes.entries.mapM (fun p ↦ declared p.1 p.2 (sizeAt T inputs kwargs p.1 p.2)) =
            .ok (axes.entries.map fun _ ↦ n) := by
          rw [mapM_eq_ok_iff, List.forall₂_map_right_iff, List.forall₂_same]
          exact fun p hp ↦ declared_eq_ok_iff.mpr (hall p hp)
        have hhead : (axes.entries.map fun _ ↦ n).headD 0 = n := by
          cases hentries : axes.entries with
          | nil => exact absurd hentries hnil
          | cons p l => rfl
        rw [hsizes, ok_bind, hhead, require_of, ok_bind, require_of hpos]
        · rfl
        · intro size hsize
          obtain ⟨_, -, rfl⟩ := List.mem_map.mp hsize
          rfl

variable {L : List (Pointer × ℤ)} {axes : Dict Path ℤ}

theorem entries_eq_nil_iff {count : ℕ} (h : WrittenFor sig count L axes) : axes.entries = [] ↔ L = [] := by
  rw [Dict.entries_eq_nil_iff]
  constructor
  · intro hnone
    rw [List.eq_nil_iff_forall_not_mem]
    rintro ⟨p, axis⟩ hp
    have hsome := (h _ axis).mpr ⟨p, hp, rfl⟩
    rw [hnone] at hsome
    cases hsome
  · rintro rfl path
    rw [Option.eq_none_iff_forall_ne_some]
    intro axis haxis
    obtain ⟨p, hp, -⟩ := (h path axis).mp haxis
    cases hp

/-- The batch size of a call in terms of what it binds. -/
theorem inputBatchSize_written (h : WrittenFor sig inputs.length L axes) (hL : ∀ a ∈ L, Names sig inputs.length a.1)
    {r : Option ℤ} : (inputBatchSize T inputs kwargs (some axes)).toOption = some r ↔ (r = none ∧ L = []) ∨
      ∃ n, r = some n ∧ L ≠ [] ∧ 1 ≤ n ∧ ∀ a ∈ L, (bound sig inputs kwargs).sizeOf T sig a.1 a.2 = some n := by
  rw [toOption_eq_some_iff, inputBatchSize_eq_ok_iff, ne_eq, entries_eq_nil_iff h]
  refine or_congr_right (exists_congr fun n ↦ ?_)
  refine and_congr_right fun _ ↦ and_congr_right fun _ ↦ and_congr_right fun _ ↦ ?_
  constructor
  · rintro hall ⟨p, axis⟩ hp
    have hget := (h _ axis).mpr ⟨p, hp, rfl⟩
    have hsize := hall _ ((Dict.get?_eq_some_iff _).mp hget)
    rw [← sizeAt_write (hL _ hp), toOption_eq_some_iff]
    exact hsize
  · rintro hall ⟨path, axis⟩ hp
    obtain ⟨p, hmem, rfl⟩ := (h path axis).mp ((Dict.get?_eq_some_iff _).mpr hp)
    have hsize := hall _ hmem
    rw [← sizeAt_write (hL _ hmem), toOption_eq_some_iff] at hsize
    exact hsize

theorem sizeOf_congr {inputs' : List V} {kwargs' : Dict String V}
    (h : (bound sig inputs kwargs).Same (bound sig inputs' kwargs')) (p : Pointer) (axis : ℤ) :
    (bound sig inputs kwargs).sizeOf T sig p axis = (bound sig inputs' kwargs').sizeOf T sig p axis := by
  have hvalue : ∀ target, (bound sig inputs kwargs).valueOf sig target =
      (bound sig inputs' kwargs').valueOf sig target := by
    intro target
    cases target with
    | position i => rw [Bound.valueOf, Bound.valueOf, h.positional]
    | rest j => rw [Bound.valueOf, Bound.valueOf, h.rest]
    | keyword name => exact get?_kwargs_congr h name
  rw [Bound.sizeOf, Bound.sizeOf, hvalue]

/-- Two calls that bind the same arguments have one batch size, or none. -/
theorem inputBatchSize_congr {inputs' : List V} {kwargs' : Dict String V} {axes' : Dict Path ℤ}
    (hsame : (bound sig inputs kwargs).Same (bound sig inputs' kwargs')) (h : WrittenFor sig inputs.length L axes)
    (h' : WrittenFor sig inputs'.length L axes') (hL : ∀ a ∈ L, Names sig inputs.length a.1)
    (hL' : ∀ a ∈ L, Names sig inputs'.length a.1) :
    (inputBatchSize T inputs kwargs (some axes)).toOption =
      (inputBatchSize T inputs' kwargs' (some axes')).toOption := by
  apply Option.ext
  intro r
  rw [inputBatchSize_written h hL, inputBatchSize_written h' hL']
  simp only [sizeOf_congr hsame]

end Sizes

/-! ### Independence of the spelling -/

section Independence

variable {V : Type} {T : Values V} {repr : String → String} {sig : Signature}

theorem names_args {inputs : List V} {kwargs : Dict String V} {p : Pointer} (h : Names sig inputs.length p) :
    Names sig (bound sig inputs kwargs).args.length p := by
  have hfilled := filled sig inputs kwargs
  obtain ⟨target, inside, wf⟩ := p
  cases target with
  | position i =>
    obtain ⟨q, hq, hname⟩ := h
    refine ⟨q, hq, hname.imp_right fun hi ↦ ?_⟩
    have hlt := (List.getElem?_eq_some_iff.mp hq).1
    obtain hshort | heq := hfilled.le.lt_or_eq
    · rw [hfilled.short hshort]
      exact hi.trans_le (hfilled.reach hshort)
    · exact (heq ▸ hlt).trans_le (hfilled.rest heq).1
  | rest j => trivial
  | keyword name => exact h

theorem Bound.Same.symm {b b' : Bound V} (h : b.Same b') : b'.Same b :=
  ⟨h.positional.symm, h.rest.symm, h.keyword.symm, fun name ↦ (h.extra name).symm⟩

theorem Bound.Same.trans {b b' b'' : Bound V} (h : b.Same b') (h' : b'.Same b'') : b.Same b'' :=
  ⟨h.positional.trans h'.positional, h.rest.trans h'.rest, h.keyword.trans h'.keyword,
    fun name ↦ (h.extra name).trans (h'.extra name)⟩

/-- The axes of the normal form. -/
theorem written_normal {inputs : List V} {kwargs : Dict String V} {pointers : Option (List (Pointer × ℤ))}
    {axes : Option (Dict Path ℤ)} (haccepts : Accepts sig inputs kwargs)
    (hnames : ∀ L ∈ pointers, ∀ a ∈ L, Names sig inputs.length a.1)
    (haxes : Option.Rel (WrittenFor sig inputs.length) pointers axes) :
    Option.Rel (WrittenFor sig (bound sig inputs kwargs).args.length) pointers
      (axes.map (moveAxes sig (bound sig inputs kwargs).args kwargs ((bound sig inputs kwargs).kwargs sig))) := by
  cases haxes with
  | none => exact .none
  | some h => exact .some (writtenFor_moveAxes haccepts h (hnames _ rfl))

/-- The pointers and the call leave one set of axes. -/
theorem written_unique {count : ℕ} {pointers : Option (List (Pointer × ℤ))} {axes axes' : Option (Dict Path ℤ)}
    (h : Option.Rel (WrittenFor sig count) pointers axes) (h' : Option.Rel (WrittenFor sig count) pointers axes') :
    Option.Rel (fun d d' ↦ ∀ path, Dict.get? d path = Dict.get? d' path) axes axes' := by
  cases h with
  | none =>
    cases h'
    exact .none
  | some h =>
    cases h' with
    | some h' =>
      refine .some fun path ↦ Option.ext fun axis ↦ ?_
      rw [h path axis, h' path axis]

theorem batchSize_congr {inputs inputs' : List V} {kwargs kwargs' : Dict String V}
    (hsame : (bound sig inputs kwargs).Same (bound sig inputs' kwargs')) {pointers : Option (List (Pointer × ℤ))}
    {axes axes' : Option (Dict Path ℤ)} (hnames : ∀ L ∈ pointers, ∀ a ∈ L, Names sig inputs.length a.1)
    (hnames' : ∀ L ∈ pointers, ∀ a ∈ L, Names sig inputs'.length a.1)
    (haxes : Option.Rel (WrittenFor sig inputs.length) pointers axes)
    (haxes' : Option.Rel (WrittenFor sig inputs'.length) pointers axes') :
    (inputBatchSize T inputs kwargs axes).toOption = (inputBatchSize T inputs' kwargs' axes').toOption := by
  cases haxes with
  | none =>
    cases haxes'
    rfl
  | some h =>
    cases haxes' with
    | some h' => exact inputBatchSize_congr hsame h h' (hnames _ rfl) (hnames' _ rfl)

/-- The batch size of a call is that of its normal form. -/
theorem modelInputBatchSize_eq (repr : String → String) {inputs : List V} {kwargs : Dict String V} {b : Bound V}
    (hb : bind sig inputs kwargs = .ok b) {pointers : Option (List (Pointer × ℤ))} {axes : Option (Dict Path ℤ)}
    (hnames : ∀ L ∈ pointers, ∀ a ∈ L, Names sig inputs.length a.1)
    (haxes : Option.Rel (WrittenFor sig inputs.length) pointers axes) :
    (modelInputBatchSize repr T (some sig) inputs kwargs axes).toOption =
      (inputBatchSize T inputs kwargs axes).toOption := by
  obtain ⟨b', hb', hsame⟩ := bind_normal hb (Dict.get?_sorted repr (b.kwargs sig))
  rw [modelInputBatchSize, normalizeModelCall_eq hb, ok_bind]
  obtain ⟨haccepts, rfl⟩ := bind_eq_ok_iff.mp hb
  obtain ⟨-, rfl⟩ := bind_eq_ok_iff.mp hb'
  exact batchSize_congr hsame (fun L hL a ha ↦ names_args (hnames L hL a ha)) hnames
    (written_normal haccepts hnames haxes) haxes

/-- Two ways to pass the same arguments have one normal form and one batch size. -/
theorem modelCall_independent (T : Values V) (hrepr : Function.Injective repr) {inputs inputs' : List V}
    {kwargs kwargs' : Dict String V} {b b' : Bound V} (hb : bind sig inputs kwargs = .ok b)
    (hb' : bind sig inputs' kwargs' = .ok b') (hsame : b.Same b') {pointers : Option (List (Pointer × ℤ))}
    (hnames : ∀ L ∈ pointers, ∀ a ∈ L, Names sig inputs.length a.1 ∧ Names sig inputs'.length a.1)
    {axes axes' : Option (Dict Path ℤ)} (haxes : Option.Rel (WrittenFor sig inputs.length) pointers axes)
    (haxes' : Option.Rel (WrittenFor sig inputs'.length) pointers axes') :
    (∃ args canonical normal normal',
      normalizeModelCall repr (some sig) inputs kwargs axes = .ok (args, canonical, normal) ∧
      normalizeModelCall repr (some sig) inputs' kwargs' axes' = .ok (args, canonical, normal') ∧
      Option.Rel (fun d d' ↦ ∀ path, Dict.get? d path = Dict.get? d' path) normal normal' ∧
      ∀ any, normalizeModelCall repr (some sig) args canonical any = .ok (args, canonical, any)) ∧
    (∀ model ∈ [none, some sig], (modelInputBatchSize repr T model inputs kwargs axes).toOption =
      (modelInputBatchSize repr T model inputs' kwargs' axes').toOption) ∧
    ∀ normal, runtimeInputBatchSize repr T (some sig) normal inputs kwargs =
      runtimeInputBatchSize repr T (some sig) normal inputs' kwargs' := by
  have hleft : ∀ L ∈ pointers, ∀ a ∈ L, Names sig inputs.length a.1 := fun L hL a ha ↦ (hnames L hL a ha).1
  have hright : ∀ L ∈ pointers, ∀ a ∈ L, Names sig inputs'.length a.1 := fun L hL a ha ↦ (hnames L hL a ha).2
  have hsize := modelInputBatchSize_eq (T := T) repr hb hleft haxes
  have hsize' := modelInputBatchSize_eq (T := T) repr hb' hright haxes'
  have hidempotent := normalizeModelCall_idempotent hrepr hb
  have hnormal := @normalizeModelCall_eq V repr sig inputs kwargs axes b hb
  have hnormal' := @normalizeModelCall_eq V repr sig inputs' kwargs' axes' b' hb'
  have hruntime := @normalizeModelCall_eq V repr sig inputs kwargs none b hb
  have hruntime' := @normalizeModelCall_eq V repr sig inputs' kwargs' none b' hb'
  obtain ⟨haccepts, rfl⟩ := bind_eq_ok_iff.mp hb
  obtain ⟨haccepts', rfl⟩ := bind_eq_ok_iff.mp hb'
  have hargs := hsame.args_eq
  have hkwargs := sorted_congr hrepr (get?_kwargs_congr hsame)
  refine ⟨⟨_, _, _, axes'.map (moveAxes sig (bound sig inputs' kwargs').args kwargs'
    ((bound sig inputs' kwargs').kwargs sig)), hnormal, ?_, ?_, hidempotent⟩, ?_, ?_⟩
  · rw [hargs, hkwargs]
    exact hnormal'
  · have hwritten := written_normal haccepts hleft haxes
    rw [congrArg List.length hargs] at hwritten
    exact written_unique hwritten (written_normal haccepts' hright haxes')
  · intro model hmodel
    have hcongr := batchSize_congr (T := T) hsame hleft hright haxes haxes'
    obtain rfl | hmodel := List.mem_cons.mp hmodel
    · exact hcongr
    · obtain rfl := List.mem_singleton.mp hmodel
      rw [hsize, hcongr, hsize']
  · intro normal
    rw [runtimeInputBatchSize, runtimeInputBatchSize, hruntime, hruntime', hargs, hkwargs]
    rfl

end Independence

/-! ### A call by position and by name -/

theorem pyRepr_injective : Function.Injective pyRepr := by
  intro s t h
  have hlist := congrArg String.toList h
  rw [pyRepr, pyRepr, String.toList_append, String.toList_append, String.toList_append, String.toList_append] at hlist
  exact String.toList_injective (List.append_cancel_left (List.append_cancel_right hlist))

theorem writtenFor_singleton (sig : Signature) (count : ℕ) (p : Pointer) (axis : ℤ) :
    WrittenFor sig count [(p, axis)] (Dict.empty.insert (write sig count p) axis) := by
  intro path a
  rw [Dict.get?_insert, Dict.get?_empty]
  constructor
  · intro h
    split_ifs at h with hpath
    obtain rfl := Option.some.inj h
    exact ⟨p, List.mem_singleton_self _, hpath⟩
  · rintro ⟨q, hq, rfl⟩
    obtain ⟨rfl, rfl⟩ := Prod.mk.inj (List.mem_singleton.mp hq)
    exact if_pos rfl

/-- `def forward(self, x, scale=1.0, *, mask=None)` -/
def scaled : Signature where
  positional := [⟨⟨"x", true⟩, true⟩, ⟨⟨"scale", false⟩, true⟩]
  varPositional := false
  keywordOnly := [⟨"mask", false⟩]
  varKeyword := false
  nodup := by decide
  count := by decide

/-- Values that are batches of so many samples. -/
def batches : Values ℤ where
  child _ key := .error (.raised "AttributeError" key)
  extent size _ := .ok size

/-- `forward(16)` with the axis `/args/0`, and `forward(x=16)` with the axis `/kwargs/x`. -/
theorem modelCall_independent_scaled :
    (modelInputBatchSize pyRepr batches (some scaled) [16] Dict.empty
      (some (Dict.empty.insert (write scaled 1 ⟨.position 0, [], .inl rfl⟩) 0))).toOption =
    (modelInputBatchSize pyRepr batches (some scaled) [] (Dict.empty.insert "x" 16)
      (some (Dict.empty.insert (write scaled 0 ⟨.position 0, [], .inl rfl⟩) 0))).toOption := by
  have hnames : ∀ L ∈ some [((⟨.position 0, [], .inl rfl⟩ : Pointer), (0 : ℤ))], ∀ a ∈ L,
      Names scaled 1 a.1 ∧ Names scaled 0 a.1 := by
    rintro _ ⟨⟩ a ha
    obtain rfl := List.mem_singleton.mp ha
    exact ⟨⟨_, rfl, .inl rfl⟩, _, rfl, .inl rfl⟩
  have hposition : bind scaled [(16 : ℤ)] Dict.empty = .ok (bound scaled [16] Dict.empty) := rfl
  have hname : bind scaled [] (Dict.empty.insert "x" (16 : ℤ)) = .ok (bound scaled [] (Dict.empty.insert "x" 16)) := rfl
  exact (modelCall_independent batches pyRepr_injective hposition hname ⟨rfl, rfl, rfl, fun _ ↦ rfl⟩ hnames
    (.some (writtenFor_singleton _ _ _ _)) (.some (writtenFor_singleton _ _ _ _))).2.1 (some scaled) (by simp)

end SplitFleet.ModelCall
