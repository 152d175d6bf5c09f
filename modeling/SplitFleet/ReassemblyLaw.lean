import SplitFleet.Reassembly

set_option autoImplicit false

namespace SplitFleet.Reassembly

open Lib

namespace Slot

variable {mode : TiedMode} {tied : Bool} {s : Slot} {x : Tensor}

/-- The reasons to refuse a position. -/
inductive Refused (mode : TiedMode) (tied : Bool) (s : Slot) : Prop
  | initial (h : s.clientInitial.arrayEqual s.serverInitial = false)
  | ambiguous (ht : tied = false) (hc : s.clientChanged = true) (hs : s.serverChanged = true)
      (h : s.clientValue.arrayEqual s.serverValue = false)
  | twice (ht : tied = true) (hc : s.clientChanged = true) (hs : s.serverChanged = true) (hm : mode = .reject)
  | deltas (ht : tied = true) (hc : s.clientChanged = true) (hs : s.serverChanged = true)
      (hm : mode = .additiveSgd) (e : PyError) (h : s.bothDeltas = .error e)

/-- What a position becomes. -/
inductive Merged (tied : Bool) (s : Slot) : Tensor → Prop
  | server (hs : s.serverChanged = true)
      (hc : s.clientChanged = false ∨ tied = false ∧ s.clientValue.arrayEqual s.serverValue = true) :
    Merged tied s s.serverValue
  | client (hc : s.clientChanged = true) (hs : s.serverChanged = false) : Merged tied s s.clientValue
  | unchanged (hc : s.clientChanged = false) (hs : s.serverChanged = false) : Merged tied s s.clientInitial
  | both (ht : tied = true) (hc : s.clientChanged = true) (hs : s.serverChanged = true) {x : Tensor}
      (h : s.bothDeltas = .ok x) : Merged tied s x

theorem merged_select (h : s.clientChanged = false ∨ s.serverChanged = false ∨
    tied = false ∧ s.clientValue.arrayEqual s.serverValue = true) : Merged tied s s.select := by
  rw [select]
  cases hs : s.serverChanged with
  | true =>
    rw [if_pos rfl]
    exact .server hs (h.imp_right fun h ↦ h.resolve_left (by simp [hs]))
  | false =>
    rw [if_neg Bool.false_ne_true]
    cases hc : s.clientChanged with
    | true =>
      rw [if_pos rfl]
      exact .client hc hs
    | false =>
      rw [if_neg Bool.false_ne_true]
      exact .unchanged hc hs

/-- A position is refused, or it becomes what it should. -/
theorem reassemble_cases (mode : TiedMode) (tied : Bool) (s : Slot) :
    (∃ x, s.reassemble mode tied = .ok x ∧ Merged tied s x ∧ ¬ Refused mode tied s) ∨
      Refused mode tied s ∧ ∃ e, s.reassemble mode tied = .error e := by
  rw [reassemble]
  cases hi : s.clientInitial.arrayEqual s.serverInitial with
  | false => exact .inr ⟨.initial hi, _, rfl⟩
  | true =>
    rw [Bool.not_true, if_neg Bool.false_ne_true]
    cases tied with
    | true =>
      rw [if_pos rfl]
      cases hb : s.clientChanged && s.serverChanged with
      | true =>
        obtain ⟨hc, hs⟩ := Bool.and_eq_true_iff.mp hb
        rw [if_pos rfl]
        cases mode with
        | reject => exact .inr ⟨.twice rfl hc hs rfl, _, rfl⟩
        | additiveSgd =>
          rw [if_neg (by simp)]
          cases hd : s.bothDeltas with
          | error e => exact .inr ⟨.deltas rfl hc hs rfl e hd, e, rfl⟩
          | ok x =>
            refine .inl ⟨x, rfl, .both rfl hc hs hd, fun h ↦ ?_⟩
            cases h with
            | initial h => simp [hi] at h
            | ambiguous ht => cases ht
            | twice _ _ _ hm => cases hm
            | deltas _ _ _ _ e h => simp [hd] at h
      | false =>
        have hno := Bool.and_eq_false_iff.mp hb
        rw [if_neg Bool.false_ne_true]
        refine .inl ⟨_, rfl, merged_select (hno.imp_right .inl), fun h ↦ ?_⟩
        cases h with
        | initial h => simp [hi] at h
        | ambiguous ht => cases ht
        | twice _ hc hs => simp [hc, hs] at hb
        | deltas _ hc hs => simp [hc, hs] at hb
    | false =>
      rw [if_neg Bool.false_ne_true]
      cases hb : s.clientChanged && s.serverChanged && !s.clientValue.arrayEqual s.serverValue with
      | true =>
        obtain ⟨hb, he⟩ := Bool.and_eq_true_iff.mp hb
        obtain ⟨hc, hs⟩ := Bool.and_eq_true_iff.mp hb
        rw [if_pos rfl]
        exact .inr ⟨.ambiguous rfl hc hs (by simpa using he), _, rfl⟩
      | false =>
        rw [if_neg Bool.false_ne_true]
        refine .inl ⟨_, rfl, merged_select ?_, fun h ↦ ?_⟩
        · rcases Bool.and_eq_false_iff.mp hb with hb | he
          · exact (Bool.and_eq_false_iff.mp hb).imp_right .inl
          · exact .inr (.inr ⟨rfl, by simpa using he⟩)
        · cases h with
          | initial h => simp [hi] at h
          | ambiguous _ hc hs h => simp [hc, hs, h] at hb
          | twice ht => cases ht
          | deltas ht => cases ht

theorem exists_reassemble_iff : (∃ x, s.reassemble mode tied = .ok x) ↔ ¬ Refused mode tied s := by
  rcases reassemble_cases mode tied s with ⟨x, hx, -, hno⟩ | ⟨hr, e, he⟩
  · exact iff_of_true ⟨x, hx⟩ hno
  · refine iff_of_false ?_ (not_not.mpr hr)
    rintro ⟨x, hx⟩
    cases hx.symm.trans he

theorem merged_of_reassemble (h : s.reassemble mode tied = .ok x) : Merged tied s x := by
  rcases reassemble_cases mode tied s with ⟨y, hy, hm, -⟩ | ⟨-, e, he⟩
  · cases h.symm.trans hy
    exact hm
  · cases h.symm.trans he

/-- The four values of a position share a dtype and a shape. -/
structure OfSchema (d : DType) (shape : List ℕ) (s : Slot) : Prop where
  clientInitial : s.clientInitial.dtype = d ∧ s.clientInitial.shape = shape
  serverInitial : s.serverInitial.dtype = d ∧ s.serverInitial.shape = shape
  clientValue : s.clientValue.dtype = d ∧ s.clientValue.shape = shape
  serverValue : s.serverValue.dtype = d ∧ s.serverValue.shape = shape

/-- Both deltas on top of the initial value, entry by entry. -/
theorem OfSchema.bothDeltas {d : DType} {shape : List ℕ} (h : s.OfSchema d shape) (hd : d.kind ≠ .bool) :
    s.bothDeltas = .ok ⟨d, shape, List.zipWith (· + ·)
      (List.zipWith (· + ·) s.clientInitial.data
        (List.zipWith (· - ·) s.clientValue.data s.clientInitial.data))
      (List.zipWith (· - ·) s.serverValue.data s.serverInitial.data)⟩ := by
  obtain ⟨name, ⟨_, _, b⟩, ⟨_, _, b'⟩, ⟨_, _, c⟩, ⟨_, _, v⟩⟩ := s
  obtain ⟨⟨rfl, rfl⟩, ⟨h₁, h₂⟩, ⟨h₃, h₄⟩, ⟨h₅, h₆⟩⟩ := h
  dsimp only at h₁ h₂ h₃ h₄ h₅ h₆
  subst h₁ h₂ h₃ h₄ h₅ h₆
  rw [Slot.bothDeltas]
  dsimp only at hd ⊢
  rw [Tensor.subtract_of_schema _ c b hd, ok_bind, Tensor.plus_of_schema _ b _ hd, ok_bind,
    Tensor.subtract_of_schema _ v b' hd, ok_bind, Tensor.plus_of_schema _ _ _ hd]

/-- The values of two slots are equal, array by array. -/
structure SameValues (s t : Slot) : Prop where
  clientInitial : s.clientInitial.arrayEqual t.clientInitial = true
  serverInitial : s.serverInitial.arrayEqual t.serverInitial = true
  clientValue : s.clientValue.arrayEqual t.clientValue = true
  serverValue : s.serverValue.arrayEqual t.serverValue = true

variable {t : Slot} {y : Tensor}

theorem SameValues.bothDeltas (h : SameValues s t) (hx : s.bothDeltas = .ok x) (hy : t.bothDeltas = .ok y) :
    x.arrayEqual y = true := by
  obtain ⟨c, hc, hx⟩ := bind_eq_ok hx
  obtain ⟨w, hw, hx⟩ := bind_eq_ok hx
  obtain ⟨d, hd, hx⟩ := bind_eq_ok hx
  obtain ⟨c', hc', hy⟩ := bind_eq_ok hy
  obtain ⟨w', hw', hy⟩ := bind_eq_ok hy
  obtain ⟨d', hd', hy⟩ := bind_eq_ok hy
  obtain ⟨hck, hc⟩ := Tensor.subtract_eq_ok hc
  obtain ⟨hck', hc'⟩ := Tensor.subtract_eq_ok hc'
  obtain ⟨hdk, hd⟩ := Tensor.subtract_eq_ok hd
  obtain ⟨hdk', hd'⟩ := Tensor.subtract_eq_ok hd'
  rw [Tensor.plus_of_right hck] at hw
  rw [Tensor.plus_of_right hck'] at hw'
  rw [Tensor.plus_of_right hdk] at hx
  rw [Tensor.plus_of_right hdk'] at hy
  have hclient := Tensor.elementwise_congr h.clientValue h.clientInitial hc hc'
  have hserver := Tensor.elementwise_congr h.serverValue h.serverInitial hd hd'
  exact Tensor.elementwise_congr (Tensor.elementwise_congr h.clientInitial hclient hw hw') hserver hx hy

/-- Positions with equal values, both tied or both untied, become equal. -/
theorem SameValues.merged (h : SameValues s t) (hx : Merged tied s x) (hy : Merged tied t y) :
    x.arrayEqual y = true := by
  have hcc : t.clientChanged = s.clientChanged := by
    rw [clientChanged, Tensor.arrayEqual_congr h.clientValue h.clientInitial, clientChanged]
  have hss : t.serverChanged = s.serverChanged := by
    rw [serverChanged, Tensor.arrayEqual_congr h.serverValue h.serverInitial, serverChanged]
  cases hx with
  | server hs hc =>
    cases hy with
    | server => exact h.serverValue
    | client _ hs' => simp [hss, hs] at hs'
    | unchanged _ hs' => simp [hss, hs] at hs'
    | both ht hc' =>
      rw [hcc] at hc'
      simp [hc', ht] at hc
  | client hc hs =>
    cases hy with
    | server hs' => simp [hss, hs] at hs'
    | client => exact h.clientValue
    | unchanged hc' => simp [hcc, hc] at hc'
    | both _ _ hs' => simp [hss, hs] at hs'
  | unchanged hc hs =>
    cases hy with
    | server hs' => simp [hss, hs] at hs'
    | client hc' => simp [hcc, hc] at hc'
    | unchanged => exact h.clientInitial
    | both _ _ hs' => simp [hss, hs] at hs'
  | both ht hc hs hx =>
    cases hy with
    | server _ hc' => simp [hcc, hc, ht] at hc'
    | client _ hs' => simp [hss, hs] at hs'
    | unchanged _ hs' => simp [hss, hs] at hs'
    | both _ _ _ hy => exact h.bothDeltas hx hy

end Slot

section State

variable {mode : TiedMode} {tied : List ℕ} {position : ℕ} {l : List Slot} {xs : List Tensor}

/-- Each turn of the loop speaks of its own position. -/
theorem exists_reassembleFrom_iff : (∃ xs, reassembleFrom mode tied position l = .ok xs) ↔
    ∀ (i : ℕ) (s : Slot), l[i]? = some s → ¬ s.Refused mode (position + i ∈ tied) := by
  induction l generalizing position with
  | nil => exact iff_of_true ⟨[], rfl⟩ (by simp)
  | cons s l ih =>
    constructor
    · rintro ⟨xs, h⟩ i s' hi
      obtain ⟨x, hx, h⟩ := bind_eq_ok h
      obtain ⟨ys, hys, -⟩ := bind_eq_ok h
      cases i with
      | zero =>
        cases hi
        exact Slot.exists_reassemble_iff.mp ⟨x, hx⟩
      | succ i =>
        have hrest := ih.mp ⟨ys, hys⟩ i s' hi
        rwa [Nat.add_right_comm, Nat.add_assoc] at hrest
    · intro h
      obtain ⟨x, hx⟩ := Slot.exists_reassemble_iff.mpr (h 0 s rfl)
      obtain ⟨ys, hys⟩ := ih.mpr fun i s' hi ↦ by
        rw [Nat.add_right_comm, Nat.add_assoc]
        exact h (i + 1) s' hi
      rw [Nat.add_zero] at hx
      exact ⟨x :: ys, by rw [reassembleFrom, hx, ok_bind, hys, ok_bind]⟩

theorem merged_of_reassembleFrom (h : reassembleFrom mode tied position l = .ok xs) :
    ∀ (i : ℕ) (s : Slot), l[i]? = some s → ∃ x, xs[i]? = some x ∧ s.Merged (position + i ∈ tied) x := by
  induction l generalizing position xs with
  | nil => simp
  | cons s l ih =>
    intro i s' hi
    obtain ⟨x, hx, h⟩ := bind_eq_ok h
    obtain ⟨ys, hys, h⟩ := bind_eq_ok h
    cases h
    cases i with
    | zero =>
      cases hi
      exact ⟨x, rfl, Slot.merged_of_reassemble hx⟩
    | succ i =>
      have hrest := ih hys i s' hi
      rwa [Nat.add_right_comm, Nat.add_assoc] at hrest

variable {names : List String} {initialClient initialServer clientState serverState : List Tensor}
  {tiedGroups : List (List ℕ)}

/-- The values at two positions of a state are equal. -/
def EqualAt (state : List Tensor) (i j : ℕ) : Prop :=
  ∀ x y, state[i]? = some x → state[j]? = some y → x.arrayEqual y = true

theorem slots_getElem? {i : ℕ} {s : Slot}
    (h : (slots names initialClient initialServer clientState serverState)[i]? = some s) :
    initialClient[i]? = some s.clientInitial ∧ initialServer[i]? = some s.serverInitial ∧
      clientState[i]? = some s.clientValue ∧ serverState[i]? = some s.serverValue := by
  induction names generalizing initialClient initialServer clientState serverState i with
  | nil => cases h
  | cons n ns ih =>
    cases initialClient with
    | nil => cases h
    | cons a as =>
      cases initialServer with
      | nil => cases h
      | cons b bs =>
        cases clientState with
        | nil => cases h
        | cons c cs =>
          cases serverState with
          | nil => cases h
          | cons d ds =>
            cases i with
            | zero =>
              cases h
              exact ⟨rfl, rfl, rfl, rfl⟩
            | succ i =>
              change (slots ns as bs cs ds)[i]? = some s at h
              have hrest := ih h
              exact hrest

theorem sameValues_of_equalAt {i j : ℕ} {s t : Slot}
    (hs : (slots names initialClient initialServer clientState serverState)[i]? = some s)
    (ht : (slots names initialClient initialServer clientState serverState)[j]? = some t)
    (h : EqualAt initialClient i j ∧ EqualAt initialServer i j ∧ EqualAt clientState i j ∧ EqualAt serverState i j) :
    Slot.SameValues s t := by
  obtain ⟨hs₁, hs₂, hs₃, hs₄⟩ := slots_getElem? hs
  obtain ⟨ht₁, ht₂, ht₃, ht₄⟩ := slots_getElem? ht
  exact ⟨h.1 _ _ hs₁ ht₁, h.2.1 _ _ hs₂ ht₂, h.2.2.1 _ _ hs₃ ht₃, h.2.2.2 _ _ hs₄ ht₄⟩

end State

end SplitFleet.Reassembly
