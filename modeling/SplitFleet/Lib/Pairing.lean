import SplitFleet.Lib.Python

set_option autoImplicit false

namespace SplitFleet.Lib

variable {α β : Type} [DecidableEq α] [DecidableEq β]

/-- Objects that stand for each other, looked up from both sides. -/
structure Pairing (α β : Type) where
  forward : Dict α β
  backward : Dict β α

namespace Pairing

def empty : Pairing α β := ⟨.empty, .empty⟩

/-- Two objects are paired unless one of them has another partner already. -/
def pair (untied tied : PyError) (p : Pairing α β) (a : α) (b : β) : Except PyError (Pairing α β) := do
  require (∀ b' ∈ p.forward.get? a, b' = b) untied
  require (∀ a' ∈ p.backward.get? b, a' = a) tied
  return ⟨p.forward.insert a b, p.backward.insert b a⟩

/-- The pairs of a list, and no others, are paired, and both sides tell them apart alike. -/
structure Of (l : List (α × β)) (p : Pairing α β) : Prop where
  forward : ∀ a b, p.forward.get? a = some b ↔ (a, b) ∈ l
  backward : ∀ a b, p.backward.get? b = some a ↔ (a, b) ∈ l

theorem of_empty : Of [] (empty : Pairing α β) := ⟨by simp [empty], by simp [empty]⟩

variable {untied tied : PyError} {l : List (α × β)} {p q : Pairing α β} {a : α} {b : β}

theorem Of.pair (hp : Of l p) (h : p.pair untied tied a b = .ok q) : Of (l ++ [(a, b)]) q := by
  obtain ⟨_, hforward, h⟩ := bind_eq_ok h
  obtain ⟨_, hbackward, h⟩ := bind_eq_ok h
  cases h
  have hforward := of_require hforward
  have hbackward := of_require hbackward
  constructor
  · intro x y
    rw [Dict.get?_insert, List.mem_append, List.mem_singleton, Prod.mk.injEq, ← hp.forward]
    by_cases hx : a = x
    · subst hx
      rw [if_pos rfl, Option.some.injEq]
      constructor
      · rintro rfl
        exact .inr ⟨rfl, rfl⟩
      · rintro (h | ⟨-, rfl⟩)
        · exact (hforward y h).symm
        · rfl
    · rw [if_neg hx]
      exact ⟨.inl, fun h ↦ h.resolve_right fun h ↦ hx h.1.symm⟩
  · intro x y
    rw [Dict.get?_insert, List.mem_append, List.mem_singleton, Prod.mk.injEq, ← hp.backward]
    by_cases hy : b = y
    · subst hy
      rw [if_pos rfl, Option.some.injEq]
      constructor
      · rintro rfl
        exact .inr ⟨rfl, rfl⟩
      · rintro (h | ⟨rfl, -⟩)
        · exact (hbackward x h).symm
        · rfl
    · rw [if_neg hy]
      exact ⟨.inl, fun h ↦ h.resolve_right fun h ↦ hy h.2.symm⟩

/-- Paired objects are the same on one side just where they are on the other. -/
theorem Of.eq_iff (hp : Of l p) {a' : α} {b' : β} (h : (a, b) ∈ l) (h' : (a', b') ∈ l) : a = a' ↔ b = b' := by
  constructor
  · rintro rfl
    exact Option.some.inj (((hp.forward _ _).mpr h).symm.trans ((hp.forward _ _).mpr h'))
  · rintro rfl
    exact Option.some.inj (((hp.backward _ _).mpr h).symm.trans ((hp.backward _ _).mpr h'))

/-- A loop that pairs each item with its partner. -/
theorem Of.foldlM {ι : Type} {f : Pairing α β → ι → Except PyError (Pairing α β)} (item : ι → α)
    (partner : ι → Option β) {items : List ι}
    (hf : ∀ p i q, f p i = .ok q → ∃ b untied tied, partner i = some b ∧ p.pair untied tied (item i) b = .ok q)
    (hp : Of l p) (h : items.foldlM f p = .ok q) :
    Of (l ++ items.filterMap fun i ↦ (partner i).map (item i, ·)) q := by
  induction items generalizing l p with
  | nil =>
    cases h
    rwa [List.filterMap_nil, List.append_nil]
  | cons i items ih =>
    rw [List.foldlM_cons] at h
    obtain ⟨r, hr, h⟩ := bind_eq_ok h
    obtain ⟨b, untied, tied, hpartner, hpair⟩ := hf p i r hr
    have hrest := ih (hp.pair hpair) h
    rw [List.filterMap_cons_some (b := (item i, b)) (by rw [hpartner, Option.map_some])]
    rwa [List.append_assoc] at hrest

end Pairing

end SplitFleet.Lib
