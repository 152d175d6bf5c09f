import Mathlib.Logic.Function.Basic
import SplitFleet.Lib.Python

set_option autoImplicit false

namespace SplitFleet.Lib

/-- The objects of a process, numbered as they are made. Those that are live have different addresses, and what
they refer to is live. An address may be given again when its object is gone. -/
structure Memory (A N : Type) (refs : N → List ℕ) where
  live : List ℕ
  address : ℕ → A
  node : ℕ → N
  count : ℕ
  lt_count : ∀ o ∈ live, o < count
  address_inj : ∀ o ∈ live, ∀ p ∈ live, address o = address p → o = p
  closed : ∀ o ∈ live, ∀ p ∈ refs (node o), p ∈ live

namespace Memory

variable {A N : Type} {refs : N → List ℕ} (m : Memory A N refs)

/-- No live object has the address. -/
def Free (a : A) : Prop := ∀ o ∈ m.live, m.address o ≠ a

instance [DecidableEq A] (a : A) : Decidable (m.Free a) := inferInstanceAs (Decidable (∀ _ ∈ _, _))

variable {m} in
theorem ne_count {o : ℕ} (h : o ∈ m.live) : o ≠ m.count := (m.lt_count o h).ne

def allocate (a : A) (n : N) (ha : m.Free a) (hn : ∀ p ∈ refs n, p ∈ m.live) : Memory A N refs where
  live := m.count :: m.live
  address := Function.update m.address m.count a
  node := Function.update m.node m.count n
  count := m.count + 1
  lt_count o ho := by
    obtain rfl | ho := List.mem_cons.mp ho
    · exact Nat.lt_succ_self _
    · exact Nat.lt_succ_of_lt (m.lt_count o ho)
  address_inj o ho p hp h := by
    obtain rfl | ho := List.mem_cons.mp ho <;> obtain rfl | hp := List.mem_cons.mp hp
    · rfl
    · rw [Function.update_self, Function.update_of_ne (ne_count hp)] at h
      exact absurd h.symm (ha p hp)
    · rw [Function.update_self, Function.update_of_ne (ne_count ho)] at h
      exact absurd h (ha o ho)
    · rw [Function.update_of_ne (ne_count ho), Function.update_of_ne (ne_count hp)] at h
      exact m.address_inj o ho p hp h
  closed o ho p hp := by
    obtain rfl | ho := List.mem_cons.mp ho
    · rw [Function.update_self] at hp
      exact List.mem_cons_of_mem _ (hn p hp)
    · rw [Function.update_of_ne (ne_count ho)] at hp
      exact List.mem_cons_of_mem _ (m.closed o ho p hp)

/-- Only these objects stay. -/
def collect (keep : ℕ → Bool) (h : ∀ o ∈ m.live, keep o = true → ∀ p ∈ refs (m.node o), keep p = true) :
    Memory A N refs where
  live := m.live.filter keep
  address := m.address
  node := m.node
  count := m.count
  lt_count o ho := m.lt_count o (List.mem_of_mem_filter ho)
  address_inj o ho p hp := m.address_inj o (List.mem_of_mem_filter ho) p (List.mem_of_mem_filter hp)
  closed o ho p hp := by
    obtain ⟨hlive, hkeep⟩ := List.mem_filter.mp ho
    exact List.mem_filter.mpr ⟨m.closed o hlive p hp, h o hlive hkeep p hp⟩

/-- The object gets new content. -/
def assign (o : ℕ) (n : N) (hn : ∀ p ∈ refs n, p ∈ m.live) : Memory A N refs where
  live := m.live
  address := m.address
  node := Function.update m.node o n
  count := m.count
  lt_count := m.lt_count
  address_inj := m.address_inj
  closed q hq p hp := by
    by_cases h : q = o
    · subst h
      rw [Function.update_self] at hp
      exact hn p hp
    · rw [Function.update_of_ne h] at hp
      exact m.closed q hq p hp

/-! ### What the steps leave -/

/-- These live objects and what they refer to are in the second memory, where and as they were. -/
structure Retains (m m' : Memory A N refs) (kept : ℕ → Prop) : Prop where
  live : ∀ o, kept o → o ∈ m.live
  live' : ∀ o, kept o → o ∈ m'.live
  address : ∀ o, kept o → m'.address o = m.address o
  node : ∀ o, kept o → m'.node o = m.node o
  refs : ∀ o, kept o → ∀ p ∈ refs (m.node o), kept p

variable {m}

theorem retains_allocate {a : A} {n : N} (ha : m.Free a) (hn : ∀ p ∈ refs n, p ∈ m.live) :
    m.Retains (m.allocate a n ha hn) (· ∈ m.live) where
  live _ ho := ho
  live' _ ho := List.mem_cons_of_mem _ ho
  address _ ho := Function.update_of_ne (ne_count ho) _ _
  node _ ho := Function.update_of_ne (ne_count ho) _ _
  refs := m.closed

theorem retains_collect {keep : ℕ → Bool}
    (h : ∀ o ∈ m.live, keep o = true → ∀ p ∈ refs (m.node o), keep p = true) :
    m.Retains (m.collect keep h) (fun o ↦ o ∈ m.live ∧ keep o = true) where
  live _ ho := ho.1
  live' _ ho := List.mem_filter.mpr ho
  address _ _ := rfl
  node _ _ := rfl
  refs o ho p hp := ⟨m.closed o ho.1 p hp, h o ho.1 ho.2 p hp⟩

end Memory

/-! ### Tables under addresses -/

section Anchored

variable {A N κ τ ε : Type} {refs : N → List ℕ} [DecidableEq κ]

/-- Every entry stands under a key that is made from the address of a live object, which the entry keeps alive, and
from a tag that fits the entry. -/
def Anchored (m : Memory A N refs) (anchor : ε → ℕ) (key : A → τ → κ) (fits : τ → ε → Prop) (table : Dict κ ε) : Prop :=
  ∀ k e, table.get? k = some e → anchor e ∈ m.live ∧ ∃ t, k = key (m.address (anchor e)) t ∧ fits t e

namespace Anchored

variable {m m' : Memory A N refs} {anchor anchor' : ε → ℕ} {key : A → τ → κ} {fits fits' : τ → ε → Prop}
  {table table' : Dict κ ε}

theorem empty : Anchored m anchor key fits Dict.empty := fun _ _ h ↦ nomatch h

/-- An entry that is found for a live object was put there for this object. -/
theorem found (h : Anchored m anchor key fits table) (hkey : ∀ a b s t, key a s = key b t → a = b ∧ s = t) {o : ℕ}
    (ho : o ∈ m.live) {t : τ} {e : ε} (he : table.get? (key (m.address o) t) = some e) :
    anchor e = o ∧ fits t e := by
  obtain ⟨hlive, s, heq, hs⟩ := h _ e he
  obtain ⟨haddress, rfl⟩ := hkey _ _ _ _ heq
  exact ⟨(m.address_inj o ho _ hlive haddress).symm, hs⟩

theorem insert (h : Anchored m anchor key fits table) {t : τ} {e : ε} (hlive : anchor e ∈ m.live) (ht : fits t e) :
    Anchored m anchor key fits (table.insert (key (m.address (anchor e)) t) e) := by
  intro k e' he'
  rw [Dict.get?_insert] at he'
  split at he'
  · next hk =>
    obtain rfl := Option.some.inj he'
    exact ⟨hlive, t, hk.symm, ht⟩
  · exact h k e' he'

/-- What takes entries out of the table, and keeps the objects of the others where they are. -/
theorem of_subset (h : Anchored m anchor key fits table)
    (htable : ∀ k e, table'.get? k = some e → table.get? k = some e)
    (hm : ∀ k e, table'.get? k = some e → anchor e ∈ m.live →
      anchor' e ∈ m'.live ∧ m'.address (anchor' e) = m.address (anchor e) ∧ ∀ t, fits t e → fits' t e) :
    Anchored m' anchor' key fits' table' := by
  intro k e he
  obtain ⟨hlive, t, hk, ht⟩ := h k e (htable k e he)
  obtain ⟨hlive', haddress, hfits⟩ := hm k e he hlive
  exact ⟨hlive', t, haddress ▸ hk, hfits t ht⟩

end Anchored

end Anchored

end SplitFleet.Lib
