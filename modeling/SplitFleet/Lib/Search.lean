import Mathlib.Logic.Relation
import SplitFleet.Lib.Python

set_option autoImplicit false

namespace SplitFleet.Lib.Search

variable {α : Type} [DecidableEq α] (adjacent : Dict α (List α)) (through : α → Bool)

/-- The neighbours of a vertex, none where the dictionary does not have it. -/
def neighbours (a : α) : List α := (adjacent.get? a).getD []

/-- The edges out of the vertices that are not visited yet. -/
def remaining (visited : List α) : List (α × List α) → ℕ
  | [] => 0
  | p :: l => (if p.1 ∈ visited then 0 else p.2.length) + remaining visited l

theorem remaining_cons_le (visited : List α) (a : α) (l : List (α × List α)) :
    remaining (a :: visited) l ≤ remaining visited l := by
  induction l with
  | nil => exact le_rfl
  | cons p l ih =>
    rw [remaining, remaining]
    by_cases hp : p.1 ∈ visited
    · simp only [hp, List.mem_cons_of_mem a hp, if_true]
      omega
    · split_ifs <;> omega

/-- A visit uses up the edges out of its vertex. -/
theorem remaining_visit {visited : List α} {a : α} (ha : a ∉ visited) (l : List (α × List α)) :
    ((Dict.lookup l a).getD []).length + remaining (a :: visited) l ≤ remaining visited l := by
  induction l with
  | nil => exact le_rfl
  | cons p l ih =>
    obtain ⟨b, bs⟩ := p
    rw [remaining, remaining, Dict.lookup]
    by_cases hb : b = a
    · subst hb
      have hle := remaining_cons_le visited b l
      simp only [if_true, List.mem_cons_self, if_neg ha, Option.getD_some]
      omega
    · rw [if_neg hb]
      simp only [List.mem_cons, hb, false_or]
      omega

/-- A search with a stack, its top first. The vertices that were visited come back, the last one first; the search
goes on only from those that it may go through. -/
def search (frontier visited : List α) : List α :=
  match frontier with
  | [] => visited
  | a :: frontier =>
    if a ∈ visited then search frontier visited
    else if through a then search ((neighbours adjacent a).reverse ++ frontier) (a :: visited)
    else search frontier (a :: visited)
termination_by frontier.length + remaining visited adjacent.entries
decreasing_by
  · simp
  · have := remaining_visit ‹_› adjacent.entries
    simp only [List.length_append, List.length_reverse, List.length_cons, neighbours, Dict.get?]
    omega
  · have := remaining_cons_le visited a adjacent.entries
    simp only [List.length_cons]
    omega

/-- One step of the search. -/
def Step (a b : α) : Prop := through a = true ∧ b ∈ neighbours adjacent a

variable {adjacent through}

theorem subset_search (frontier visited : List α) :
    (∀ a ∈ visited, a ∈ search adjacent through frontier visited) ∧
      ∀ a ∈ frontier, a ∈ search adjacent through frontier visited := by
  fun_induction search with
  | case1 visited => exact ⟨fun _ ↦ id, fun _ h ↦ by cases h⟩
  | case2 visited a frontier ha ih =>
    exact ⟨ih.1, List.forall_mem_cons.mpr ⟨ih.1 a ha, ih.2⟩⟩
  | case3 visited a frontier ha ht ih =>
    refine ⟨fun b hb ↦ ih.1 b (List.mem_cons_of_mem a hb), List.forall_mem_cons.mpr ⟨ih.1 a List.mem_cons_self, ?_⟩⟩
    exact fun b hb ↦ ih.2 b (List.mem_append_right _ hb)
  | case4 visited a frontier ha ht ih =>
    exact ⟨fun b hb ↦ ih.1 b (List.mem_cons_of_mem a hb), List.forall_mem_cons.mpr ⟨ih.1 a List.mem_cons_self, ih.2⟩⟩

/-- What is visited in the search leads only to what is visited. -/
theorem search_closed (frontier visited : List α) : ∀ a ∈ search adjacent through frontier visited, a ∉ visited →
    ∀ b, Step adjacent through a b → b ∈ search adjacent through frontier visited := by
  fun_induction search with
  | case1 visited => exact fun a ha hn ↦ absurd ha hn
  | case2 visited a frontier ha ih => exact ih
  | case3 visited a frontier ha ht ih =>
    intro b hb hn c hc
    by_cases hba : b = a
    · subst hba
      have hmem : c ∈ (neighbours adjacent b).reverse ++ frontier :=
        List.mem_append_left _ (List.mem_reverse.mpr hc.2)
      exact (subset_search _ _).2 c hmem
    · exact ih b hb (fun hm ↦ (List.mem_cons.mp hm).elim hba hn) c hc
  | case4 visited a frontier ha ht ih =>
    intro b hb hn c hc
    by_cases hba : b = a
    · exact absurd (hba ▸ hc.1) ht
    · exact ih b hb (fun hm ↦ (List.mem_cons.mp hm).elim hba hn) c hc

theorem search_sound (frontier visited : List α) : ∀ a ∈ search adjacent through frontier visited,
    a ∈ visited ∨ ∃ f ∈ frontier, Relation.ReflTransGen (Step adjacent through) f a := by
  fun_induction search with
  | case1 visited => exact fun a ha ↦ .inl ha
  | case2 visited a frontier ha ih =>
    exact fun b hb ↦ (ih b hb).imp_right fun ⟨f, hf, h⟩ ↦ ⟨f, List.mem_cons_of_mem a hf, h⟩
  | case3 visited a frontier ha ht ih =>
    intro b hb
    obtain hv | ⟨f, hf, h⟩ := ih b hb
    · obtain rfl | hv := List.mem_cons.mp hv
      · exact .inr ⟨b, List.mem_cons_self, .refl⟩
      · exact .inl hv
    · obtain hf | hf := List.mem_append.mp hf
      · exact .inr ⟨a, List.mem_cons_self, .head ⟨ht, List.mem_reverse.mp hf⟩ h⟩
      · exact .inr ⟨f, List.mem_cons_of_mem a hf, h⟩
  | case4 visited a frontier ha ht ih =>
    intro b hb
    obtain hv | ⟨f, hf, h⟩ := ih b hb
    · obtain rfl | hv := List.mem_cons.mp hv
      · exact .inr ⟨b, List.mem_cons_self, .refl⟩
      · exact .inl hv
    · exact .inr ⟨f, List.mem_cons_of_mem a hf, h⟩

/-- The search visits what can be reached. -/
theorem mem_search_iff {frontier : List α} {a : α} : a ∈ search adjacent through frontier [] ↔
    ∃ f ∈ frontier, Relation.ReflTransGen (Step adjacent through) f a := by
  constructor
  · exact fun h ↦ (search_sound frontier [] a h).resolve_left List.not_mem_nil
  · rintro ⟨f, hf, h⟩
    induction h with
    | refl => exact (subset_search frontier []).2 f hf
    | tail _ hs ih => exact search_closed frontier [] _ ih List.not_mem_nil _ hs

end SplitFleet.Lib.Search
