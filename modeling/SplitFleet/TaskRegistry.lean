import Mathlib.Data.String.Basic
import SplitFleet.Lib.Sorting

set_option autoImplicit false

namespace SplitFleet.TaskRegistry

open Lib

variable {σ : Type}

/-- `TaskRegistry`: the tasks by their keys, and the key that each alias stands for. -/
structure Registry (σ : Type) where
  specs : Dict String σ
  aliases : Dict String String

def emptyRegistry : Registry σ := ⟨.empty, .empty⟩

/-- What the language makes of `str(name).strip().lower()`, and the name that a specification has. -/
structure Naming (σ : Type) where
  lowered : String → String
  name : σ → String

section Code

variable (N : Naming σ)

/-- `_key` -/
def keyOf (name : String) : Except PyError String := do
  let key := (N.lowered name).map fun c ↦ if c = '-' then '_' else c
  require (key ≠ "") (.valueError "Task name must not be empty.")
  return key

namespace Registry

variable (r : Registry σ)

def taken (name : String) : Bool := (r.specs.get? name).isSome || (r.aliases.get? name).isSome

/-- The name belongs to a task with another key. -/
def foreign (key name : String) : Bool :=
  (r.specs.get? name).isSome && name ≠ key || (r.aliases.get? name).any (· ≠ key)

/-- Without the task of the key, its aliases, and the aliases that are asked for. -/
def without (key : String) (aliasKeys : List String) : Registry σ where
  specs := r.specs.erase key
  aliases := r.aliases.entries.foldl
    (fun d p ↦ if p.1 ∈ aliasKeys ∨ p.2 = key then d.erase p.1 else d) r.aliases

def add (key : String) (spec : σ) (aliasKeys : List String) : Registry σ where
  specs := r.specs.insert key spec
  aliases := aliasKeys.foldl (fun d a ↦ if a = key then d else d.insert a key) r.aliases

/-- The registry once the names are checked. -/
def given (key : String) (spec : σ) (aliasKeys : List String) (replace : Bool) : Registry σ :=
  (if replace then r.without key aliasKeys else r).add key spec aliasKeys

def register (spec : σ) (aliases : List String) (replace : Bool) : Except PyError (Registry σ) := do
  let key ← keyOf N (N.name spec)
  let aliasKeys ← aliases.mapM (keyOf N)
  let collisions := (key :: aliasKeys).filter r.taken
  require (collisions = [] ∨ replace = true)
    (.keyError s!"Task names are already registered: {pyReprList (sortedBy id collisions)}")
  let strangers := (key :: aliasKeys).filter (r.foreign key)
  require (strangers = [] ∨ replace = false)
    (.keyError s!"Task names belong to another registered task: {pyReprList (sortedSet strangers)}")
  return r.given key spec aliasKeys replace

def names : List String := sortedBy id r.specs.keys

def get (name : String) : Except PyError σ := do
  let key ← keyOf N name
  match r.specs.get? ((r.aliases.get? key).getD key) with
  | none => throw (.keyError s!"Unknown task {pyRepr name}; available: {pyReprList r.names}")
  | some spec => return spec

end Registry

/-- A call of `register`. -/
structure Call (σ : Type) where
  spec : σ
  aliases : List String
  replace : Bool

/-- A refused call leaves the registry as it is. -/
def Registry.after (r : Registry σ) (call : Call σ) : Registry σ :=
  match r.register N call.spec call.aliases call.replace with
  | .ok r' => r'
  | .error _ => r

def run (calls : List (Call σ)) : Registry σ := calls.foldl (Registry.after N) emptyRegistry

end Code

/-! ### Names and their owners -/

/-- What a registry is for: a name belongs to at most one task, which is there with its key. -/
abbrev Owners (σ : Type) := String → Option (String × σ)

namespace Owners

variable (N : Naming σ) (o : Owners σ)

/-- Every name is free, or belongs to the task that is to be replaced. -/
def Allows (key : String) (aliasKeys : List String) (replace : Bool) : Prop :=
  ∀ n ∈ key :: aliasKeys, o n = none ∨ replace = true ∧ ∃ spec, o n = some (key, spec)

/-- The task gets these names and loses all others. -/
def give (key : String) (spec : σ) (aliasKeys : List String) : Owners σ := fun n ↦
  if n ∈ key :: aliasKeys then some (key, spec) else (o n).filter fun p ↦ p.1 ≠ key

variable {o} {key n : String} {spec : σ} {aliasKeys : List String}

theorem give_own (hn : n ∈ key :: aliasKeys) : o.give key spec aliasKeys n = some (key, spec) := if_pos hn

theorem give_free (hn : n ∉ key :: aliasKeys) (ho : o n = none) : o.give key spec aliasKeys n = none := by
  rw [give, if_neg hn, ho]
  rfl

theorem give_lost {old : σ} (hn : n ∉ key :: aliasKeys) (ho : o n = some (key, old)) :
    o.give key spec aliasKeys n = none := by
  rw [give, if_neg hn, ho, Option.filter_some, if_neg]
  simp

theorem give_kept {t : String} {old : σ} (hn : n ∉ key :: aliasKeys) (ho : o n = some (t, old)) (ht : t ≠ key) :
    o.give key spec aliasKeys n = some (t, old) := by
  rw [give, if_neg hn, ho, Option.filter_some, if_pos]
  exact decide_eq_true ht

variable (o)

/-- The keys that a call asks for. -/
def KeysOf (call : Call σ) (key : String) (aliasKeys : List String) : Prop :=
  keyOf N (N.name call.spec) = .ok key ∧ call.aliases.mapM (keyOf N) = .ok aliasKeys

/-- The call is accepted. -/
def Accepts (call : Call σ) : Prop :=
  ∃ key aliasKeys, KeysOf N call key aliasKeys ∧ o.Allows key aliasKeys call.replace

/-- What a history of calls leaves. -/
inductive History : List (Call σ) → Owners σ → Prop
  | start : History [] fun _ ↦ none
  | given {calls : List (Call σ)} {o : Owners σ} {call : Call σ} {key : String} {aliasKeys : List String}
      (before : History calls o) (hkeys : KeysOf N call key aliasKeys)
      (hallows : o.Allows key aliasKeys call.replace) : History (calls ++ [call]) (o.give key call.spec aliasKeys)
  | refused {calls : List (Call σ)} {o : Owners σ} {call : Call σ}
      (before : History calls o) (hrefused : ¬o.Accepts N call) : History (calls ++ [call]) o

end Owners

namespace Registry

variable {N : Naming σ} {r : Registry σ} {key : String} {aliasKeys : List String} {replace : Bool} {spec : σ}

/-- The task that a name stands for, with its key. -/
def owners (r : Registry σ) : Owners σ := fun n ↦
  (r.specs.get? ((r.aliases.get? n).getD n)).map (Prod.mk ((r.aliases.get? n).getD n))

/-- Every alias stands for a task and is no key. -/
structure Consistent (r : Registry σ) : Prop where
  target : ∀ {a t : String}, r.aliases.get? a = some t → ∃ spec, r.specs.get? t = some spec
  apart : ∀ {a t : String}, r.aliases.get? a = some t → r.specs.get? a = none

theorem owners_of_alias {n t : String} (h : r.aliases.get? n = some t) :
    r.owners n = (r.specs.get? t).map (Prod.mk t) := by
  rw [owners, h]
  rfl

theorem owners_of_key {n : String} (h : r.aliases.get? n = none) :
    r.owners n = (r.specs.get? n).map (Prod.mk n) := by
  rw [owners, h]
  rfl

namespace Consistent

variable (h : r.Consistent)

include h

theorem taken_iff (n : String) : r.taken n = true ↔ r.owners n ≠ none := by
  cases ha : r.aliases.get? n with
  | none => simp [taken, ha, owners_of_key ha, ← Option.isSome_iff_ne_none]
  | some t =>
    obtain ⟨spec, hspec⟩ := h.target ha
    simp [taken, ha, owners_of_alias ha, hspec]

theorem foreign_iff (key n : String) :
    r.foreign key n = true ↔ ∃ k spec, r.owners n = some (k, spec) ∧ k ≠ key := by
  cases ha : r.aliases.get? n with
  | none => cases hs : r.specs.get? n <;> simp [foreign, ha, owners_of_key ha, hs]
  | some t =>
    obtain ⟨spec, hspec⟩ := h.target ha
    simp [foreign, ha, owners_of_alias ha, hspec, h.apart ha]

theorem allows_iff : r.owners.Allows key aliasKeys replace ↔
    ((key :: aliasKeys).filter r.taken = [] ∨ replace = true) ∧
      ((key :: aliasKeys).filter (r.foreign key) = [] ∨ replace = false) := by
  cases replace with
  | false =>
    simp only [Owners.Allows, List.filter_eq_nil_iff, h.taken_iff]
    simp
  | true =>
    simp only [Owners.Allows, List.filter_eq_nil_iff, h.foreign_iff]
    simp only [or_true, true_and, reduceCtorEq, or_false, not_exists, not_and, not_not]
    refine forall₂_congr fun n _ ↦ ?_
    cases ho : r.owners n with
    | none => simp
    | some p =>
      obtain ⟨k, spec⟩ := p
      simp

theorem aliases_key (hallows : r.owners.Allows key aliasKeys replace) : r.aliases.get? key = none := by
  cases ha : r.aliases.get? key with
  | none => rfl
  | some t =>
    obtain ⟨spec, hspec⟩ := h.target ha
    have howner := owners_of_alias ha
    rw [hspec] at howner
    obtain hfree | ⟨-, old, hold⟩ := hallows key List.mem_cons_self
    · rw [hfree] at howner
      cases howner
    · rw [hold] at howner
      cases howner
      rw [h.apart ha] at hspec
      cases hspec

/-- A task that is new has no aliases yet. -/
theorem no_aliases (hallows : r.owners.Allows key aliasKeys false) (n : String) : r.aliases.get? n ≠ some key := by
  intro hn
  obtain ⟨spec, hspec⟩ := h.target hn
  have howner := owners_of_key (h.aliases_key hallows)
  rw [hspec] at howner
  obtain hfree | ⟨hfalse, -⟩ := hallows key List.mem_cons_self
  · rw [hfree] at howner
    cases howner
  · cases hfalse

end Consistent

/-! ### One accepted call -/

theorem get?_erased (drop : String × String → Prop) [DecidablePred drop] (l : List (String × String))
    (d : Dict String String) (n : String) :
    (l.foldl (fun d p ↦ if drop p then d.erase p.1 else d) d).get? n =
      if ∃ p ∈ l, drop p ∧ p.1 = n then none else d.get? n := by
  induction l generalizing d with
  | nil => simp
  | cons p l ih =>
    have hcons : (∃ q ∈ p :: l, drop q ∧ q.1 = n) ↔ (drop p ∧ p.1 = n) ∨ ∃ q ∈ l, drop q ∧ q.1 = n := by simp
    rw [List.foldl_cons, ih]
    by_cases hl : ∃ q ∈ l, drop q ∧ q.1 = n
    · rw [if_pos hl, if_pos (hcons.mpr (.inr hl))]
    · rw [if_neg hl]
      by_cases hp : drop p ∧ p.1 = n
      · rw [if_pos (hcons.mpr (.inl hp)), if_pos hp.1, Dict.get?_erase, if_pos hp.2]
      · rw [if_neg fun hc ↦ (hcons.mp hc).elim hp hl]
        by_cases hdrop : drop p
        · rw [if_pos hdrop, Dict.get?_erase, if_neg fun hn ↦ hp ⟨hdrop, hn⟩]
        · rw [if_neg hdrop]

theorem get?_assigned (key : String) (l : List String) (d : Dict String String) (n : String) :
    (l.foldl (fun d a ↦ if a = key then d else d.insert a key) d).get? n =
      if n ∈ l ∧ n ≠ key then some key else d.get? n := by
  induction l generalizing d with
  | nil => simp
  | cons a l ih =>
    rw [List.foldl_cons, ih]
    by_cases hn : n ∈ l ∧ n ≠ key
    · rw [if_pos hn, if_pos ⟨List.mem_cons_of_mem _ hn.1, hn.2⟩]
    · rw [if_neg hn]
      by_cases ha : a = key
      · have hother : ¬(n ∈ a :: l ∧ n ≠ key) := by
          rintro ⟨hmem, hne⟩
          obtain rfl | hmem := List.mem_cons.mp hmem
          · exact hne ha
          · exact hn ⟨hmem, hne⟩
        rw [if_pos ha, if_neg hother]
      · rw [if_neg ha, Dict.get?_insert]
        by_cases han : a = n
        · subst han
          rw [if_pos rfl, if_pos ⟨List.mem_cons_self, ha⟩]
        · have hother : ¬(n ∈ a :: l ∧ n ≠ key) := by
            rintro ⟨hmem, hne⟩
            obtain rfl | hmem := List.mem_cons.mp hmem
            · exact han rfl
            · exact hn ⟨hmem, hne⟩
          rw [if_neg han, if_neg hother]

theorem without_aliases (r : Registry σ) (key : String) (aliasKeys : List String) (n : String) :
    (r.without key aliasKeys).aliases.get? n =
      if n ∈ aliasKeys ∨ r.aliases.get? n = some key then none else r.aliases.get? n := by
  rw [without, get?_erased]
  cases ha : r.aliases.get? n with
  | none => simp
  | some t =>
    have hmem := (r.aliases.get?_eq_some_iff).mp ha
    have hiff : (∃ p ∈ r.aliases.entries, (p.1 ∈ aliasKeys ∨ p.2 = key) ∧ p.1 = n) ↔
        n ∈ aliasKeys ∨ some t = some key := by
      constructor
      · rintro ⟨p, hp, hdrop, rfl⟩
        have hp' := (r.aliases.get?_eq_some_iff).mpr (show (p.1, p.2) ∈ _ from hp)
        rw [ha] at hp'
        cases hp'
        exact hdrop.imp_right (congrArg some)
      · intro hdrop
        exact ⟨(n, t), hmem, hdrop.imp_right Option.some.inj, rfl⟩
    simp only [hiff]

theorem given_specs (r : Registry σ) (key : String) (spec : σ) (aliasKeys : List String) (replace : Bool) (n : String) :
    (r.given key spec aliasKeys replace).specs.get? n = if key = n then some spec else r.specs.get? n := by
  cases replace with
  | false => exact Dict.get?_insert _ _ _ _
  | true =>
    refine (Dict.get?_insert _ _ _ _).trans ?_
    by_cases hn : key = n
    · rw [if_pos hn, if_pos hn]
    · rw [if_neg hn, if_neg hn]
      exact (Dict.get?_erase _ _ _).trans (if_neg hn)

namespace Consistent

variable (h : r.Consistent) (hallows : r.owners.Allows key aliasKeys replace)

include h hallows

theorem given_aliases (n : String) :
    (r.given key spec aliasKeys replace).aliases.get? n =
      if n ∈ aliasKeys ∧ n ≠ key then some key
      else if r.aliases.get? n = some key then none else r.aliases.get? n := by
  refine (get?_assigned key aliasKeys _ n).trans ?_
  by_cases hn : n ∈ aliasKeys ∧ n ≠ key
  · rw [if_pos hn, if_pos hn]
  · rw [if_neg hn, if_neg hn]
    cases replace with
    | false => exact (if_neg (h.no_aliases hallows n)).symm
    | true =>
      refine (without_aliases r key aliasKeys n).trans ?_
      by_cases hkey : n = key
      · rw [hkey, h.aliases_key hallows]
        simp
      · have hmem : n ∉ aliasKeys := fun hmem ↦ hn ⟨hmem, hkey⟩
        simp only [hmem, false_or]

theorem owners_given : (r.given key spec aliasKeys replace).owners = r.owners.give key spec aliasKeys := by
  funext n
  have haliases : (r.given key spec aliasKeys replace).aliases.get? n = _ := h.given_aliases hallows n
  have hspecs := given_specs r key spec aliasKeys replace
  by_cases hkey : n = key
  · subst hkey
    rw [if_neg fun hc ↦ hc.2 rfl, h.aliases_key hallows, if_neg (Option.some_ne_none _).symm] at haliases
    rw [owners_of_key haliases, hspecs, if_pos rfl, Owners.give_own List.mem_cons_self]
    rfl
  · by_cases hmem : n ∈ aliasKeys
    · rw [if_pos ⟨hmem, hkey⟩] at haliases
      rw [owners_of_alias haliases, hspecs, if_pos rfl, Owners.give_own (List.mem_cons_of_mem _ hmem)]
      rfl
    · have hother : n ∉ key :: aliasKeys := by simp [hkey, hmem]
      have hn : r.specs.get? n = (r.given key spec aliasKeys replace).specs.get? n :=
        ((hspecs n).trans (if_neg (Ne.symm hkey))).symm
      rw [if_neg fun hc ↦ hmem hc.1] at haliases
      cases ha : r.aliases.get? n with
      | none =>
        rw [ha, if_neg (Option.some_ne_none _).symm] at haliases
        rw [owners_of_key haliases, ← hn]
        cases hs : r.specs.get? n with
        | none => exact (Owners.give_free hother (by rw [owners_of_key ha, hs]; rfl)).symm
        | some old => exact (Owners.give_kept hother (by rw [owners_of_key ha, hs]; rfl) hkey).symm
      | some t =>
        obtain ⟨old, hold⟩ := h.target ha
        have howner : r.owners n = some (t, old) := by
          rw [owners_of_alias ha, hold]
          rfl
        by_cases ht : t = key
        · subst ht
          rw [ha, if_pos rfl] at haliases
          rw [owners_of_key haliases, ← hn, h.apart ha, Owners.give_lost hother howner]
          rfl
        · rw [ha, if_neg fun hc ↦ ht (Option.some.inj hc)] at haliases
          rw [owners_of_alias haliases, hspecs, if_neg (Ne.symm ht), hold, Owners.give_kept hother howner ht]
          rfl

theorem given_consistent : (r.given key spec aliasKeys replace).Consistent := by
  constructor
  · intro a t ha
    rw [h.given_aliases hallows] at ha
    rw [given_specs]
    by_cases hmem : a ∈ aliasKeys ∧ a ≠ key
    · rw [if_pos hmem] at ha
      cases ha
      exact ⟨spec, if_pos rfl⟩
    · rw [if_neg hmem] at ha
      by_cases hkey : r.aliases.get? a = some key
      · rw [if_pos hkey] at ha
        cases ha
      · rw [if_neg hkey] at ha
        obtain ⟨old, hold⟩ := h.target ha
        have hne : ¬key = t := by
          rintro rfl
          exact hkey ha
        exact ⟨old, (if_neg hne).trans hold⟩
  · intro a t ha
    rw [h.given_aliases hallows] at ha
    rw [given_specs]
    by_cases hmem : a ∈ aliasKeys ∧ a ≠ key
    · rw [if_neg (Ne.symm hmem.2)]
      cases haa : r.aliases.get? a with
      | some u => exact h.apart haa
      | none =>
        have howner := owners_of_key haa
        obtain hfree | ⟨-, old, hold⟩ := hallows a (List.mem_cons_of_mem _ hmem.1)
        · rw [hfree] at howner
          exact Option.map_eq_none_iff.mp howner.symm
        · rw [hold] at howner
          obtain ⟨s, -, hs⟩ := Option.map_eq_some_iff.mp howner.symm
          exact absurd (congrArg Prod.fst hs) hmem.2
    · rw [if_neg hmem] at ha
      by_cases hkey : r.aliases.get? a = some key
      · rw [if_pos hkey] at ha
        cases ha
      · rw [if_neg hkey] at ha
        have hne : ¬key = a := by
          rintro rfl
          rw [h.aliases_key hallows] at ha
          cases ha
        rw [if_neg hne]
        exact h.apart ha

end Consistent

/-! ### What a call and a request return -/

theorem register_eq_ok_iff (h : r.Consistent) (call : Call σ) {r' : Registry σ} :
    r.register N call.spec call.aliases call.replace = .ok r' ↔
      ∃ key aliasKeys, Owners.KeysOf N call key aliasKeys ∧ r.owners.Allows key aliasKeys call.replace ∧
        r.given key call.spec aliasKeys call.replace = r' := by
  constructor
  · intro hr
    obtain ⟨key, hkey, hr⟩ := bind_eq_ok hr
    obtain ⟨aliasKeys, haliases, hr⟩ := bind_eq_ok hr
    obtain ⟨_, hfree, hr⟩ := bind_eq_ok hr
    obtain ⟨_, hown, hr⟩ := bind_eq_ok hr
    cases hr
    exact ⟨key, aliasKeys, ⟨hkey, haliases⟩, h.allows_iff.mpr ⟨of_require hfree, of_require hown⟩, rfl⟩
  · rintro ⟨key, aliasKeys, ⟨hkey, haliases⟩, hallows, rfl⟩
    obtain ⟨hfree, hown⟩ := h.allows_iff.mp hallows
    simp only [register, bind, Except.bind, hkey, haliases, require_of hfree, require_of hown]
    rfl

theorem get_eq_ok_iff (r : Registry σ) {name : String} {spec : σ} :
    r.get N name = .ok spec ↔ ∃ key target, keyOf N name = .ok key ∧ r.owners key = some (target, spec) := by
  constructor
  · intro hr
    obtain ⟨key, hkey, hr⟩ := bind_eq_ok hr
    cases hs : r.specs.get? ((r.aliases.get? key).getD key) with
    | none =>
      rw [hs] at hr
      cases hr
    | some found =>
      rw [hs] at hr
      cases hr
      exact ⟨key, _, hkey, by rw [owners, hs]; rfl⟩
  · rintro ⟨key, target, hkey, howner⟩
    obtain ⟨found, hs, hp⟩ := Option.map_eq_some_iff.mp howner
    cases hp
    simp only [get, bind, Except.bind, hkey, hs]
    rfl

theorem Consistent.mem_names_iff (h : r.Consistent) {n : String} :
    n ∈ r.names ↔ ∃ spec, r.owners n = some (n, spec) := by
  rw [names, mem_sortedBy, Dict.mem_keys_iff]
  constructor
  · rintro ⟨spec, hspec⟩
    cases ha : r.aliases.get? n with
    | none => exact ⟨spec, by rw [owners_of_key ha, hspec]; rfl⟩
    | some t =>
      rw [h.apart ha] at hspec
      cases hspec
  · rintro ⟨spec, howner⟩
    obtain ⟨found, hs, hp⟩ := Option.map_eq_some_iff.mp howner
    have ht := congrArg Prod.fst hp
    dsimp only at ht
    rw [ht] at hs
    exact ⟨found, hs⟩

theorem names_pairwise (r : Registry σ) : r.names.Pairwise (· < ·) := by
  have hnodup : r.names.Nodup := (sortedBy_perm id r.specs.keys).nodup_iff.mpr r.specs.nodup
  exact (pairwise_sortedBy id r.specs.keys).imp₂ (fun _ _ hle hne ↦ lt_of_le_of_ne hle hne) hnodup

end Registry

/-! ### Histories of calls -/

variable (N : Naming σ)

theorem run_concat (calls : List (Call σ)) (call : Call σ) : run N (calls ++ [call]) = (run N calls).after N call := by
  rw [run, List.foldl_append]
  rfl

theorem consistent_run (calls : List (Call σ)) : (run N calls).Consistent := by
  induction calls using List.reverseRecOn with
  | nil =>
    constructor
    · intro a t ha
      cases ha
    · intro a t ha
      cases ha
  | append_singleton calls call ih =>
    rw [run_concat, Registry.after]
    cases hr : (run N calls).register N call.spec call.aliases call.replace with
    | ok r' =>
      obtain ⟨key, aliasKeys, -, hallows, rfl⟩ := (Registry.register_eq_ok_iff ih call).mp hr
      exact ih.given_consistent hallows
    | error e => exact ih

theorem register_ok_iff (calls : List (Call σ)) (call : Call σ) :
    (∃ r, (run N calls).register N call.spec call.aliases call.replace = .ok r) ↔
      (run N calls).owners.Accepts N call := by
  constructor
  · rintro ⟨r, hr⟩
    obtain ⟨key, aliasKeys, hkeys, hallows, -⟩ := (Registry.register_eq_ok_iff (consistent_run N calls) call).mp hr
    exact ⟨key, aliasKeys, hkeys, hallows⟩
  · rintro ⟨key, aliasKeys, hkeys, hallows⟩
    exact ⟨_, (Registry.register_eq_ok_iff (consistent_run N calls) call).mpr ⟨key, aliasKeys, hkeys, hallows, rfl⟩⟩

theorem history_run (calls : List (Call σ)) : Owners.History N calls (run N calls).owners := by
  induction calls using List.reverseRecOn with
  | nil => exact .start
  | append_singleton calls call ih =>
    have h := consistent_run N calls
    rw [run_concat, Registry.after]
    cases hr : (run N calls).register N call.spec call.aliases call.replace with
    | ok r' =>
      obtain ⟨key, aliasKeys, hkeys, hallows, rfl⟩ := (Registry.register_eq_ok_iff h call).mp hr
      dsimp only
      rw [h.owners_given hallows]
      exact .given ih hkeys hallows
    | error e =>
      refine .refused ih fun haccepts ↦ ?_
      obtain ⟨r, hok⟩ := (register_ok_iff N calls call).mpr haccepts
      rw [hr] at hok
      cases hok

namespace Owners

variable {N} {calls : List (Call σ)} {o : Owners σ}

/-- A history leaves what the registry holds. -/
theorem History.unique (hhistory : History N calls o) : o = (run N calls).owners := by
  induction hhistory with
  | start => rfl
  | @given calls o call key aliasKeys before hkeys hallows ih =>
    have h := consistent_run N calls
    subst ih
    have hr := (Registry.register_eq_ok_iff h call).mpr ⟨key, aliasKeys, hkeys, hallows, rfl⟩
    rw [run_concat, Registry.after, hr]
    exact (h.owners_given hallows).symm
  | @refused calls o call before hrefused ih =>
    subst ih
    rw [run_concat, Registry.after]
    cases hr : (run N calls).register N call.spec call.aliases call.replace with
    | ok r' => exact absurd ((register_ok_iff N calls call).mp ⟨r', hr⟩) hrefused
    | error e => rfl

/-- The owner of a name was registered, and has its own key. -/
theorem History.registered (hhistory : History N calls o) {n target : String} {spec : σ}
    (howner : o n = some (target, spec)) :
    keyOf N (N.name spec) = .ok target ∧ o target = some (target, spec) ∧ ∃ call ∈ calls, call.spec = spec := by
  induction hhistory generalizing n target spec with
  | start => cases howner
  | @given calls o call key aliasKeys before hkeys hallows ih =>
    by_cases hmem : n ∈ key :: aliasKeys
    · rw [give, if_pos hmem] at howner
      cases howner
      exact ⟨hkeys.1, if_pos List.mem_cons_self, call, by simp, rfl⟩
    · rw [give, if_neg hmem] at howner
      obtain ⟨hbefore, hne⟩ := Option.filter_eq_some_iff.mp howner
      have hne : target ≠ key := by simpa using hne
      obtain ⟨hkey, htarget, earlier, hin, hspec⟩ := ih hbefore
      refine ⟨hkey, ?_, earlier, List.mem_append_left _ hin, hspec⟩
      -- The names of the new task were free, or its own.
      have hother : target ∉ key :: aliasKeys := by
        intro hc
        obtain hfree | ⟨-, old, hold⟩ := hallows target hc
        · rw [hfree] at htarget
          cases htarget
        · rw [hold] at htarget
          cases htarget
          exact hne rfl
      rw [give, if_neg hother, htarget]
      exact Option.filter_some_pos (decide_eq_true hne)
  | refused before hrefused ih =>
    obtain ⟨hkey, htarget, earlier, hin, hspec⟩ := ih howner
    exact ⟨hkey, htarget, earlier, List.mem_append_left _ hin, hspec⟩

end Owners

/-- The registry after any calls, in terms of who owns which name: what `register` accepts next, what `get` finds and
what `names` lists. -/
theorem names_resolve (calls : List (Call σ)) :
    ∃ o : Owners σ, (∀ o', Owners.History N calls o' ↔ o' = o) ∧
      (∀ call, (∃ r, (run N calls).register N call.spec call.aliases call.replace = .ok r) ↔ o.Accepts N call) ∧
      (∀ name spec, (run N calls).get N name = .ok spec ↔
        ∃ key target, keyOf N name = .ok key ∧ o key = some (target, spec)) ∧
      (run N calls).names.Pairwise (· < ·) ∧ (∀ n, n ∈ (run N calls).names ↔ ∃ spec, o n = some (n, spec)) ∧
      ∀ n target spec, o n = some (target, spec) →
        keyOf N (N.name spec) = .ok target ∧ o target = some (target, spec) ∧ ∃ call ∈ calls, call.spec = spec := by
  refine ⟨(run N calls).owners, fun o' ↦ ⟨Owners.History.unique, ?_⟩, register_ok_iff N calls, ?_,
    (run N calls).names_pairwise, ?_, ?_⟩
  · rintro rfl
    exact history_run N calls
  · intro name spec
    exact Registry.get_eq_ok_iff (run N calls)
  · intro n
    exact (consistent_run N calls).mem_names_iff
  · intro n target spec howner
    exact (history_run N calls).registered howner

end SplitFleet.TaskRegistry
