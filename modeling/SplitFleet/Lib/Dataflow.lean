import Mathlib.Data.List.Nodup
import Mathlib.Logic.Function.Basic
import Mathlib.Tactic.Common

set_option autoImplicit false

namespace SplitFleet.Lib

/-- Nodes in the order in which they are computed. An operand may be missing, a given node is not computed. -/
structure Dataflow (ι : Type) where
  nodes : List ι
  operands : ι → List (Option ι)
  given : ι → Bool

/-- The functions of the nodes and the values of the given ones. -/
structure Semantics (ι V : Type) where
  fn : ι → List (Option V) → V
  input : ι → V

abbrev Env (ι V : Type) := ι → Option V

namespace Dataflow

variable {ι V : Type} [DecidableEq ι] (g : Dataflow ι) (m : Semantics ι V)

def fetch (env : Env ι V) (n : ι) : List (Option V) := (g.operands n).map (·.bind env)

def compute (env : Env ι V) (n : ι) : V := if g.given n then m.input n else m.fn n (g.fetch env n)

def run (l : List ι) (env : Env ι V) : Env ι V :=
  l.foldl (fun env n ↦ Function.update env n (some (g.compute m env n))) env

/-- The values of the whole graph. -/
def values : Env ι V := g.run m g.nodes fun _ ↦ none

/-- A step without the given values: a node that has a value keeps it, and one without all operands has none. -/
def resumeStep (env : Env ι V) (n : ι) : Env ι V :=
  if (env n).isSome ∨ g.given n ∨ ¬ (g.fetch env n).all Option.isSome then env
  else Function.update env n (some (m.fn n (g.fetch env n)))

def resume (l : List ι) (env : Env ι V) : Env ι V := l.foldl (g.resumeStep m) env

/-- The values at the nodes of `F` alone. -/
def restrict (F : ι → Bool) (env : Env ι V) : Env ι V := fun n ↦ if F n then env n else none

/-- Every operand is a node that comes earlier. -/
def Topological : Prop :=
  ∀ before n after, g.nodes = before ++ n :: after → ∀ p, some p ∈ g.operands n → p ∈ before

variable {g m}

theorem run_append (l l' : List ι) (env : Env ι V) : g.run m (l ++ l') env = g.run m l' (g.run m l env) :=
  List.foldl_append

theorem run_of_notMem {l : List ι} {env : Env ι V} {n : ι} (h : n ∉ l) : g.run m l env n = env n := by
  induction l generalizing env with
  | nil => rfl
  | cons a l ih =>
    rw [List.mem_cons, not_or] at h
    exact (ih h.2).trans (Function.update_of_ne h.1 _ _)

/-- A node has its value once its step was done. -/
theorem values_eq_of_split {before after : List ι} {n : ι} (hnd : g.nodes.Nodup)
    (h : g.nodes = before ++ n :: after) :
    g.values m n = some (g.compute m (g.run m before fun _ ↦ none) n) := by
  rw [h] at hnd
  have hafter : n ∉ after := (List.nodup_cons.mp (List.nodup_append.mp hnd).2.1).1
  rw [values, h, run_append]
  exact (run_of_notMem hafter).trans (Function.update_self ..)

theorem values_of_mem_before {before after : List ι} {n p : ι} (hnd : g.nodes.Nodup)
    (h : g.nodes = before ++ n :: after) (hp : p ∈ before) : g.run m before (fun _ ↦ none) p = g.values m p := by
  rw [h] at hnd
  have hrest : p ∉ n :: after := fun hmem ↦ (List.nodup_append.mp hnd).2.2 p hp p hmem rfl
  rw [values, h, run_append, run_of_notMem hrest]

omit [DecidableEq ι] in
theorem fetch_congr {env env' : Env ι V} {n : ι} (h : ∀ p, some p ∈ g.operands n → env p = env' p) :
    g.fetch env n = g.fetch env' n := by
  apply List.map_congr_left
  intro p hp
  cases p with
  | none => rfl
  | some p => exact h p hp

/-- The value of a node, from the values of its operands. -/
theorem values_eq (hnd : g.nodes.Nodup) (ht : g.Topological) {n : ι} (hn : n ∈ g.nodes) :
    g.values m n = some (g.compute m (g.values m) n) := by
  obtain ⟨before, after, hsplit⟩ := List.append_of_mem hn
  have hfetch : g.fetch (g.run m before fun _ ↦ none) n = g.fetch (g.values m) n :=
    fetch_congr fun p hp ↦ values_of_mem_before hnd hsplit (ht before n after hsplit p hp)
  rw [values_eq_of_split hnd hsplit, compute, hfetch, ← compute]

theorem isSome_values (hnd : g.nodes.Nodup) (ht : g.Topological) {n : ι} (hn : n ∈ g.nodes) :
    (g.values m n).isSome := by
  rw [values_eq hnd ht hn]
  rfl

/-! ### A cut through the graph -/

section Cut

variable {suffix F : ι → Bool}

/-- What the rest of the computation needs of a cut. -/
structure Supplies (g : Dataflow ι) (suffix F : ι → Bool) : Prop where
  given : ∀ n ∈ g.nodes, suffix n → g.given n → F n
  present : ∀ n ∈ g.nodes, suffix n → none ∉ g.operands n
  operand : ∀ n ∈ g.nodes, suffix n → ∀ p, some p ∈ g.operands n → suffix p ∨ F p

/-- A node whose operands have their values gets its own. -/
theorem resumeStep_restrict (hnd : g.nodes.Nodup) (ht : g.Topological) {K : ι → Bool} {n : ι} (hn : n ∈ g.nodes)
    (hgiven : g.given n → K n) (hpresent : none ∉ g.operands n) (hoperand : ∀ p, some p ∈ g.operands n → K p) :
    g.resumeStep m (restrict K (g.values m)) n = restrict (fun p ↦ K p || p = n) (g.values m) := by
  have hfetch : g.fetch (restrict K (g.values m)) n = g.fetch (g.values m) n :=
    fetch_congr fun p hp ↦ if_pos (hoperand p hp)
  have hall : (g.fetch (g.values m) n).all Option.isSome = true := by
    obtain ⟨before, after, hsplit⟩ := List.append_of_mem hn
    rw [List.all_eq_true]
    intro v hv
    obtain ⟨p, hp, rfl⟩ := List.mem_map.mp hv
    cases p with
    | none => exact absurd hp hpresent
    | some p => exact isSome_values hnd ht (hsplit ▸ List.mem_append_left _ (ht before n after hsplit p hp))
  have hself : (g.values m n).isSome := isSome_values hnd ht hn
  rw [resumeStep, hfetch]
  cases hK : K n with
  | true =>
    rw [if_pos (.inl (by rw [restrict, if_pos hK]; exact hself))]
    funext p
    by_cases hp : p = n
    · simp [restrict, hp, hK]
    · simp [restrict, hp]
  | false =>
    have hnot : ¬ g.given n := fun h ↦ by simp [hgiven h] at hK
    rw [if_neg (by simp [restrict, hK, hnot, hall])]
    funext p
    by_cases hp : p = n
    · rw [hp, Function.update_self, restrict, if_pos (by simp), values_eq hnd ht hn, compute, if_neg hnot]
    · rw [Function.update_of_ne hp, restrict, restrict]
      simp [hp]

/-- From the values at the cut the rest of the computation has the values of the whole. -/
theorem resume_eq (hnd : g.nodes.Nodup) (ht : g.Topological) (hs : Supplies g suffix F) :
    g.resume m (g.nodes.filter suffix) (restrict F (g.values m)) =
      restrict (fun p ↦ F p || suffix p && decide (p ∈ g.nodes)) (g.values m) := by
  have hpart : ∀ after before, g.nodes = before ++ after →
      g.resume m (after.filter suffix) (restrict (fun p ↦ F p || suffix p && decide (p ∈ before)) (g.values m)) =
        restrict (fun p ↦ F p || suffix p && decide (p ∈ g.nodes)) (g.values m) := by
    intro after
    induction after with
    | nil =>
      intro before hsplit
      rw [hsplit, List.append_nil]
      rfl
    | cons n after ih =>
      intro before hsplit
      have hn : n ∈ g.nodes := hsplit ▸ List.mem_append_right _ List.mem_cons_self
      have hih := ih (before ++ [n]) (by rw [hsplit, List.append_assoc, List.singleton_append])
      cases hsuffix : suffix n with
      | false =>
        have hsame : (fun p ↦ F p || suffix p && decide (p ∈ before)) =
            fun p ↦ F p || suffix p && decide (p ∈ before ++ [n]) := by
          funext p
          by_cases hp : p = n
          · simp [hp, hsuffix]
          · simp [hp]
        rw [List.filter_cons_of_neg (by simp [hsuffix]), hsame]
        exact hih
      | true =>
        have hstep := resumeStep_restrict (m := m) hnd ht (K := fun p ↦ F p || suffix p && decide (p ∈ before)) hn
          (fun hgiven ↦ by simp [hs.given n hn hsuffix hgiven]) (hs.present n hn hsuffix)
          (fun p hp ↦ by
            have hbefore := ht before n after hsplit p hp
            obtain h | h := hs.operand n hn hsuffix p hp
            · simp [h, hbefore]
            · simp [h])
        have hsame : (fun p ↦ F p || suffix p && decide (p ∈ before) || decide (p = n)) =
            fun p ↦ F p || suffix p && decide (p ∈ before ++ [n]) := by
          funext p
          by_cases hp : p = n
          · simp [hp, hsuffix]
          · simp [hp]
        rw [List.filter_cons_of_pos hsuffix]
        change g.resume m (after.filter suffix) (g.resumeStep m _ n) = _
        rw [hstep, hsame]
        exact hih
  have h := hpart g.nodes [] rfl
  simpa using h

theorem resume_congr {m' : Semantics ι V} {l : List ι} (h : ∀ n ∈ l, m.fn n = m'.fn n) (env : Env ι V) :
    g.resume m l env = g.resume m' l env := by
  induction l generalizing env with
  | nil => rfl
  | cons n l ih =>
    have hn : g.resumeStep m env n = g.resumeStep m' env n := by rw [resumeStep, resumeStep, h n List.mem_cons_self]
    change g.resume m l (g.resumeStep m env n) = g.resume m' l (g.resumeStep m' env n)
    rw [hn]
    exact ih (fun p hp ↦ h p (List.mem_cons_of_mem n hp)) _

/-- From the nodes of `F` the rest of the computation has the values of the whole, whatever the nodes compute. -/
def Reproduces (g : Dataflow ι) (suffix F : ι → Bool) : Prop :=
  ∀ (V : Type) (m : Semantics ι V), ∀ n ∈ g.nodes, suffix n →
    g.resume m (g.nodes.filter suffix) (restrict F (g.values m)) n = g.values m n

theorem reproduces (hnd : g.nodes.Nodup) (ht : g.Topological) (hs : Supplies g suffix F) : Reproduces g suffix F := by
  intro V m n hn hsuffix
  rw [resume_eq hnd ht hs, restrict, if_pos (by simp [hsuffix, hn])]

/-- The node `x` carries the mark `b`, and `n` tells whether one of its operands does. -/
def marking (x n : ι) (b : Bool) : Semantics ι Bool where
  fn p ops := if p = n then ops.any (· = some true) else decide (p = x) && b
  input p := decide (p = x) && b

theorem fn_marking_of_ne {x n p : ι} (h : p ≠ n) (b : Bool) (ops : List (Option Bool)) :
    (marking x n b).fn p ops = (decide (p = x) && b) := if_neg h

theorem fn_marking_self (x n : ι) (b : Bool) (ops : List (Option Bool)) :
    (marking x n b).fn n ops = ops.any (fun v ↦ decide (v = some true)) := if_pos rfl

theorem values_marking {x n : ι} (hnd : g.nodes.Nodup) (ht : g.Topological) {p : ι} (hp : p ∈ g.nodes) (hpn : p ≠ n)
    (b : Bool) : g.values (marking x n b) p = some (decide (p = x) && b) := by
  rw [values_eq hnd ht hp, compute, fn_marking_of_ne hpn]
  exact congrArg some (ite_self _)

theorem values_marking_self {x n : ι} (hnd : g.nodes.Nodup) (ht : g.Topological) (hn : n ∈ g.nodes)
    (hgiven : g.given n = false) (hx : some x ∈ g.operands n) (b : Bool) : g.values (marking x n b) n = some b := by
  obtain ⟨before, after, hsplit⟩ := List.append_of_mem hn
  have hearlier : ∀ p, some p ∈ g.operands n → p ∈ g.nodes ∧ p ≠ n := by
    intro p hp
    have hbefore := ht before n after hsplit p hp
    refine ⟨hsplit ▸ List.mem_append_left _ hbefore, ?_⟩
    rintro rfl
    rw [hsplit] at hnd
    exact (List.nodup_append.mp hnd).2.2 p hbefore p List.mem_cons_self rfl
  have hany : (g.fetch (g.values (marking x n b)) n).any (fun v ↦ decide (v = some true)) = b := by
    rw [Bool.eq_iff_iff, List.any_eq_true]
    constructor
    · rintro ⟨v, hv, htrue⟩
      obtain ⟨p, hp, rfl⟩ := List.mem_map.mp hv
      cases p with
      | none => cases htrue
      | some p =>
        obtain ⟨hmem, hne⟩ := hearlier p hp
        have hvalue : g.values (marking x n b) p = some true := of_decide_eq_true htrue
        rw [values_marking hnd ht hmem hne, Option.some_inj, Bool.and_eq_true] at hvalue
        exact hvalue.2
    · rintro rfl
      obtain ⟨hmem, hne⟩ := hearlier x hx
      refine ⟨some true, List.mem_map.mpr ⟨some x, hx, ?_⟩, rfl⟩
      change g.values (marking x n true) x = some true
      rw [values_marking hnd ht hmem hne, decide_eq_true rfl, Bool.true_and]
  rw [values_eq hnd ht hn, compute, hgiven, if_neg Bool.false_ne_true, fn_marking_self, hany]

/-- Without an operand of the rest of the computation the nodes of `F` do not do: two computations with the same
values there differ. -/
theorem not_reproduces {x n : ι} (hnd : g.nodes.Nodup) (ht : g.Topological) (hn : n ∈ g.nodes) (hsuffix : suffix n)
    (hgiven : g.given n = false) (hx : some x ∈ g.operands n) (hxs : ¬ suffix x) (hxF : ¬ F x)
    (hF : ∀ p, F p → p ∈ g.nodes ∧ ¬ suffix p) : ¬ Reproduces g suffix F := by
  intro h
  have hsame : restrict F (g.values (marking x n true)) = restrict F (g.values (marking x n false)) := by
    funext p
    by_cases hp : F p
    · obtain ⟨hmem, hps⟩ := hF p hp
      have hpn : p ≠ n := fun he ↦ hps (he ▸ hsuffix)
      have hpx : p ≠ x := fun he ↦ hxF (he ▸ hp)
      rw [restrict, restrict, if_pos hp, if_pos hp, values_marking hnd ht hmem hpn, values_marking hnd ht hmem hpn,
        decide_eq_false hpx, Bool.false_and, Bool.false_and]
    · rw [restrict, restrict, if_neg hp, if_neg hp]
  have hfn : ∀ p ∈ g.nodes.filter suffix, (marking x n true).fn p = (marking x n false).fn p := by
    intro p hp
    have hps := (List.mem_filter.mp hp).2
    have hpx : p ≠ x := fun he ↦ hxs (he ▸ hps)
    funext ops
    by_cases hpn : p = n
    · rw [hpn, fn_marking_self, fn_marking_self]
    · rw [fn_marking_of_ne hpn, fn_marking_of_ne hpn, decide_eq_false hpx, Bool.false_and, Bool.false_and]
  have htrue := h Bool (marking x n true) n hn hsuffix
  have hfalse := h Bool (marking x n false) n hn hsuffix
  rw [resume_congr hfn, hsame, hfalse, values_marking_self hnd ht hn hgiven hx,
    values_marking_self hnd ht hn hgiven hx] at htrue
  cases htrue

end Cut

end Dataflow

end SplitFleet.Lib
