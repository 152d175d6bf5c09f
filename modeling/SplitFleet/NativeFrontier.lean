import SplitFleet.Lib.Dataflow
import SplitFleet.Lib.Lists
import SplitFleet.Lib.Sorting

set_option autoImplicit false

namespace SplitFleet.Frontier

open Lib

/-- An operand as the native capture names it. -/
structure TargetInput where
  producerLabelRaw : Option String
  sourceLabelRaw : Option String
  deriving DecidableEq

structure Node where
  canonicalId : String
  parents : List String
  targetInputs : List TargetInput
  isInput : Bool
  isOutput : Bool
  isBuffer : Bool
  isBufferOnlySource : Bool
  deriving DecidableEq

/-- A trace graph: a label stands for one of its nodes or for none, and the output ids are those of its outputs. -/
structure TraceGraph where
  nodes : List Node
  nodeForLabel : String → Option Node
  inputNodeIds : List String
  outputNodeIds : List String
  mem_of_nodeForLabel : ∀ label node, nodeForLabel label = some node → node ∈ nodes
  mem_outputNodeIds : ∀ id, id ∈ outputNodeIds ↔ ∃ node ∈ nodes, node.isOutput ∧ node.canonicalId = id

namespace TraceGraph

def ids (g : TraceGraph) : List String := g.nodes.map (·.canonicalId)

def orderById (g : TraceGraph) (id : String) : ℕ := g.ids.idxOf id

end TraceGraph

def requestError (message : String) : PyError := .raised "SplitRequestError" message

/-- `getattr(item, "producer_label_raw", None) or getattr(item, "source_label_raw", None)` -/
def TargetInput.label (item : TargetInput) : Option String :=
  match item.producerLabelRaw with
  | some label => if label = "" then item.sourceLabelRaw else some label
  | none => item.sourceLabelRaw

def resolveOperand (g : TraceGraph) (label : String) : Except PyError Node :=
  match g.nodeForLabel label with
  | some parent => .ok parent
  | none => .error (requestError s!"Unresolved native suffix operand {pyRepr label}")

/-- The graph has an edge for an operand of the native node. -/
def checkTarget (g : TraceGraph) (node : Node) (parents : List Node) (item : TargetInput) : Except PyError Unit :=
  match item.label with
  | none => .ok ()
  | some label =>
    require (∃ parent ∈ g.nodeForLabel label, parent.canonicalId ∈ parents.map (·.canonicalId))
      (requestError s!"Native TF operand is absent from graph edges at {pyRepr node.canonicalId}: {pyRepr label}")

section Frontier

variable (g : TraceGraph) (prefixNodeIds suffixNodeIds : List String)

/-- One turn of the loop. -/
def visit (required : List String) (node : Node) : Except PyError (List String) := do
  let required :=
    if node.isOutput ∧ node.canonicalId ∈ prefixNodeIds then required.insert node.canonicalId else required
  if node.canonicalId ∉ suffixNodeIds then return required
  else do
    let parents ← node.parents.mapM (resolveOperand g)
    node.targetInputs.forM (checkTarget g node parents)
    return ((parents.map (·.canonicalId)).filter (· ∈ prefixNodeIds)).foldl (fun l id ↦ l.insert id) required

/-- The last node that computes something, for a graph without outputs. -/
def terminal? : Option Node :=
  (g.nodes.filter fun node ↦ node.canonicalId ∈ prefixNodeIds ∧
    ¬(node.isInput ∨ node.isBuffer ∨ node.isBufferOnlySource)).getLast?

def withTerminal (required : List String) : List String :=
  if required = [] ∧ suffixNodeIds = [] ∧ g.outputNodeIds = [] then
    match terminal? g prefixNodeIds with
    | some node => required.insert node.canonicalId
    | none => required
  else required

/-- The nodes are told apart by their ids, and both sets together are those ids, without one in common. -/
def Partitions : Prop :=
  g.ids.Nodup ∧ (∀ id ∈ prefixNodeIds, id ∉ suffixNodeIds) ∧ ∀ id, id ∈ prefixNodeIds ∨ id ∈ suffixNodeIds ↔ id ∈ g.ids

instance : Decidable (Partitions g prefixNodeIds suffixNodeIds) :=
  decidable_of_iff (g.ids.Nodup ∧ (∀ id ∈ prefixNodeIds, id ∉ suffixNodeIds) ∧
    (∀ id ∈ prefixNodeIds ++ suffixNodeIds, id ∈ g.ids) ∧ ∀ id ∈ g.ids, id ∈ prefixNodeIds ++ suffixNodeIds) (by
    simp only [Partitions, List.mem_append]
    constructor
    · rintro ⟨hnd, hdisjoint, hsub, hsup⟩
      exact ⟨hnd, hdisjoint, fun id ↦ ⟨hsub id, hsup id⟩⟩
    · rintro ⟨hnd, hdisjoint, hboth⟩
      exact ⟨hnd, hdisjoint, fun id ↦ (hboth id).mp, fun id ↦ (hboth id).mpr⟩)

def minimalFrontierNodeIds : Except PyError (List String) := do
  require (Partitions g prefixNodeIds suffixNodeIds)
    (requestError "Frontier requires a unique, complete native graph partition")
  let required ← g.nodes.foldlM (visit g prefixNodeIds suffixNodeIds) []
  let required := (g.inputNodeIds.filter (· ∈ suffixNodeIds)).foldl (fun l id ↦ l.insert id) required
  return sortedBy g.orderById (withTerminal g prefixNodeIds suffixNodeIds required)

end Frontier

/-! ### What is required -/

/-- Every operand of the node resolves, and every operand of the native node is one of its edges. -/
def Resolved (g : TraceGraph) (node : Node) : Prop :=
  (∀ label ∈ node.parents, ∃ parent, g.nodeForLabel label = some parent) ∧
    ∀ item ∈ node.targetInputs, ∀ label ∈ item.label, ∃ parent ∈ g.nodeForLabel label, ∃ edge ∈ node.parents,
      ∃ p ∈ g.nodeForLabel edge, p.canonicalId = parent.canonicalId

/-- A node of the prefix that is an output. -/
def PrefixOutput (g : TraceGraph) (prefixNodeIds : List String) (id : String) : Prop :=
  id ∈ prefixNodeIds ∧ ∃ node ∈ g.nodes, node.isOutput ∧ node.canonicalId = id

/-- A node of the prefix that is an operand of one in the suffix. -/
def SuffixOperand (g : TraceGraph) (prefixNodeIds suffixNodeIds : List String) (id : String) : Prop :=
  id ∈ prefixNodeIds ∧ ∃ node ∈ g.nodes, node.canonicalId ∈ suffixNodeIds ∧
    ∃ label ∈ node.parents, ∃ parent ∈ g.nodeForLabel label, parent.canonicalId = id

/-- What a node adds to the required ids. -/
def Adds (g : TraceGraph) (prefixNodeIds suffixNodeIds : List String) (node : Node) (id : String) : Prop :=
  (node.isOutput ∧ node.canonicalId ∈ prefixNodeIds ∧ node.canonicalId = id) ∨
    node.canonicalId ∈ suffixNodeIds ∧ id ∈ prefixNodeIds ∧
      ∃ label ∈ node.parents, ∃ p ∈ g.nodeForLabel label, p.canonicalId = id

theorem mem_foldl_insert {ids required : List String} {x : String} :
    x ∈ ids.foldl (fun l id ↦ l.insert id) required ↔ x ∈ required ∨ x ∈ ids := by
  induction ids generalizing required with
  | nil => simp
  | cons id ids ih =>
    rw [List.foldl_cons, ih, List.mem_insert_iff, List.mem_cons]
    tauto

theorem nodup_foldl_insert {ids required : List String} (h : required.Nodup) :
    (ids.foldl (fun l id ↦ l.insert id) required).Nodup := by
  induction ids generalizing required with
  | nil => exact h
  | cons id ids ih => exact ih h.insert

theorem resolveOperand_eq_ok {g : TraceGraph} {label : String} {parent : Node} :
    resolveOperand g label = .ok parent ↔ g.nodeForLabel label = some parent := by
  rw [resolveOperand]
  cases g.nodeForLabel label with
  | none => simp
  | some p => simp

section Visit

variable {g : TraceGraph} {prefixNodeIds suffixNodeIds required r : List String} {node : Node}

/-- The operands of a node of the suffix. -/
theorem mapM_resolve {parents : List Node} (h : node.parents.mapM (resolveOperand g) = .ok parents) {x : String} :
    x ∈ parents.map (·.canonicalId) ↔ ∃ label ∈ node.parents, ∃ p ∈ g.nodeForLabel label, p.canonicalId = x := by
  constructor
  · intro hx
    obtain ⟨p, hp, rfl⟩ := List.mem_map.mp hx
    obtain ⟨label, hlabel, hresolve⟩ := (mem_mapM_ok_iff h).mp hp
    exact ⟨label, hlabel, p, resolveOperand_eq_ok.mp hresolve, rfl⟩
  · rintro ⟨label, hlabel, p, hp, rfl⟩
    exact List.mem_map.mpr ⟨p, (mem_mapM_ok_iff h).mpr ⟨label, hlabel, resolveOperand_eq_ok.mpr hp⟩, rfl⟩

theorem checkTarget_eq_ok {parents : List Node} {item : TargetInput} :
    checkTarget g node parents item = .ok () ↔ ∀ label ∈ item.label, ∃ parent ∈ g.nodeForLabel label,
      parent.canonicalId ∈ parents.map (·.canonicalId) := by
  rw [checkTarget]
  cases item.label with
  | none => simp
  | some label =>
    dsimp only
    constructor
    · rintro h label' hlabel
      obtain rfl := Option.mem_some_iff.mp hlabel
      exact of_require h
    · intro h
      exact require_of (h label rfl) _

/-- The result of one turn, where it has one. -/
def visited (prefixNodeIds suffixNodeIds required : List String) (node : Node)
    (parents : List Node) : List String :=
  let required :=
    if node.isOutput ∧ node.canonicalId ∈ prefixNodeIds then required.insert node.canonicalId else required
  if node.canonicalId ∉ suffixNodeIds then required
  else ((parents.map (·.canonicalId)).filter (· ∈ prefixNodeIds)).foldl (fun l id ↦ l.insert id) required

theorem visit_eq_ok : visit g prefixNodeIds suffixNodeIds required node = .ok r ↔
    node.canonicalId ∉ suffixNodeIds ∧ r = visited prefixNodeIds suffixNodeIds required node [] ∨
    node.canonicalId ∈ suffixNodeIds ∧ ∃ parents, node.parents.mapM (resolveOperand g) = .ok parents ∧
      (∀ item ∈ node.targetInputs, checkTarget g node parents item = .ok ()) ∧
      r = visited prefixNodeIds suffixNodeIds required node parents := by
  rw [visit]
  by_cases hs : node.canonicalId ∈ suffixNodeIds
  · simp only [visited, hs, not_true_eq_false, if_false, false_and, false_or, true_and]
    constructor
    · intro h
      obtain ⟨parents, hparents, h⟩ := bind_eq_ok h
      obtain ⟨_, htargets, h⟩ := bind_eq_ok h
      cases h
      exact ⟨parents, hparents, forM_eq_ok_iff.mp htargets, rfl⟩
    · rintro ⟨parents, hparents, htargets, rfl⟩
      rw [hparents, ok_bind, forM_eq_ok_iff.mpr htargets]
      rfl
  · simp only [visited, hs, not_false_eq_true, if_true, true_and, false_and, or_false]
    constructor
    · intro h
      cases h
      rfl
    · rintro rfl
      rfl

theorem exists_visit_iff (required : List String) :
    (∃ r, visit g prefixNodeIds suffixNodeIds required node = .ok r) ↔
      (node.canonicalId ∈ suffixNodeIds → Resolved g node) := by
  simp only [visit_eq_ok]
  constructor
  · rintro ⟨r, ⟨hs, -⟩ | ⟨-, parents, hparents, htargets, -⟩⟩ hs'
    · exact absurd hs' hs
    · constructor
      · intro label hlabel
        obtain ⟨p, hp⟩ := exists_mapM_ok_iff.mp ⟨parents, hparents⟩ label hlabel
        exact ⟨p, resolveOperand_eq_ok.mp hp⟩
      · intro item hitem label hlabel
        obtain ⟨parent, hparent, hmem⟩ := checkTarget_eq_ok.mp (htargets item hitem) label hlabel
        exact ⟨parent, hparent, (mapM_resolve hparents).mp hmem⟩
  · intro h
    by_cases hs : node.canonicalId ∈ suffixNodeIds
    · obtain ⟨hlabels, htargets⟩ := h hs
      have hresolve : ∀ label ∈ node.parents, ∃ p, resolveOperand g label = .ok p :=
        fun label hlabel ↦ (hlabels label hlabel).imp fun _ ↦ resolveOperand_eq_ok.mpr
      obtain ⟨parents, hparents⟩ := exists_mapM_ok_iff.mpr hresolve
      refine ⟨_, .inr ⟨hs, parents, hparents, fun item hitem ↦ checkTarget_eq_ok.mpr fun label hlabel ↦ ?_, rfl⟩⟩
      obtain ⟨parent, hparent, hedge⟩ := htargets item hitem label hlabel
      exact ⟨parent, hparent, (mapM_resolve hparents).mpr hedge⟩
    · exact ⟨_, .inl ⟨hs, rfl⟩⟩

theorem mem_output {x : String} :
    x ∈ (if node.isOutput ∧ node.canonicalId ∈ prefixNodeIds then required.insert node.canonicalId else required) ↔
      x ∈ required ∨ node.isOutput ∧ node.canonicalId ∈ prefixNodeIds ∧ node.canonicalId = x := by
  split_ifs with h
  · rw [List.mem_insert_iff]
    tauto
  · tauto

theorem mem_visit (h : visit g prefixNodeIds suffixNodeIds required node = .ok r) {x : String} :
    x ∈ r ↔ x ∈ required ∨ Adds g prefixNodeIds suffixNodeIds node x := by
  rw [Adds]
  obtain ⟨hs, rfl⟩ | ⟨hs, parents, hparents, -, rfl⟩ := visit_eq_ok.mp h
  · simp only [visited, hs, not_false_eq_true, if_true, false_and, or_false]
    exact mem_output
  · simp only [visited, hs, not_true_eq_false, if_false, true_and]
    rw [mem_foldl_insert, mem_output, List.mem_filter, mapM_resolve hparents, decide_eq_true_eq, or_assoc,
      and_comm (b := x ∈ prefixNodeIds)]

theorem nodup_visit (h : visit g prefixNodeIds suffixNodeIds required node = .ok r) (hn : required.Nodup) :
    r.Nodup := by
  have houtput : (if node.isOutput ∧ node.canonicalId ∈ prefixNodeIds then required.insert node.canonicalId
      else required).Nodup := by
    split_ifs
    · exact hn.insert
    · exact hn
  obtain ⟨hs, rfl⟩ | ⟨hs, parents, hparents, -, rfl⟩ := visit_eq_ok.mp h
  · rw [visited, if_pos hs]
    exact houtput
  · rw [visited, if_neg (not_not.mpr hs)]
    exact nodup_foldl_insert houtput

theorem exists_foldlM_visit_iff (required : List String) {nodes : List Node} :
    (∃ r, nodes.foldlM (visit g prefixNodeIds suffixNodeIds) required = .ok r) ↔
      ∀ node ∈ nodes, node.canonicalId ∈ suffixNodeIds → Resolved g node := by
  induction nodes generalizing required with
  | nil => exact ⟨fun _ _ h ↦ absurd h List.not_mem_nil, fun _ ↦ ⟨required, rfl⟩⟩
  | cons node nodes ih =>
    rw [List.forall_mem_cons, List.foldlM_cons]
    constructor
    · rintro ⟨r, h⟩
      obtain ⟨u, hu, h⟩ := bind_eq_ok h
      exact ⟨(exists_visit_iff required).mp ⟨u, hu⟩, (ih u).mp ⟨r, h⟩⟩
    · rintro ⟨hnode, hnodes⟩
      obtain ⟨u, hu⟩ := (exists_visit_iff required).mpr hnode
      obtain ⟨r, hr⟩ := (ih u).mpr hnodes
      exact ⟨r, by rw [hu, ok_bind, hr]⟩

theorem mem_foldlM_visit {nodes : List Node} (h : nodes.foldlM (visit g prefixNodeIds suffixNodeIds) required = .ok r)
    {x : String} : x ∈ r ↔ x ∈ required ∨ ∃ node ∈ nodes, Adds g prefixNodeIds suffixNodeIds node x := by
  induction nodes generalizing required with
  | nil =>
    cases h
    simp
  | cons node nodes ih =>
    rw [List.foldlM_cons] at h
    obtain ⟨u, hu, h⟩ := bind_eq_ok h
    rw [ih h, mem_visit hu, List.exists_mem_cons_iff, or_assoc]

theorem nodup_foldlM_visit {nodes : List Node} (h : nodes.foldlM (visit g prefixNodeIds suffixNodeIds) required = .ok r)
    (hn : required.Nodup) : r.Nodup := by
  induction nodes generalizing required with
  | nil =>
    cases h
    exact hn
  | cons node nodes ih =>
    rw [List.foldlM_cons] at h
    obtain ⟨u, hu, h⟩ := bind_eq_ok h
    exact ih h (nodup_visit hu hn)

end Visit

/-! ### The frontier -/

section Result

variable {g : TraceGraph} {prefixNodeIds suffixNodeIds F : List String}

/-- When the nodes of the suffix are all resolved. -/
def Sound (g : TraceGraph) (suffixNodeIds : List String) : Prop :=
  ∀ node ∈ g.nodes, node.canonicalId ∈ suffixNodeIds → Resolved g node

theorem exists_frontier_iff : (∃ F, minimalFrontierNodeIds g prefixNodeIds suffixNodeIds = .ok F) ↔
    Partitions g prefixNodeIds suffixNodeIds ∧ Sound g suffixNodeIds := by
  rw [minimalFrontierNodeIds, Sound, ← exists_foldlM_visit_iff []]
  constructor
  · rintro ⟨F, h⟩
    obtain ⟨_, hp, h⟩ := bind_eq_ok h
    obtain ⟨r, hr, -⟩ := bind_eq_ok h
    exact ⟨of_require hp, r, hr⟩
  · rintro ⟨hp, r, hr⟩
    exact ⟨_, by rw [require_of hp, ok_bind, hr, ok_bind]; rfl⟩

theorem frontier_partitions (h : minimalFrontierNodeIds g prefixNodeIds suffixNodeIds = .ok F) :
    Partitions g prefixNodeIds suffixNodeIds := (exists_frontier_iff.mp ⟨F, h⟩).1

theorem mem_withTerminal {required : List String} {x : String} :
    x ∈ withTerminal g prefixNodeIds suffixNodeIds required ↔ x ∈ required ∨
      (required = [] ∧ suffixNodeIds = [] ∧ g.outputNodeIds = []) ∧
        ∃ node ∈ terminal? g prefixNodeIds, node.canonicalId = x := by
  rw [withTerminal]
  split_ifs with hnone
  · cases terminal? g prefixNodeIds with
    | none => simp
    | some node =>
      rw [List.mem_insert_iff]
      simp [hnone, eq_comm, or_comm]
  · simp [hnone]

theorem terminal_mem {node : Node} (h : node ∈ terminal? g prefixNodeIds) :
    node ∈ g.nodes ∧ node.canonicalId ∈ prefixNodeIds := by
  have hmem := List.mem_of_getLast? h
  rw [List.mem_filter, decide_eq_true_eq] at hmem
  exact ⟨hmem.1, hmem.2.1⟩

theorem exists_adds_iff {x : String} : (∃ node ∈ g.nodes, Adds g prefixNodeIds suffixNodeIds node x) ↔
    PrefixOutput g prefixNodeIds x ∨ SuffixOperand g prefixNodeIds suffixNodeIds x := by
  constructor
  · rintro ⟨node, hnode, ⟨houtput, hpre, rfl⟩ | ⟨hsuffix, hpre, hoperand⟩⟩
    · exact .inl ⟨hpre, node, hnode, houtput, rfl⟩
    · exact .inr ⟨hpre, node, hnode, hsuffix, hoperand⟩
  · rintro (⟨hpre, node, hnode, houtput, rfl⟩ | ⟨hpre, node, hnode, hsuffix, hoperand⟩)
    · exact ⟨node, hnode, .inl ⟨houtput, hpre, rfl⟩⟩
    · exact ⟨node, hnode, .inr ⟨hsuffix, hpre, hoperand⟩⟩

/-- An id that is required of its own, not as the last node of a graph without outputs. -/
def Required (g : TraceGraph) (prefixNodeIds suffixNodeIds : List String) (id : String) : Prop :=
  PrefixOutput g prefixNodeIds id ∨ SuffixOperand g prefixNodeIds suffixNodeIds id ∨
    id ∈ g.inputNodeIds ∧ id ∈ suffixNodeIds

theorem not_required {x : String} (hs : suffixNodeIds = []) (ho : g.outputNodeIds = []) :
    ¬ Required g prefixNodeIds suffixNodeIds x := by
  subst hs
  rintro (⟨-, node, hnode, houtput, rfl⟩ | ⟨-, node, -, hsuffix, -⟩ | ⟨-, hsuffix⟩)
  · have hmem := (g.mem_outputNodeIds node.canonicalId).mpr ⟨node, hnode, houtput, rfl⟩
    rw [ho] at hmem
    cases hmem
  · cases hsuffix
  · cases hsuffix

/-- The frontier before it is sorted. -/
theorem frontier_eq (h : minimalFrontierNodeIds g prefixNodeIds suffixNodeIds = .ok F) :
    ∃ required : List String, required.Nodup ∧ (∀ x, x ∈ required ↔ Required g prefixNodeIds suffixNodeIds x) ∧
      F = sortedBy g.orderById (withTerminal g prefixNodeIds suffixNodeIds required) := by
  obtain ⟨_, -, h⟩ := bind_eq_ok h
  obtain ⟨r, hr, h⟩ := bind_eq_ok h
  cases h
  refine ⟨_, nodup_foldl_insert (nodup_foldlM_visit hr List.nodup_nil), fun x ↦ ?_, rfl⟩
  rw [mem_foldl_insert, mem_foldlM_visit hr, exists_adds_iff, List.mem_filter, decide_eq_true_eq, Required]
  simp [or_assoc]

theorem mem_frontier (h : minimalFrontierNodeIds g prefixNodeIds suffixNodeIds = .ok F) {x : String} :
    x ∈ F ↔ Required g prefixNodeIds suffixNodeIds x ∨
      (suffixNodeIds = [] ∧ g.outputNodeIds = []) ∧ ∃ node ∈ terminal? g prefixNodeIds, node.canonicalId = x := by
  obtain ⟨required, -, hmem, rfl⟩ := frontier_eq h
  have hempty : suffixNodeIds = [] ∧ g.outputNodeIds = [] → required = [] := by
    rintro ⟨hs, ho⟩
    exact List.eq_nil_iff_forall_not_mem.mpr fun x hx ↦ not_required hs ho ((hmem x).mp hx)
  rw [mem_sortedBy, mem_withTerminal, hmem]
  tauto

theorem nodup_withTerminal {required : List String} (h : required.Nodup) :
    (withTerminal g prefixNodeIds suffixNodeIds required).Nodup := by
  rw [withTerminal]
  split_ifs
  · cases terminal? g prefixNodeIds with
    | none => exact h
    | some node => exact h.insert
  · exact h

theorem frontier_subset (h : minimalFrontierNodeIds g prefixNodeIds suffixNodeIds = .ok F) {x : String} (hx : x ∈ F) :
    x ∈ g.ids := by
  obtain ⟨-, -, hids⟩ := frontier_partitions h
  obtain (⟨hpre, -⟩ | ⟨hpre, -⟩ | ⟨-, hsuffix⟩) | ⟨-, node, hnode, rfl⟩ := (mem_frontier h).mp hx
  · exact (hids x).mp (.inl hpre)
  · exact (hids x).mp (.inl hpre)
  · exact (hids x).mp (.inr hsuffix)
  · exact List.mem_map_of_mem (terminal_mem hnode).1

/-- Every id once, in the order of the graph. -/
theorem pairwise_frontier (h : minimalFrontierNodeIds g prefixNodeIds suffixNodeIds = .ok F) :
    F.Pairwise fun a b ↦ g.orderById a < g.orderById b := by
  have hsub : ∀ x ∈ F, x ∈ g.ids := fun x hx ↦ frontier_subset h hx
  obtain ⟨required, hnd, -, rfl⟩ := frontier_eq h
  have hle := pairwise_sortedBy g.orderById (withTerminal g prefixNodeIds suffixNodeIds required)
  have hne : (sortedBy g.orderById (withTerminal g prefixNodeIds suffixNodeIds required)).Nodup :=
    (sortedBy_perm _ _).nodup_iff.mpr (nodup_withTerminal hnd)
  refine (List.pairwise_and_iff.mpr ⟨hle, hne⟩).imp_of_mem ?_
  rintro a b ha hb ⟨hab, hne⟩
  exact lt_of_le_of_ne hab fun heq ↦ hne ((List.idxOf_inj (hsub a ha)).mp heq)

end Result

/-! ### The computation across the cut -/

/-- The computation that the graph describes: an input node has a given value. -/
def TraceGraph.dataflow (g : TraceGraph) : Dataflow String where
  nodes := g.ids
  operands id := (g.nodes.find? (·.canonicalId = id)).elim [] fun node ↦
    node.parents.map fun label ↦ (g.nodeForLabel label).map (·.canonicalId)
  given id := decide (id ∈ g.inputNodeIds)

/-- Every value that the suffix computes from the ids of `F` is the one of the whole graph, and every output is in the
suffix or among these ids. -/
def Sufficient (g : TraceGraph) (suffixNodeIds F : List String) : Prop :=
  Dataflow.Reproduces g.dataflow (fun id ↦ decide (id ∈ suffixNodeIds)) (fun id ↦ decide (id ∈ F)) ∧
    ∀ id ∈ g.outputNodeIds, id ∈ suffixNodeIds ∨ id ∈ F

section Cut

variable {g : TraceGraph} {prefixNodeIds suffixNodeIds F : List String}

theorem operands_eq (hnd : g.ids.Nodup) {node : Node} (hnode : node ∈ g.nodes) :
    g.dataflow.operands node.canonicalId =
      node.parents.map fun label ↦ (g.nodeForLabel label).map (·.canonicalId) := by
  rw [TraceGraph.dataflow]
  dsimp only
  rw [find?_key hnd hnode, Option.elim_some]

theorem some_mem_operands (hnd : g.ids.Nodup) {node : Node} (hnode : node ∈ g.nodes) {id : String} :
    some id ∈ g.dataflow.operands node.canonicalId ↔
      ∃ label ∈ node.parents, ∃ p ∈ g.nodeForLabel label, p.canonicalId = id := by
  rw [operands_eq hnd hnode, List.mem_map]
  simp only [Option.map_eq_some_iff, Option.mem_def]

theorem supplies (h : minimalFrontierNodeIds g prefixNodeIds suffixNodeIds = .ok F) :
    Dataflow.Supplies g.dataflow (fun id ↦ decide (id ∈ suffixNodeIds)) (fun id ↦ decide (id ∈ F)) := by
  obtain ⟨hpartitions, hsound⟩ := exists_frontier_iff.mp ⟨F, h⟩
  obtain ⟨hnd, -, hids⟩ := hpartitions
  constructor
  · intro id _ hsuffix hgiven
    rw [decide_eq_true_eq] at hsuffix ⊢
    exact (mem_frontier h).mpr (.inl (.inr (.inr ⟨of_decide_eq_true hgiven, hsuffix⟩)))
  · intro id hid hsuffix hnone
    obtain ⟨node, hnode, rfl⟩ := List.mem_map.mp hid
    rw [operands_eq hnd hnode, List.mem_map] at hnone
    obtain ⟨label, hlabel, hmissing⟩ := hnone
    obtain ⟨parent, hparent⟩ := (hsound node hnode (of_decide_eq_true hsuffix)).1 label hlabel
    rw [hparent] at hmissing
    cases hmissing
  · intro id hid hsuffix p hp
    obtain ⟨node, hnode, rfl⟩ := List.mem_map.mp hid
    obtain ⟨label, hlabel, parent, hparent, rfl⟩ := (some_mem_operands hnd hnode).mp hp
    simp only [decide_eq_true_eq] at hsuffix ⊢
    have hmem := (hids parent.canonicalId).mpr (List.mem_map_of_mem (g.mem_of_nodeForLabel label parent hparent))
    obtain hpre | hsuffix' := hmem
    · have hoperand : SuffixOperand g prefixNodeIds suffixNodeIds parent.canonicalId :=
        ⟨hpre, node, hnode, hsuffix, label, hlabel, parent, hparent, rfl⟩
      exact .inr ((mem_frontier h).mpr (.inl (.inr (.inl hoperand))))
    · exact .inl hsuffix'

theorem sufficient (h : minimalFrontierNodeIds g prefixNodeIds suffixNodeIds = .ok F) (ht : g.dataflow.Topological) :
    Sufficient g suffixNodeIds F := by
  obtain ⟨hnd, -, hids⟩ := frontier_partitions h
  refine ⟨Dataflow.reproduces hnd ht (supplies h), fun id hid ↦ ?_⟩
  obtain ⟨node, hnode, houtput, rfl⟩ := (g.mem_outputNodeIds id).mp hid
  obtain hpre | hsuffix := (hids node.canonicalId).mpr (List.mem_map_of_mem hnode)
  · exact .inr ((mem_frontier h).mpr (.inl (.inl ⟨hpre, node, hnode, houtput, rfl⟩)))
  · exact .inl hsuffix

/-- Without one of its ids the frontier does not do. -/
theorem not_sufficient (h : minimalFrontierNodeIds g prefixNodeIds suffixNodeIds = .ok F) (ht : g.dataflow.Topological)
    (hpre : ∀ id ∈ F, id ∈ prefixNodeIds) (hterminal : ¬(suffixNodeIds = [] ∧ g.outputNodeIds = []))
    {F' : List String} (hsub : ∀ id ∈ F', id ∈ F) {x : String} (hx : x ∈ F) (hx' : x ∉ F') :
    ¬ Sufficient g suffixNodeIds F' := by
  obtain ⟨hnd, hdisjoint, hids⟩ := frontier_partitions h
  rintro ⟨hreproduces, houtputs⟩
  have hxs : x ∉ suffixNodeIds := hdisjoint x (hpre x hx)
  obtain (⟨-, node, hnode, houtput, rfl⟩ | ⟨-, node, hnode, hsuffix, hoperand⟩ | ⟨-, hsuffix⟩) | ⟨hempty, -⟩ :=
    (mem_frontier h).mp hx
  · have hid := (g.mem_outputNodeIds node.canonicalId).mpr ⟨node, hnode, houtput, rfl⟩
    exact (houtputs _ hid).elim hxs hx'
  · have hgiven : g.dataflow.given node.canonicalId = false := by
      refine decide_eq_false fun hinput ↦ ?_
      exact hdisjoint _ (hpre _ ((mem_frontier h).mpr (.inl (.inr (.inr ⟨hinput, hsuffix⟩))))) hsuffix
    refine Dataflow.not_reproduces hnd ht (List.mem_map_of_mem hnode) (decide_eq_true hsuffix) hgiven
      ((some_mem_operands hnd hnode).mpr hoperand) (by simpa using hxs) (by simpa using hx') ?_ hreproduces
    intro p hp
    have hpF := hsub p (of_decide_eq_true hp)
    exact ⟨frontier_subset h hpF, by simpa using hdisjoint p (hpre p hpF)⟩
  · exact hxs hsuffix
  · exact hterminal hempty

end Cut

/-- The audit raises where the cut is no partition or an operand of the suffix is not resolved. Otherwise its ids are
enough to go on with, each once and in the order of the graph, and where all are of the prefix none can be left out. -/
theorem frontier_sufficient_and_minimal (g : TraceGraph) (prefixNodeIds suffixNodeIds : List String) :
    ((∃ e, minimalFrontierNodeIds g prefixNodeIds suffixNodeIds = .error e) ↔
      ¬(Partitions g prefixNodeIds suffixNodeIds ∧ Sound g suffixNodeIds)) ∧
    ∀ F, minimalFrontierNodeIds g prefixNodeIds suffixNodeIds = .ok F →
      (F.Pairwise fun a b ↦ g.orderById a < g.orderById b) ∧
      (g.dataflow.Topological → Sufficient g suffixNodeIds F ∧
        ((∀ id ∈ F, id ∈ prefixNodeIds) → ¬(suffixNodeIds = [] ∧ g.outputNodeIds = []) →
          (∀ id ∈ F, PrefixOutput g prefixNodeIds id ∨ SuffixOperand g prefixNodeIds suffixNodeIds id) ∧
          ∀ F' : List String, (∀ id ∈ F', id ∈ F) → (∃ x ∈ F, x ∉ F') → ¬ Sufficient g suffixNodeIds F')) := by
  constructor
  · rw [exists_error_iff, exists_frontier_iff]
  · intro F h
    refine ⟨pairwise_frontier h, fun ht ↦ ⟨sufficient h ht, fun hpre hterminal ↦ ⟨?_, ?_⟩⟩⟩
    · intro id hid
      obtain (houtput | hoperand | ⟨-, hsuffix⟩) | ⟨hempty, -⟩ := (mem_frontier h).mp hid
      · exact .inl houtput
      · exact .inr hoperand
      · exact absurd hsuffix ((frontier_partitions h).2.1 id (hpre id hid))
      · exact absurd hempty hterminal
    · rintro F' hsub ⟨x, hx, hx'⟩
      exact not_sufficient h ht hpre hterminal hsub hx hx'

/-- Two nodes of the prefix, of which one is an operand of the suffix and the other is not. -/
def chain : TraceGraph where
  nodes := [⟨"x", [], [], true, false, false, false⟩, ⟨"h", ["x"], [], false, false, false, false⟩,
    ⟨"y", ["h"], [⟨some "h", none⟩], false, true, false, false⟩]
  nodeForLabel label :=
    if label = "x" then some ⟨"x", [], [], true, false, false, false⟩
    else if label = "h" then some ⟨"h", ["x"], [], false, false, false, false⟩
    else none
  inputNodeIds := ["x"]
  outputNodeIds := ["y"]
  mem_of_nodeForLabel := by
    intro label node h
    split_ifs at h
    · cases h
      simp
    · cases h
      simp
  mem_outputNodeIds id := by
    rw [List.mem_singleton]
    constructor
    · rintro rfl
      exact ⟨⟨"y", ["h"], [⟨some "h", none⟩], false, true, false, false⟩, by simp, rfl, rfl⟩
    · rintro ⟨node, hnode, houtput, rfl⟩
      simp only [List.mem_cons, List.not_mem_nil, or_false] at hnode
      obtain rfl | rfl | rfl := hnode
      · cases houtput
      · cases houtput
      · rfl

theorem topological_chain : chain.dataflow.Topological := by
  intro before n after hsplit p hp
  have hids : chain.dataflow.nodes = ["x", "h", "y"] := rfl
  rw [hids] at hsplit
  obtain _ | ⟨a, _ | ⟨b, _ | ⟨c, before⟩⟩⟩ := before
  · cases hsplit
    have hoperands : chain.dataflow.operands "x" = [] := by decide +kernel
    rw [hoperands] at hp
    cases hp
  · cases hsplit
    have hoperands : chain.dataflow.operands "h" = [some "x"] := by decide +kernel
    simpa [hoperands] using hp
  · cases hsplit
    have hoperands : chain.dataflow.operands "y" = [some "h"] := by decide +kernel
    rw [hoperands, List.mem_singleton] at hp
    cases hp
    simp
  · simp at hsplit

theorem chain_frontier : Sufficient chain ["y"] ["h"] ∧ ¬ Sufficient chain ["y"] [] := by
  have h : minimalFrontierNodeIds chain ["x", "h"] ["y"] = .ok ["h"] := by decide +kernel
  obtain ⟨hsufficient, hminimal⟩ :=
    ((frontier_sufficient_and_minimal chain ["x", "h"] ["y"]).2 ["h"] h).2 topological_chain
  refine ⟨hsufficient, (hminimal (by simp) (by simp)).2 [] (by simp) ⟨"h", List.mem_singleton_self _, by simp⟩⟩

end SplitFleet.Frontier
