import SplitFleet.Lib.Lists
import SplitFleet.OwnershipGraph

set_option autoImplicit false

namespace SplitFleet.OwnershipGraph

open Lib StateOwnership

/-! ### What ownership is -/

/-- A text names one node: some node has it as an alias, and no other node does. -/
def Resolves (g : TraceGraph) (key id : String) : Prop :=
  (∃ node ∈ g.nodes, key ∈ node.aliases ∧ node.canonicalId = id) ∧
    ∀ node ∈ g.nodes, key ∈ node.aliases → node.canonicalId = id

def Unresolved (g : TraceGraph) : Prop := ∃ node ∈ g.nodes, ∃ parent ∈ node.parents, ∀ id, ¬ Resolves g parent id

def ParentOf (g : TraceGraph) (p c : Node) : Prop :=
  c ∈ g.nodes ∧ ∃ parent ∈ c.parents, Resolves g parent p.canonicalId

def SourceEdge (g : TraceGraph) (p c : Node) : Prop := ParentOf g p c ∧ c.isStateSource = true

/-- A node refers to a name of the state: one of its objects and the value share an identity. -/
def Refers (r : Runtime) (node : Node) (name : String) : Prop :=
  ∃ v, r.state.get? name = some v ∧ ∃ value ∈ node.refs.map (fun ref ↦ some ref.object) ++ node.resources,
    ∃ i ∈ nativeIdentities r.natives value, i ∈ nativeIdentities r.natives (some v)

/-- A reference to a trainable parameter that matches no state. -/
def Unmatched (r : Runtime) (node : Node) : Prop :=
  ∃ ref ∈ node.refs, ref.isTrainable = true ∧ matched r (some ref.object) = []

/-- A node that consumes a name: it is no source and refers to the name, or is the first node after sources that
lead to it from a source that refers to the name. -/
def Consumes (g : TraceGraph) (r : Runtime) (name : String) (c : Node) : Prop :=
  c ∈ g.nodes ∧ c.isStateSource = false ∧ (Refers r c name ∨
    ∃ n ∈ g.nodes, n.isStateSource = true ∧ Refers r n name ∧
      ∃ p, Relation.ReflTransGen (SourceEdge g) n p ∧ ParentOf g p c)

def InStage (plan : SplitPlan) (stage : Owner) (id : String) : Prop := ∃ ids, (stage, ids) ∈ stages plan ∧ id ∈ ids

def Staged (g : TraceGraph) (plan : SplitPlan) (r : Runtime) (name : String) (stage : Owner) : Prop :=
  ∃ c, Consumes g r name c ∧ InStage plan stage c.canonicalId

def Shared (g : TraceGraph) (plan : SplitPlan) (r : Runtime) (name : String) : Prop :=
  Staged g plan r name .prefixStage ∧ Staged g plan r name .suffixStage

structure Owned (g : TraceGraph) (plan : SplitPlan) (r : Runtime) (name : String) (owner : Owner) : Prop where
  front : owner = .prefixStage ↔ Staged g plan r name .prefixStage
  back : owner = .suffixStage ↔ Staged g plan r name .suffixStage
  initial : owner = .initial ↔ ∀ stage, ¬ Staged g plan r name stage

section Graph

variable {g : TraceGraph} {key id parent child : String} {node p c : Node} {d d' children : Dict String (List String)}

theorem mem_aliasNodes : id ∈ aliasNodes g key ↔ ∃ node ∈ g.nodes, key ∈ node.aliases ∧ node.canonicalId = id := by
  simp only [aliasNodes, List.mem_dedup, List.mem_map, List.mem_filter, decide_eq_true_eq, and_assoc]

theorem resolve_eq_some_iff : resolve g key = some id ↔ Resolves g key id := by
  have hnd : (aliasNodes g key).Nodup := List.nodup_dedup _
  constructor
  · intro h
    have hone : aliasNodes g key = [id] := by
      rw [resolve] at h
      split at h
      · cases h
        assumption
      · cases h
    refine ⟨mem_aliasNodes.mp (hone ▸ List.mem_singleton_self id), fun node hn hk ↦ ?_⟩
    exact List.mem_singleton.mp (hone ▸ mem_aliasNodes.mpr ⟨node, hn, hk, rfl⟩)
  · intro ⟨hex, hall⟩
    have hid := mem_aliasNodes.mpr hex
    have honly : ∀ a ∈ aliasNodes g key, a = id := by
      intro a ha
      obtain ⟨node, hn, hk, rfl⟩ := mem_aliasNodes.mp ha
      exact hall node hn hk
    rw [resolve]
    generalize aliasNodes g key = ids at hnd hid honly
    match ids with
    | [] => cases hid
    | [a] => rw [honly a List.mem_cons_self]
    | a :: b :: ids =>
      have hab : a = b := (honly a (by simp)).trans (honly b (by simp)).symm
      exact absurd (hab ▸ List.mem_cons_self) (List.nodup_cons.mp hnd).1

theorem resolve_eq_none_iff : resolve g key = none ↔ ∀ id, ¬ Resolves g key id := by
  simp only [← resolve_eq_some_iff, Option.eq_none_iff_forall_ne_some]

theorem nodeById_of_mem (h : node ∈ g.nodes) : nodeById g node.canonicalId = some node := by
  rw [nodeById, List.find?_eq_some_iff_append]
  refine ⟨decide_eq_true rfl, ?_⟩
  obtain ⟨l, l', he⟩ := List.append_of_mem h
  refine ⟨l, l', he, fun other ho ↦ ?_⟩
  have hnd := g.distinct
  rw [he, List.map_append, List.map_cons] at hnd
  have hne : other.canonicalId ≠ node.canonicalId := fun hid ↦
    (List.nodup_append.mp hnd).2.2 _ (List.mem_map_of_mem ho) _ List.mem_cons_self hid
  simp [hne]

theorem isSourceId_of_mem (h : node ∈ g.nodes) : isSourceId g node.canonicalId = node.isStateSource := by
  rw [isSourceId, nodeById_of_mem h, Option.any_some]

theorem mem_neighbours_insert {a b : String} {l : List String} :
    b ∈ Search.neighbours (d.insert id l) a ↔ if id = a then b ∈ l else b ∈ Search.neighbours d a := by
  rw [Search.neighbours, Dict.get?_insert]
  split_ifs <;> rfl

theorem addChild_ok (h : addChild g child d parent = .ok d') (a b : String) : b ∈ Search.neighbours d' a ↔
    b ∈ Search.neighbours d a ∨ b = child ∧ resolve g parent = some a := by
  rw [addChild] at h
  cases hr : resolve g parent with
  | none =>
    rw [hr] at h
    cases h
  | some id =>
    rw [hr] at h
    cases h
    rw [mem_neighbours_insert]
    split_ifs with hid
    · subst hid
      rw [List.mem_insert_iff, Search.neighbours]
      tauto
    · have hne : ¬ some id = some a := fun he ↦ hid (Option.some.inj he)
      tauto

theorem addChild_fold_ok {l : List String} (h : l.foldlM (addChild g child) d = .ok d') (a b : String) :
    b ∈ Search.neighbours d' a ↔ b ∈ Search.neighbours d a ∨ b = child ∧ ∃ parent ∈ l, resolve g parent = some a := by
  induction l generalizing d with
  | nil =>
    cases h
    simp
  | cons parent l ih =>
    rw [List.foldlM_cons] at h
    obtain ⟨d₁, h₁, h⟩ := bind_eq_ok h
    rw [ih h, addChild_ok h₁, List.exists_mem_cons_iff]
    tauto

theorem addChildren_fold_ok {l : List Node} (h : l.foldlM (addChildren g) d = .ok d') (a b : String) :
    b ∈ Search.neighbours d' a ↔ b ∈ Search.neighbours d a ∨
      ∃ node ∈ l, node.canonicalId = b ∧ ∃ parent ∈ node.parents, resolve g parent = some a := by
  induction l generalizing d with
  | nil =>
    cases h
    simp
  | cons node l ih =>
    rw [List.foldlM_cons] at h
    obtain ⟨d₁, h₁, h⟩ := bind_eq_ok h
    rw [ih h, addChild_fold_ok h₁, List.exists_mem_cons_iff, eq_comm (a := b), or_assoc]

/-- The dictionary of children is the parent relation. -/
theorem mem_children (h : buildChildren g = .ok children) {a b : String} : b ∈ Search.neighbours children a ↔
    ∃ c ∈ g.nodes, c.canonicalId = b ∧ ∃ parent ∈ c.parents, Resolves g parent a := by
  rw [addChildren_fold_ok h]
  simp only [resolve_eq_some_iff]
  constructor
  · rintro (hm | hm)
    · cases hm
    · exact hm
  · exact .inr

variable (child) in
theorem addChild_fold_error {l : List String} :
    (∃ e, l.foldlM (addChild g child) d = .error e) ↔ ∃ parent ∈ l, resolve g parent = none := by
  induction l generalizing d with
  | nil => simp [pure, Except.pure]
  | cons parent l ih =>
    rw [List.foldlM_cons, List.exists_mem_cons_iff, addChild]
    cases hr : resolve g parent with
    | none => exact ⟨fun _ ↦ .inl rfl, fun _ ↦ ⟨_, rfl⟩⟩
    | some id =>
      rw [ok_bind, ih]
      simp

theorem addChildren_fold_error {l : List Node} : (∃ e, l.foldlM (addChildren g) d = .error e) ↔
    ∃ node ∈ l, ∃ parent ∈ node.parents, resolve g parent = none := by
  induction l generalizing d with
  | nil => simp [pure, Except.pure]
  | cons node l ih =>
    rw [List.foldlM_cons, List.exists_mem_cons_iff, ← addChild_fold_error node.canonicalId (d := d)]
    rw [addChildren]
    cases node.parents.foldlM (addChild g node.canonicalId) d with
    | error e => exact ⟨fun _ ↦ .inl ⟨e, rfl⟩, fun _ ↦ ⟨e, rfl⟩⟩
    | ok d₁ =>
      rw [ok_bind, ih]
      simp

theorem buildChildren_error : (∃ e, buildChildren g = .error e) ↔ Unresolved g := by
  rw [buildChildren, addChildren_fold_error]
  simp only [Unresolved, resolve_eq_none_iff]

theorem mem_children_of_node (h : buildChildren g = .ok children) {p : Node} {b : String} :
    b ∈ Search.neighbours children p.canonicalId ↔ ∃ c, ParentOf g p c ∧ c.canonicalId = b := by
  rw [mem_children h]
  constructor
  · rintro ⟨c, hc, hb, hr⟩
    exact ⟨c, ⟨hc, hr⟩, hb⟩
  · rintro ⟨c, ⟨hc, hr⟩, hb⟩
    exact ⟨c, hc, hb, hr⟩

/-- What the search from a node visits: the nodes that sources lead to. -/
theorem mem_visited (h : buildChildren g = .ok children) (hn : node ∈ g.nodes) {b : String} :
    b ∈ Search.search children (isSourceId g) (Search.neighbours children node.canonicalId).reverse [] ↔
      ∃ c, c.canonicalId = b ∧ ∃ p, Relation.ReflTransGen (SourceEdge g) node p ∧ ParentOf g p c := by
  rw [Search.mem_search_iff]
  constructor
  · rintro ⟨f, hf, hpath⟩
    induction hpath with
    | refl =>
      obtain ⟨c, hc, hb⟩ := (mem_children_of_node h).mp (List.mem_reverse.mp hf)
      exact ⟨c, hb, node, .refl, hc⟩
    | tail _ hs ih =>
      obtain ⟨hsource, hb⟩ := hs
      obtain ⟨c, rfl, p, hp, hc⟩ := ih
      rw [isSourceId_of_mem hc.1] at hsource
      obtain ⟨c', hc', hb'⟩ := (mem_children_of_node h).mp hb
      exact ⟨c', hb', c, hp.tail ⟨hc, hsource⟩, hc'⟩
  · rintro ⟨c, rfl, p, hp, hc⟩
    have hmem : ∀ q, Relation.ReflTransGen (SourceEdge g) node q → q = node ∨ q ∈ g.nodes ∧ q.isStateSource = true ∧
        ∃ f ∈ (Search.neighbours children node.canonicalId).reverse,
          Relation.ReflTransGen (Search.Step children (isSourceId g)) f q.canonicalId := by
      intro q hq
      induction hq with
      | refl => exact .inl rfl
      | @tail q q' _ hs ih =>
        refine .inr ⟨hs.1.1, hs.2, ?_⟩
        obtain rfl | ⟨hq, hsource, f, hf, hpath⟩ := ih
        · exact ⟨q'.canonicalId, List.mem_reverse.mpr ((mem_children_of_node h).mpr ⟨q', hs.1, rfl⟩), .refl⟩
        · refine ⟨f, hf, hpath.tail ⟨?_, (mem_children_of_node h).mpr ⟨q', hs.1, rfl⟩⟩⟩
          rw [isSourceId_of_mem hq, hsource]
    obtain rfl | ⟨hpn, hsource, f, hf, hpath⟩ := hmem p hp
    · exact ⟨c.canonicalId, List.mem_reverse.mpr ((mem_children_of_node h).mpr ⟨c, hc, rfl⟩), .refl⟩
    · refine ⟨f, hf, hpath.tail ⟨?_, (mem_children_of_node h).mpr ⟨c, hc, rfl⟩⟩⟩
      rw [isSourceId_of_mem hpn, hsource]

end Graph

section Consumers

variable {g : TraceGraph} {plan : SplitPlan} {r : Runtime} {node : Node} {name : String} {stage : Owner}
  {children : Dict String (List String)}

theorem mem_matched {value : Option ℕ} : name ∈ matched r value ↔ ∃ v, r.state.get? name = some v ∧
    ∃ i ∈ nativeIdentities r.natives value, i ∈ nativeIdentities r.natives (some v) := by
  simp only [matched, namesOf, List.mem_flatMap, List.mem_map, List.mem_filter, decide_eq_true_eq, Dict.get?_eq_some_iff]
  constructor
  · rintro ⟨i, hi, ⟨n, v⟩, ⟨hp, hv⟩, rfl⟩
    exact ⟨v, hp, i, hi, hv⟩
  · rintro ⟨v, hp, i, hi, hv⟩
    exact ⟨i, hi, (name, v), ⟨hp, hv⟩, rfl⟩

theorem bindRef_eq_ok_iff {ref : Ref} {names : List String} : bindRef r ref = .ok names ↔
    ¬ (ref.isTrainable = true ∧ matched r (some ref.object) = []) ∧ names = matched r (some ref.object) := by
  rw [bindRef]
  by_cases h : matched r (some ref.object) = [] ∧ ref.isTrainable = true
  · rw [require, if_neg (not_not.mpr h)]
    constructor
    · intro he
      cases he
    · exact fun hn ↦ absurd h.symm hn.1
  · rw [require_of h, ok_bind]
    constructor
    · intro he
      cases he
      exact ⟨fun hn ↦ h hn.symm, rfl⟩
    · rintro ⟨-, rfl⟩
      rfl

theorem exists_referenced : (∃ names, referenced r node = .ok names) ↔ ¬ Unmatched r node := by
  have hrefs : (∃ names, node.refs.mapM (bindRef r) = .ok names) ↔ ¬ Unmatched r node := by
    rw [exists_mapM_ok_iff]
    simp only [bindRef_eq_ok_iff, exists_and_left, exists_eq, and_true, Unmatched, not_exists, not_and]
  rw [← hrefs, referenced]
  cases node.refs.mapM (bindRef r) with
  | error e => simp
  | ok l => exact ⟨fun _ ↦ ⟨l, rfl⟩, fun _ ↦ ⟨_, rfl⟩⟩

theorem mem_referenced {names : List String} (h : referenced r node = .ok names) : name ∈ names ↔ Refers r node name := by
  obtain ⟨l, hl, h⟩ := bind_eq_ok h
  cases h
  have hmap : l = node.refs.map fun ref ↦ matched r (some ref.object) := by
    have hall := (mapM_eq_ok_iff.mp hl).imp fun ref names h ↦ (bindRef_eq_ok_iff.mp h).2
    clear hl h
    generalize node.refs = refs at hall
    induction hall with
    | nil => rfl
    | cons hp _ ih => rw [List.map_cons, ← ih, hp]
  rw [hmap, List.mem_append, List.mem_flatten, List.mem_flatMap, Refers]
  simp only [List.mem_map, List.mem_append, mem_matched]
  constructor
  · rintro (⟨_, ⟨ref, href, rfl⟩, hname⟩ | ⟨value, hvalue, v, hv, hi⟩)
    · obtain ⟨v, hv, hi⟩ := mem_matched.mp hname
      exact ⟨v, hv, _, .inl ⟨ref, href, rfl⟩, hi⟩
    · exact ⟨v, hv, value, .inr hvalue, hi⟩
  · rintro ⟨v, hv, value, ⟨ref, href, rfl⟩ | hvalue, hi⟩
    · exact .inl ⟨_, ⟨ref, href, rfl⟩, mem_matched.mpr ⟨v, hv, hi⟩⟩
    · exact .inr ⟨value, hvalue, v, hv, hi⟩

theorem mem_consume {names : List String} {id : String} : (name, stage) ∈ consume plan names id ↔
    name ∈ names ∧ InStage plan stage id := by
  simp only [consume, List.mem_flatMap, InStage]
  constructor
  · rintro ⟨⟨o, ids⟩, hs, hm⟩
    split_ifs at hm with hid
    · obtain ⟨n, hn, he⟩ := List.mem_map.mp hm
      cases he
      exact ⟨hn, ids, hs, hid⟩
    · cases hm
  · rintro ⟨hn, ids, hs, hid⟩
    refine ⟨(stage, ids), hs, ?_⟩
    rw [if_pos hid]
    exact List.mem_map_of_mem hn

/-- The search of a source comes to nodes of the graph only, so no lookup of a node fails. -/
theorem exists_visits (plan : SplitPlan) (hc : buildChildren g = .ok children) (hn : node ∈ g.nodes) (names : List String) :
    ∃ uses, (Search.search children (isSourceId g) (Search.neighbours children node.canonicalId).reverse []).reverse.mapM
      (consumeChild g plan names) = .ok uses := by
  rw [exists_mapM_ok_iff]
  intro id hid
  obtain ⟨c, rfl, p, -, hp⟩ := (mem_visited hc hn).mp (List.mem_reverse.mp hid)
  exact ⟨_, by rw [consumeChild, nodeById_of_mem hp.1]⟩

variable (plan) in
theorem exists_nodeUses (hc : buildChildren g = .ok children) (hn : node ∈ g.nodes) :
    (∃ uses, nodeUses g plan r children node = .ok uses) ↔ ¬ Unmatched r node := by
  rw [← exists_referenced, nodeUses]
  cases referenced r node with
  | error e =>
    constructor
    · rintro ⟨uses, h⟩
      cases h
    · rintro ⟨names, h⟩
      cases h
  | ok names =>
    refine ⟨fun _ ↦ ⟨names, rfl⟩, fun _ ↦ ?_⟩
    rw [ok_bind]
    split_ifs
    · obtain ⟨uses, huses⟩ := exists_visits plan hc hn names
      dsimp only
      rw [huses]
      exact ⟨_, rfl⟩
    · exact ⟨_, rfl⟩

/-- The consumers that one node accounts for. -/
def ConsumesFrom (g : TraceGraph) (node c : Node) : Prop := c ∈ g.nodes ∧ c.isStateSource = false ∧
  (node = c ∨ node.isStateSource = true ∧ ∃ p, Relation.ReflTransGen (SourceEdge g) node p ∧ ParentOf g p c)

theorem mem_nodeUses (hc : buildChildren g = .ok children) (hn : node ∈ g.nodes) {uses : List (String × Owner)}
    (h : nodeUses g plan r children node = .ok uses) : (name, stage) ∈ uses ↔ Refers r node name ∧
      ∃ c, ConsumesFrom g node c ∧ InStage plan stage c.canonicalId := by
  obtain ⟨names, hnames, h⟩ := bind_eq_ok h
  rw [← mem_referenced hnames]
  split_ifs at h with hsource
  · obtain ⟨visits, hvisits, h⟩ := bind_eq_ok h
    cases h
    have hall := mapM_eq_ok_iff.mp hvisits
    constructor
    · intro hm
      obtain ⟨pairs, hpairs, hm⟩ := List.mem_flatten.mp hm
      obtain ⟨id, hid, he⟩ := forall₂_exists_of_mem_right hall hpairs
      obtain ⟨c, rfl, p, hp, hpc⟩ := (mem_visited hc hn).mp (List.mem_reverse.mp hid)
      rw [consumeChild, nodeById_of_mem hpc.1] at he
      cases he
      split_ifs at hm with hcs
      · cases hm
      · obtain ⟨hname, hstage⟩ := mem_consume.mp hm
        exact ⟨hname, c, ⟨hpc.1, by simpa using hcs, .inr ⟨hsource, p, hp, hpc⟩⟩, hstage⟩
    · rintro ⟨hname, c, ⟨hcn, hcs, hwhere⟩, hstage⟩
      obtain rfl | ⟨-, p, hp, hpc⟩ := hwhere
      · rw [hsource] at hcs
        cases hcs
      · have hid := List.mem_reverse.mpr ((mem_visited hc hn).mpr ⟨c, rfl, p, hp, hpc⟩)
        obtain ⟨pairs, hpairs, he⟩ := forall₂_exists_of_mem_right hall.flip hid
        rw [consumeChild, nodeById_of_mem hcn] at he
        cases he
        refine List.mem_flatten.mpr ⟨_, hpairs, ?_⟩
        rw [hcs]
        exact mem_consume.mpr ⟨hname, hstage⟩
  · cases h
    have hns : node.isStateSource = false := by simpa using hsource
    rw [mem_consume]
    constructor
    · exact fun ⟨hname, hstage⟩ ↦ ⟨hname, node, ⟨hn, hns, .inl rfl⟩, hstage⟩
    · rintro ⟨hname, c, ⟨-, -, rfl | ⟨hs, -⟩⟩, hstage⟩
      · exact ⟨hname, hstage⟩
      · exact absurd hs hsource

/-- All that is used is what the nodes of the graph consume. -/
theorem mem_used (hc : buildChildren g = .ok children) {used : List (List (String × Owner))}
    (h : g.nodes.mapM (nodeUses g plan r children) = .ok used) :
    (name, stage) ∈ used.flatten ↔ Staged g plan r name stage := by
  have hall := mapM_eq_ok_iff.mp h
  rw [List.mem_flatten]
  constructor
  · rintro ⟨uses, huses, hm⟩
    obtain ⟨node, hn, he⟩ := forall₂_exists_of_mem_right hall huses
    obtain ⟨hrefers, c, ⟨hcn, hcs, hwhere⟩, hstage⟩ := (mem_nodeUses hc hn he).mp hm
    refine ⟨c, ⟨hcn, hcs, ?_⟩, hstage⟩
    obtain rfl | ⟨hs, p, hp, hpc⟩ := hwhere
    · exact .inl hrefers
    · exact .inr ⟨node, hn, hs, hrefers, p, hp, hpc⟩
  · rintro ⟨c, ⟨hcn, hcs, hwhere⟩, hstage⟩
    have hfrom : ∃ node ∈ g.nodes, Refers r node name ∧ ConsumesFrom g node c := by
      obtain hrefers | ⟨n, hn, hs, hrefers, p, hp, hpc⟩ := hwhere
      · exact ⟨c, hcn, hrefers, hcn, hcs, .inl rfl⟩
      · exact ⟨n, hn, hrefers, hcn, hcs, .inr ⟨hs, p, hp, hpc⟩⟩
    obtain ⟨node, hn, hrefers, hfrom⟩ := hfrom
    obtain ⟨uses, huses, he⟩ := forall₂_exists_of_mem_right hall.flip hn
    exact ⟨uses, huses, (mem_nodeUses hc hn he).mpr ⟨hrefers, c, hfrom, hstage⟩⟩

end Consumers

section Owners

variable {g g' : TraceGraph} {plan : SplitPlan} {r : Runtime} {name : String}

theorem inStage_iff {stage : Owner} {id : String} : InStage plan stage id ↔
    stage = .prefixStage ∧ id ∈ plan.prefixNodeIds ∨ stage = .suffixStage ∧ id ∈ plan.suffixNodeIds := by
  simp [InStage, stages, or_and_right, exists_or]

theorem Staged.stage {stage : Owner} (h : Staged g plan r name stage) : stage = .prefixStage ∨ stage = .suffixStage := by
  obtain ⟨c, -, hc⟩ := h
  exact (inStage_iff.mp hc).imp And.left And.left

variable (name) in
/-- An owner for a name that is not shared. -/
theorem ownerOf_spec {used : List (String × Owner)} (hu : ∀ stage, (name, stage) ∈ used ↔ Staged g plan r name stage) :
    (∃ owner, ownerOf used name = .ok (name, owner) ∧ Owned g plan r name owner ∧ ¬ Shared g plan r name) ∨
      Shared g plan r name ∧ ∃ e, ownerOf used name = .error e := by
  rw [ownerOf, consumed]
  by_cases hp : Staged g plan r name .prefixStage <;> by_cases hs : Staged g plan r name .suffixStage
  · refine .inr ⟨⟨hp, hs⟩, ?_⟩
    simp [(hu _).mpr hp, (hu _).mpr hs, require]
  · refine .inl ⟨.prefixStage, by simp [(hu _).mpr hp, mt (hu _).mp hs, require], ⟨?_, ?_, ?_⟩, fun h ↦ hs h.2⟩
    · simp [hp]
    · simp [hs]
    · simp only [reduceCtorEq, false_iff, not_forall, not_not]
      exact ⟨_, hp⟩
  · refine .inl ⟨.suffixStage, by simp [(hu _).mpr hs, mt (hu _).mp hp, require], ⟨?_, ?_, ?_⟩, fun h ↦ hp h.1⟩
    · simp [hp]
    · simp [hs]
    · simp only [reduceCtorEq, false_iff, not_forall, not_not]
      exact ⟨_, hs⟩
  · refine .inl ⟨.initial, by simp [mt (hu _).mp hp, mt (hu _).mp hs, require], ⟨?_, ?_, ?_⟩, fun h ↦ hp h.1⟩
    · simp [hp]
    · simp [hs]
    · simp only [true_iff]
      exact fun stage h ↦ h.stage.elim (fun he ↦ hp (he ▸ h)) fun he ↦ hs (he ▸ h)

/-- The conditions under which no owners come out before the declared associations. -/
def Disputed (g : TraceGraph) (plan : SplitPlan) (r : Runtime) : Prop :=
  (∃ id ∈ plan.prefixNodeIds, id ∈ plan.suffixNodeIds) ∨ Unresolved g ∨ (∃ node ∈ g.nodes, Unmatched r node) ∨
    ∃ name ∈ r.state.keys, Shared g plan r name

variable (g plan r) in
theorem nativeOwners_spec : (∃ owners, nativeOwners g plan r = .ok owners ∧ ¬ Disputed g plan r ∧
      owners.map Prod.fst = r.state.keys ∧ ∀ p ∈ owners, Owned g plan r p.1 p.2) ∨
    Disputed g plan r ∧ ∃ e, nativeOwners g plan r = .error e := by
  rw [nativeOwners]
  by_cases ho : ∀ id ∈ plan.prefixNodeIds, id ∉ plan.suffixNodeIds
  swap
  · refine .inr ⟨.inl (by simpa using ho), ?_⟩
    rw [require, if_neg ho]
    exact ⟨_, rfl⟩
  rw [require_of ho, ok_bind]
  cases hc : buildChildren g with
  | error e => exact .inr ⟨.inr (.inl (buildChildren_error.mp ⟨e, hc⟩)), ⟨e, rfl⟩⟩
  | ok children =>
    have hresolved : ¬ Unresolved g := fun hu ↦ by
      obtain ⟨e, he⟩ := buildChildren_error.mpr hu
      rw [hc] at he
      cases he
    rw [ok_bind]
    cases hused : g.nodes.mapM (nodeUses g plan r children) with
    | error e =>
      have hnone : ¬ ∃ used, g.nodes.mapM (nodeUses g plan r children) = .ok used := exists_error_iff.mp ⟨e, hused⟩
      rw [exists_mapM_ok_iff] at hnone
      push Not at hnone
      obtain ⟨node, hn, hfail⟩ := hnone
      have hun : Unmatched r node := by
        by_contra hm
        obtain ⟨uses, huses⟩ := (exists_nodeUses plan hc hn).mpr hm
        exact hfail uses huses
      exact .inr ⟨.inr (.inr (.inl ⟨node, hn, hun⟩)), ⟨e, rfl⟩⟩
    | ok used =>
      have hmatched : ¬ ∃ node ∈ g.nodes, Unmatched r node := by
        rintro ⟨node, hn, hun⟩
        obtain ⟨uses, -, he⟩ := forall₂_exists_of_mem_right (mapM_eq_ok_iff.mp hused).flip hn
        exact (exists_nodeUses plan hc hn).mp ⟨uses, he⟩ hun
      have hspec := fun name ↦ ownerOf_spec name fun _ ↦ mem_used hc hused
      rw [ok_bind]
      cases howners : r.state.keys.mapM (ownerOf used.flatten) with
      | error e =>
        have hnone : ¬ ∃ owners, r.state.keys.mapM (ownerOf used.flatten) = .ok owners :=
          exists_error_iff.mp ⟨e, howners⟩
        rw [exists_mapM_ok_iff] at hnone
        push Not at hnone
        obtain ⟨name, hname, hfail⟩ := hnone
        obtain ⟨owner, hok, -⟩ | ⟨hshared, -⟩ := hspec name
        · exact absurd hok (hfail _)
        · exact .inr ⟨.inr (.inr (.inr ⟨name, hname, hshared⟩)), ⟨e, rfl⟩⟩
      | ok owners =>
        have hall := mapM_eq_ok_iff.mp howners
        have hone : ∀ name p, ownerOf used.flatten name = .ok p →
            p.1 = name ∧ Owned g plan r name p.2 ∧ ¬ Shared g plan r name := by
          intro name p hp
          obtain ⟨owner, hok, howned, hns⟩ | ⟨-, e, he⟩ := hspec name
          · rw [hp] at hok
            cases hok
            exact ⟨rfl, howned, hns⟩
          · rw [hp] at he
            cases he
        refine .inl ⟨owners, rfl, ?_, ?_, fun p hp ↦ ?_⟩
        · rintro (⟨id, h₁, h₂⟩ | hu | hm | ⟨name, hname, hs⟩)
          · exact ho id h₁ h₂
          · exact hresolved hu
          · exact hmatched hm
          · obtain ⟨p, -, hp⟩ := forall₂_exists_of_mem_right hall.flip hname
            exact (hone name p hp).2.2 hs
        · have hfst := hall.imp fun name p hp ↦ (hone name p hp).1
          clear howners hall
          generalize r.state.keys = names at hfst
          induction hfst with
          | nil => rfl
          | cons hp _ ih => rw [List.map_cons, hp, ih]
        · obtain ⟨name, hname, hok⟩ := forall₂_exists_of_mem_right hall hp
          obtain ⟨hfst, howned, -⟩ := hone name p hok
          exact hfst ▸ howned

theorem Owned.unique {o o' : Owner} (h : Owned g plan r name o) (h' : Owned g plan r name o') : o = o' := by
  by_cases hp : Staged g plan r name .prefixStage
  · exact (h.front.mpr hp).trans (h'.front.mpr hp).symm
  · by_cases hs : Staged g plan r name .suffixStage
    · exact (h.back.mpr hs).trans (h'.back.mpr hs).symm
    · have hnone : ∀ stage, ¬ Staged g plan r name stage :=
        fun stage hst ↦ hst.stage.elim (fun he ↦ hp (he ▸ hst)) fun he ↦ hs (he ▸ hst)
      exact (h.initial.mpr hnone).trans (h'.initial.mpr hnone).symm

/-- A state that is not trainable and that no stage consumes, in a model that defers its statistics. -/
def Unproven (g : TraceGraph) (plan : SplitPlan) (r : Runtime) : Prop :=
  r.defersStatistics = true ∧ ∃ name ∈ r.state.keys, name ∉ r.trainables ∧ ∀ stage, ¬ Staged g plan r name stage

theorem ownerByName_of_mem {owners : List (String × Owner)} (hnd : (owners.map Prod.fst).Nodup) {p : String × Owner}
    (hp : p ∈ owners) : (Dict.ofList owners).get? p.1 = some p.2 := by
  rw [Dict.get?_ofList hnd, Dict.lookup_eq_some_iff hnd]
  exact hp

variable (g plan) in
theorem stateOwnership_spec (h : r.associations = .absent) :
    (∃ owners, stateOwnership g plan r = .ok owners ∧ List.Forall₂ (Owned g plan r) r.state.keys owners ∧
      ¬ (Disputed g plan r ∨ Unproven g plan r)) ∨
    (Disputed g plan r ∨ Unproven g plan r) ∧ ∃ e, stateOwnership g plan r = .error e := by
  rw [stateOwnership]
  obtain ⟨owners, hok, hnd, hfst, howned⟩ | ⟨hd, e, he⟩ := nativeOwners_spec g plan r
  swap
  · rw [he]
    exact .inr ⟨.inl hd, e, rfl⟩
  have hkeys : (owners.map Prod.fst).Nodup := hfst ▸ r.state.nodup
  have hassociate : associate r (Dict.ofList owners) = .ok (Dict.ofList owners, []) := by rw [associate, h]
  have hunproven : r.defersStatistics = true ∧ unproven r (Dict.ofList owners) [] ≠ [] ↔ Unproven g plan r := by
    refine and_congr_right fun _ ↦ ?_
    rw [Ne, List.eq_nil_iff_forall_not_mem]
    push Not
    simp only [unproven, List.mem_filter, decide_eq_true_eq, List.not_mem_nil, not_false_eq_true, true_and]
    refine exists_congr fun name ↦ and_congr_right fun hname ↦ and_congr_right fun _ ↦ ?_
    obtain ⟨p, hp, rfl⟩ := List.mem_map.mp (hfst ▸ hname)
    rw [ownerByName_of_mem hkeys hp, Option.some_inj]
    exact (howned p hp).initial
  rw [hok, ok_bind, hassociate, ok_bind]
  dsimp only
  by_cases hu : Unproven g plan r
  · rw [require, if_neg (not_not.mpr (hunproven.mpr hu))]
    exact .inr ⟨.inr hu, _, rfl⟩
  · rw [require_of (mt hunproven.mp hu), ok_bind]
    refine .inl ⟨owners.map Prod.snd, ?_, ?_, not_or.mpr ⟨hnd, hu⟩⟩
    · rw [← hfst, mapM_eq_ok_iff, List.forall₂_map_left_iff, List.forall₂_map_right_iff, List.forall₂_same]
      intro p hp
      rw [ownerByName, ownerByName_of_mem hkeys hp]
    · rw [← hfst, List.forall₂_map_left_iff, List.forall₂_map_right_iff, List.forall₂_same]
      exact howned

section Order

variable (hmem : ∀ node, node ∈ g'.nodes ↔ node ∈ g.nodes)

include hmem

theorem resolves_congr (key id : String) : Resolves g' key id ↔ Resolves g key id := by
  simp only [Resolves, hmem]

theorem parentOf_congr : ParentOf g' = ParentOf g := by
  funext p c
  simp only [ParentOf, hmem, resolves_congr hmem]

theorem sourceEdge_congr : SourceEdge g' = SourceEdge g := by
  funext p c
  rw [SourceEdge, SourceEdge, parentOf_congr hmem]

theorem staged_congr (name : String) (stage : Owner) : Staged g' plan r name stage ↔ Staged g plan r name stage := by
  simp only [Staged, Consumes, hmem, sourceEdge_congr hmem, parentOf_congr hmem]

theorem disputed_congr : Disputed g' plan r ↔ Disputed g plan r := by
  simp only [Disputed, Unresolved, Shared, hmem, resolves_congr hmem, staged_congr hmem]

theorem unproven_congr : Unproven g' plan r ↔ Unproven g plan r := by
  simp only [Unproven, staged_congr hmem]

theorem owned_congr {owner : Owner} (h : Owned g' plan r name owner) : Owned g plan r name owner where
  front := h.front.trans (staged_congr hmem name _)
  back := h.back.trans (staged_congr hmem name _)
  initial := by
    simp only [← staged_congr hmem]
    exact h.initial

end Order

theorem owners_unique {names : List String} {owners owners' : List Owner}
    (h : List.Forall₂ (Owned g plan r) names owners) (h' : List.Forall₂ (Owned g plan r) names owners') :
    owners = owners' := by
  induction h generalizing owners' with
  | nil =>
    cases h'
    rfl
  | cons ho _ ih =>
    cases h' with
    | cons ho' h' => rw [ho.unique ho', ih h']

/-- Without declared associations, ownership is reachability through sources. -/
theorem ownership_is_reachability (g : TraceGraph) (plan : SplitPlan) (r : Runtime) (h : r.associations = .absent) :
    ((∃ e, stateOwnership g plan r = .error e) ↔ Disputed g plan r ∨ Unproven g plan r) ∧
      (∀ owners, stateOwnership g plan r = .ok owners → List.Forall₂ (Owned g plan r) r.state.keys owners) ∧
      ∀ g' : TraceGraph, g'.nodes.Perm g.nodes → ∀ owners,
        stateOwnership g' plan r = .ok owners ↔ stateOwnership g plan r = .ok owners := by
  have hspec := stateOwnership_spec g plan h
  refine ⟨?_, ?_, fun g' hperm owners ↦ ?_⟩
  · obtain ⟨owners, hok, -, hgood⟩ | ⟨hbad, he⟩ := hspec
    · rw [hok]
      simpa using hgood
    · exact ⟨fun _ ↦ hbad, fun _ ↦ he⟩
  · intro owners hok
    obtain ⟨owners', hok', howned, -⟩ | ⟨-, e, he⟩ := hspec
    · rw [hok] at hok'
      cases hok'
      exact howned
    · rw [hok] at he
      cases he
  · have hmem := fun node ↦ hperm.mem_iff (a := node)
    have hspec' := stateOwnership_spec g' plan h
    rw [disputed_congr hmem, unproven_congr hmem] at hspec'
    obtain ⟨owners₁, hok, howned, hgood⟩ | ⟨hbad, e, he⟩ := hspec
    · obtain ⟨owners₂, hok', howned', -⟩ | ⟨hbad, -⟩ := hspec'
      · rw [hok, hok', owners_unique howned (howned'.imp fun _ _ ↦ owned_congr hmem)]
      · exact absurd hbad hgood
    · obtain ⟨owners₂, -, -, hgood⟩ | ⟨-, e', he'⟩ := hspec'
      · exact absurd hbad hgood
      · simp [he, he']

end Owners

section Example

/-- A node of a small graph. -/
def node (id opType : String) (parents : List String) (params : List ParamRef) : Node where
  canonicalId := id
  label := id
  rawLabel := none
  opType := opType
  isInput := false
  isParamSource := false
  isBufferOnlySource := false
  parents := parents
  paramRefs := params
  bufferRefs := []
  resources := []

/-- A parameter that is read in front of its only consumer. -/
def readThenMultiply : TraceGraph where
  nodes := [node "w" "read_variable_op" [] [⟨⟨7, true⟩, []⟩], node "y" "matmul" ["w"] []]
  distinct := by decide

def weightOnly : Runtime where
  state := Dict.ofList [("weight", 7)]
  natives _ := []
  trainables := ["weight"]
  associations := .absent
  defersStatistics := false

theorem ownership_readThenMultiply :
    (∃ e, stateOwnership readThenMultiply ⟨[], ["y"]⟩ weightOnly = .error e) ↔
      Disputed readThenMultiply ⟨[], ["y"]⟩ weightOnly ∨ Unproven readThenMultiply ⟨[], ["y"]⟩ weightOnly :=
  (ownership_is_reachability readThenMultiply ⟨[], ["y"]⟩ weightOnly rfl).1

/-- A model that defers its statistics, with a counter that no node reads. -/
def deferredCounter : Runtime where
  state := Dict.ofList [("count", 1)]
  natives _ := []
  trainables := []
  associations := .absent
  defersStatistics := true

/-- No parent is unresolved, no reference unmatched and no state shared, and still there are no owners. -/
theorem deferred_statistics_raise :
    stateOwnership ⟨[], List.nodup_nil⟩ ⟨[], []⟩ deferredCounter =
        .error (.valueError "Deferred state has no declared ownership association: ['count']") ∧
      ¬ Disputed ⟨[], List.nodup_nil⟩ ⟨[], []⟩ deferredCounter := by
  refine ⟨by decide +kernel, ?_⟩
  rintro (⟨id, hid, -⟩ | ⟨n, hn, -⟩ | ⟨n, hn, -⟩ | ⟨name, -, ⟨c, ⟨hc, -⟩, -⟩, -⟩)
  · cases hid
  · cases hn
  · cases hn
  · cases hc

end Example

end SplitFleet.OwnershipGraph
