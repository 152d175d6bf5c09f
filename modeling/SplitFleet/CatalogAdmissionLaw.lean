import SplitFleet.CatalogAdmission
import SplitFleet.Lib.Errors

set_option autoImplicit false

namespace SplitFleet.OwnershipGraph

open Lib StateOwnership

/-! ### The spans -/

section Spans

variable {handle : ℕ → Option ℕ} {g : TraceGraph}

/-- The node at a position refers to the tensor. -/
def CarriedAt (handle : ℕ → Option ℕ) (g : TraceGraph) (v i : ℕ) : Prop :=
  ∃ node, g.nodes[i]? = some node ∧ ∃ ref ∈ node.refs, handle ref.object = some v

theorem get?_foldl_locate (entries : List (ℕ × Ref)) (d : Dict ℕ (List ℕ)) (v i : ℕ) :
    i ∈ ((entries.foldl (locate handle) d).get? v).getD [] ↔
      i ∈ (d.get? v).getD [] ∨ ∃ ref, (i, ref) ∈ entries ∧ handle ref.object = some v := by
  induction entries generalizing d with
  | nil => simp
  | cons entry entries ih =>
    obtain ⟨j, ref⟩ := entry
    have hlocate : i ∈ ((locate handle d (j, ref)).get? v).getD [] ↔
        i ∈ (d.get? v).getD [] ∨ i = j ∧ handle ref.object = some v := by
      unfold locate
      cases hhandle : handle ref.object with
      | none => simp
      | some value =>
        dsimp only
        rw [Dict.get?_insert]
        by_cases hvalue : value = v
        · subst hvalue
          simp
        · simp [hvalue]
    rw [List.foldl_cons, ih, hlocate, or_assoc]
    simp only [List.mem_cons, Prod.mk.injEq]
    refine or_congr_right ⟨?_, ?_⟩
    · rintro (⟨rfl, h⟩ | ⟨ref', hmem, h⟩)
      · exact ⟨ref, .inl ⟨rfl, rfl⟩, h⟩
      · exact ⟨ref', .inr hmem, h⟩
    · rintro ⟨ref', ⟨rfl, rfl⟩ | hmem, h⟩
      · exact .inl ⟨rfl, h⟩
      · exact .inr ⟨ref', hmem, h⟩

theorem mem_locations (v i : ℕ) : i ∈ ((locations handle g).get? v).getD [] ↔ CarriedAt handle g v i := by
  rw [locations, get?_foldl_locate, CarriedAt]
  simp only [Dict.get?_empty, Option.getD_none, List.not_mem_nil, false_or, List.mem_flatMap, List.mem_map]
  constructor
  · rintro ⟨ref, ⟨⟨node, j⟩, hnode, ref', href, heq⟩, h⟩
    cases heq
    exact ⟨node, List.mem_zipIdx_iff_getElem?.mp hnode, ref, href, h⟩
  · rintro ⟨node, hnode, ref, href, h⟩
    exact ⟨ref, ⟨(node, i), List.mem_zipIdx_iff_getElem?.mpr hnode, ref, href, rfl⟩, h⟩

/-- A cut is rejected where a tensor is carried on both sides of it. -/
theorem sharedAcrossStages_iff (k : ℕ) : sharedAcrossStages handle g k = true ↔
    ∃ v i j, CarriedAt handle g v i ∧ CarriedAt handle g v j ∧ i < k ∧ k ≤ j := by
  have hvalue : ∀ v positions, (locations handle g).get? v = some positions →
      ∀ i, i ∈ positions ↔ CarriedAt handle g v i := by
    intro v positions h i
    rw [← mem_locations, h]
    rfl
  rw [sharedAcrossStages, List.any_eq_true]
  constructor
  · rintro ⟨span, hspan, hcross⟩
    obtain ⟨positions, hpositions, rfl⟩ := List.mem_map.mp hspan
    obtain ⟨v, hv⟩ := (Dict.mem_values_iff _).mp hpositions
    obtain ⟨hfirst, hlast⟩ := of_decide_eq_true hcross
    cases hmin : positions.min? with
    | none =>
      rw [List.min?_eq_none_iff] at hmin
      subst hmin
      exact absurd hlast (Nat.not_le.mpr hfirst)
    | some i =>
      have hne : positions ≠ [] := by
        rintro rfl
        cases hmin
      obtain ⟨j, hmax⟩ := Option.ne_none_iff_exists'.mp (mt List.max?_eq_none_iff.mp hne)
      rw [hmin] at hfirst
      rw [hmax] at hlast
      exact ⟨v, i, j, (hvalue v positions hv i).mp (List.min?_mem hmin),
        (hvalue v positions hv j).mp (List.max?_mem hmax), hfirst, hlast⟩
  · rintro ⟨v, i, j, hi, hj, hik, hkj⟩
    cases hv : (locations handle g).get? v with
    | none =>
      have hmem := (mem_locations v i).mpr hi
      rw [hv] at hmem
      cases hmem
    | some positions =>
      have hi := (hvalue v positions hv i).mpr hi
      have hj := (hvalue v positions hv j).mpr hj
      refine ⟨_, List.mem_map.mpr ⟨positions, (Dict.mem_values_iff _).mpr ⟨v, hv⟩, rfl⟩, decide_eq_true ⟨?_, ?_⟩⟩
      · exact (List.min?_getD_le_of_mem hi).trans_lt hik
      · exact hkj.trans (List.le_max?_getD_of_mem hj)

end Spans

/-! ### Which exception is raised -/

section Exceptions

def NotShared (e : PyError) : Prop := ∀ name, e ≠ sharedError name

theorem head?_toList_append {a b : String} {c : Char} (h : a.toList.head? = some c) :
    (a ++ b).toList.head? = some c := by
  rw [String.toList_append, List.head?_append, h]
  rfl

theorem notShared_of_head {message : String} {c : Char} (h : message.toList.head? = some c) (hc : c ≠ 'S') :
    NotShared (.valueError message) := by
  intro name heq
  have hshared : ("State " ++ pyRepr name ++ " is shared across split stages; disjoint ownership required").toList.head?
      = some 'S' := head?_toList_append (head?_toList_append (by decide))
  rw [← PyError.valueError.inj heq, h] at hshared
  exact hc (Option.some.inj hshared)

theorem notShared_append {a b : String} {c : Char} (h : a.toList.head? = some c) (hc : c ≠ 'S') :
    NotShared (.valueError (a ++ b)) :=
  notShared_of_head (head?_toList_append h) hc

variable {g : TraceGraph} {plan : SplitPlan} {r : Runtime}

theorem buildChildren_notShared : OnlyRaises NotShared (buildChildren g) := by
  refine .foldlM (fun children node _ ↦ .foldlM (fun children parent _ ↦ ?_) children) _
  unfold addChild
  split
  · exact .error (notShared_append (c := 'N') (by decide) (by decide))
  · exact .ok

theorem nodeUses_notShared (children : Dict String (List String)) (node : Node) :
    OnlyRaises NotShared (nodeUses g plan r children node) := by
  refine .bind (.bind (.mapM fun ref _ ↦ .bind (.require ?_) fun _ _ ↦ .ok) fun names _ ↦ .ok) fun names _ ↦ ?_
  · exact notShared_of_head (c := 'N') (by decide) (by decide)
  · split
    · refine .bind (.mapM fun id _ ↦ ?_) fun uses _ ↦ .ok
      unfold consumeChild
      split
      · exact .error fun name heq ↦ by cases heq
      · exact .ok
    · exact .ok

theorem ownerByName_notShared (owners : Dict String Owner) (name : String) :
    OnlyRaises NotShared (ownerByName owners name) := by
  unfold ownerByName
  split
  · exact .ok
  · exact .error fun name heq ↦ by cases heq

theorem declare_notShared (owners : Dict String Owner) (p : String × List String) :
    OnlyRaises NotShared (declare r owners p) := by
  refine .bind (.require ?_) fun _ _ ↦
    .bind (.mapM fun anchor _ ↦ ownerByName_notShared owners anchor) fun anchored _ ↦ ?_
  · exact notShared_append (c := 'I') (by decide) (by decide)
  · split
    · refine .bind (ownerByName_notShared owners p.1) fun current _ ↦ .bind (.require ?_) fun _ _ ↦ .ok
      exact notShared_of_head (head?_toList_append (head?_toList_append (c := 'D') (by decide))) (by decide)
    · exact .error (notShared_of_head (head?_toList_append (head?_toList_append (c := 'D') (by decide))) (by decide))

/-- What comes after the native owners are known. -/
theorem afterNative_notShared (owners : List (String × Owner)) (h : nativeOwners g plan r = .ok owners) :
    OnlyRaises NotShared (stateOwnership g plan r) := by
  unfold stateOwnership
  rw [h, ok_bind]
  refine .bind ?_ fun declared _ ↦ .bind (.require ?_) fun _ _ ↦ .mapM fun name _ ↦ ownerByName_notShared _ name
  · unfold associate
    split
    · exact .ok
    · exact .error fun name heq ↦ by cases heq
    · exact .bind (.foldlM (fun owners p _ ↦ declare_notShared owners p) _) fun _ _ ↦ .ok
  · exact notShared_append (c := 'D') (by decide) (by decide)

theorem ownerOf_raises (used : List (String × Owner)) (name : String) :
    OnlyRaises (fun e ↦ ∃ name, e = sharedError name) (ownerOf used name) :=
  .bind (.require ⟨name, rfl⟩) fun _ _ ↦ .ok

/-- It is raised that a state is shared where one is, every parent is resolved and every reference is matched. -/
theorem raisesShared_iff (hplan : ∀ id ∈ plan.prefixNodeIds, id ∉ plan.suffixNodeIds) : RaisesShared g plan r ↔
    ¬Unresolved g ∧ (¬∃ node ∈ g.nodes, Unmatched r node) ∧ ∃ name ∈ r.state.keys, Shared g plan r name := by
  obtain ⟨owners, hok, hnot, -⟩ | ⟨hdisputed, e, he⟩ := nativeOwners_spec g plan r
  · constructor
    · rintro ⟨name, h⟩
      exact absurd rfl (afterNative_notShared owners hok _ h name)
    · rintro ⟨-, -, hshared⟩
      exact absurd (.inr (.inr (.inr hshared))) hnot
  · have hraises : RaisesShared g plan r ↔ ∃ name, e = sharedError name := by
      have hrun : stateOwnership g plan r = .error e := by
        unfold stateOwnership
        rw [he]
        rfl
      rw [RaisesShared, hrun]
      simp only [Except.error.injEq]
    rw [hraises]
    unfold nativeOwners at he
    rw [require_of hplan, ok_bind] at he
    cases hc : buildChildren g with
    | error e' =>
      rw [hc] at he
      cases he
      constructor
      · rintro ⟨name, rfl⟩
        exact absurd rfl (buildChildren_notShared _ hc name)
      · rintro ⟨hresolved, -⟩
        exact absurd (buildChildren_error.mp ⟨_, hc⟩) hresolved
    | ok children =>
      rw [hc, ok_bind] at he
      have hresolved : ¬Unresolved g := by
        intro hu
        obtain ⟨e', he'⟩ := buildChildren_error.mpr hu
        rw [hc] at he'
        cases he'
      have hmatched : (∃ used, g.nodes.mapM (nodeUses g plan r children) = .ok used) ↔
          ¬∃ node ∈ g.nodes, Unmatched r node := by
        rw [exists_mapM_ok_iff]
        simp only [not_exists, not_and]
        exact forall₂_congr fun node hn ↦ exists_nodeUses plan hc hn
      cases hused : g.nodes.mapM (nodeUses g plan r children) with
      | error e' =>
        rw [hused] at he
        cases he
        constructor
        · rintro ⟨name, rfl⟩
          exact absurd rfl (OnlyRaises.mapM (fun node _ ↦ nodeUses_notShared children node) _ hused name)
        · rintro ⟨-, hm, -⟩
          obtain ⟨used, hok⟩ := hmatched.mpr hm
          rw [hused] at hok
          cases hok
      | ok used =>
        rw [hused, ok_bind] at he
        have hm := hmatched.mp ⟨used, hused⟩
        refine ⟨fun _ ↦ ⟨hresolved, hm, ?_⟩, fun _ ↦ OnlyRaises.mapM (fun name _ ↦ ownerOf_raises _ name) e he⟩
        obtain ⟨id, hid, hid'⟩ | hu | hun | hshared := hdisputed
        · exact absurd hid' (hplan id hid)
        · exact absurd hu hresolved
        · exact absurd hun hm
        · exact hshared

end Exceptions

/-! ### The cut -/

section Cut

variable {g : TraceGraph} {k i j : ℕ} {c p : Node}

theorem getElem?_ids (hc : g.nodes[i]? = some c) : (g.nodes.map (·.canonicalId))[i]? = some c.canonicalId := by
  rw [List.getElem?_map, hc]
  rfl

theorem prefix_disjoint_suffix (id : String) (h : id ∈ (cutAfter g k).prefixNodeIds) :
    id ∉ (cutAfter g k).suffixNodeIds := by
  intro h'
  obtain ⟨i, hi⟩ := List.mem_iff_getElem?.mp (List.mem_of_mem_take h)
  exact absurd ((mem_take_iff_lt g.distinct hi).mp h) (Nat.not_lt.mpr ((mem_drop_iff_le g.distinct hi).mp h'))

/-- A node is in the stage that its position gives. -/
theorem inStage_cutAfter (hc : g.nodes[i]? = some c) (stage : Owner) : InStage (cutAfter g k) stage c.canonicalId ↔
    stage = .prefixStage ∧ i < k ∨ stage = .suffixStage ∧ k ≤ i := by
  have hid := getElem?_ids hc
  rw [inStage_iff, cutAfter, mem_take_iff_lt g.distinct hid, mem_drop_iff_le g.distinct hid]

end Cut

/-! ### Torch graphs -/

namespace TorchCapture

variable (t : TorchCapture) {i j k v : ℕ} {n p c : Node} {name : String}

/-- A value of the state has no identity but its own. -/
theorem nativeIdentities_state (hv : v ∈ t.runtime.state.values) :
    nativeIdentities t.runtime.natives (some v) = [v] := by
  have hnatives : t.runtime.natives v = [] := by
    rw [t.natives, t.state v hv]
    rfl
  simp [nativeIdentities, nativeRounds, visitNative, hnatives]

/-- A reference has its own identity and that of its tensor. -/
theorem nativeIdentities_reference (object : ℕ) :
    nativeIdentities t.runtime.natives (some object) = object :: (t.handle object).toList := by
  have hnatives := t.natives object
  cases hhandle : t.handle object with
  | none =>
    rw [hhandle] at hnatives
    simp [nativeIdentities, nativeRounds, visitNative, hnatives]
  | some tensor =>
    have hnone := t.tensors object tensor hhandle
    have hne : tensor ≠ object := by
      rintro rfl
      rw [hhandle] at hnone
      cases hnone
    have htensor : t.runtime.natives tensor = [] := by
      rw [t.natives, hnone]
      rfl
    rw [hhandle] at hnatives
    simp [nativeIdentities, nativeRounds, visitNative, hnatives, htensor, hne]

theorem refers_iff (hn : n ∈ t.graph.nodes) : Refers t.runtime n name ↔
    ∃ v, t.runtime.state.get? name = some v ∧ ∃ ref ∈ n.refs, t.handle ref.object = some v := by
  unfold Refers
  refine exists_congr fun v ↦ and_congr_right fun hv ↦ ?_
  have hvalue : v ∈ t.runtime.state.values := (Dict.mem_values_iff _).mpr ⟨name, hv⟩
  rw [t.nativeIdentities_state hvalue, t.resources n hn, List.append_nil]
  simp only [List.mem_map, exists_exists_and_eq_and]
  refine exists_congr fun ref ↦ and_congr_right fun href ↦ ?_
  rw [t.nativeIdentities_reference]
  constructor
  · rintro ⟨i, hi, hiv⟩
    obtain rfl := List.mem_singleton.mp hiv
    obtain rfl | hi := List.mem_cons.mp hi
    · exact absurd hvalue (t.references n hn ref href)
    · exact Option.mem_toList.mp hi
  · intro h
    exact ⟨v, List.mem_cons_of_mem _ (Option.mem_toList.mpr h), List.mem_singleton_self v⟩

theorem carriedAt_of_refers (hi : t.graph.nodes[i]? = some n) (hv : t.runtime.state.get? name = some v)
    (h : Refers t.runtime n name) : CarriedAt t.handle t.graph v i := by
  obtain ⟨v', hv', href⟩ := (t.refers_iff (List.mem_of_getElem? hi)).mp h
  rw [hv] at hv'
  cases hv'
  exact ⟨n, hi, href⟩

theorem lt_of_parentOf (hi : t.graph.nodes[i]? = some p) (hj : t.graph.nodes[j]? = some c)
    (h : ParentOf t.graph p c) : i < j := by
  obtain ⟨hil, rfl⟩ := List.getElem?_eq_some_iff.mp hi
  obtain ⟨hjl, rfl⟩ := List.getElem?_eq_some_iff.mp hj
  obtain ⟨-, parent, hparent, hresolves⟩ := h
  exact t.ordered ⟨i, hil⟩ ⟨j, hjl⟩ ⟨parent, hparent, resolve_eq_some_iff.mpr hresolves⟩

theorem le_of_path (hi : t.graph.nodes[i]? = some n) (h : Relation.ReflTransGen (SourceEdge t.graph) n p) :
    ∃ j, t.graph.nodes[j]? = some p ∧ i ≤ j := by
  induction h with
  | refl => exact ⟨i, hi, le_rfl⟩
  | tail _ hedge ih =>
    obtain ⟨j, hj, hij⟩ := ih
    obtain ⟨l, hl⟩ := List.mem_iff_getElem?.mp hedge.1.1
    exact ⟨l, hl, hij.trans (t.lt_of_parentOf hj hl hedge.1).le⟩

/-- A name is consumed among the first nodes. -/
def UsedBefore (k : ℕ) (name : String) : Prop :=
  ∃ i c, t.graph.nodes[i]? = some c ∧ i < k ∧ Consumes t.graph t.runtime name c

/-- From a state source among the first nodes that refers to the name, sources lead to a consumer behind them. -/
def ReadBehind (k : ℕ) (name : String) : Prop :=
  ∃ i n p j c, t.graph.nodes[i]? = some n ∧ i < k ∧ n.isStateSource = true ∧ Refers t.runtime n name ∧
    Relation.ReflTransGen (SourceEdge t.graph) n p ∧ ParentOf t.graph p c ∧ c.isStateSource = false ∧
      t.graph.nodes[j]? = some c ∧ k ≤ j

theorem staged_iff {stage : Owner} : Staged t.graph (cutAfter t.graph k) t.runtime name stage ↔
    ∃ i c, t.graph.nodes[i]? = some c ∧ Consumes t.graph t.runtime name c ∧
      (stage = .prefixStage ∧ i < k ∨ stage = .suffixStage ∧ k ≤ i) := by
  constructor
  · rintro ⟨c, hc, hstage⟩
    obtain ⟨i, hi⟩ := List.mem_iff_getElem?.mp hc.1
    exact ⟨i, c, hi, hc, (inStage_cutAfter hi stage).mp hstage⟩
  · rintro ⟨i, c, hi, hc, hstage⟩
    exact ⟨c, hc, (inStage_cutAfter hi stage).mpr hstage⟩

/-- A consumer has a node at its place or before it that carries the tensor. -/
theorem exists_carriedAt (hi : t.graph.nodes[i]? = some c) (hv : t.runtime.state.get? name = some v)
    (h : Consumes t.graph t.runtime name c) : ∃ l ≤ i, CarriedAt t.handle t.graph v l := by
  obtain ⟨-, -, hrefers | ⟨n, hn, -, hrefers, p, hpath, hparent⟩⟩ := h
  · exact ⟨i, le_rfl, t.carriedAt_of_refers hi hv hrefers⟩
  · obtain ⟨l, hl⟩ := List.mem_iff_getElem?.mp hn
    obtain ⟨m, hm, hlm⟩ := t.le_of_path hl hpath
    exact ⟨l, hlm.trans (t.lt_of_parentOf hm hi hparent).le, t.carriedAt_of_refers hl hv hrefers⟩

theorem shared_iff (hadmitted : sharedAcrossStages t.handle t.graph k = false)
    (hv : t.runtime.state.get? name = some v) :
    Shared t.graph (cutAfter t.graph k) t.runtime name ↔ t.UsedBefore k name ∧ t.ReadBehind k name := by
  have hsame : ∀ i j, CarriedAt t.handle t.graph v i → CarriedAt t.handle t.graph v j → i < k → ¬k ≤ j := by
    intro i j hi hj hik hkj
    have hcross := (sharedAcrossStages_iff k).mpr ⟨v, i, j, hi, hj, hik, hkj⟩
    rw [hadmitted] at hcross
    cases hcross
  have hbefore : Staged t.graph (cutAfter t.graph k) t.runtime name .prefixStage ↔ t.UsedBefore k name := by
    rw [staged_iff]
    simp only [reduceCtorEq, false_and, or_false, true_and, UsedBefore]
    exact exists_congr fun i ↦ exists_congr fun c ↦ and_congr_right fun _ ↦ and_comm
  unfold Shared
  rw [hbefore]
  refine and_congr_right fun hused ↦ ?_
  obtain ⟨i, c, hi, hik, hc⟩ := hused
  obtain ⟨l, hli, hcarried⟩ := t.exists_carriedAt hi hv hc
  have hlk := hli.trans_lt hik
  rw [staged_iff]
  constructor
  · rintro ⟨j, c', hj, ⟨hc', hnonsource, hwhere⟩, ⟨hstage, -⟩ | ⟨-, hkj⟩⟩
    · cases hstage
    · obtain hrefers | ⟨n, hn, hsource, hrefers, p, hpath, hparent⟩ := hwhere
      · exact absurd hkj (hsame l j hcarried (t.carriedAt_of_refers hj hv hrefers) hlk)
      · obtain ⟨m, hm⟩ := List.mem_iff_getElem?.mp hn
        have hmk := hsame l m hcarried (t.carriedAt_of_refers hm hv hrefers) hlk
        exact ⟨m, n, p, j, c', hm, Nat.lt_of_not_le hmk, hsource, hrefers, hpath, hparent, hnonsource, hj, hkj⟩
  · rintro ⟨m, n, p, j, c', hm, -, hsource, hrefers, hpath, hparent, hnonsource, hj, hkj⟩
    exact ⟨j, c', hj, ⟨hparent.1, hnonsource, .inr ⟨n, List.mem_of_getElem? hm, hsource, hrefers, p, hpath, hparent⟩⟩,
      .inr ⟨rfl, hkj⟩⟩

end TorchCapture

/-- A cut that the catalog does not reject for shared state is one that `state_ownership` takes, unless a state is used
before the cut and read behind it through a source. -/
theorem admission_sound_iff (t : TorchCapture) (k : ℕ) (hadmitted : sharedAcrossStages t.handle t.graph k = false) :
    ¬RaisesShared t.graph (cutAfter t.graph k) t.runtime ↔
      Unresolved t.graph ∨ (∃ node ∈ t.graph.nodes, Unmatched t.runtime node) ∨
        ∀ name ∈ t.runtime.state.keys, ¬(t.UsedBefore k name ∧ t.ReadBehind k name) := by
  rw [raisesShared_iff prefix_disjoint_suffix, not_and_or, not_not, not_and_or, not_not]
  refine or_congr_right (or_congr_right ?_)
  rw [not_exists]
  refine forall_congr' fun name ↦ ?_
  rw [not_and]
  refine forall_congr' fun hname ↦ not_congr ?_
  obtain ⟨v, hv⟩ := (Dict.mem_keys_iff _).mp hname
  exact t.shared_iff hadmitted hv

/-- A weight that is read once, for two products. -/
def twiceMultiplied : TorchCapture where
  graph :=
    { nodes := [node "weight_1" "getattr" [] [⟨⟨1, true⟩, []⟩], node "mul_1" "mul" ["weight_1"] [],
        node "mul_2" "mul" ["mul_1", "weight_1"] []]
      distinct := by decide }
  runtime :=
    { state := Dict.ofList [("weight", 7)]
      natives := fun object ↦ (if object = 1 then some 7 else none : Option ℕ).toList
      trainables := ["weight"]
      associations := .absent
      defersStatistics := false }
  handle object := if object = 1 then some 7 else none
  natives _ := rfl
  tensors object t h := by
    split at h
    · cases h
      rfl
    · cases h
  state := by decide
  references := by decide
  resources := by decide
  ordered := by decide +kernel

/-- The cut between the products is not rejected, and no ownership comes of it. -/
theorem twiceMultiplied_admitted :
    sharedAcrossStages twiceMultiplied.handle twiceMultiplied.graph 2 = false ∧
      RaisesShared twiceMultiplied.graph (cutAfter twiceMultiplied.graph 2) twiceMultiplied.runtime :=
  ⟨by decide +kernel, "weight", by decide +kernel⟩

theorem twiceMultiplied_uncut :
    ¬RaisesShared twiceMultiplied.graph (cutAfter twiceMultiplied.graph 3) twiceMultiplied.runtime := by
  refine (admission_sound_iff twiceMultiplied 3 (by decide +kernel)).mpr (.inr (.inr ?_))
  rintro name - ⟨-, i, n, p, j, c, -, -, -, -, -, -, -, hj, hkj⟩
  have hnone : twiceMultiplied.graph.nodes[j]? = none := List.getElem?_eq_none hkj
  rw [hnone] at hj
  cases hj

end SplitFleet.OwnershipGraph
