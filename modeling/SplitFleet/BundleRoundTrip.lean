import SplitFleet.BundleWire
import SplitFleet.EnvelopeRoundTrip

set_option autoImplicit false

namespace SplitFleet.BundleRoundTrip

open Lib Envelope EnvelopeSoundness EnvelopeRoundTrip BundleWire

variable {κ τ : Type} {L : Library} {A : Adapter τ} {str : κ → String}

/-! ### What comes back -/

section Received

variable (str : κ → String)

mutual

/-- The value with every key replaced by its text. -/
def renamed : Value κ τ → Value Json τ
  | .tensor t => .tensor t
  | .none => .none
  | .bool b => .bool b
  | .int z => .int z
  | .float bits => .float bits
  | .str s => .str s
  | .list items => .list (renamedItems items)
  | .tuple items => .tuple (renamedItems items)
  | .dict entries => .dict (renamedEntries entries)
  | .other typeName => .other typeName

def renamedItems : List (Value κ τ) → List (Value Json τ)
  | [] => []
  | v :: items => renamed v :: renamedItems items

def renamedEntries : List (κ × Value κ τ) → List (Json × Value Json τ)
  | [] => []
  | (k, v) :: entries => (.str (str k), renamed v) :: renamedEntries entries

end

mutual

/-- The value with the dictionaries that the comprehension of the decoder makes. -/
def received : Value κ τ → Value Json τ
  | .tensor t => .tensor t
  | .none => .none
  | .bool b => .bool b
  | .int z => .int z
  | .float bits => .float bits
  | .str s => .str s
  | .list items => .list (receivedItems items)
  | .tuple items => .tuple (receivedItems items)
  | .dict entries => .dict (dictOf (receivedEntries entries))
  | .other typeName => .other typeName

def receivedItems : List (Value κ τ) → List (Value Json τ)
  | [] => []
  | v :: items => received v :: receivedItems items

def receivedEntries : List (κ × Value κ τ) → List (Json × Value Json τ)
  | [] => []
  | (k, v) :: entries => (.str (str k), received v) :: receivedEntries entries

end

/-- No dictionary of the value has two keys with one text. -/
inductive Distinct : Value κ τ → Prop
  | tensor (t : τ) : Distinct (.tensor t)
  | none : Distinct .none
  | bool (b : Bool) : Distinct (.bool b)
  | int (z : ℤ) : Distinct (.int z)
  | float (bits : BitVec 64) : Distinct (.float bits)
  | str (s : String) : Distinct (.str s)
  | list (items : List (Value κ τ)) (h : ∀ v ∈ items, Distinct v) : Distinct (.list items)
  | tuple (items : List (Value κ τ)) (h : ∀ v ∈ items, Distinct v) : Distinct (.tuple items)
  | dict (entries : List (κ × Value κ τ)) (hn : (entries.map fun p ↦ str p.1).Nodup)
      (h : ∀ p ∈ entries, Distinct p.2) : Distinct (.dict entries)

end Received

/-- A value of tensors, scalars with finite floats, lists, tuples and dictionaries. -/
inductive Supported : Value κ τ → Prop
  | tensor (t : τ) : Supported (.tensor t)
  | none : Supported .none
  | bool (b : Bool) : Supported (.bool b)
  | int (z : ℤ) : Supported (.int z)
  | float (bits : BitVec 64) (h : Json.finiteBits bits = true) : Supported (.float bits)
  | str (s : String) : Supported (.str s)
  | list (items : List (Value κ τ)) (h : ∀ v ∈ items, Supported v) : Supported (.list items)
  | tuple (items : List (Value κ τ)) (h : ∀ v ∈ items, Supported v) : Supported (.tuple items)
  | dict (entries : List (κ × Value κ τ)) (h : ∀ p ∈ entries, Supported p.2) : Supported (.dict entries)

theorem renamedItems_eq (items : List (Value κ τ)) : renamedItems str items = items.map (renamed str) := by
  induction items with
  | nil => rfl
  | cons v items ih => rw [renamedItems, ih, List.map_cons]

theorem receivedItems_eq (items : List (Value κ τ)) : receivedItems str items = items.map (received str) := by
  induction items with
  | nil => rfl
  | cons v items ih => rw [receivedItems, ih, List.map_cons]

theorem renamedEntries_eq (entries : List (κ × Value κ τ)) :
    renamedEntries str entries = entries.map fun p ↦ (.str (str p.1), renamed str p.2) := by
  induction entries with
  | nil => rfl
  | cons p entries ih =>
    obtain ⟨k, v⟩ := p
    rw [renamedEntries, ih, List.map_cons]

theorem receivedEntries_eq (entries : List (κ × Value κ τ)) :
    receivedEntries str entries = entries.map fun p ↦ (.str (str p.1), received str p.2) := by
  induction entries with
  | nil => rfl
  | cons p entries ih =>
    obtain ⟨k, v⟩ := p
    rw [receivedEntries, ih, List.map_cons]

/-! ### Dictionaries with texts as keys -/

section Texts

variable {α : Type}

def texted (l : List (String × α)) : List (Json × α) := l.map fun p ↦ (.str p.1, p.2)

theorem setItem_texted (l : List (String × α)) (k : String) (v : α) :
    setItem (texted l) (.str k) v = texted (Dict.assign l k v) := by
  induction l with
  | nil => rfl
  | cons p l ih =>
    obtain ⟨a, w⟩ := p
    by_cases ha : a = k
    · simp [texted, setItem, Dict.assign, sameKey, ha]
    · simpa [texted, setItem, Dict.assign, sameKey, ha] using ih

theorem foldl_setItem_texted (l : List (String × α)) (d : Dict String α) :
    (texted l).foldl (fun entries p ↦ setItem entries p.1 p.2) (texted d.entries) =
      texted (l.foldl (fun d p ↦ d.insert p.1 p.2) d).entries := by
  induction l generalizing d with
  | nil => rfl
  | cons p l ih =>
    rw [List.foldl_cons, ← ih]
    simp only [texted, List.map_cons, List.foldl_cons]
    rw [← texted, setItem_texted]
    rfl

theorem dictOf_texted (l : List (String × α)) : dictOf (texted l) = texted (Dict.ofList l).entries :=
  foldl_setItem_texted l Dict.empty

/-- The comprehension keeps as many entries as it is given exactly where their keys are distinct. -/
theorem dictOf_texted_cases (l : List (String × α)) :
    ((l.map Prod.fst).Nodup ∧ dictOf (texted l) = texted l) ∨
      (¬ (l.map Prod.fst).Nodup ∧ (dictOf (texted l)).length < l.length) := by
  rw [dictOf_texted]
  by_cases hn : (l.map Prod.fst).Nodup
  · exact .inl ⟨hn, by rw [Dict.entries_ofList hn]⟩
  · refine .inr ⟨hn, ?_⟩
    have hsub : (Dict.ofList l).keys ⊆ (l.map Prod.fst).dedup := by
      intro k hk
      obtain ⟨v, hv⟩ := (Dict.mem_keys_iff _).mp hk
      exact List.mem_dedup.mpr (List.mem_map_of_mem (Dict.mem_of_get?_ofList hv))
    have hle : (Dict.ofList l).keys.length ≤ (l.map Prod.fst).dedup.length :=
      ((Dict.ofList l).nodup.subperm hsub).length_le
    have hlt : (l.map Prod.fst).dedup.length < (l.map Prod.fst).length := by
      refine lt_of_le_of_ne (List.dedup_sublist _).length_le fun he ↦ hn ?_
      rw [← (List.dedup_sublist _).eq_of_length he]
      exact List.nodup_dedup _
    rw [Dict.keys, List.length_map] at hle
    rw [List.length_map] at hlt
    rw [texted, List.length_map]
    omega

end Texts

/-- The decoder gives the value back with the texts of its keys exactly where no two keys of a
dictionary have one text. -/
theorem received_eq_renamed_iff {v : Value κ τ} (h : Supported v) :
    received str v = renamed str v ↔ Distinct str v := by
  induction h with
  | tensor t => exact iff_of_true rfl (.tensor t)
  | none => exact iff_of_true rfl .none
  | bool b => exact iff_of_true rfl (.bool b)
  | int z => exact iff_of_true rfl (.int z)
  | float bits => exact iff_of_true rfl (.float bits)
  | str s => exact iff_of_true rfl (.str s)
  | list items _ ih =>
    rw [received, renamed, Value.list.injEq, receivedItems_eq, renamedItems_eq, List.map_inj_left]
    constructor
    · exact fun he ↦ .list items fun v hv ↦ (ih v hv).mp (he v hv)
    · intro hd v hv
      cases hd with
      | list _ hd => exact (ih v hv).mpr (hd v hv)
  | tuple items _ ih =>
    rw [received, renamed, Value.tuple.injEq, receivedItems_eq, renamedItems_eq, List.map_inj_left]
    constructor
    · exact fun he ↦ .tuple items fun v hv ↦ (ih v hv).mp (he v hv)
    · intro hd v hv
      cases hd with
      | tuple _ hd => exact (ih v hv).mpr (hd v hv)
  | dict entries _ ih =>
    have hkeys : (entries.map fun p ↦ (str p.1, received str p.2)).map Prod.fst = entries.map fun p ↦ str p.1 := by
      rw [List.map_map]
      rfl
    have htexted : receivedEntries str entries = texted (entries.map fun p ↦ (str p.1, received str p.2)) := by
      rw [receivedEntries_eq, texted, List.map_map]
      rfl
    rw [received, renamed, Value.dict.injEq, htexted, renamedEntries_eq]
    have hcases := dictOf_texted_cases (entries.map fun p ↦ (str p.1, received str p.2))
    rw [hkeys] at hcases
    rcases hcases with ⟨hn, he⟩ | ⟨hn, hlt⟩
    · rw [he, texted, List.map_map, List.map_inj_left]
      constructor
      · intro hall
        refine .dict entries hn fun p hp ↦ (ih p hp).mp ?_
        exact (Prod.mk.inj (hall p hp)).2
      · intro hd p hp
        cases hd with
        | dict _ _ hd => exact Prod.ext rfl ((ih p hp).mpr (hd p hp))
    · refine iff_of_false (fun he ↦ ?_) fun hd ↦ ?_
      · rw [he, List.length_map, List.length_map] at hlt
        exact lt_irrefl _ hlt
      · cases hd with
        | dict _ hn' _ => exact hn hn'

/-! ### The tree -/

/-- Encoding a tensor under an identifier gives an envelope with it, from which the tensor is
decoded. -/
def Faithful (A : Adapter τ) : Prop :=
  ∀ id t e, id ≠ "" → A.encodeTensor id t = .ok e →
    e.tensorId = .str id ∧ TensorEnvelope.Typed e ∧ A.decodeTensor e = .ok t

/-- The tensors have their places as identifiers. -/
def Numbered (tensors : List TensorEnvelope) : Prop :=
  ∀ (i : ℕ) e, tensors[i]? = some e → e.tensorId = .str (toString i) ∧ TensorEnvelope.Typed e

/-- The turn of the comprehension for one entry. -/
def visitPair (L : Library) (A : Adapter τ) (tensors : List TensorEnvelope) (depth : ℕ) (item : Json) :
    Except PyError (Json × Value Json τ) := do
  let (key, value) ← unpackPair item
  let child ← visitNode L A tensors depth value
  checkHashable key
  return (key, child)

section Nodes

variable (all : List TensorEnvelope) (d : ℕ)

theorem visitNode_tensor {i : ℕ} {e : TensorEnvelope} {t : τ} (he : all[i]? = some e)
    (ht : A.decodeTensor e = .ok t) :
    visitNode L A all (d + 1) (.obj [("tensor", .int i)]) = .ok (.tensor t) := by
  simp [visitNode, contains, getItem, Dict.lookup, pyInt, he, ht]

theorem visitNode_scalar (j : Json) :
    visitNode L A all (d + 1) (.obj [("scalar", j)]) = .ok (ofJson j) := by
  simp [visitNode, contains, getItem, Dict.lookup]

theorem visitNode_list (nodes : List Json) :
    visitNode L A all (d + 1) (.obj [("list", .arr nodes)]) =
      (nodes.mapM (visitNode L A all d) >>= fun items ↦ .ok (.list items)) := by
  simp [visitNode, contains, getItem, Dict.lookup, pyTuple]
  rfl

theorem visitNode_tuple (nodes : List Json) :
    visitNode L A all (d + 1) (.obj [("tuple", .arr nodes)]) =
      (nodes.mapM (visitNode L A all d) >>= fun items ↦ .ok (.tuple items)) := by
  simp [visitNode, contains, getItem, Dict.lookup, pyTuple]
  rfl

theorem visitNode_dict (nodes : List Json) :
    visitNode L A all (d + 1) (.obj [("dict", .arr nodes)]) =
      (nodes.mapM (visitPair L A all d) >>= fun pairs ↦ .ok (.dict (dictOf pairs))) := by
  simp [visitNode, contains, getItem, Dict.lookup, pyTuple]
  rfl

theorem visitPair_eq (k : String) (node : Json) :
    visitPair L A all d (.arr [.str k, node]) = (visitNode L A all d node >>= fun child ↦ .ok (.str k, child)) :=
  rfl

end Nodes

/-- A part of the tree: the tensors go on from `ts` to `ts'`, and once they are all there, the
decoder `f` gives `out` for the node, at any depth that suffices. -/
structure Sent {β : Type} (f : List TensorEnvelope → ℕ → Json → Except PyError β) (ts : List TensorEnvelope)
    (node : Json) (ts' : List TensorEnvelope) (out : β) : Prop where
  appends : ts <+: ts'
  numbered : Numbered ts → Numbered ts'
  normal : Json.Normal node
  sorted : node.sorted = node
  decodes : ∃ depth, ∀ d, depth ≤ d → ∀ all, ts' <+: all → f all d node = .ok out

/-- The same for a list of nodes. -/
structure SentAll {β : Type} (f : List TensorEnvelope → ℕ → Json → Except PyError β) (ts : List TensorEnvelope)
    (nodes : List Json) (ts' : List TensorEnvelope) (outs : List β) : Prop where
  appends : ts <+: ts'
  numbered : Numbered ts → Numbered ts'
  normal : ∀ node ∈ nodes, Json.Normal node
  sorted : ∀ node ∈ nodes, node.sorted = node
  decodes : ∃ depth, ∀ d, depth ≤ d → ∀ all, ts' <+: all → nodes.mapM (f all d) = .ok outs

section Sent

variable {β : Type} {f : List TensorEnvelope → ℕ → Json → Except PyError β} {ts ts₁ ts' : List TensorEnvelope}
  {node : Json} {nodes : List Json} {out : β} {outs : List β}

theorem SentAll.nil : SentAll f ts [] ts [] where
  appends := List.prefix_refl ts
  numbered := id
  normal _ h := absurd h List.not_mem_nil
  sorted _ h := absurd h List.not_mem_nil
  decodes := ⟨0, fun _ _ _ _ ↦ rfl⟩

theorem SentAll.cons (h : Sent f ts node ts₁ out) (hs : SentAll f ts₁ nodes ts' outs) :
    SentAll f ts (node :: nodes) ts' (out :: outs) where
  appends := h.appends.trans hs.appends
  numbered hn := hs.numbered (h.numbered hn)
  normal n hn := (List.mem_cons.mp hn).elim (fun he ↦ he ▸ h.normal) (hs.normal n)
  sorted n hn := (List.mem_cons.mp hn).elim (fun he ↦ he ▸ h.sorted) (hs.sorted n)
  decodes := by
    obtain ⟨d₁, h₁⟩ := h.decodes
    obtain ⟨d₂, h₂⟩ := hs.decodes
    refine ⟨max d₁ d₂, fun d hd all hall ↦ ?_⟩
    have hfirst := h₁ d (le_of_max_le_left hd) all (hs.appends.trans hall)
    have hothers := h₂ d (le_of_max_le_right hd) all hall
    rw [List.mapM_cons, hfirst, ok_bind, hothers, ok_bind]
    rfl

/-- A node that holds a list of nodes under one name. -/
theorem SentAll.under {name : String} {γ : Type} {g : List TensorEnvelope → ℕ → Json → Except PyError γ} {res : γ}
    (h : SentAll f ts nodes ts' outs)
    (hg : ∀ all d, nodes.mapM (f all d) = .ok outs → g all (d + 1) (.obj [(name, .arr nodes)]) = .ok res) :
    Sent g ts (.obj [(name, .arr nodes)]) ts' res where
  appends := h.appends
  numbered := h.numbered
  normal := .obj _ (List.nodup_singleton _) fun p hp ↦ List.mem_singleton.mp hp ▸ .arr _ h.normal
  sorted := by
    have hmap : nodes.map Json.sorted = nodes := by
      refine (List.map_congr_left h.sorted).trans ?_
      exact List.map_id _
    rw [Json.sorted_obj, List.map_singleton, Json.sorted_arr, hmap]
    exact congrArg Json.obj (List.mergeSort_singleton _)
  decodes := by
    obtain ⟨depth, hd⟩ := h.decodes
    refine ⟨depth + 1, fun d hle all hall ↦ ?_⟩
    obtain ⟨n, rfl⟩ := Nat.exists_eq_add_of_le' hle
    exact hg all (n + depth) (hd (n + depth) (Nat.le_add_left _ _) all hall)

/-- A leaf, which leaves the tensors as they are. -/
theorem Sent.scalar {j : Json} (hn : Json.Normal j) (hs : j.sorted = j) :
    Sent (visitNode L A) ts (.obj [("scalar", j)]) ts (ofJson j) where
  appends := List.prefix_refl ts
  numbered := id
  normal := .obj _ (List.nodup_singleton _) fun p hp ↦ List.mem_singleton.mp hp ▸ hn
  sorted := by
    rw [Json.sorted_obj, List.map_singleton, hs]
    exact congrArg Json.obj (List.mergeSort_singleton _)
  decodes := by
    refine ⟨1, fun d hd all _ ↦ ?_⟩
    obtain ⟨n, rfl⟩ := Nat.exists_eq_add_of_le' hd
    exact visitNode_scalar all n j

theorem Numbered.append {e : TensorEnvelope} (h : Numbered ts) (hid : e.tensorId = .str (toString ts.length))
    (he : TensorEnvelope.Typed e) : Numbered (ts ++ [e]) := by
  intro i u hu
  rcases Nat.lt_or_ge i ts.length with hi | hi
  · rw [List.getElem?_append_left hi] at hu
    exact h i u hu
  · rw [List.getElem?_append_right hi] at hu
    obtain ⟨hlt, hget⟩ := List.getElem?_eq_some_iff.mp hu
    have hi : i = ts.length := by
      rw [List.length_singleton] at hlt
      omega
    subst hi
    simp only [Nat.sub_self, List.getElem_cons_zero] at hget
    exact hget ▸ ⟨hid, he⟩

theorem toString_ne_empty (n : ℕ) : toString n ≠ "" := by
  intro h
  have := congrArg String.toList h
  simp at this

theorem toString_injective {m n : ℕ} (h : toString m = toString n) : m = n := by
  have hdigits : Nat.toDigits 10 m = Nat.toDigits 10 n := by
    simpa [toString, Nat.repr] using congrArg String.toList h
  simpa using congrArg (fun l ↦ Nat.ofDigitChars 10 l 0) hdigits

theorem Sent.tensor (hA : Faithful A) {t : τ} {e : TensorEnvelope}
    (he : A.encodeTensor (toString ts.length) t = .ok e) :
    Sent (visitNode L A) ts (.obj [("tensor", .int ts.length)]) (ts ++ [e]) (.tensor t) where
  appends := List.prefix_append ts [e]
  numbered hn := by
    obtain ⟨hid, htyped, -⟩ := hA _ t e (toString_ne_empty _) he
    exact hn.append hid htyped
  normal := .obj _ (List.nodup_singleton _) fun p hp ↦ List.mem_singleton.mp hp ▸ .int _
  sorted := by
    rw [Json.sorted_obj, List.map_singleton]
    exact congrArg Json.obj (List.mergeSort_singleton _)
  decodes := by
    refine ⟨1, fun d hd all hall ↦ ?_⟩
    obtain ⟨n, rfl⟩ := Nat.exists_eq_add_of_le' hd
    obtain ⟨rest, rfl⟩ := hall
    apply visitNode_tensor
    · rw [List.append_assoc, List.getElem?_append_right (Nat.le_refl _), Nat.sub_self]
      rfl
    · exact (hA _ t e (toString_ne_empty _) he).2.2

/-- The entry of a dictionary. -/
theorem Sent.pair (k : String) {v : Value Json τ} (h : Sent (visitNode L A) ts node ts' v) :
    Sent (visitPair L A) ts (.arr [.str k, node]) ts' (.str k, v) where
  appends := h.appends
  numbered := h.numbered
  normal := by
    refine .arr _ fun j hj ↦ ?_
    rcases List.mem_cons.mp hj with rfl | hj
    · exact .str k
    · exact List.mem_singleton.mp hj ▸ h.normal
  sorted := by
    rw [Json.sorted_arr, List.map_cons, List.map_singleton, h.sorted]
    rfl
  decodes := by
    obtain ⟨depth, hd⟩ := h.decodes
    refine ⟨depth, fun d hle all hall ↦ ?_⟩
    rw [visitPair_eq, hd d hle all hall, ok_bind]

end Sent

/-! ### The walk of the encoder -/

theorem visitItems_sent {items : List (Value κ τ)}
    (h : ∀ v ∈ items, ∀ ts node ts', visit A str v ts = .ok (node, ts') →
      Sent (visitNode L A) ts node ts' (received str v))
    {ts ts' : List TensorEnvelope} {nodes : List Json} (hv : visitItems A str items ts = .ok (nodes, ts')) :
    SentAll (visitNode L A) ts nodes ts' (receivedItems str items) := by
  induction items generalizing ts nodes with
  | nil =>
    cases hv
    exact .nil
  | cons v items ih =>
    rw [visitItems] at hv
    obtain ⟨⟨node, ts₁⟩, hnode, hv⟩ := bind_eq_ok hv
    obtain ⟨⟨rest, ts₂⟩, hrest, hv⟩ := bind_eq_ok hv
    cases hv
    exact .cons (h v List.mem_cons_self ts node ts₁ hnode)
      (ih (fun w hw ↦ h w (List.mem_cons_of_mem v hw)) hrest)

theorem visitEntries_sent {entries : List (κ × Value κ τ)}
    (h : ∀ p ∈ entries, ∀ ts node ts', visit A str p.2 ts = .ok (node, ts') →
      Sent (visitNode L A) ts node ts' (received str p.2))
    {ts ts' : List TensorEnvelope} {nodes : List Json} (hv : visitEntries A str entries ts = .ok (nodes, ts')) :
    SentAll (visitPair L A) ts nodes ts' (receivedEntries str entries) := by
  induction entries generalizing ts nodes with
  | nil =>
    cases hv
    exact .nil
  | cons p entries ih =>
    obtain ⟨k, v⟩ := p
    rw [visitEntries] at hv
    obtain ⟨⟨node, ts₁⟩, hnode, hv⟩ := bind_eq_ok hv
    obtain ⟨⟨rest, ts₂⟩, hrest, hv⟩ := bind_eq_ok hv
    cases hv
    exact .cons (.pair (str k) (h (k, v) List.mem_cons_self ts node ts₁ hnode))
      (ih (fun q hq ↦ h q (List.mem_cons_of_mem _ hq)) hrest)

/-- The decoder gives back what the encoder walked through. -/
theorem visit_sent (hA : Faithful A) {v : Value κ τ} (h : Supported v) {ts ts' : List TensorEnvelope} {node : Json}
    (hv : visit A str v ts = .ok (node, ts')) : Sent (visitNode L A) ts node ts' (received str v) := by
  induction h generalizing ts node ts' with
  | tensor t =>
    rw [visit] at hv
    obtain ⟨e, he, hv⟩ := bind_eq_ok hv
    cases hv
    exact .tensor hA he
  | none =>
    cases hv
    exact .scalar .null rfl
  | bool b =>
    cases hv
    exact .scalar (.bool b) rfl
  | int z =>
    cases hv
    exact .scalar (.int z) rfl
  | float bits hfinite =>
    cases hv
    exact .scalar (.float bits hfinite) rfl
  | str s =>
    cases hv
    exact .scalar (.str s) rfl
  | list items _ ih =>
    rw [visit] at hv
    obtain ⟨⟨nodes, ts₁⟩, hnodes, hv⟩ := bind_eq_ok hv
    cases hv
    refine (visitItems_sent (fun v hm ts node ts' ↦ ih v hm) hnodes).under fun all d hall ↦ ?_
    rw [visitNode_list, hall, ok_bind, received]
  | tuple items _ ih =>
    rw [visit] at hv
    obtain ⟨⟨nodes, ts₁⟩, hnodes, hv⟩ := bind_eq_ok hv
    cases hv
    refine (visitItems_sent (fun v hm ts node ts' ↦ ih v hm) hnodes).under fun all d hall ↦ ?_
    rw [visitNode_tuple, hall, ok_bind, received]
  | dict entries _ ih =>
    rw [visit] at hv
    obtain ⟨⟨nodes, ts₁⟩, hnodes, hv⟩ := bind_eq_ok hv
    cases hv
    refine (visitEntries_sent (fun p hm ts node ts' ↦ ih p hm) hnodes).under fun all d hall ↦ ?_
    rw [visitNode_dict, hall, ok_bind, received]

/-! ### The wire -/

/-- The compression that an argument stands for. -/
def mode (compression : String) : String := if compression = "" then "none" else compression

/-- The bundle of a value, and the envelope that it travels in, are within the limits. -/
def WithinLimits (L : Library) (create : Json → Except PyError (Adapter τ)) (str : κ → String)
    (limits : EnvelopeLimits) (value : Value κ τ) (compression backend : String) : Prop :=
  ∀ bundle text, encodeBundle L create str value backend = .ok bundle →
    utf8Decode bundle.structureBytes = .ok text →
    bundle.structureBytes.length ≤ 1024 * 1024 ∧
      Fits limits
        (wireHeader L "boundary" (bundleEnvelope bundle.tensors text backend).asdict bundle.tensors (mode compression))
        bundle.tensors

/-- An accepted compression. -/
theorem encodeBoundary_mode_of_ok {e : BoundaryEnvelope} {c : String} {wire : Bytes}
    (hown : e.compression = .str "none") (h : encodeBoundary L e (some c) = .ok wire) :
    (mode c = "none" ∨ mode c = "lz4") ∧ encodeBoundary L e (some (mode c)) = .ok wire := by
  by_cases hc : c = ""
  · subst hc
    rw [encodeBoundary, chosen, if_pos rfl, hown] at h
    exact ⟨.inl rfl, h⟩
  · have hmode : mode c = c := if_neg hc
    rw [hmode]
    refine ⟨?_, h⟩
    rw [encodeBoundary, chosen, if_neg hc] at h
    obtain ⟨_, hcheck, -⟩ := bind_eq_ok h
    have hcheck := of_require hcheck
    simpa [isText] using hcheck

theorem sendable_of_numbered {tensors : List TensorEnvelope} (h : Numbered tensors) : Sendable tensors where
  typed := by
    intro t ht
    obtain ⟨i, hi, rfl⟩ := List.getElem_of_mem ht
    exact (h i _ (List.getElem?_eq_getElem hi)).2
  distinct := by
    rw [List.nodup_iff_getElem?_ne_getElem?]
    intro i j hij hj he
    rw [List.length_map] at hj
    have hi : i < tensors.length := hij.trans hj
    rw [List.getElem?_map, List.getElem?_map, List.getElem?_eq_getElem hi, List.getElem?_eq_getElem hj] at he
    simp only [Option.map_some, Option.some.injEq, (h i _ (List.getElem?_eq_getElem hi)).1,
      (h j _ (List.getElem?_eq_getElem hj)).1, Json.str.injEq] at he
    exact hij.ne (toString_injective he)

theorem bundleEnvelope_typed {tensors : List TensorEnvelope} (h : Sendable tensors) (text backend : String) :
    BoundaryEnvelope.Typed (bundleEnvelope tensors text backend) where
  tensors := h
  version := rfl
  texts := by simp [bundleEnvelope]
  numbers := by simp [bundleEnvelope]
  metadata := ⟨_, rfl⟩
  normal := .obj _ (List.nodup_singleton _) fun p hp ↦ List.mem_singleton.mp hp ▸ .str text
  visible := by
    refine .obj _ (fun p hp ↦ ?_) fun p hp ↦ List.mem_singleton.mp hp ▸ .str text
    rw [List.mem_singleton.mp hp]
    show isHidden "structure" = false
    decide

/-- What the decoder makes of an encoded value. -/
theorem decodeBundleWire_eq (hjson : JsonInverse L) (hlz4 : L.lz4.Undoes L.compress)
    (hframe : ∀ b, 4 ≤ (L.compress b).length) {create : Json → Except PyError (Adapter τ)} {limits : EnvelopeLimits}
    {value : Value κ τ} (hv : Supported value) {compression backend : String}
    (hA : ∀ A, create (.str backend) = .ok A → Faithful A) {wire : Bytes}
    (hwire : encodeBundleWire L create str value compression backend = .ok wire)
    (hwithin : WithinLimits L create str limits value compression backend)
    (hw : wire.length ≤ limits.maxWireBytes) :
    ∃ turns depth, ∀ fuel, turns ≤ fuel → ∀ d, depth ≤ d →
      decodeBundleWire L create fuel d wire limits = some (.ok (received str value)) := by
  obtain ⟨bundle, hbundle, hwire⟩ := bind_eq_ok hwire
  obtain ⟨text, htext, hwire⟩ := bind_eq_ok hwire
  obtain ⟨hstructure, hfits⟩ := hwithin bundle text hbundle htext
  obtain ⟨A, hcreate, hbundle⟩ := bind_eq_ok hbundle
  obtain ⟨⟨tree, tensors⟩, hvisit, hbundle⟩ := bind_eq_ok hbundle
  cases hbundle
  rw [utf8Decode_utf8] at htext
  cases htext
  have hsent := @visit_sent κ τ L A str (hA A hcreate) value hv [] tensors tree hvisit
  have hnumbered : Numbered tensors := hsent.numbered fun i e he ↦ by simp at he
  have htyped := bundleEnvelope_typed (sendable_of_numbered hnumbered) (L.dumps tree) backend
  obtain ⟨hmode, hwire⟩ := encodeBoundary_mode_of_ok rfl hwire
  obtain ⟨turns, hturns⟩ := boundary_round_trip hjson hlz4 hframe hmode htyped hfits hwire hw
  obtain ⟨depth, hdepth⟩ := hsent.decodes
  refine ⟨turns, depth, fun fuel hfuel d hd ↦ ?_⟩
  have hloads : L.loads (L.dumps tree) = .ok tree := by
    rw [hjson tree hsent.normal, hsent.sorted]
  have hopen : decodeBundle L create d ⟨tensors, utf8 (L.dumps tree)⟩ (.str backend) = .ok (received str value) := by
    rw [decodeBundle, hcreate, ok_bind, require_of hstructure, ok_bind, utf8Decode_utf8, ok_bind, hloads, ok_bind]
    exact hdepth d hd tensors (List.prefix_refl _)
  have hmetadata : (Json.obj [("structure", .str (L.dumps tree))]).sorted =
      .obj [("structure", .str (L.dumps tree))] := by
    rw [Json.sorted_obj]
    exact congrArg Json.obj (List.mergeSort_singleton _)
  rw [decodeBundleWire, hturns fuel hfuel, Option.map_some, ok_bind]
  refine congrArg some ?_
  simp only [BoundaryEnvelope.received, bundleEnvelope, hmetadata]
  exact hopen

/-- An encoded value comes back with the texts of its keys exactly where no dictionary of it has two
keys with one text. -/
theorem bundle_round_trip_iff (L : Library) (hjson : JsonInverse L) (hlz4 : L.lz4.Undoes L.compress)
    (hframe : ∀ b, 4 ≤ (L.compress b).length) (create : Json → Except PyError (Adapter τ)) (str : κ → String)
    (limits : EnvelopeLimits) (value : Value κ τ) (hv : Supported value) (compression backend : String)
    (hA : ∀ A, create (.str backend) = .ok A → Faithful A) (wire : Bytes)
    (hwire : encodeBundleWire L create str value compression backend = .ok wire)
    (hwithin : WithinLimits L create str limits value compression backend)
    (hw : wire.length ≤ limits.maxWireBytes) :
    ∃ turns depth, ∀ fuel, turns ≤ fuel → ∀ d, depth ≤ d →
      (decodeBundleWire L create fuel d wire limits = some (.ok (renamed str value)) ↔ Distinct str value) := by
  obtain ⟨turns, depth, h⟩ := decodeBundleWire_eq hjson hlz4 hframe hv hA hwire hwithin hw
  refine ⟨turns, depth, fun fuel hfuel d hd ↦ ?_⟩
  rw [h fuel hfuel d hd, Option.some.injEq, Except.ok.injEq]
  exact received_eq_renamed_iff hv

/-! A value with a tensor of bytes and a dictionary that has the keys `1` and `"1"`. -/

def sampleKey : ℤ ⊕ String → String
  | .inl z => toString z
  | .inr s => s

def sampleValue : Value (ℤ ⊕ String) Bytes :=
  .list [.tensor [1, 2], .dict [(.inl 1, .none), (.inr "1", .bool true)]]

/-- The codec of vectors of type `uint8`. -/
def bytesAdapter : Adapter Bytes where
  encodeTensor id t := .ok { tensorId := .str id, shape := [.int t.length], dtype := .str "uint8", payload := t }
  decodeTensor e := .ok e.payload

def sampleTree : Json :=
  .obj [("list", .arr [.obj [("tensor", .int 0)],
    .obj [("dict", .arr [.arr [.str "1", .obj [("scalar", .null)]], .arr [.str "1", .obj [("scalar", .bool true)]]])]])]

def treeText : String :=
  "\x7b\"list\":[\x7b\"tensor\":0\x7d,\x7b\"dict\":[[\"1\",\x7b\"scalar\":null\x7d],[\"1\"," ++
    "\x7b\"scalar\":true\x7d]]\x7d]\x7d"

def bundleText : String :=
  "\x7b\"backend\":\"torch\",\"batch_size\":0,\"boundary_schema_hash\":\"\"," ++
    "\"canonical_graph_hash\":\"\"," ++
    "\"checksum\":\"a12871fee210fb8619291eaea194581cbd2531e4b23759d225f6806923f63222\"," ++
    "\"client_id\":\"\",\"compression\":\"none\",\"engine\":\"bundle\",\"kind\":\"boundary\"," ++
    "\"metadata\":\x7b\"structure\":\"\x7b\\\"list\\\":[\x7b\\\"tensor\\\":0\x7d," ++
    "\x7b\\\"dict\\\":[[\\\"1\\\",\x7b\\\"scalar\\\":null\x7d],[\\\"1\\\"," ++
    "\x7b\\\"scalar\\\":true\x7d]]\x7d]\x7d\"\x7d,\"model_version\":0,\"plan_id\":\"\"," ++
    "\"protocol_version\":\"splitfleet-wire.v1\",\"round_id\":0,\"split_id\":\"\"," ++
    "\"step_id\":\"\",\"tensors\":[\x7b\"dtype\":\"uint8\",\"encoding\":\"raw-le\"," ++
    "\"layout\":\"contiguous\",\"nbytes\":2,\"requires_grad\":false,\"shape\":[2]," ++
    "\"tensor_id\":\"0\"\x7d]\x7d"

def bundleHeader : Json :=
  .obj (headerOf sampleLibrary "boundary" (bundleEnvelope [sampleTensor] treeText "torch").asdict [sampleTensor]
    (.str "none"))

theorem bundle_texts : ∃ (dumps : Json → String) (loads : String → Except PyError Json),
    (dumps sampleTree = treeText ∧ dumps bundleHeader = bundleText) ∧ ∀ j, loads (dumps j) = .ok j.sorted := by
  classical
  have hne : bundleHeader ≠ sampleTree := by
    simp [bundleHeader, sampleTree, headerOf, bundleEnvelope, BoundaryEnvelope.asdict, Dict.assign]
  obtain ⟨dumps, loads, hgiven, hall⟩ := Json.exists_texts
    (fun j ↦ if j = sampleTree then some treeText else if j = bundleHeader then some bundleText else none)
    (bundleText.length + treeText.length)
    (by
      intro j s h
      split_ifs at h
      · cases h
        exact Nat.le_add_left _ _
      · cases h
        exact Nat.le_add_right _ _)
    (by
      intro j k s hj hk
      have hne : treeText ≠ bundleText := by decide +kernel
      split_ifs at hj hk with h₁ h₂ h₃ h₄
      all_goals simp_all)
  exact ⟨dumps, loads, ⟨hgiven _ _ (if_pos rfl), hgiven _ _ ((if_neg hne).trans (if_pos rfl))⟩, hall⟩

noncomputable def bundleLibrary : Library :=
  { sampleLibrary with dumps := bundle_texts.choose, loads := bundle_texts.choose_spec.choose }

theorem bundleLibrary_json : (bundleLibrary.dumps sampleTree = treeText ∧
    bundleLibrary.dumps bundleHeader = bundleText) ∧ JsonInverse bundleLibrary := by
  obtain ⟨htexts, hall⟩ := bundle_texts.choose_spec.choose_spec
  exact ⟨htexts, fun j _ ↦ hall j⟩

theorem bundleLibrary_compress (b : Bytes) : 4 ≤ (bundleLibrary.compress b).length := by
  rw [show bundleLibrary.compress = Stored.compress from rfl, Stored.compress_length]
  omega

def sampleCreate (name : Json) : Except PyError (Adapter Bytes) :=
  if isText (some name) "torch" then .ok bytesAdapter
  else .error (.raised "KeyError" "Unknown backend adapter")

theorem bytesAdapter_faithful : Faithful bytesAdapter := by
  intro id t e hid he
  cases he
  exact ⟨rfl, ⟨⟨id, rfl, hid⟩, by simp, ⟨_, rfl⟩, rfl, rfl, ⟨_, rfl⟩⟩, rfl⟩

theorem encodeBundle_sample :
    encodeBundle bundleLibrary sampleCreate sampleKey sampleValue "torch" = .ok ⟨[sampleTensor], utf8 treeText⟩ := by
  rw [← bundleLibrary_json.1.1]
  rfl

theorem treeText_length : (utf8 treeText).length = 78 := by
  decide +kernel

theorem bundleText_length : (utf8 bundleText).length = 600 := by
  decide +kernel

theorem wireHeader_bundle : wireHeader bundleLibrary "boundary"
    (bundleEnvelope [sampleTensor] treeText "torch").asdict [sampleTensor] "none" = utf8 bundleText :=
  congrArg utf8 bundleLibrary_json.1.2

theorem bundle_fits : Fits DEFAULT_LIMITS (wireHeader bundleLibrary "boundary"
    (bundleEnvelope [sampleTensor] treeText "torch").asdict [sampleTensor] "none") [sampleTensor] := by
  rw [wireHeader_bundle]
  refine ⟨?_, ?_, by decide, by decide, by decide⟩
  · rw [bundleText_length]
    decide
  · rw [bundleText_length]
    decide

theorem sampleValue_supported : Supported sampleValue := by
  refine .list _ fun v hv ↦ ?_
  rcases List.mem_cons.mp hv with rfl | hv
  · exact .tensor _
  · rw [List.mem_singleton.mp hv]
    refine .dict _ fun p hp ↦ ?_
    rcases List.mem_cons.mp hp with rfl | hp
    · exact .none
    · exact List.mem_singleton.mp hp ▸ .bool true

theorem sampleCreate_faithful : ∀ A, sampleCreate (.str "torch") = .ok A → Faithful A := by
  intro A h
  cases h
  exact bytesAdapter_faithful

theorem withinLimits_sample :
    WithinLimits bundleLibrary sampleCreate sampleKey DEFAULT_LIMITS sampleValue "none" "torch" := by
  intro bundle text hbundle htext
  rw [encodeBundle_sample] at hbundle
  cases hbundle
  rw [utf8Decode_utf8] at htext
  cases htext
  refine ⟨?_, bundle_fits⟩
  rw [treeText_length]
  decide

def sampleWire : Bytes := magic ++ noneFlag :: bodyOn (utf8 bundleText) [sampleTensor]

theorem sampleWire_length : sampleWire.length ≤ DEFAULT_LIMITS.maxWireBytes := by
  rw [sampleWire, List.length_append, List.length_cons, bodyOn, List.length_append, List.length_append, be32_length,
    bundleText_length]
  decide

theorem encodeBundleWire_sample :
    encodeBundleWire bundleLibrary sampleCreate sampleKey sampleValue "none" "torch" = .ok sampleWire := by
  have htyped : ∀ t ∈ [sampleTensor], TensorEnvelope.Typed t :=
    fun t ht ↦ List.mem_singleton.mp ht ▸ sampleTensor_typed
  have hpack := pack_eq (.inl rfl) htyped bundle_fits.lengthField
  rw [wireHeader_bundle] at hpack
  rw [encodeBundleWire, encodeBundle_sample, ok_bind, utf8Decode_utf8, ok_bind]
  exact hpack

theorem bundle_round_trip_iff_sample : ∃ turns depth, ∀ fuel, turns ≤ fuel → ∀ d, depth ≤ d →
    (decodeBundleWire bundleLibrary sampleCreate fuel d sampleWire DEFAULT_LIMITS =
      some (.ok (renamed sampleKey sampleValue)) ↔ Distinct sampleKey sampleValue) :=
  bundle_round_trip_iff bundleLibrary bundleLibrary_json.2 Stored.undoes bundleLibrary_compress sampleCreate
    sampleKey DEFAULT_LIMITS sampleValue sampleValue_supported "none" "torch" sampleCreate_faithful sampleWire
    encodeBundleWire_sample withinLimits_sample sampleWire_length

/-- The entry under `1` is gone when the value comes back. -/
theorem colliding_key_lost :
    encodeBundleWire bundleLibrary sampleCreate sampleKey sampleValue "none" "torch" = .ok sampleWire ∧
    (∃ turns depth, ∀ fuel, turns ≤ fuel → ∀ d, depth ≤ d →
      decodeBundleWire bundleLibrary sampleCreate fuel d sampleWire DEFAULT_LIMITS =
        some (.ok (.list [.tensor [1, 2], .dict [(.str "1", .bool true)]]))) ∧
    renamed sampleKey sampleValue = .list [.tensor [1, 2], .dict [(.str "1", .none), (.str "1", .bool true)]] :=
  ⟨encodeBundleWire_sample,
    decodeBundleWire_eq bundleLibrary_json.2 Stored.undoes bundleLibrary_compress sampleValue_supported
      sampleCreate_faithful encodeBundleWire_sample withinLimits_sample sampleWire_length, rfl⟩

end SplitFleet.BundleRoundTrip
