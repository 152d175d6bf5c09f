import SplitFleet.Lib.Lists
import SplitFleet.TorchClone

set_option autoImplicit false

namespace SplitFleet.TorchClone

open Lib

variable {Scalar : Type} {heap : Heap Scalar} {source target : Model}

/-! ### The bindings -/

/-- `source[name]` -/
def stateOf (heap : Heap Scalar) (model : Model) (n : Getter × Name) : Option Ref := (named heap n.1 model).get? n.2

theorem atKey_eq_ok {υ : Type} {d : Dict Name υ} {name : Name} {value : υ} (h : atKey d name = .ok value) :
    d.get? name = some value := by
  unfold atKey at h
  split at h
  · next hget =>
    cases h
    exact hget
  · cases h

theorem moduleOf_eq_ok {model : Model} {path : String} {module : Ref} (h : moduleOf model path = .ok module) :
    model.get? path = some module := by
  unfold moduleOf at h
  split at h
  · next hget =>
    cases h
    exact hget
  · cases h

theorem of_bindGetter {l : List (Ref × Ref)} {getter : Getter} {p q : Pairing Ref Ref} (hp : p.Of l)
    (h : bindGetter heap source target p getter = .ok q) :
    sameKeys (named heap getter source) (named heap getter target) ∧
      q.Of (l ++ (named heap getter source).entries.filterMap fun i ↦
        ((named heap getter target).get? i.1).map (i.2, ·)) := by
  obtain ⟨_, hkeys, h⟩ := bind_eq_ok h
  refine ⟨of_require hkeys, hp.foldlM Prod.snd _ (fun p i q hq ↦ ?_) h⟩
  obtain ⟨other, hother, hq⟩ := bind_eq_ok hq
  obtain ⟨_, -, hq⟩ := bind_eq_ok hq
  exact ⟨other, _, _, atKey_eq_ok hother, hq⟩

/-- The names of the state are the same, and the tensors with the same name are those that are paired. -/
structure StateBound (heap : Heap Scalar) (source target : Model) (tensors : Pairing Ref Ref) : Prop where
  sameNames : ∀ n, (stateOf heap source n).isSome = (stateOf heap target n).isSome
  paired : ∀ a b, tensors.forward.get? a = some b ↔
    ∃ n, stateOf heap source n = some a ∧ stateOf heap target n = some b
  eq_iff : ∀ m n a b c d, stateOf heap source m = some a → stateOf heap source n = some b →
    stateOf heap target m = some c → stateOf heap target n = some d → (a = b ↔ c = d)

theorem isSome_eq_of_sameKeys {κ υ : Type} [DecidableEq κ] {a b : Dict κ υ} (h : sameKeys a b) (k : κ) :
    (a.get? k).isSome = (b.get? k).isSome := by
  rw [Bool.eq_iff_iff, Option.isSome_iff_exists, Option.isSome_iff_exists, ← Dict.mem_keys_iff, ← Dict.mem_keys_iff]
  exact ⟨h.1 k, h.2 k⟩

theorem stateBound_of_stateBindings {tensors owners : Pairing Ref Ref}
    (h : stateBindings heap source target = .ok (tensors, owners)) : StateBound heap source target tensors := by
  obtain ⟨_, -, h⟩ := bind_eq_ok h
  obtain ⟨owners, -, h⟩ := bind_eq_ok h
  obtain ⟨tensors', htensors, h⟩ := bind_eq_ok h
  cases h
  rw [List.foldlM_cons] at htensors
  obtain ⟨p, hp, htensors⟩ := bind_eq_ok htensors
  rw [List.foldlM_cons] at htensors
  obtain ⟨q, hq, htensors⟩ := bind_eq_ok htensors
  cases htensors
  obtain ⟨hparameters, hof⟩ := of_bindGetter Pairing.of_empty hp
  obtain ⟨hbuffers, hof⟩ := of_bindGetter hof hq
  have hpaired : ∀ a b, tensors.forward.get? a = some b ↔
      ∃ n, stateOf heap source n = some a ∧ stateOf heap target n = some b := by
    intro a b
    rw [hof.forward, List.nil_append, List.mem_append, List.mem_filterMap, List.mem_filterMap]
    constructor
    · rintro (⟨i, hi, hib⟩ | ⟨i, hi, hib⟩)
      · obtain ⟨c, hc, hcb⟩ := Option.map_eq_some_iff.mp hib
        cases hcb
        exact ⟨(.namedParameters, i.1), (Dict.get?_eq_some_iff _).mpr hi, hc⟩
      · obtain ⟨c, hc, hcb⟩ := Option.map_eq_some_iff.mp hib
        cases hcb
        exact ⟨(.namedBuffers, i.1), (Dict.get?_eq_some_iff _).mpr hi, hc⟩
    · rintro ⟨⟨getter, name⟩, ha, hb⟩
      cases getter with
      | namedParameters =>
        exact .inl ⟨(name, a), (Dict.get?_eq_some_iff _).mp ha, Option.map_eq_some_iff.mpr ⟨b, hb, rfl⟩⟩
      | namedBuffers =>
        exact .inr ⟨(name, a), (Dict.get?_eq_some_iff _).mp ha, Option.map_eq_some_iff.mpr ⟨b, hb, rfl⟩⟩
  constructor
  · rintro ⟨getter, name⟩
    cases getter with
    | namedParameters => exact isSome_eq_of_sameKeys hparameters name
    | namedBuffers => exact isSome_eq_of_sameKeys hbuffers name
  · exact hpaired
  · intro m n a b c d ha hb hc hd
    have hac := (hof.forward a c).mp ((hpaired a c).mpr ⟨m, ha, hc⟩)
    exact hof.eq_iff hac ((hof.forward b d).mp ((hpaired b d).mpr ⟨n, hb, hd⟩))

/-- The modules at the same path are those that are paired. -/
theorem owners_of_stateBindings {tensors owners : Pairing Ref Ref}
    (h : stateBindings heap source target = .ok (tensors, owners)) (a b : Ref) :
    owners.forward.get? a = some b ↔ ∃ path, source.get? path = some a ∧ target.get? path = some b := by
  obtain ⟨_, -, h⟩ := bind_eq_ok h
  obtain ⟨owners', howners, h⟩ := bind_eq_ok h
  obtain ⟨_, -, h⟩ := bind_eq_ok h
  cases h
  have hof := Pairing.of_empty.foldlM Prod.snd (fun i ↦ target.get? i.1) (fun p i q hq ↦ ?_) howners
  · rw [hof.forward, List.nil_append, List.mem_filterMap]
    constructor
    · rintro ⟨i, hi, hib⟩
      obtain ⟨c, hc, hcb⟩ := Option.map_eq_some_iff.mp hib
      cases hcb
      exact ⟨i.1, (Dict.get?_eq_some_iff _).mpr hi, hc⟩
    · rintro ⟨path, ha, hb⟩
      exact ⟨(path, a), (Dict.get?_eq_some_iff _).mp ha, Option.map_eq_some_iff.mpr ⟨b, hb, rfl⟩⟩
  · obtain ⟨other, hother, hq⟩ := bind_eq_ok hq
    obtain ⟨_, -, hq⟩ := bind_eq_ok hq
    obtain ⟨r, hr, hq⟩ := bind_eq_ok hq
    obtain ⟨_, -, hq⟩ := bind_eq_ok hq
    cases hq
    exact ⟨other, _, _, moduleOf_eq_ok hother, hr⟩

/-- The entry of a module is the state with its path and name. -/
theorem stateOf_namedBuffers {model : Model} {path name : String} {module : Ref} (h : model.get? path = some module) :
    stateOf heap model (.namedBuffers, path, name) = ((heap.moduleAt module).buffers.get? name).join := by
  ext t
  rw [stateOf, Dict.get?_eq_some_iff, named, List.mem_flatMap, Option.join_eq_some_iff]
  constructor
  · rintro ⟨p, hp, ht⟩
    obtain ⟨rfl, ht⟩ := (mem_membersAt heap).mp ht
    rw [(Dict.get?_eq_some_iff _).mpr hp] at h
    cases h
    exact ht
  · exact fun ht ↦ ⟨(path, module), (Dict.get?_eq_some_iff _).mp h, (mem_membersAt heap).mpr ⟨rfl, ht⟩⟩

/-! ### Templates -/

namespace Value

/-- Induction with the hypothesis for every value inside. -/
@[elab_as_elim] theorem induction {P : Value → Prop} (tensor : ∀ t, P (.tensor t))
    (dataclass : ∀ type fields, (∀ p ∈ fields, P p.2) → P (.dataclass type fields))
    (tuple : ∀ items, (∀ v ∈ items, P v) → P (.tuple items)) (list : ∀ items, (∀ v ∈ items, P v) → P (.list items))
    (dict : ∀ entries, (∀ p ∈ entries, P p.2) → P (.dict entries)) (constant : ∀ text, P (.constant text))
    (v : Value) : P v :=
  @Value.rec P (fun fields ↦ ∀ p ∈ fields, P p.2) (fun items ↦ ∀ v ∈ items, P v) (fun p ↦ P p.2)
    tensor dataclass tuple list dict constant
    (fun _ h ↦ absurd h List.not_mem_nil)
    (fun _ _ ha hl p h ↦ (List.mem_cons.mp h).elim (fun e ↦ e ▸ ha) (hl p))
    (fun _ h ↦ absurd h List.not_mem_nil)
    (fun _ _ ha hl v h ↦ (List.mem_cons.mp h).elim (fun e ↦ e ▸ ha) (hl v))
    (fun _ _ h ↦ h) v

/-- The tensor is somewhere in the value. -/
inductive Occurs (t : Ref) : Value → Prop
  | tensor : Occurs t (.tensor t)
  | field {type : String} {fields : List (String × Value)} {p : String × Value} :
      p ∈ fields → Occurs t p.2 → Occurs t (.dataclass type fields)
  | tupleItem {items : List Value} {v : Value} : v ∈ items → Occurs t v → Occurs t (.tuple items)
  | listItem {items : List Value} {v : Value} : v ∈ items → Occurs t v → Occurs t (.list items)
  | dictValue {entries : List (String × Value)} {p : String × Value} :
      p ∈ entries → Occurs t p.2 → Occurs t (.dict entries)

/-- The same value with other tensors in it. -/
inductive Rebound (τ : Ref → Ref) : Value → Value → Prop
  | tensor (t : Ref) : Rebound τ (.tensor t) (.tensor (τ t))
  | dataclass {type : String} {fields fields' : List (String × Value)} :
      fields'.map Prod.fst = fields.map Prod.fst →
      List.Forall₂ (Rebound τ) (fields.map Prod.snd) (fields'.map Prod.snd) →
      Rebound τ (.dataclass type fields) (.dataclass type fields')
  | tuple {items items' : List Value} : List.Forall₂ (Rebound τ) items items' → Rebound τ (.tuple items) (.tuple items')
  | list {items items' : List Value} : List.Forall₂ (Rebound τ) items items' → Rebound τ (.list items) (.list items')
  | dict {entries entries' : List (String × Value)} :
      entries'.map Prod.fst = entries.map Prod.fst →
      List.Forall₂ (Rebound τ) (entries.map Prod.snd) (entries'.map Prod.snd) →
      Rebound τ (.dict entries) (.dict entries')
  | constant (text : String) : Rebound τ (.constant text) (.constant text)

end Value

variable {tensors owners : Pairing Ref Ref}

theorem templateItems_eq (items : List Value) : templateItems tensors items = items.map (template tensors) := by
  induction items with
  | nil => rfl
  | cons v items ih => rw [templateItems, ih, List.map_cons]

theorem templateFields_eq (fields : List (String × Value)) :
    templateFields tensors fields = fields.map fun p ↦ (p.1, template tensors p.2) := by
  induction fields with
  | nil => rfl
  | cons p fields ih => rw [templateFields, ih, List.map_cons]

theorem map_fst_template (fields : List (String × Value)) :
    (fields.map fun p ↦ (p.1, template tensors p.2)).map Prod.fst = fields.map Prod.fst := by
  rw [List.map_map]
  rfl

theorem forall₂_snd_template {R : Value → Value → Prop} {fields : List (String × Value)}
    (h : ∀ p ∈ fields, R p.2 (template tensors p.2)) :
    List.Forall₂ R (fields.map Prod.snd) ((fields.map fun p ↦ (p.1, template tensors p.2)).map Prod.snd) := by
  rw [List.map_map, List.forall₂_map_left_iff, List.forall₂_map_right_iff, List.forall₂_same]
  exact h

theorem rebound_template (v : Value) : Value.Rebound (tensor tensors) v (template tensors v) := by
  induction v using Value.induction with
  | tensor t => exact .tensor t
  | dataclass type fields ih =>
    rw [template, templateFields_eq]
    exact .dataclass (map_fst_template fields) (forall₂_snd_template ih)
  | tuple items ih =>
    rw [template, templateItems_eq]
    exact .tuple (List.forall₂_map_right_iff.mpr (List.forall₂_same.mpr ih))
  | list items ih =>
    rw [template, templateItems_eq]
    exact .list (List.forall₂_map_right_iff.mpr (List.forall₂_same.mpr ih))
  | dict entries ih =>
    rw [template, templateFields_eq]
    exact .dict (map_fst_template entries) (forall₂_snd_template ih)
  | constant text => exact .constant text

/-- Every tensor of the replaced value stands for one that was there. -/
theorem exists_of_occurs {τ : Ref → Ref} {v v' : Value} (h : Value.Rebound τ v v') {t : Ref} (ht : v'.Occurs t) :
    ∃ t₀, v.Occurs t₀ ∧ τ t₀ = t := by
  induction ht generalizing v with
  | tensor =>
    cases h
    exact ⟨_, .tensor, rfl⟩
  | field hp _ ih =>
    cases h with
    | dataclass _ hfields =>
      obtain ⟨v, hv, hrebound⟩ := forall₂_exists_of_mem_right hfields (List.mem_map_of_mem hp)
      obtain ⟨p, hp, rfl⟩ := List.mem_map.mp hv
      exact (ih hrebound).imp fun _ h ↦ ⟨.field hp h.1, h.2⟩
  | tupleItem hv _ ih =>
    cases h with
    | tuple hitems =>
      obtain ⟨v, hv, hrebound⟩ := forall₂_exists_of_mem_right hitems hv
      exact (ih hrebound).imp fun _ h ↦ ⟨.tupleItem hv h.1, h.2⟩
  | listItem hv _ ih =>
    cases h with
    | list hitems =>
      obtain ⟨v, hv, hrebound⟩ := forall₂_exists_of_mem_right hitems hv
      exact (ih hrebound).imp fun _ h ↦ ⟨.listItem hv h.1, h.2⟩
  | dictValue hp _ ih =>
    cases h with
    | dict _ hentries =>
      obtain ⟨v, hv, hrebound⟩ := forall₂_exists_of_mem_right hentries (List.mem_map_of_mem hp)
      obtain ⟨p, hp, rfl⟩ := List.mem_map.mp hv
      exact (ih hrebound).imp fun _ h ↦ ⟨.dictValue hp h.1, h.2⟩

/-! ### Handles -/

section Handles

variable {handles : Ref → Handle} {s t : Rebinding} {key r : Ref}

/-- The new handle is that of the same buffer of the replica. -/
def BufferRebound (heap : Heap Scalar) (owners : Pairing Ref Ref) (handles : Ref → Handle) (key : Ref) (h : Handle) :
    Prop :=
  ∃ b b', handles key = .buffer b ∧ newBuffer heap owners b = .ok b' ∧ h = .buffer b'

/-- The same buffers of a module, by new handles. -/
def InfoRebound (handles : Ref → Handle) (ρ : Ref → Option Ref) : Option ModuleInfo → Option ModuleInfo → Prop
  | none, none => True
  | some info, some info' => info'.address = info.address ∧ List.Forall₂ (fun a b ↦ b.1 = a.1 ∧
      ρ a.2 = some b.2 ∧ ∃ h, handles a.2 = .buffer h) info.buffers info'.buffers
  | _, _ => False

/-- The new handle is that of the replica's parameter. -/
def ParamRebound (tensors : Pairing Ref Ref) (handles : Ref → Handle) (rebound : Dict Ref Ref) (key : Ref)
    (h : Handle) : Prop :=
  ∃ p module, handles key = .param p ∧ (tensors.forward.get? p.handle).isSome ∧
    InfoRebound handles rebound.get? p.module module ∧
    h = .param { p with handle := tensor tensors p.handle, module := module }

/-- What every new handle is, and that it stands for one handle. -/
structure Sound (heap : Heap Scalar) (tensors owners : Pairing Ref Ref) (handles : Ref → Handle) (s : Rebinding) :
    Prop where
  entry : ∀ key r, s.rebound.get? key = some r → ∃ h, s.made[r]? = some h ∧
    (BufferRebound heap owners handles key h ∨ ParamRebound tensors handles s.rebound key h)
  distinct : ∀ key key' r, s.rebound.get? key = some r → s.rebound.get? key' = some r → key = key'

def Extends (s t : Rebinding) : Prop := ∀ key r, s.rebound.get? key = some r → t.rebound.get? key = some r

theorem Extends.refl (s : Rebinding) : Extends s s := fun _ _ h ↦ h

theorem Extends.trans {u : Rebinding} (h : Extends s t) (h' : Extends t u) : Extends s u :=
  fun key r hr ↦ h' key r (h key r hr)

/-- A call on buffers adds nothing for a parameter. -/
def KeepsParams (handles : Ref → Handle) (s t : Rebinding) : Prop :=
  ∀ key p, handles key = .param p → s.rebound.get? key = none → t.rebound.get? key = none

theorem InfoRebound.mono {info info' : Option ModuleInfo} (h : InfoRebound handles s.rebound.get? info info')
    (hst : Extends s t) : InfoRebound handles t.rebound.get? info info' := by
  cases info with
  | none =>
    cases info' with
    | none => trivial
    | some info' => exact h.elim
  | some info =>
    cases info' with
    | none => exact h.elim
    | some info' =>
      obtain ⟨haddress, hbuffers⟩ := h
      exact ⟨haddress, hbuffers.imp fun a b hab ↦ ⟨hab.1, hst _ _ hab.2.1, hab.2.2⟩⟩

theorem ParamRebound.mono {h : Handle} (hp : ParamRebound tensors handles s.rebound key h) (hst : Extends s t) :
    ParamRebound tensors handles t.rebound key h := by
  obtain ⟨p, module, hkey, hregistered, hinfo, rfl⟩ := hp
  exact ⟨p, module, hkey, hregistered, hinfo.mono hst, rfl⟩

theorem extends_add {h : Handle} (hkey : s.rebound.get? key = none) : Extends s (s.add key h) := by
  intro key' r hr
  change (s.rebound.insert key s.made.length).get? key' = some r
  rw [Dict.get?_insert, if_neg]
  · exact hr
  · rintro rfl
    rw [hkey] at hr
    cases hr

theorem Sound.lt (hs : Sound heap tensors owners handles s) (h : s.rebound.get? key = some r) : r < s.made.length := by
  obtain ⟨_, hmade, -⟩ := hs.entry key r h
  exact (List.getElem?_eq_some_iff.mp hmade).1

theorem Sound.add (hs : Sound heap tensors owners handles s) {h : Handle} (hkey : s.rebound.get? key = none)
    (hh : BufferRebound heap owners handles key h ∨ ParamRebound tensors handles s.rebound key h) :
    Sound heap tensors owners handles (s.add key h) := by
  have hget : ∀ k r, (s.add key h).rebound.get? k = some r →
      k = key ∧ r = s.made.length ∨ s.rebound.get? k = some r := by
    intro k r hr
    change (s.rebound.insert key s.made.length).get? k = some r at hr
    rw [Dict.get?_insert] at hr
    split at hr
    · next heq =>
      cases hr
      exact .inl ⟨heq.symm, rfl⟩
    · exact .inr hr
  have hmono : ∀ k h', BufferRebound heap owners handles k h' ∨ ParamRebound tensors handles s.rebound k h' →
      BufferRebound heap owners handles k h' ∨ ParamRebound tensors handles (s.add key h).rebound k h' :=
    fun k h' ↦ Or.imp_right fun hp ↦ hp.mono (extends_add hkey)
  constructor
  · intro k r hr
    obtain ⟨rfl, rfl⟩ | hr := hget k r hr
    · exact ⟨h, List.getElem?_concat_length, hmono _ _ hh⟩
    · obtain ⟨h', hmade, hrebound⟩ := hs.entry k r hr
      refine ⟨h', ?_, hmono _ _ hrebound⟩
      exact (List.getElem?_append_left (hs.lt hr)).trans hmade
  · intro k k' r hr hr'
    obtain ⟨rfl, rfl⟩ | hold := hget k r hr
    · obtain ⟨rfl, -⟩ | hold' := hget k' _ hr'
      · rfl
      · exact absurd (hs.lt hold') (lt_irrefl _)
    · obtain ⟨rfl, rfl⟩ | hold' := hget k' r hr'
      · exact absurd (hs.lt hold) (lt_irrefl _)
      · exact hs.distinct k k' r hold hold'

/-- What a call on a handle does. -/
structure Rebinds (heap : Heap Scalar) (tensors owners : Pairing Ref Ref) (handles : Ref → Handle) (s : Rebinding)
    (key r : Ref) (t : Rebinding) : Prop where
  sound : Sound heap tensors owners handles t
  extends' : Extends s t
  rebound : t.rebound.get? key = some r

theorem rebinds_make {h : Handle} (hs : Sound heap tensors owners handles s) (hkey : s.rebound.get? key = none)
    (hh : BufferRebound heap owners handles key h ∨ ParamRebound tensors handles s.rebound key h)
    (hrun : (make key h).run s = .ok r t) : Rebinds heap tensors owners handles s key r t := by
  cases hrun
  refine ⟨hs.add hkey hh, extends_add hkey, ?_⟩
  change (s.rebound.insert key s.made.length).get? key = _
  rw [Dict.get?_insert, if_pos rfl]

theorem rebinds_buffer (hs : Sound heap tensors owners handles s)
    (h : (buffer heap owners handles key).run s = .ok r t) :
    Rebinds heap tensors owners handles s key r t ∧ KeepsParams handles s t ∧ ∃ b, handles key = .buffer b := by
  unfold buffer at h
  split at h
  · next b hb =>
    rw [Method.get_bind_run] at h
    split at h
    · next r' hr' =>
      cases h
      exact ⟨⟨hs, .refl s, hr'⟩, fun _ _ _ hnone ↦ hnone, b, hb⟩
    · next hnone =>
      obtain ⟨b', hb', h⟩ := Method.lift_bind_eq_ok h
      refine ⟨rebinds_make hs hnone (.inl ⟨b, b', hb, hb', rfl⟩) h, fun key' p hp hkey' ↦ ?_, b, hb⟩
      cases h
      change (s.rebound.insert key s.made.length).get? key' = none
      rw [Dict.get?_insert, if_neg]
      · exact hkey'
      · rintro rfl
        rw [hb] at hp
        cases hp
  · cases h

/-- A loop of such calls. `E` is how they relate what was made before and after them. -/
theorem rebinds_mapM {ι β : Type} {f : ι → Method Rebinding β} {E : Rebinding → Rebinding → Prop}
    {R : Rebinding → ι → β → Prop} (hrefl : ∀ s, E s s) (htrans : ∀ s t u, E s t → E t u → E s u)
    (hmono : ∀ s t i b, R s i b → E s t → R t i b)
    (hf : ∀ s i b t, Sound heap tensors owners handles s → (f i).run s = .ok b t →
      Sound heap tensors owners handles t ∧ E s t ∧ R t i b)
    (hs : Sound heap tensors owners handles s) {items : List ι} {bs : List β} (h : (items.mapM f).run s = .ok bs t) :
    Sound heap tensors owners handles t ∧ E s t ∧ List.Forall₂ (R t) items bs := by
  induction items generalizing s bs with
  | nil =>
    cases h
    exact ⟨hs, hrefl _, .nil⟩
  | cons i items ih =>
    obtain ⟨b, u, rest, hb, hrest, rfl⟩ := Method.mapM_cons_eq_ok h
    obtain ⟨hu, hsu, hR⟩ := hf s i b u hs hb
    obtain ⟨ht, hut, hall⟩ := ih hu hrest
    exact ⟨ht, htrans _ _ _ hsu hut, .cons (hmono _ _ _ _ hR hut) hall⟩

theorem rebinds_info {info info' : Option ModuleInfo} (hs : Sound heap tensors owners handles s)
    (h : (rebindInfo heap owners handles info).run s = .ok info' t) :
    Sound heap tensors owners handles t ∧ (Extends s t ∧ KeepsParams handles s t) ∧
      InfoRebound handles t.rebound.get? info info' := by
  cases info with
  | none =>
    cases h
    exact ⟨hs, ⟨.refl s, fun _ _ _ hnone ↦ hnone⟩, trivial⟩
  | some info =>
    obtain ⟨buffers, u, hbuffers, h⟩ := Method.bind_eq_ok h
    cases h
    have hall := rebinds_mapM (E := fun s t ↦ Extends s t ∧ KeepsParams handles s t)
      (R := fun (t : Rebinding) (a b : String × Ref) ↦
        b.1 = a.1 ∧ t.rebound.get? a.2 = some b.2 ∧ ∃ h, handles a.2 = .buffer h)
      (fun s ↦ ⟨.refl s, fun _ _ _ hnone ↦ hnone⟩)
      (fun s t u h h' ↦ ⟨h.1.trans h'.1, fun key p hp hnone ↦ h'.2 key p hp (h.2 key p hp hnone)⟩)
      (fun s t a b hab hst ↦ ⟨hab.1, hst.1 _ _ hab.2.1, hab.2.2⟩) (fun s a b t hs hrun ↦ ?_) hs hbuffers
    · exact ⟨hall.1, hall.2.1, rfl, hall.2.2⟩
    · obtain ⟨r, u, hr, hrun⟩ := Method.bind_eq_ok hrun
      cases hrun
      obtain ⟨hbuffer, hkeeps, hhandle⟩ := rebinds_buffer hs hr
      exact ⟨hbuffer.sound, ⟨hbuffer.extends', hkeeps⟩, rfl, hbuffer.rebound, hhandle⟩

theorem rebinds_parameter (hs : Sound heap tensors owners handles s)
    (h : (parameter heap tensors owners handles key).run s = .ok r t) :
    Rebinds heap tensors owners handles s key r t ∧ ∃ p, handles key = .param p := by
  unfold parameter at h
  split at h
  · next p hp =>
    obtain ⟨hregistered, h⟩ := Method.require_bind_eq_ok h
    rw [Method.get_bind_run] at h
    split at h
    · next r' hr' =>
      cases h
      exact ⟨⟨hs, .refl s, hr'⟩, p, hp⟩
    · next hnone =>
      obtain ⟨module, u, hmodule, h⟩ := Method.bind_eq_ok h
      obtain ⟨hu, ⟨hsu, hkeeps⟩, hinfo⟩ := rebinds_info hs hmodule
      have hkey := hkeeps key p hp hnone
      obtain ⟨ht, hut, hr⟩ := rebinds_make hu hkey (.inr ⟨p, module, hp, hregistered, hinfo, rfl⟩) h
      exact ⟨⟨ht, hsu.trans hut, hr⟩, p, hp⟩
  · cases h

end Handles

/-! ### The graph -/

/-- A node of the replica: its handles stand for those of the source's node, its templates have the replica's tensors,
and the rest is the same. -/
structure NodeRebound (handles : Ref → Handle) (τ : Ref → Ref) (ρ : Ref → Option Ref) (node node' : Node) : Prop where
  canonicalId : node'.canonicalId = node.canonicalId
  parents : node'.parents = node.parents
  target : node'.target = node.target
  moduleBound : node'.moduleBound = node.moduleBound
  paramRefs : List.Forall₂ (fun key r ↦ ρ key = some r ∧ ∃ p, handles key = .param p) node.paramRefs node'.paramRefs
  bufferRefs : List.Forall₂ (fun key r ↦ ρ key = some r ∧ ∃ b, handles key = .buffer b) node.bufferRefs node'.bufferRefs
  argsTemplate : Value.Rebound τ node.argsTemplate node'.argsTemplate
  kwargsTemplate : Value.Rebound τ node.kwargsTemplate node'.kwargsTemplate
  out : Value.Rebound τ node.out node'.out

variable {handles : Ref → Handle} {s t : Rebinding}

theorem NodeRebound.mono {τ : Ref → Ref} {node node' : Node}
    (h : NodeRebound handles τ s.rebound.get? node node') (hst : Extends s t) :
    NodeRebound handles τ t.rebound.get? node node' :=
  { h with
    paramRefs := h.paramRefs.imp fun _ _ hr ↦ ⟨hst _ _ hr.1, hr.2⟩
    bufferRefs := h.bufferRefs.imp fun _ _ hr ↦ ⟨hst _ _ hr.1, hr.2⟩ }

theorem rebinds_node {node node' : Node} (hs : Sound heap tensors owners handles s)
    (h : (rebindNode heap tensors owners handles node).run s = .ok node' t) :
    Sound heap tensors owners handles t ∧ Extends s t ∧
      NodeRebound handles (tensor tensors) t.rebound.get? node node' := by
  obtain ⟨_, h⟩ := Method.require_bind_eq_ok h
  obtain ⟨paramRefs, u, hparams, h⟩ := Method.bind_eq_ok h
  obtain ⟨bufferRefs, v, hbuffers, h⟩ := Method.bind_eq_ok h
  cases h
  obtain ⟨hu, hsu, hparams⟩ := rebinds_mapM (E := Extends)
    (R := fun (t : Rebinding) key r ↦ t.rebound.get? key = some r ∧ ∃ p, handles key = .param p)
    .refl (fun _ _ _ ↦ .trans) (fun s t key r hr hst ↦ ⟨hst _ _ hr.1, hr.2⟩)
    (fun s key r t hs hrun ↦ by
      obtain ⟨hkey, hparam⟩ := rebinds_parameter hs hrun
      exact ⟨hkey.sound, hkey.extends', hkey.rebound, hparam⟩) hs hparams
  obtain ⟨ht, hut, hbuffers⟩ := rebinds_mapM (E := Extends)
    (R := fun (t : Rebinding) key r ↦ t.rebound.get? key = some r ∧ ∃ b, handles key = .buffer b)
    .refl (fun _ _ _ ↦ .trans) (fun s t key r hr hst ↦ ⟨hst _ _ hr.1, hr.2⟩)
    (fun s key r t hs hrun ↦ by
      obtain ⟨hkey, -, hbuffer⟩ := rebinds_buffer hs hrun
      exact ⟨hkey.sound, hkey.extends', hkey.rebound, hbuffer⟩) hu hbuffers
  exact ⟨ht, hsu.trans hut, ⟨rfl, rfl, rfl, rfl, hparams.imp fun _ _ hr ↦ ⟨hut _ _ hr.1, hr.2⟩, hbuffers,
    rebound_template _, rebound_template _, rebound_template _⟩⟩

/-- A tensor that a handle leads to. -/
inductive Handle.Refers (handles : Ref → Handle) (t : Ref) : Ref → Prop
  | buffer {r : Ref} {b : BufferHandle} : handles r = .buffer b → b.value = some t → Refers handles t r
  | param {r : Ref} {p : ParamHandle} : handles r = .param p → p.handle = t → Refers handles t r
  | info {r : Ref} {p : ParamHandle} {info : ModuleInfo} {item : String × Ref} : handles r = .param p →
      p.module = some info → item ∈ info.buffers → Refers handles t item.2 → Refers handles t r

/-- A tensor that a node of the graph leads to. -/
def Graph.Refers (g : Graph) (node : Node) (t : Ref) : Prop :=
  (node.argsTemplate.Occurs t ∨ node.kwargsTemplate.Occurs t ∨ node.out.Occurs t) ∨
    ∃ r, (r ∈ node.paramRefs ∨ r ∈ node.bufferRefs) ∧ Handle.Refers g.handles t r

/-- The replica's buffer at the same path and with the same name. -/
def IsBuffer (heap : Heap Scalar) (source target : Model) (b b' : BufferHandle) : Prop :=
  ∃ path module module', b.owner = some module ∧ source.get? path = some module ∧ target.get? path = some module' ∧
    b' = ⟨stateOf heap target (.namedBuffers, path, b.name), some module', b.name⟩

/-- The replica's parameter with the same name, and its module with the new handles of the same buffers. -/
def IsParam (heap : Heap Scalar) (source target : Model) (handles : Ref → Handle) (ρ : Ref → Option Ref)
    (p p' : ParamHandle) : Prop :=
  p'.address = p.address ∧ (∃ n, stateOf heap source n = some p.handle ∧ stateOf heap target n = some p'.handle) ∧
    InfoRebound handles ρ p.module p'.module

/-- The graph of the replica. `τ` takes a tensor, and `ρ` a handle, to the one that stands for it. -/
structure GraphRebound (heap : Heap Scalar) (source target : Model) (g g' : Graph) (τ : Ref → Ref)
    (ρ : Ref → Option Ref) : Prop where
  tensors : ∀ n a b, stateOf heap source n = some a → stateOf heap target n = some b → τ a = b
  others : ∀ a, (∀ n, stateOf heap source n ≠ some a) → τ a = a
  shared : ∀ key key' r, ρ key = some r → ρ key' = some r → key = key'
  nodes : List.Forall₂ (NodeRebound g.handles τ ρ) g.nodes g'.nodes
  buffers : ∀ key r b, ρ key = some r → g.handles key = .buffer b →
    ∃ b', g'.handles r = .buffer b' ∧ IsBuffer heap source target b b'
  params : ∀ key r p, ρ key = some r → g.handles key = .param p →
    ∃ p', g'.handles r = .param p' ∧ IsParam heap source target g.handles ρ p p'

/-- `source[m] is source[n]` just where `replica[m] is replica[n]`, and the names are the same. -/
def SameState (heap : Heap Scalar) (source target : Model) : Prop :=
  (∀ n, (stateOf heap source n).isSome = (stateOf heap target n).isSome) ∧
    ∀ m n a b c d, stateOf heap source m = some a → stateOf heap source n = some b →
      stateOf heap target m = some c → stateOf heap target n = some d → (a = b ↔ c = d)

theorem isBuffer_of_newBuffer {b b' : BufferHandle}
    (hbindings : stateBindings heap source target = .ok (tensors, owners)) (h : newBuffer heap owners b = .ok b') :
    IsBuffer heap source target b b' := by
  unfold newBuffer at h
  split at h
  · cases h
  · next newOwner hnew =>
    obtain ⟨owner, howner, hnew⟩ := Option.bind_eq_some_iff.mp hnew
    obtain ⟨path, hsource, htarget⟩ := (owners_of_stateBindings hbindings owner newOwner).mp hnew
    split at h
    · cases h
    · next value hvalue =>
      cases h
      refine ⟨path, owner, newOwner, howner, hsource, htarget, ?_⟩
      rw [stateOf_namedBuffers htarget, hvalue]
      rfl

theorem isParam_of_paramRebound {rebound : Dict Ref Ref} {key : Ref} {h : Handle} {p : ParamHandle}
    (hstate : StateBound heap source target tensors) (hh : ParamRebound tensors handles rebound key h)
    (hp : handles key = .param p) : ∃ p', h = .param p' ∧ IsParam heap source target handles rebound.get? p p' := by
  obtain ⟨p₀, module, hp₀, hregistered, hinfo, rfl⟩ := hh
  rw [hp₀] at hp
  cases hp
  obtain ⟨b, hb⟩ := Option.isSome_iff_exists.mp hregistered
  obtain ⟨n, ha, hn⟩ := (hstate.paired _ b).mp hb
  refine ⟨_, rfl, rfl, ⟨n, ha, ?_⟩, hinfo⟩
  rw [hn, tensor, hb]
  rfl

theorem graphRebound_of_rebind {g g' : Graph} (h : rebind heap source target g = .ok g') :
    ∃ τ ρ, GraphRebound heap source target g g' τ ρ := by
  obtain ⟨⟨tensors, owners⟩, hbindings, h⟩ := bind_eq_ok h
  have hstate := stateBound_of_stateBindings hbindings
  unfold rebindGraph at h
  split at h
  · next nodes s hnodes =>
    cases h
    have hempty : Sound heap tensors owners g.handles ⟨.empty, []⟩ := by
      constructor
      · intro key r hr
        cases hr
      · intro key key' r hr
        cases hr
    obtain ⟨hsound, -, hall⟩ := rebinds_mapM (E := Extends)
      (R := fun (t : Rebinding) node node' ↦ NodeRebound g.handles (tensor tensors) t.rebound.get? node node')
      .refl (fun _ _ _ ↦ .trans) (fun s t node node' hr hst ↦ hr.mono hst)
      (fun s node node' t hs hrun ↦ rebinds_node hs hrun) hempty hnodes
    refine ⟨tensor tensors, s.rebound.get?, ?_, ?_, hsound.distinct, hall, ?_, ?_⟩
    · intro n a b ha hb
      rw [tensor, (hstate.paired a b).mpr ⟨n, ha, hb⟩]
      rfl
    · intro a ha
      cases hb : tensors.forward.get? a with
      | none =>
        rw [tensor, hb]
        rfl
      | some b =>
        obtain ⟨n, hn, -⟩ := (hstate.paired a b).mp hb
        exact absurd hn (ha n)
    · intro key r b hr hb
      obtain ⟨handle, hmade, ⟨b₀, b', hb₀, hb', rfl⟩ | ⟨p, -, hp, -⟩⟩ := hsound.entry key r hr
      · rw [hb₀] at hb
        cases hb
        refine ⟨b', ?_, isBuffer_of_newBuffer hbindings hb'⟩
        change s.made.getD r .noncompact = _
        rw [List.getD_eq_getElem?_getD, hmade]
        rfl
      · rw [hp] at hb
        cases hb
    · intro key r p hr hp
      obtain ⟨handle, hmade, ⟨b, -, hb, -⟩ | hparam⟩ := hsound.entry key r hr
      · rw [hb] at hp
        cases hp
      · obtain ⟨p', rfl, hp'⟩ := isParam_of_paramRebound hstate hparam hp
        refine ⟨p', ?_, hp'⟩
        change s.made.getD r .noncompact = _
        rw [List.getD_eq_getElem?_getD, hmade]
        rfl
  · cases h

/-- No tensor of the replica's state is one of the source's. -/
def DisjointState (heap : Heap Scalar) (source target : Model) : Prop :=
  ∀ m n a, stateOf heap target m = some a → stateOf heap source n ≠ some a

theorem GraphRebound.not_state {g g' : Graph} {τ : Ref → Ref} {ρ : Ref → Option Ref}
    (h : GraphRebound heap source target g g' τ ρ) (hstate : SameState heap source target)
    (hdisjoint : DisjointState heap source target) (a : Ref) (n : Getter × Name) :
    stateOf heap source n ≠ some (τ a) := by
  by_cases ha : ∃ m, stateOf heap source m = some a
  · obtain ⟨m, hm⟩ := ha
    obtain ⟨b, hb⟩ := Option.isSome_iff_exists.mp ((hstate.1 m).symm.trans (by rw [hm]; rfl))
    rw [h.tensors m a b hm hb]
    exact hdisjoint m n b hb
  · rw [not_exists] at ha
    rw [h.others a ha]
    exact ha n

theorem GraphRebound.handle_not_state {g g' : Graph} {τ : Ref → Ref} {ρ : Ref → Option Ref}
    (h : GraphRebound heap source target g g' τ ρ) (hdisjoint : DisjointState heap source target) {key r t : Ref}
    (hr : ρ key = some r) (hkey : (∃ b, g.handles key = .buffer b) ∨ ∃ p, g.handles key = .param p)
    (ht : Handle.Refers g'.handles t r) (n : Getter × Name) : stateOf heap source n ≠ some t := by
  induction ht generalizing key with
  | buffer hb hvalue =>
    obtain ⟨b, hkey⟩ | ⟨p, hkey⟩ := hkey
    · obtain ⟨b', hb', path, module, module', -, -, -, rfl⟩ := h.buffers key _ b hr hkey
      rw [hb] at hb'
      cases hb'
      exact hdisjoint _ n _ hvalue
    · obtain ⟨p', hp', -⟩ := h.params key _ p hr hkey
      rw [hb] at hp'
      cases hp'
  | param hp hhandle =>
    obtain ⟨b, hkey⟩ | ⟨p, hkey⟩ := hkey
    · obtain ⟨b', hb', -⟩ := h.buffers key _ b hr hkey
      rw [hp] at hb'
      cases hb'
    · obtain ⟨p', hp', -, ⟨m, -, hm⟩, -⟩ := h.params key _ p hr hkey
      rw [hp] at hp'
      cases hp'
      rw [hhandle] at hm
      exact hdisjoint m n t hm
  | info hp hinfo hitem _ ih =>
    obtain ⟨b, hkey⟩ | ⟨p, hkey⟩ := hkey
    · obtain ⟨b', hb', -⟩ := h.buffers key _ b hr hkey
      rw [hp] at hb'
      cases hb'
    · obtain ⟨p', hp', -, -, hrebound⟩ := h.params key _ p hr hkey
      rw [hp] at hp'
      cases hp'
      rw [hinfo] at hrebound
      cases hmodule : p.module with
      | none =>
        rw [hmodule] at hrebound
        exact hrebound.elim
      | some info =>
        rw [hmodule] at hrebound
        obtain ⟨item, -, -, hitem, hbuffer⟩ := forall₂_exists_of_mem_right hrebound.2 hitem
        exact ih hitem (.inl hbuffer)

/-- Where a runtime is rebound, the replica has the same state under the same names, its graph is that of the source
with the replica's tensors and handles, and it leads to no tensor of the source's state. -/
theorem rebind_faithful_and_isolated (heap : Heap Scalar) (compactTorchGraph : Graph → Graph) (runtime : Runtime)
    (source target : Model) (g' : Graph) (hsource : runtime.model = some source)
    (h : rebindTorchRuntime heap compactTorchGraph runtime (some target) = .ok (some g')) :
    SameState heap source target ∧
      (∃ τ ρ, GraphRebound heap source target (runtime.sourceGraph compactTorchGraph) g' τ ρ) ∧
      (DisjointState heap source target → ∀ node' ∈ g'.nodes, ∀ t, g'.Refers node' t →
        ∀ n, stateOf heap source n ≠ some t) := by
  have hrebind : rebind heap source target (runtime.sourceGraph compactTorchGraph) = .ok g' := by
    unfold rebindTorchRuntime at h
    rw [hsource] at h
    dsimp only at h
    split at h
    · cases h
    · split at h
      · next hok =>
        cases h
        exact hok
      · cases h
      · cases h
  obtain ⟨⟨tensors, owners⟩, hbindings, -⟩ := bind_eq_ok hrebind
  have hbound := stateBound_of_stateBindings hbindings
  have hstate : SameState heap source target := ⟨hbound.sameNames, hbound.eq_iff⟩
  obtain ⟨τ, ρ, hgraph⟩ := graphRebound_of_rebind hrebind
  refine ⟨hstate, ⟨τ, ρ, hgraph⟩, fun hdisjoint node' hnode' t ht n ↦ ?_⟩
  obtain ⟨node, -, hnode⟩ := forall₂_exists_of_mem_right hgraph.nodes hnode'
  obtain (ht | ht | ht) | ⟨r, hr | hr, ht⟩ := ht
  · obtain ⟨a, -, rfl⟩ := exists_of_occurs hnode.argsTemplate ht
    exact hgraph.not_state hstate hdisjoint a n
  · obtain ⟨a, -, rfl⟩ := exists_of_occurs hnode.kwargsTemplate ht
    exact hgraph.not_state hstate hdisjoint a n
  · obtain ⟨a, -, rfl⟩ := exists_of_occurs hnode.out ht
    exact hgraph.not_state hstate hdisjoint a n
  · obtain ⟨key, -, hkey, hparam⟩ := forall₂_exists_of_mem_right hnode.paramRefs hr
    exact hgraph.handle_not_state hdisjoint hkey (.inr hparam) ht n
  · obtain ⟨key, -, hkey, hbuffer⟩ := forall₂_exists_of_mem_right hnode.bufferRefs hr
    exact hgraph.handle_not_state hdisjoint hkey (.inl hbuffer) ht n

def tiedModule (weight mean : Ref) : Module ℕ where
  type := "BatchNorm2d"
  training := true
  attributes := [("training", .scalar 1), ("momentum", .scalar 0)]
  parameters := ⟨[("weight", some weight), ("scale", some weight), ("bias", none)], by simp⟩
  buffers := ⟨[("running_mean", some mean)], by simp⟩

/-- A model of module 0 with the tensors 10 and 11, and its replica of module 1 with 20 and 21. -/
def tiedHeap : Heap ℕ where
  moduleAt r := if r = 0 then tiedModule 10 11 else tiedModule 20 21
  tensorAt _ := ⟨"Parameter", [3], "float32", "cpu", "strided", true⟩
  differs value other := match value with
    | some (.scalar v) => .ok (v ≠ other)
    | _ => .ok true

def tiedRuntime : Runtime where
  model := some ⟨[("", 0)], by decide⟩
  backend := "torch"
  staticSources := false
  retainsTrace := false
  traceGraph :=
    { nodes := [{
        canonicalId := "batchnorm_1"
        parents := ["input_1"]
        target := "batch_norm"
        moduleBound := false
        paramRefs := [0, 0]
        bufferRefs := [1]
        argsTemplate := .tuple [.constant "input_1", .dict [("weight", .tensor 10), ("running_mean", .tensor 11)]]
        kwargsTemplate := .dict []
        out := .tensor 12 }]
      handles := fun r ↦
        if r = 0 then .param ⟨"weight", 10, some ⟨"", [("running_mean", 1)]⟩⟩
        else .buffer ⟨some 11, some 0, "running_mean"⟩ }

def tiedReplica : Model := ⟨[("", 1)], by decide⟩

theorem rebind_tied_replica : ∃ g', rebindTorchRuntime tiedHeap id tiedRuntime (some tiedReplica) = .ok (some g') ∧
    ∀ node' ∈ g'.nodes, ∀ t, g'.Refers node' t → t ≠ 10 ∧ t ≠ 11 := by
  have haccepts :
      (rebindTorchRuntime tiedHeap id tiedRuntime (some tiedReplica)).toOption.any Option.isSome = true := by
    decide +kernel
  cases h : rebindTorchRuntime tiedHeap id tiedRuntime (some tiedReplica) with
  | error e =>
    rw [h] at haccepts
    cases haccepts
  | ok g =>
    cases g with
    | none =>
      rw [h] at haccepts
      cases haccepts
    | some g' =>
      obtain ⟨-, -, hisolated⟩ := rebind_faithful_and_isolated tiedHeap id tiedRuntime _ tiedReplica g' rfl h
      have hdisjoint : DisjointState tiedHeap ⟨[("", 0)], by decide⟩ tiedReplica := by
        intro m n a hm hn
        have hreplica : ∀ getter, ∀ a ∈ (named tiedHeap getter tiedReplica).values, 20 ≤ a := by
          rintro (_ | _) <;> decide +kernel
        have hsource : ∀ getter, ∀ a ∈ (named tiedHeap getter ⟨[("", 0)], by decide⟩).values, a < 20 := by
          rintro (_ | _) <;> decide +kernel
        have hlow : 20 ≤ a := hreplica m.1 a ((Dict.mem_values_iff _).mpr ⟨m.2, hm⟩)
        have hhigh := hsource n.1 a ((Dict.mem_values_iff _).mpr ⟨n.2, hn⟩)
        exact absurd hhigh (Nat.not_lt.mpr hlow)
      refine ⟨g', rfl, fun node' hnode' t ht ↦ ⟨?_, ?_⟩⟩
      · rintro rfl
        exact hisolated hdisjoint node' hnode' 10 ht (.namedParameters, "", "weight") (by decide +kernel)
      · rintro rfl
        exact hisolated hdisjoint node' hnode' 11 ht (.namedBuffers, "", "running_mean") (by decide +kernel)

end SplitFleet.TorchClone
