import SplitFleet.TensorflowForward
import SplitFleet.Lib.Lists

set_option autoImplicit false

namespace SplitFleet.TensorflowForward

open Lib

/-! ### What variables refer to -/

section References

variable {A S : Type} {heap : Heap A S} {kept : ℕ → Prop}

/-- A set of objects with what they refer to. -/
def RefClosed (heap : Heap A S) (kept : ℕ → Prop) : Prop := ∀ o, kept o → ∀ p ∈ (heap.node o).refs, kept p

theorem RefClosed.original (hkept : RefClosed heap kept) {value : ℕ} (h : kept value) :
    kept (originalOf heap value) := by
  unfold originalOf
  split
  · next o ho =>
    refine hkept value h o ?_
    simp [PyObject.refs, ho, ValueAttribute.refs]
  · exact h

theorem RefClosed.handle (hkept : RefClosed heap kept) {o handle : ℕ} (h : kept o)
    (hhandle : (heap.node o).handle = some handle) : kept handle := by
  refine hkept o h handle ?_
  simp [PyObject.refs, hhandle]

theorem RefClosed.replacement (hkept : RefClosed heap kept) {value other replacement : ℕ} (h : kept other)
    (hreplacement : replacementOf heap value other = some replacement) : kept replacement := by
  unfold replacementOf at hreplacement
  split at hreplacement
  · exact Option.some.inj hreplacement ▸ h
  · exact Option.some.inj hreplacement ▸ h
  · next o ho _ =>
    obtain rfl := Option.some.inj hreplacement
    refine hkept other h o ?_
    simp [PyObject.refs, ho, ValueAttribute.refs]
  · cases hreplacement

/-- `getattr` of an attribute that is there. -/
theorem getattr_eq_ok {α : Type} {name : String} {x : Option α} {a : α} (h : getattr name x = .ok a) : x = some a := by
  cases x with
  | none => cases h
  | some b => exact congrArg some (Except.ok.inj h)

end References

section Representations

variable {A S : Type} [DecidableEq S] {heap heap' : Heap A S} {source target : Dict String ℕ} {kept : ℕ → Prop}

theorem representations_eq_ok {value other : ℕ} {pairs : List (ℕ × ℕ)}
    (h : representations heap value other = .ok pairs) :
    ∃ replacement handle newHandle, replacementOf heap value other = some replacement ∧
      (heap.node (originalOf heap value)).handle = some handle ∧ (heap.node replacement).handle = some newHandle ∧
      pairs = [(value, other), (originalOf heap value, replacement), (handle, newHandle)] := by
  rw [representations] at h
  obtain ⟨_, -, h⟩ := bind_eq_ok h
  obtain ⟨_, -, h⟩ := bind_eq_ok h
  obtain ⟨_, -, h⟩ := bind_eq_ok h
  obtain ⟨replacement, hreplacement, h⟩ := bind_eq_ok h
  obtain ⟨handle, hhandle, h⟩ := bind_eq_ok h
  obtain ⟨newHandle, hnew, h⟩ := bind_eq_ok h
  cases h
  exact ⟨replacement, handle, newHandle, getattr_eq_ok hreplacement, getattr_eq_ok hhandle, getattr_eq_ok hnew, rfl⟩

/-- The second object is a representation of the target's variable where the first one is the same representation of
the source's variable of this name. -/
def Takes (heap : Heap A S) (source target : Dict String ℕ) (name : String) (o o' : ℕ) : Prop :=
  ∃ value other pairs, source.get? name = some value ∧ target.get? name = some other ∧
    representations heap value other = .ok pairs ∧ (o, o') ∈ pairs

/-- One name at least leads from the first object to the second one, and no name leads anywhere else. -/
def Counterpart (heap : Heap A S) (source target : Dict String ℕ) (o o' : ℕ) : Prop :=
  (∃ name, Takes heap source target name o o') ∧ ∀ name p, Takes heap source target name o p → p = o'

theorem RefClosed.takes (hkept : RefClosed heap kept) (hsource : ∀ v ∈ source.values, kept v) {name : String} {o o' : ℕ}
    (h : Takes heap source target name o o') : kept o := by
  obtain ⟨value, other, pairs, hvalue, -, hpairs, ho⟩ := h
  obtain ⟨replacement, handle, newHandle, -, hhandle, -, rfl⟩ := representations_eq_ok hpairs
  have hlive := hsource value (source.mem_values_iff.mpr ⟨name, hvalue⟩)
  simp only [List.mem_cons, Prod.mk.injEq, List.not_mem_nil, or_false] at ho
  obtain ⟨rfl, -⟩ | ⟨rfl, -⟩ | ⟨rfl, -⟩ := ho
  · exact hlive
  · exact hkept.original hlive
  · exact hkept.handle (hkept.original hlive) hhandle

theorem RefClosed.taken (hkept : RefClosed heap kept) (htarget : ∀ v ∈ target.values, kept v) {name : String} {o o' : ℕ}
    (h : Takes heap source target name o o') : kept o' := by
  obtain ⟨value, other, pairs, -, hother, hpairs, ho⟩ := h
  obtain ⟨replacement, handle, newHandle, hreplacement, -, hhandle, rfl⟩ := representations_eq_ok hpairs
  have hlive := htarget other (target.mem_values_iff.mpr ⟨name, hother⟩)
  simp only [List.mem_cons, Prod.mk.injEq, List.not_mem_nil, or_false] at ho
  obtain ⟨-, rfl⟩ | ⟨-, rfl⟩ | ⟨-, rfl⟩ := ho
  · exact hlive
  · exact hkept.replacement hlive hreplacement
  · exact hkept.handle (hkept.replacement hlive hreplacement) hhandle

/-! What a memory retains of the variables is bound in it as before. -/

theorem representations_congr (h : heap.Retains heap' kept) {value other : ℕ} (hvalue : kept value)
    (hother : kept other) : representations heap' value other = representations heap value other := by
  have hclosed : RefClosed heap kept := h.refs
  have hnode := h.node value hvalue
  have hnode' := h.node other hother
  have horiginal : originalOf heap' value = originalOf heap value := by rw [originalOf, originalOf, hnode]
  have hreplacement : replacementOf heap' value other = replacementOf heap value other := by
    rw [replacementOf, replacementOf, hnode, hnode']
  have hkept := h.node _ (hclosed.original hvalue)
  have hleft : contractOf heap' value (some (originalOf heap value)) =
      contractOf heap value (some (originalOf heap value)) := by
    rw [contractOf, contractOf, hnode, Option.bind_some, Option.bind_some, hkept]
  have hright : contractOf heap' other (replacementOf heap value other) =
      contractOf heap other (replacementOf heap value other) := by
    rw [contractOf, contractOf, hnode']
    cases hr : replacementOf heap value other with
    | none => rfl
    | some replacement => rw [Option.bind_some, Option.bind_some, h.node _ (hclosed.replacement hother hr)]
  rw [representations, representations, horiginal, hreplacement, hleft, hright, hkept]
  cases hr : replacementOf heap value other with
  | none => rfl
  | some replacement =>
    simp only [getattr, Option.elim_some, ok_bind, h.node _ (hclosed.replacement hother hr)]

theorem takes_congr (h : heap.Retains heap' kept) (hsource : ∀ v ∈ source.values, kept v)
    (htarget : ∀ v ∈ target.values, kept v) (name : String) (o o' : ℕ) :
    Takes heap' source target name o o' ↔ Takes heap source target name o o' := by
  have hpairs : ∀ value other, source.get? name = some value → target.get? name = some other →
      representations heap' value other = representations heap value other := by
    intro value other hvalue hother
    exact representations_congr h (hsource value (source.mem_values_iff.mpr ⟨name, hvalue⟩))
      (htarget other (target.mem_values_iff.mpr ⟨name, hother⟩))
  constructor
  · rintro ⟨value, other, pairs, hvalue, hother, hrep, ho⟩
    exact ⟨value, other, pairs, hvalue, hother, hpairs value other hvalue hother ▸ hrep, ho⟩
  · rintro ⟨value, other, pairs, hvalue, hother, hrep, ho⟩
    exact ⟨value, other, pairs, hvalue, hother, (hpairs value other hvalue hother).trans hrep, ho⟩

theorem counterpart_congr (h : heap.Retains heap' kept) (hsource : ∀ v ∈ source.values, kept v)
    (htarget : ∀ v ∈ target.values, kept v) (o o' : ℕ) :
    Counterpart heap' source target o o' ↔ Counterpart heap source target o o' := by
  simp only [Counterpart, takes_congr h hsource htarget]

end Representations

/-! ### Bindings -/

section Bindings

variable {A S : Type} [DecidableEq A] [DecidableEq S] {heap : Heap A S} {source target : Dict String ℕ}

omit [DecidableEq S] in
theorem bindPair_get? {b b' : Bindings A} {p : ℕ × ℕ} (h : bindPair heap b p = .ok b') (a : A) (o : ℕ) :
    b'.bindings.get? a = some o ↔ b.bindings.get? a = some o ∨ a = heap.address p.1 ∧ o = p.2 := by
  rw [bindPair] at h
  obtain ⟨_, hsame, h⟩ := bind_eq_ok h
  obtain ⟨_, -, h⟩ := bind_eq_ok h
  cases h
  have hsame := of_require hsame
  rw [Dict.get?_insert]
  split
  · next ha =>
    subst ha
    constructor
    · intro ho
      exact .inr ⟨rfl, (Option.some.inj ho).symm⟩
    · rintro (ho | ⟨-, rfl⟩)
      · rw [hsame o ho]
      · rfl
  · next ha => exact ⟨.inl, fun ho ↦ ho.resolve_right fun hp ↦ ha hp.1.symm⟩

omit [DecidableEq S] in
theorem foldlM_bindPair_get? {pairs : List (ℕ × ℕ)} {b b' : Bindings A} (h : pairs.foldlM (bindPair heap) b = .ok b')
    (a : A) (o : ℕ) :
    b'.bindings.get? a = some o ↔ b.bindings.get? a = some o ∨ ∃ p ∈ pairs, a = heap.address p.1 ∧ o = p.2 := by
  induction pairs generalizing b with
  | nil =>
    cases h
    simp
  | cons p pairs ih =>
    rw [List.foldlM_cons] at h
    obtain ⟨c, hc, h⟩ := bind_eq_ok h
    rw [ih h, bindPair_get? hc, or_assoc, List.exists_mem_cons_iff]

theorem bindVariable_eq_ok {entry : String × ℕ} {b c : Bindings A} (h : bindVariable heap target b entry = .ok c) :
    ∃ other pairs, target.get? entry.1 = some other ∧ representations heap entry.2 other = .ok pairs ∧
      pairs.foldlM (bindPair heap) b = .ok c := by
  rw [bindVariable] at h
  obtain ⟨other, hother, h⟩ := bind_eq_ok h
  obtain ⟨pairs, hpairs, h⟩ := bind_eq_ok h
  refine ⟨other, pairs, ?_, hpairs, h⟩
  cases hget : target.get? entry.1 with
  | none =>
    rw [hget] at hother
    cases hother
  | some v =>
    rw [hget] at hother
    exact congrArg some (Except.ok.inj hother)

theorem foldlM_bindVariable_get? {entries : List (String × ℕ)} {b c : Bindings A}
    (h : entries.foldlM (bindVariable heap target) b = .ok c) (a : A) (o' : ℕ) :
    c.bindings.get? a = some o' ↔ b.bindings.get? a = some o' ∨ ∃ entry ∈ entries, ∃ other pairs o,
      target.get? entry.1 = some other ∧ representations heap entry.2 other = .ok pairs ∧ (o, o') ∈ pairs ∧
        a = heap.address o := by
  induction entries generalizing b with
  | nil =>
    cases h
    simp
  | cons entry entries ih =>
    rw [List.foldlM_cons] at h
    obtain ⟨d, hd, h⟩ := bind_eq_ok h
    obtain ⟨other, pairs, hother, hpairs, hd⟩ := bindVariable_eq_ok hd
    rw [ih h, foldlM_bindPair_get? hd, or_assoc, List.exists_mem_cons_iff]
    refine or_congr_right (or_congr_left ?_)
    constructor
    · rintro ⟨p, hp, ha, rfl⟩
      exact ⟨other, pairs, p.1, hother, hpairs, hp, ha⟩
    · rintro ⟨other', pairs', o, hother', hpairs', ho, ha⟩
      obtain rfl := Option.some.inj (hother.symm.trans hother')
      obtain rfl := Except.ok.inj (hpairs.symm.trans hpairs')
      exact ⟨(o, o'), ho, ha, rfl⟩

/-- The bindings lead from the address of every representation to its counterpart, and nowhere else. -/
theorem replicaBindings_get? {b : Dict A ℕ} (h : replicaBindings heap source target = .ok b) (a : A) (o' : ℕ) :
    b.get? a = some o' ↔ ∃ name o, Takes heap source target name o o' ∧ a = heap.address o := by
  rw [replicaBindings] at h
  obtain ⟨_, -, h⟩ := bind_eq_ok h
  obtain ⟨c, hc, h⟩ := bind_eq_ok h
  cases h
  rw [foldlM_bindVariable_get? hc]
  constructor
  · rintro (hempty | ⟨entry, hentry, other, pairs, o, hother, hpairs, ho, ha⟩)
    · cases hempty
    · exact ⟨entry.1, o, ⟨entry.2, other, pairs, source.get?_eq_some_iff.mpr hentry, hother, hpairs, ho⟩, ha⟩
  · rintro ⟨name, o, ⟨value, other, pairs, hvalue, hother, hpairs, ho⟩, ha⟩
    exact .inr ⟨(name, value), source.get?_eq_some_iff.mp hvalue, other, pairs, o, hother, hpairs, ho, ha⟩

/-- What is found under the address of a live object is its counterpart. -/
theorem counterpart_of_get? {b : Dict A ℕ} (h : replicaBindings heap source target = .ok b)
    (hsource : ∀ v ∈ source.values, v ∈ heap.live) {o o' : ℕ} (ho : o ∈ heap.live)
    (hget : b.get? (heap.address o) = some o') : Counterpart heap source target o o' := by
  refine ⟨?_, fun name p hp ↦ ?_⟩
  · obtain ⟨name, p, htakes, haddress⟩ := (replicaBindings_get? h _ _).mp hget
    have hclosed : RefClosed heap (· ∈ heap.live) := heap.closed
    have hp : p ∈ heap.live := hclosed.takes hsource htakes
    obtain rfl := heap.address_inj o ho p hp haddress
    exact ⟨name, htakes⟩
  · have hget' := (replicaBindings_get? h _ _).mpr ⟨name, o, hp, rfl⟩
    exact Option.some.inj (hget'.symm.trans hget)

end Bindings

/-! ### Programs -/

section Programs

variable {A S T σ I : Type} [DecidableEq A] [DecidableEq S] [DecidableEq σ] {L : Library T σ I} {heap heap' : Heap A S}
  {source target : Dict String ℕ} {kept : ℕ → Prop}

/-- The resources and the variables of the program, each replaced by its counterpart. -/
structure Replaced (heap : Heap A S) (source target : Dict String ℕ) (b : ReboundSuffixTraining σ I) : Prop where
  captures : List.Forall₂ (fun c o ↦ if c.resource then Counterpart heap source target c.object o else o = c.object)
    b.concrete.graph.capturedInputs b.captures
  suffixVariables : List.Forall₂ (Counterpart heap source target) b.concrete.graph.suffixVariables b.suffixVariables

omit [DecidableEq A] [DecidableEq σ] in
theorem Replaced.congr {b : ReboundSuffixTraining σ I} (hb : Replaced heap source target b)
    (h : heap.Retains heap' kept) (hsource : ∀ v ∈ source.values, kept v) (htarget : ∀ v ∈ target.values, kept v) :
    Replaced heap' source target b where
  captures := by
    simp only [counterpart_congr h hsource htarget]
    exact hb.captures
  suffixVariables := hb.suffixVariables.imp fun o o' ho ↦ (counterpart_congr h hsource htarget o o').mpr ho

/-- The objects that a traced function refers to. -/
def Graph.Live (graph : Graph I) (heap : Heap A S) : Prop :=
  (∀ c ∈ graph.capturedInputs, c.object ∈ heap.live) ∧ ∀ o ∈ graph.suffixVariables, o ∈ heap.live

omit [DecidableEq A] [DecidableEq σ] in
theorem Replaced.live {b : ReboundSuffixTraining σ I} (h : Replaced heap source target b)
    (hgraph : b.concrete.graph.Live heap) (htarget : ∀ v ∈ target.values, v ∈ heap.live) :
    ∀ o ∈ b.captures ++ b.suffixVariables, o ∈ heap.live := by
  have hcounterpart : ∀ {o o'}, Counterpart heap source target o o' → o' ∈ heap.live := by
    rintro o o' ⟨⟨name, htakes⟩, -⟩
    have hclosed : RefClosed heap (· ∈ heap.live) := heap.closed
    exact hclosed.taken htarget htakes
  intro o ho
  obtain ho | ho := List.mem_append.mp ho
  · obtain ⟨c, hc, hco⟩ := forall₂_exists_of_mem_right h.captures ho
    split at hco
    · exact hcounterpart hco
    · exact hco ▸ hgraph.1 c hc
  · obtain ⟨v, -, hvo⟩ := forall₂_exists_of_mem_right h.suffixVariables ho
    exact hcounterpart hvo

theorem elim_eq_ok {α : Type} {x : Option α} {e : PyError} {a : α} (h : x.elim (.error e) Except.ok = .ok a) :
    x = some a := by
  cases x with
  | none => cases h
  | some b => exact congrArg some (Except.ok.inj h)

omit [DecidableEq σ] in
theorem rebind_eq_ok {concrete : Concrete σ I} {b : ReboundSuffixTraining σ I}
    (h : rebind heap concrete source target = .ok b) (hlive : concrete.graph.Live heap)
    (hsource : ∀ v ∈ source.values, v ∈ heap.live) : b.concrete = concrete ∧ Replaced heap source target b := by
  rw [rebind] at h
  obtain ⟨bindings, hbindings, h⟩ := bind_eq_ok h
  obtain ⟨captures, hcaptures, h⟩ := bind_eq_ok h
  obtain ⟨suffixVariables, hvariables, h⟩ := bind_eq_ok h
  obtain ⟨_, -, h⟩ := bind_eq_ok h
  cases h
  have hfound : ∀ o ∈ heap.live, ∀ o', bindings.get? (heap.address o) = some o' →
      Counterpart heap source target o o' := fun o ho o' hget ↦ counterpart_of_get? hbindings hsource ho hget
  refine ⟨rfl, ?_, ?_⟩
  · refine ((List.forall₂_and_left _ _).mpr ⟨hlive.1, mapM_eq_ok_iff.mp hcaptures⟩).imp ?_
    rintro c o ⟨hc, ho⟩
    rw [replaceCapture] at ho
    split at ho
    · next hresource =>
      rw [if_pos hresource]
      exact hfound _ hc _ (elim_eq_ok ho)
    · next hresource =>
      rw [if_neg hresource]
      exact (Except.ok.inj ho).symm
  · refine ((List.forall₂_and_left _ _).mpr ⟨hlive.2, mapM_eq_ok_iff.mp hvariables⟩).imp ?_
    rintro o o' ⟨hv, ho⟩
    exact hfound o hv o' (elim_eq_ok ho)

/-! ### What the caches hold -/

/-- What a program is made for, besides the object of its loss. -/
structure Purpose (σ : Type) where
  batch : ℤ
  method : Option ℕ
  update : Bool
  auxiliary : Bool
  signature : Option σ

def Key.at (address : A) (t : Purpose σ) : Key A σ := ⟨t.batch, (address, t.method), t.update, t.auxiliary, t.signature⟩

omit [DecidableEq A] [DecidableEq σ] in
theorem Key.at_inj (a b : A) (s t : Purpose σ) (h : Key.at a s = Key.at b t) : a = b ∧ s = t := by
  obtain ⟨batch, method, update, auxiliary, signature⟩ := s
  obtain ⟨batch', method', update', auxiliary', signature'⟩ := t
  simp only [Key.at, Key.mk.injEq, Prod.mk.injEq] at h
  obtain ⟨rfl, ⟨rfl, rfl⟩, rfl, rfl, rfl⟩ := h
  exact ⟨rfl, rfl⟩

/-- What a request asks for. -/
def purposeOf (L : Library T σ I) (heap : Heap A S) (q : Request I T) : Purpose σ :=
  ⟨q.batch, (heap.node q.lossFn).method, q.update, q.auxiliary, L.signature q.inputs⟩

omit [DecidableEq A] [DecidableEq S] [DecidableEq σ] in
theorem keyOf_eq (q : Request I T) :
    keyOf L heap q = Key.at (heap.address (lossObject heap q.lossFn)) (purposeOf L heap q) := rfl

/-- The template is made for this, but for the signature. -/
structure Serves (heap : Heap A S) (t : Purpose σ) (template : CompiledSuffixTraining) : Prop where
  batch : template.batch = t.batch
  method : (heap.node template.lossFn).method = t.method
  update : template.update = t.update
  auxiliary : template.auxiliary = t.auxiliary

def Compiled.template : Compiled σ I → CompiledSuffixTraining
  | .own template _ => template
  | .rebound function => function.concrete.template

/-- It is for inputs with the signature, and a program of its own is one of the runtime. -/
def Compiled.Suits (r : ℕ) (signature : Option σ) : Compiled σ I → Prop
  | .own template signature' => template.runtime = r ∧ signature' = signature
  | .rebound function => function.concrete.signature = signature

/-- The entries of a pool are anchored at the objects of their losses. -/
def Pool.Anchored (heap : Heap A S) (pool : Pool A σ I) : Prop :=
  Lib.Anchored heap (fun e ↦ lossObject heap e.1.lossFn) Key.at
    (fun t e ↦ Serves heap t e.1 ∧ e.1.runtime = pool.runtime ∧ e.2.template = e.1 ∧ e.2.signature = t.signature)
    pool.functions

def Runtime.Anchored (heap : Heap A S) (r : ℕ) (runtime : Runtime A σ I) : Prop :=
  Lib.Anchored heap (fun compiled ↦ lossObject heap compiled.template.lossFn) Key.at
    (fun t compiled ↦ Serves heap t compiled.template ∧ compiled.Suits r t.signature) runtime.functions

/-- The program of the function is in the pool of the runtime under the same key. -/
def Shared (w : World A S σ I) (runtime : Runtime A σ I) (k : Key A σ) (b : ReboundSuffixTraining σ I) : Prop :=
  ∃ p pool, runtime.pool = some p ∧ w.pools.get? p = some pool ∧
    pool.functions.get? k = some (b.concrete.template, b.concrete) ∧
      Replaced w.heap pool.source runtime.canonicalVariables b

structure Inv (w : World A S σ I) : Prop where
  noneLive : pyNone ∈ w.heap.live
  runtimes : ∀ r runtime, w.runtimes.get? r = some runtime → ∀ o ∈ runtime.roots, o ∈ w.heap.live
  pools : ∀ p pool, w.pools.get? p = some pool → ∀ o ∈ pool.roots, o ∈ w.heap.live
  poolOf : ∀ r runtime p, w.runtimes.get? r = some runtime → runtime.pool = some p → ∃ pool, w.pools.get? p = some pool
  made : ∀ r, w.made ≤ r → w.runtimes.get? r = none ∧ w.pools.get? r = none
  poolAnchored : ∀ p pool, w.pools.get? p = some pool → pool.Anchored w.heap
  anchored : ∀ r runtime, w.runtimes.get? r = some runtime → runtime.Anchored w.heap r
  shared : ∀ r runtime, w.runtimes.get? r = some runtime → ∀ k b, runtime.functions.get? k = some (.rebound b) →
    Shared w runtime k b

/-! ### What is reachable -/

variable {w : World A S σ I}

omit [DecidableEq A] [DecidableEq S] [DecidableEq σ] in
theorem mem_roots_iff {o : ℕ} : o ∈ w.roots ↔ o = pyNone ∨
    (∃ r runtime, w.runtimes.get? r = some runtime ∧ o ∈ runtime.roots) ∨
      ∃ p pool, w.pools.get? p = some pool ∧ o ∈ pool.roots := by
  rw [World.roots, List.cons_append, List.mem_cons, List.mem_append, List.mem_flatMap, List.mem_flatMap]
  simp only [Dict.mem_values_iff, ← exists_and_right]
  refine or_congr_right (or_congr exists_comm exists_comm)

omit [DecidableEq S] in
theorem mem_roots_of_shared {pool : Pool A σ I} {k : Key A σ} {e : CompiledSuffixTraining × Concrete σ I}
    (h : pool.functions.get? k = some e) : e.1.lossFn ∈ pool.roots := by
  refine List.mem_append_right _ (List.mem_flatMap.mpr ⟨e, pool.functions.mem_values_iff.mpr ⟨k, h⟩, ?_⟩)
  exact List.mem_cons_self

/-- Every loss that a program of a runtime was made for is reachable. -/
theorem Inv.mem_roots (hinv : Inv w) {r : ℕ} {runtime : Runtime A σ I} (hr : w.runtimes.get? r = some runtime)
    {k : Key A σ} {compiled : Compiled σ I} (h : runtime.functions.get? k = some compiled) :
    compiled.template.lossFn ∈ w.roots := by
  cases compiled with
  | own template signature =>
    refine mem_roots_iff.mpr (.inr (.inl ⟨r, runtime, hr, List.mem_append_right _ (List.mem_flatMap.mpr ?_)⟩))
    exact ⟨_, runtime.functions.mem_values_iff.mpr ⟨k, h⟩, List.mem_singleton_self _⟩
  | rebound b =>
    obtain ⟨p, pool, -, hp, hk, -⟩ := hinv.shared r runtime hr k b h
    exact mem_roots_iff.mpr (.inr (.inr ⟨p, pool, hp, mem_roots_of_shared hk⟩))

omit [DecidableEq A] [DecidableEq S] in
theorem lossObject_congr (h : heap.Retains heap' kept) {function : ℕ} (hf : kept function) :
    lossObject heap' function = lossObject heap function := by
  rw [lossObject, lossObject, h.node function hf]

omit [DecidableEq A] [DecidableEq S] in
theorem kept_lossObject (h : heap.Retains heap' kept) (hnone : kept pyNone) {function : ℕ} (hf : kept function) :
    kept (lossObject heap function) := by
  unfold lossObject
  split
  · cases howner : (heap.node function).owner with
    | none => exact hnone
    | some owner =>
      refine h.refs function hf owner ?_
      simp [PyObject.refs, howner]
  · exact hf

omit [DecidableEq A] [DecidableEq S] [DecidableEq σ] in
theorem Serves.congr (h : heap.Retains heap' kept) {t : Purpose σ} {template : CompiledSuffixTraining}
    (hf : kept template.lossFn) (hserves : Serves heap t template) : Serves heap' t template :=
  { hserves with method := (congrArg PyObject.method (h.node _ hf)).trans hserves.method }

/-- Where all that is reachable is retained, nothing is lost. -/
theorem Inv.retains (hinv : Inv w) (h : w.heap.Retains heap' kept) (hroots : ∀ o ∈ w.roots, kept o) :
    Inv { w with heap := heap' } := by
  have hnone : kept pyNone := hroots _ (mem_roots_iff.mpr (.inl rfl))
  have hruntime : ∀ r runtime, w.runtimes.get? r = some runtime → ∀ o ∈ runtime.roots, kept o :=
    fun r runtime hr o ho ↦ hroots o (mem_roots_iff.mpr (.inr (.inl ⟨r, runtime, hr, ho⟩)))
  have hpool : ∀ p pool, w.pools.get? p = some pool → ∀ o ∈ pool.roots, kept o :=
    fun p pool hp o ho ↦ hroots o (mem_roots_iff.mpr (.inr (.inr ⟨p, pool, hp, ho⟩)))
  have hanchor : ∀ f, kept f → lossObject heap' f ∈ heap'.live ∧
      heap'.address (lossObject heap' f) = w.heap.address (lossObject w.heap f) := by
    intro f hf
    rw [lossObject_congr h hf]
    exact ⟨h.live' _ (kept_lossObject h hnone hf), h.address _ (kept_lossObject h hnone hf)⟩
  refine ⟨h.live' _ hnone, fun r runtime hr o ho ↦ h.live' o (hruntime r runtime hr o ho),
    fun p pool hp o ho ↦ h.live' o (hpool p pool hp o ho), hinv.poolOf, hinv.made, ?_, ?_, ?_⟩
  · intro p pool hp
    refine (hinv.poolAnchored p pool hp).of_subset (fun _ _ he ↦ he) fun k e he _ ↦ ?_
    have hf := hpool p pool hp _ (mem_roots_of_shared he)
    exact ⟨(hanchor _ hf).1, (hanchor _ hf).2, fun t ht ↦ ⟨ht.1.congr h hf, ht.2⟩⟩
  · intro r runtime hr
    refine (hinv.anchored r runtime hr).of_subset (fun _ _ he ↦ he) fun k compiled he _ ↦ ?_
    have hf := hroots _ (hinv.mem_roots hr he)
    exact ⟨(hanchor _ hf).1, (hanchor _ hf).2, fun t ht ↦ ⟨ht.1.congr h hf, ht.2⟩⟩
  · intro r runtime hr k b hb
    obtain ⟨p, pool, hp, hpools, hk, hreplaced⟩ := hinv.shared r runtime hr k b hb
    refine ⟨p, pool, hp, hpools, hk, hreplaced.congr h ?_ ?_⟩
    · exact fun v hv ↦ hpool p pool hpools v (List.mem_append_left _ hv)
    · exact fun v hv ↦ hruntime r runtime hr v (List.mem_append_left _ hv)

/-! ### Steps -/

/-- A runtime in the place of an older one, or a new one. -/
theorem Inv.setRuntime (hinv : Inv w) {r n : ℕ} {runtime : Runtime A σ I} (hr : r < n) (hn : w.made ≤ n)
    (hlive : ∀ o ∈ runtime.roots, o ∈ w.heap.live)
    (hpool : ∀ p, runtime.pool = some p → ∃ pool, w.pools.get? p = some pool)
    (hanchored : runtime.Anchored w.heap r)
    (hshared : ∀ k b, runtime.functions.get? k = some (.rebound b) → Shared w runtime k b) :
    Inv { w with runtimes := w.runtimes.insert r runtime, made := n } := by
  have hget : ∀ r' runtime', (w.runtimes.insert r runtime).get? r' = some runtime' →
      r' = r ∧ runtime' = runtime ∨ w.runtimes.get? r' = some runtime' := by
    intro r' runtime' h
    rw [Dict.get?_insert] at h
    split at h
    · next heq => exact .inl ⟨heq.symm, (Option.some.inj h).symm⟩
    · exact .inr h
  refine ⟨hinv.noneLive, ?_, hinv.pools, ?_, ?_, hinv.poolAnchored, ?_, ?_⟩
  · intro r' runtime' h
    obtain ⟨rfl, rfl⟩ | h := hget r' runtime' h
    · exact hlive
    · exact hinv.runtimes r' runtime' h
  · intro r' runtime' p h hp
    obtain ⟨rfl, rfl⟩ | h := hget r' runtime' h
    · exact hpool p hp
    · exact hinv.poolOf r' runtime' p h hp
  · intro r' hr'
    have hne : r ≠ r' := (hr.trans_le hr').ne
    rw [Dict.get?_insert, if_neg hne]
    exact hinv.made r' (hn.trans hr')
  · intro r' runtime' h
    obtain ⟨rfl, rfl⟩ | h := hget r' runtime' h
    · exact hanchored
    · exact hinv.anchored r' runtime' h
  · intro r' runtime' h k b hb
    obtain ⟨rfl, rfl⟩ | h := hget r' runtime' h
    · exact hshared k b hb
    · exact hinv.shared r' runtime' h k b hb

/-- The pool has everything that the older one had. -/
def Pool.Grows (old pool : Pool A σ I) : Prop :=
  pool.runtime = old.runtime ∧ pool.source = old.source ∧
    ∀ k e, old.functions.get? k = some e → pool.functions.get? k = some e

theorem Shared.setPool {runtime : Runtime A σ I} {k : Key A σ} {b : ReboundSuffixTraining σ I} {p n : ℕ}
    {pool : Pool A σ I} (h : Shared w runtime k b) (hold : ∀ old, w.pools.get? p = some old → old.Grows pool) :
    Shared { w with pools := w.pools.insert p pool, made := n } runtime k b := by
  obtain ⟨p', pool', hp', hget, hk, hreplaced⟩ := h
  by_cases heq : p = p'
  · subst heq
    obtain ⟨-, hsource, hgrows⟩ := hold pool' hget
    exact ⟨p, pool, hp', by rw [Dict.get?_insert, if_pos rfl], hgrows _ _ hk, hsource ▸ hreplaced⟩
  · exact ⟨p', pool', hp', by rw [Dict.get?_insert, if_neg heq]; exact hget, hk, hreplaced⟩

theorem Inv.setPool (hinv : Inv w) {p n : ℕ} {pool : Pool A σ I} (hp : p < n) (hn : w.made ≤ n)
    (hlive : ∀ o ∈ pool.roots, o ∈ w.heap.live) (hanchored : pool.Anchored w.heap)
    (hold : ∀ old, w.pools.get? p = some old → old.Grows pool) :
    Inv { w with pools := w.pools.insert p pool, made := n } := by
  have hget : ∀ p' pool', (w.pools.insert p pool).get? p' = some pool' →
      p' = p ∧ pool' = pool ∨ w.pools.get? p' = some pool' := by
    intro p' pool' h
    rw [Dict.get?_insert] at h
    split at h
    · next heq => exact .inl ⟨heq.symm, (Option.some.inj h).symm⟩
    · exact .inr h
  refine ⟨hinv.noneLive, hinv.runtimes, ?_, ?_, ?_, ?_, hinv.anchored, ?_⟩
  · intro p' pool' h
    obtain ⟨rfl, rfl⟩ | h := hget p' pool' h
    · exact hlive
    · exact hinv.pools p' pool' h
  · intro r runtime p' h hp'
    obtain ⟨pool', hpool'⟩ := hinv.poolOf r runtime p' h hp'
    by_cases heq : p = p'
    · exact ⟨pool, by rw [Dict.get?_insert, if_pos heq]⟩
    · exact ⟨pool', by rw [Dict.get?_insert, if_neg heq]; exact hpool'⟩
  · intro r hr
    have hne : p ≠ r := (hp.trans_le hr).ne
    rw [Dict.get?_insert, if_neg hne]
    exact hinv.made r (hn.trans hr)
  · intro p' pool' h
    obtain ⟨rfl, rfl⟩ | h := hget p' pool' h
    · exact hanchored
    · exact hinv.poolAnchored p' pool' h
  · exact fun r runtime hr k b hb ↦ (hinv.shared r runtime hr k b hb).setPool hold

theorem Inv.newRuntime (hinv : Inv w) {canonicalVariables : Dict String ℕ} {pool : Option ℕ}
    (hlive : ∀ o ∈ canonicalVariables.values, o ∈ w.heap.live) (hpool : ∀ p ∈ pool, ∃ q, w.pools.get? p = some q) :
    Inv (w.newRuntime canonicalVariables pool) := by
  refine hinv.setRuntime (Nat.lt_succ_self _) (Nat.le_succ _) ?_ hpool .empty fun _ _ h ↦ nomatch h
  intro o ho
  rw [Runtime.roots] at ho
  exact hlive o ((List.mem_append.mp ho).resolve_right List.not_mem_nil)

theorem Inv.sharedPool (hinv : Inv w) {base : ℕ} {runtime : Runtime A σ I}
    (hbase : w.runtimes.get? base = some runtime) :
    Inv (w.sharedPool base runtime).2 ∧
      ∃ pool, (w.sharedPool base runtime).2.pools.get? (w.sharedPool base runtime).1 = some pool := by
  unfold World.sharedPool
  cases hp : runtime.pool with
  | some p => exact ⟨hinv, hinv.poolOf base runtime p hbase hp⟩
  | none =>
    dsimp only
    have hlt : base < w.made := by
      by_contra hle
      rw [(hinv.made base (not_lt.mp hle)).1] at hbase
      cases hbase
    have hvariables := hinv.runtimes base runtime hbase
    have hpools : Inv { w with
        pools := w.pools.insert w.made ⟨base, runtime.canonicalVariables, .empty, [], 0⟩, made := w.made + 1 } := by
      refine hinv.setPool (Nat.lt_succ_self _) (Nat.le_succ _) ?_ .empty fun old hold ↦ ?_
      · intro o ho
        rw [Pool.roots] at ho
        exact hvariables o (List.mem_append_left _ ((List.mem_append.mp ho).resolve_right List.not_mem_nil))
      · rw [(hinv.made w.made le_rfl).2] at hold
        cases hold
    have hmade : (w.pools.insert w.made ⟨base, runtime.canonicalVariables, .empty, [], 0⟩).get? w.made =
        some (⟨base, runtime.canonicalVariables, .empty, [], 0⟩ : Pool A σ I) := by
      rw [Dict.get?_insert, if_pos rfl]
    refine ⟨?_, _, hmade⟩
    refine hpools.setRuntime (hlt.trans (Nat.lt_succ_self _)) le_rfl hvariables ?_
      (hinv.anchored base runtime hbase) fun k b hb ↦ ?_
    · rintro p ⟨⟩
      exact ⟨_, hmade⟩
    · -- A runtime without a pool has no rebound program.
      obtain ⟨p, pool, hpool, -⟩ := hinv.shared base runtime hbase k b hb
      rw [hp] at hpool
      cases hpool

theorem Inv.dropRuntime (hinv : Inv w) (r : ℕ) : Inv { w with runtimes := w.runtimes.erase r } := by
  have hget : ∀ r' runtime, (w.runtimes.erase r).get? r' = some runtime → w.runtimes.get? r' = some runtime := by
    intro r' runtime h
    rw [Dict.get?_erase] at h
    split at h
    · cases h
    · exact h
  refine ⟨hinv.noneLive, fun r' runtime h ↦ hinv.runtimes r' runtime (hget r' runtime h), hinv.pools,
    fun r' runtime p h ↦ hinv.poolOf r' runtime p (hget r' runtime h), ?_, hinv.poolAnchored,
    fun r' runtime h ↦ hinv.anchored r' runtime (hget r' runtime h),
    fun r' runtime h ↦ hinv.shared r' runtime (hget r' runtime h)⟩
  intro r' hr'
  refine ⟨?_, (hinv.made r' hr').2⟩
  rw [Dict.get?_erase, (hinv.made r' hr').1, ite_self]

/-- A pool goes when no runtime has it. -/
theorem Inv.dropPool (hinv : Inv w) {p : ℕ} (hp : ∀ runtime ∈ w.runtimes.values, runtime.pool ≠ some p) :
    Inv { w with pools := w.pools.erase p } := by
  have hget : ∀ p' pool, (w.pools.erase p).get? p' = some pool → w.pools.get? p' = some pool := by
    intro p' pool h
    rw [Dict.get?_erase] at h
    split at h
    · cases h
    · exact h
  have hkeep : ∀ r runtime p' pool, w.runtimes.get? r = some runtime → runtime.pool = some p' →
      w.pools.get? p' = some pool → (w.pools.erase p).get? p' = some pool := by
    intro r runtime p' pool hr hpool hget
    have hne : p ≠ p' := by
      rintro rfl
      exact hp runtime (w.runtimes.mem_values_iff.mpr ⟨r, hr⟩) hpool
    rw [Dict.get?_erase, if_neg hne]
    exact hget
  refine ⟨hinv.noneLive, hinv.runtimes, fun p' pool h ↦ hinv.pools p' pool (hget p' pool h), ?_, ?_,
    fun p' pool h ↦ hinv.poolAnchored p' pool (hget p' pool h), hinv.anchored, ?_⟩
  · intro r runtime p' hr hpool
    obtain ⟨pool, hpool'⟩ := hinv.poolOf r runtime p' hr hpool
    exact ⟨pool, hkeep r runtime p' pool hr hpool hpool'⟩
  · intro r hr
    refine ⟨(hinv.made r hr).1, ?_⟩
    rw [Dict.get?_erase, (hinv.made r hr).2, ite_self]
  · intro r runtime hr k b hb
    obtain ⟨p', pool, hpool, hpool', hk, hreplaced⟩ := hinv.shared r runtime hr k b hb
    exact ⟨p', pool, hpool, hkeep r runtime p' pool hr hpool hpool', hk, hreplaced⟩

theorem inv_start (address : A) : Inv (start address : World A S σ I) where
  noneLive := List.mem_singleton_self _
  runtimes _ _ h := nomatch h
  pools _ _ h := nomatch h
  poolOf _ _ _ h := nomatch h
  made _ _ := ⟨rfl, rfl⟩
  poolAnchored _ _ h := nomatch h
  anchored _ _ h := nomatch h
  shared _ _ h := nomatch h

/-! ### A request -/

/-- The very loss, or a method of the same owner. -/
def SameLoss (heap : Heap A S) (f g : ℕ) : Prop :=
  f = g ∨ ∃ method, (heap.node f).method = some method ∧ (heap.node g).method = some method ∧
    (heap.node f).owner.getD pyNone = (heap.node g).owner.getD pyNone

omit [DecidableEq A] [DecidableEq S] in
theorem sameLoss_of_lossObject {f g : ℕ} (hmethod : (heap.node f).method = (heap.node g).method)
    (h : lossObject heap f = lossObject heap g) : SameLoss heap f g := by
  rw [lossObject, lossObject, hmethod] at h
  cases hg : (heap.node g).method with
  | none =>
    simp only [hg, Option.isSome_none, Bool.false_eq_true, if_false] at h
    exact .inl h
  | some method =>
    simp only [hg, Option.isSome_some, if_true] at h
    exact .inr ⟨method, hmethod.trans hg, hg, h⟩

/-- The program was compiled for the loss, the batch size, the flags and the signature of the request, and it works on
the variables of the runtime. -/
structure RunsFor (L : Library T σ I) (w : World A S σ I) (r : ℕ) (runtime : Runtime A σ I) (q : Request I T)
    (compiled : Compiled σ I) : Prop where
  loss : SameLoss w.heap compiled.template.lossFn q.lossFn
  batch : compiled.template.batch = q.batch
  update : compiled.template.update = q.update
  auxiliary : compiled.template.auxiliary = q.auxiliary
  suits : compiled.Suits r (L.signature q.inputs)
  replaced : ∀ b, compiled = .rebound b → ∃ p pool, runtime.pool = some p ∧ w.pools.get? p = some pool ∧
    b.concrete.template.runtime = pool.runtime ∧ Replaced w.heap pool.source runtime.canonicalVariables b

/-- What a program that a pool hands out for a request has. -/
structure HandedOut (L : Library T σ I) (heap : Heap A S) (q : Request I T) (target : Dict String ℕ) (pool : Pool A σ I)
    (b : ReboundSuffixTraining σ I) : Prop where
  stored : pool.functions.get? (keyOf L heap q) = some (b.concrete.template, b.concrete)
  loss : lossObject heap b.concrete.template.lossFn = lossObject heap q.lossFn
  serves : Serves heap (purposeOf L heap q) b.concrete.template
  runtime : b.concrete.template.runtime = pool.runtime
  signature : b.concrete.signature = L.signature q.inputs
  replaced : Replaced heap pool.source target b

theorem Inv.lossObject_live (hinv : Inv w) {function : ℕ} (h : function ∈ w.heap.live) :
    lossObject w.heap function ∈ w.heap.live := by
  unfold lossObject
  split
  · cases howner : (w.heap.node function).owner with
    | none => exact hinv.noneLive
    | some owner =>
      refine w.heap.closed function h owner ?_
      simp [PyObject.refs, howner]
  · exact h

omit [DecidableEq S] in
theorem Pool.live_of_get? {pool : Pool A σ I} {k : Key A σ} {e : CompiledSuffixTraining × Concrete σ I}
    (hlive : ∀ o ∈ pool.roots, o ∈ heap.live) (h : pool.functions.get? k = some e) : e.2.graph.Live heap := by
  have hroots : ∀ o ∈ e.2.graph.capturedInputs.map Capture.object ++ e.2.graph.suffixVariables, o ∈ heap.live := by
    intro o ho
    refine hlive o (List.mem_append_right _ (List.mem_flatMap.mpr ⟨e, pool.functions.mem_values_iff.mpr ⟨k, h⟩, ?_⟩))
    exact List.mem_cons_of_mem _ ho
  exact ⟨fun c hc ↦ hroots _ (List.mem_append_left _ (List.mem_map_of_mem hc)),
    fun o ho ↦ hroots o (List.mem_append_right _ ho)⟩

/-- A pool that served a request. -/
structure Pool.Served (L : Library T σ I) (heap : Heap A S) (q : Request I T) (target : Dict String ℕ)
    (old : Pool A σ I) (result : Pool A σ I × Except PyError (Option (ReboundSuffixTraining σ I))) : Prop where
  grows : old.Grows result.1
  live : ∀ o ∈ result.1.roots, o ∈ heap.live
  anchored : result.1.Anchored heap
  handedOut : ∀ b, result.2 = .ok (some b) → HandedOut L heap q target result.1 b

/-- A program that is there for the request is handed out with the variables of this replica. -/
theorem Inv.handedOut (hinv : Inv w) {p : ℕ} {pool : Pool A σ I} (hp : w.pools.get? p = some pool) {q : Request I T}
    (hloss : q.lossFn ∈ w.heap.live) {target : Dict String ℕ} {e : CompiledSuffixTraining × Concrete σ I}
    {b : ReboundSuffixTraining σ I} (hget : pool.functions.get? (keyOf L w.heap q) = some e)
    (hb : rebind w.heap e.2 pool.source target = .ok b) : HandedOut L w.heap q target pool b := by
  obtain ⟨template, concrete⟩ := e
  have hlive := hinv.pools p pool hp
  obtain ⟨rfl, hreplaced⟩ := rebind_eq_ok hb (Pool.live_of_get? hlive hget)
    fun v hv ↦ hlive v (List.mem_append_left _ hv)
  have hfound := hget
  rw [keyOf_eq] at hfound
  obtain ⟨hobject, hserves, hruntime, htemplate, hsignature⟩ :=
    (hinv.poolAnchored p pool hp).found Key.at_inj (hinv.lossObject_live hloss) hfound
  dsimp only at hobject hserves hruntime htemplate hsignature
  subst htemplate
  exact ⟨hget, hobject, hserves, hruntime, hsignature, hreplaced⟩

theorem Inv.compiled (hinv : Inv w) {p : ℕ} {pool : Pool A σ I} (hp : w.pools.get? p = some pool) {q : Request I T}
    (hloss : q.lossFn ∈ w.heap.live) {graph : Graph I} (hgraph : graph.Live w.heap) {target : Dict String ℕ}
    {b : ReboundSuffixTraining σ I} (hget : pool.functions.get? (keyOf L w.heap q) = none)
    (hb : rebind w.heap (pool.compiledFor L w.heap q graph).2 pool.source target = .ok b) :
    pool.Served L w.heap q target ({ pool with
      functions := pool.functions.insert (keyOf L w.heap q) (pool.compiledFor L w.heap q graph)
      compileCount := pool.compileCount + 1 }, .ok (some b)) := by
  have hlive := hinv.pools p pool hp
  obtain ⟨hconcrete, hreplaced⟩ := rebind_eq_ok hb hgraph fun v hv ↦ hlive v (List.mem_append_left _ hv)
  refine ⟨⟨rfl, rfl, ?_⟩, ?_, ?_, ?_⟩
  · intro k e he
    dsimp only
    rw [Dict.get?_insert, if_neg]
    · exact he
    · rintro rfl
      rw [hget] at he
      cases he
  · intro o ho
    dsimp only [Pool.roots] at ho
    obtain ho | ho := List.mem_append.mp ho
    · exact hlive o (List.mem_append_left _ ho)
    · obtain ⟨e, he, ho⟩ := List.mem_flatMap.mp ho
      obtain ⟨k, hk⟩ := (Dict.mem_values_iff _).mp he
      rw [Dict.get?_insert] at hk
      split at hk
      · obtain rfl := Option.some.inj hk
        obtain ho | ho := List.mem_append.mp ho
        · obtain rfl | ho := List.mem_cons.mp ho
          · exact hloss
          · obtain ⟨c, hc, rfl⟩ := List.mem_map.mp ho
            exact hgraph.1 c hc
        · exact hgraph.2 o ho
      · refine hlive o (List.mem_append_right _ (List.mem_flatMap.mpr ⟨e, ?_, ho⟩))
        exact pool.functions.mem_values_iff.mpr ⟨k, hk⟩
  · exact (hinv.poolAnchored p pool hp).insert (t := purposeOf L w.heap q)
      (e := pool.compiledFor L w.heap q graph) (hinv.lossObject_live hloss)
      ⟨⟨rfl, rfl, rfl, rfl⟩, rfl, rfl, rfl⟩
  · rintro b' ⟨⟩
    refine ⟨?_, ?_, ?_, ?_, ?_, hreplaced⟩
    · dsimp only
      rw [Dict.get?_insert, if_pos rfl, hconcrete]
      rfl
    · rw [hconcrete]
      rfl
    · rw [hconcrete]
      exact ⟨rfl, rfl, rfl, rfl⟩
    · rw [hconcrete]
      rfl
    · rw [hconcrete]
      rfl

theorem Inv.bind (hinv : Inv w) {p : ℕ} {pool : Pool A σ I} (hp : w.pools.get? p = some pool) {q : Request I T}
    (hloss : q.lossFn ∈ w.heap.live) (hgraph : ∀ graph, q.traced = .ok graph → graph.Live w.heap)
    (target : Dict String ℕ) : pool.Served L w.heap q target (pool.bind L w.heap q target) := by
  -- Where nothing is compiled, the functions are as before.
  have hsame : ∀ rejected answer, (∀ b, answer = .ok (some b) → HandedOut L w.heap q target pool b) →
      pool.Served L w.heap q target ({ pool with rejected := rejected }, answer) := fun rejected answer h ↦
    ⟨⟨rfl, rfl, fun _ _ h ↦ h⟩, hinv.pools p pool hp, hinv.poolAnchored p pool hp, fun b hb ↦
      { h b hb with }⟩
  unfold Pool.bind
  dsimp only
  split
  · exact hsame pool.rejected _ fun b hb ↦ by cases hb
  cases hget : pool.functions.get? (keyOf L w.heap q) with
  | some e =>
    refine hsame pool.rejected _ fun b hb ↦ ?_
    cases hrebind : rebind w.heap e.2 pool.source target with
    | error e' =>
      rw [hrebind] at hb
      cases hb
    | ok bound =>
      rw [hrebind] at hb
      cases hb
      exact hinv.handedOut hp hloss hget hrebind
  | none =>
    dsimp only
    cases htraced : q.traced with
    | error e => exact hsame pool.rejected _ fun b hb ↦ by cases hb
    | ok graph =>
      dsimp only
      cases hrebind : rebind w.heap (pool.compiledFor L w.heap q graph).2 pool.source target with
      | ok bound => exact hinv.compiled hp hloss (hgraph graph htraced) hget hrebind
      | error e =>
        dsimp only
        split
        · exact hsame _ _ fun b hb ↦ by cases hb
        · exact hsame pool.rejected _ fun b hb ↦ by cases hb

/-! ### Training -/

/-- Nothing but the pools changes. -/
structure Beside (w s : World A S σ I) : Prop where
  heap : s.heap = w.heap
  runtimes : s.runtimes = w.runtimes
  made : s.made = w.made

omit [DecidableEq A] [DecidableEq S] [DecidableEq σ] in
theorem Beside.refl (w : World A S σ I) : Beside w w := ⟨rfl, rfl, rfl⟩

/-- The program is in the pool of the runtime, for the request. -/
def Bound (L : Library T σ I) (s : World A S σ I) (q : Request I T) (runtime : Runtime A σ I)
    (b : ReboundSuffixTraining σ I) : Prop :=
  ∃ p pool, runtime.pool = some p ∧ s.pools.get? p = some pool ∧
    HandedOut L s.heap q runtime.canonicalVariables pool b

theorem triple_bindShared (hinv : Inv w) {q : Request I T} (hloss : q.lossFn ∈ w.heap.live)
    (hgraph : ∀ graph, q.traced = .ok graph → graph.Live w.heap) {runtime : Runtime A σ I} {p : ℕ}
    (hp : runtime.pool = some p) :
    Method.Triple (· = w) (bindShared L q runtime.canonicalVariables p)
      (fun bound s ↦ Inv s ∧ Beside w s ∧ ∀ b ∈ bound, Bound L s q runtime b) Inv := by
  refine .get_bind fun s₀ hs₀ ↦ ?_
  subst hs₀
  dsimp only
  cases hget : s₀.pools.get? p with
  | none => exact .throw fun s hs ↦ hs.1 ▸ hinv
  | some pool =>
    dsimp only
    have hserved := hinv.bind (L := L) hget hloss hgraph runtime.canonicalVariables
    have hlt : p < s₀.made := by
      by_contra hle
      rw [(hinv.made p (not_lt.mp hle)).2] at hget
      cases hget
    have hinv' := hinv.setPool hlt le_rfl hserved.live hserved.anchored fun old hold ↦ by
      obtain rfl := Option.some.inj (hget.symm.trans hold)
      exact hserved.grows
    refine .modify_bind (I := fun s ↦ s = { s₀ with
      pools := s₀.pools.insert p (pool.bind L s₀.heap q runtime.canonicalVariables).1 }) (fun s hs ↦ hs.1 ▸ rfl) ?_
    cases hanswer : (pool.bind L s₀.heap q runtime.canonicalVariables).2 with
    | ok bound =>
      refine .pure ?_
      rintro s rfl
      refine ⟨hinv', ⟨rfl, rfl, rfl⟩, ?_⟩
      rintro b rfl
      exact ⟨p, _, hp, by rw [Dict.get?_insert, if_pos rfl], hserved.handedOut b hanswer⟩
    | error e =>
      dsimp only
      refine .ite (fun _ ↦ .pure ?_) fun _ ↦ .throw ?_
      · rintro s rfl
        exact ⟨hinv', ⟨rfl, rfl, rfl⟩, fun b hb ↦ nomatch hb⟩
      · rintro s rfl
        exact hinv'

/-- What a runtime has under the key of a request was made for this loss. -/
theorem Inv.cached (hinv : Inv w) {r : ℕ} {runtime : Runtime A σ I} (hr : w.runtimes.get? r = some runtime)
    {q : Request I T} (hloss : q.lossFn ∈ w.heap.live) {compiled : Compiled σ I}
    (hget : runtime.functions.get? (keyOf L w.heap q) = some compiled) : RunsFor L w r runtime q compiled := by
  have hfound := hget
  rw [keyOf_eq] at hfound
  obtain ⟨hobject, hserves, hsuits⟩ :=
    (hinv.anchored r runtime hr).found Key.at_inj (hinv.lossObject_live hloss) hfound
  refine ⟨sameLoss_of_lossObject hserves.method hobject, hserves.batch, hserves.update, hserves.auxiliary, hsuits, ?_⟩
  rintro b rfl
  obtain ⟨p, pool, hp, hpool, hk, hreplaced⟩ := hinv.shared r runtime hr _ b hget
  rw [keyOf_eq] at hk
  obtain ⟨-, -, hruntime, -⟩ := (hinv.poolAnchored p pool hpool).found Key.at_inj (hinv.lossObject_live hloss) hk
  exact ⟨p, pool, hp, hpool, hruntime, hreplaced⟩

omit [DecidableEq A] [DecidableEq σ] in
theorem RunsFor.own (r : ℕ) (runtime : Runtime A σ I) (q : Request I T) :
    RunsFor L w r runtime q (.own ⟨r, q.batch, q.lossFn, q.update, q.auxiliary⟩ (L.signature q.inputs)) :=
  ⟨.inl rfl, rfl, rfl, rfl, ⟨rfl, rfl⟩, fun _ h ↦ nomatch h⟩

theorem RunsFor.rebound {r : ℕ} {runtime : Runtime A σ I} {q : Request I T} {b : ReboundSuffixTraining σ I}
    (h : Bound L w q runtime b) : RunsFor L w r runtime q (.rebound b) := by
  obtain ⟨p, pool, hp, hpool, hb⟩ := h
  refine ⟨sameLoss_of_lossObject hb.serves.method hb.loss, hb.serves.batch, hb.serves.update, hb.serves.auxiliary,
    hb.signature, ?_⟩
  rintro b' ⟨⟩
  exact ⟨p, pool, hp, hpool, hb.runtime, hb.replaced⟩

theorem Inv.put (hinv : Inv w) {r : ℕ} {runtime : Runtime A σ I} (hr : w.runtimes.get? r = some runtime)
    {q : Request I T} {compiled : Compiled σ I} (hlive : ∀ o ∈ compiled.roots, o ∈ w.heap.live)
    (hobject : lossObject w.heap compiled.template.lossFn = lossObject w.heap q.lossFn) (hloss : q.lossFn ∈ w.heap.live)
    (hserves : Serves w.heap (purposeOf L w.heap q) compiled.template)
    (hsuits : compiled.Suits r (L.signature q.inputs))
    (hshared : ∀ b, compiled = .rebound b → Shared w runtime (keyOf L w.heap q) b) :
    Inv { w with runtimes := w.runtimes.insert r (runtime.put (keyOf L w.heap q) compiled) } := by
  have hlt : r < w.made := by
    by_contra hle
    rw [(hinv.made r (not_lt.mp hle)).1] at hr
    cases hr
  refine hinv.setRuntime hlt le_rfl ?_ (fun p hp ↦ hinv.poolOf r runtime p hr hp) ?_ ?_
  · intro o ho
    obtain ho | ho := List.mem_append.mp ho
    · exact hinv.runtimes r runtime hr o (List.mem_append_left _ ho)
    · obtain ⟨compiled', hcompiled, ho⟩ := List.mem_flatMap.mp ho
      obtain ⟨k, hk⟩ := (Dict.mem_values_iff _).mp hcompiled
      rw [Runtime.put, Dict.get?_insert] at hk
      split at hk
      · obtain rfl := Option.some.inj hk
        exact hlive o ho
      · refine hinv.runtimes r runtime hr o (List.mem_append_right _ (List.mem_flatMap.mpr ⟨compiled', ?_, ho⟩))
        exact runtime.functions.mem_values_iff.mpr ⟨k, hk⟩
  · have hinsert := (hinv.anchored r runtime hr).insert (t := purposeOf L w.heap q) (e := compiled)
      (hobject ▸ hinv.lossObject_live hloss) ⟨hserves, hsuits⟩
    rw [hobject, ← keyOf_eq] at hinsert
    exact hinsert
  · intro k b hb
    rw [Runtime.put, Dict.get?_insert] at hb
    split at hb
    · next hk => exact hk ▸ hshared b (Option.some.inj hb)
    · exact hinv.shared r runtime hr k b hb

theorem Inv.putBound (hinv : Inv w) {r : ℕ} {runtime : Runtime A σ I} (hr : w.runtimes.get? r = some runtime)
    {q : Request I T} (hloss : q.lossFn ∈ w.heap.live) {b : ReboundSuffixTraining σ I} (hb : Bound L w q runtime b) :
    Inv { w with runtimes := w.runtimes.insert r (runtime.put (keyOf L w.heap q) (.rebound b)) } := by
  obtain ⟨p, pool, hp, hpool, hb⟩ := hb
  refine hinv.put hr ?_ hb.loss hloss hb.serves hb.signature ?_
  · refine hb.replaced.live (Pool.live_of_get? (hinv.pools p pool hpool) hb.stored) fun v hv ↦ ?_
    exact hinv.runtimes r runtime hr v (List.mem_append_left _ hv)
  · rintro b' ⟨⟩
    exact ⟨p, pool, hp, hpool, hb.stored, hb.replaced⟩

theorem Inv.putOwn (hinv : Inv w) {r : ℕ} {runtime : Runtime A σ I} (hr : w.runtimes.get? r = some runtime)
    {q : Request I T} (hloss : q.lossFn ∈ w.heap.live) :
    Inv { w with runtimes := w.runtimes.insert r (runtime.put (keyOf L w.heap q)
      (.own ⟨r, q.batch, q.lossFn, q.update, q.auxiliary⟩ (L.signature q.inputs))) } := by
  refine hinv.put hr ?_ rfl hloss ⟨rfl, rfl, rfl, rfl⟩ ⟨rfl, rfl⟩ fun b hb ↦ nomatch hb
  intro o ho
  obtain rfl := List.mem_singleton.mp ho
  exact hloss

theorem triple_askPool (hinv : Inv w) {q : Request I T} (hloss : q.lossFn ∈ w.heap.live)
    (hgraph : ∀ graph, q.traced = .ok graph → graph.Live w.heap) (runtime : Runtime A σ I) :
    Method.Triple (· = w) (askPool L runtime q (keyOf L w.heap q))
      (fun bound s ↦ Inv s ∧ Beside w s ∧ ∀ b ∈ bound, Bound L s q runtime b) Inv := by
  have hnothing : Method.Triple (· = w) (pure none : Method (World A S σ I) _)
      (fun bound s ↦ Inv s ∧ Beside w s ∧ ∀ b ∈ bound, Bound L s q runtime b) Inv := by
    refine .pure ?_
    rintro s rfl
    exact ⟨hinv, .refl _, fun b hb ↦ nomatch hb⟩
  unfold askPool
  cases hp : runtime.pool with
  | none => exact hnothing
  | some p => exact .ite (fun _ ↦ triple_bindShared hinv hloss hgraph hp) fun _ ↦ hnothing

/-- The program of a runtime for a request, found or made. -/
theorem triple_compile (hinv : Inv w) {r : ℕ} {runtime : Runtime A σ I} (hr : w.runtimes.get? r = some runtime)
    {q : Request I T} (hloss : q.lossFn ∈ w.heap.live) (hgraph : ∀ graph, q.traced = .ok graph → graph.Live w.heap) :
    Method.Triple (· = w) (compile L r runtime q) (fun compiled s ↦ Inv s ∧ RunsFor L s r runtime q compiled) Inv := by
  refine .get_bind fun s₀ hs₀ ↦ ?_
  subst hs₀
  dsimp only
  cases hget : runtime.functions.get? (keyOf L s₀.heap q) with
  | some compiled =>
    refine .pure ?_
    rintro s ⟨rfl, -⟩
    exact ⟨hinv, hinv.cached hr hloss hget⟩
  | none =>
    dsimp only
    refine .bind ((triple_askPool hinv hloss hgraph runtime).mono (fun s hs ↦ hs.1) (fun _ _ h ↦ h) fun _ h ↦ h)
      fun bound ↦ ?_
    -- The key was taken before, with the same addresses.
    have hkey : ∀ s : World A S σ I, Beside s₀ s → keyOf L s₀.heap q = keyOf L s.heap q := fun s hs ↦ by rw [hs.heap]
    cases bound with
    | none =>
      refine .modify_bind (I := fun s ↦ Inv s ∧ RunsFor L s r runtime q _) (fun s hs ↦ ?_) (.pure fun s hs ↦ hs)
      obtain ⟨hs, hbeside, -⟩ := hs
      rw [hkey s hbeside]
      exact ⟨hs.putOwn (hbeside.runtimes ▸ hr) (hbeside.heap ▸ hloss), .own r runtime q⟩
    | some b =>
      refine .modify_bind (I := fun s ↦ Inv s ∧ RunsFor L s r runtime q _) (fun s hs ↦ ?_) (.pure fun s hs ↦ hs)
      obtain ⟨hs, hbeside, hb⟩ := hs
      rw [hkey s hbeside]
      exact ⟨hs.putBound (hbeside.runtimes ▸ hr) (hbeside.heap ▸ hloss) (hb b rfl), .rebound (hb b rfl)⟩

theorem triple_train (hinv : Inv w) {q : Request I T} (hloss : q.lossFn ∈ w.heap.live)
    (hgraph : ∀ graph, q.traced = .ok graph → graph.Live w.heap) (r : ℕ) :
    Method.Triple (· = w) (trainTensorflowFunctionSuffix L r q)
      (fun compiled s ↦ Inv s ∧ ∃ runtime, w.runtimes.get? r = some runtime ∧ RunsFor L s r runtime q compiled)
      Inv := by
  refine .lift_bind (fun _ _ ↦ ?_) fun s hs ↦ hs ▸ hinv
  refine .get_bind fun s₀ hs₀ ↦ ?_
  subst hs₀
  cases hr : s₀.runtimes.get? r with
  | none => exact .throw fun s hs ↦ hs.1 ▸ hinv
  | some runtime =>
    dsimp only
    refine .bind ((triple_compile hinv hr hloss hgraph).mono (fun s hs ↦ hs.1) (fun _ _ h ↦ h) fun _ h ↦ h)
      fun compiled ↦ ?_
    refine .lift_bind (fun _ _ ↦ .pure fun s hs ↦ ?_) fun s hs ↦ hs.1
    exact ⟨hs.1, runtime, rfl, hs.2⟩

theorem step_inv (hinv : Inv w) {event : Event A S I T} (hadmitted : Admitted w event) {w' : World A S σ I}
    (h : step L w event = some w') : Inv w' := by
  cases event with
  | create address object =>
    rw [step] at h
    split at h
    · next hfree =>
      cases h
      have hlive : ∀ o ∈ w.roots, o ∈ w.heap.live := by
        intro o ho
        obtain rfl | ⟨r, runtime, hr, ho⟩ | ⟨p, pool, hp, ho⟩ := mem_roots_iff.mp ho
        · exact hinv.noneLive
        · exact hinv.runtimes r runtime hr o ho
        · exact hinv.pools p pool hp o ho
      exact hinv.retains (Memory.retains_allocate hfree.1 hfree.2) hlive
    · cases h
  | prepare canonicalVariables =>
    rw [step] at h
    split at h
    · next hlive =>
      cases h
      exact hinv.newRuntime hlive fun p hp ↦ nomatch hp
    · cases h
  | clone base canonicalVariables =>
    rw [step] at h
    split at h
    · cases h
    · next runtime hbase =>
      split at h
      · next hlive =>
        cases h
        obtain ⟨hshared, pool, hpool⟩ := hinv.sharedPool hbase
        have hheap : (w.sharedPool base runtime).2.heap = w.heap := by
          rw [World.sharedPool]
          split <;> rfl
        refine hshared.newRuntime (fun o ho ↦ hheap ▸ hlive o ho) ?_
        rintro p ⟨⟩
        exact ⟨pool, hpool⟩
      · cases h
  | dropRuntime r =>
    cases h
    exact hinv.dropRuntime r
  | dropPool p =>
    rw [step] at h
    split at h
    · next hp =>
      cases h
      exact hinv.dropPool hp
    · cases h
  | collect keep =>
    rw [step] at h
    split at h
    · next hkeep =>
      cases h
      refine hinv.retains (Memory.retains_collect hkeep.1) fun o ho ↦ ⟨?_, hkeep.2 o ho⟩
      obtain rfl | ⟨r, runtime, hr, ho⟩ | ⟨p, pool, hp, ho⟩ := mem_roots_iff.mp ho
      · exact hinv.noneLive
      · exact hinv.runtimes r runtime hr o ho
      · exact hinv.pools p pool hp o ho
    · cases h
  | train r q =>
    cases h
    exact ((triple_train hinv hadmitted.1 hadmitted.2 r).mono (fun _ h ↦ h) (fun _ _ h ↦ h.1) fun _ h ↦ h).after rfl

/-- In every history, a training request executes a program that was compiled for its loss and what else it asks for,
with the variables of its own replica. -/
theorem runsFor_of_reaches (address : A) {w : World A S σ I} (h : Reaches (step L) Admitted (start address) w) {r : ℕ}
    {q : Request I T} (hq : Admitted w (.train r q)) {compiled : Compiled σ I} {w' : World A S σ I}
    (hrun : (trainTensorflowFunctionSuffix L r q).run w = .ok compiled w') :
    ∃ runtime, w.runtimes.get? r = some runtime ∧ RunsFor L w' r runtime q compiled := by
  have hinv : Inv w := h.invariant (inv_start address) fun _ _ _ hs ha hstep ↦ step_inv hs ha hstep
  exact ((triple_train hinv hq.1 hq.2 r w rfl).1 compiled w' hrun).2

/-! One variable `w`, a replica of it, and a loss. -/

def sampleLibrary : Library Unit Unit Unit where
  signature _ := some ()
  compatible _ _ := true
  isValueError _ := false

def sampleVariable (handle : ℕ) : PyObject Unit :=
  { value := .method, handle := some handle, device := some "CPU:0", spec := some () }

def sampleEvents : List (Event ℕ Unit Unit Unit) :=
  [.create 1 {}, .create 2 (sampleVariable 1), .create 3 {}, .create 4 (sampleVariable 3), .create 5 {},
    .prepare (Dict.empty.insert "w" 2), .clone 0 (Dict.empty.insert "w" 4)]

def sampleRequest : Request Unit Unit :=
  ⟨8, (), 5, true, false, .ok (), .ok ⟨[⟨1, true⟩], [2], true, ()⟩, .ok ()⟩

theorem isSome_sampleEvents : (sampleEvents.foldlM (step sampleLibrary) (start 0)).isSome = true := rfl

def sampleWorld : World ℕ Unit Unit Unit := (sampleEvents.foldlM (step sampleLibrary) (start 0)).get isSome_sampleEvents

/-- The replica runs the program of the pool on its own handle and variable. -/
theorem runsFor_of_reaches_sample : ∃ runtime, sampleWorld.runtimes.get? 2 = some runtime ∧
    RunsFor sampleLibrary ((trainTensorflowFunctionSuffix sampleLibrary 2 sampleRequest).after sampleWorld) 2 runtime
      sampleRequest (.rebound ⟨⟨⟨0, 8, 5, true, false⟩, some (), ⟨[⟨1, true⟩], [2], true, ()⟩⟩, [3], [4]⟩) := by
  have hreaches : Reaches (step sampleLibrary) Admitted (start 0) sampleWorld := by
    refine Reaches.start.foldlM (l := sampleEvents) ?_ (Option.some_get isSome_sampleEvents).symm
    simp [sampleEvents, Admitted]
  refine runsFor_of_reaches 0 hreaches ⟨?_, ?_⟩ rfl
  · decide
  · rintro graph ⟨⟩
    decide

end Programs

end SplitFleet.TensorflowForward
