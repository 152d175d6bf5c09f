import SplitFleet.Lib.JsonPointer
import SplitFleet.Lib.Framing
import SplitFleet.Lib.Sorting
import SplitFleet.Lib.DictOrder
import SplitFleet.Lib.Lists

set_option autoImplicit false

namespace SplitFleet.ModelCall

open Lib JsonPointer

/-! ### Signatures and calls -/

structure Parameter where
  name : String
  /-- It has no default. -/
  required : Bool

/-- A parameter that may be passed by position. -/
structure Positional extends Parameter where
  /-- It is not positional-only. -/
  byName : Bool

/-- `inspect.signature(model.forward)` -/
structure Signature where
  positional : List Positional
  /-- There is an `*args`. -/
  varPositional : Bool
  keywordOnly : List Parameter
  /-- There is a `**kwargs`. -/
  varKeyword : Bool
  nodup : (positional.map (·.name) ++ keywordOnly.map (·.name)).Nodup
  /-- `co_argcount` is a C `int`. -/
  count : positional.length < 2 ^ 31

/-- The names that a call may assign to. -/
def Signature.named (sig : Signature) : List String :=
  (sig.positional.filter (·.byName)).map (·.name) ++ sig.keywordOnly.map (·.name)

/-- `inspect.BoundArguments` -/
structure Bound (V : Type) where
  positional : List (Option V)
  rest : List V
  keyword : List (Option V)
  extra : Dict String V

section Bind

variable {V : Type} (sig : Signature) (inputs : List V) (kwargs : Dict String V)

/-- What a call passes for the parameter at a position. -/
def passed (p : Positional) (index : ℕ) : Option V :=
  match inputs[index]? with
  | some v => some v
  | none => if p.byName then kwargs.get? p.name else none

def bound : Bound V where
  positional := sig.positional.mapIdx fun index p ↦ passed inputs kwargs p index
  rest := inputs.drop sig.positional.length
  keyword := sig.keywordOnly.map fun p ↦ kwargs.get? p.name
  extra := kwargs.filterKeys (· ∉ sig.named)

def multiple (name : String) : PyError := .typeError s!"multiple values for argument {pyRepr name}"

def missing (name : String) : PyError := .typeError s!"missing a required argument: {pyRepr name}"

/-- `signature.bind(*inputs, **kwargs)` -/
def bind : Except PyError (Bound V) := do
  require (inputs.length ≤ sig.positional.length ∨ sig.varPositional = true)
    (.typeError "too many positional arguments")
  sig.positional.zipIdx.forM fun q ↦ do
    require (q.2 < inputs.length → q.1.byName = true → kwargs.get? q.1.name = none) (multiple q.1.name)
    require ((passed inputs kwargs q.1 q.2).isSome ∨ q.1.required = false) (missing q.1.name)
  sig.keywordOnly.forM fun p ↦ require ((kwargs.get? p.name).isSome ∨ p.required = false) (missing p.name)
  require ((bound sig inputs kwargs).extra.entries = [] ∨ sig.varKeyword = true)
    (.typeError "got an unexpected keyword argument")
  return bound sig inputs kwargs

/-- What a call must pass. -/
structure Accepts : Prop where
  count : inputs.length ≤ sig.positional.length ∨ sig.varPositional = true
  once : ∀ q ∈ sig.positional.zipIdx, q.2 < inputs.length → q.1.byName = true → kwargs.get? q.1.name = none
  enough : ∀ q ∈ sig.positional.zipIdx, (passed inputs kwargs q.1 q.2).isSome ∨ q.1.required = false
  keyword : ∀ p ∈ sig.keywordOnly, (kwargs.get? p.name).isSome ∨ p.required = false
  known : (bound sig inputs kwargs).extra.entries = [] ∨ sig.varKeyword = true

end Bind

namespace Bound

variable {V : Type} (b : Bound V)

/-- How many parameters are bound in front of the first one that is not. -/
def full : ℕ := (b.positional.takeWhile Option.isSome).length

/-- `bound.args` -/
def args : List V :=
  (b.positional.takeWhile Option.isSome).reduceOption ++ if b.full = b.positional.length then b.rest else []

/-- The arguments behind the first parameter that is not bound, under the names of their parameters. -/
def behind (sig : Signature) : List (String × V) :=
  (((sig.positional.map (·.name)).zip b.positional).drop b.full ++
    (sig.keywordOnly.map (·.name)).zip b.keyword).filterMap fun p ↦ p.2.map (p.1, ·)

/-- `bound.kwargs` -/
def kwargs (sig : Signature) : Dict String V := Dict.ofList (b.behind sig ++ b.extra.entries)

/-- The same arguments, where the order of the keyword arguments does not count. -/
structure Same (b b' : Bound V) : Prop where
  positional : b.positional = b'.positional
  rest : b.rest = b'.rest
  keyword : b.keyword = b'.keyword
  extra : ∀ name, b.extra.get? name = b'.extra.get? name

end Bound

/-! ### Normal form -/

/-- A text of Python as the list of its characters. -/
abbrev Path := List Char

def argsRoot : Path := ['/', 'a', 'r', 'g', 's', '/']

def kwargsRoot : Path := ['/', 'k', 'w', 'a', 'r', 'g', 's', '/']

def argsPath (index : ℕ) : Path := argsRoot ++ digits index

def kwargsPath (name : String) : Path := kwargsRoot ++ escape name.toList

/-- `path == source or path.startswith(source + "/")` -/
def Below (source path : Path) : Prop := path = source ∨ (source ++ ['/']) <+: path

instance (source path : Path) : Decidable (Below source path) := inferInstanceAs (Decidable (_ ∨ _))

/-- `axes[target + path[len(source):]] = axes.pop(path)`, for the paths below `source`. -/
def movePath (source target : Path) (axes : Dict Path ℤ) (path : Path) : Dict Path ℤ :=
  if Below source path then
    match axes.get? path with
    | some axis => (axes.erase path).insert (target ++ path.drop source.length) axis
    | none => axes
  else axes

def moveArgument (axes : Dict Path ℤ) (index : ℕ) (name : String) : Dict Path ℤ :=
  axes.keys.foldl (movePath (kwargsPath name) (argsPath index)) axes

section Normalize

variable {V : Type} (repr : String → String)

def moveAxes (sig : Signature) (args : List V) (kwargs canonical : Dict String V) (axes : Dict Path ℤ) : Dict Path ℤ :=
  ((sig.positional.take args.length).zipIdx).foldl
    (fun axes q ↦ if kwargs.get? q.1.name = none ∨ (canonical.get? q.1.name).isSome then axes
      else moveArgument axes q.2 q.1.name) axes

/-- The signature is `none` for a model that is not a `torch.nn.Module`. -/
def normalizeModelCall (model : Option Signature) (inputs : List V) (kwargs : Dict String V)
    (batchAxes : Option (Dict Path ℤ)) : Except PyError (List V × Dict String V × Option (Dict Path ℤ)) :=
  match model with
  | none => .ok (inputs, kwargs, batchAxes)
  | some sig =>
    if kwargs.entries = [] then .ok (inputs, kwargs, batchAxes)
    else do
      let b ← bind sig inputs kwargs
      let canonical := b.kwargs sig
      return (b.args, canonical.sorted repr, batchAxes.map (moveAxes sig b.args kwargs canonical))

/-! ### Batch sizes -/

/-- What a path may lead to. -/
inductive Node (V : Type)
  | roots
  | args
  | kwargs
  | value (v : V)

/-- How the values of a framework are read. -/
structure Values (V : Type) where
  /-- `value[key]`, `value[int(key)]` or `getattr(value, key)` -/
  child : V → String → Except PyError V
  /-- `int(value.shape[axis])` -/
  extent : V → ℤ → Except PyError ℤ

/-- `inputs[index]` -/
def itemAt (inputs : List V) (index : ℤ) : Except PyError V :=
  let place := if index < 0 then index + inputs.length else index
  match if 0 ≤ place then inputs[place.toNat]? else none with
  | some v => .ok v
  | none => .error (.raised "IndexError" "tuple index out of range")

def keyAt (kwargs : Dict String V) (name : String) : Except PyError V :=
  match kwargs.get? name with
  | some v => .ok v
  | none => .error (.keyError name)

variable (T : Values V)

def step (inputs : List V) (kwargs : Dict String V) (node : Node V) (part : List Char) : Except PyError (Node V) :=
  let key := String.ofList (unescape part)
  match node with
  | .roots =>
    if key = "args" then .ok .args else if key = "kwargs" then .ok .kwargs else .error (.keyError key)
  | .args => do return .value (← itemAt inputs (← intOfText key))
  | .kwargs => do return .value (← keyAt kwargs key)
  | .value v => do return .value (← T.child v key)

def shapeAt (node : Node V) (axis : ℤ) : Except PyError ℤ :=
  match node with
  | .value v => T.extent v axis
  | .args => .error (.raised "AttributeError" "'tuple' object has no attribute 'shape'")
  | _ => .error (.raised "AttributeError" "'dict' object has no attribute 'shape'")

/-- `(KeyError, IndexError, AttributeError, TypeError, ValueError)` -/
def isCaught : PyError → Bool
  | .keyError _ => true
  | .typeError _ => true
  | .valueError _ => true
  | .raised kind _ => kind = "IndexError" || kind = "AttributeError"
  | .runtimeError _ => false

/-- The size of a declared batch input, or the error that names it. -/
def declared (path : Path) (axis : ℤ) (x : Except PyError ℤ) : Except PyError ℤ :=
  match x with
  | .ok size => .ok size
  | .error e =>
    if isCaught e then
      .error (.valueError s!"Missing or invalid declared batch input {String.ofList path} at axis {axis}.")
    else .error e

def sizeAt (inputs : List V) (kwargs : Dict String V) (path : Path) (axis : ℤ) : Except PyError ℤ := do
  let node ← (parts path).foldlM (step T inputs kwargs) .roots
  shapeAt T node axis

def inputBatchSize (inputs : List V) (kwargs : Dict String V) (axes : Option (Dict Path ℤ)) :
    Except PyError (Option ℤ) :=
  match axes with
  | none => .ok none
  | some axes =>
    if axes.entries = [] then .ok none
    else do
      let sizes ← axes.entries.mapM fun p ↦ declared p.1 p.2 (sizeAt T inputs kwargs p.1 p.2)
      let batchSize := sizes.headD 0
      require (∀ size ∈ sizes, size = batchSize) (.valueError s!"Declared batch inputs disagree: {sizes}.")
      require (1 ≤ batchSize) (.valueError "Input batch size must be positive.")
      return some batchSize

def modelInputBatchSize (model : Option Signature) (inputs : List V) (kwargs : Dict String V)
    (batchAxes : Option (Dict Path ℤ)) : Except PyError (Option ℤ) := do
  let (args, canonical, axes) ← normalizeModelCall repr model inputs kwargs batchAxes
  inputBatchSize T args canonical axes

/-- The axes of a prepared runtime name the arguments of the normal form. -/
def runtimeInputBatchSize (model : Option Signature) (axes : Dict Path ℤ) (inputs : List V)
    (kwargs : Dict String V) : Except PyError (Option ℤ) := do
  let (args, canonical, _) ← normalizeModelCall repr model inputs kwargs none
  inputBatchSize T args canonical (some axes)

end Normalize

/-! ### What a call binds -/

section Bind

variable {V : Type} {sig : Signature} {inputs : List V} {kwargs : Dict String V} {b : Bound V}

theorem bind_eq_ok_iff : bind sig inputs kwargs = .ok b ↔ Accepts sig inputs kwargs ∧ b = bound sig inputs kwargs := by
  constructor
  · intro h
    obtain ⟨_, hcount, h⟩ := bind_eq_ok h
    obtain ⟨_, hpositional, h⟩ := bind_eq_ok h
    obtain ⟨_, hkeyword, h⟩ := bind_eq_ok h
    obtain ⟨_, hknown, h⟩ := bind_eq_ok h
    have hone := forM_eq_ok_iff.mp hpositional
    refine ⟨⟨of_require hcount, fun q hq ↦ ?_, fun q hq ↦ ?_, fun p hp ↦ ?_, of_require hknown⟩,
      (Except.ok.inj h).symm⟩
    · obtain ⟨_, honce, -⟩ := bind_eq_ok (hone q hq)
      exact of_require honce
    · obtain ⟨_, -, henough⟩ := bind_eq_ok (hone q hq)
      exact of_require henough
    · exact of_require (forM_eq_ok_iff.mp hkeyword p hp)
  · rintro ⟨h, rfl⟩
    rw [bind, require_of h.count, ok_bind, forM_eq_ok_iff.mpr, ok_bind, forM_eq_ok_iff.mpr, ok_bind,
      require_of h.known]
    · rfl
    · intro p hp
      exact require_of (h.keyword p hp) _
    · intro q hq
      rw [require_of (h.once q hq), ok_bind, require_of (h.enough q hq)]

@[simp] theorem length_positional : (bound sig inputs kwargs).positional.length = sig.positional.length :=
  List.length_mapIdx

theorem getElem?_positional (i : ℕ) : (bound sig inputs kwargs).positional[i]? =
    sig.positional[i]?.map fun p ↦ passed inputs kwargs p i := List.getElem?_mapIdx

theorem passed_of_lt {p : Positional} {i : ℕ} {v : V} (h : inputs[i]? = some v) :
    passed inputs kwargs p i = some v := by
  rw [passed, h]

theorem passed_of_le {p : Positional} {i : ℕ} (h : inputs.length ≤ i) :
    passed inputs kwargs p i = if p.byName then kwargs.get? p.name else none := by
  rw [passed, List.getElem?_eq_none h]

end Bind

namespace Bound

variable {V : Type}

/-- The arguments in front of the first parameter that is not bound. -/
theorem takeWhile_isSome (l : List (Option V)) : ∃ (vs : List V) (r : List (Option V)),
    l = vs.map some ++ r ∧ (r = [] ∨ ∃ r', r = none :: r') ∧
    l.takeWhile Option.isSome = vs.map some := by
  induction l with
  | nil => exact ⟨[], [], rfl, .inl rfl, rfl⟩
  | cons x l ih =>
    cases x with
    | none => exact ⟨[], none :: l, rfl, .inr ⟨l, rfl⟩, rfl⟩
    | some v =>
      obtain ⟨vs, r, hl, hr, htake⟩ := ih
      refine ⟨v :: vs, r, by rw [hl]; rfl, hr, ?_⟩
      rw [List.takeWhile_cons_of_pos rfl, htake]
      rfl

theorem args_eq (b : Bound V) : ∃ (vs : List V) (r : List (Option V)),
    b.positional = vs.map some ++ r ∧ (r = [] ∨ ∃ r', r = none :: r') ∧
    b.full = vs.length ∧ b.args = vs ++ if r = [] then b.rest else [] := by
  obtain ⟨vs, r, hl, hr, htake⟩ := takeWhile_isSome b.positional
  have hfull : b.full = vs.length := by rw [full, htake, List.length_map]
  have hwhole : b.full = b.positional.length ↔ r = [] := by
    rw [hfull, hl, List.length_append, List.length_map, ← List.length_eq_zero_iff]
    omega
  refine ⟨vs, r, hl, hr, hfull, ?_⟩
  have hback : (vs.map some).reduceOption = vs := by
    change (vs.map some).filterMap id = vs
    rw [List.filterMap_map]
    exact List.filterMap_some
  rw [args, htake, hback]
  simp only [hwhole]

end Bound

section Filled

variable {V : Type} {sig : Signature} {inputs : List V} {kwargs : Dict String V}

/-- The positional part of a call, up to the first parameter that is not bound. -/
structure Filled (sig : Signature) (inputs : List V) (kwargs : Dict String V) (m : ℕ) (args : List V) : Prop where
  le : m ≤ sig.positional.length
  value : ∀ i p, i < m → sig.positional[i]? = some p → ∃ v, passed inputs kwargs p i = some v ∧ args[i]? = some v
  gap : ∀ p, sig.positional[m]? = some p → passed inputs kwargs p m = none
  short : m < sig.positional.length → args.length = m
  rest : m = sig.positional.length →
    m ≤ args.length ∧ args.drop sig.positional.length = inputs.drop sig.positional.length

theorem filled (sig : Signature) (inputs : List V) (kwargs : Dict String V) :
    Filled sig inputs kwargs (bound sig inputs kwargs).full (bound sig inputs kwargs).args := by
  obtain ⟨vs, r, hpositional, hr, hfull, hargs⟩ := (bound sig inputs kwargs).args_eq
  have hlength := congrArg List.length hpositional
  rw [length_positional, List.length_append, List.length_map] at hlength
  rw [hfull, hargs]
  refine ⟨hlength ▸ Nat.le_add_right _ _, ?_, ?_, ?_, ?_⟩
  · intro i p hi hp
    have hvalue := @getElem?_positional V sig inputs kwargs i
    rw [hpositional, List.getElem?_append_left (by rwa [List.length_map]), List.getElem?_map,
      List.getElem?_eq_getElem hi, hp] at hvalue
    refine ⟨vs[i], (Option.some.inj hvalue).symm, ?_⟩
    rw [List.getElem?_append_left hi, List.getElem?_eq_getElem hi]
  · intro p hp
    have hvalue := @getElem?_positional V sig inputs kwargs vs.length
    rw [hpositional, List.getElem?_append_right (by rw [List.length_map]), List.length_map, Nat.sub_self, hp]
      at hvalue
    obtain rfl | ⟨r', rfl⟩ := hr
    · cases hvalue
    · exact (Option.some.inj hvalue).symm
  · intro hlt
    have hne : r ≠ [] := by
      rintro rfl
      simp at hlength
      omega
    rw [if_neg hne, List.append_nil]
  · intro heq
    have hnil : r = [] := List.eq_nil_of_length_eq_zero (by omega)
    rw [if_pos hnil, ← heq, List.drop_left, List.length_append]
    exact ⟨Nat.le_add_right _ _, heq ▸ rfl⟩

variable {m : ℕ} {args : List V}

theorem Filled.reach (h : Filled sig inputs kwargs m args) (hm : m < sig.positional.length) : inputs.length ≤ m := by
  by_contra hlt
  rw [not_le] at hlt
  have hnone := h.gap _ (List.getElem?_eq_getElem hm)
  rw [passed_of_lt (List.getElem?_eq_getElem hlt)] at hnone
  cases hnone

end Filled

/-! ### Keyword arguments -/

section Keywords

variable {V : Type} {sig : Signature} {inputs : List V} {kwargs : Dict String V}

theorem map_fst_filterMap {l : List (String × Option V)} :
    ((l.filterMap fun p ↦ p.2.map (p.1, ·)).map Prod.fst).Sublist (l.map Prod.fst) := by
  induction l with
  | nil => exact .slnil
  | cons p l ih =>
    obtain ⟨name, v⟩ := p
    cases v with
    | none => exact ih.cons _
    | some v => exact ih.cons_cons _

theorem mem_named {name : String} : name ∈ sig.named ↔
    (∃ p ∈ sig.positional, p.byName = true ∧ p.name = name) ∨ ∃ p ∈ sig.keywordOnly, p.name = name := by
  rw [Signature.named, List.mem_append, List.mem_map, List.mem_map]
  simp only [List.mem_filter, and_assoc]

theorem get?_extra (name : String) :
    (bound sig inputs kwargs).extra.get? name = if name ∉ sig.named then kwargs.get? name else none := by
  rw [bound, Dict.get?_filterKeys]
  simp

theorem index_unique {i j : ℕ} {p q : Positional} (hp : sig.positional[i]? = some p) (hq : sig.positional[j]? = some q)
    (h : p.name = q.name) : i = j := by
  obtain ⟨hi, rfl⟩ := List.getElem?_eq_some_iff.mp hp
  obtain ⟨hj, rfl⟩ := List.getElem?_eq_some_iff.mp hq
  have hnodup := (List.nodup_append.mp sig.nodup).1
  have hi' : i < (sig.positional.map (·.name)).length := by rwa [List.length_map]
  have hj' : j < (sig.positional.map (·.name)).length := by rwa [List.length_map]
  refine (@List.Nodup.getElem_inj_iff _ _ hnodup i hi' j hj').mp ?_
  rw [List.getElem_map, List.getElem_map, h]

theorem name_ne_keyword {p : Positional} (hp : p ∈ sig.positional) {q : Parameter} (hq : q ∈ sig.keywordOnly) :
    p.name ≠ q.name :=
  (List.nodup_append.mp sig.nodup).2.2 _ (List.mem_map_of_mem hp) _ (List.mem_map_of_mem hq)

/-- What is passed under a name for a parameter that is not bound by position. -/
theorem mem_behind {name : String} {v : V} : (name, v) ∈ (bound sig inputs kwargs).behind sig ↔
    (∃ i p, (bound sig inputs kwargs).full ≤ i ∧ sig.positional[i]? = some p ∧ p.name = name ∧
      passed inputs kwargs p i = some v) ∨
    ∃ p ∈ sig.keywordOnly, p.name = name ∧ kwargs.get? name = some v := by
  have hpair : ∀ a : String × Option V, a.2.map (a.1, ·) = some (name, v) ↔ a = (name, some v) := by
    rintro ⟨n, w⟩
    cases w with
    | none => simp
    | some w => simp
  rw [Bound.behind, List.mem_filterMap]
  simp only [hpair, exists_eq_right, List.mem_append]
  refine or_congr ?_ ?_
  · rw [List.mem_iff_getElem?]
    simp only [List.getElem?_drop, List.getElem?_zip_eq_some, List.getElem?_map, getElem?_positional,
      Option.map_eq_some_iff]
    constructor
    · rintro ⟨i, ⟨p, hp, hname⟩, q, hq, hvalue⟩
      obtain rfl := Option.some.inj (hp.symm.trans hq)
      exact ⟨_, p, Nat.le_add_right _ i, hp, hname, hvalue⟩
    · rintro ⟨i, p, hi, hp, hname, hvalue⟩
      refine ⟨i - (bound sig inputs kwargs).full, ?_⟩
      rw [Nat.add_sub_cancel' hi]
      exact ⟨⟨p, hp, hname⟩, p, hp, hvalue⟩
  · rw [bound, List.zip_map', List.mem_map]
    simp only [Prod.mk.injEq]
    constructor
    · rintro ⟨p, hp, rfl, hvalue⟩
      exact ⟨p, hp, rfl, hvalue⟩
    · rintro ⟨p, hp, rfl, hvalue⟩
      exact ⟨p, hp, rfl, hvalue⟩

theorem nodup_behind : (((bound sig inputs kwargs).behind sig).map Prod.fst).Nodup := by
  refine List.Nodup.sublist map_fst_filterMap ?_
  have hpositional : (((sig.positional.map (·.name)).zip (bound sig inputs kwargs).positional).map Prod.fst) =
      sig.positional.map (·.name) := List.map_fst_zip (by simp)
  have hkeyword : (((sig.keywordOnly.map (·.name)).zip (bound sig inputs kwargs).keyword).map Prod.fst) =
      sig.keywordOnly.map (·.name) := List.map_fst_zip (by simp [bound])
  rw [List.map_append, List.map_drop, hpositional, hkeyword]
  exact sig.nodup.sublist ((List.drop_sublist _ _).append_right _)

/-- A parameter in front of the first one that is not bound, which a call may also pass by name. -/
def Moved (sig : Signature) (m : ℕ) (name : String) : Prop :=
  ∃ i p, i < m ∧ sig.positional[i]? = some p ∧ p.byName = true ∧ p.name = name

theorem byName_of_passed {i : ℕ} {p : Positional} {v : V} (hi : (bound sig inputs kwargs).full ≤ i)
    (hp : sig.positional[i]? = some p) (hv : passed inputs kwargs p i = some v) :
    p.byName = true ∧ kwargs.get? p.name = some v := by
  obtain ⟨hlt, -⟩ := List.getElem?_eq_some_iff.mp hp
  rw [passed_of_le (((filled sig inputs kwargs).reach (hi.trans_lt hlt)).trans hi)] at hv
  split_ifs at hv with hname
  exact ⟨hname, hv⟩

theorem entries_kwargs : ((bound sig inputs kwargs).kwargs sig).entries =
    (bound sig inputs kwargs).behind sig ++ (bound sig inputs kwargs).extra.entries := by
  refine Dict.entries_ofList ?_
  rw [List.map_append, List.nodup_append]
  refine ⟨nodup_behind, (bound sig inputs kwargs).extra.nodup, ?_⟩
  rintro name hname _ hextra rfl
  obtain ⟨⟨_, v⟩, hmem, rfl⟩ := List.mem_map.mp hname
  obtain ⟨w, hw⟩ := ((bound sig inputs kwargs).extra.mem_keys_iff).mp hextra
  dsimp only at hw
  rw [get?_extra] at hw
  split_ifs at hw with hnamed
  refine hnamed (mem_named.mpr ?_)
  obtain ⟨i, p, hi, hp, hpname, hpv⟩ | ⟨p, hp, hpname, -⟩ := mem_behind.mp hmem
  · exact .inl ⟨p, List.mem_of_getElem? hp, (byName_of_passed hi hp hpv).1, hpname⟩
  · exact .inr ⟨p, hp, hpname⟩

/-- The keyword arguments that are not passed on by position are passed on under their names. -/
theorem get?_kwargs {name : String} {v : V} : ((bound sig inputs kwargs).kwargs sig).get? name = some v ↔
    ¬Moved sig (bound sig inputs kwargs).full name ∧ kwargs.get? name = some v := by
  rw [Dict.get?_eq_some_iff, entries_kwargs, List.mem_append, mem_behind, ← Dict.get?_eq_some_iff, get?_extra]
  constructor
  · rintro ((⟨i, p, hi, hp, rfl, hv⟩ | ⟨p, hp, rfl, hv⟩) | hv)
    · refine ⟨?_, (byName_of_passed hi hp hv).2⟩
      rintro ⟨j, q, hj, hq, -, hname⟩
      exact absurd (index_unique hq hp hname) (by omega)
    · refine ⟨?_, hv⟩
      rintro ⟨j, q, -, hq, -, hname⟩
      exact name_ne_keyword (List.mem_of_getElem? hq) hp hname
    · split_ifs at hv with hnamed
      refine ⟨?_, hv⟩
      rintro ⟨j, q, -, hq, hbyName, hname⟩
      exact hnamed (mem_named.mpr (.inl ⟨q, List.mem_of_getElem? hq, hbyName, hname⟩))
  · rintro ⟨hmoved, hv⟩
    by_cases hnamed : name ∈ sig.named
    · refine .inl ?_
      obtain ⟨p, hp, hbyName, hname⟩ | ⟨p, hp, hname⟩ := mem_named.mp hnamed
      · refine .inl ?_
        obtain ⟨i, hi⟩ := List.getElem?_of_mem hp
        have hle : (bound sig inputs kwargs).full ≤ i := by
          by_contra hlt
          exact hmoved ⟨i, p, not_le.mp hlt, hi, hbyName, hname⟩
        obtain ⟨hlt, -⟩ := List.getElem?_eq_some_iff.mp hi
        refine ⟨i, p, hle, hi, hname, ?_⟩
        rw [passed_of_le (((filled sig inputs kwargs).reach (hle.trans_lt hlt)).trans hle), if_pos hbyName, hname, hv]
      · exact .inr ⟨p, hp, hname, hv⟩
    · exact .inr (by rw [if_pos hnamed, hv])

theorem get?_kwargs_of_notMoved {name : String} (h : ¬Moved sig (bound sig inputs kwargs).full name) :
    ((bound sig inputs kwargs).kwargs sig).get? name = kwargs.get? name := by
  apply Option.ext
  intro v
  rw [get?_kwargs, and_iff_right h]

theorem get?_kwargs_of_moved {name : String} (h : Moved sig (bound sig inputs kwargs).full name) :
    ((bound sig inputs kwargs).kwargs sig).get? name = none := by
  apply Option.eq_none_iff_forall_ne_some.mpr
  intro v hv
  exact (get?_kwargs.mp hv).1 h

/-- The normal form depends on what is bound only. -/
theorem get?_kwargs_congr {inputs' : List V} {kwargs' : Dict String V}
    (h : (bound sig inputs kwargs).Same (bound sig inputs' kwargs')) (name : String) :
    ((bound sig inputs kwargs).kwargs sig).get? name = ((bound sig inputs' kwargs').kwargs sig).get? name := by
  have hbehind : (bound sig inputs kwargs).behind sig = (bound sig inputs' kwargs').behind sig := by
    rw [Bound.behind, Bound.behind, Bound.full, Bound.full, h.positional, h.keyword]
  apply Option.ext
  intro v
  rw [Dict.get?_eq_some_iff, Dict.get?_eq_some_iff, entries_kwargs, entries_kwargs, List.mem_append, List.mem_append,
    hbehind, ← Dict.get?_eq_some_iff, ← Dict.get?_eq_some_iff, h.extra]

theorem Bound.Same.args_eq {b b' : Bound V} (h : b.Same b') : b.args = b'.args := by
  rw [Bound.args, Bound.args, Bound.full, Bound.full, h.positional, h.rest]

end Keywords

/-! ### The normal form of a call -/

section Normal

variable {V : Type} {repr : String → String} {sig : Signature} {inputs : List V} {kwargs : Dict String V}

theorem sorted_congr (hrepr : Function.Injective repr) {d d' : Dict String V} (h : ∀ name, d.get? name = d'.get? name) :
    d.sorted repr = d'.sorted repr := by
  apply Dict.ext_entries
  rw [Dict.entries_sorted, Dict.entries_sorted]
  refine sortedBy_congr _ (Dict.entries_perm_of_get? h) fun a ha b hb hab ↦ ?_
  exact List.inj_on_of_nodup_map d.nodup ha hb (hrepr hab)

theorem moveAxes_of_same {args : List V} {canonical : Dict String V}
    (h : ∀ name, canonical.get? name = kwargs.get? name) (axes : Dict Path ℤ) :
    moveAxes sig args kwargs canonical axes = axes := by
  have hskip : ∀ q : Positional × ℕ, kwargs.get? q.1.name = none ∨ (canonical.get? q.1.name).isSome := by
    intro q
    rw [h]
    cases kwargs.get? q.1.name with
    | none => exact .inl rfl
    | some v => exact .inr rfl
  rw [moveAxes]
  simp only [hskip, if_true]
  exact List.foldl_fixed _

/-- Without keyword arguments a call is in normal form. -/
theorem args_of_nil (hkwargs : kwargs.entries = []) : (bound sig inputs kwargs).args = inputs := by
  have hnone : ∀ name, kwargs.get? name = none := (Dict.entries_eq_nil_iff kwargs).mp hkwargs
  have hpassed : ∀ p i, passed inputs kwargs p i = inputs[i]? := by
    intro p i
    rw [passed, hnone]
    cases inputs[i]? with
    | none => exact ite_self none
    | some v => rfl
  have h := filled sig inputs kwargs
  apply List.ext_getElem?
  intro i
  by_cases hi : i < (bound sig inputs kwargs).full
  · obtain ⟨v, hv, harg⟩ := h.value i _ hi (List.getElem?_eq_getElem (hi.trans_le h.le))
    rw [harg, ← hv, hpassed]
  · rw [not_lt] at hi
    obtain hlt | heq := h.le.lt_or_eq
    · rw [List.getElem?_eq_none ((h.short hlt).le.trans hi), List.getElem?_eq_none ((h.reach hlt).trans hi)]
    · obtain ⟨-, hdrop⟩ := h.rest heq
      have hget := congrArg (·[i - sig.positional.length]?) hdrop
      simp only [List.getElem?_drop] at hget
      rwa [Nat.add_sub_cancel' (heq ▸ hi)] at hget

theorem normalizeModelCall_eq {axes : Option (Dict Path ℤ)} {b : Bound V} (hb : bind sig inputs kwargs = .ok b) :
    normalizeModelCall repr (some sig) inputs kwargs axes =
      .ok (b.args, (b.kwargs sig).sorted repr, axes.map (moveAxes sig b.args kwargs (b.kwargs sig))) := by
  rw [normalizeModelCall]
  split_ifs with hnil
  · obtain ⟨-, rfl⟩ := bind_eq_ok_iff.mp hb
    have hnone : ∀ name, kwargs.get? name = none := (Dict.entries_eq_nil_iff kwargs).mp hnil
    have hsame : ∀ name, ((bound sig inputs kwargs).kwargs sig).get? name = kwargs.get? name := by
      intro name
      rw [hnone, Option.eq_none_iff_forall_ne_some]
      intro v hv
      rw [get?_kwargs, hnone] at hv
      cases hv.2
    have hsorted : (((bound sig inputs kwargs).kwargs sig).sorted repr) = kwargs := by
      apply Dict.ext_entries
      rw [hnil, Dict.entries_eq_nil_iff]
      intro name
      rw [Dict.get?_sorted, hsame, hnone]
    rw [args_of_nil hnil, hsorted]
    cases axes with
    | none => rfl
    | some axes => rw [Option.map_some, moveAxes_of_same hsame]
  · rw [hb]
    rfl

/-- The normal form binds what the call binds. -/
theorem bind_normal {b : Bound V} (hb : bind sig inputs kwargs = .ok b) {canonical : Dict String V}
    (hcanonical : ∀ name, canonical.get? name = (b.kwargs sig).get? name) :
    ∃ b', bind sig b.args canonical = .ok b' ∧ b'.Same b := by
  obtain ⟨haccepts, rfl⟩ := bind_eq_ok_iff.mp hb
  have h := filled sig inputs kwargs
  have hpassed : ∀ i p, sig.positional[i]? = some p →
      passed (bound sig inputs kwargs).args canonical p i = passed inputs kwargs p i := by
    intro i p hp
    obtain ⟨hi, -⟩ := List.getElem?_eq_some_iff.mp hp
    by_cases hfull : i < (bound sig inputs kwargs).full
    · obtain ⟨v, hv, harg⟩ := h.value i p hfull hp
      rw [passed_of_lt harg, hv]
    · rw [not_lt] at hfull
      have hlt := hfull.trans_lt hi
      have hnot : ¬Moved sig (bound sig inputs kwargs).full p.name := by
        rintro ⟨j, q, hj, hq, -, hname⟩
        exact absurd (index_unique hq hp hname) (by omega)
      rw [passed_of_le ((h.short hlt).le.trans hfull), passed_of_le ((h.reach hlt).trans hfull), hcanonical,
        get?_kwargs_of_notMoved hnot]
  have hkeyword : ∀ p ∈ sig.keywordOnly, canonical.get? p.name = kwargs.get? p.name := by
    intro p hp
    rw [hcanonical, get?_kwargs_of_notMoved]
    rintro ⟨j, q, -, hq, -, hname⟩
    exact name_ne_keyword (List.mem_of_getElem? hq) hp hname
  have hrest : (bound sig inputs kwargs).args.drop sig.positional.length = inputs.drop sig.positional.length := by
    obtain hlt | heq := h.le.lt_or_eq
    · rw [List.drop_eq_nil_of_le ((h.short hlt).le.trans hlt.le),
        List.drop_eq_nil_of_le ((h.reach hlt).trans hlt.le)]
    · exact (h.rest heq).2
  have hextra : ∀ name, (bound sig (bound sig inputs kwargs).args canonical).extra.get? name =
      (bound sig inputs kwargs).extra.get? name := by
    intro name
    rw [get?_extra, get?_extra]
    split_ifs with hnamed
    · rfl
    · rw [hcanonical, get?_kwargs_of_notMoved]
      rintro ⟨j, q, -, hq, hbyName, hname⟩
      exact hnamed (mem_named.mpr (.inl ⟨q, List.mem_of_getElem? hq, hbyName, hname⟩))
  have hsame : (bound sig (bound sig inputs kwargs).args canonical).Same (bound sig inputs kwargs) := by
    refine ⟨?_, hrest, ?_, hextra⟩
    · apply List.ext_getElem?
      intro i
      rw [getElem?_positional, getElem?_positional]
      cases hp : sig.positional[i]? with
      | none => rfl
      | some p => exact congrArg some (hpassed i p hp)
    · exact List.map_congr_left hkeyword
  refine ⟨_, bind_eq_ok_iff.mpr ⟨⟨?_, ?_, ?_, ?_, ?_⟩, rfl⟩, hsame⟩
  · refine haccepts.count.imp_left fun hcount ↦ ?_
    have hnil : inputs.drop sig.positional.length = [] := List.drop_eq_nil_of_le hcount
    exact List.drop_eq_nil_iff.mp (hrest.trans hnil)
  · rintro ⟨p, i⟩ hp hi hbyName
    rw [List.mk_mem_zipIdx_iff_getElem?] at hp
    obtain ⟨hlt, -⟩ := List.getElem?_eq_some_iff.mp hp
    rw [hcanonical]
    refine get?_kwargs_of_moved ⟨i, p, ?_, hp, hbyName, rfl⟩
    by_contra hfull
    rw [not_lt] at hfull
    have hshort := h.short (hfull.trans_lt hlt)
    dsimp only at hi
    omega
  · rintro ⟨p, i⟩ hp
    have henough := haccepts.enough _ hp
    rw [List.mk_mem_zipIdx_iff_getElem?] at hp
    rwa [hpassed i p hp]
  · intro p hp
    rw [hkeyword p hp]
    exact haccepts.keyword p hp
  · refine haccepts.known.imp_left fun hnil ↦ ?_
    rw [Dict.entries_eq_nil_iff] at hnil ⊢
    intro name
    rw [hextra, hnil]

/-- Normalising twice is normalising once. -/
theorem normalizeModelCall_idempotent (hrepr : Function.Injective repr) {b : Bound V}
    (hb : bind sig inputs kwargs = .ok b) (axes : Option (Dict Path ℤ)) :
    normalizeModelCall repr (some sig) b.args ((b.kwargs sig).sorted repr) axes =
      .ok (b.args, (b.kwargs sig).sorted repr, axes) := by
  have hget : ∀ name, ((b.kwargs sig).sorted repr).get? name = (b.kwargs sig).get? name := Dict.get?_sorted repr _
  obtain ⟨b', hb', hsame⟩ := bind_normal hb hget
  rw [normalizeModelCall_eq hb', hsame.args_eq]
  obtain ⟨-, rfl⟩ := bind_eq_ok_iff.mp hb'
  obtain ⟨-, rfl⟩ := bind_eq_ok_iff.mp hb
  have hkwargs := get?_kwargs_congr hsame
  rw [sorted_congr hrepr hkwargs]
  cases axes with
  | none => rfl
  | some axes => rw [Option.map_some, moveAxes_of_same fun name ↦ (hkwargs name).trans (hget name).symm]

end Normal

end SplitFleet.ModelCall
