import SplitFleet.Lib.Lists
import SplitFleet.Lib.Runs
import SplitFleet.PlanCache

set_option autoImplicit false

namespace SplitFleet.PlanCache

open Lib

namespace Order

/-- A call between two of its sections. -/
inductive Call
  /-- `save` has changed the memory and has not yet handed out its write. -/
  | saving (entry : PlanCacheEntry)
  /-- `load` did not find the name in memory. -/
  | missed (modelName : String)
  /-- `load` has read an entry from disk. -/
  | read (modelName : String) (entry : PlanCacheEntry)
  /-- `invalidate` has changed the memory and has not yet removed the file. -/
  | invalidating (modelName : String)

/-- The calls in progress, one for each thread that is inside a call. `expected` says for each name what
the history of the calls is to leave: the entry of the last `save`, or nothing where an `invalidate` started
after every `save` had returned. -/
structure System where
  store : PlanCacheStore
  calls : List Call
  expected : String → Option PlanCacheEntry

def fresh (rootDir : String) (maxMemoryCache : ℤ) (ttlSeconds : ℚ) : System where
  store := .fresh rootDir maxMemoryCache ttlSeconds
  calls := []
  expected := fun _ ↦ none

/-- A section of a call, by its place among the calls in progress, a write of the background thread, or an
entry that leaves memory. -/
inductive Action
  | beginSave (now : ℚ) (entry : PlanCacheEntry)
  | submit (i : ℕ)
  | beginLoad (now : ℚ) (modelName : String)
  | readFile (i : ℕ)
  | putBack (i : ℕ) (now : ℚ)
  | beginInvalidate (modelName : String)
  | removeFile (i : ℕ)
  | write
  | clearMemoryCache
  | evict (modelName : String)

/-- The entries that calls of `save` in progress have for a name, the oldest first. -/
def saves (modelName : String) (calls : List Call) : List PlanCacheEntry := calls.filterMap fun
  | .saving entry => if entry.modelName = modelName then some entry else none
  | _ => none

def step (B : Builtins) (s : System) : Action → Option System
  | .beginSave now entry =>
    match (addToMemoryCache now entry.modelName entry).run s.store with
    | .ok _ store => some
        { store := store
          calls := s.calls ++ [.saving entry]
          expected := Function.update s.expected entry.modelName (some entry) }
    | .error _ store => some { s with store := store }
  | .submit i =>
    match s.calls[i]? with
    | some (.saving entry) => some { s with store := submit entry s.store, calls := s.calls.eraseIdx i }
    | _ => none
  | .beginLoad now modelName =>
    match (loadFromMemory now modelName).run s.store with
    | .ok none store => some { s with store := store, calls := s.calls ++ [.missed modelName] }
    | .ok (some _) store => some { s with store := store }
    | .error _ store => some { s with store := store }
  | .readFile i =>
    match s.calls[i]? with
    | some (.missed modelName) =>
      match loadFromDisk B s.store true modelName with
      | .ok (some entry) => some { s with calls := s.calls.set i (.read modelName entry) }
      | _ => some { s with calls := s.calls.eraseIdx i }
    | _ => none
  | .putBack i now =>
    match s.calls[i]? with
    | some (.read modelName entry) =>
      some { s with store := (addToMemoryCache now modelName entry).after s.store, calls := s.calls.eraseIdx i }
    | _ => none
  | .beginInvalidate modelName => some
      { store := (forgetName modelName).after s.store
        calls := s.calls ++ [.invalidating modelName]
        expected :=
          if (saves modelName s.calls).isEmpty then Function.update s.expected modelName none else s.expected }
  | .removeFile i =>
    match s.calls[i]? with
    | some (.invalidating modelName) =>
      some { s with store := (removeFile true modelName).after s.store, calls := s.calls.eraseIdx i }
    | _ => none
  | .write => some { s with store := writeNext .written s.store }
  | .clearMemoryCache => some { s with store := clearMemoryCache.after s.store }
  | .evict modelName => some { s with store := s.store.forget modelName }

/-- All calls have returned and all writes are done. -/
def System.Quiet (s : System) : Prop := s.calls = [] ∧ s.store.executor = []

/-- The writes of a name that are still to be done: the queued ones, then those not yet handed out. -/
def System.outstanding (s : System) (modelName : String) : List PlanCacheEntry :=
  s.store.executor.filter (·.modelName = modelName) ++ saves modelName s.calls

/-- The names of the calls. -/
def Action.Within (names : Set String) : Action → Prop
  | .beginSave _ entry => entry.modelName ∈ names
  | .beginLoad _ modelName => modelName ∈ names
  | .beginInvalidate modelName => modelName ∈ names
  | _ => True

/-- The step does not bring back what is out of date: a `save` does not hand out the newest write of its name
while an older one is not handed out, a `load` puts into memory only what is still the entry of the last `save`,
and an `invalidate` removes the file when no older write of the name is left to come and no newer one is done. -/
def Orderly (s : System) : Action → Prop
  | .submit i => ∀ e, s.calls[i]? = some (.saving e) →
      saves e.modelName (s.calls.take i) = [] ∨ saves e.modelName (s.calls.drop (i + 1)) ≠ []
  | .putBack i _ => ∀ name e, s.calls[i]? = some (.read name e) → ∃ e₀, s.expected name = some e₀ ∧ e.Same e₀
  | .removeFile i => ∀ name, s.calls[i]? = some (.invalidating name) →
      (s.expected name = none → s.outstanding name = [] ∨ .invalidating name ∈ s.calls.eraseIdx i) ∧
      (s.expected name ≠ none → s.outstanding name ≠ [])
  | _ => True

/-- The file that a write of the entry leaves. -/
def document (e : PlanCacheEntry) : Stored := .document (Json.obj e.toDict).sorted

/-- What the file of a name holds once its outstanding writes are done. -/
def System.final (s : System) (name : String) : Option Stored :=
  match (s.outstanding name).getLast? with
  | some e => some (document e)
  | none => s.store.files (pathFor s.store.rootDir name)

def System.Settled (s : System) (name : String) : Prop :=
  s.final name = (s.expected name).map document ∨ s.expected name = none ∧ .invalidating name ∈ s.calls

structure Inv (names : Set String) (s : System) : Prop where
  memory : ∀ k r, s.store.memoryCache.get? k = some r → ∃ e, s.expected k = some e ∧ r.entry.Same e
  settled : ∀ k ∈ names, s.Settled k
  capacity : ∀ k e, s.expected k = some e → 0 < s.store.maxMemoryCache
  queued : ∀ e ∈ s.store.executor, e.modelName ∈ names
  saving : ∀ e, .saving e ∈ s.calls → e.modelName ∈ names
  invalidating : ∀ name, .invalidating name ∈ s.calls → name ∈ names

section Saves

variable {name : String} {calls : List Call} {i : ℕ} {c d : Call}

theorem saves_append (l l' : List Call) : saves name (l ++ l') = saves name l ++ saves name l' :=
  List.filterMap_append ..

theorem mem_saves {e : PlanCacheEntry} : e ∈ saves name calls ↔ .saving e ∈ calls ∧ e.modelName = name := by
  rw [saves, List.mem_filterMap]
  constructor
  · rintro ⟨c, hc, h⟩
    cases c with
    | saving e' =>
      dsimp only at h
      split_ifs at h with hn
      cases h
      exact ⟨hc, hn⟩
    | missed | read | invalidating => cases h
  · rintro ⟨hc, hn⟩
    exact ⟨_, hc, if_pos hn⟩

theorem saves_getElem? (h : calls[i]? = some c) :
    saves name calls = saves name (calls.take i) ++ (saves name [c] ++ saves name (calls.drop (i + 1))) := by
  conv_lhs => rw [eq_take_cons_drop h]
  rw [saves_append, ← saves_append [c]]
  rfl

theorem saves_eraseIdx : saves name (calls.eraseIdx i) =
    saves name (calls.take i) ++ saves name (calls.drop (i + 1)) := by
  rw [List.eraseIdx_eq_take_drop_succ, saves_append]

theorem saves_set (h : calls[i]? = some c) : saves name (calls.set i d) =
    saves name (calls.take i) ++ (saves name [d] ++ saves name (calls.drop (i + 1))) := by
  obtain ⟨hi, -⟩ := List.getElem?_eq_some_iff.mp h
  rw [List.set_eq_take_append_cons_drop, if_pos hi, saves_append, ← saves_append [d]]
  rfl

end Saves

section Steps

variable {B : Builtins} {names : Set String} {s t : System} {k name : String}

theorem inv_fresh (rootDir : String) (c : ℤ) (ttlSeconds : ℚ) : Inv names (fresh rootDir c ttlSeconds) where
  memory _ _ h := by cases h
  settled _ _ := .inl rfl
  capacity _ _ h := by cases h
  queued _ h := (List.not_mem_nil h).elim
  saving _ h := (List.not_mem_nil h).elim
  invalidating _ h := (List.not_mem_nil h).elim

theorem final_congr (ho : t.outstanding k = s.outstanding k)
    (hf : t.store.files (pathFor t.store.rootDir k) = s.store.files (pathFor s.store.rootDir k)) :
    t.final k = s.final k := by
  rw [System.final, System.final, ho, hf]

theorem System.Settled.congr (h : s.Settled k) (hf : t.final k = s.final k) (he : t.expected k = s.expected k)
    (hi : .invalidating k ∈ s.calls → .invalidating k ∈ t.calls) : t.Settled k := by
  rw [Settled, hf, he]
  exact h.imp id (And.imp_right hi)

theorem Inv.withMemory (h : Inv names s) {memory : Dict String CacheRecord}
    (hm : ∀ k r, memory.get? k = some r → ∃ e, s.expected k = some e ∧ r.entry.Same e) :
    Inv names { s with store := { s.store with memoryCache := memory } } where
  memory := hm
  settled k hk := (h.settled k hk).congr rfl rfl id
  capacity := h.capacity
  queued := h.queued
  saving := h.saving
  invalidating := h.invalidating

theorem Inv.sub (h : Inv names s) {memory : Dict String CacheRecord}
    (hm : ∀ k r, memory.get? k = some r → s.store.memoryCache.get? k = some r) :
    Inv names { s with store := { s.store with memoryCache := memory } } :=
  h.withMemory fun k r hr ↦ h.memory k r (hm k r hr)

theorem Inv.forget (h : Inv names s) (name : String) : Inv names { s with store := s.store.forget name } := by
  apply h.sub
  intro k r hr
  rw [Dict.get?_erase] at hr
  split_ifs at hr
  exact hr

/-- Calls that have no part in a `save` come and go. -/
theorem Inv.withCalls (h : Inv names s) {calls : List Call} (hs : ∀ k, saves k calls = saves k s.calls)
    (hi : ∀ k, .invalidating k ∈ calls ↔ .invalidating k ∈ s.calls) : Inv names { s with calls := calls } where
  memory := h.memory
  settled k hk := (h.settled k hk).congr (final_congr (congrArg _ (hs k)) rfl) rfl (hi k).mpr
  capacity := h.capacity
  queued := h.queued
  saving e he := by
    have he' : e ∈ saves e.modelName calls := mem_saves.mpr ⟨he, rfl⟩
    rw [hs] at he'
    exact h.saving e (mem_saves.mp he').1
  invalidating k hk := h.invalidating k ((hi k).mp hk)

theorem Inv.beginSave (h : Inv names s) {e : PlanCacheEntry} (he : e.modelName ∈ names) (now : ℚ)
    (hc : 0 < s.store.maxMemoryCache) :
    Inv names
      { store := { s.store with memoryCache := (s.store.kept e.modelName).insert e.modelName ⟨e, now⟩ }
        calls := s.calls ++ [.saving e]
        expected := Function.update s.expected e.modelName (some e) } where
  memory k r hr := by
    dsimp only at hr ⊢
    rw [Dict.get?_insert] at hr
    split_ifs at hr with hk
    · cases hr
      subst hk
      exact ⟨e, Function.update_self .., Eq.refl e.reloaded⟩
    · rw [Function.update_of_ne (Ne.symm hk)]
      exact h.memory k r (get?_kept hr).2
  settled k hk := by
    by_cases hke : k = e.modelName
    · subst hke
      left
      dsimp only [System.final, System.outstanding]
      rw [saves_append, Function.update_self, ← List.append_assoc]
      have hlast : saves e.modelName [.saving e] = [e] := by simp [saves]
      rw [hlast, List.getLast?_concat]
      rfl
    · have hlast : saves k [.saving e] = [] := by simp [saves, Ne.symm hke]
      refine (h.settled k hk).congr (final_congr ?_ rfl) (Function.update_of_ne hke ..) fun hi ↦
        List.mem_append_left _ hi
      dsimp only [System.outstanding]
      rw [saves_append, hlast, List.append_nil]
  capacity _ _ _ := hc
  queued := h.queued
  saving e' he' := by
    obtain he' | he' := List.mem_append.mp he'
    · exact h.saving e' he'
    · cases List.mem_singleton.mp he'
      exact he
  invalidating k hk := by
    obtain hk | hk := List.mem_append.mp hk
    · exact h.invalidating k hk
    · cases List.mem_singleton.mp hk

theorem Inv.submit (h : Inv names s) {i : ℕ} {e : PlanCacheEntry} (hi : s.calls[i]? = some (.saving e))
    (ho : saves e.modelName (s.calls.take i) = [] ∨ saves e.modelName (s.calls.drop (i + 1)) ≠ []) :
    Inv names { s with store := submit e s.store, calls := s.calls.eraseIdx i } where
  memory := h.memory
  settled k hk := by
    refine (h.settled k hk).congr ?_ rfl ?_
    rotate_left
    · intro hmem
      obtain hmem | hmem := (mem_iff_of_getElem? hi).mp hmem
      · cases hmem
      · exact hmem
    -- The writes of the name keep their last one, those of the other names stay as they are.
    have hlast : (s.outstanding k).getLast? =
        (System.outstanding { s with store := PlanCache.submit e s.store, calls := s.calls.eraseIdx i } k).getLast? := by
      dsimp only [System.outstanding, PlanCache.submit]
      rw [List.filter_append, saves_getElem? hi, saves_eraseIdx]
      by_cases hke : e.modelName = k
      · subst hke
        have hone : saves e.modelName [.saving e] = [e] := by simp [saves]
        have hfilter : [e].filter (fun e' : PlanCacheEntry ↦ e'.modelName = e.modelName) = [e] := by simp
        rw [hone, hfilter]
        obtain ho | ho := ho
        · rw [ho, List.nil_append, List.nil_append, List.append_assoc]
        · simp only [← List.append_assoc]
          rw [List.getLast?_append_of_ne_nil _ ho, List.getLast?_append_of_ne_nil _ ho]
      · have hone : saves k [.saving e] = [] := by simp [saves, hke]
        have hfilter : [e].filter (fun e' : PlanCacheEntry ↦ e'.modelName = k) = [] := by simp [hke]
        rw [hone, hfilter, List.nil_append, List.append_nil]
    rw [System.final, System.final, hlast]
    rfl
  capacity := h.capacity
  queued e' he' := by
    obtain he' | he' := List.mem_append.mp he'
    · exact h.queued e' he'
    · rw [List.mem_singleton.mp he']
      exact h.saving e (List.mem_of_getElem? hi)
  saving e' he' := h.saving e' ((mem_iff_of_getElem? hi).mpr (.inr he'))
  invalidating k hk := h.invalidating k ((mem_iff_of_getElem? hi).mpr (.inr hk))

theorem Inv.write (h : Inv names s) (hnames : names.InjOn safeName) :
    Inv names { s with store := writeNext .written s.store } := by
  cases hq : s.store.executor with
  | nil => simpa [writeNext, hq] using h
  | cons e rest =>
    rw [writeNext_written hq]
    have he : e.modelName ∈ names := h.queued e (hq ▸ List.mem_cons_self)
    refine ⟨h.memory, fun k hk ↦ ?_, h.capacity, fun e' he' ↦ ?_, h.saving, h.invalidating⟩
    · refine (h.settled k hk).congr ?_ rfl id
      dsimp only [System.final, System.outstanding]
      rw [hq]
      by_cases hke : e.modelName = k
      · subst hke
        have hfilter : (e :: rest).filter (fun e' ↦ e'.modelName = e.modelName) =
            e :: rest.filter fun e' ↦ e'.modelName = e.modelName := by simp
        rw [hfilter, List.cons_append, Function.update_self]
        cases hl : rest.filter (fun e' ↦ e'.modelName = e.modelName) ++ saves e.modelName s.calls with
        | nil => rfl
        | cons a l => rw [List.getLast?_cons_cons, List.getLast?_cons]
      · have hfilter : (e :: rest).filter (fun e' ↦ e'.modelName = k) = rest.filter fun e' ↦ e'.modelName = k := by
          simp [hke]
        have hpath : pathFor s.store.rootDir k ≠ pathFor s.store.rootDir e.modelName := by
          rw [Ne, pathFor_eq_iff]
          exact fun hsafe ↦ hke (hnames hk he hsafe).symm
        rw [hfilter, Function.update_of_ne hpath]
    · exact h.queued e' (hq ▸ List.mem_cons_of_mem e he')

theorem Inv.beginInvalidate (h : Inv names s) (hname : name ∈ names) :
    Inv names
      { store := s.store.forget name
        calls := s.calls ++ [.invalidating name]
        expected :=
          if (saves name s.calls).isEmpty then Function.update s.expected name none else s.expected } where
  memory k r hr := by
    dsimp only at hr ⊢
    rw [PlanCacheStore.forget, Dict.get?_erase] at hr
    split_ifs at hr with hk
    split_ifs
    · rw [Function.update_of_ne (Ne.symm hk)]
      exact h.memory k r hr
    · exact h.memory k r hr
  settled k hk := by
    have hsaves : saves k (s.calls ++ [.invalidating name]) = saves k s.calls := by
      rw [saves_append]
      exact List.append_nil _
    by_cases hkn : k = name ∧ (saves name s.calls).isEmpty = true
    · right
      obtain ⟨rfl, he⟩ := hkn
      dsimp only
      rw [if_pos he, Function.update_self]
      exact ⟨rfl, List.mem_append_right _ List.mem_cons_self⟩
    · apply (h.settled k hk).congr
      · exact final_congr (congrArg _ hsaves) rfl
      · dsimp only
        split_ifs with he
        · exact Function.update_of_ne (fun hk ↦ hkn ⟨hk, he⟩) ..
        · rfl
      · exact fun hi ↦ List.mem_append_left _ hi
  capacity k e he := by
    dsimp only at he
    split_ifs at he with hs
    · by_cases hk : k = name
      · subst hk
        rw [Function.update_self] at he
        cases he
      · rw [Function.update_of_ne hk] at he
        exact h.capacity k e he
    · exact h.capacity k e he
  queued := h.queued
  saving e he := by
    obtain he | he := List.mem_append.mp he
    · exact h.saving e he
    · cases List.mem_singleton.mp he
  invalidating k hk := by
    obtain hk | hk := List.mem_append.mp hk
    · exact h.invalidating k hk
    · cases List.mem_singleton.mp hk
      exact hname

/-- Where the file of the name goes and the invalidation is over, the name is settled: nothing is expected and
nothing is to come, or a write is. -/
theorem settled_of_removed {i : ℕ} (h : s.Settled name) (hi : s.calls[i]? = some (.invalidating name))
    (hnone : s.expected name = none → s.outstanding name = [] ∨ .invalidating name ∈ s.calls.eraseIdx i)
    (hsome : s.expected name ≠ none → s.outstanding name ≠ [])
    (hcalls : t.calls = s.calls.eraseIdx i) (hexecutor : t.store.executor = s.store.executor)
    (hexpected : t.expected = s.expected) (hfile : t.store.files (pathFor t.store.rootDir name) = none) :
    t.Settled name := by
  have ho : t.outstanding name = s.outstanding name := by
    rw [System.outstanding, System.outstanding, hcalls, hexecutor, saves_getElem? hi, saves_eraseIdx]
    rfl
  rw [System.Settled, System.final, ho, hexpected, hcalls]
  cases he : s.expected name with
  | none =>
    obtain hnil | hmem := hnone he
    · left
      rw [hnil]
      exact hfile
    · exact .inr ⟨rfl, hmem⟩
  | some e =>
    have hne : s.outstanding name ≠ [] := hsome (he ▸ Option.some_ne_none e)
    left
    -- A write is still to come, so the file does not count.
    obtain hs | ⟨hs, -⟩ := h
    · rw [System.final, he, List.getLast?_eq_some_getLast hne] at hs
      rw [List.getLast?_eq_some_getLast hne]
      exact hs
    · rw [he] at hs
      cases hs

theorem Inv.removeFile (h : Inv names s) (hnames : names.InjOn safeName) {i : ℕ}
    (hi : s.calls[i]? = some (.invalidating name))
    (hnone : s.expected name = none → s.outstanding name = [] ∨ .invalidating name ∈ s.calls.eraseIdx i)
    (hsome : s.expected name ≠ none → s.outstanding name ≠ []) :
    Inv names { s with
      store := { s.store with files := Function.update s.store.files (pathFor s.store.rootDir name) none }
      calls := s.calls.eraseIdx i } := by
  have hname : name ∈ names := h.invalidating name (List.mem_of_getElem? hi)
  refine ⟨h.memory, fun k hk ↦ ?_, h.capacity, h.queued,
    fun e he ↦ h.saving e ((mem_iff_of_getElem? hi).mpr (.inr he)),
    fun k hk ↦ h.invalidating k ((mem_iff_of_getElem? hi).mpr (.inr hk))⟩
  by_cases hkn : k = name
  · subst hkn
    refine settled_of_removed (h.settled k hk) hi hnone hsome ?_ ?_ ?_ ?_
    · rfl
    · rfl
    · rfl
    · dsimp only
      rw [Function.update_self]
  · have hsaves : saves k (s.calls.eraseIdx i) = saves k s.calls := by
      rw [saves_getElem? hi, saves_eraseIdx]
      rfl
    have hpath : pathFor s.store.rootDir k ≠ pathFor s.store.rootDir name := by
      rw [Ne, pathFor_eq_iff]
      exact fun hsafe ↦ hkn (hnames hk hname hsafe)
    refine (h.settled k hk).congr (final_congr ?_ ?_) rfl fun hmem ↦ ?_
    · dsimp only [System.outstanding]
      rw [hsaves]
    · dsimp only
      rw [Function.update_of_ne hpath]
    · obtain hmem | hmem := (mem_iff_of_getElem? hi).mp hmem
      · cases hmem
        exact absurd rfl hkn
      · exact hmem

theorem Inv.putBack (h : Inv names s) (now : ℚ) {e : PlanCacheEntry}
    (he : ∃ e₀, s.expected name = some e₀ ∧ e.Same e₀) :
    Inv names { s with store := (addToMemoryCache now name e).after s.store } := by
  rw [Method.after, addToMemoryCache_run]
  split_ifs
  · exact h.sub fun k r hr ↦ (get?_kept hr).2
  · apply h.withMemory
    intro k r hr
    rw [Dict.get?_insert] at hr
    split_ifs at hr with hk
    · cases hr
      exact hk ▸ he
    · exact h.memory k r (get?_kept hr).2

/-- A call that has no part in a `save` and does not remove a file goes on or returns. -/
theorem Inv.goOn (h : Inv names s) {i : ℕ} {c : Call} (hi : s.calls[i]? = some c)
    (hc : ∀ k, saves k [c] = []) (hc' : ∀ k, c ≠ .invalidating k) : Inv names { s with calls := s.calls.eraseIdx i } := by
  apply h.withCalls
  · intro k
    rw [saves_getElem? hi, saves_eraseIdx, hc, List.nil_append]
  · intro k
    rw [mem_iff_of_getElem? hi]
    exact ⟨.inr, fun hk ↦ hk.resolve_left (Ne.symm (hc' k))⟩

theorem inv_step (hnames : names.InjOn safeName) (a : Action) (h : Inv names s) (ha : a.Within names ∧ Orderly s a)
    (hs : step B s a = some t) : Inv names t := by
  cases a with
  | beginSave now e =>
    simp only [step, addToMemoryCache_run] at hs
    split_ifs at hs with hc
    · cases hs
      exact h.sub fun k r hr ↦ (get?_kept hr).2
    · cases hs
      exact h.beginSave ha.1 now (not_le.mp hc)
  | submit i =>
    simp only [step] at hs
    split at hs
    · next e hi =>
      cases hs
      exact h.submit hi (ha.2 e hi)
    · cases hs
  | beginLoad now name =>
    obtain ⟨r, memory, hrun, hm, -⟩ := @loadFromMemory_run s.store name now
    simp only [step, hrun] at hs
    cases r with
    | none =>
      cases hs
      apply (h.sub hm).withCalls
      · intro k
        rw [saves_append]
        exact List.append_nil _
      · intro k
        simp
    | some e =>
      cases hs
      exact h.sub hm
  | readFile i =>
    simp only [step] at hs
    split at hs
    · next name hi =>
      split at hs
      · next e _ =>
        cases hs
        apply h.withCalls
        · intro k
          rw [saves_getElem? hi, saves_set hi]
          rfl
        · intro k
          obtain ⟨hlt, -⟩ := List.getElem?_eq_some_iff.mp hi
          rw [List.set_eq_take_append_cons_drop, if_pos hlt, mem_iff_of_getElem? hi,
            List.eraseIdx_eq_take_drop_succ]
          simp
      · cases hs
        exact h.goOn hi (fun _ ↦ rfl) fun _ ↦ Call.noConfusion
    · cases hs
  | putBack i now =>
    simp only [step] at hs
    split at hs
    · next name e hi =>
      cases hs
      exact (h.putBack now (ha.2 name e hi)).goOn hi (fun _ ↦ rfl) fun _ ↦ Call.noConfusion
    · cases hs
  | beginInvalidate name =>
    cases hs
    exact h.beginInvalidate ha.1
  | removeFile i =>
    simp only [step] at hs
    split at hs
    · next name hi =>
      cases hs
      obtain ⟨hnone, hsome⟩ := ha.2 name hi
      have hset := h.removeFile hnames hi hnone hsome
      rw [Method.after, removeFile_run]
      split_ifs with hf
      · exact hset
      · -- The file was not there.
        have habsent : Function.update s.store.files (pathFor s.store.rootDir name) none = s.store.files := by
          rw [Function.update_eq_self_iff]
          exact (by simpa using hf : s.store.files (pathFor s.store.rootDir name) = none).symm
        rw [habsent] at hset
        exact hset
    · cases hs
  | write =>
    cases hs
    exact h.write hnames
  | clearMemoryCache =>
    cases hs
    exact h.sub fun k r hr ↦ by cases hr
  | evict name =>
    cases hs
    exact h.forget name

end Steps

section Results

variable {B : Builtins} {names : Set String} {s : System} {name : String}

/-- Where all is quiet the next load finds what is expected, in memory or on disk. -/
theorem Inv.load (h : Inv names s) (hq : s.Quiet) (hname : name ∈ names) (now later : ℚ) :
    ∃ r, (load B now later true name).value s.store = .ok r ∧ Option.Rel PlanCacheEntry.Same r (s.expected name) := by
  obtain ⟨hcalls, hexecutor⟩ := hq
  have hfile : s.store.files (pathFor s.store.rootDir name) = (s.expected name).map document := by
    obtain hs | ⟨-, hs⟩ := h.settled name hname
    · rw [← hs, System.final, System.outstanding, hcalls, hexecutor]
      rfl
    · rw [hcalls] at hs
      cases hs
  obtain ⟨r, memory, hrun, hm, hr⟩ := @loadFromMemory_run s.store name now
  rw [PlanCache.load, Method.value_bind_of_ok hrun]
  cases r with
  | some e =>
    obtain ⟨v, hv, rfl⟩ := hr e rfl
    obtain ⟨e₀, he₀, hsame⟩ := h.memory name v hv
    refine ⟨some v.entry, rfl, ?_⟩
    rw [he₀]
    exact .some hsame
  | none =>
    dsimp only
    have hfile' : ({ s.store with memoryCache := memory } : PlanCacheStore).files
        (pathFor s.store.rootDir name) = (s.expected name).map document := hfile
    cases he : s.expected name with
    | none =>
      rw [he] at hfile'
      refine ⟨none, ?_, .none⟩
      rw [Method.value, loadMissed_absent B later hfile']
    | some e =>
      rw [he] at hfile'
      refine ⟨some e.reloaded, ?_, .some e.same_reloaded⟩
      rw [Method.value, @loadMissed_document B { s.store with memoryCache := memory } name e later
        (h.capacity name e he) hfile']

/-- In a run whose steps bring nothing back that is out of date, the last operation on a name wins. -/
theorem last_operation_wins {rootDir : String} {maxMemoryCache : ℤ} {ttlSeconds : ℚ}
    (hnames : ∀ a ∈ names, ∀ b ∈ names, safeName a = safeName b → a = b)
    (h : Reaches (step B) (fun s a ↦ a.Within names ∧ Orderly s a) (fresh rootDir maxMemoryCache ttlSeconds) s)
    (hq : s.Quiet) (hname : name ∈ names) (now later : ℚ) :
    ∃ r, (load B now later true name).value s.store = .ok r ∧ Option.Rel PlanCacheEntry.Same r (s.expected name) := by
  have hinj : names.InjOn safeName := fun a ha b hb hab ↦ hnames a ha b hb hab
  have hinv : Inv names s :=
    h.invariant (inv_fresh rootDir maxMemoryCache ttlSeconds) fun _ a _ hi ha hs ↦ inv_step hinj a hi ha hs
  exact hinv.load hq hname now later

/-- One entry is saved, its write is queued. -/
def savedOnce : System where
  store := ⟨"plans", 32, 3600, Dict.empty.insert "model" ⟨named "model", 0⟩, [named "model"], fun _ ↦ none⟩
  calls := []
  expected := Function.update (fun _ ↦ none) "model" (some (named "model"))

theorem reaches_savedOnce {allowed : System → Action → Prop} (h₁ : ∀ s, allowed s (.beginSave 0 (named "model")))
    (h₂ : ∀ s, allowed s (.submit 0)) : Reaches (step B) allowed (fresh "plans" 32 3600) savedOnce := by
  refine .next (.submit 0) (.next (.beginSave 0 (named "model")) .start (h₁ _) rfl) (h₂ _) ?_
  rfl

theorem last_operation_wins_saved : ∃ s : System, s.expected "model" = some (named "model") ∧
    ∃ r, (load .strict 4000 4000 true "model").value s.store = .ok r ∧
      Option.Rel PlanCacheEntry.Same r (s.expected "model") := by
  refine ⟨{ savedOnce with store := writeNext .written savedOnce.store }, rfl, ?_⟩
  have hone : ∀ a ∈ ({"model"} : Set String), ∀ b ∈ ({"model"} : Set String), safeName a = safeName b → a = b :=
    fun a ha b hb _ ↦ Eq.trans ha (Eq.symm hb)
  refine last_operation_wins hone (.next .write (reaches_savedOnce ?_ ?_) ⟨trivial, trivial⟩ rfl) ⟨rfl, rfl⟩ rfl 4000 4000
  · exact fun _ ↦ ⟨rfl, trivial⟩
  · refine fun s ↦ ⟨trivial, fun e _ ↦ .inl ?_⟩
    rw [List.take_zero]
    rfl

/-- An entry that was invalidated comes back with the write that was still queued. -/
theorem queued_write_resurrects : ¬∀ (B : Builtins) (rootDir : String) (maxMemoryCache : ℤ) (ttlSeconds : ℚ)
    (names : Set String) (s : System) (name : String) (now later : ℚ),
    (∀ a ∈ names, ∀ b ∈ names, safeName a = safeName b → a = b) →
    Reaches (step B) (fun _ a ↦ a.Within names) (fresh rootDir maxMemoryCache ttlSeconds) s → s.Quiet → name ∈ names →
    ∃ r, (load B now later true name).value s.store = .ok r ∧ Option.Rel PlanCacheEntry.Same r (s.expected name) := by
  intro h
  have hone : ∀ a ∈ ({"model"} : Set String), ∀ b ∈ ({"model"} : Set String), safeName a = safeName b → a = b :=
    fun a ha b hb _ ↦ Eq.trans ha (Eq.symm hb)
  -- The file is not there yet when `invalidate` looks for it.
  let invalidated : System :=
    { store := savedOnce.store.forget "model"
      calls := []
      expected := Function.update savedOnce.expected "model" none }
  have hreach : Reaches (step .strict) (fun _ a ↦ a.Within {"model"}) (fresh "plans" 32 3600) invalidated := by
    refine .next (.removeFile 0) (.next (.beginInvalidate "model") (reaches_savedOnce ?_ ?_) rfl rfl) trivial ?_
    · exact fun _ ↦ rfl
    · exact fun _ ↦ trivial
    · rfl
  obtain ⟨r, hr, hrel⟩ := h .strict "plans" 32 3600 {"model"}
    { invalidated with store := writeNext .written invalidated.store } "model" 0 0 hone
    (.next .write hreach trivial rfl) ⟨rfl, rfl⟩ rfl
  have hnone : invalidated.expected "model" = none := rfl
  rw [hnone] at hrel
  cases hrel
  have hload : (load .strict 0 0 true "model").value (writeNext .written invalidated.store) =
      .ok (some (named "model").reloaded) := by
    rw [load, Method.value_bind_of_ok (loadFromMemory_of_none 0 rfl), Method.value,
      loadMissed_document (e := named "model") .strict 0 (by decide) (Function.update_self ..)]
  rw [hload] at hr
  cases hr

end Results

end Order

end SplitFleet.PlanCache
