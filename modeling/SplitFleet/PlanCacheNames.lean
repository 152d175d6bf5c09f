import Mathlib.Data.Set.Function
import SplitFleet.PlanCache

set_option autoImplicit false

namespace SplitFleet.PlanCache

open Lib

namespace Names

/-- A call, or something that happens between two calls. -/
inductive Event
  | save (now : ℚ) (entry : PlanCacheEntry)
  | load (now later : ℚ) (readable : Bool) (modelName : String)
  | invalidate (removable : Bool) (modelName : String)
  | clearMemoryCache
  | write (outcome : WriteOutcome)
  | evict (modelName : String)

def apply (B : Builtins) (s : PlanCacheStore) : Event → PlanCacheStore
  | .save now entry => (save now entry).after s
  | .load now later readable modelName => (load B now later readable modelName).after s
  | .invalidate removable modelName => (invalidate removable modelName).after s
  | .clearMemoryCache => clearMemoryCache.after s
  | .write outcome => writeNext outcome s
  | .evict modelName => s.forget modelName

def run (B : Builtins) (s : PlanCacheStore) (events : List Event) : PlanCacheStore := events.foldl (apply B) s

/-- The entries with which `save` was called. -/
def saved : List Event → List PlanCacheEntry := List.filterMap fun
  | .save _ entry => some entry
  | _ => none

/-- The name that a `save` or a `load` is about. -/
def Event.name? : Event → Option String
  | .save _ entry => some entry.modelName
  | .load _ _ _ modelName => some modelName
  | _ => none

/-- Every call of `load` returns nothing or an entry that was saved under the name. -/
def Isolated (B : Builtins) (s : PlanCacheStore) (events : List Event) : Prop :=
  ∀ before now later readable modelName rest e, events = before ++ .load now later readable modelName :: rest →
    (load B now later readable modelName).value (run B s before) = .ok (some e) →
    ∃ e₀ ∈ saved before, e₀.modelName = modelName ∧ e.Same e₀

/-- All that a store of capacity `c` holds comes from the entries of `K`, each under its name or the path
of its name. -/
structure Holds (c : ℤ) (K : PlanCacheEntry → Prop) (s : PlanCacheStore) : Prop where
  capacity : s.maxMemoryCache = c
  memory : ∀ k r, s.memoryCache.get? k = some r → ∃ e, K e ∧ e.modelName = k ∧ r.entry.Same e
  executor : ∀ e ∈ s.executor, K e
  files : ∀ path j, s.files path = some (.document j) →
    ∃ e, K e ∧ path = pathFor s.rootDir e.modelName ∧ j = (Json.obj e.toDict).sorted

section Steps

variable {B : Builtins} {c : ℤ} {K : PlanCacheEntry → Prop} {s : PlanCacheStore}

theorem holds_fresh (rootDir : String) (ttlSeconds : ℚ) : Holds c K (.fresh rootDir c ttlSeconds) where
  capacity := rfl
  memory _ _ h := by cases h
  executor _ h := (List.not_mem_nil h).elim
  files _ _ h := by cases h

theorem Holds.mono {L : PlanCacheEntry → Prop} (h : Holds c K s) (hKL : ∀ e, K e → L e) : Holds c L s where
  capacity := h.capacity
  memory k r hr := (h.memory k r hr).imp fun e ↦ And.imp_left (hKL e)
  executor e he := hKL e (h.executor e he)
  files path j hj := (h.files path j hj).imp fun e ↦ And.imp_left (hKL e)

theorem Holds.withMemory (h : Holds c K s) {memory : Dict String CacheRecord}
    (hm : ∀ k r, memory.get? k = some r → ∃ e, K e ∧ e.modelName = k ∧ r.entry.Same e) :
    Holds c K { s with memoryCache := memory } where
  capacity := h.capacity
  memory := hm
  executor := h.executor
  files := h.files

theorem Holds.sub (h : Holds c K s) {memory : Dict String CacheRecord}
    (hm : ∀ k r, memory.get? k = some r → s.memoryCache.get? k = some r) :
    Holds c K { s with memoryCache := memory } :=
  h.withMemory fun k r hr ↦ h.memory k r (hm k r hr)

theorem Holds.forget (h : Holds c K s) (name : String) : Holds c K (s.forget name) := by
  apply h.sub
  intro k r hr
  rw [Dict.get?_erase] at hr
  split_ifs at hr
  exact hr

theorem Holds.addToMemoryCache (h : Holds c K s) (now : ℚ) {name : String} {e e₀ : PlanCacheEntry}
    (he : 0 < c → K e₀) (hname : e₀.modelName = name) (hsame : e.Same e₀) :
    Holds c K ((addToMemoryCache now name e).after s) := by
  rw [Method.after, addToMemoryCache_run]
  split_ifs with hc
  · exact h.sub fun k r hr ↦ (get?_kept hr).2
  · apply h.withMemory
    intro k r hr
    rw [Dict.get?_insert] at hr
    split_ifs at hr with hk
    · cases hr
      exact ⟨e₀, he (h.capacity ▸ not_le.mp hc), hname.trans hk, hsame⟩
    · exact h.memory k r (get?_kept hr).2

theorem Holds.withFile (h : Holds c K s) {path : String} {f : Option Stored}
    (hf : ∀ j, f = some (.document j) → ∃ e, K e ∧ path = pathFor s.rootDir e.modelName ∧
      j = (Json.obj e.toDict).sorted) :
    Holds c K { s with files := Function.update s.files path f } where
  capacity := h.capacity
  memory := h.memory
  executor := h.executor
  files p j hj := by
    by_cases hp : p = path
    · subst hp
      dsimp only at hj
      rw [Function.update_self] at hj
      exact hf j hj
    · dsimp only at hj
      rw [Function.update_of_ne hp] at hj
      exact h.files p j hj

theorem Holds.writeNext (h : Holds c K s) (outcome : WriteOutcome) : Holds c K (writeNext outcome s) := by
  cases hq : s.executor with
  | nil => simpa [PlanCache.writeNext, hq] using h
  | cons e rest =>
    have he : K e := h.executor e (hq ▸ List.mem_cons_self)
    have hrest : Holds c K { s with executor := rest } :=
      ⟨h.capacity, h.memory, fun e' he' ↦ h.executor e' (hq ▸ List.mem_cons_of_mem e he'), h.files⟩
    cases outcome with
    | notOpened =>
      rw [writeNext_notOpened hq]
      exact hrest
    | truncated =>
      rw [writeNext_truncated hq]
      apply hrest.withFile
      intro j hj
      cases hj
    | written =>
      rw [writeNext_written hq]
      apply hrest.withFile
      intro j hj
      cases hj
      exact ⟨e, he, rfl, rfl⟩

theorem Holds.removeFile (h : Holds c K s) (removable : Bool) (name : String) :
    Holds c K ((removeFile removable name).after s) := by
  rw [Method.after, removeFile_run]
  split_ifs
  · apply h.withFile
    intro j hj
    cases hj
  · exact h

theorem Holds.invalidate (h : Holds c K s) (removable : Bool) (name : String) :
    Holds c K ((invalidate removable name).after s) := by
  have hrun : (forgetName name).run s = .ok (s.memoryCache.get? name).isSome (s.forget name) := rfl
  rw [PlanCache.invalidate, Method.after_bind_of_ok hrun, Method.after_bind_pure]
  exact (h.forget name).removeFile removable name

/-- A file gives an entry whose name has the path of the file. -/
theorem Holds.loadFromDisk (h : Holds c K s) {readable : Bool} {name : String} {e : PlanCacheEntry}
    (he : loadFromDisk B s readable name = .ok (some e)) :
    ∃ e₀, K e₀ ∧ safeName e₀.modelName = safeName name ∧ e.Same e₀ := by
  cases hf : s.files (pathFor s.rootDir name) with
  | none =>
    rw [loadFromDisk_absent B hf] at he
    cases he
  | some f => cases f with
    | broken =>
      simp only [PlanCache.loadFromDisk, hf] at he
      cases he
    | document j =>
      obtain ⟨e₀, he₀, hp, rfl⟩ := h.files _ j hf
      cases readable with
      | false =>
        simp only [PlanCache.loadFromDisk, hf] at he
        cases he
      | true =>
        rw [loadFromDisk_document B hf] at he
        cases he
        exact ⟨e₀, he₀, ((pathFor_eq_iff _ _ _).mp hp).symm, e₀.same_reloaded⟩

/-- What `load` returns and what it leaves, where a name whose path is that of another one is not used. -/
theorem Holds.loadMissed (h : Holds c K s) {name : String}
    (hname : ∀ e₀, K e₀ → safeName e₀.modelName = safeName name → e₀.modelName = name) (now : ℚ) (readable : Bool) :
    Holds c K ((loadMissed B now readable name).after s) ∧
      ∀ e, (loadMissed B now readable name).value s = .ok (some e) → ∃ e₀, K e₀ ∧ e₀.modelName = name ∧ e.Same e₀ := by
  have hget : (get : Method PlanCacheStore PlanCacheStore).run s = .ok s s := rfl
  rw [PlanCache.loadMissed, Method.after_bind_of_ok hget, Method.value_bind_of_ok hget]
  cases hd : PlanCache.loadFromDisk B s readable name with
  | error e => exact ⟨h, fun e' he' ↦ by cases he'⟩
  | ok o => cases o with
    | none => exact ⟨h, fun e' he' ↦ by cases he'⟩
    | some e =>
      obtain ⟨e₀, hK, hn, hs⟩ := h.loadFromDisk hd
      have hadd := h.addToMemoryCache now (fun _ ↦ hK) (hname e₀ hK hn) hs
      have hlift : (liftM (Except.ok (some e) : Except PyError (Option PlanCacheEntry)) :
          Method PlanCacheStore (Option PlanCacheEntry)).run s = .ok (some e) s := rfl
      rw [Method.after_bind_of_ok hlift, Method.value_bind_of_ok hlift]
      refine ⟨?_, fun e' he' ↦ ?_⟩
      · exact (Method.after_bind_pure _ _ _).symm ▸ hadd
      · have he'' := (Method.value_bind_pure _ _ _).symm.trans he'
        cases ha : (PlanCache.addToMemoryCache now name e).value s with
        | error x =>
          rw [ha] at he''
          cases he''
        | ok u =>
          rw [ha] at he''
          cases he''
          exact ⟨e₀, hK, hname e₀ hK hn, hs⟩

theorem Holds.load (h : Holds c K s) {name : String}
    (hname : ∀ e₀, K e₀ → safeName e₀.modelName = safeName name → e₀.modelName = name) (now later : ℚ)
    (readable : Bool) : Holds c K ((load B now later readable name).after s) ∧
      ∀ e, (load B now later readable name).value s = .ok (some e) → ∃ e₀, K e₀ ∧ e₀.modelName = name ∧ e.Same e₀ := by
  obtain ⟨r, memory, hrun, hm, hr⟩ := @loadFromMemory_run s name now
  have h' := h.sub hm
  rw [PlanCache.load, Method.after_bind_of_ok hrun, Method.value_bind_of_ok hrun]
  cases r with
  | some e =>
    refine ⟨h', fun e' he' ↦ ?_⟩
    obtain ⟨v, hv, hve⟩ := hr e rfl
    obtain ⟨e₀, hK, hn, hs⟩ := h.memory name v hv
    cases he'
    exact ⟨e₀, hK, hn, hve ▸ hs⟩
  | none => exact h'.loadMissed hname later readable

theorem Holds.save (h : Holds c K s) (now : ℚ) {e : PlanCacheEntry} (he : 0 < c → K e) :
    Holds c K ((save now e).after s) := by
  have hadd := h.addToMemoryCache now he rfl (Eq.refl e.reloaded)
  rw [Method.after] at hadd ⊢
  rw [PlanCache.save, EStateM.run_bind]
  rw [addToMemoryCache_run] at hadd ⊢
  split_ifs at hadd ⊢ with hc
  · exact hadd
  · refine ⟨hadd.capacity, hadd.memory, fun e' he' ↦ ?_, hadd.files⟩
    obtain he' | he' := List.mem_append.mp he'
    · exact hadd.executor e' he'
    · exact List.mem_singleton.mp he' ▸ he (h.capacity ▸ not_le.mp hc)

end Steps

section Runs

variable {B : Builtins} {c : ℤ} {names : Set String}

/-- The entries that are in the store after these events, or were. -/
def Kept (c : ℤ) (events : List Event) (e : PlanCacheEntry) : Prop := 0 < c ∧ e ∈ saved events

theorem saved_append (before after : List Event) : saved (before ++ after) = saved before ++ saved after :=
  List.filterMap_append ..

theorem kept_append {before : List Event} {e : PlanCacheEntry} (h : Kept c before e) (after : List Event) :
    Kept c (before ++ after) e := by
  refine ⟨h.1, ?_⟩
  rw [saved_append]
  exact List.mem_append_left _ h.2

theorem mem_names_of_saved {events : List Event} {e : PlanCacheEntry}
    (hnames : ∀ event ∈ events, ∀ name, event.name? = some name → name ∈ names) (he : e ∈ saved events) :
    e.modelName ∈ names := by
  obtain ⟨event, hevent, h⟩ := List.mem_filterMap.mp he
  cases event with
  | save now entry =>
    cases h
    exact hnames _ hevent _ rfl
  | load | invalidate | clearMemoryCache | write | evict => cases h

theorem name_eq (hsafe : 0 < c → names.InjOn safeName) {events : List Event}
    (hnames : ∀ event ∈ events, ∀ name, event.name? = some name → name ∈ names) {name : String} (hname : name ∈ names)
    (e : PlanCacheEntry) (he : Kept c events e) (h : safeName e.modelName = safeName name) : e.modelName = name :=
  hsafe he.1 (mem_names_of_saved hnames he.2) hname h

theorem holds_apply (hsafe : 0 < c → names.InjOn safeName) {events : List Event} {event : Event}
    (hnames : ∀ event' ∈ events ++ [event], ∀ name, event'.name? = some name → name ∈ names) {s : PlanCacheStore}
    (h : Holds c (Kept c events) s) : Holds c (Kept c (events ++ [event])) (apply B s event) := by
  have h' : Holds c (Kept c (events ++ [event])) s := h.mono fun e he ↦ kept_append he _
  cases event with
  | save now entry =>
    apply h'.save
    intro hc
    refine ⟨hc, ?_⟩
    rw [saved_append]
    exact List.mem_append_right _ List.mem_cons_self
  | load now later readable name =>
    have hname : name ∈ names := hnames _ (List.mem_append_right _ List.mem_cons_self) _ rfl
    exact (h'.load (name_eq hsafe hnames hname) now later readable).1
  | invalidate removable name => exact h'.invalidate removable name
  | clearMemoryCache => exact h'.withMemory fun k r hr ↦ by cases hr
  | write outcome => exact h'.writeNext outcome
  | evict name => exact h'.forget name

theorem holds_run (hsafe : 0 < c → names.InjOn safeName) (rootDir : String) (ttlSeconds : ℚ) {events : List Event}
    (hnames : ∀ event ∈ events, ∀ name, event.name? = some name → name ∈ names) :
    Holds c (Kept c events) (run B (.fresh rootDir c ttlSeconds) events) := by
  induction events using List.reverseRecOn with
  | nil => exact holds_fresh rootDir ttlSeconds
  | append_singleton events event ih =>
    rw [run, List.foldl_append]
    exact holds_apply hsafe hnames (ih fun event' he ↦ hnames event' (List.mem_append_left _ he))

/-- One entry is saved and written, then another name is loaded. -/
def crossing (a b : String) : List Event := [.save 0 (named a), .write .written, .load 0 0 true b]

theorem crossing_returns (rootDir : String) (hc : 0 < c) (ttlSeconds : ℚ) {a b : String} (hne : a ≠ b)
    (hab : safeName a = safeName b) :
    (load B 0 0 true b).value (run B (.fresh rootDir c ttlSeconds) [.save 0 (named a), .write .written]) =
      .ok (some (named a).reloaded) := by
  -- After the save the memory holds `a` alone and the write waits; the write puts the file at the common path.
  have hsave : (save 0 (named a)).run (.fresh rootDir c ttlSeconds) =
      .ok () ⟨rootDir, c, ttlSeconds, Dict.empty.insert a ⟨named a, 0⟩, [named a], fun _ ↦ none⟩ := by
    have hadd : (addToMemoryCache 0 (named a).modelName (named a)).run (.fresh rootDir c ttlSeconds) = _ :=
      addToMemoryCache_of_pos 0 (named a) hc
    rw [save, Method.run_bind_of_ok hadd]
    rfl
  have hrun : run B (.fresh rootDir c ttlSeconds) [.save 0 (named a), .write .written] =
      ⟨rootDir, c, ttlSeconds, Dict.empty.insert a ⟨named a, 0⟩, [],
        Function.update (fun _ ↦ none) (pathFor rootDir a) (some (.document (Json.obj (named a).toDict).sorted))⟩ := by
    rw [run, List.foldl_cons, apply, Method.after_of_ok hsave, List.foldl_cons, List.foldl_nil, apply,
      writeNext_written rfl]
    rfl
  rw [hrun, load, Method.value_bind_of_ok (loadFromMemory_of_none 0 _)]
  · rw [Method.value, loadMissed_document (e := named a) B 0 hc]
    dsimp only
    rw [(pathFor_eq_iff rootDir b a).mpr hab.symm, Function.update_self]
  · dsimp only
    rw [Dict.get?_insert, if_neg hne, Dict.get?_empty]

/-- The names are kept apart in every run exactly where no two of them have the same file name, or where the
memory has no room and `save` raises before it hands out its write. -/
theorem isolated_iff (B : Builtins) (rootDir : String) (maxMemoryCache : ℤ) (ttlSeconds : ℚ) (names : Set String) :
    (∀ events, (∀ event ∈ events, ∀ name, Event.name? event = some name → name ∈ names) →
      Isolated B (.fresh rootDir maxMemoryCache ttlSeconds) events) ↔
    maxMemoryCache ≤ 0 ∨ ∀ a ∈ names, ∀ b ∈ names, safeName a = safeName b → a = b := by
  constructor
  · intro h
    by_contra hn
    rw [not_or, not_le] at hn
    apply hn.2
    intro a ha b hb hab
    by_contra hne
    have hnames : ∀ event ∈ crossing a b, ∀ name, Event.name? event = some name → name ∈ names := by
      simp only [crossing, List.forall_mem_cons, Event.name?, Option.some.injEq, forall_eq', reduceCtorEq,
        false_implies, implies_true, List.not_mem_nil, and_true, true_and]
      exact ⟨ha, hb⟩
    obtain ⟨e, he, hname, -⟩ := h (crossing a b) hnames [.save 0 (named a), .write .written] 0 0 true b []
      (named a).reloaded rfl (crossing_returns rootDir hn.1 ttlSeconds hne hab)
    have he' : e ∈ [named a] := he
    rw [List.mem_singleton] at he'
    subst he'
    exact hne hname
  · intro h events hnames before now later readable name rest e heq he
    subst heq
    have hsafe : 0 < maxMemoryCache → names.InjOn safeName := fun hc a ha b hb hab ↦
      h.resolve_left (not_le.mpr hc) a ha b hb hab
    have hbefore : ∀ event ∈ before, ∀ name', event.name? = some name' → name' ∈ names :=
      fun event hevent ↦ hnames event (List.mem_append_left _ hevent)
    have hname : name ∈ names := hnames _ (List.mem_append_right _ List.mem_cons_self) _ rfl
    obtain ⟨e₀, hK, hn, hs⟩ := ((holds_run hsafe rootDir ttlSeconds hbefore).load
      (name_eq hsafe hbefore hname) now later readable).2 e he
    exact ⟨e₀, hK.2, hn, hs⟩

/-- The plan of a model whose name has a slash is returned for the name with an underscore. -/
theorem slash_crosses : ¬∀ (B : Builtins) (rootDir : String) (maxMemoryCache : ℤ) (ttlSeconds : ℚ)
    (events : List Event), Isolated B (.fresh rootDir maxMemoryCache ttlSeconds) events := by
  intro h
  have hne : "org/model" ≠ "org_model" := by decide +kernel
  have hab : safeName "org/model" = safeName "org_model" := by decide +kernel
  obtain ⟨e, he, hname, -⟩ := h .strict "plans" 32 3600 (crossing "org/model" "org_model")
    [.save 0 (named "org/model"), .write .written] 0 0 true "org_model" [] (named "org/model").reloaded rfl
    (crossing_returns "plans" (by decide) 3600 hne hab)
  have he' : e ∈ [named "org/model"] := he
  rw [List.mem_singleton] at he'
  subst he'
  exact hne hname

end Runs

end Names

end SplitFleet.PlanCache
