import Mathlib.Algebra.Order.Ring.Rat
import SplitFleet.Lib.Json
import SplitFleet.Lib.Method

set_option autoImplicit false

namespace SplitFleet.PlanCache

open Lib

structure PlanCacheEntry where
  modelName : String
  graphSignature : String
  boundary : String
  splitId : String
  score : BitVec 64
  workerSignature : String
  constraintSignature : List (String × Json)
  objectiveSignature : List (String × Json)
  metadata : List (String × Json)

/-- `str`, `float` and `dict` on what `json.load` returns. -/
structure Builtins where
  str : Json → String
  float : Json → Except PyError (BitVec 64)
  dict : Json → Except PyError (List (String × Json))
  str_str : ∀ s, str (.str s) = s
  float_float : ∀ bits, float (.float bits) = .ok bits
  dict_obj : ∀ fields, dict (.obj fields) = .ok fields

namespace PlanCacheEntry

def toDict (e : PlanCacheEntry) : List (String × Json) :=
  [("model_name", .str e.modelName), ("graph_signature", .str e.graphSignature), ("boundary", .str e.boundary),
    ("split_id", .str e.splitId), ("score", .float e.score), ("worker_signature", .str e.workerSignature),
    ("constraint_signature", .obj e.constraintSignature), ("objective_signature", .obj e.objectiveSignature),
    ("metadata", .obj e.metadata)]

/-- `payload[key]` -/
def item (payload : List (String × Json)) (key : String) : Except PyError Json :=
  match Dict.lookup payload key with
  | some j => .ok j
  | none => .error (.keyError key)

/-- `payload.get(key, default)` -/
def itemD (payload : List (String × Json)) (key : String) (default : Json) : Json :=
  (Dict.lookup payload key).getD default

def fromDict (B : Builtins) (payload : List (String × Json)) : Except PyError PlanCacheEntry := do
  let modelName ← item payload "model_name"
  let graphSignature ← item payload "graph_signature"
  let score ← B.float (itemD payload "score" (.float 0#64))
  let constraintSignature ← B.dict (itemD payload "constraint_signature" (.obj []))
  let objectiveSignature ← B.dict (itemD payload "objective_signature" (.obj []))
  let metadata ← B.dict (itemD payload "metadata" (.obj []))
  return {
    modelName := B.str modelName
    graphSignature := B.str graphSignature
    boundary := B.str (itemD payload "boundary" (.str "50%"))
    splitId := B.str (itemD payload "split_id" (.str ""))
    score := score
    workerSignature := B.str (itemD payload "worker_signature" (.str ""))
    constraintSignature := constraintSignature
    objectiveSignature := objectiveSignature
    metadata := metadata }

/-- The entries of a dictionary in the order in which `sort_keys=True` writes them. -/
def ordered (fields : List (String × Json)) : List (String × Json) :=
  Json.sortKeys (fields.map fun p ↦ (p.1, p.2.sorted))

/-- The entry as it comes back from a file: the keys of its dictionaries are in order. -/
def reloaded (e : PlanCacheEntry) : PlanCacheEntry :=
  { e with
    constraintSignature := ordered e.constraintSignature
    objectiveSignature := ordered e.objectiveSignature
    metadata := ordered e.metadata }

/-- `a == b`: the order of the keys of a dictionary does not count. -/
def Same (a b : PlanCacheEntry) : Prop := a.reloaded = b.reloaded

theorem ordered_ordered (fields : List (String × Json)) : ordered (ordered fields) = ordered fields := by
  have h := Json.sorted_sorted (.obj fields)
  rw [Json.sorted_obj, Json.sorted_obj] at h
  exact Json.obj.inj h

theorem same_reloaded (e : PlanCacheEntry) : Same e.reloaded e := by
  simp only [Same, reloaded, ordered_ordered]

theorem Same.modelName {a b : PlanCacheEntry} (h : Same a b) : a.modelName = b.modelName := by
  have hm : a.reloaded.modelName = b.reloaded.modelName := by rw [h]
  exact hm

theorem toDict_keys_nodup (e : PlanCacheEntry) : (e.toDict.map Prod.fst).Nodup := by
  change ["model_name", "graph_signature", "boundary", "split_id", "score", "worker_signature",
    "constraint_signature", "objective_signature", "metadata"].Nodup
  decide

theorem lookup_ordered_toDict (e : PlanCacheEntry) (key : String) :
    Dict.lookup (ordered e.toDict) key = (Dict.lookup e.toDict key).map Json.sorted :=
  Json.lookup_sorted e.toDict_keys_nodup key

/-- What a file says of an entry. -/
theorem fromDict_toDict (B : Builtins) (e : PlanCacheEntry) : fromDict B (ordered e.toDict) = .ok e.reloaded := by
  have hs (key s : String) (h : Dict.lookup e.toDict key = some (.str s)) :
      Dict.lookup (ordered e.toDict) key = some (.str s) := by
    rw [lookup_ordered_toDict, h]
    rfl
  have hd (key : String) (fields : List (String × Json)) (h : Dict.lookup e.toDict key = some (.obj fields)) :
      Dict.lookup (ordered e.toDict) key = some (.obj (ordered fields)) := by
    rw [lookup_ordered_toDict, h, Option.map_some, Json.sorted_obj, ordered]
  have hscore : Dict.lookup (ordered e.toDict) "score" = some (.float e.score) := by
    rw [lookup_ordered_toDict]
    rfl
  simp only [fromDict, item, itemD, hs "model_name" e.modelName rfl, hs "graph_signature" e.graphSignature rfl,
    hs "boundary" e.boundary rfl, hs "split_id" e.splitId rfl, hs "worker_signature" e.workerSignature rfl, hscore,
    hd "constraint_signature" e.constraintSignature rfl, hd "objective_signature" e.objectiveSignature rfl,
    hd "metadata" e.metadata rfl, Option.getD_some, B.str_str, B.float_float, B.dict_obj, ok_bind]
  rfl

end PlanCacheEntry

structure CacheRecord where
  entry : PlanCacheEntry
  timestamp : ℚ

/-- What is in a file: a value, or a text that is not one. -/
inductive Stored
  | document (j : Json)
  | broken

/-- The store, with the writes handed to its executor and not yet done, and the files of its directory. -/
structure PlanCacheStore where
  rootDir : String
  maxMemoryCache : ℤ
  ttlSeconds : ℚ
  memoryCache : Dict String CacheRecord
  executor : List PlanCacheEntry
  files : String → Option Stored

/-- A store on an empty directory. -/
def PlanCacheStore.fresh (rootDir : String) (maxMemoryCache : ℤ) (ttlSeconds : ℚ) : PlanCacheStore where
  rootDir := rootDir
  maxMemoryCache := maxMemoryCache
  ttlSeconds := ttlSeconds
  memoryCache := Dict.empty
  executor := []
  files := fun _ ↦ none

section Paths

/-- `s.replace(a, b)` -/
def replaceChar (a b : Char) (s : String) : String := String.ofList (s.toList.map fun c ↦ if c = a then b else c)

/-- `os.path.join(root, name)` -/
def join (root name : String) : String :=
  if name.toList.head? = some '/' then name
  else if root.toList = [] ∨ root.toList.getLast? = some '/' then root ++ name
  else root ++ "/" ++ name

def safeName (modelName : String) : String := replaceChar '/' '_' (replaceChar '\\' '_' modelName)

def pathFor (rootDir modelName : String) : String := join rootDir (safeName modelName ++ ".json")

theorem slash_not_mem_safeName (modelName : String) : '/' ∉ (safeName modelName).toList := by
  simp only [safeName, replaceChar, String.toList_ofList, List.mem_map, not_exists, not_and]
  intro c _ hc
  split_ifs at hc with h
  · exact absurd hc (by decide)
  · exact h hc

theorem pathFor_eq_iff (rootDir a b : String) : pathFor rootDir a = pathFor rootDir b ↔ safeName a = safeName b := by
  have hhead (m : String) : ¬(safeName m ++ ".json").toList.head? = some '/' := by
    intro h
    rw [String.toList_append] at h
    have hmem := List.mem_of_head? h
    rw [List.mem_append] at hmem
    exact hmem.elim (slash_not_mem_safeName m) (by decide)
  refine ⟨fun h ↦ ?_, fun h ↦ by rw [pathFor, pathFor, h]⟩
  rw [pathFor, pathFor, join, join, if_neg (hhead a), if_neg (hhead b)] at h
  have h' : safeName a ++ ".json" = safeName b ++ ".json" := by
    split_ifs at h
    · exact (String.append_right_inj _).mp h
    · exact (String.append_right_inj _).mp h
  exact (String.append_left_inj _).mp h'

end Paths

/-! ### The sections of the calls -/

section Sections

def PlanCacheStore.forget (modelName : String) (s : PlanCacheStore) : PlanCacheStore :=
  { s with memoryCache := s.memoryCache.erase modelName }

/-- `popitem(last=False)` for as long as there are `capacity` items or more. -/
def popOldest {α : Type} (capacity : ℤ) : List α → List α
  | [] => []
  | p :: l => if capacity ≤ (l.length : ℤ) + 1 then popOldest capacity l else p :: l

theorem popOldest_suffix {α : Type} (capacity : ℤ) (l : List α) : popOldest capacity l <:+ l := by
  induction l with
  | nil => exact List.suffix_rfl
  | cons p l ih =>
    rw [popOldest]
    split_ifs
    · exact ih.trans (List.suffix_cons p l)
    · exact List.suffix_rfl

def evict (capacity : ℤ) (d : Dict String CacheRecord) : Dict String CacheRecord :=
  ⟨popOldest capacity d.entries, ((popOldest_suffix capacity d.entries).sublist.map Prod.fst).nodup d.nodup⟩

def addToMemoryCache (now : ℚ) (modelName : String) (entry : PlanCacheEntry) : Method PlanCacheStore Unit := do
  modify (·.forget modelName)
  modify fun s ↦ { s with memoryCache := evict s.maxMemoryCache s.memoryCache }
  -- With a capacity of zero or less the loop goes on until there is nothing left to pop.
  if (← get).maxMemoryCache ≤ 0 then throw (.keyError "dictionary is empty")
  modify fun s ↦ { s with memoryCache := s.memoryCache.insert modelName ⟨entry, now⟩ }

/-- The first section of `load`. -/
def loadFromMemory (now : ℚ) (modelName : String) : Method PlanCacheStore (Option PlanCacheEntry) := do
  match (← get).memoryCache.get? modelName with
  | none => return none
  | some cached =>
    if 0 < (← get).ttlSeconds ∧ (← get).ttlSeconds < now - cached.timestamp then
      modify (·.forget modelName)
      return none
    else
      modify fun s ↦ { s with memoryCache := (s.memoryCache.erase modelName).insert modelName cached }
      return some cached.entry

/-- `_load_from_disk`, where the file can be opened or not. -/
def loadFromDisk (B : Builtins) (s : PlanCacheStore) (readable : Bool) (modelName : String) :
    Except PyError (Option PlanCacheEntry) :=
  match s.files (pathFor s.rootDir modelName), readable with
  | some (.document (.obj payload)), true =>
    match PlanCacheEntry.fromDict B payload with
    | .ok e => .ok (some e)
    | .error (.keyError _) => .ok none
    | .error e => .error e
  | _, _ => .ok none

/-- The rest of `load`, where the name was not in memory. -/
def loadMissed (B : Builtins) (now : ℚ) (readable : Bool) (modelName : String) :
    Method PlanCacheStore (Option PlanCacheEntry) := do
  let entry ← loadFromDisk B (← get) readable modelName
  match entry with
  | none => return none
  | some e =>
    addToMemoryCache now modelName e
    return some e

def load (B : Builtins) (now later : ℚ) (readable : Bool) (modelName : String) :
    Method PlanCacheStore (Option PlanCacheEntry) := do
  match ← loadFromMemory now modelName with
  | some e => return some e
  | none => loadMissed B later readable modelName

/-- The second section of `save`. -/
def submit (entry : PlanCacheEntry) (s : PlanCacheStore) : PlanCacheStore := { s with executor := s.executor ++ [entry] }

def save (now : ℚ) (entry : PlanCacheEntry) : Method PlanCacheStore Unit := do
  addToMemoryCache now entry.modelName entry
  modify (submit entry)

/-- The second section of `invalidate`: the file is there and can be removed, or not. -/
def removeFile (removable : Bool) (modelName : String) : Method PlanCacheStore Bool := do
  let s ← get
  match s.files (pathFor s.rootDir modelName) with
  | none => return false
  | some _ =>
    if removable then set { s with files := Function.update s.files (pathFor s.rootDir modelName) none }
    return removable

def forgetName (modelName : String) : Method PlanCacheStore Bool := do
  let found := ((← get).memoryCache.get? modelName).isSome
  modify (·.forget modelName)
  return found

def invalidate (removable : Bool) (modelName : String) : Method PlanCacheStore Bool := do
  let found ← forgetName modelName
  let removed ← removeFile removable modelName
  return found || removed

def clearMemoryCache : Method PlanCacheStore ℕ := do
  let count := (← get).memoryCache.size
  modify fun s ↦ { s with memoryCache := Dict.empty }
  return count

/-- How a write ends: with the whole document in the file, with a part of it, or before the file was opened. -/
inductive WriteOutcome
  | written
  | truncated
  | notOpened

/-- `_save_to_disk` for the write at the head of the queue. -/
def writeNext (outcome : WriteOutcome) (s : PlanCacheStore) : PlanCacheStore :=
  match s.executor, outcome with
  | [], _ => s
  | _ :: rest, .notOpened => { s with executor := rest }
  | entry :: rest, .truncated =>
    { s with executor := rest, files := Function.update s.files (pathFor s.rootDir entry.modelName) (some .broken) }
  | entry :: rest, .written =>
    { s with
      executor := rest
      files := Function.update s.files (pathFor s.rootDir entry.modelName)
        (some (.document (Json.obj entry.toDict).sorted)) }

end Sections

/-! ### What a section does -/

section Specs

variable (B : Builtins) {s : PlanCacheStore} {name : String}

/-- The memory once there is room for one more entry under the name. -/
def PlanCacheStore.kept (s : PlanCacheStore) (name : String) : Dict String CacheRecord :=
  evict s.maxMemoryCache (s.memoryCache.erase name)

theorem get?_evict {capacity : ℤ} {d : Dict String CacheRecord} {k : String} {r : CacheRecord}
    (h : (evict capacity d).get? k = some r) : d.get? k = some r := by
  rw [Dict.get?_eq_some_iff] at h ⊢
  exact (popOldest_suffix capacity d.entries).subset h

theorem get?_kept {k : String} {r : CacheRecord} (h : (s.kept name).get? k = some r) :
    k ≠ name ∧ s.memoryCache.get? k = some r := by
  have h' := get?_evict h
  rw [Dict.get?_erase] at h'
  split_ifs at h' with hk
  exact ⟨Ne.symm hk, h'⟩

theorem addToMemoryCache_run (now : ℚ) (e : PlanCacheEntry) : (addToMemoryCache now name e).run s =
    if s.maxMemoryCache ≤ 0 then .error (.keyError "dictionary is empty") { s with memoryCache := s.kept name }
    else .ok () { s with memoryCache := (s.kept name).insert name ⟨e, now⟩ } := by
  by_cases h : s.maxMemoryCache ≤ 0
  · rw [if_pos h, addToMemoryCache, Method.modify_bind_run, Method.modify_bind_run, Method.get_bind_run]
    have h' : (s.forget name).maxMemoryCache ≤ 0 := h
    simp only [if_pos h']
    rfl
  · rw [if_neg h, addToMemoryCache, Method.modify_bind_run, Method.modify_bind_run, Method.get_bind_run]
    have h' : ¬(s.forget name).maxMemoryCache ≤ 0 := h
    simp only [if_neg h']
    rfl

theorem addToMemoryCache_of_pos (now : ℚ) (e : PlanCacheEntry) (h : 0 < s.maxMemoryCache) :
    (addToMemoryCache now name e).run s =
      .ok () { s with memoryCache := (s.kept name).insert name ⟨e, now⟩ } := by
  rw [addToMemoryCache_run, if_neg (not_le.mpr h)]

theorem loadFromMemory_of_none (now : ℚ) (h : s.memoryCache.get? name = none) :
    (loadFromMemory now name).run s = .ok none s := by
  rw [loadFromMemory, Method.get_bind_run, h]
  rfl

/-- Looking up a name may drop its entry or move it, and changes nothing else. -/
theorem loadFromMemory_run (now : ℚ) : ∃ r memory,
    (loadFromMemory now name).run s = .ok r { s with memoryCache := memory } ∧
    (∀ k v, memory.get? k = some v → s.memoryCache.get? k = some v) ∧
    ∀ e, r = some e → ∃ v, s.memoryCache.get? name = some v ∧ v.entry = e := by
  cases h : s.memoryCache.get? name with
  | none =>
    exact ⟨none, s.memoryCache, loadFromMemory_of_none now h, fun k v hv ↦ hv, fun e he ↦ by cases he⟩
  | some cached =>
    by_cases ht : 0 < s.ttlSeconds ∧ s.ttlSeconds < now - cached.timestamp
    · refine ⟨none, s.memoryCache.erase name, ?_, fun k v hv ↦ ?_, fun e he ↦ by cases he⟩
      · rw [loadFromMemory, Method.get_bind_run, h]
        simp only [Method.get_bind_run, if_pos ht]
        rfl
      · rw [Dict.get?_erase] at hv
        split_ifs at hv
        exact hv
    · refine ⟨some cached.entry, (s.memoryCache.erase name).insert name cached, ?_, fun k v hv ↦ ?_, fun e he ↦ ?_⟩
      · rw [loadFromMemory, Method.get_bind_run, h]
        simp only [Method.get_bind_run, if_neg ht]
        rfl
      · rw [Dict.get?_insert, Dict.get?_erase] at hv
        split_ifs at hv with hk
        · subst hk
          rw [h, hv]
        · exact hv
      · cases he
        exact ⟨cached, rfl, rfl⟩

theorem writeNext_notOpened {e : PlanCacheEntry} {rest : List PlanCacheEntry} (h : s.executor = e :: rest) :
    writeNext .notOpened s = { s with executor := rest } := by
  simp [writeNext, h]

theorem writeNext_truncated {e : PlanCacheEntry} {rest : List PlanCacheEntry} (h : s.executor = e :: rest) :
    writeNext .truncated s =
      { s with executor := rest, files := Function.update s.files (pathFor s.rootDir e.modelName) (some .broken) } := by
  simp [writeNext, h]

theorem writeNext_written {e : PlanCacheEntry} {rest : List PlanCacheEntry} (h : s.executor = e :: rest) :
    writeNext .written s =
      { s with
        executor := rest
        files := Function.update s.files (pathFor s.rootDir e.modelName) (some (.document (Json.obj e.toDict).sorted)) } := by
  simp [writeNext, h]

theorem removeFile_run (removable : Bool) : (removeFile removable name).run s =
    if (s.files (pathFor s.rootDir name)).isSome ∧ removable = true then
      .ok true { s with files := Function.update s.files (pathFor s.rootDir name) none }
    else .ok false s := by
  rw [removeFile, Method.get_bind_run]
  cases s.files (pathFor s.rootDir name) with
  | none => rfl
  | some f => cases removable <;> rfl

theorem loadFromDisk_absent {readable : Bool} (h : s.files (pathFor s.rootDir name) = none) :
    loadFromDisk B s readable name = .ok none := by
  simp only [loadFromDisk, h]

/-- A file that the store wrote gives back the entry. -/
theorem loadFromDisk_document {e : PlanCacheEntry}
    (h : s.files (pathFor s.rootDir name) = some (.document (Json.obj e.toDict).sorted)) :
    loadFromDisk B s true name = .ok (some e.reloaded) := by
  have hread := PlanCacheEntry.fromDict_toDict B e
  rw [Json.sorted_obj, ← PlanCacheEntry.ordered] at h
  simp only [loadFromDisk, h, hread]

theorem loadMissed_absent {readable : Bool} (now : ℚ) (hf : s.files (pathFor s.rootDir name) = none) :
    (loadMissed B now readable name).run s = .ok none s := by
  rw [loadMissed, Method.get_bind_run, loadFromDisk_absent B hf, Method.ok_bind_run]
  rfl

theorem loadMissed_document {e : PlanCacheEntry} (now : ℚ) (hc : 0 < s.maxMemoryCache)
    (hf : s.files (pathFor s.rootDir name) = some (.document (Json.obj e.toDict).sorted)) :
    (loadMissed B now true name).run s = .ok (some e.reloaded)
      { s with memoryCache := (s.kept name).insert name ⟨e.reloaded, now⟩ } := by
  rw [loadMissed, Method.get_bind_run, loadFromDisk_document B hf, Method.ok_bind_run]
  exact Method.run_bind_of_ok (addToMemoryCache_of_pos now e.reloaded hc)

end Specs

/-- An entry of which only the name counts. -/
def named (modelName : String) : PlanCacheEntry := ⟨modelName, "graph", "50%", "", 0#64, "", [], [], []⟩

/-- The conversions of values that need none. -/
def Builtins.strict : Builtins where
  str
    | .str s => s
    | _ => ""
  float
    | .float bits => .ok bits
    | _ => .error (.typeError "float() argument must be a string or a real number")
  dict
    | .obj fields => .ok fields
    | _ => .error (.typeError "cannot convert to a dictionary")
  str_str _ := rfl
  float_float _ := rfl
  dict_obj _ := rfl

end SplitFleet.PlanCache
