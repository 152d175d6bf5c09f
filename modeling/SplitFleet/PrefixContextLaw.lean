import SplitFleet.PrefixContexts
import SplitFleet.RuntimeCacheLaw

set_option autoImplicit false

namespace SplitFleet.SplitClient

open Lib

variable {env : Env} {uuid : ℕ → String} {s t : Execution} {c : Client}

/-! ### What a call leaves of the contexts -/

/-- The contexts and the configuration of the round are those of `c`. -/
structure SameRound (c d : Client) : Prop where
  contexts : d.contexts = c.contexts
  roundConfig : d.roundConfig = c.roundConfig

theorem SameRound.refl (c : Client) : SameRound c c := ⟨rfl, rfl⟩

theorem sameRound_prepareAnew {w : Answers} :
    Method.Triple (SameRound c) (prepareAnew w) (fun _ ↦ SameRound c) (SameRound c) := by
  refine .modify_bind (I := SameRound c) (fun d hd ↦ ⟨hd.contexts, hd.roundConfig⟩) ?_
  refine .modify_bind (I := SameRound c) (fun d hd ↦ ?_) (.lift (fun d _ hd _ ↦ hd) fun d hd ↦ hd)
  split
  · exact ⟨hd.contexts, hd.roundConfig⟩
  · exact hd

theorem sameRound_obtain {w : Answers} {r : Request} {boundary : String} :
    Method.Triple (SameRound c) (obtain w r boundary) (fun _ ↦ SameRound c) (SameRound c) := by
  refine .get_bind fun d _ ↦ ?_
  have hanew : Method.Triple (fun s ↦ SameRound c s ∧ s = d) (prepareAnew w) (fun _ ↦ SameRound c) (SameRound c) :=
    sameRound_prepareAnew.mono (fun _ h ↦ h.1) (fun _ _ h ↦ h) fun _ h ↦ h
  cases d.reusable with
  | none => exact hanew
  | some previous =>
    refine .lift_bind (fun again _ ↦ ?_) fun s hs ↦ hs.1
    refine .ite (fun _ ↦ .ite (fun _ ↦ ?_) fun _ ↦ ?_) fun _ ↦ hanew
    · refine .modify_bind (I := SameRound c) (fun s hs ↦ ⟨hs.1.contexts, hs.1.roundConfig⟩) ?_
      refine .modify_bind (I := SameRound c) (fun s hs ↦ ?_) (.pure fun s hs ↦ hs)
      split
      · exact ⟨hs.contexts, hs.roundConfig⟩
      · exact hs
    · refine .lift_bind (fun handle _ ↦ ?_) fun s hs ↦ hs.1
      exact .modify_bind (I := SameRound c) (fun s hs ↦ ⟨hs.1.contexts, hs.1.roundConfig⟩) (.pure fun s hs ↦ hs)

theorem sameRound_ensureRoundRuntime {w : Answers} {config : Config} {schema : String} {training : Bool} :
    Method.Triple (SameRound c) (ensureRoundRuntime env w config schema training) (fun _ ↦ SameRound c)
      (SameRound c) := by
  refine .lift_bind (fun r _ ↦ .get_bind fun d _ ↦ ?_) fun s hs ↦ hs
  cases d.runtimeCache.get? (cacheKey env schema training r) with
  | some cached =>
    refine .lift_bind (fun _ _ ↦ .lift_bind (fun _ _ ↦ .pure fun s hs ↦ hs.1) ?_) ?_
    · exact fun s hs ↦ hs.1
    · exact fun s hs ↦ hs.1
  | none =>
    refine .bind (R := fun _ ↦ SameRound c) (sameRound_obtain.mono (fun s hs ↦ hs.1) (fun _ _ h ↦ h) fun _ h ↦ h)
      fun handle ↦ .lift_bind (fun runtime _ ↦ ?_) fun s hs ↦ hs
    exact .modify_bind (I := SameRound c) (fun s hs ↦ ⟨hs.contexts, hs.roundConfig⟩) (.pure fun s hs ↦ hs)

theorem sameRound_openRound {w : Answers} {config : Config} (hc : ∀ key, c.contexts.get? key = none) :
    Method.Triple (· = c) (openRound env w config)
      (fun _ d ↦ (∀ key, d.contexts.get? key = none) ∧ d.roundConfig = config ∧ ∃ r, modelVersion env config 0 = .ok r)
      fun d ↦ (∀ key, d.contexts.get? key = none) ∧
        (d.roundConfig = c.roundConfig ∨ d.roundConfig = config ∧ ∃ r, modelVersion env config 0 = .ok r) := by
  have hsame : ∀ s, s = c → (∀ key, s.contexts.get? key = none) ∧
      (s.roundConfig = c.roundConfig ∨ s.roundConfig = config ∧ ∃ r, modelVersion env config 0 = .ok r) := by
    rintro s rfl
    exact ⟨hc, .inl rfl⟩
  refine .lift_bind (fun _ _ ↦ .lift_bind (fun _ _ ↦ .get_bind fun s₀ _ ↦ ?_) hsame) hsame
  refine .lift_bind (fun previous _ ↦ .lift_bind (fun current hcurrent ↦ ?_) ?_) ?_
  · refine .modify_bind (I := fun d ↦ ∀ key, d.contexts.get? key = none) ?_ ?_
    · rintro s ⟨rfl, -⟩ key
      split
      · rw [Client.discardRound, Dict.get?_filterKeys, hc, ite_self]
      · exact hc key
    refine .modify_bind (I := fun d ↦ (∀ key, d.contexts.get? key = none) ∧ d.roundConfig = config)
      (fun s hs ↦ ⟨hs, rfl⟩) ?_
    have hopened : ∀ s : Client, (∀ key, s.contexts.get? key = none) ∧ s.roundConfig = config →
        (∀ key, s.contexts.get? key = none) ∧ (s.roundConfig = c.roundConfig ∨
          s.roundConfig = config ∧ ∃ r, modelVersion env config 0 = .ok r) :=
      fun s hs ↦ ⟨hs.1, .inr ⟨hs.2, current, hcurrent⟩⟩
    refine .lift_bind (fun schema _ ↦ .lift_bind (fun _ _ ↦ ?_) hopened) hopened
    exact .pure fun s hs ↦ ⟨hs.1, hs.2, current, hcurrent⟩
  · exact fun s hs ↦ hsame s hs.1
  · exact fun s hs ↦ hsame s hs.1

/-! ### The ledger -/

def StoreEvent.key : StoreEvent → PrefixContextKey
  | .put key _ => key
  | .pop key _ _ => key

def putKeys (log : List StoreEvent) : List PrefixContextKey :=
  log.filterMap fun event ↦ match event with
    | .put key _ => some key
    | .pop _ _ _ => none

def popKeys (log : List StoreEvent) : List PrefixContextKey :=
  log.filterMap fun event ↦ match event with
    | .put _ _ => none
    | .pop key _ _ => some key

theorem mem_putKeys {log : List StoreEvent} {key : PrefixContextKey} :
    key ∈ putKeys log ↔ ∃ context, .put key context ∈ log := by
  rw [putKeys, List.mem_filterMap]
  constructor
  · rintro ⟨event, hevent, h⟩
    cases event with
    | put key' context =>
      cases h
      exact ⟨context, hevent⟩
    | pop key' context gradient => cases h
  · rintro ⟨context, h⟩
    exact ⟨_, h, rfl⟩

theorem mem_popKeys {log : List StoreEvent} {key : PrefixContextKey} :
    key ∈ popKeys log ↔ ∃ context gradient, .pop key context gradient ∈ log := by
  rw [popKeys, List.mem_filterMap]
  constructor
  · rintro ⟨event, hevent, h⟩
    cases event with
    | put key' context => cases h
    | pop key' context gradient =>
      cases h
      exact ⟨context, gradient, hevent⟩
  · rintro ⟨context, gradient, h⟩
    exact ⟨_, h, rfl⟩

variable {log : List StoreEvent} {key : PrefixContextKey} {context : ℕ}

theorem putKeys_put : putKeys (log ++ [.put key context]) = putKeys log ++ [key] := by
  rw [putKeys, List.filterMap_append]
  rfl

theorem putKeys_pop {gradient : Gradient} : putKeys (log ++ [.pop key context gradient]) = putKeys log := by
  rw [putKeys, List.filterMap_append]
  exact List.append_nil _

theorem popKeys_put : popKeys (log ++ [.put key context]) = popKeys log := by
  rw [popKeys, List.filterMap_append]
  exact List.append_nil _

theorem popKeys_pop {gradient : Gradient} : popKeys (log ++ [.pop key context gradient]) = popKeys log ++ [key] := by
  rw [popKeys, List.filterMap_append]
  rfl

theorem log_store {contexts : Dict PrefixContextKey ℕ} {event : StoreEvent} :
    (s.store contexts event).log = s.log ++ [event] := rfl

theorem contexts_store {contexts : Dict PrefixContextKey ℕ} {event : StoreEvent} :
    (s.store contexts event).contexts = contexts := rfl

/-- What was put and taken out: under step ids that were drawn, no key twice, each key with the context that was put
under it and for a gradient with that identity. What is pending was put, and was not taken out. -/
structure Ledger (uuid : ℕ → String) (s : Execution) : Prop where
  steps : ∀ event ∈ s.log, ∃ n < s.drawn, event.key.stepId = uuid n
  puts : (putKeys s.log).Nodup
  pops : (popKeys s.log).Nodup
  popped : ∀ key context gradient, .pop key context gradient ∈ s.log → .put key context ∈ s.log ∧ gradient.key = key
  pending : ∀ key context, s.contexts.get? key = some context → .put key context ∈ s.log ∧ key ∉ popKeys s.log

/-- The contexts of a task are of the round that its configuration names. -/
structure Busy (env : Env) (uuid : ℕ → String) (round : ℤ) (s : Execution) : Prop where
  ledger : Ledger uuid s
  opened : modelVersion env s.client.roundConfig 0 = .ok round
  rounds : ∀ key context, s.contexts.get? key = some context → key.roundId = round

structure Idle (env : Env) (uuid : ℕ → String) (round : ℤ) (s : Execution) : Prop where
  ledger : Ledger uuid s
  opened : modelVersion env s.client.roundConfig 0 = .ok round
  empty : ∀ key, s.contexts.get? key = none

/-- One context is pending. -/
structure Holding (env : Env) (uuid : ℕ → String) (round : ℤ) (key : PrefixContextKey) (context : ℕ) (s : Execution) :
    Prop where
  ledger : Ledger uuid s
  opened : modelVersion env s.client.roundConfig 0 = .ok round
  only : ∀ k, s.contexts.get? k = if key = k then some context else none

variable {round : ℤ}

theorem Idle.busy (h : Idle env uuid round s) : Busy env uuid round s := by
  refine ⟨h.ledger, h.opened, fun key context hkey ↦ ?_⟩
  rw [h.empty] at hkey
  cases hkey

theorem Holding.busy (h : Holding env uuid round key context s) (hround : key.roundId = round) :
    Busy env uuid round s := by
  refine ⟨h.ledger, h.opened, fun k context' hk ↦ ?_⟩
  rw [h.only] at hk
  split at hk
  · next heq => exact heq ▸ hround
  · cases hk

/-- The step of the key was drawn, and no event is of the key. -/
def Fresh (uuid : ℕ → String) (key : PrefixContextKey) (s : Execution) : Prop :=
  (∃ n < s.drawn, key.stepId = uuid n) ∧ ∀ event ∈ s.log, event.key ≠ key

theorem triple_newStep (huuid : Function.Injective uuid) (clientId : String) :
    Method.Triple (Idle env uuid round) (newStep uuid)
      (fun step s ↦ Idle env uuid round s ∧ Fresh uuid ⟨round, clientId, step⟩ s) (Busy env uuid round) := by
  refine .get_bind fun s hs ↦ .modify_bind
    (I := fun t ↦ Idle env uuid round t ∧ Fresh uuid ⟨round, clientId, uuid s.drawn⟩ t) ?_ (.pure fun t ht ↦ ht)
  rintro t ⟨-, rfl⟩
  have hsteps : ∀ event ∈ t.log, ∃ n < t.drawn + 1, event.key.stepId = uuid n := by
    intro event hevent
    obtain ⟨n, hn, hstep⟩ := hs.ledger.steps event hevent
    exact ⟨n, Nat.lt_succ_of_lt hn, hstep⟩
  refine ⟨⟨⟨hsteps, hs.ledger.puts, hs.ledger.pops, hs.ledger.popped, hs.ledger.pending⟩, hs.opened, hs.empty⟩,
    ⟨t.drawn, Nat.lt_succ_self _, rfl⟩, ?_⟩
  intro event hevent heq
  obtain ⟨n, hn, hstep⟩ := hs.ledger.steps event hevent
  rw [heq] at hstep
  exact absurd (huuid hstep) (Nat.ne_of_gt hn)

theorem triple_put :
    Method.Triple (fun s ↦ Idle env uuid round s ∧ Fresh uuid key s) (put key context)
      (fun _ s ↦ Holding env uuid round key context s) (Busy env uuid round) := by
  refine .get_bind fun s hs ↦ .require_bind (fun _ ↦ .of_modify ?_) fun t ht ↦ ht.1.1.busy
  rintro t ⟨⟨hidle, hdrawn, hfresh⟩, rfl⟩
  have honly : ∀ k, (t.contexts.insert key context).get? k = if key = k then some context else none := by
    intro k
    rw [Dict.get?_insert, hidle.empty]
  refine ⟨⟨?_, ?_, ?_, ?_, ?_⟩, hidle.opened, honly⟩
  · intro event hevent
    obtain h | h := List.mem_append.mp hevent
    · exact hidle.ledger.steps event h
    · rw [List.mem_singleton.mp h]
      exact hdrawn
  · have hnew : key ∉ putKeys t.log := by
      rw [mem_putKeys]
      rintro ⟨context', h⟩
      exact hfresh _ h rfl
    rw [log_store, putKeys_put]
    exact List.nodup_append.mpr ⟨hidle.ledger.puts, List.nodup_singleton key,
      fun a ha b hb heq ↦ hnew (List.mem_singleton.mp hb ▸ heq ▸ ha)⟩
  · rw [log_store, popKeys_put]
    exact hidle.ledger.pops
  · intro k c g h
    rw [log_store] at h ⊢
    obtain h | h := List.mem_append.mp h
    · obtain ⟨hput, hg⟩ := hidle.ledger.popped k c g h
      exact ⟨List.mem_append_left _ hput, hg⟩
    · cases List.mem_singleton.mp h
  · intro k c hk
    rw [contexts_store, honly] at hk
    rw [log_store, popKeys_put]
    split at hk
    · next heq =>
      subst heq
      cases hk
      refine ⟨List.mem_append_right _ (List.mem_singleton_self _), fun h ↦ ?_⟩
      obtain ⟨c, g, h⟩ := mem_popKeys.mp h
      exact hfresh _ h rfl
    · cases hk

theorem triple_pop {gradient : Gradient} (hkey : gradient.key = key) :
    Method.Triple (Holding env uuid round key context) (pop key gradient) (fun _ s ↦ Idle env uuid round s)
      (Busy env uuid round) := by
  refine .get_bind fun s hs ↦ ?_
  have hcontext : s.contexts.get? key = some context := by rw [hs.only, if_pos rfl]
  rw [hcontext]
  refine .modify_bind (I := Idle env uuid round) ?_ (.pure fun t ht ↦ ht)
  rintro t ⟨-, rfl⟩
  obtain ⟨hput, hpopped⟩ := hs.ledger.pending key context hcontext
  have hempty : ∀ k, (t.contexts.erase key).get? k = none := by
    intro k
    rw [Dict.get?_erase, hs.only]
    by_cases hne : key = k
    · rw [if_pos hne]
    · rw [if_neg hne, if_neg hne]
  refine ⟨⟨?_, ?_, ?_, ?_, ?_⟩, hs.opened, hempty⟩
  · intro event hevent
    obtain h | h := List.mem_append.mp hevent
    · exact hs.ledger.steps event h
    · rw [List.mem_singleton.mp h]
      exact hs.ledger.steps (.put key context) hput
  · rw [log_store, putKeys_pop]
    exact hs.ledger.puts
  · rw [log_store, popKeys_pop]
    exact List.nodup_append.mpr ⟨hs.ledger.pops, List.nodup_singleton key,
      fun a ha b hb heq ↦ hpopped (List.mem_singleton.mp hb ▸ heq ▸ ha)⟩
  · intro k c g h
    rw [log_store] at h ⊢
    obtain h | h := List.mem_append.mp h
    · obtain ⟨hput, hg⟩ := hs.ledger.popped k c g h
      exact ⟨List.mem_append_left _ hput, hg⟩
    · cases List.mem_singleton.mp h
      exact ⟨List.mem_append_left _ hput, hkey⟩
  · intro k c hk
    rw [contexts_store, hempty] at hk
    cases hk

/-! ### Calls, bindings and histories -/

theorem triple_trainBatch (huuid : Function.Injective uuid) {clientId : String} {w : BatchAnswers} :
    Method.Triple (Idle env uuid round) (trainBatch uuid round clientId w) (fun _ ↦ Idle env uuid round)
      (Busy env uuid round) := by
  refine .lift_bind (fun boundary _ ↦ ?_) fun s hs ↦ hs.busy
  refine .bind (triple_newStep huuid clientId) fun step ↦ .bind triple_put fun _ ↦ ?_
  have hbusy : ∀ s, Holding env uuid round ⟨round, clientId, step⟩ boundary s → Busy env uuid round s :=
    fun s hs ↦ hs.busy rfl
  refine .lift_bind (fun gradient _ ↦ .require_bind (fun hkey ↦ .require_bind (fun _ ↦ ?_) hbusy) hbusy) hbusy
  exact .bind (triple_pop hkey) fun context ↦ .lift (fun s _ hs _ ↦ hs) fun s hs ↦ hs.busy

theorem triple_fitBatch (huuid : Function.Injective uuid) {clientId : String} {w : BatchAnswers} :
    Method.Triple (Idle env uuid round) (fitBatch uuid round clientId w) (fun _ ↦ Idle env uuid round)
      (Busy env uuid round) := by
  refine .lift_bind (fun accepted _ ↦ .ite (fun _ ↦ triple_trainBatch huuid) fun _ ↦ ?_) fun s hs ↦ hs.busy
  exact .pure fun s hs ↦ hs

/-- A step id is drawn, and nothing is put in the store. -/
theorem triple_evaluateBatch (huuid : Function.Injective uuid) {w : EvaluationAnswers} :
    Method.Triple (Idle env uuid round) (evaluateBatch uuid w) (fun _ ↦ Idle env uuid round) (Busy env uuid round) := by
  refine .lift_bind (fun accepted _ ↦ .ite (fun _ ↦ ?_) fun _ ↦ .pure fun s hs ↦ hs) fun s hs ↦ hs.busy
  refine .lift_bind (fun _ _ ↦ .bind (triple_newStep huuid "") fun step ↦ ?_) fun s hs ↦ hs.busy
  exact .lift (fun s _ hs _ ↦ hs.1) fun s hs ↦ hs.1.busy

/-- The executor between two calls that returned. -/
def AtRest (env : Env) (uuid : ℕ → String) (s : Execution) : Prop := ∃ round, Idle env uuid round s

/-- The executor after a call that raised. -/
def Raised (env : Env) (uuid : ℕ → String) (s : Execution) : Prop := ∃ round, Busy env uuid round s

theorem AtRest.raised (h : AtRest env uuid s) : Raised env uuid s := h.imp fun _ ↦ Idle.busy

theorem Idle.withClient (hs : Idle env uuid round s) {d : Client} {r : ℤ} (hd : ∀ key, d.contexts.get? key = none)
    (hr : modelVersion env d.roundConfig 0 = .ok r) : Idle env uuid r { s with client := d } := by
  refine ⟨⟨hs.ledger.steps, hs.ledger.puts, hs.ledger.pops, hs.ledger.popped, fun k c hk ↦ ?_⟩, hr, hd⟩
  have hk : d.contexts.get? k = some c := hk
  rw [hd] at hk
  cases hk

theorem triple_prepareRound {w : Answers} {config : Config} {training : Bool} :
    Method.Triple (AtRest env uuid) (onClient (prepareRound env w config training))
      (fun _ s ↦ ∃ r, Idle env uuid r s ∧ modelVersion env config 0 = .ok r) (AtRest env uuid) := by
  refine .within fun s hs ↦ ?_
  obtain ⟨round, hs⟩ := hs
  refine .bind ((sameRound_openRound hs.empty).mono (fun _ h ↦ h) (fun _ _ h ↦ h) ?_) fun schema ↦ ?_
  · rintro d ⟨hempty, hsame | ⟨hconfig, r, hr⟩⟩
    · exact ⟨round, hs.withClient hempty (hsame ▸ hs.opened)⟩
    · exact ⟨r, hs.withClient hempty (hconfig ▸ hr)⟩
  · rintro d ⟨hempty, hconfig, r, hr⟩
    have hensure : Method.Triple (SameRound d) (ensureRoundRuntime env w config schema training) (fun _ ↦ SameRound d)
        (SameRound d) := sameRound_ensureRoundRuntime
    obtain ⟨hok, herror⟩ := hensure d (.refl d)
    have hidle : ∀ d', SameRound d d' → Idle env uuid r { s with client := d' } := by
      intro d' hd'
      refine hs.withClient (fun key ↦ ?_) ?_
      · rw [hd'.contexts]
        exact hempty key
      · rw [hd'.roundConfig, hconfig]
        exact hr
    exact ⟨fun a t ht ↦ ⟨r, hidle t (hok a t ht), hr⟩, fun e t ht ↦ ⟨r, hidle t (herror e t ht)⟩⟩

theorem triple_clientIdOf {config : Config} :
    Method.Triple (Idle env uuid round) (clientIdOf env config) (fun _ ↦ Idle env uuid round)
      (Busy env uuid round) := by
  refine .get_bind fun s _ ↦ ?_
  cases s.serverModelProxy with
  | none => exact .throw fun t ht ↦ ht.1.busy
  | some cid => exact .pure fun t ht ↦ ht.1

/-- What both kinds of calls do after the runtime is prepared, with their batches in the end. -/
theorem triple_batches {config : Config} {f : ℤ → String → Method Execution Unit} {reported : Except PyError Unit}
    (hf : ∀ round clientId, Method.Triple (Idle env uuid round) (f round clientId) (fun _ ↦ Idle env uuid round)
      (Busy env uuid round)) :
    Method.Triple (fun s ↦ ∃ r, Idle env uuid r s ∧ modelVersion env config 0 = .ok r)
      (do
        let round ← modelVersion env config 0
        let clientId ← clientIdOf env config
        let _ ← planIdOf env.builtins config
        f round clientId
        liftM reported)
      (fun _ ↦ AtRest env uuid) (Raised env uuid) := by
  refine .lift_bind (fun round hround ↦ ?_) fun s hs ↦ hs.imp fun _ h ↦ h.1.busy
  have hrest : ∀ s, Idle env uuid round s → Raised env uuid s := fun s hs ↦ ⟨round, hs.busy⟩
  have hidle : ∀ s, (∃ r, Idle env uuid r s ∧ modelVersion env config 0 = .ok r) → Idle env uuid round s := by
    rintro s ⟨r, hs, hr⟩
    rw [hround] at hr
    cases hr
    exact hs
  refine .bind (triple_clientIdOf.mono hidle (fun _ _ h ↦ h) fun s hs ↦ ⟨round, hs⟩) fun clientId ↦ ?_
  refine .lift_bind (fun _ _ ↦ .bind ((hf round clientId).mono (fun _ h ↦ h) (fun _ _ h ↦ h) ?_) fun _ ↦ ?_) hrest
  · exact fun s hs ↦ ⟨round, hs⟩
  · exact .lift (fun s _ hs _ ↦ ⟨round, hs⟩) hrest

theorem triple_taskCall (huuid : Function.Injective uuid) (call : TaskCall) :
    Method.Triple (AtRest env uuid) (call.run env uuid) (fun _ ↦ AtRest env uuid) (Raised env uuid) := by
  have hprepare : ∀ {w : Answers} {config : Config} {training : Bool},
      Method.Triple (AtRest env uuid) (onClient (prepareRound env w config training))
        (fun _ s ↦ ∃ r, Idle env uuid r s ∧ modelVersion env config 0 = .ok r) (Raised env uuid) :=
    triple_prepareRound.mono (fun _ h ↦ h) (fun _ _ h ↦ h) fun _ h ↦ h.raised
  cases call with
  | fit w negotiated batches reported config =>
    refine .bind hprepare fun _ ↦ .lift_bind (fun _ _ ↦ ?_) fun s hs ↦ hs.imp fun _ h ↦ h.1.busy
    exact triple_batches (f := fun round clientId ↦ batches.forM (fitBatch uuid round clientId))
      fun round clientId ↦ .forM fun w _ ↦ triple_fitBatch huuid
  | evaluate w batches reported config =>
    refine .bind hprepare fun _ ↦ ?_
    exact triple_batches (f := fun _ _ ↦ batches.forM (evaluateBatch uuid))
      fun round clientId ↦ .forM fun w _ ↦ triple_evaluateBatch huuid

/-- The configuration of a round is only taken where its version is a number. -/
theorem triple_currentRoundId :
    Method.Triple (Raised env uuid) (currentRoundId env) (fun round ↦ Busy env uuid round) (AtRest env uuid) := by
  rintro s ⟨round, hs⟩
  have hrun : (currentRoundId env).run s = .ok round s := by
    unfold currentRoundId
    rw [Method.get_bind_run, hs.opened]
    rfl
  rw [hrun]
  refine ⟨fun r t ht ↦ ?_, fun e t ht ↦ ?_⟩
  · cases ht
    exact hs
  · cases ht

/-- However the calls ended, their contexts are discarded. -/
theorem triple_leaveBinding {previous : Option String} :
    Method.Triple (Raised env uuid) (leaveBinding env previous) (fun _ ↦ AtRest env uuid) (AtRest env uuid) := by
  refine .bind triple_currentRoundId fun round ↦ .modify_bind (I := AtRest env uuid) (fun s hs ↦ ?_) ?_
  · have hempty : ∀ key, (s.client.discardRound round).contexts.get? key = none := by
      intro key
      rw [Client.discardRound, Dict.get?_filterKeys]
      cases hkey : s.client.contexts.get? key with
      | none => exact ite_self _
      | some context =>
        rw [hs.rounds key context hkey]
        exact if_neg (by simp)
    refine ⟨round, ⟨hs.ledger.steps, hs.ledger.puts, hs.ledger.pops, hs.ledger.popped, fun key context hkey ↦ ?_⟩,
      hs.opened, hempty⟩
    have hkey : (s.client.discardRound round).contexts.get? key = some context := hkey
    rw [hempty] at hkey
    cases hkey
  · exact .of_modify fun s ⟨round, hs⟩ ↦ ⟨round, ⟨hs.ledger.steps, hs.ledger.puts, hs.ledger.pops, hs.ledger.popped,
      hs.ledger.pending⟩, hs.opened, hs.empty⟩

theorem triple_serverModelBinding (huuid : Function.Injective uuid) {cid : String} {calls : List TaskCall}
    {closed cancelled : Except PyError Unit} :
    Method.Triple (AtRest env uuid) (serverModelBinding env uuid cid calls closed cancelled) (fun _ ↦ AtRest env uuid)
      (AtRest env uuid) := by
  refine .get_bind fun s _ ↦ .modify_bind (I := AtRest env uuid) ?_ (.tryFinally (J := fun _ ↦ AtRest env uuid)
    (I := Raised env uuid) (.tryCatch (I := Raised env uuid) ?_ fun e ↦ ?_) (fun _ ↦ ?_) triple_leaveBinding)
  · rintro t ⟨⟨round, ht⟩, -⟩
    exact ⟨round, ⟨ht.ledger.steps, ht.ledger.puts, ht.ledger.pops, ht.ledger.popped, ht.ledger.pending⟩, ht.opened,
      ht.empty⟩
  · refine .bind (R := fun _ ↦ AtRest env uuid) (.forM fun call _ ↦ triple_taskCall huuid call) fun _ ↦ ?_
    exact .lift (fun t _ ht _ ↦ ht) fun t ht ↦ ht.raised
  · exact .lift_bind (fun _ _ ↦ .throw fun t ht ↦ ht) fun t ht ↦ ht
  · exact triple_leaveBinding.mono (fun t ht ↦ ht.raised) (fun _ _ h ↦ h) fun _ h ↦ h

theorem AtRest.size_eq_zero (h : AtRest env uuid s) : s.contexts.size = 0 := by
  obtain ⟨round, hs⟩ := h
  rw [Dict.size, (Dict.entries_eq_nil_iff _).mpr hs.empty]
  rfl

theorem modelVersion_empty : modelVersion env .empty 0 = .ok 0 := rfl

/-- An executor at rest with another configuration of the round in which no version was named. -/
theorem AtRest.rebind (h : AtRest env uuid s) (d : Client) (proxy : Option String) {r : ℤ}
    (hd : d.contexts = s.client.contexts) (hr : modelVersion env d.roundConfig 0 = .ok r) :
    AtRest env uuid { s with serverModelProxy := proxy, client := d } := by
  obtain ⟨round, hs⟩ := h
  have hempty : ∀ key, d.contexts.get? key = none := by
    rw [hd]
    exact hs.empty
  have := hs.withClient hempty hr
  exact ⟨r, ⟨this.ledger.steps, this.ledger.puts, this.ledger.pops, this.ledger.popped, this.ledger.pending⟩,
    this.opened, this.empty⟩

/-- With nothing pending, an executor is bound, retired and closed. -/
theorem AtRest.lifecycle (h : AtRest env uuid s) {operation : Method Execution Unit}
    (hoperation : operation ∈ [bindExecutionContext, retireExecution, closeExecution]) :
    ∃ t, operation.run s = .ok () t ∧ AtRest env uuid t := by
  have hretire : ∃ t, retireExecution.run s = .ok () t ∧ AtRest env uuid t := by
    refine ⟨_, ?_, h.rebind { s.client with roundConfig := .empty, receipt := none, hasCalibrationTargets := false }
      none rfl modelVersion_empty⟩
    unfold retireExecution
    rw [Method.get_bind_run, require_of h.size_eq_zero]
    rfl
  simp only [List.mem_cons, List.not_mem_nil, or_false] at hoperation
  obtain rfl | rfl | rfl := hoperation
  · refine ⟨_, ?_, h.rebind { s.client with roundConfig := .empty, receipt := none } none rfl modelVersion_empty⟩
    unfold bindExecutionContext
    rw [Method.get_bind_run, require_of h.size_eq_zero]
    rfl
  · exact hretire
  · obtain ⟨t, ht, hrest⟩ := hretire
    refine ⟨{ t with client := t.client.dropPrewarmed.clearRuntimes }, ?_, ?_⟩
    · unfold closeExecution
      rw [Method.run_bind_of_ok ht]
      rfl
    · obtain ⟨round, hround⟩ := hrest
      exact AtRest.rebind ⟨round, hround⟩ t.client.dropPrewarmed.clearRuntimes t.serverModelProxy rfl hround.opened

theorem atRest_event (huuid : Function.Injective uuid) (h : AtRest env uuid s) (event : Event) :
    AtRest env uuid ((event.run env uuid).after s) := by
  have hlifecycle : ∀ operation ∈ [bindExecutionContext, retireExecution, closeExecution],
      AtRest env uuid (operation.after s) := by
    intro operation hoperation
    obtain ⟨t, ht, hrest⟩ := h.lifecycle hoperation
    rw [Method.after_of_ok ht]
    exact hrest
  cases event with
  | binding cid calls closed cancelled => exact (triple_serverModelBinding huuid).after h
  | bindExecutionContext => exact hlifecycle SplitClient.bindExecutionContext (by simp)
  | retireExecution => exact hlifecycle SplitClient.retireExecution (by simp)
  | closeExecution => exact hlifecycle SplitClient.closeExecution (by simp)
  | setPreviousPlanHint planId =>
    obtain ⟨round, hround⟩ := h
    refine AtRest.rebind ⟨round, hround⟩
      { s.client with roundConfig := s.client.roundConfig.insert "autosplit_plan_id" (.str planId) }
      s.serverModelProxy rfl (r := round) ?_
    have hversion : (s.client.roundConfig.insert "autosplit_plan_id" (.str planId)).get? "autosplit_model_version" =
        s.client.roundConfig.get? "autosplit_model_version" := by
      rw [Dict.get?_insert, if_neg (by decide)]
    unfold modelVersion
    rw [hversion]
    exact hround.opened

theorem atRest_history (huuid : Function.Injective uuid) (events : List Event) (h : AtRest env uuid s) :
    AtRest env uuid (history env uuid events s) := by
  induction events generalizing s with
  | nil => exact h
  | cons event events ih => exact ih (atRest_event huuid h event)

theorem atRest_newExecutor (maxCachedRuntimes : Option ℕ) (hasCalibrationTargets : Bool) :
    AtRest env uuid (newExecutor maxCachedRuntimes hasCalibrationTargets) := by
  refine ⟨0, ⟨?_, .nil, .nil, ?_, ?_⟩, rfl, fun key ↦ rfl⟩
  · rintro event ⟨⟩
  · rintro key context gradient ⟨⟩
  · rintro key context ⟨⟩

/-- After every binding nothing is pending, however its calls ended, and an executor can be bound, retired and closed.
Each context that was put was taken out once at most, for a gradient with its own identity. -/
theorem contexts_end_with_their_task (env : Env) (uuid : ℕ → String) (huuid : Function.Injective uuid)
    (maxCachedRuntimes : Option ℕ) (hasCalibrationTargets : Bool) (events : List Event) :
    let s := history env uuid events (newExecutor maxCachedRuntimes hasCalibrationTargets)
    pendingContextCount s = 0 ∧
      (∀ operation ∈ [bindExecutionContext, retireExecution, closeExecution], ∃ t, operation.run s = .ok () t) ∧
      (putKeys s.log).Nodup ∧ (popKeys s.log).Nodup ∧
      ∀ key context gradient, .pop key context gradient ∈ s.log →
        .put key context ∈ s.log ∧ gradient.key = key := by
  have hrest : AtRest env uuid (history env uuid events (newExecutor maxCachedRuntimes hasCalibrationTargets)) :=
    atRest_history huuid events (atRest_newExecutor maxCachedRuntimes hasCalibrationTargets)
  have hledger : Ledger uuid _ := hrest.elim fun _ h ↦ h.ledger
  refine ⟨hrest.size_eq_zero, fun operation hoperation ↦ ?_, hledger.puts, hledger.pops, hledger.popped⟩
  exact (hrest.lifecycle hoperation).imp fun _ h ↦ h.1

def stepName (n : ℕ) : String := String.ofList (List.replicate n 's')

/-- A round of two batches: the first gradient is that of its step, the second one is not. -/
def mismatchedTask : Event :=
  .binding "client" [.fit halfAnswers (.ok ())
    [⟨.ok true, .ok 1, .ok ⟨⟨0, "client", stepName 0⟩, 0⟩, fun _ ↦ .ok ()⟩,
      ⟨.ok true, .ok 2, .ok ⟨⟨0, "client", stepName 0⟩, 0⟩, fun _ ↦ .ok ()⟩] (.ok ()) (planConfig "a")]
    (.ok ()) (.ok ())

theorem mismatched_context_discarded :
    (history plainEnv stepName [mismatchedTask] (newExecutor none false)).log.length = 3 ∧
      pendingContextCount (history plainEnv stepName [mismatchedTask] (newExecutor none false)) = 0 := by
  have hstepName : Function.Injective stepName := by
    intro m n h
    have hlength := congrArg (fun s : String ↦ s.toList.length) h
    simpa [stepName] using hlength
  obtain ⟨hpending, -⟩ := contexts_end_with_their_task plainEnv stepName hstepName none false [mismatchedTask]
  exact ⟨by decide +kernel, hpending⟩

end SplitFleet.SplitClient
