import SplitFleet.PrefixContextLaw
import SplitFleet.SplitSteps

set_option autoImplicit false

namespace SplitFleet.SplitSteps

open Lib
open SplitClient (PrefixContextKey)

variable {τ ω : Type} {A : Adapters τ ω} {uuid : ℕ → String}

/-! ### What an entry rests on -/

section Log

/-- No gradient step has used the key. -/
def Unused (key : PrefixContextKey) (log : List (Entry τ ω)) : Prop :=
  ∀ h native gradient gradients, .stepped h key native gradient gradients ∉ log

/-- What must have happened before an entry. -/
def Causes (A : Adapters τ ω) (before : List (Entry τ ω)) : Entry τ ω → Prop
  | .stored _ _ _ => True
  | .sent h native b => ∃ contract tensors batchSize metadata, h.contract = .ok contract ∧
      encodeTensors A h.backend native.tensors = .ok tensors ∧
      b = boundaryOf h contract b.key tensors batchSize metadata
  | .trained h b replay gradients g => (∃ hp native, .sent hp native b ∈ before) ∧ nativeBoundary A h b = .ok replay ∧
      ∃ tensors, encodeTensors A h.backend gradients = .ok tensors ∧ g = gradientOf h b tensors
  | .stepped h key native g gradients => (∃ hp, .stored hp key native ∈ before) ∧
      (∃ hs b replay trained, .trained hs b replay trained g ∈ before) ∧ checkGradient h key g = .ok () ∧
      decodeTensors A h g.tensors = .ok gradients ∧ Unused key before

def Caused (A : Adapters τ ω) (log : List (Entry τ ω)) : Prop :=
  ∀ before e after, log = before ++ e :: after → Causes A before e

theorem caused_nil : Caused A ([] : List (Entry τ ω)) := by
  intro before e after h
  simp at h

theorem Caused.append {log : List (Entry τ ω)} {e : Entry τ ω} (h : Caused A log) (he : Causes A log e) :
    Caused A (log ++ [e]) := by
  intro before e' after heq
  rcases List.eq_nil_or_concat after with rfl | ⟨rest, last, rfl⟩
  · obtain ⟨rfl, hlast⟩ := List.append_inj' heq rfl
    obtain rfl : e = e' := by simpa using hlast
    exact he
  · have hrest : log ++ [e] = (before ++ e' :: rest) ++ [last] := by simpa using heq
    obtain ⟨hlog, -⟩ := List.append_inj' hrest rfl
    exact h before e' rest hlog

theorem Caused.of_append {before after : List (Entry τ ω)} (h : Caused A (before ++ after)) : Caused A before := by
  intro l e l' heq
  exact h l e (l' ++ after) (by rw [heq, List.append_assoc, List.cons_append])

theorem Caused.of_mem {log : List (Entry τ ω)} {e : Entry τ ω} (h : Caused A log) (he : e ∈ log) :
    ∃ before, (∀ e' ∈ before, e' ∈ log) ∧ Causes A before e := by
  obtain ⟨before, after, rfl⟩ := List.append_of_mem he
  exact ⟨before, fun e' he' ↦ List.mem_append_left _ he', h _ _ _ rfl⟩

end Log

/-! ### The invariant -/

section Invariant

/-- The key has a step id that was drawn. -/
def Drawn (uuid : ℕ → String) (key : PrefixContextKey) (s : Engines τ ω) : Prop := ∃ n < s.drawn, key.stepId = uuid n

structure Sound (A : Adapters τ ω) (uuid : ℕ → String) (s : Engines τ ω) : Prop where
  caused : Caused A s.log
  boundaries : ∀ b ∈ s.boundaries, ∃ h native, .sent h native b ∈ s.log
  gradients : ∀ g ∈ s.gradients, ∃ h b replay trained, .trained h b replay trained g ∈ s.log
  contexts : ∀ key native, s.contexts.get? key = some native →
    (∃ h, .stored h key native ∈ s.log) ∧ Unused key s.log
  storedDrawn : ∀ h key native, .stored h key native ∈ s.log → Drawn uuid key s
  sentDrawn : ∀ h native b, .sent h native b ∈ s.log → Drawn uuid b.key s
  /-- What is kept and what is sent under one key come from one call. -/
  sameCall : ∀ h native b h' native', .sent h native b ∈ s.log → .stored h' b.key native' ∈ s.log →
    h' = h ∧ native' = native

theorem sound_start : Sound A uuid (start : Engines τ ω) where
  caused := caused_nil
  boundaries _ h := absurd h List.not_mem_nil
  gradients _ h := absurd h List.not_mem_nil
  contexts _ _ h := by cases h
  storedDrawn _ _ _ h := absurd h List.not_mem_nil
  sentDrawn _ _ _ h := absurd h List.not_mem_nil
  sameCall _ _ _ _ _ h := absurd h List.not_mem_nil

/-- The keys of a step that has been drawn and not used. -/
structure Fresh (uuid : ℕ → String) (key : PrefixContextKey) (s : Engines τ ω) : Prop where
  drawn : Drawn uuid key s
  stored : ∀ h native, .stored h key native ∉ s.log
  sent : ∀ h native b, .sent h native b ∈ s.log → b.key ≠ key

/-- The call that keeps its context under the key, or keeps none. -/
structure Midway (uuid : ℕ → String) (h : Handle) (native : Native τ) (key : PrefixContextKey) (s : Engines τ ω) :
    Prop where
  drawn : Drawn uuid key s
  stored : ∀ h' native', .stored h' key native' ∈ s.log → h' = h ∧ native' = native

variable {s : Engines τ ω} {key : PrefixContextKey} {h : Handle} {native : Native τ}

theorem Sound.draw (hs : Sound A uuid s) : Sound A uuid { s with drawn := s.drawn + 1 } where
  caused := hs.caused
  boundaries := hs.boundaries
  gradients := hs.gradients
  contexts := hs.contexts
  storedDrawn h key native hmem := by
    obtain ⟨n, hn, hkey⟩ := hs.storedDrawn h key native hmem
    exact ⟨n, Nat.lt_succ_of_lt hn, hkey⟩
  sentDrawn h native b hmem := by
    obtain ⟨n, hn, hkey⟩ := hs.sentDrawn h native b hmem
    exact ⟨n, Nat.lt_succ_of_lt hn, hkey⟩
  sameCall := hs.sameCall

theorem Sound.fresh_key (huuid : Function.Injective uuid) (hs : Sound A uuid s) (round : ℤ) (client : String) :
    Fresh uuid ⟨round, client, uuid s.drawn⟩ { s with drawn := s.drawn + 1 } where
  drawn := ⟨s.drawn, Nat.lt_succ_self _, rfl⟩
  stored h native hmem := by
    obtain ⟨n, hn, hkey⟩ := hs.storedDrawn _ _ _ hmem
    exact absurd (huuid hkey) (Nat.ne_of_gt hn)
  sent h native b hmem heq := by
    obtain ⟨n, hn, hkey⟩ := hs.sentDrawn _ _ _ hmem
    rw [heq] at hkey
    exact absurd (huuid hkey) (Nat.ne_of_gt hn)

/-- Keeping fewer contexts. -/
theorem Sound.withContexts (hs : Sound A uuid s) {contexts : Dict PrefixContextKey (Native τ)}
    (h : ∀ key native, contexts.get? key = some native → s.contexts.get? key = some native) :
    Sound A uuid { s with contexts := contexts } where
  caused := hs.caused
  boundaries := hs.boundaries
  gradients := hs.gradients
  contexts key native hkey := hs.contexts key native (h key native hkey)
  storedDrawn := hs.storedDrawn
  sentDrawn := hs.sentDrawn
  sameCall := hs.sameCall

/-- The keys of gradient steps were kept before. -/
theorem Sound.unused (hs : Sound A uuid s) (hkey : ∀ h native, .stored h key native ∉ s.log) : Unused key s.log := by
  intro h native g gradients hmem
  obtain ⟨before, after, hlog⟩ := List.append_of_mem hmem
  obtain ⟨⟨hp, hstored⟩, -⟩ := hs.caused _ _ _ hlog
  apply hkey hp native
  rw [hlog]
  exact List.mem_append_left _ hstored

/-- One more entry in the log. -/
theorem Sound.extend {t : Engines τ ω} {e : Entry τ ω} (hs : Sound A uuid s) (hlog : t.log = s.log ++ [e])
    (hdrawn : t.drawn = s.drawn) (hcauses : Causes A s.log e)
    (hboundaries : ∀ b ∈ t.boundaries, b ∈ s.boundaries ∨ ∃ h native, e = .sent h native b)
    (hgradients : ∀ g ∈ t.gradients, g ∈ s.gradients ∨ ∃ h b replay trained, e = .trained h b replay trained g)
    (hcontexts : ∀ key native, t.contexts.get? key = some native → s.contexts.get? key = some native ∨
      Unused key s.log ∧ ∃ h, e = .stored h key native)
    (hstepped : ∀ h key native g gradients, e = .stepped h key native g gradients → t.contexts.get? key = none)
    (hstored : ∀ h key native, e = .stored h key native → Fresh uuid key s)
    (hsent : ∀ h native b, e = .sent h native b → Midway uuid h native b.key s) : Sound A uuid t := by
  have hmem {e' : Entry τ ω} : e' ∈ t.log ↔ e' ∈ s.log ∨ e' = e := by simp [hlog]
  constructor
  · rw [hlog]
    exact hs.caused.append hcauses
  · intro b hb
    rcases hboundaries b hb with hb | ⟨h, native, rfl⟩
    · obtain ⟨h, native, hin⟩ := hs.boundaries b hb
      exact ⟨h, native, hmem.mpr (.inl hin)⟩
    · exact ⟨h, native, hmem.mpr (.inr rfl)⟩
  · intro g hg
    rcases hgradients g hg with hg | ⟨h, b, replay, trained, rfl⟩
    · obtain ⟨h, b, replay, trained, hin⟩ := hs.gradients g hg
      exact ⟨h, b, replay, trained, hmem.mpr (.inl hin)⟩
    · exact ⟨h, b, replay, trained, hmem.mpr (.inr rfl)⟩
  · intro key native hget
    obtain ⟨⟨h, hin⟩, hunused⟩ : (∃ h, .stored h key native ∈ t.log) ∧ Unused key s.log := by
      rcases hcontexts key native hget with hold | ⟨hunused, h, rfl⟩
      · obtain ⟨⟨h, hin⟩, hunused⟩ := hs.contexts key native hold
        exact ⟨⟨h, hmem.mpr (.inl hin)⟩, hunused⟩
      · exact ⟨⟨h, hmem.mpr (.inr rfl)⟩, hunused⟩
    refine ⟨⟨h, hin⟩, ?_⟩
    intro h' native' g gradients hin'
    rcases hmem.mp hin' with hin' | rfl
    · exact hunused _ _ _ _ hin'
    · rw [hstepped _ _ _ _ _ rfl] at hget
      cases hget
  · intro h key native hin
    rw [Drawn, hdrawn]
    rcases hmem.mp hin with hin | rfl
    · exact hs.storedDrawn h key native hin
    · exact (hstored _ _ _ rfl).drawn
  · intro h native b hin
    rw [Drawn, hdrawn]
    rcases hmem.mp hin with hin | rfl
    · exact hs.sentDrawn h native b hin
    · exact (hsent _ _ _ rfl).drawn
  · intro h native b h' native' hin hin'
    rcases hmem.mp hin with hin | rfl
    · rcases hmem.mp hin' with hin' | rfl
      · exact hs.sameCall _ _ _ _ _ hin hin'
      · exact absurd rfl ((hstored _ _ _ rfl).sent _ _ _ hin)
    · rcases hmem.mp hin' with hin' | heq
      · exact (hsent _ _ _ rfl).stored _ _ hin'
      · cases heq

/-- The call keeps its context. -/
def Engines.keep (s : Engines τ ω) (h : Handle) (key : PrefixContextKey) (native : Native τ) : Engines τ ω :=
  { s with contexts := s.contexts.insert key native, log := s.log ++ [.stored h key native] }

theorem Sound.keep (hs : Sound A uuid s) (hkey : Fresh uuid key s) : Sound A uuid (s.keep h key native) := by
  refine hs.extend (e := .stored h key native) rfl rfl trivial (fun _ ↦ .inl) (fun _ ↦ .inl) ?_ (by simp) ?_ (by simp)
  · intro key' native' hget
    rw [Engines.keep, Dict.get?_insert] at hget
    by_cases heq : key = key'
    · subst heq
      obtain rfl : native = native' := by simpa using hget
      exact .inr ⟨hs.unused hkey.stored, h, rfl⟩
    · rw [if_neg heq] at hget
      exact .inl hget
  · intro h' key' native' heq
    obtain ⟨-, rfl, -⟩ := Entry.stored.inj heq
    exact hkey

theorem Fresh.keep (hkey : Fresh uuid key s) : Midway uuid h native key (s.keep h key native) where
  drawn := hkey.drawn
  stored h' native' hmem := by
    rcases List.mem_append.mp hmem with hmem | hmem
    · exact absurd hmem (hkey.stored h' native')
    · obtain ⟨rfl, -, rfl⟩ := Entry.stored.inj (List.mem_singleton.mp hmem)
      exact ⟨rfl, rfl⟩

theorem Fresh.midway (hkey : Fresh uuid key s) : Midway uuid h native key s where
  drawn := hkey.drawn
  stored h' native' hmem := absurd hmem (hkey.stored h' native')

theorem Sound.send (hs : Sound A uuid s) {b : BoundaryEnvelope ω} (hkey : Midway uuid h native b.key s)
    (hb : Causes A s.log (.sent h native b)) :
    Sound A uuid { s with boundaries := s.boundaries ++ [b], log := s.log ++ [.sent h native b] } := by
  refine hs.extend (e := .sent h native b) rfl rfl hb ?_ (fun _ ↦ .inl) (fun _ _ ↦ .inl) (by simp) (by simp) ?_
  · intro b' hmem
    rcases List.mem_append.mp hmem with hmem | hmem
    · exact .inl hmem
    · obtain rfl := List.mem_singleton.mp hmem
      exact .inr ⟨h, native, rfl⟩
  · intro h' native' b' heq
    obtain ⟨rfl, rfl, rfl⟩ := Entry.sent.inj heq
    exact hkey

theorem Sound.train (hs : Sound A uuid s) {b : BoundaryEnvelope ω} {replay : ReplayBoundary τ} {trained : Dict String τ}
    {g : GradientEnvelope ω} (hg : Causes A s.log (.trained h b replay trained g)) :
    Sound A uuid { s with gradients := s.gradients ++ [g], log := s.log ++ [.trained h b replay trained g] } := by
  refine hs.extend (e := .trained h b replay trained g) rfl rfl hg (fun _ ↦ .inl) ?_ (fun _ _ ↦ .inl) (by simp)
    (by simp) (by simp)
  intro g' hmem
  rcases List.mem_append.mp hmem with hmem | hmem
  · exact .inl hmem
  · obtain rfl := List.mem_singleton.mp hmem
    exact .inr ⟨h, b, replay, trained, rfl⟩

theorem Sound.step (hs : Sound A uuid s) {g : GradientEnvelope ω} {gradients : Dict String τ}
    (hg : Causes A s.log (.stepped h key native g gradients)) (hkey : s.contexts.get? key = none) :
    Sound A uuid { s with log := s.log ++ [.stepped h key native g gradients] } := by
  refine hs.extend (e := .stepped h key native g gradients) rfl rfl hg (fun _ ↦ .inl) (fun _ ↦ .inl) (fun _ _ ↦ .inl) ?_
    (by simp) (by simp)
  intro h' key' native' g' gradients' heq
  obtain ⟨-, rfl, -⟩ := Entry.stepped.inj heq
  exact hkey

end Invariant

/-! ### One call -/

section Calls

open Method

variable {h : Handle} {key : PrefixContextKey} {native : Native τ}

theorem triple_stepOf (huuid : Function.Injective uuid) (hstep : h.stepId.getD "" = "") :
    Triple (Sound A uuid) (stepOf uuid h : Method (Engines τ ω) String)
      (fun step s ↦ Sound A uuid s ∧ ∀ round client, Fresh uuid ⟨round, client, step⟩ s) (Sound A uuid) := by
  refine .get_bind fun s hs ↦ ?_
  rw [if_pos hstep]
  refine .modify_bind (I := fun t ↦ Sound A uuid t ∧ ∀ round client, Fresh uuid ⟨round, client, uuid s.drawn⟩ t) ?_ ?_
  · rintro _ ⟨hs, rfl⟩
    exact ⟨hs.draw, hs.fresh_key huuid⟩
  · exact .pure fun _ ht ↦ ht

theorem triple_putContext {training : Bool} :
    Triple (fun s ↦ Sound A uuid s ∧ Fresh uuid key s) (putContext training h key native : Method (Engines τ ω) Unit)
      (fun _ s ↦ Sound A uuid s ∧ Midway uuid h native key s) (Sound A uuid) := by
  refine .get_bind fun s hs ↦ ?_
  cases training with
  | false => exact .pure fun t ht ↦ ⟨ht.1.1, ht.1.2.midway⟩
  | true =>
    refine .require_bind (fun _ ↦ .of_modify ?_) fun t ht ↦ ht.1.1
    exact fun t ht ↦ ⟨ht.1.1.keep ht.1.2, ht.1.2.keep⟩

theorem triple_runPrefix (huuid : Function.Injective uuid) (hstep : h.stepId.getD "" = "")
    {result : Except PyError (Native τ)} {training : Bool} :
    Triple (Sound A uuid) (runPrefix A uuid h result training) (fun _ ↦ Sound A uuid) (Sound A uuid) := by
  refine .lift_bind (fun native _ ↦ ?_) fun _ hs ↦ hs
  refine .lift_bind (fun contract hcontract ↦ ?_) fun _ hs ↦ hs
  refine .bind (triple_stepOf huuid hstep) fun step ↦ ?_
  refine .bind (R := fun _ s ↦ Sound A uuid s ∧ Midway uuid h native ⟨h.roundId.getD 0, h.clientId.getD "", step⟩ s) ?_
    fun _ ↦ ?_
  · exact triple_putContext.mono (fun s hs ↦ ⟨hs.1, hs.2 _ _⟩) (fun _ _ hs ↦ hs) fun _ hs ↦ hs
  refine .lift_bind (fun tensors htensors ↦ ?_) fun _ hs ↦ hs.1
  refine .lift_bind (fun batchSize _ ↦ ?_) fun _ hs ↦ hs.1
  refine .lift_bind (fun metadata _ ↦ ?_) fun _ hs ↦ hs.1
  refine .of_modify ?_
  rintro s ⟨hs, hmid⟩
  exact hs.send hmid ⟨contract, tensors, batchSize, metadata, hcontract, htensors, rfl⟩

theorem triple_runSuffix {b : BoundaryEnvelope ω} {targets : Targets τ} :
    Triple (fun s ↦ Sound A uuid s ∧ ∃ hp native, .sent hp native b ∈ s.log) (runSuffix A h b targets)
      (fun _ ↦ Sound A uuid) (Sound A uuid) := by
  refine .lift_bind (fun replay hreplay ↦ ?_) fun _ hs ↦ hs.1
  cases targets with
  | absent outputs => exact .lift (fun _ _ hs _ ↦ hs.1) fun _ hs ↦ hs.1
  | withoutLoss => exact .throw fun _ hs ↦ hs.1
  | given train loss =>
    refine .lift_bind (fun trained _ ↦ ?_) fun _ hs ↦ hs.1
    refine .lift_bind (fun tensors htensors ↦ ?_) fun _ hs ↦ hs.1
    refine .lift_bind (fun _ _ ↦ ?_) fun _ hs ↦ hs.1
    refine .of_modify ?_
    rintro s ⟨hs, hsent⟩
    exact hs.train ⟨hsent, hreplay, tensors, htensors, rfl⟩

/-- A context that was taken out. -/
structure Taken (A : Adapters τ ω) (uuid : ℕ → String) (key : PrefixContextKey) (native : Native τ)
    (s : Engines τ ω) : Prop where
  sound : Sound A uuid s
  stored : ∃ hp, .stored hp key native ∈ s.log
  unused : Unused key s.log
  absent : s.contexts.get? key = none

theorem Sound.take {s : Engines τ ω} (hs : Sound A uuid s) (hkey : s.contexts.get? key = some native) :
    Taken A uuid key native { s with contexts := s.contexts.erase key } where
  sound := by
    refine hs.withContexts ?_
    intro key' native' hget
    rw [Dict.get?_erase] at hget
    by_cases heq : key = key'
    · simp [heq] at hget
    · rwa [if_neg heq] at hget
  stored := (hs.contexts key native hkey).1
  unused := (hs.contexts key native hkey).2
  absent := by simp

theorem triple_popContext {g : GradientEnvelope ω} :
    Triple (fun s ↦ Sound A uuid s ∧ ∃ hs b replay trained, .trained hs b replay trained g ∈ s.log)
      (popContext key : Method (Engines τ ω) (Native τ))
      (fun native s ↦ Taken A uuid key native s ∧ ∃ hs b replay trained, .trained hs b replay trained g ∈ s.log)
      (Sound A uuid) := by
  refine .get_bind fun s hs ↦ ?_
  cases hkey : s.contexts.get? key with
  | none => exact .throw fun _ ht ↦ ht.1.1
  | some native =>
    refine .modify_bind (I := fun t ↦ Taken A uuid key native t ∧
      ∃ hs b replay trained, .trained hs b replay trained g ∈ t.log) ?_ (.pure fun _ ht ↦ ht)
    rintro _ ⟨⟨hsound, htrained⟩, rfl⟩
    exact ⟨hsound.take hkey, htrained⟩

theorem triple_backwardPrefix {g : GradientEnvelope ω} {backward : Native τ → Dict String τ → Except PyError Unit} :
    Triple (fun s ↦ Sound A uuid s ∧ ∃ hs b replay trained, .trained hs b replay trained g ∈ s.log)
      (backwardPrefix A h key g backward) (fun _ ↦ Sound A uuid) (Sound A uuid) := by
  refine .lift_bind (fun _ hcheck ↦ ?_) fun _ hs ↦ hs.1
  refine .bind triple_popContext fun native ↦ ?_
  refine .lift_bind (fun gradients hgradients ↦ ?_) fun _ hs ↦ hs.1.sound
  refine .modify_bind (I := Sound A uuid) ?_ (.lift (fun _ _ hs _ ↦ hs) fun _ hs ↦ hs)
  rintro s ⟨ht, htrained⟩
  exact ht.sound.step ⟨ht.stored, htrained, hcheck, hgradients, ht.unused⟩ ht.absent

/-- The call draws the id of its step. -/
def Event.Draws : Event τ → Prop
  | .runPrefix h _ _ => h.stepId.getD "" = ""
  | _ => True

theorem triple_event (huuid : Function.Injective uuid) {event : Event τ} (hdraws : event.Draws) :
    Triple (Sound A uuid) (event.run A uuid) (fun _ ↦ Sound A uuid) (Sound A uuid) := by
  cases event with
  | runPrefix h result training => exact triple_runPrefix huuid hdraws
  | runSuffix h message targets =>
    refine .get_bind fun s hs ↦ ?_
    cases hb : s.boundaries[message]? with
    | none => exact .pure fun _ ht ↦ ht.1
    | some b =>
      refine triple_runSuffix.mono ?_ (fun _ _ ht ↦ ht) fun _ ht ↦ ht
      rintro _ ⟨ht, rfl⟩
      exact ⟨ht, ht.boundaries b (List.mem_of_getElem? hb)⟩
  | backwardPrefix h token message backward =>
    refine .get_bind fun s hs ↦ ?_
    cases hg : s.gradients[message]? with
    | none => exact .pure fun _ ht ↦ ht.1
    | some g =>
      refine triple_backwardPrefix.mono ?_ (fun _ _ ht ↦ ht) fun _ ht ↦ ht
      rintro _ ⟨ht, rfl⟩
      exact ⟨ht, ht.gradients g (List.mem_of_getElem? hg)⟩
  | discardRound round client =>
    refine .of_modify fun s hs ↦ hs.withContexts ?_
    intro key native hget
    rw [Dict.get?_filterKeys] at hget
    exact (Option.ite_none_right_eq_some.mp hget).2
  | clear => exact .of_modify fun s hs ↦ hs.withContexts fun _ _ hget ↦ by cases hget

theorem sound_history (A : Adapters τ ω) (huuid : Function.Injective uuid) {events : List (Event τ)}
    (hdraws : ∀ event ∈ events, event.Draws) : Sound A uuid (history A uuid events) := by
  induction events using List.reverseRecOn with
  | nil => exact sound_start
  | append_singleton events event ih =>
    rw [history, List.foldl_append]
    exact (triple_event huuid (hdraws event (by simp))).after (ih fun e he ↦ hdraws e (by simp [he]))

end Calls

/-! ### Steps -/

/-- What a gradient step did, from the boundary that was computed to the gradients that came back. -/
structure Matched (A : Adapters τ ω) (log before : List (Entry τ ω)) (h : Handle) (key : PrefixContextKey)
    (native : Native τ) (g : GradientEnvelope ω) (gradients : Dict String τ) (hp hs : Handle)
    (replay : ReplayBoundary τ) (trained : Dict String τ) : Prop where
  /-- The context was kept by the call that sent the boundary, and the suffix was trained on this boundary. -/
  stored : .stored hp key native ∈ before
  sent : ∃ boundary, .sent hp native boundary ∈ before ∧ .trained hs boundary replay trained g ∈ before
  forward : ∃ wire, encodeTensors A hp.backend native.tensors = .ok wire ∧ decodeTensors A hs wire = .ok replay.tensors
  backward : ∃ wire, encodeTensors A hs.backend trained = .ok wire ∧ decodeTensors A h wire = .ok gradients
  backends : hp.backend = h.backend ∧ hs.backend = h.backend
  splits : hp.splitId = h.splitId ∧ hs.splitId = h.splitId
  graphs : ∃ contract contract', hp.contract = .ok contract ∧ hs.contract = .ok contract' ∧
    contract.canonicalGraphHash = contract'.canonicalGraphHash ∧
    contract.boundarySchemaHash = contract'.boundarySchemaHash
  plan : ∀ planId, h.planId = some planId → hp.planId.getD "" = planId
  version : ∀ version, h.modelVersion = some version → hp.modelVersion.getD 0 = version
  /-- No other step has used the context. -/
  once : ∀ h' native' g' gradients' l l', log = l ++ .stepped h' key native' g' gradients' :: l' → l = before

theorem checkGradient_ok {h : Handle} {token : PrefixContextKey} {g : GradientEnvelope ω}
    (hok : checkGradient h token g = .ok ()) : g.key = token ∧ g.backend = h.backend ∧ g.splitId = h.splitId ∧
      h.planId.getD g.planId = g.planId ∧ h.modelVersion.getD g.modelVersion = g.modelVersion := by
  obtain ⟨_, hkey, hok⟩ := bind_eq_ok hok
  obtain ⟨_, hbackend, hok⟩ := bind_eq_ok hok
  obtain ⟨_, hsplit, hok⟩ := bind_eq_ok hok
  obtain ⟨_, hplan, hok⟩ := bind_eq_ok hok
  exact ⟨of_require hkey, of_require hbackend, of_require hsplit, of_require hplan, of_require hok⟩

theorem nativeBoundary_ok {h : Handle} {b : BoundaryEnvelope ω} {replay : ReplayBoundary τ}
    (hok : nativeBoundary A h b = .ok replay) : b.backend = h.backend ∧ b.splitId = h.splitId ∧
      decodeTensors A h b.tensors = .ok replay.tensors ∧
      ∃ contract, h.contract = .ok contract ∧ b.canonicalGraphHash = contract.canonicalGraphHash ∧
        b.boundarySchemaHash = contract.boundarySchemaHash := by
  obtain ⟨_, hbackend, hok⟩ := bind_eq_ok hok
  obtain ⟨contract, hcontract, hok⟩ := bind_eq_ok hok
  obtain ⟨_, hsplit, hok⟩ := bind_eq_ok hok
  obtain ⟨_, hgraph, hok⟩ := bind_eq_ok hok
  obtain ⟨_, hschema, hok⟩ := bind_eq_ok hok
  obtain ⟨tensors, htensors, hok⟩ := bind_eq_ok hok
  obtain ⟨metadata, -, hok⟩ := bind_eq_ok hok
  cases hok
  exact ⟨of_require hbackend, of_require hsplit, htensors, contract, hcontract, of_require hgraph, of_require hschema⟩

theorem Caused.once {log before after : List (Entry τ ω)} {h : Handle} {key : PrefixContextKey} {native : Native τ}
    {g : GradientEnvelope ω} {gradients : Dict String τ}
    (hlog : log = before ++ .stepped h key native g gradients :: after) (hcaused : Caused A log) {h' : Handle}
    {native' : Native τ} {g' : GradientEnvelope ω} {gradients' : Dict String τ}
    {l l' : List (Entry τ ω)} (hlog' : log = l ++ .stepped h' key native' g' gradients' :: l') : l = before := by
  obtain ⟨-, -, -, -, hunused⟩ := hcaused _ _ _ hlog
  obtain ⟨-, -, -, -, hunused'⟩ := hcaused _ _ _ hlog'
  rw [hlog] at hlog'
  rcases List.append_eq_append_iff.mp hlog' with ⟨rest, hl, hrest⟩ | ⟨rest, hl, hrest⟩
  · cases rest with
    | nil => rw [hl, List.append_nil]
    | cons e rest =>
      obtain ⟨rfl, -⟩ := List.cons.inj hrest
      exact absurd (hl ▸ List.mem_append_right _ List.mem_cons_self) (hunused' h native g gradients)
  · cases rest with
    | nil => rw [hl, List.append_nil]
    | cons e rest =>
      obtain ⟨rfl, -⟩ := List.cons.inj hrest
      exact absurd (hl ▸ List.mem_append_right _ List.mem_cons_self) (hunused h' native' g' gradients')

theorem getD_eq {α : Type} {o : Option α} {a b : α} (h : o.getD a = a) (ho : o = some b) : a = b := by
  rw [ho] at h
  exact h.symm

/-- Whatever the messages do (arrive late, in another order, often or never), a gradient step is given the context and
the gradients of one boundary: the context of the call that sent it, and the gradients that a suffix of the same cut,
backend and graph computed from it. No context is used twice. -/
theorem gradients_meet_their_context (A : Adapters τ ω) (huuid : Function.Injective uuid) {events : List (Event τ)}
    (hdraws : ∀ event ∈ events, event.Draws) {before after : List (Entry τ ω)} {h : Handle} {key : PrefixContextKey}
    {native : Native τ} {g : GradientEnvelope ω} {gradients : Dict String τ}
    (hlog : (history A uuid events).log = before ++ .stepped h key native g gradients :: after) :
    ∃ hp hs replay trained,
      Matched A (history A uuid events).log before h key native g gradients hp hs replay trained := by
  have hsound := sound_history A huuid hdraws
  have hcaused := hsound.caused
  obtain ⟨⟨hstore, hstored⟩, ⟨hs, b, replay, trained, htrained⟩, hcheck, hgradients, -⟩ := hcaused _ _ _ hlog
  have hbefore : Caused A before := (hlog ▸ hcaused).of_append
  obtain ⟨l, hl, ⟨hp, native', hsent⟩, hreplay, wire', hwire', hg⟩ := hbefore.of_mem htrained
  obtain ⟨-, -, contract, wire, batchSize, metadata, hcontract, hwire, hb⟩ := hbefore.of_mem (hl _ hsent)
  obtain ⟨hkey, hbackend, hsplit, hplan, hversion⟩ := checkGradient_ok hcheck
  obtain ⟨hbackend', hsplit', htensors, contract', hcontract', hgraph, hschema⟩ := nativeBoundary_ok hreplay
  have hmem {e : Entry τ ω} (he : e ∈ before) : e ∈ (history A uuid events).log := by
    rw [hlog]
    exact List.mem_append_left _ he
  have hbkey : b.key = key := by rw [← hkey, hg, gradientOf]
  obtain ⟨rfl, rfl⟩ := hsound.sameCall hp native' b hstore native (hmem (hl _ hsent)) (hbkey ▸ hmem hstored)
  have hgbackend : g.backend = hs.backend := by rw [hg, gradientOf]
  refine ⟨hstore, hs, replay, trained, ⟨hstored, ⟨b, hl _ hsent, htrained⟩, ⟨wire, hwire, ?_⟩, ⟨wire', hwire', ?_⟩, ?_,
    ?_, ?_, ?_, ?_, ?_⟩⟩
  · rw [hb] at htensors
    exact htensors
  · rw [hg] at hgradients
    exact hgradients
  · rw [← hbackend, hgbackend, ← hbackend', hb]
    exact ⟨rfl, rfl⟩
  · have hgsplit : g.splitId = b.splitId := by rw [hg, gradientOf]
    rw [← hsplit, hgsplit, ← hsplit', hb]
    exact ⟨rfl, rfl⟩
  · rw [hb] at hgraph hschema
    exact ⟨contract, contract', hcontract, hcontract', hgraph, hschema⟩
  · intro planId hplanId
    have hgplan : g.planId = hstore.planId.getD "" := by rw [hg, gradientOf, hb, boundaryOf]
    exact hgplan.symm.trans (getD_eq hplan hplanId)
  · intro version hv
    have hgversion : g.modelVersion = hstore.modelVersion.getD 0 := by rw [hg, gradientOf, hb, boundaryOf]
    exact hgversion.symm.trans (getD_eq hversion hv)
  · exact fun _ _ _ _ _ _ hlog' ↦ hcaused.once hlog hlog'

/-- Tensors that are numbers, and their own wire format. -/
def numbers : Adapters ℕ ℕ where
  encode _ _ x := .ok x
  decode _ w := .ok w
  int v := match v with
    | .int z => .ok z
    | _ => .error (.typeError "int() argument must be a number")

def sampleHandle : Handle where
  backend := "torch"
  splitId := "after:relu"
  contract := .ok ⟨"graph", "schema", "digest"⟩
  roundId := some 3
  clientId := some "c"
  stepId := none
  planId := some "plan"
  modelVersion := some 3

def sampleNative : Native ℕ where
  tensors := Dict.ofList [("relu", 7)]
  metadata := Dict.ofList [("runtime_batch_size", .int 2)]

def sampleKey : PrefixContextKey := ⟨3, "c", ""⟩

/-- The boundary arrives twice, and so do the gradients: the first step takes the context. -/
def sampleEvents : List (Event ℕ) :=
  [.runPrefix sampleHandle (.ok sampleNative) true,
    .runSuffix sampleHandle 0 (.given (fun replay ↦ .ok replay.tensors) (.ok ())),
    .runSuffix sampleHandle 0 (.given (fun replay ↦ .ok replay.tensors) (.ok ())),
    .backwardPrefix sampleHandle sampleKey 1 fun _ _ ↦ .ok (),
    .backwardPrefix sampleHandle sampleKey 0 fun _ _ ↦ .ok ()]

def sampleGradient : GradientEnvelope ℕ := ⟨[("relu", 7)], "torch", sampleKey, "plan", "after:relu", 3⟩

theorem gradients_meet_sample : ∃ before hp hs replay trained,
    Matched numbers (history numbers SplitClient.stepName sampleEvents).log before sampleHandle sampleKey sampleNative
      sampleGradient (Dict.ofList [("relu", 7)]) hp hs replay trained := by
  have hstepName : Function.Injective SplitClient.stepName := by
    intro m n h
    have hlength := congrArg (fun s : String ↦ s.toList.length) h
    simpa [SplitClient.stepName] using hlength
  have hdraws : ∀ event ∈ sampleEvents, event.Draws := by simp [sampleEvents, Event.Draws, sampleHandle]
  have hlog : (history numbers SplitClient.stepName sampleEvents).log =
      (history numbers SplitClient.stepName sampleEvents).log.take 4 ++
        [.stepped sampleHandle sampleKey sampleNative sampleGradient (Dict.ofList [("relu", 7)])] := by rfl
  exact ⟨_, gradients_meet_their_context numbers hstepName hdraws hlog⟩

end SplitFleet.SplitSteps
