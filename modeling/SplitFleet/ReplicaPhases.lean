import SplitFleet.Lib.Fibre
import SplitFleet.LeasedManager
import Mathlib.Logic.Relation

set_option autoImplicit false

namespace SplitFleet.ReplicaPhases

open Lib LeasedManager

/-- The life of one replica between two `end_round` calls. In `recorded` the outcome stands and
the last section of `finish` is still to come. -/
inductive Phase
  | fresh | preparing | live | finishing
  | recorded (success : Bool)
  | closed (success : Bool)

/-- The part of the life that some thread carries out. -/
inductive Stage
  | preparing | finishing | recorded

namespace Phase

def stage? : Phase → Option Stage
  | .preparing => some .preparing
  | .finishing => some .finishing
  | .recorded _ => some .recorded
  | _ => none

def InFinishing (p : Phase) : Prop := p = .finishing ∨ ∃ success, p = .recorded success

def HasOutcome (success : Bool) (p : Phase) : Prop := p = .recorded success ∨ p = .closed success

end Phase

variable {α : Type}

/-- The manager's collections are the fibres of one phase for each sid. -/
structure Refines (m : Manager α) (phase : Sid → Phase) : Prop where
  attempted : Fibre (· ∈ m.attempted) phase (· ≠ .fresh)
  preparing : Fibre (· ∈ m.preparing) phase (· = .preparing)
  live : Fibre (· ∈ m.live.keys) phase (· = .live)
  finishing : Fibre (· ∈ m.finishing) phase Phase.InFinishing
  completed : Fibre (· ∈ m.completed.keys) phase (Phase.HasOutcome true)
  failed : Fibre (· ∈ m.failed.keys) phase (Phase.HasOutcome false)

/-- The replica a thread is working on, with its stage. -/
def claim : Pc α → Option (Sid × Stage)
  | .building a | .numbering a _ | .peaking a _ _ | .identifying a _ | .configuring a _ _
  | .committing a _ _ | .unwinding a _ _ | .unregistering a _ => some (a.sid, .preparing)
  | .exporting f | .storing f _ | .retiring f _ | .releasing f _ | .failing f _ | .recording f _
  | .publishing f _ _ => some (f.sid, .finishing)
  | .closing f _ => some (f.sid, .recorded)
  | .ready | .collecting _ => none

/-- Every claim is on a replica in that stage, and no two threads claim one replica. -/
structure Owned (threads : ℕ → Pc α) (phase : Sid → Phase) : Prop where
  claimed : ∀ t sid stage, claim (threads t) = some (sid, stage) → (phase sid).stage? = some stage
  unique : ∀ t t' sid stage stage', claim (threads t) = some (sid, stage) →
    claim (threads t') = some (sid, stage') → t = t'

section Owned

variable {threads : ℕ → Pc α} {phase : Sid → Phase} {t : ℕ} {pc : Pc α}

theorem Owned.keep (h : Owned threads phase) (hpc : claim pc = claim (threads t)) :
    Owned (Function.update threads t pc) phase := by
  have hc : ∀ t', claim (Function.update threads t pc t') = claim (threads t') := by
    intro t'
    by_cases ht : t' = t
    · subst ht
      rw [Function.update_self, hpc]
    · rw [Function.update_of_ne ht]
  refine ⟨fun t' sid stage ↦ ?_, fun t₁ t₂ sid stage stage' ↦ ?_⟩
  · rw [hc]
    exact h.claimed t' sid stage
  · rw [hc, hc]
    exact h.unique t₁ t₂ sid stage stage'

/-- A thread that holds a replica, or takes one that nobody works on, moves it to phase `p`. -/
theorem Owned.change (h : Owned threads phase) {sid : Sid} {p : Phase}
    (hold : claim (threads t) = none ∧ (phase sid).stage? = none ∨
      ∃ stage, claim (threads t) = some (sid, stage))
    (hnew : claim pc = p.stage?.map (sid, ·)) :
    Owned (Function.update threads t pc) (Function.update phase sid p) := by
  have hother : ∀ t' stage, t' ≠ t → claim (threads t') ≠ some (sid, stage) := by
    intro t' stage ht hc
    rcases hold with ⟨-, hnone⟩ | ⟨stage', hs⟩
    · rw [h.claimed t' sid stage hc] at hnone
      cases hnone
    · exact ht (h.unique t' t sid stage stage' hc hs)
  have hmine : ∀ sid' stage, claim pc = some (sid', stage) → sid' = sid ∧ p.stage? = some stage := by
    intro sid' stage hc
    rw [hnew, Option.map_eq_some_iff] at hc
    obtain ⟨stage', hp, heq⟩ := hc
    cases heq
    exact ⟨rfl, hp⟩
  constructor
  · intro t' sid' stage hc
    by_cases ht : t' = t
    · subst ht
      rw [Function.update_self] at hc
      obtain ⟨rfl, hp⟩ := hmine sid' stage hc
      rw [Function.update_self, hp]
    · rw [Function.update_of_ne ht] at hc
      have hne : sid' ≠ sid := by
        rintro rfl
        exact hother t' stage ht hc
      rw [Function.update_of_ne hne]
      exact h.claimed t' sid' stage hc
  · intro t₁ t₂ sid' stage₁ stage₂ h₁ h₂
    by_cases ht₁ : t₁ = t
    · by_cases ht₂ : t₂ = t
      · exact ht₁.trans ht₂.symm
      · subst ht₁
        rw [Function.update_self] at h₁
        rw [Function.update_of_ne ht₂] at h₂
        obtain ⟨rfl, -⟩ := hmine sid' stage₁ h₁
        exact absurd h₂ (hother t₂ stage₂ ht₂)
    · rw [Function.update_of_ne ht₁] at h₁
      by_cases ht₂ : t₂ = t
      · subst ht₂
        rw [Function.update_self] at h₂
        obtain ⟨rfl, -⟩ := hmine sid' stage₂ h₂
        exact absurd h₁ (hother t₁ stage₁ ht₁)
      · rw [Function.update_of_ne ht₂] at h₂
        exact h.unique t₁ t₂ sid' stage₁ stage₂ h₁ h₂

end Owned

/-! ### The sections of the manager as phase changes -/

section Sections

variable {m : Manager α} {phase : Sid → Phase} {sid : Sid}

theorem refines_fresh (capacity modelCapacity : ℕ) (retires perClientModels : Bool)
    (exclusive : perClientModels = true → retires = false) :
    Refines (.fresh capacity modelCapacity retires perClientModels exclusive : Manager α)
      fun _ ↦ .fresh := by
  constructor <;> intro a <;>
    simp [Manager.fresh, Dict.keys, Dict.empty, Phase.InFinishing, Phase.HasOutcome]

theorem reserve_eq {m' : Manager α} {model : Option Model} {config : Config α}
    (h : m.reserve sid = .ok (m', model, config)) :
    sid ∉ m.attempted ∧ m.configs.get? sid = some config ∧ m.occupied < m.capacity ∧
      model = m.idle.getLast? ∧
      m' = { m with
        attempted := insert sid m.attempted
        preparing := insert sid m.preparing
        idle := m.idle.dropLast } := by
  unfold Manager.reserve at h
  cases hc : m.configs.get? sid with
  | none =>
    rw [hc] at h
    split_ifs at h
  | some c =>
    rw [hc] at h
    split_ifs at h with ha hcap
    cases h
    exact ⟨ha, rfl, not_le.mp hcap, rfl, rfl⟩

theorem Refines.reserve {m' : Manager α} {model : Option Model} {config : Config α}
    (h : Refines m phase) (ha : m.reserve sid = .ok (m', model, config)) :
    phase sid = .fresh ∧ Refines m' (Function.update phase sid .preparing) := by
  obtain ⟨hn, -, -, -, rfl⟩ := reserve_eq ha
  have hp : phase sid = .fresh := by
    by_contra hne
    exact hn ((h.attempted sid).mpr hne)
  refine ⟨hp, h.attempted.enter nofun fun x ↦ Finset.mem_insert,
    h.preparing.enter rfl fun x ↦ Finset.mem_insert, h.live.stay ?_, h.finishing.stay ?_,
    h.completed.stay ?_, h.failed.stay ?_⟩ <;>
    simp [hp, Phase.InFinishing, Phase.HasOutcome]

theorem Refines.unregister (h : Refines m phase) (hp : phase sid = .preparing) (error : String) :
    Refines (m.unregister sid error) (Function.update phase sid (.closed false)) := by
  refine ⟨h.attempted.stay ?_, h.preparing.leave nofun fun x ↦ Finset.mem_erase, h.live.stay ?_,
    h.finishing.stay ?_, h.completed.stay ?_,
    h.failed.enter (.inr rfl) fun x ↦ m.failed.mem_keys_insert⟩ <;>
    simp [hp, Phase.InFinishing, Phase.HasOutcome]

theorem Refines.commit (h : Refines m phase) (hp : phase sid = .preparing) (model : Model)
    (receipt : Receipt) :
    Refines (m.commit sid model receipt) (Function.update phase sid .live) := by
  refine ⟨h.attempted.stay ?_, h.preparing.leave nofun fun x ↦ Finset.mem_erase,
    h.live.enter rfl fun x ↦ m.live.mem_keys_insert, h.finishing.stay ?_, h.completed.stay ?_,
    h.failed.stay ?_⟩ <;>
    simp [hp, Phase.InFinishing, Phase.HasOutcome]

theorem Refines.takeLive (h : Refines m phase) (hp : phase sid = .live) :
    Refines (m.takeLive sid) (Function.update phase sid .finishing) := by
  refine ⟨h.attempted.stay ?_, h.preparing.stay ?_,
    h.live.leave nofun fun x ↦ m.live.mem_keys_erase,
    h.finishing.enter (.inl rfl) fun x ↦ Finset.mem_insert, h.completed.stay ?_, h.failed.stay ?_⟩ <;>
    simp [hp, Phase.HasOutcome]

theorem Refines.recordFailure (h : Refines m phase) (hp : phase sid = .finishing) (reason : String) :
    Refines (m.recordFailure sid reason) (Function.update phase sid (.recorded false)) := by
  refine ⟨h.attempted.stay ?_, h.preparing.stay ?_, h.live.stay ?_, h.finishing.stay ?_,
    h.completed.stay ?_, h.failed.enter (.inl rfl) fun x ↦ m.failed.mem_keys_insert⟩ <;>
    simp [hp, Phase.InFinishing, Phase.HasOutcome]

theorem Refines.complete (h : Refines m phase) (hp : phase sid = .finishing) (v : α) :
    Refines { m with completed := m.completed.insert sid v }
      (Function.update phase sid (.recorded true)) := by
  refine ⟨h.attempted.stay ?_, h.preparing.stay ?_, h.live.stay ?_, h.finishing.stay ?_,
    h.completed.enter (.inl rfl) fun x ↦ m.completed.mem_keys_insert, h.failed.stay ?_⟩ <;>
    simp [hp, Phase.InFinishing, Phase.HasOutcome]

theorem Refines.publish (h : Refines m phase) (hp : phase sid = .finishing) (model : Model)
    (stored : Option α) (reason : String) (idle : Bool) :
    Refines (m.publish sid model stored reason idle)
      (Function.update phase sid (.recorded stored.isSome)) := by
  cases stored with
  | none =>
    have h' := h.recordFailure hp reason
    exact ⟨h'.attempted, h'.preparing, h'.live, h'.finishing, h'.completed, h'.failed⟩
  | some v =>
    have h' := h.complete hp v
    exact ⟨h'.attempted, h'.preparing, h'.live, h'.finishing, h'.completed, h'.failed⟩

theorem Refines.closeFinish (h : Refines m phase) {success : Bool} (hp : phase sid = .recorded success) :
    Refines (m.closeFinish sid) (Function.update phase sid (.closed success)) := by
  refine ⟨h.attempted.stay ?_, h.preparing.stay ?_, h.live.stay ?_,
    h.finishing.leave ?_ fun x ↦ Finset.mem_erase, h.completed.stay ?_, h.failed.stay ?_⟩ <;>
    simp [hp, Phase.InFinishing, Phase.HasOutcome]

theorem refines_clear (hq : m.Quiet) : Refines m.clear fun _ ↦ .fresh := by
  constructor <;> intro a <;>
    simp [Manager.clear, Dict.keys, Dict.empty, Phase.InFinishing, Phase.HasOutcome, hq.1, hq.2]

theorem Refines.configure (h : Refines m phase) (configs : List (Config α)) :
    Refines (m.configure configs).1 phase := by
  unfold Manager.configure
  dsimp only
  split_ifs <;> exact ⟨h.attempted, h.preparing, h.live, h.finishing, h.completed, h.failed⟩

end Sections

/-! ### Every interleaving -/

theorem claim_enter (f : Finish α) : claim f.enter = some (f.sid, .finishing) := by
  unfold Finish.enter
  split_ifs <;> rfl

theorem claim_returnTo (rest : Option (List Sid)) : claim (returnTo rest : Pc α) = none := by
  cases rest <;> rfl

theorem claim_next (f : Finish α) (raised : Bool) : claim (f.next raised) = none := by
  unfold Finish.next
  split_ifs
  · rfl
  · exact claim_returnTo f.rest

theorem claim_of_callsFinish {pc : Pc α} {sid : Sid} {rest : Option (List Sid)}
    (h : CallsFinish pc sid rest) : claim pc = none := by
  rcases h with ⟨rfl, -⟩ | ⟨tail, -, rfl⟩ <;> rfl

theorem claim_of_local {finite : α → Bool} {retires : Bool} {pc pc' : Pc α} {events : List (Event α)}
    (h : LocalStep finite retires pc pc' events) : claim pc' = claim pc := by
  cases h with
  | stored f v => cases retires <;> rfl
  | _ => rfl

theorem not_mem_keys_of_fibre {phase : Sid → Phase} {υ : Type} {d : Dict Sid υ} {P : Phase → Prop}
    (h : Fibre (· ∈ d.keys) phase P) {sid : Sid} (hp : ¬ P (phase sid)) : d.get? sid = none :=
  d.get?_eq_none_iff.mpr fun hm ↦ hp ((h sid).mp hm)

/-- A phase for each sid that accounts for the manager and for every thread. -/
structure Inv (w : World α) (phase : Sid → Phase) : Prop where
  refines : Refines w.manager phase
  owned : Owned w.threads phase
  configured : ∀ sid ∈ w.manager.attempted, ∃ config, w.manager.configs.get? sid = some config
  bounded : w.manager.occupied ≤ w.manager.capacity

section Step

variable {w w' : World α} {phase : Sid → Phase} {finite : α → Bool}

theorem Inv.phase_of_claim (h : Inv w phase) {t : ℕ} {sid : Sid} {stage : Stage}
    (hc : claim (w.threads t) = some (sid, stage)) : (phase sid).stage? = some stage :=
  h.owned.claimed t sid stage hc

theorem phase_eq_preparing {p : Phase} (h : p.stage? = some .preparing) : p = .preparing := by
  cases p <;> simp [Phase.stage?] at h ⊢

theorem phase_eq_finishing {p : Phase} (h : p.stage? = some .finishing) : p = .finishing := by
  cases p <;> simp [Phase.stage?] at h ⊢

theorem phase_eq_recorded {p : Phase} (h : p.stage? = some .recorded) :
    ∃ success, p = .recorded success := by
  cases p <;> simp [Phase.stage?] at h ⊢

theorem Inv.phase_of_live (h : Inv w phase) {sid : Sid} {model : Model}
    (hl : w.manager.live.get? sid = some model) : phase sid = .live :=
  (h.refines.live sid).mp (w.manager.live.mem_keys_iff.mpr ⟨model, hl⟩)

/-- A replica in `live` is configured, so `finish` finds its configuration. -/
theorem Inv.config_of_live (h : Inv w phase) {sid : Sid} {model : Model}
    (hl : w.manager.live.get? sid = some model) : w.manager.configs.get? sid ≠ none := by
  have hp := h.phase_of_live hl
  obtain ⟨config, hc⟩ := h.configured sid ((h.refines.attempted sid).mpr (by rw [hp]; nofun))
  rw [hc]
  exact Option.some_ne_none config

theorem occupied_commit {m : Manager α} {sid : Sid} (hp : sid ∈ m.preparing)
    (hl : m.live.get? sid = none) (model : Model) (receipt : Receipt) :
    (m.commit sid model receipt).occupied = m.occupied := by
  have hlive := m.live.size_insert hl model
  have hprep := Finset.card_erase_add_one hp
  simp only [Manager.occupied, Manager.commit]
  omega

theorem occupied_takeLive {m : Manager α} {sid : Sid} {model : Model}
    (hl : m.live.get? sid = some model) : (m.takeLive sid).occupied ≤ m.occupied := by
  have hlive := m.live.size_erase hl
  have hfin := Finset.card_insert_le sid m.finishing
  simp only [Manager.occupied, Manager.takeLive]
  omega

theorem no_claim_of_quiet (h : Inv w phase) (hq : w.manager.Quiet) (t : ℕ) :
    claim (w.threads t) = none := by
  cases hc : claim (w.threads t) with
  | none => rfl
  | some c =>
    obtain ⟨sid, stage⟩ := c
    have hs := h.phase_of_claim hc
    cases stage with
    | preparing =>
      have hm := (h.refines.preparing sid).mpr (phase_eq_preparing hs)
      simp [hq.1] at hm
    | finishing =>
      have hm := (h.refines.finishing sid).mpr (.inl (phase_eq_finishing hs))
      simp [hq.2] at hm
    | recorded =>
      have hm := (h.refines.finishing sid).mpr (.inr (phase_eq_recorded hs))
      simp [hq.2] at hm

theorem owned_of_no_claim {threads : ℕ → Pc α} (h : ∀ t, claim (threads t) = none) (phase : Sid → Phase) :
    Owned threads phase := by
  refine ⟨fun t sid stage hc ↦ ?_, fun t t' sid stage stage' hc ↦ ?_⟩
  · rw [h t] at hc
    cases hc
  · rw [h t] at hc
    cases hc

/-- Clearing a quiet manager starts every life afresh. -/
theorem Inv.clear (h : Inv w phase) (hq : w.manager.Quiet) {t : ℕ} (hpc : w.threads t = .ready) :
    Refines w.manager.clear (fun _ ↦ .fresh) ∧
      Owned (Function.update w.threads t .ready) (fun _ ↦ .fresh) := by
  refine ⟨refines_clear hq, owned_of_no_claim (fun t' ↦ ?_) _⟩
  rw [← hpc, Function.update_eq_self]
  exact no_claim_of_quiet h hq t'

theorem occupied_clear {m : Manager α} (hq : m.Quiet) : m.clear.occupied = 0 := by
  simp [Manager.occupied, Manager.clear, Dict.size, Dict.empty, hq.1, hq.2]

theorem configure_frame (m : Manager α) (configs : List (Config α)) :
    (m.configure configs).1.occupied = m.occupied ∧ (m.configure configs).1.attempted = m.attempted ∧
      (m.configure configs).1.completed = m.completed := by
  unfold Manager.configure
  dsimp only
  split_ifs <;> exact ⟨rfl, rfl, rfl⟩

theorem Inv.step (h : Inv w phase) (hs : Step finite w w') : ∃ phase', Inv w' phase' := by
  cases hs with
  | «local» t pc events hl =>
    exact ⟨phase, h.refines, h.owned.keep (claim_of_local hl), h.configured, h.bounded⟩
  | refuse | getServerModel | endRoundRefused => exact ⟨phase, h⟩
  | reserve t sid m model config hpc ha =>
    obtain ⟨hfresh, hr⟩ := h.refines.reserve ha
    obtain ⟨hn, hc, hlt, -, rfl⟩ := reserve_eq ha
    refine ⟨_, hr, h.owned.change (.inl ⟨by rw [hpc]; rfl, by rw [hfresh]; rfl⟩) ?_, ?_, ?_⟩
    · cases model <;> rfl
    · intro sid' hm
      rcases Finset.mem_insert.mp hm with rfl | hm
      · exact ⟨config, hc⟩
      · exact h.configured sid' hm
    · have hcard := Finset.card_insert_le sid w.manager.preparing
      simp only [Manager.occupied, World.move] at hlt ⊢
      omega
  | build t a hpc => exact ⟨phase, h.refines, h.owned.keep (by rw [hpc]; rfl), h.configured, h.bounded⟩
  | number t a model hpc =>
    exact ⟨phase, ⟨h.refines.attempted, h.refines.preparing, h.refines.live, h.refines.finishing,
      h.refines.completed, h.refines.failed⟩, h.owned.keep (by rw [hpc]; rfl), h.configured, h.bounded⟩
  | notePeak t a model instanceId hpc =>
    exact ⟨phase, ⟨h.refines.attempted, h.refines.preparing, h.refines.live, h.refines.finishing,
      h.refines.completed, h.refines.failed⟩, h.owned.keep (by rw [hpc]; rfl), h.configured, h.bounded⟩
  | identify t a model hpc =>
    refine ⟨phase, h.refines, h.owned.keep ?_, h.configured, h.bounded⟩
    rw [hpc]
    cases w.instanceIds model <;> rfl
  | unregister t a error hpc =>
    have hcl : claim (w.threads t) = some (a.sid, .preparing) := by rw [hpc]; rfl
    have hp := phase_eq_preparing (h.phase_of_claim hcl)
    refine ⟨_, h.refines.unregister hp error, h.owned.change (.inr ⟨_, hcl⟩) rfl, h.configured, ?_⟩
    have hcard := @Finset.card_erase_le _ w.manager.preparing a.sid _
    have hb := h.bounded
    simp only [Manager.occupied, World.move, Manager.unregister] at hb ⊢
    omega
  | commit t a model receipt hpc =>
    have hcl : claim (w.threads t) = some (a.sid, .preparing) := by rw [hpc]; rfl
    have hp := phase_eq_preparing (h.phase_of_claim hcl)
    have hl := @not_mem_keys_of_fibre _ _ _ _ h.refines.live a.sid (by rw [hp]; nofun)
    refine ⟨_, h.refines.commit hp model receipt, h.owned.change (.inr ⟨_, hcl⟩) rfl, h.configured, ?_⟩
    exact (occupied_commit ((h.refines.preparing a.sid).mpr hp) hl model receipt).trans_le h.bounded
  | finishAbsent t sid rest hpc hl =>
    refine ⟨phase, h.refines, h.owned.keep ?_, h.configured, h.bounded⟩
    rw [claim_returnTo, claim_of_callsFinish hpc]
  | finishUnconfigured t sid model rest hpc hl hc => exact absurd hc (h.config_of_live hl)
  | finish t f config hpc hcollect hl hc hi =>
    have hp := h.phase_of_live hl
    exact ⟨_, h.refines.takeLive hp,
      h.owned.change (.inl ⟨claim_of_callsFinish hpc, by rw [hp]; rfl⟩) (claim_enter f),
      h.configured, (occupied_takeLive hl).trans h.bounded⟩
  | record t f error hpc =>
    have hcl : claim (w.threads t) = some (f.sid, .finishing) := by rw [hpc]; rfl
    have hp := phase_eq_finishing (h.phase_of_claim hcl)
    exact ⟨_, h.refines.recordFailure hp error, h.owned.change (.inr ⟨_, hcl⟩) rfl, h.configured,
      h.bounded⟩
  | publish t f stored idle hpc =>
    have hcl : claim (w.threads t) = some (f.sid, .finishing) := by rw [hpc]; rfl
    have hp := phase_eq_finishing (h.phase_of_claim hcl)
    refine ⟨_, h.refines.publish hp f.model stored f.reason idle, h.owned.change (.inr ⟨_, hcl⟩) rfl, ?_, ?_⟩
    · cases stored <;> exact h.configured
    · cases stored <;> exact h.bounded
  | close t f raised hpc =>
    have hcl : claim (w.threads t) = some (f.sid, .recorded) := by rw [hpc]; rfl
    obtain ⟨success, hp⟩ := phase_eq_recorded (h.phase_of_claim hcl)
    refine ⟨_, h.refines.closeFinish hp, h.owned.change (.inr ⟨_, hcl⟩) (claim_next f raised),
      h.configured, ?_⟩
    have hcard := @Finset.card_erase_le _ w.manager.finishing f.sid _
    have hb := h.bounded
    simp only [Manager.occupied, World.move, Manager.closeFinish] at hb ⊢
    omega
  | collect t hpc => exact ⟨phase, h.refines, h.owned.keep (by rw [hpc]; rfl), h.configured, h.bounded⟩
  | report t hpc => exact ⟨phase, h.refines, h.owned.keep (by rw [hpc]; rfl), h.configured, h.bounded⟩
  | endRound t hpc hq =>
    obtain ⟨hr, ho⟩ := h.clear hq hpc
    refine ⟨_, hr, ho, fun sid hm ↦ absurd hm (Finset.notMem_empty sid), ?_⟩
    exact (occupied_clear hq).trans_le (Nat.zero_le _)
  | endRoundRaises t before after model hpc hq hm =>
    exact ⟨phase, h.refines, h.owned.keep (by rw [hpc]), h.configured, h.bounded⟩
  | initializeServerModels t configs hpc hq =>
    obtain ⟨hr, ho⟩ := h.clear hq hpc
    obtain ⟨hocc, hatt, -⟩ := configure_frame w.manager.clear configs
    refine ⟨_, hr.configure configs, ho, fun sid hm ↦ ?_, ?_⟩
    · have hm' : sid ∈ w.manager.clear.attempted := by
        rw [← hatt]
        exact hm
      exact absurd hm' (Finset.notMem_empty sid)
    · exact (hocc.trans (occupied_clear hq)).trans_le (Nat.zero_le _)

end Step

theorem inv_start (capacity modelCapacity : ℕ) (retires perClientModels : Bool)
    (exclusive : perClientModels = true → retires = false) :
    Inv (.start (.fresh capacity modelCapacity retires perClientModels exclusive) : World α)
      fun _ ↦ .fresh := by
  refine ⟨refines_fresh .., owned_of_no_claim (fun _ ↦ rfl) _, fun sid hm ↦ ?_, ?_⟩
  · exact absurd hm (Finset.notMem_empty sid)
  · simp [World.start, Manager.fresh, Manager.occupied, Dict.size, Dict.empty]

theorem inv_of_reachable {finite : α → Bool} {w : World α} (h : Reachable finite w) :
    ∃ phase, Inv w phase := by
  obtain ⟨capacity, modelCapacity, retires, perClientModels, exclusive, hrun⟩ := h
  induction hrun with
  | refl => exact ⟨_, inv_start capacity modelCapacity retires perClientModels exclusive⟩
  | tail _ hs ih =>
    obtain ⟨phase, hi⟩ := ih
    exact hi.step hs

end SplitFleet.ReplicaPhases
