import SplitFleet.ClientRuntime

set_option autoImplicit false

namespace SplitFleet.SplitClient

open Lib

variable (env : Env)

/-! ### The bound -/

/-- No more runtimes are kept than allowed. -/
def Bounded (c : Client) : Prop := ∀ n ∈ c.maxCachedRuntimes, c.runtimeCache.size ≤ n

/-- The runtime is cut at the split id and has the graph signature, where they are named. -/
def CutAt (names : String × String) (handle : Handle) : Prop :=
  (names.1 = "" ∨ handle.plan.splitId = names.1) ∧ (names.2 = "" ∨ handle.plan.graphSignature = names.2)

/-- The round adopts the prewarmed runtime at its own cut while the cache is full and holds more than one. -/
def Overflows (c : Client) : Call → Prop
  | .prepareRound w config training => ∃ schema d r handle runtime n, (openRound env w config).run c = .ok schema d ∧
      requestOf env.builtins config = .ok r ∧ c.runtimeCache.get? (cacheKey env schema training r) = none ∧
      c.prewarmed = some handle ∧ canRepartition r handle = .ok true ∧
      handle.plan.boundary = textOf env.builtins config "autosplit_boundary" "50%" ∧
      accept env config r handle = .ok runtime ∧ c.maxCachedRuntimes = some n ∧ 1 < n ∧ n ≤ c.runtimeCache.size
  | _ => False

/-- What a call may do to the cache without adding to it. -/
structure Shrinks (c d : Client) : Prop where
  maxCachedRuntimes : d.maxCachedRuntimes = c.maxCachedRuntimes
  runtimeCache : d.runtimeCache = c.runtimeCache ∨ d.runtimeCache = .empty

variable {env} {c d : Client} {w : Answers} {config : Config} {r : Request}

theorem Shrinks.refl (c : Client) : Shrinks c c := ⟨rfl, .inl rfl⟩

theorem Shrinks.trans {e : Client} (h : Shrinks c d) (h' : Shrinks d e) : Shrinks c e := by
  refine ⟨h'.maxCachedRuntimes.trans h.maxCachedRuntimes, ?_⟩
  obtain h' | h' := h'.runtimeCache
  · rw [h']
    exact h.runtimeCache
  · exact .inr h'

theorem Shrinks.bounded (h : Shrinks c d) (hc : Bounded c) : Bounded d := by
  unfold Bounded
  rw [h.maxCachedRuntimes]
  obtain h | h := h.runtimeCache
  · rw [h]
    exact hc
  · rw [h]
    exact fun n _ ↦ Nat.zero_le n

theorem not_full_clearRuntimes (hpos : ∀ n ∈ c.maxCachedRuntimes, 1 ≤ n) : ¬c.clearRuntimes.full := by
  rintro ⟨n, hn, hle⟩
  exact absurd (hpos n hn) (not_le.mpr (Nat.lt_succ_of_le hle))

theorem shrinks_clear (c : Client) : Shrinks c c.dropPrewarmed.clearRuntimes := ⟨rfl, .inr rfl⟩

theorem triple_prepareAnew : Method.Triple (Shrinks c) (prepareAnew w)
    (fun _ d ↦ Shrinks c d ∧ ((∀ n ∈ c.maxCachedRuntimes, 1 ≤ n) → ¬d.full)) (Shrinks c) := by
  refine .modify_bind (I := Shrinks c) (fun s hs ↦ ⟨hs.maxCachedRuntimes, hs.runtimeCache⟩) ?_
  refine .modify_bind (I := fun d ↦ Shrinks c d ∧ ((∀ n ∈ c.maxCachedRuntimes, 1 ≤ n) → ¬d.full)) (fun s hs ↦ ?_) ?_
  · split
    · exact ⟨⟨hs.maxCachedRuntimes, .inr rfl⟩, fun hpos ↦ not_full_clearRuntimes (hs.maxCachedRuntimes ▸ hpos)⟩
    · next hfull => exact ⟨hs, fun _ ↦ hfull⟩
  · exact .lift (fun s _ hs _ ↦ hs) fun s hs ↦ hs.1

/-- The prewarmed runtime is taken as it is, and the cache is full and holds more than one. -/
def Adopts (c : Client) (r : Request) (boundary : String) (handle : Handle) : Prop :=
  c.prewarmed = some handle ∧ canRepartition r handle = .ok true ∧ handle.plan.boundary = boundary ∧
    ∃ n, c.maxCachedRuntimes = some n ∧ 1 < n ∧ n ≤ c.runtimeCache.size

theorem triple_obtain {boundary : String} : Method.Triple (· = c) (obtain w r boundary)
    (fun handle d ↦ Shrinks c d ∧ ((∀ n ∈ c.maxCachedRuntimes, 1 ≤ n) → d.full → Adopts c r boundary handle))
    (Shrinks c) := by
  have hanew : Method.Triple (fun s ↦ s = c ∧ s = c) (prepareAnew w)
      (fun handle d ↦ Shrinks c d ∧ ((∀ n ∈ c.maxCachedRuntimes, 1 ≤ n) → d.full → Adopts c r boundary handle))
      (Shrinks c) := by
    refine triple_prepareAnew.mono ?_ ?_ fun _ h ↦ h
    · rintro s ⟨rfl, -⟩
      exact .refl s
    · exact fun handle d h ↦ ⟨h.1, fun hpos hfull ↦ absurd hfull (h.2 hpos)⟩
  have hsame : ∀ s, s = c ∧ s = c → Shrinks c s := by
    rintro s ⟨rfl, -⟩
    exact .refl s
  refine .get_bind fun s₀ hs₀ ↦ ?_
  subst hs₀
  cases hreusable : s₀.reusable with
  | none => exact hanew
  | some previous =>
    refine .lift_bind (fun again hagain ↦ ?_) hsame
    cases again with
    | false => exact hanew
    | true =>
      refine .ite (fun _ ↦ .ite (fun hboundary ↦ ?_) fun _ ↦ ?_) fun h ↦ absurd rfl h
      · refine .modify_bind (I := fun d ↦ d = s₀.dropPrewarmed) ?_ ?_
        · rintro s ⟨rfl, -⟩
          rfl
        refine .modify_bind (I := fun d ↦ Shrinks s₀ d ∧
          ((∀ n ∈ s₀.maxCachedRuntimes, 1 ≤ n) → d.full → Adopts s₀ r boundary previous)) ?_ ?_
        · rintro s rfl
          split
          · exact ⟨⟨rfl, .inr rfl⟩, fun hpos hfull ↦ absurd hfull (not_full_clearRuntimes hpos)⟩
          · next hone =>
            refine ⟨⟨rfl, .inl rfl⟩, ?_⟩
            rintro hpos ⟨n, hn, hle⟩
            refine ⟨?_, hagain, hboundary, n, hn, ?_, hle⟩
            · unfold Client.reusable at hreusable
              split at hreusable
              · next handle hprewarmed => exact hprewarmed.trans hreusable
              · rw [if_neg (show ¬s₀.maxCachedRuntimes = some 1 from hone)] at hreusable
                cases hreusable
            · have := hpos n hn
              have : n ≠ 1 := by
                rintro rfl
                exact hone hn
              omega
        · exact .pure fun s hs ↦ hs
      · refine .lift_bind (fun handle _ ↦ ?_) hsame
        refine .modify_bind (I := fun d ↦ Shrinks s₀ d ∧ ((∀ n ∈ s₀.maxCachedRuntimes, 1 ≤ n) → ¬d.full)) ?_ ?_
        · rintro s ⟨rfl, -⟩
          exact ⟨shrinks_clear s, fun hpos ↦ not_full_clearRuntimes hpos⟩
        · exact .pure fun s hs ↦ ⟨hs.1, fun hpos hfull ↦ absurd hfull (hs.2 hpos)⟩

/-- What a round gets, and what it leaves in the cache under its key. -/
inductive Ensured (env : Env) (c : Client) (config : Config) (key : String) (r : Request) (runtime : RoundRuntime) :
    Client → Prop
  | cached : c.runtimeCache.get? key = some runtime → checkContract env config runtime.handle = .ok () →
      Ensured env c config key r runtime c
  | added {d : Client} : c.runtimeCache.get? key = none → Shrinks c d → accept env config r runtime.handle = .ok runtime →
      ((∀ n ∈ c.maxCachedRuntimes, 1 ≤ n) → d.full →
        Adopts c r (textOf env.builtins config "autosplit_boundary" "50%") runtime.handle) →
      Ensured env c config key r runtime { d with runtimeCache := d.runtimeCache.insert key runtime }

theorem handle_of_accept {handle : Handle} {runtime : RoundRuntime} (h : accept env config r handle = .ok runtime) :
    runtime.handle = handle := by
  obtain ⟨-, -, h⟩ := bind_eq_ok h
  obtain ⟨-, -, h⟩ := bind_eq_ok h
  obtain ⟨contract, -, h⟩ := bind_eq_ok h
  obtain ⟨-, -, h⟩ := bind_eq_ok h
  obtain ⟨-, -, h⟩ := bind_eq_ok h
  obtain ⟨window, -, h⟩ := bind_eq_ok h
  cases h
  rfl

theorem triple_ensureRoundRuntime {schema : String} {training : Bool} : Method.Triple (· = c)
    (ensureRoundRuntime env w config schema training)
    (fun runtime d ↦ ∃ r, requestOf env.builtins config = .ok r ∧
      Ensured env c config (cacheKey env schema training r) r runtime d) (Shrinks c) := by
  have hrefl : ∀ s, s = c → Shrinks c s := by
    rintro s rfl
    exact .refl s
  refine .lift_bind (fun r hr ↦ ?_) hrefl
  refine .get_bind fun s₀ hs₀ ↦ ?_
  subst hs₀
  cases hcached : s₀.runtimeCache.get? (cacheKey env schema training r) with
  | some cached =>
    refine .lift_bind (fun _ hcontract ↦ .lift_bind (fun _ _ ↦ .pure fun s hs ↦ ?_) ?_) ?_
    · obtain ⟨rfl, -⟩ := hs
      exact ⟨r, hr, .cached hcached hcontract⟩
    · exact fun s hs ↦ hrefl s hs.1
    · exact fun s hs ↦ hrefl s hs.1
  | none =>
    refine .bind (triple_obtain.mono (fun s hs ↦ hs.1) (fun _ _ h ↦ h) fun _ h ↦ h) fun handle ↦ ?_
    refine .lift_bind (fun runtime hruntime ↦ ?_) fun s hs ↦ hs.1
    obtain rfl := handle_of_accept hruntime
    refine .modify_bind (I := fun d ↦ ∃ r, requestOf env.builtins config = .ok r ∧
      Ensured env s₀ config (cacheKey env schema training r) r runtime d) (fun s hs ↦ ?_) (.pure fun s hs ↦ hs)
    exact ⟨r, hr, .added hcached hs.1 hruntime hs.2⟩

/-- What a round leaves alone until it has its runtime. -/
structure SameRuntimes (c d : Client) : Prop where
  maxCachedRuntimes : d.maxCachedRuntimes = c.maxCachedRuntimes
  runtimeCache : d.runtimeCache = c.runtimeCache
  prewarmed : d.prewarmed = c.prewarmed

theorem SameRuntimes.shrinks (h : SameRuntimes c d) : Shrinks c d := ⟨h.maxCachedRuntimes, .inl h.runtimeCache⟩

theorem triple_openRound : Method.Triple (· = c) (openRound env w config) (fun _ ↦ SameRuntimes c) (SameRuntimes c) := by
  have hrefl : ∀ s, s = c → SameRuntimes c s := by
    rintro s rfl
    exact ⟨rfl, rfl, rfl⟩
  refine .lift_bind (fun _ _ ↦ .lift_bind (fun _ _ ↦ .get_bind fun s₀ _ ↦ ?_) hrefl) hrefl
  refine .lift_bind (fun previous _ ↦ .lift_bind (fun current _ ↦ ?_) fun s hs ↦ hrefl s hs.1) fun s hs ↦ hrefl s hs.1
  refine .modify_bind (I := SameRuntimes c) (fun s hs ↦ ?_) (.modify_bind (I := SameRuntimes c) (fun s hs ↦ ?_) ?_)
  · obtain ⟨rfl, -⟩ := hs
    split
    · exact ⟨rfl, rfl, rfl⟩
    · exact ⟨rfl, rfl, rfl⟩
  · exact ⟨hs.maxCachedRuntimes, hs.runtimeCache, hs.prewarmed⟩
  · exact .lift_bind (fun schema _ ↦ .lift_bind (fun _ _ ↦ .pure fun s hs ↦ hs) fun s hs ↦ hs) fun s hs ↦ hs

theorem triple_prewarmRuntime : Method.Triple (Shrinks c) (prewarmRuntime w) (fun _ ↦ Shrinks c) (Shrinks c) := by
  refine .lift_bind (fun prepared _ ↦ .lift_bind (fun handle _ ↦ ?_) fun s hs ↦ hs) fun s hs ↦ hs
  exact .of_modify fun s hs ↦ ⟨hs.maxCachedRuntimes, hs.runtimeCache⟩

theorem triple_renewRuntime {reuse : Bool} :
    Method.Triple (Shrinks c) (renewRuntime w reuse) (fun _ ↦ Shrinks c) (Shrinks c) := by
  refine .ite (fun _ ↦ .pure fun s hs ↦ hs) fun _ ↦ ?_
  refine .modify_bind (fun s hs ↦ hs.trans (shrinks_clear s)) (.bind triple_prewarmRuntime fun _ ↦ ?_)
  exact .of_modify fun s hs ↦ ⟨hs.maxCachedRuntimes, hs.runtimeCache⟩

theorem triple_renewReceipt {boundaries : List String} :
    Method.Triple (Shrinks c) (renewReceipt w boundaries) (fun _ ↦ Shrinks c) (Shrinks c) := by
  refine .get_bind fun s₀ _ ↦ .ite (fun _ ↦ .require_bind (fun _ ↦ ?_) ?_) fun _ ↦ .pure fun s hs ↦ hs.1
  · refine .get_bind fun s₁ _ ↦ .require_bind (fun _ ↦ .lift_bind (fun receipt _ ↦ ?_) ?_) ?_
    · exact .of_modify fun s hs ↦ ⟨hs.1.1.maxCachedRuntimes, hs.1.1.runtimeCache⟩
    · exact fun s hs ↦ hs.1.1
    · exact fun s hs ↦ hs.1.1
  · exact fun s hs ↦ hs.1

theorem triple_calibrate {cuts : Scalar} :
    Method.Triple (Shrinks c) (calibrate env w config cuts) (fun _ ↦ Shrinks c) (Shrinks c) := by
  refine .ite (fun _ ↦ .pure fun s hs ↦ hs) fun _ ↦ .lift_bind (fun _ _ ↦ ?_) fun s hs ↦ hs
  refine .lift_bind (fun window _ ↦ .get_bind fun s₀ _ ↦ .lift_bind (fun reuse _ ↦ ?_) fun s hs ↦ hs.1) fun s hs ↦ hs
  refine .bind (R := fun _ ↦ Shrinks c) (triple_renewRuntime.mono (fun s hs ↦ hs.1) (fun _ _ h ↦ h) fun _ h ↦ h)
    fun _ ↦ ?_
  exact .lift_bind (fun boundaries _ ↦ .bind triple_renewReceipt fun _ ↦ .pure fun s hs ↦ hs) fun s hs ↦ hs

/-- Asking for properties adds no runtime. -/
theorem triple_getProperties :
    Method.Triple (Shrinks c) (getProperties env w config) (fun _ ↦ Shrinks c) (Shrinks c) := by
  refine .ite (fun _ ↦ .lift (fun s _ hs _ ↦ hs) fun s hs ↦ hs) fun _ ↦ ?_
  cases config.get? "splitfleet_probe_payload" with
  | some payload => exact .lift (fun s _ hs _ ↦ hs) fun s hs ↦ hs
  | none =>
    have hasked : Method.Triple (Shrinks c) (calibrateIfAsked env w config) (fun _ ↦ Shrinks c) (Shrinks c) := by
      unfold calibrateIfAsked
      cases config.get? "splitfleet_calibration_boundaries" with
      | none => exact .pure fun s hs ↦ hs
      | some cuts => exact .ite (fun _ ↦ triple_calibrate) fun _ ↦ .pure fun s hs ↦ hs
    refine .bind hasked fun described ↦ .ite (fun _ ↦ ?_) fun _ ↦ .pure fun s hs ↦ hs
    exact .lift (fun s _ hs _ ↦ hs) fun s hs ↦ hs

/-- What a round does: it is opened, and gets its runtime. -/
def Prepared (env : Env) (c : Client) (w : Answers) (config : Config) (training : Bool) (runtime : RoundRuntime)
    (d : Client) : Prop :=
  ∃ schema e r, w.stateSchema = .ok schema ∧ (openRound env w config).run c = .ok schema e ∧ SameRuntimes c e ∧
    requestOf env.builtins config = .ok r ∧ Ensured env e config (cacheKey env schema training r) r runtime d

theorem stateSchema_of_openRound {schema : String} (h : (openRound env w config).run c = .ok schema d) :
    w.stateSchema = .ok schema := by
  obtain ⟨_, -, h⟩ := Method.lift_bind_eq_ok h
  obtain ⟨_, -, h⟩ := Method.lift_bind_eq_ok h
  rw [Method.get_bind_run] at h
  obtain ⟨previous, -, h⟩ := Method.lift_bind_eq_ok h
  obtain ⟨current, -, h⟩ := Method.lift_bind_eq_ok h
  rw [Method.modify_bind_run, Method.modify_bind_run] at h
  obtain ⟨schema', hschema, h⟩ := Method.lift_bind_eq_ok h
  obtain ⟨_, -, h⟩ := Method.lift_bind_eq_ok h
  cases h
  exact hschema

theorem prepared_of_run {training : Bool} {runtime : RoundRuntime}
    (h : (prepareRound env w config training).run c = .ok runtime d) : Prepared env c w config training runtime d := by
  obtain ⟨schema, e, hopen, h⟩ := Method.bind_eq_ok h
  obtain ⟨r, hr, hensured⟩ := (triple_ensureRoundRuntime e rfl).1 runtime d h
  exact ⟨schema, e, r, stateSchema_of_openRound hopen, hopen, (triple_openRound c rfl).1 schema e hopen, hr, hensured⟩

theorem shrinks_of_error {training : Bool} {e : PyError}
    (h : (prepareRound env w config training).run c = .error e d) : Shrinks c d := by
  have htriple : Method.Triple (· = c) (prepareRound env w config training) (fun _ _ ↦ True) (Shrinks c) := by
    refine .bind (triple_openRound.mono (fun _ h ↦ h) (fun _ _ h ↦ h) fun _ h ↦ h.shrinks) fun schema ↦ ?_
    intro s hs
    refine ⟨fun _ _ _ ↦ trivial, fun e t ht ↦ ?_⟩
    exact hs.shrinks.trans ((triple_ensureRoundRuntime s rfl).2 e t ht)
  exact (htriple c rfl).2 e d h

theorem run_ensureRoundRuntime_adopts {schema : String} {training : Bool} {handle : Handle} {runtime : RoundRuntime}
    (hr : requestOf env.builtins config = .ok r)
    (hkey : c.runtimeCache.get? (cacheKey env schema training r) = none) (hprewarmed : c.prewarmed = some handle)
    (hagain : canRepartition r handle = .ok true)
    (hboundary : handle.plan.boundary = textOf env.builtins config "autosplit_boundary" "50%")
    (haccept : accept env config r handle = .ok runtime) (hmax : c.maxCachedRuntimes ≠ some 1) :
    (ensureRoundRuntime env w config schema training).run c = .ok runtime
      { c.dropPrewarmed with runtimeCache := c.runtimeCache.insert (cacheKey env schema training r) runtime } := by
  have hreusable : c.reusable = some handle := by
    unfold Client.reusable
    rw [hprewarmed]
  have hobtain : (obtain w r (textOf env.builtins config "autosplit_boundary" "50%")).run c =
      .ok handle c.dropPrewarmed := by
    unfold obtain
    rw [Method.get_bind_run, hreusable]
    dsimp only
    rw [hagain, Method.ok_bind_run, if_pos rfl, if_pos hboundary, Method.modify_bind_run, Method.modify_bind_run,
      if_neg (show ¬c.dropPrewarmed.maxCachedRuntimes = some 1 from hmax)]
    rfl
  unfold ensureRoundRuntime
  rw [hr, Method.ok_bind_run]
  dsimp only
  rw [Method.get_bind_run, hkey]
  dsimp only
  rw [Method.run_bind_of_ok hobtain, haccept, Method.ok_bind_run, Method.modify_bind_run]
  rfl

theorem Bounded.insert {key : String} {runtime : RoundRuntime} (hkey : d.runtimeCache.get? key = none)
    (hfull : ¬d.full) : Bounded { d with runtimeCache := d.runtimeCache.insert key runtime } := by
  intro n hn
  have hle : d.runtimeCache.size < n := not_le.mp fun h ↦ hfull ⟨n, hn, h⟩
  exact (d.runtimeCache.size_insert hkey runtime).le.trans hle

theorem Shrinks.get?_eq_none {key : String} (h : Shrinks c d) (hkey : c.runtimeCache.get? key = none) :
    d.runtimeCache.get? key = none := by
  obtain h | h := h.runtimeCache
  · rwa [h]
  · rw [h]
    rfl

theorem after_prepareRound (w : Answers) (config : Config) (training : Bool) :
    (perform env (.prepareRound w config training)).after c = (prepareRound env w config training).after c :=
  Method.after_bind_pure _ _ c

theorem not_bounded_of_overflows {call : Call} (h : Overflows env c call) : ¬Bounded ((perform env call).after c) := by
  cases call with
  | prewarmRuntime w => exact h.elim
  | getProperties w config => exact h.elim
  | prepareRound w config training =>
    obtain ⟨schema, d, r, handle, runtime, n, hopen, hr, hkey, hprewarmed, hagain, hboundary, haccept, hn, hone, hle⟩ := h
    have hsame := (triple_openRound c rfl).1 schema d hopen
    rw [← hsame.runtimeCache] at hkey hle
    rw [← hsame.prewarmed] at hprewarmed
    rw [← hsame.maxCachedRuntimes] at hn
    have hmax : d.maxCachedRuntimes ≠ some 1 := by
      rw [hn]
      rintro h
      cases h
      exact lt_irrefl _ hone
    have hrun := run_ensureRoundRuntime_adopts (w := w) hr hkey hprewarmed hagain hboundary haccept hmax
    rw [after_prepareRound, prepareRound, Method.after_bind_of_ok hopen, Method.after_of_ok hrun]
    intro hbounded
    have := hbounded n hn
    rw [Dict.size_insert _ hkey] at this
    omega

/-- One call keeps the bound just where it is not the one that the code leaves out. -/
theorem bounded_after_iff (hpos : ∀ n ∈ c.maxCachedRuntimes, 1 ≤ n) (hc : Bounded c) (call : Call) :
    Bounded ((perform env call).after c) ↔ ¬Overflows env c call := by
  refine ⟨fun h hover ↦ not_bounded_of_overflows hover h, fun hnot ↦ ?_⟩
  cases call with
  | prewarmRuntime w =>
    rw [show (perform env (.prewarmRuntime w)).after c = (prewarmRuntime w).after c from Method.after_bind_pure _ _ c]
    exact (triple_prewarmRuntime.after (.refl c)).bounded hc
  | getProperties w config =>
    rw [show (perform env (.getProperties w config)).after c = (getProperties env w config).after c from
      Method.after_bind_pure _ _ c]
    exact (triple_getProperties.after (.refl c)).bounded hc
  | prepareRound w config training =>
    rw [after_prepareRound]
    cases hrun : (prepareRound env w config training).run c with
    | error e d =>
      rw [Method.after, hrun]
      exact (shrinks_of_error hrun).bounded hc
    | ok runtime d =>
      obtain ⟨schema, e, r, hschema, hopen, hsame, hr, hensured⟩ := prepared_of_run hrun
      rw [Method.after_of_ok hrun]
      cases hensured with
      | cached => exact hsame.shrinks.bounded hc
      | @added d hkey hshrinks haccept hfull =>
        refine .insert (hshrinks.get?_eq_none hkey) fun hd ↦ hnot ?_
        obtain ⟨hprewarmed, hagain, hboundary, n, hn, hone, hle⟩ := hfull (hsame.maxCachedRuntimes ▸ hpos) hd
        rw [hsame.runtimeCache] at hkey hle
        rw [hsame.prewarmed] at hprewarmed
        rw [hsame.maxCachedRuntimes] at hn
        exact ⟨schema, e, r, runtime.handle, runtime, n, hopen, hr, hkey, hprewarmed, hagain, hboundary, haccept, hn,
          hone, hle⟩

/-! ### Histories -/

def noContract : GraphContract := ⟨"", "", "", "", "", "", "", "", "", "", "", ""⟩

def plainEnv : Env where
  builtins :=
    { floatStr := fun _ ↦ ""
      bytesStr := fun _ ↦ ""
      floatInt := fun _ ↦ .ok 0
      bytesInt := fun _ ↦ .ok 0
      floatTrue := fun _ ↦ true
      loads := fun _ ↦ .error (.valueError "")
      jsonInt := fun _ ↦ .error (.typeError "")
      graphContract := fun _ ↦ .ok noContract
      digest := fun _ ↦ "" }
  backendName := "torch"
  torchlensVersion := "2.34.1"
  qualname := "Net"
  device := "cpu"
  versionContract _ := .error (.valueError "")
  compatibilityReason _ _ := .ok "feature_abi_id"
  boundaries _ := .ok []

/-- The key of a round's runtime, and the split id and the graph signature that the round names. -/
def namesOf (env : Env) : Call → Option (String × String × String)
  | .prepareRound w config training =>
    match w.stateSchema, requestOf env.builtins config with
    | .ok schema, .ok r => some (cacheKey env schema training r, r.splitId, r.graphSignature)
    | _, _ => none
  | _ => none

/-- No earlier round has the same key and names another split id or graph signature. -/
def Separate (env : Env) (calls : List Call) (call : Call) : Prop :=
  ∀ earlier ∈ calls, ∀ n ∈ namesOf env call, ∀ n' ∈ namesOf env earlier, n.1 = n'.1 → n.2 = n'.2

/-- Separators are not escaped, so a key may stand for two cuts. -/
example : cacheKey plainEnv "schema" true ⟨"p|s", "t", "graph", "", none, none, true⟩ =
    cacheKey plainEnv "schema" true ⟨"p", "s|t", "graph", "", none, none, true⟩ := by decide +kernel

/-- The histories of a client in which no call is the one that the code leaves out, and keys tell cuts apart. -/
inductive Run (env : Env) (maxCachedRuntimes : Option ℕ) (hasCalibrationTargets : Bool) : List Call → Client → Prop
  | start : Run env maxCachedRuntimes hasCalibrationTargets [] (fresh maxCachedRuntimes hasCalibrationTargets)
  | call {calls : List Call} {c : Client} (call : Call) : Run env maxCachedRuntimes hasCalibrationTargets calls c →
      ¬Overflows env c call → Separate env calls call →
      Run env maxCachedRuntimes hasCalibrationTargets (calls ++ [call]) ((perform env call).after c)

/-- What the cache holds after the calls. -/
structure Inv (env : Env) (maxCachedRuntimes : Option ℕ) (calls : List Call) (c : Client) : Prop where
  maxCachedRuntimes : c.maxCachedRuntimes = maxCachedRuntimes
  bounded : Bounded c
  stored : ∀ key runtime, c.runtimeCache.get? key = some runtime → runtime.handle.contract = .ok runtime.contract ∧
    ∃ call ∈ calls, ∃ n ∈ namesOf env call, n.1 = key ∧ CutAt n.2 runtime.handle

/-- The runtime is cut as the configuration names it. -/
def Faithful (env : Env) (config : Config) (runtime : RoundRuntime) : Prop :=
  CutAt (textOf env.builtins config "autosplit_split_id", textOf env.builtins config "autosplit_graph_signature")
      runtime.handle ∧
    runtime.handle.contract = .ok runtime.contract ∧
    ∀ raw ∈ config.get? "autosplit_graph_contract", truthy env.builtins raw = true →
      env.builtins.graphContract raw = .ok runtime.contract

theorem contract_of_checkContract {handle : Handle} {u : Unit} (h : checkContract env config handle = .ok u) :
    ∀ raw ∈ config.get? "autosplit_graph_contract", truthy env.builtins raw = true →
      ∃ expected, env.builtins.graphContract raw = .ok expected ∧ handle.contract = .ok expected := by
  intro raw hraw htrue
  unfold checkContract at h
  rw [Option.mem_def.mp hraw] at h
  dsimp only at h
  rw [if_pos htrue] at h
  obtain ⟨expected, hexpected, h⟩ := bind_eq_ok h
  obtain ⟨-, -, h⟩ := bind_eq_ok h
  obtain ⟨actual, hactual, h⟩ := bind_eq_ok h
  obtain rfl := eq_of_validateContract h
  exact ⟨expected, hexpected, hactual⟩

structure Accepted (env : Env) (config : Config) (r : Request) (runtime : RoundRuntime) : Prop where
  cutAt : CutAt (r.splitId, r.graphSignature) runtime.handle
  contract : runtime.handle.contract = .ok runtime.contract
  checked : checkContract env config runtime.handle = .ok ()

theorem accepted_of_accept {runtime : RoundRuntime} (h : accept env config r runtime.handle = .ok runtime) :
    Accepted env config r runtime := by
  obtain ⟨_, hsplit, h⟩ := bind_eq_ok h
  obtain ⟨_, hgraph, h⟩ := bind_eq_ok h
  obtain ⟨contract, hcontract, h⟩ := bind_eq_ok h
  obtain ⟨_, hcheck, h⟩ := bind_eq_ok h
  obtain ⟨_, -, h⟩ := bind_eq_ok h
  obtain ⟨window, -, h⟩ := bind_eq_ok h
  refine ⟨⟨of_require hsplit, of_require hgraph⟩, hcontract.trans ?_, hcheck⟩
  exact congrArg (Except.ok ·.contract) (Except.ok.inj h)

theorem faithful_of_names {runtime : RoundRuntime} {r : Request} (hr : requestOf env.builtins config = .ok r)
    (hcut : CutAt (r.splitId, r.graphSignature) runtime.handle)
    (hcontract : runtime.handle.contract = .ok runtime.contract)
    (hcheck : checkContract env config runtime.handle = .ok ()) : Faithful env config runtime := by
  obtain ⟨planId, -, hr⟩ := bind_eq_ok hr
  obtain ⟨window, -, hr⟩ := bind_eq_ok hr
  cases hr
  refine ⟨hcut, hcontract, fun raw hraw htrue ↦ ?_⟩
  obtain ⟨expected, hexpected, hhandle⟩ := contract_of_checkContract hcheck raw hraw htrue
  rw [hexpected, ← hhandle, hcontract]

theorem namesOf_prepareRound {training : Bool} {schema : String} (hschema : w.stateSchema = .ok schema)
    (hr : requestOf env.builtins config = .ok r) : namesOf env (.prepareRound w config training) =
      some (cacheKey env schema training r, r.splitId, r.graphSignature) := by
  simp only [namesOf, hschema, hr]

theorem Inv.shrinks {maxCachedRuntimes : Option ℕ} {calls : List Call} (hc : Inv env maxCachedRuntimes calls c)
    (h : Shrinks c d) (call : Call) : Inv env maxCachedRuntimes (calls ++ [call]) d := by
  refine ⟨h.maxCachedRuntimes.trans hc.maxCachedRuntimes, h.bounded hc.bounded, fun key runtime hget ↦ ?_⟩
  obtain h | h := h.runtimeCache
  · rw [h] at hget
    obtain ⟨hcontract, earlier, hearlier, hnames⟩ := hc.stored key runtime hget
    exact ⟨hcontract, earlier, List.mem_append_left _ hearlier, hnames⟩
  · rw [h] at hget
    cases hget

theorem Inv.perform {maxCachedRuntimes : Option ℕ} {calls : List Call} (hpos : ∀ n ∈ maxCachedRuntimes, 1 ≤ n)
    (hc : Inv env maxCachedRuntimes calls c) {call : Call} (hnot : ¬Overflows env c call) :
    Inv env maxCachedRuntimes (calls ++ [call]) ((perform env call).after c) := by
  have hbounded := (bounded_after_iff (hc.maxCachedRuntimes ▸ hpos) hc.bounded call).mpr hnot
  cases call with
  | prewarmRuntime w =>
    rw [show (SplitClient.perform env (.prewarmRuntime w)).after c = (prewarmRuntime w).after c from
      Method.after_bind_pure _ _ c]
    exact hc.shrinks (triple_prewarmRuntime.after (.refl c)) _
  | getProperties w config =>
    rw [show (SplitClient.perform env (.getProperties w config)).after c = (getProperties env w config).after c from
      Method.after_bind_pure _ _ c]
    exact hc.shrinks (triple_getProperties.after (.refl c)) _
  | prepareRound w config training =>
    rw [after_prepareRound] at hbounded ⊢
    cases hrun : (prepareRound env w config training).run c with
    | error e d =>
      rw [Method.after, hrun]
      exact hc.shrinks (shrinks_of_error hrun) _
    | ok runtime d =>
      rw [Method.after_of_ok hrun] at hbounded ⊢
      obtain ⟨schema, e, r, hschema, hopen, hsame, hr, hensured⟩ := prepared_of_run hrun
      cases hensured with
      | cached => exact hc.shrinks hsame.shrinks _
      | @added d hkey hshrinks haccept hfull =>
        have hd := hc.shrinks (hsame.shrinks.trans hshrinks) (.prepareRound w config training)
        refine ⟨hd.maxCachedRuntimes, hbounded, fun key stored hget ↦ ?_⟩
        rw [Dict.get?_insert] at hget
        split at hget
        · next heq =>
          cases hget
          have haccepted := accepted_of_accept haccept
          exact ⟨haccepted.contract, _, List.mem_append_right _ (List.mem_singleton_self _), _,
            namesOf_prepareRound hschema hr, heq, haccepted.cutAt⟩
        · exact hd.stored key stored hget

theorem Run.inv {maxCachedRuntimes : Option ℕ} {targets : Bool} (hpos : ∀ n ∈ maxCachedRuntimes, 1 ≤ n)
    {calls : List Call} (h : Run env maxCachedRuntimes targets calls c) : Inv env maxCachedRuntimes calls c := by
  induction h with
  | start =>
    refine ⟨rfl, fun n _ ↦ Nat.zero_le n, fun key runtime hget ↦ ?_⟩
    cases hget
  | call call _ hnot _ ih => exact ih.perform hpos hnot

def halfHandle : Handle := ⟨⟨"plan", "50%", "split", "graph", "abi", true, none, none⟩, "50%", .ok noContract⟩

def halfAnswers : Answers :=
  ⟨.ok "schema", .ok (), .ok halfHandle, .ok halfHandle, "", "", "", .ok (), .error (.valueError ""), .ok ()⟩

def planConfig (planId : String) : Config := Dict.ofList [("autosplit_backend", .str "torchlens"),
  ("autosplit_plan_id", .str planId), ("autosplit_split_id", .str "split"), ("autosplit_graph_signature", .str "graph")]

/-- Two rounds fill the cache, the runtime is prewarmed again, and a third round adopts it. -/
def prewarmedAgain : List Call :=
  [.prepareRound halfAnswers (planConfig "a") true, .prepareRound halfAnswers (planConfig "b") true,
    .prewarmRuntime halfAnswers, .prepareRound halfAnswers (planConfig "c") true]

end SplitFleet.SplitClient
