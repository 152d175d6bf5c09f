import SplitFleet.VirtualClient

set_option autoImplicit false

namespace SplitFleet.VirtualClient

open Lib

/-! ### Random numbers -/

section Rng

variable {ρ : Type} {o : Scope}

/-- What is saved in a scope puts back the generators of the scope, whatever they are at by then. -/
theorem restoreRng_captureRng (x s : Streams ρ) :
    restoreRng o (captureRng o x) s = .ok fun g ↦ if o.owned g then x g else s g := by
  rw [captureRng]
  by_cases htorch : o.torch = true
  · rw [if_pos htorch, restoreRng, if_pos htorch]
    refine congrArg Except.ok (funext fun g ↦ ?_)
    by_cases hcuda : o.isCuda = true
    · rw [if_pos hcuda, Option.elim_some]
      cases g with
      | python | numpy | torch => simp [Scope.owned, setHost, Function.update, htorch]
      | cuda index =>
        by_cases hindex : index = o.cudaIndex
        · simp [Scope.owned, Function.update, htorch, hcuda, hindex]
        · simp [Scope.owned, setHost, Function.update, hindex]
    · rw [if_neg hcuda, Option.elim_none]
      cases g with
      | python | numpy | torch => simp [Scope.owned, setHost, Function.update, htorch]
      | cuda index => simp [Scope.owned, setHost, Function.update, hcuda]
  · rw [if_neg htorch, restoreRng, if_neg htorch]
    refine congrArg Except.ok (funext fun g ↦ ?_)
    cases g <;> simp [Scope.owned, setHost, Function.update, htorch]

/-- The state was saved in the scope. -/
def Fits (o : Scope) (saved : Option (Saved ρ)) : Prop := ∀ rng ∈ saved, ∃ x, rng = captureRng o x

end Rng

/-! ### What stays as it is on the worker -/

section Frame

variable {ρ υ α : Type} {o : Scope} {F : Factory ρ}

/-- The generators outside the scope are as they were. -/
def OutsideKept (o : Scope) (s t : Task ρ) : Prop := ∀ g, o.owned g = false → t.streams g = s.streams g

instance : IsPreorder (Task ρ) (OutsideKept o) where
  refl _ _ _ := rfl
  trans _ _ _ h h' g hg := (h' g hg).trans (h g hg)

/-- All generators are as they were. -/
def StreamsKept (s t : Task ρ) : Prop := t.streams = s.streams

instance : IsPreorder (Task ρ) StreamsKept where
  refl _ := rfl
  trans _ _ _ h h' := Eq.trans h' h

theorem StreamsKept.outside {x : Method (Task ρ) α} (h : Method.Respects StreamsKept x) :
    Method.Respects (OutsideKept o) x := fun s g _ ↦ congrFun (h s) g

theorem run_draw (d : Draw ρ o α) (s : Task ρ) :
    (draw d).run s = EStateM.run (liftM (d.run s.streams).1 : EStateM PyError (Task ρ) α)
      { s with streams := (d.run s.streams).2 } := rfl

theorem after_draw (d : Draw ρ o α) (s : Task ρ) :
    (draw d).after s = { s with streams := (d.run s.streams).2 } := by
  rw [Method.after, run_draw]
  cases (d.run s.streams).1 with
  | ok a => rfl
  | error e => rfl

theorem draw_outside (d : Draw ρ o α) : Method.Respects (OutsideKept o) (draw d) := by
  intro s g hg
  rw [after_draw]
  exact d.frame s.streams g hg

/-- Something of the task that has no part in the generators is changed. -/
theorem modify_outside {f : Task ρ → Task ρ} (h : ∀ s, (f s).streams = s.streams) :
    Method.Respects (OutsideKept o) (modify f : Method (Task ρ) PUnit) := fun s g _ ↦ congrFun (h s) g

theorem rpc_outside (method : Rpc) (answer : Except PyError α) :
    Method.Respects (OutsideKept o) (rpc method answer : Method (Task ρ) α) :=
  Method.Respects.bind (modify_outside fun _ ↦ rfl) fun _ ↦ .lift answer

theorem rpcIf_outside (constrained : Bool) (method : Rpc) (answer : Except PyError Unit) :
    Method.Respects (OutsideKept o) (rpcIf constrained method answer : Method (Task ρ) Unit) := by
  rw [rpcIf]
  split_ifs
  · exact rpc_outside method answer
  · exact .pure ()

/-- How a scope begins: its generators are seeded, or at the saved state. -/
def entered (seeded : Generator → ℕ → ρ) (o : Scope) (seed : ℕ) (saved : Option (Streams ρ)) (s : Streams ρ) :
    Streams ρ :=
  fun g ↦ if o.owned g then saved.elim (seeded g seed) fun x ↦ x g else s g

theorem Fits.exists_streams {saved : Option (Saved ρ)} (h : Fits o saved) :
    ∃ x : Option (Streams ρ), saved = x.map (captureRng o) := by
  cases saved with
  | none => exact ⟨none, rfl⟩
  | some rng =>
    obtain ⟨x, rfl⟩ := h rng rfl
    exact ⟨some x, rfl⟩

theorem run_enterRng (seeded : Generator → ℕ → ρ) (seed : ℕ) (x : Option (Streams ρ)) (s : Task ρ) :
    (enterRng seeded o seed (x.map (captureRng o))).run s =
      .ok () { s with streams := entered seeded o seed x s.streams } := by
  cases x with
  | none => rfl
  | some x =>
    change EStateM.run (liftM (restoreRng o (captureRng o x) s.streams) >>=
      fun streams ↦ (set { s with streams := streams } : Method (Task ρ) PUnit)) s = _
    rw [restoreRng_captureRng]
    rfl

theorem enterRng_outside (seeded : Generator → ℕ → ρ) (seed : ℕ) {saved : Option (Saved ρ)} (h : Fits o saved) :
    Method.Respects (OutsideKept o) (enterRng seeded o seed saved) := by
  obtain ⟨x, rfl⟩ := h.exists_streams
  intro s g hg
  rw [Method.after_of_ok (run_enterRng seeded seed x s)]
  exact if_neg (by rw [hg]; exact Bool.false_ne_true)

/-- The call at the end of a scope. -/
def leaveRng (o : Scope) (previous : Saved ρ) : Method (Task ρ) PUnit := do
  let s ← get
  let streams ← restoreRng o previous s.streams
  set { s with streams := streams }

theorem run_leaveRng (x : Streams ρ) (s : Task ρ) :
    (leaveRng o (captureRng o x)).run s =
      .ok ⟨⟩ { s with streams := fun g ↦ if o.owned g then x g else s.streams g } := by
  change EStateM.run (liftM (restoreRng o (captureRng o x) s.streams) >>=
    fun streams ↦ (set { s with streams := streams } : Method (Task ρ) PUnit)) s = _
  rw [restoreRng_captureRng]
  rfl

theorem run_rngScope (seeded : Generator → ℕ → ρ) (seed : ℕ) (saved : Option (Saved ρ)) (body : Method (Task ρ) α)
    (s : Task ρ) : (rngScope seeded o seed saved body).run s =
      (tryFinally
        (do
          enterRng seeded o seed saved
          body) (leaveRng o (captureRng o s.streams))).run s := rfl

/-- The end of a scope puts back what the scope has changed. -/
theorem rngScope_kept {seeded : Generator → ℕ → ρ} {seed : ℕ} {saved : Option (Saved ρ)} {body : Method (Task ρ) α}
    (hsaved : Fits o saved) (hbody : Method.Respects (OutsideKept o) body) :
    Method.Respects StreamsKept (rngScope seeded o seed saved body) := by
  intro s
  have houtside := ((enterRng_outside seeded seed hsaved).bind fun _ ↦ hbody) s
  have hback {t : Task ρ} (ht : OutsideKept o s t) :
      (fun g ↦ if o.owned g then s.streams g else t.streams g) = s.streams := by
    funext g
    by_cases hg : o.owned g = true
    · exact if_pos hg
    · rw [if_neg hg]
      exact ht g (by simpa using hg)
  rw [Method.after] at houtside ⊢
  rw [run_rngScope]
  cases hrun : (enterRng seeded o seed saved >>= fun _ ↦ body).run s with
  | ok a t =>
    rw [hrun] at houtside
    rw [Method.run_tryFinally_of_ok hrun, Method.run_bind_of_ok (run_leaveRng s.streams t)]
    exact hback houtside
  | error e t =>
    rw [hrun] at houtside
    rw [Method.run_tryFinally_of_error hrun, Method.run_bind_of_ok (run_leaveRng s.streams t)]
    exact hback houtside

theorem fits_none : Fits o (none : Option (Saved ρ)) := by
  rintro rng ⟨⟩

theorem clientScope_outside {w : Surroundings ρ F.scope} {body : Method (Task ρ) α}
    (hbody : Method.Respects (OutsideKept F.scope) body) :
    Method.Respects (OutsideKept F.scope) (clientScope F w body) := by
  have hbuild : Method.Respects (OutsideKept F.scope) (buildClient F w) :=
    (draw_outside w.data).bind fun _ ↦ StreamsKept.outside (rngScope_kept fits_none (draw_outside w.construct))
  exact hbuild.bind fun _ ↦ .tryFinally (hbody.bind fun a ↦ .require_bind fun _ ↦ .pure a) (.lift w.closed)

theorem taskScope_kept {w : Surroundings ρ F.scope} {saved : Option (Saved ρ)} {body : Method (Task ρ) α}
    (hsaved : Fits F.scope saved) (hbody : Method.Respects (OutsideKept F.scope) body) :
    Method.Respects StreamsKept (taskScope F w saved body) :=
  .lift_bind fun _ _ ↦ .tryFinally (rngScope_kept hsaved (clientScope_outside hbody)) (.lift w.released)

theorem trainUnderLease_outside (w : FitAnswers ρ F.scope υ) (config : FitConfig) :
    Method.Respects (OutsideKept F.scope) (trainUnderLease F w config) := by
  refine .lift_bind fun _ _ ↦ (rpcIf_outside _ _ _).bind fun _ ↦ .lift_bind fun received _ ↦ ?_
  refine .require_bind fun _ ↦ .lift_bind fun _ _ ↦ (draw_outside w.training).bind fun trained ↦ ?_
  refine Method.Respects.bind (modify_outside fun _ ↦ rfl) fun _ ↦ .lift_bind fun t _ ↦ ?_
  refine .require_bind fun _ ↦ .require_bind fun _ ↦ .require_bind fun _ ↦ .lift_bind fun _ _ ↦ ?_
  exact (rpcIf_outside _ _ _).bind fun _ ↦ (rpc_outside _ _).bind fun _ ↦ .pure t

theorem fitBody_outside (w : FitAnswers ρ F.scope υ) (config : FitConfig) :
    Method.Respects (OutsideKept F.scope) (fitBody F w config) := by
  have habort : Method.Respects (OutsideKept F.scope) (abortLease F w) := by
    rw [abortLease]
    cases w.abort with
    | returned => exact rpc_outside _ _
    | refused => exact modify_outside fun _ ↦ rfl
    | raised e => exact rpc_outside _ _
  have hleased : Method.Respects (OutsideKept F.scope) (leased F w config) := by
    refine (rpc_outside _ _).bind fun _ ↦ Method.Respects.bind (.tryCatch (trainUnderLease_outside w config) ?_) ?_
    · exact fun e ↦ habort.bind fun _ ↦ .throw e
    · exact fun t ↦ Method.Respects.bind (modify_outside fun _ ↦ rfl) fun _ ↦ .pure t
  refine .lift_bind fun _ _ ↦ Method.Respects.bind (.tryFinally ?_ (.lift w.pathClosed)) fun t ↦ ?_
  · refine .lift_bind fun _ _ ↦ Method.Respects.bind (.tryFinally hleased (.lift w.disconnected)) fun t ↦ ?_
    exact .lift_bind fun _ _ ↦ .pure t
  · exact .lift_bind fun _ _ ↦ (Method.Respects.read _).bind fun record ↦ .pure _

/-- A call with a scope of random numbers leaves those of the worker as they were. -/
theorem answer_kept {call : Call ρ υ F} (hcall : call.scoped = true) {state : Record ρ}
    (hstate : Fits F.scope state.rng) : Method.Respects StreamsKept (call.answer state) := by
  cases call with
  | fit around w config =>
    refine Method.Respects.bind ?_ fun reply ↦ .pure (Answer.fit reply)
    refine .require_bind fun _ ↦ .require_bind fun _ ↦ .require_bind fun _ ↦ .lift_bind fun _ _ ↦ ?_
    exact taskScope_kept hstate (fitBody_outside w config)
  | getProperties around identity work =>
    refine Method.Respects.bind ?_ fun _ ↦ .pure Answer.properties
    rw [getProperties]
    split_ifs
    · exact .pure ()
    · exact taskScope_kept hstate (draw_outside work)
  | getParameters around work => cases hcall

end Frame

/-! ### What a call can see of the worker -/

section Coupling

variable {ρ υ α : Type} {o : Scope} {F : Factory ρ}

/-- The tasks are at the same point of the client and of the service. -/
def SameClient (s t : Task ρ) : Prop := s.record = t.record ∧ s.sent = t.sent

/-- So are the generators of the scope. -/
def SameInside (o : Scope) (s t : Task ρ) : Prop :=
  SameClient s t ∧ ∀ g, o.owned g = true → s.streams g = t.streams g

theorem couples_draw (d : Draw ρ o α) :
    Method.Couples (SameInside o) (draw d) (SameInside o) (SameInside o) := by
  intro s t hst
  obtain ⟨hclient, hstreams⟩ := hst
  have hafter : SameInside o { s with streams := (d.run s.streams).2 } { t with streams := (d.run t.streams).2 } :=
    ⟨hclient, d.streams_eq s.streams t.streams hstreams⟩
  rw [run_draw, run_draw, ← d.value_eq s.streams t.streams hstreams]
  cases (d.run s.streams).1 with
  | ok a => exact .ok hafter
  | error e => exact .error hafter

/-- What is changed does not depend on the generators. -/
theorem couples_sent {f : List Sent → List Sent} :
    Method.Couples (SameInside o) (modify fun s ↦ { s with sent := f s.sent } : Method (Task ρ) PUnit)
      (SameInside o) (SameInside o) :=
  .of_modify fun _ _ h ↦ ⟨⟨h.1.1, congrArg f h.1.2⟩, h.2⟩

theorem couples_lift (x : Except PyError α) :
    Method.Couples (SameInside o) (liftM x : EStateM PyError (Task ρ) α) (SameInside o) (SameInside o) :=
  .lift x (fun _ _ h ↦ h) fun _ _ h ↦ h

theorem couples_rpc (method : Rpc) (answer : Except PyError α) :
    Method.Couples (SameInside o) (rpc method answer : Method (Task ρ) α) (SameInside o) (SameInside o) :=
  Method.Couples.bind (couples_sent (f := (· ++ [⟨method, answer.isOk⟩]))) fun _ ↦ couples_lift answer

theorem couples_rpcIf (constrained : Bool) (method : Rpc) (answer : Except PyError Unit) :
    Method.Couples (SameInside o) (rpcIf constrained method answer : Method (Task ρ) Unit)
      (SameInside o) (SameInside o) :=
  .ite (fun _ ↦ couples_rpc method answer) fun _ ↦ .pure () fun _ _ h ↦ h

theorem couples_lift_bind {β : Type} {x : Except PyError β} {f : β → Method (Task ρ) α}
    (hf : ∀ b, Method.Couples (SameInside o) (f b) (SameInside o) (SameInside o)) :
    Method.Couples (SameInside o) ((liftM x : EStateM PyError (Task ρ) β) >>= f) (SameInside o) (SameInside o) :=
  (couples_lift x).bind hf

/-- In a scope the random numbers come from the scope, whatever the worker was at. -/
theorem couples_rngScope (seeded : Generator → ℕ → ρ) (seed : ℕ) {saved : Option (Saved ρ)}
    {body : Method (Task ρ) α} (hsaved : Fits o saved)
    (hbody : Method.Couples (SameInside o) body (SameInside o) (SameInside o)) :
    Method.Couples SameClient (rngScope seeded o seed saved body) SameClient SameClient := by
  obtain ⟨x, rfl⟩ := hsaved.exists_streams
  have henter : Method.Couples SameClient (enterRng seeded o seed (x.map (captureRng o)))
      (SameInside o) (SameInside o) := by
    intro s t hst
    rw [run_enterRng, run_enterRng]
    refine .ok ⟨hst, fun g hg ↦ ?_⟩
    exact (if_pos hg).trans (if_pos hg).symm
  intro s t hst
  rw [run_rngScope, run_rngScope]
  obtain ⟨a, s', t', hs, ht, hsame⟩ | ⟨e, s', t', hs, ht, hsame⟩ := (henter.bind fun _ ↦ hbody).cases_run hst
  · rw [Method.run_tryFinally_of_ok hs, Method.run_tryFinally_of_ok ht,
      Method.run_bind_of_ok (run_leaveRng s.streams s'), Method.run_bind_of_ok (run_leaveRng t.streams t')]
    exact .ok hsame.1
  · rw [Method.run_tryFinally_of_error hs, Method.run_tryFinally_of_error ht,
      Method.run_bind_of_ok (run_leaveRng s.streams s'), Method.run_bind_of_ok (run_leaveRng t.streams t')]
    exact .error hsame.1

/-- A scope within a scope. -/
theorem couples_inside {x : Method (Task ρ) α} (hx : Method.Couples SameClient x SameClient SameClient)
    (hkept : Method.Respects StreamsKept x) : Method.Couples (SameInside o) x (SameInside o) (SameInside o) := by
  intro s t hst
  have hs := hkept s
  have ht := hkept t
  have hback {s' t' : Task ρ} (hsame : SameClient s' t') (hs' : StreamsKept s s') (ht' : StreamsKept t t') :
      SameInside o s' t' := by
    refine ⟨hsame, fun g hg ↦ ?_⟩
    rw [hs', ht']
    exact hst.2 g hg
  obtain ⟨a, s', t', hrun, hrun', hsame⟩ | ⟨e, s', t', hrun, hrun', hsame⟩ := hx.cases_run hst.1
  · rw [hrun, hrun']
    rw [Method.after, hrun] at hs
    rw [Method.after, hrun'] at ht
    exact .ok (hback hsame hs ht)
  · rw [hrun, hrun']
    rw [Method.after, hrun] at hs
    rw [Method.after, hrun'] at ht
    exact .error (hback hsame hs ht)

theorem couples_clientScope {w : Surroundings ρ F.scope} {body : Method (Task ρ) α}
    (hbody : Method.Couples (SameInside F.scope) body (SameInside F.scope) (SameInside F.scope)) :
    Method.Couples (SameInside F.scope) (clientScope F w body) (SameInside F.scope) (SameInside F.scope) := by
  have hconstruct := couples_inside (o := F.scope)
    (couples_rngScope F.seeded (clientSeed F.sha256 F.seed F.partitionId "model") fits_none (couples_draw w.construct))
    (rngScope_kept fits_none (draw_outside w.construct))
  have hbuild : Method.Couples (SameInside F.scope) (buildClient F w) (SameInside F.scope) (SameInside F.scope) :=
    (couples_draw w.data).bind fun _ ↦ hconstruct
  refine hbuild.bind fun _ ↦ .tryFinally ?_ (couples_lift w.closed) (couples_lift w.closed)
  exact hbody.bind fun a ↦ couples_lift_bind fun _ ↦ .pure a fun _ _ h ↦ h

theorem couples_taskScope {w : Surroundings ρ F.scope} {saved : Option (Saved ρ)} {body : Method (Task ρ) α}
    (hsaved : Fits F.scope saved)
    (hbody : Method.Couples (SameInside F.scope) body (SameInside F.scope) (SameInside F.scope)) :
    Method.Couples SameClient (taskScope F w saved body) SameClient SameClient := by
  refine .lift_bind (fun _ _ ↦ ?_) fun _ _ h ↦ h
  refine .tryFinally (couples_rngScope _ _ hsaved (couples_clientScope hbody)) ?_ ?_
  · exact .lift w.released (fun _ _ h ↦ h) fun _ _ h ↦ h
  · exact .lift w.released (fun _ _ h ↦ h) fun _ _ h ↦ h

theorem captureRng_congr {s t : Streams ρ} (h : ∀ g, o.owned g = true → s g = t g) :
    captureRng o s = captureRng o t := by
  have hpython := h .python rfl
  have hnumpy := h .numpy rfl
  rw [captureRng, captureRng, hpython, hnumpy]
  by_cases htorch : o.torch = true
  · rw [if_pos htorch, if_pos htorch, h .torch htorch]
    by_cases hcuda : o.isCuda = true
    · rw [h (.cuda o.cudaIndex) (by simp [Scope.owned, htorch, hcuda])]
    · rw [if_neg hcuda, if_neg hcuda]
  · rw [if_neg htorch, if_neg htorch]

theorem couples_trainUnderLease (w : FitAnswers ρ F.scope υ) (config : FitConfig) :
    Method.Couples (SameInside F.scope) (trainUnderLease F w config) (SameInside F.scope) (SameInside F.scope) := by
  refine couples_lift_bind fun _ ↦ (couples_rpcIf _ _ _).bind fun _ ↦ couples_lift_bind fun received ↦ ?_
  refine couples_lift_bind fun _ ↦ couples_lift_bind fun _ ↦ (couples_draw w.training).bind fun trained ↦ ?_
  refine Method.Couples.bind (couples_sent (f := (· ++ trained.1.map fun returned ↦ ⟨.trainTail, returned⟩))) ?_
  refine fun _ ↦ couples_lift_bind fun t ↦ couples_lift_bind fun _ ↦ couples_lift_bind fun _ ↦ ?_
  refine couples_lift_bind fun _ ↦ couples_lift_bind fun _ ↦ (couples_rpcIf _ _ _).bind fun _ ↦ ?_
  exact (couples_rpc _ _).bind fun _ ↦ .pure t fun _ _ h ↦ h

theorem couples_fitBody (w : FitAnswers ρ F.scope υ) (config : FitConfig) :
    Method.Couples (SameInside F.scope) (fitBody F w config) (SameInside F.scope) (SameInside F.scope) := by
  have habort : Method.Couples (SameInside F.scope) (abortLease F w) (SameInside F.scope) (SameInside F.scope) := by
    rw [abortLease]
    cases w.abort with
    | returned => exact couples_rpc _ _
    | refused => exact couples_sent (f := (· ++ [⟨.abort, false⟩]))
    | raised e => exact couples_rpc _ _
  have hadvance (t : Trained υ) : Method.Couples (SameInside F.scope)
      (modify fun s ↦ { s with
        record := s.record.map fun r ↦ r.advance config t (captureRng F.scope s.streams) } : Method (Task ρ) PUnit)
      (SameInside F.scope) (SameInside F.scope) := by
    refine .of_modify fun s s' h ↦ ⟨⟨?_, h.1.2⟩, h.2⟩
    dsimp only
    rw [h.1.1, captureRng_congr h.2]
  have hleased : Method.Couples (SameInside F.scope) (leased F w config) (SameInside F.scope) (SameInside F.scope) := by
    refine (couples_rpc _ _).bind fun _ ↦ Method.Couples.bind (.tryCatch (couples_trainUnderLease w config) ?_) ?_
    · exact fun e ↦ habort.bind fun _ ↦ .throw e fun _ _ h ↦ h
    · exact fun t ↦ (hadvance t).bind fun _ ↦ .pure t fun _ _ h ↦ h
  refine couples_lift_bind fun _ ↦ Method.Couples.bind (.tryFinally ?_ (couples_lift _) (couples_lift _)) fun t ↦ ?_
  · refine couples_lift_bind fun _ ↦ Method.Couples.bind
      (.tryFinally hleased (couples_lift _) (couples_lift _)) fun t ↦ ?_
    exact couples_lift_bind fun _ ↦ .pure t fun _ _ h ↦ h
  · refine couples_lift_bind fun _ ↦ .read_bind (fun _ _ h ↦ h.1.1) fun s₀ ↦ ?_
    exact .pure _ fun _ _ h ↦ h.1

/-- A call with a scope of random numbers sees nothing of those of the worker. -/
theorem couples_answer {call : Call ρ υ F} (hcall : call.scoped = true) {state : Record ρ}
    (hstate : Fits F.scope state.rng) : Method.Couples SameClient (call.answer state) SameClient SameClient := by
  have hlift {x : Except PyError Unit} {f : Unit → Method (Task ρ) (Reply ρ υ)}
      (hf : Method.Couples SameClient (f ()) SameClient SameClient) :
      Method.Couples SameClient ((liftM x : EStateM PyError (Task ρ) Unit) >>= f) SameClient SameClient :=
    .lift_bind (fun _ _ ↦ hf) fun _ _ h ↦ h
  cases call with
  | fit around w config =>
    refine Method.Couples.bind ?_ fun reply ↦ .pure (Answer.fit reply) fun _ _ h ↦ h
    exact hlift (hlift (hlift (hlift (couples_taskScope hstate (couples_fitBody w config)))))
  | getProperties around identity work =>
    refine Method.Couples.bind ?_ fun _ ↦ .pure Answer.properties fun _ _ h ↦ h
    exact .ite (fun _ ↦ .pure () fun _ _ h ↦ h) fun _ ↦ couples_taskScope hstate (couples_draw work)
  | getParameters around work => cases hcall

end Coupling

end SplitFleet.VirtualClient
