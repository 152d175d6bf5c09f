import SplitFleet.VirtualClientScopes

set_option autoImplicit false

namespace SplitFleet.VirtualClient

open Lib

/-! ### The lease of a replica -/

section Lease

variable {ρ υ α : Type} {o : Scope} {F : Factory ρ}

def Optional (method : Rpc) (l : List Sent) : Prop := l = [] ∨ ∃ b, l = [⟨method, b⟩]

/-- What is sent between the lease and the end of the lease. -/
def Between (l : List Sent) : Prop :=
  ∃ d t u c, l = d ++ t ++ u ++ c ∧ Optional .downloadState d ∧ (∀ e ∈ t, e.rpc = .trainTail) ∧
    Optional .uploadState u ∧ (c = [] ∨ c = [⟨.commit, false⟩])

/-- The lease is granted and committed. -/
def Committed (l : List Sent) : Prop := ∃ m, Between m ∧ l = ⟨.acquire, true⟩ :: (m ++ [⟨.commit, true⟩])

/-- There is no lease, or it is aborted. -/
def Uncommitted (l : List Sent) : Prop :=
  l = [] ∨ l = [⟨.acquire, false⟩] ∨ ∃ m b, Between m ∧ l = ⟨.acquire, true⟩ :: (m ++ [⟨.abort, b⟩])

/-- What has to hold for a commit. -/
structure Completed (w : FitAnswers ρ o υ) (config : FitConfig) (t : Trained υ) : Prop where
  received : w.load = .ok config.globalModelHash
  intime : w.late = false
  batches : t.numBatches = w.declared
  finite : t.finite = true
  commit : w.commit = .ok ()

def At (l : List Sent) (r : Option (Record ρ)) (s : Task ρ) : Prop := s.sent = l ∧ s.record = r

/-- The generators have no part in the predicate. -/
def Blind (P : Task ρ → Prop) : Prop := ∀ s streams, P s → P { s with streams := streams }

theorem triple_draw {P : Task ρ → Prop} (hP : Blind P) (d : Draw ρ o α) :
    Method.Triple P (draw d) (fun _ ↦ P) P := by
  intro s hs
  rw [run_draw]
  cases (d.run s.streams).1 with
  | ok a =>
    refine ⟨fun b t ht ↦ ?_, fun e t ht ↦ ?_⟩
    · cases ht
      exact hP s _ hs
    · cases ht
  | error e =>
    refine ⟨fun b t ht ↦ ?_, fun e t ht ↦ ?_⟩
    · cases ht
    · cases ht
      exact hP s _ hs

theorem triple_rpc {l : List Sent} {r : Option (Record ρ)} (method : Rpc) (answer : Except PyError Unit) :
    Method.Triple (At l r) (rpc method answer) (fun _ s ↦ answer = .ok () ∧ At (l ++ [⟨method, true⟩]) r s)
      (At (l ++ [⟨method, false⟩]) r) := by
  rintro s ⟨hsent, hrecord⟩
  cases answer with
  | ok a =>
    refine ⟨fun b t ht ↦ ?_, fun e t ht ↦ ?_⟩
    · cases ht
      exact ⟨rfl, congrArg (· ++ [⟨method, true⟩]) hsent, hrecord⟩
    · cases ht
  | error e =>
    refine ⟨fun b t ht ↦ ?_, fun e t ht ↦ ?_⟩
    · cases ht
    · cases ht
      exact ⟨congrArg (· ++ [⟨method, false⟩]) hsent, hrecord⟩

theorem triple_rpcIf {l : List Sent} {r : Option (Record ρ)} (constrained : Bool) (method : Rpc)
    (answer : Except PyError Unit) :
    Method.Triple (At l r) (rpcIf constrained method answer)
      (fun _ s ↦ ∃ d, Optional method d ∧ At (l ++ d) r s) (fun s ↦ ∃ d, Optional method d ∧ At (l ++ d) r s) := by
  refine .ite (fun _ ↦ ?_) fun _ ↦ .pure fun s hs ↦ ⟨[], .inl rfl, by rwa [List.append_nil]⟩
  refine (triple_rpc method answer).mono (fun _ h ↦ h) (fun _ s h ↦ ?_) fun s h ↦ ?_
  · exact ⟨_, .inr ⟨true, rfl⟩, h.2⟩
  · exact ⟨_, .inr ⟨false, rfl⟩, h⟩

theorem blind_at {l : List Sent} {r : Option (Record ρ)} : Blind (At l r) := fun _ _ h ↦ h

/-- What is sent on the way to the commit, and what holds when the commit returns. -/
theorem triple_trainUnderLease (w : FitAnswers ρ F.scope υ) (config : FitConfig) {l : List Sent}
    {r : Option (Record ρ)} :
    Method.Triple (At l r) (trainUnderLease F w config)
      (fun t s ↦ Completed w config t ∧ ∃ m, Between m ∧ At (l ++ m ++ [⟨.commit, true⟩]) r s)
      (fun s ↦ ∃ m, Between m ∧ At (l ++ m) r s) := by
  have hdownload {d : List Sent} (hd : Optional .downloadState d) : Between d :=
    ⟨d, [], [], [], by simp, hd, by simp, .inl rfl, .inl rfl⟩
  have hraise (s : Task ρ) (h : At l r s) : ∃ m, Between m ∧ At (l ++ m) r s :=
    ⟨[], hdownload (.inl rfl), by rwa [List.append_nil]⟩
  refine .lift_bind (fun _ _ ↦ .bind ((triple_rpcIf _ _ _).mono (fun _ h ↦ h) (fun _ _ h ↦ h) ?_) fun _ ↦ ?_) hraise
  · rintro s ⟨d, hd, hs⟩
    exact ⟨d, hdownload hd, hs⟩
  refine .of_exists fun d ↦ .of_and fun hd ↦ ?_
  have hraise (s : Task ρ) (h : At (l ++ d) r s) : ∃ m, Between m ∧ At (l ++ m) r s := ⟨d, hdownload hd, h⟩
  refine .lift_bind (fun received hreceived ↦ .require_bind (fun heq ↦ .lift_bind (fun _ _ ↦ ?_) hraise) hraise) hraise
  refine .bind ((triple_draw blind_at w.training).mono (fun _ h ↦ h) (fun _ _ h ↦ h) hraise) fun trained ↦ ?_
  have hbetween {u c : List Sent} (hu : Optional .uploadState u) (hc : c = [] ∨ c = [⟨.commit, false⟩]) :
      Between (d ++ trained.1.map (fun returned ↦ ⟨.trainTail, returned⟩) ++ u ++ c) := by
    refine ⟨d, _, u, c, rfl, hd, fun e he ↦ ?_, hu, hc⟩
    obtain ⟨returned, -, rfl⟩ := List.mem_map.mp he
    rfl
  refine .modify_bind (I := At (l ++ (d ++ trained.1.map fun returned ↦ ⟨.trainTail, returned⟩)) r) ?_ ?_
  · rintro s ⟨hsent, hrecord⟩
    refine ⟨?_, hrecord⟩
    rw [← List.append_assoc, ← hsent]
  have hraise (s : Task ρ) (h : At (l ++ (d ++ trained.1.map fun returned ↦ ⟨.trainTail, returned⟩)) r s) :
      ∃ m, Between m ∧ At (l ++ m) r s := by
    refine ⟨_, hbetween (.inl rfl) (.inl rfl), ?_⟩
    rwa [List.append_nil, List.append_nil]
  refine .lift_bind (fun t _ ↦ .require_bind (fun hlate ↦ .require_bind (fun hbatches ↦ ?_) hraise) hraise) hraise
  refine .require_bind (fun hfinite ↦ .lift_bind (fun _ _ ↦ ?_) hraise) hraise
  refine .bind ((triple_rpcIf _ _ _).mono (fun _ h ↦ h) (fun _ _ h ↦ h) ?_) fun _ ↦ ?_
  · rintro s ⟨u, hu, hs⟩
    refine ⟨_, hbetween hu (.inl rfl), ?_⟩
    rwa [List.append_nil, ← List.append_assoc]
  refine .of_exists fun u ↦ .of_and fun hu ↦ ?_
  refine .bind ((triple_rpc .commit w.commit).mono (fun _ h ↦ h) (fun _ _ h ↦ h) ?_) fun _ ↦ .pure ?_
  · intro s hs
    refine ⟨_, hbetween hu (.inr rfl), ?_⟩
    rwa [← List.append_assoc, ← List.append_assoc]
  · rintro s ⟨hcommit, hs⟩
    refine ⟨⟨heq ▸ hreceived, hlate, hbatches, hfinite, hcommit⟩, _, hbetween hu (.inl rfl), ?_⟩
    rwa [List.append_nil, ← List.append_assoc]

/-- The task was committed, and the record of the client has advanced by it. -/
def Advanced (F : Factory ρ) (w : FitAnswers ρ F.scope υ) (config : FitConfig) (r : Option (Record ρ)) (s : Task ρ) :
    Prop :=
  Committed s.sent ∧ ∃ t x, Completed w config t ∧
    s.record = r.map fun r ↦ r.advance config t (captureRng F.scope x)

/-- The task was not committed, and the record is as it was. -/
def Unchanged (r : Option (Record ρ)) (s : Task ρ) : Prop := Uncommitted s.sent ∧ s.record = r

def Ended (F : Factory ρ) (w : FitAnswers ρ F.scope υ) (config : FitConfig) (r : Option (Record ρ)) (s : Task ρ) :
    Prop :=
  Advanced F w config r s ∨ Unchanged r s

variable {w : FitAnswers ρ F.scope υ} {config : FitConfig} {r : Option (Record ρ)}

theorem blind_ended : Blind (Ended F w config r) := fun _ _ h ↦ h

theorem triple_leased :
    Method.Triple (At [] r) (leased F w config) (fun _ ↦ Advanced F w config r) (Unchanged r) := by
  have habort : Method.Triple (fun s ↦ ∃ m, Between m ∧ At ([⟨.acquire, true⟩] ++ m) r s) (abortLease F w)
      (fun _ ↦ Unchanged r) (Unchanged r) := by
    refine .of_exists fun m ↦ .of_and fun hm ↦ ?_
    have hsent (b : Bool) (s : Task ρ) (h : At ([⟨.acquire, true⟩] ++ m ++ [⟨.abort, b⟩]) r s) : Unchanged r s :=
      ⟨.inr (.inr ⟨m, b, hm, h.1⟩), h.2⟩
    rw [abortLease]
    cases w.abort with
    | returned => exact (triple_rpc _ _).mono (fun _ h ↦ h) (fun _ s h ↦ hsent true s h.2) (hsent false)
    | refused => exact .of_modify fun s hs ↦ hsent false _ ⟨congrArg (· ++ [⟨.abort, false⟩]) hs.1, hs.2⟩
    | raised e => exact (triple_rpc _ _).mono (fun _ h ↦ h) (fun _ s h ↦ hsent true s h.2) (hsent false)
  refine .bind ((triple_rpc .acquire w.acquire).mono (fun _ h ↦ h) (fun _ _ h ↦ h.2) ?_) fun _ ↦ ?_
  · rintro s ⟨hsent, hrecord⟩
    exact ⟨.inr (.inl hsent), hrecord⟩
  refine Method.Triple.bind (.tryCatch (triple_trainUnderLease w config) fun e ↦ ?_) fun t ↦ ?_
  · exact habort.bind fun _ ↦ .throw fun s hs ↦ hs
  · refine .modify_bind (I := Advanced F w config r) ?_ (.pure fun s hs ↦ hs)
    rintro s ⟨hcompleted, m, hm, hsent, hrecord⟩
    refine ⟨⟨m, hm, ?_⟩, t, s.streams, hcompleted, ?_⟩
    · rw [hsent]
      rfl
    · rw [hrecord]

theorem triple_raise {Q : α → Task ρ → Prop} {P : Task ρ → Prop} {x : Except PyError α} {E : Task ρ → Prop}
    (hQ : ∀ a s, P s → Q a s) (hE : ∀ s, P s → E s) :
    Method.Triple P (liftM x : EStateM PyError (Task ρ) α) Q E :=
  .lift (fun s a hs _ ↦ hQ a s hs) hE

theorem triple_fitBody :
    Method.Triple (At [] r) (fitBody F w config) (fun reply s ↦ Advanced F w config r s ∧ reply.record = s.record)
      (Ended F w config r) := by
  have hnothing (s : Task ρ) (h : At [] r s) : Ended F w config r s := .inr ⟨.inl h.1, h.2⟩
  have hcleanup (x : Except PyError Unit) : Method.Triple (Advanced F w config r)
      (liftM x : EStateM PyError (Task ρ) Unit) (fun _ ↦ Advanced F w config r) (Ended F w config r) :=
    triple_raise (fun _ _ h ↦ h) fun _ h ↦ .inl h
  have hended (x : Except PyError Unit) : Method.Triple (Ended F w config r)
      (liftM x : EStateM PyError (Task ρ) Unit) (fun _ ↦ Ended F w config r) (Ended F w config r) :=
    triple_raise (fun _ _ h ↦ h) fun _ h ↦ h
  refine .lift_bind (fun _ _ ↦ ?_) hnothing
  refine .bind (R := fun _ ↦ Advanced F w config r)
    (.tryFinally (I := Ended F w config r) (J := fun _ ↦ Advanced F w config r) ?_ (fun _ ↦ hcleanup _) (hended _)) ?_
  · refine .lift_bind (fun _ _ ↦ ?_) hnothing
    refine .bind (R := fun _ ↦ Advanced F w config r)
      (.tryFinally (triple_leased.mono (fun _ h ↦ h) (fun _ _ h ↦ h) fun _ h ↦ .inr h) (fun _ ↦ hcleanup _)
        (hended _)) ?_
    exact fun t ↦ .lift_bind (fun _ _ ↦ .pure fun s hs ↦ hs) fun s hs ↦ .inl hs
  · refine fun t ↦ .lift_bind (fun _ _ ↦ ?_) fun s hs ↦ .inl hs
    refine .get_bind fun s₀ _ ↦ .pure ?_
    rintro s ⟨hs, rfl⟩
    exact ⟨hs, rfl⟩

section Scopes

variable {P E : Task ρ → Prop} {Q : α → Task ρ → Prop} {body : Method (Task ρ) α}

/-- The predicates of a triple carry over to the scopes that its call is in. -/
structure Scoped (P E : Task ρ → Prop) (Q : α → Task ρ → Prop) : Prop where
  start : Blind P
  returned : ∀ a, Blind (Q a)
  raised : Blind E
  of_start : ∀ s, P s → E s
  of_returned : ∀ a s, Q a s → E s

theorem triple_enterRng (hP : Blind P) {seeded : Generator → ℕ → ρ} {seed : ℕ} {saved : Option (Saved ρ)} :
    Method.Triple P (enterRng seeded o seed saved) (fun _ ↦ P) P := by
  cases saved with
  | none => exact .of_modify fun s hs ↦ hP s _ hs
  | some saved =>
    refine .get_bind fun s₀ _ ↦ .lift_bind (fun streams _ ↦ ?_) fun s hs ↦ hs.1
    rintro s ⟨hs, rfl⟩
    refine ⟨fun b t ht ↦ ?_, fun e t ht ↦ ?_⟩
    · cases ht
      exact hP s _ hs
    · cases ht

theorem triple_leaveRng (hP : Blind P) (previous : Saved ρ) :
    Method.Triple P (leaveRng o previous) (fun _ ↦ P) P := by
  refine .get_bind fun s₀ _ ↦ .lift_bind (fun streams _ ↦ ?_) fun s hs ↦ hs.1
  rintro s ⟨hs, rfl⟩
  refine ⟨fun b t ht ↦ ?_, fun e t ht ↦ ?_⟩
  · cases ht
    exact hP s _ hs
  · cases ht

theorem triple_rngScope (h : Scoped P E Q) {seeded : Generator → ℕ → ρ} {seed : ℕ} {saved : Option (Saved ρ)}
    (hbody : Method.Triple P body Q E) : Method.Triple P (rngScope seeded o seed saved body) Q E := by
  refine .get_bind fun s₀ _ ↦ .tryFinally (J := Q) (I := E) ?_ (fun a ↦ ?_) ?_
  · refine .bind (R := fun _ ↦ P) ?_ fun _ ↦ hbody
    exact (triple_enterRng h.start).mono (fun _ hs ↦ hs.1) (fun _ _ hs ↦ hs) h.of_start
  · exact (triple_leaveRng (h.returned a) _).mono (fun _ hs ↦ hs) (fun _ _ hs ↦ hs) (h.of_returned a)
  · exact triple_leaveRng h.raised _

theorem triple_clientScope (h : Scoped P E Q) {around : Surroundings ρ F.scope} (hbody : Method.Triple P body Q E) :
    Method.Triple P (clientScope F around body) Q E := by
  have hconstruct : Scoped P P (fun _ : Unit ↦ P) :=
    ⟨h.start, fun _ ↦ h.start, h.start, fun _ hs ↦ hs, fun _ _ hs ↦ hs⟩
  have hbuild : Method.Triple P (buildClient F around) (fun _ ↦ P) P :=
    (triple_draw h.start _).bind fun _ ↦ triple_rngScope hconstruct (triple_draw h.start _)
  refine .bind (hbuild.mono (fun _ hs ↦ hs) (fun _ _ hs ↦ hs) h.of_start) fun _ ↦ ?_
  refine .tryFinally (J := Q) (I := E) ?_ (fun a ↦ ?_) (triple_raise (fun _ _ hs ↦ hs) fun _ hs ↦ hs)
  · exact hbody.bind fun a ↦ .require_bind (fun _ ↦ .pure fun s hs ↦ hs) (h.of_returned a)
  · exact triple_raise (fun _ _ hs ↦ hs) (h.of_returned a)

theorem triple_taskScope (h : Scoped P E Q) {around : Surroundings ρ F.scope} {saved : Option (Saved ρ)}
    (hbody : Method.Triple P body Q E) : Method.Triple P (taskScope F around saved body) Q E := by
  refine .lift_bind (fun _ _ ↦ .tryFinally (J := Q) (I := E) ?_ (fun a ↦ ?_) ?_) h.of_start
  · exact triple_rngScope h (triple_clientScope h hbody)
  · exact triple_raise (fun _ _ hs ↦ hs) (h.of_returned a)
  · exact triple_raise (fun _ _ hs ↦ hs) fun _ hs ↦ hs

end Scopes

theorem triple_fit {around : Surroundings ρ F.scope} {state : Record ρ} :
    Method.Triple (At [] r) (fit F around w config state)
      (fun reply s ↦ (state.lastRound < config.round ∧ Advanced F w config r s) ∧ reply.record = s.record)
      (fun s ↦ state.lastRound < config.round ∧ Advanced F w config r s ∨ Unchanged r s) := by
  have hnothing (s : Task ρ) (h : At [] r s) : Unchanged r s := ⟨.inl h.1, h.2⟩
  refine .require_bind (fun hround ↦ ?_) fun s hs ↦ .inr (hnothing s hs)
  refine .require_bind (fun _ ↦ .require_bind (fun _ ↦ .lift_bind (fun _ _ ↦ ?_) ?_) ?_) ?_
  · have hscoped : Scoped (At [] r) (Ended F w config r)
        (fun reply : Reply ρ υ ↦ fun s ↦ Advanced F w config r s ∧ reply.record = s.record) :=
      ⟨blind_at, fun _ _ _ h ↦ h, blind_ended, fun s hs ↦ .inr (hnothing s hs), fun _ s hs ↦ .inl hs.1⟩
    refine (triple_taskScope hscoped triple_fitBody).mono (fun _ h ↦ h) (fun _ _ h ↦ ⟨⟨hround, h.1⟩, h.2⟩) ?_
    exact fun s h ↦ h.imp_left fun h ↦ ⟨hround, h⟩
  all_goals exact fun s hs ↦ .inr (hnothing s hs)

end Lease

/-! ### Runs -/

section Runs

variable {ρ υ α : Type}

section Call

variable {F : Factory ρ} {r : Option (Record ρ)} {call : Call ρ υ F} {state : Record ρ}

theorem run_logicalState (s : Task ρ) :
    (logicalState F).run s =
      if F.Owns (F.recordOf s.record) then .ok (F.recordOf s.record) { s with record := some (F.recordOf s.record) }
      else .error (.runtimeError "Flower Context identity/partition changed for a logical client")
        { s with record := some (F.recordOf s.record) } := by
  change EStateM.run (liftM (require (F.Owns (F.recordOf s.record)) _) >>= fun _ ↦ pure (F.recordOf s.record))
    { s with record := some (F.recordOf s.record) } = _
  rw [require]
  split_ifs
  · rfl
  · rfl

theorem triple_logicalState : Method.Triple (At [] r) (logicalState F)
    (fun state s ↦ state = F.recordOf r ∧ At [] (some (F.recordOf r)) s) (At [] (some (F.recordOf r))) := by
  rintro s ⟨hsent, rfl⟩
  rw [run_logicalState]
  split_ifs
  · refine ⟨fun state t ht ↦ ?_, fun e t ht ↦ ?_⟩
    · cases ht
      exact ⟨rfl, hsent, rfl⟩
    · cases ht
  · refine ⟨fun state t ht ↦ ?_, fun e t ht ↦ ?_⟩
    · cases ht
    · cases ht
      exact ⟨hsent, rfl⟩

/-- How the call of a client ends: uncommitted, or as a `fit` of a later round that is committed. -/
def CallEnds (call : Call ρ υ F) (state : Record ρ) (s : Task ρ) : Prop :=
  (∃ around w config, call = .fit around w config ∧ state.lastRound < config.round ∧
    Advanced F w config (some state) s) ∨ Unchanged (some state) s

/-- What a call returns goes with how it ends. -/
def AnswerEnds (call : Call ρ υ F) (state : Record ρ) (a : Answer ρ υ) (s : Task ρ) : Prop :=
  ∀ reply, a = .fit reply → reply.record = s.record ∧
    ∃ around w config, call = .fit around w config ∧ state.lastRound < config.round ∧ Advanced F w config (some state) s

theorem triple_answer :
    Method.Triple (At [] (some state)) (call.answer state)
      (fun a s ↦ CallEnds call state s ∧ AnswerEnds call state a s) (CallEnds call state) := by
  have hnothing (s : Task ρ) (h : At [] (some state) s) : CallEnds call state s := .inr ⟨.inl h.1, h.2⟩
  have hscoped {α : Type} : Scoped (At [] (some state)) (At [] (some state)) (fun _ : α ↦ At [] (some state)) :=
    ⟨blind_at, fun _ ↦ blind_at, blind_at, fun _ h ↦ h, fun _ _ h ↦ h⟩
  cases call with
  | fit around w config =>
    refine .bind (triple_fit.mono (fun _ h ↦ h) (fun _ _ h ↦ h) fun s h ↦ ?_) fun reply ↦ .pure fun s h ↦ ?_
    · exact h.imp_left fun h ↦ ⟨around, w, config, rfl, h.1, h.2⟩
    · obtain ⟨⟨hround, hadvanced⟩, hrecord⟩ := h
      refine ⟨.inl ⟨around, w, config, rfl, hround, hadvanced⟩, ?_⟩
      rintro reply ⟨⟩
      exact ⟨hrecord, around, w, config, rfl, hround, hadvanced⟩
  | getProperties around identity work =>
    have htask : Method.Triple (At [] (some state)) (getProperties F around identity work state)
        (fun _ ↦ At [] (some state)) (At [] (some state)) :=
      .ite (fun _ ↦ .pure fun _ h ↦ h) fun _ ↦ triple_taskScope hscoped (triple_draw blind_at work)
    refine .bind (htask.mono (fun _ h ↦ h) (fun _ _ h ↦ h) hnothing) fun _ ↦ .pure fun s h ↦ ⟨hnothing s h, ?_⟩
    rintro reply ⟨⟩
  | getParameters around work =>
    have htask : Method.Triple (At [] (some state)) (getParameters F around work)
        (fun _ ↦ At [] (some state)) (At [] (some state)) := by
      refine .lift_bind (fun _ _ ↦ .tryFinally (triple_clientScope hscoped (triple_draw blind_at work)) ?_ ?_) ?_
      · exact fun _ ↦ triple_raise (fun _ _ h ↦ h) fun _ h ↦ h
      · exact triple_raise (fun _ _ h ↦ h) fun _ h ↦ h
      · exact fun _ h ↦ h
    refine .bind (htask.mono (fun _ h ↦ h) (fun _ _ h ↦ h) hnothing) fun _ ↦ .pure fun s h ↦ ⟨hnothing s h, ?_⟩
    rintro reply ⟨⟩

theorem triple_call (call : Call ρ υ F) :
    Method.Triple (At [] r) call.run
      (fun a s ↦ CallEnds call (F.recordOf r) s ∧ AnswerEnds call (F.recordOf r) a s)
      (CallEnds call (F.recordOf r)) := by
  have hnothing (s : Task ρ) (h : At [] (some (F.recordOf r)) s) : CallEnds call (F.recordOf r) s :=
    .inr ⟨.inl h.1, h.2⟩
  refine .bind (triple_logicalState.mono (fun _ h ↦ h) (fun _ _ h ↦ h) hnothing) fun state ↦ .of_and ?_
  rintro rfl
  exact .lift_bind (fun _ _ ↦ triple_answer) hnothing

end Call

section World

variable {F : ℕ → Factory ρ} {w v : World ρ υ}

/-- The record that the next message to the client is handled with. -/
def World.recordOf (w : World ρ υ) (F : ℕ → Factory ρ) (c : ℕ) : Record ρ := (F c).recordOf (w.records c)

theorem step_other (w : World ρ υ) (event : Event ρ υ F) {c : ℕ} (h : c ≠ event.client) :
    (w.step event).records c = w.records c ∧ (w.step event).answers c = w.answers c :=
  ⟨Function.update_of_ne h _ _, Function.update_of_ne h _ _⟩

/-- What one message does to the context of its client. -/
theorem step_cases (w : World ρ υ) (event : Event ρ υ F) :
    (w.step event).recordOf F event.client = w.recordOf F event.client ∨
      ∃ around a config t x, event.call = .fit around a config ∧
        (w.recordOf F event.client).lastRound < config.round ∧ Completed a config t ∧
        (w.step event).recordOf F event.client =
          (w.recordOf F event.client).advance config t (captureRng (F event.client).scope x) := by
  have hends := triple_call event.call (event.task w) ⟨rfl, rfl⟩
  have hcases {t : Task ρ} (h : CallEnds event.call (w.recordOf F event.client) t) :
      (F event.client).recordOf t.record = w.recordOf F event.client ∨
        ∃ around a config t' x, event.call = .fit around a config ∧
          (w.recordOf F event.client).lastRound < config.round ∧ Completed a config t' ∧
          (F event.client).recordOf t.record =
            (w.recordOf F event.client).advance config t' (captureRng (F event.client).scope x) := by
    obtain ⟨around, a, config, hcall, hround, -, t', x, hcompleted, hrecord⟩ | ⟨-, hrecord⟩ := h
    · refine .inr ⟨around, a, config, t', x, hcall, hround, hcompleted, ?_⟩
      rw [hrecord]
      rfl
    · rw [hrecord]
      exact .inl rfl
  have hafter : (w.step event).recordOf F event.client = (F event.client).recordOf (event.recordAfter w) :=
    congrArg (F event.client).recordOf (Function.update_self _ _ _)
  rw [hafter, Event.recordAfter]
  cases hrun : event.call.run.run (event.task w) with
  | ok a t => exact hcases (hends.1 a t hrun).1
  | error e t =>
    rw [contextAfter]
    split_ifs
    · exact hcases (hends.2 e t hrun)
    · exact .inl rfl

/-- The round of a `fit` that has returned. -/
def fitRound (p : Except PyError (Answer ρ υ) × List Sent) : Option ℤ :=
  match p.1 with
  | .ok (.fit reply) => reply.record.map Record.lastRound
  | _ => none

/-- A task ends its lease, and a `fit` that returns has committed it. -/
def LeaseEnded (p : Except PyError (Answer ρ υ) × List Sent) : Prop :=
  (Committed p.2 ∨ Uncommitted p.2) ∧ ∀ reply, p.1 = .ok (.fit reply) → Committed p.2

/-- What holds of a client between two messages. -/
structure Sound (F : ℕ → Factory ρ) (w : World ρ υ) (c : ℕ) : Prop where
  fits : Fits (F c).scope (w.recordOf F c).rng
  leases : ∀ p ∈ w.answers c, LeaseEnded p
  rounds : ((w.answers c).filterMap fitRound).Pairwise (· < ·)
  last : ∀ n ∈ (w.answers c).filterMap fitRound, n ≤ (w.recordOf F c).lastRound

theorem sound_start (streams : ℕ → Streams ρ) (c : ℕ) : Sound F (World.start streams : World ρ υ) c where
  fits := fits_none
  leases := by simp [World.start]
  rounds := .nil
  last := by simp [World.start]

theorem CallEnds.leaseEnded {F : Factory ρ} {call : Call ρ υ F} {state : Record ρ} {t : Task ρ}
    (h : CallEnds call state t) : Committed t.sent ∨ Uncommitted t.sent := by
  obtain ⟨around, a, config, -, -, hcommitted, -⟩ | ⟨huncommitted, -⟩ := h
  · exact .inl hcommitted
  · exact .inr huncommitted

/-- What a message adds to the answers of its client. -/
theorem leaseEnded_event (w : World ρ υ) (event : Event ρ υ F) :
    LeaseEnded (event.call.run.value (event.task w), (event.call.run.after (event.task w)).sent) := by
  have hends := triple_call event.call (event.task w) ⟨rfl, rfl⟩
  rw [Method.value, Method.after]
  cases hrun : event.call.run.run (event.task w) with
  | ok a t =>
    obtain ⟨hcall, hanswer⟩ := hends.1 a t hrun
    refine ⟨hcall.leaseEnded, fun reply hreply ↦ ?_⟩
    obtain ⟨-, around, a', config, -, -, hcommitted, -⟩ := hanswer reply (Except.ok.inj hreply)
    exact hcommitted
  | error e t =>
    refine ⟨(hends.2 e t hrun).leaseEnded, ?_⟩
    rintro reply ⟨⟩

/-- A `fit` that returns is for a later round than the context was at, and the context is at its round then. -/
theorem fitRound_event (w : World ρ υ) (event : Event ρ υ F) {n : ℤ}
    (hn : fitRound (event.call.run.value (event.task w), (event.call.run.after (event.task w)).sent) = some n) :
    (w.recordOf F event.client).lastRound < n ∧ ((w.step event).recordOf F event.client).lastRound = n := by
  have hends := triple_call event.call (event.task w) ⟨rfl, rfl⟩
  have hafter : (w.step event).recordOf F event.client = (F event.client).recordOf (event.recordAfter w) :=
    congrArg (F event.client).recordOf (Function.update_self _ _ _)
  rw [hafter, Event.recordAfter]
  rw [Method.value] at hn
  cases hrun : event.call.run.run (event.task w) with
  | error e t =>
    rw [hrun] at hn
    cases hn
  | ok a t =>
    rw [hrun] at hn
    cases a with
    | properties | parameters => cases hn
    | fit reply =>
      obtain ⟨hrecord, around, a, config, -, hround, -, t', x, -, hadvance⟩ := (hends.1 _ t hrun).2 reply rfl
      change reply.record.map Record.lastRound = some n at hn
      rw [hrecord, hadvance] at hn
      cases hn
      rw [contextAfter, hadvance]
      exact ⟨hround, rfl⟩

theorem sound_step {c : ℕ} (h : Sound F w c) (event : Event ρ υ F) : Sound F (w.step event) c := by
  by_cases hc : c = event.client
  · subst hc
    have hrecord : (w.recordOf F event.client).lastRound ≤ ((w.step event).recordOf F event.client).lastRound ∧
        Fits (F event.client).scope ((w.step event).recordOf F event.client).rng := by
      obtain hsame | ⟨around, a, config, t, x, -, hround, -, hadvance⟩ := step_cases w event
      · rw [hsame]
        exact ⟨le_rfl, h.fits⟩
      · rw [hadvance]
        refine ⟨hround.le, ?_⟩
        rintro rng ⟨⟩
        exact ⟨x, rfl⟩
    have hlast (n : ℤ) (hn : n ∈ (w.answers event.client).filterMap fitRound) :
        n ≤ ((w.step event).recordOf F event.client).lastRound := (h.last n hn).trans hrecord.1
    have hanswers : (w.step event).answers event.client = w.answers event.client ++
        if event.call.scoped then
          [(event.call.run.value (event.task w), (event.call.run.after (event.task w)).sent)]
        else [] := Function.update_self _ _ _
    by_cases hscoped : event.call.scoped = true
    · rw [if_pos hscoped] at hanswers
      have hround {n : ℤ} := fitRound_event w event (n := n)
      refine ⟨hrecord.2, ?_, ?_, ?_⟩
      · rw [hanswers]
        intro p hp
        rcases List.mem_append.mp hp with hp | hp
        · exact h.leases p hp
        · rw [List.mem_singleton.mp hp]
          exact leaseEnded_event w event
      · rw [hanswers, List.filterMap_append, List.pairwise_append]
        refine ⟨h.rounds, ?_, fun m hm n hn ↦ ?_⟩
        · rw [List.filterMap_cons]
          cases fitRound (event.call.run.value (event.task w), (event.call.run.after (event.task w)).sent) with
          | none => exact .nil
          | some n => exact List.pairwise_singleton _ _
        · obtain ⟨p, hp, hp'⟩ := List.mem_filterMap.mp hn
          rw [List.mem_singleton.mp hp] at hp'
          exact (h.last m hm).trans_lt (hround hp').1
      · rw [hanswers, List.filterMap_append]
        intro n hn
        rcases List.mem_append.mp hn with hn | hn
        · exact hlast n hn
        · obtain ⟨p, hp, hp'⟩ := List.mem_filterMap.mp hn
          rw [List.mem_singleton.mp hp] at hp'
          exact (hround hp').2.ge
    · rw [if_neg hscoped, List.append_nil] at hanswers
      refine ⟨hrecord.2, ?_, ?_, ?_⟩
      · rw [hanswers]
        exact h.leases
      · rw [hanswers]
        exact h.rounds
      · rw [hanswers]
        exact hlast
  · obtain ⟨hrecords, hanswers⟩ := step_other w event hc
    have hrecord : (w.step event).recordOf F c = w.recordOf F c := congrArg (F c).recordOf hrecords
    refine ⟨?_, ?_, ?_, ?_⟩
    · rw [hrecord]
      exact h.fits
    · rw [hanswers]
      exact h.leases
    · rw [hanswers]
      exact h.rounds
    · rw [hanswers, hrecord]
      exact h.last

theorem sound_runAll {c : ℕ} (h : Sound F w c) (events : List (Event ρ υ F)) : Sound F (w.runAll events) c := by
  induction events generalizing w with
  | nil => exact h
  | cons event events ih => exact ih (sound_step h event)

/-- The same message on the first worker. -/
def Event.onFirst (event : Event ρ υ F) : Event ρ υ F := { event with worker := 0 }

/-- The messages to a client, one after another on one worker. -/
def alone (c : ℕ) (events : List (Event ρ υ F)) : List (Event ρ υ F) :=
  (events.filter fun event ↦ event.client = c).map Event.onFirst

/-- The worlds are at the same point of a client. -/
structure Agree (F : ℕ → Factory ρ) (c : ℕ) (w v : World ρ υ) : Prop where
  record : w.recordOf F c = v.recordOf F c
  answers : w.answers c = v.answers c

theorem coupled_call {F : Factory ρ} {call : Call ρ υ F} (hcall : call.scoped = true) {s t : Task ρ}
    (hrecord : F.recordOf s.record = F.recordOf t.record) (hsent : s.sent = t.sent)
    (hfits : Fits F.scope (F.recordOf s.record).rng) :
    Method.Coupled SameClient SameClient (call.run.run s) (call.run.run t) := by
  have hsame : SameClient { s with record := some (F.recordOf s.record) }
      { t with record := some (F.recordOf t.record) } := ⟨congrArg some hrecord, hsent⟩
  have hrest : Method.Couples SameClient
      ((liftM call.admitted : EStateM PyError (Task ρ) Unit) >>= fun _ ↦ call.answer (F.recordOf s.record))
      SameClient SameClient := .lift_bind (fun _ _ ↦ couples_answer hcall hfits) fun _ _ h ↦ h
  by_cases howns : F.Owns (F.recordOf s.record)
  · have hs := run_logicalState (F := F) s
    have ht := run_logicalState (F := F) t
    rw [if_pos howns] at hs
    rw [← hrecord, if_pos howns] at ht
    rw [Call.run, Method.run_bind_of_ok hs, Method.run_bind_of_ok ht]
    exact hrest _ _ ⟨rfl, hsent⟩
  · have hs := run_logicalState (F := F) s
    have ht := run_logicalState (F := F) t
    rw [if_neg howns] at hs
    rw [← hrecord, if_neg howns] at ht
    rw [Call.run, Method.run_bind_of_error hs, Method.run_bind_of_error ht]
    exact .error ⟨rfl, hsent⟩

theorem agree_step {event : Event ρ υ F} (h : Agree F event.client w v)
    (hfits : Fits (F event.client).scope (w.recordOf F event.client).rng) :
    Agree F event.client (w.step event) (v.step event.onFirst) := by
  have hw : (w.step event).recordOf F event.client = (F event.client).recordOf (event.recordAfter w) :=
    congrArg (F event.client).recordOf (Function.update_self _ _ _)
  have hv : (v.step event.onFirst).recordOf F event.client = (F event.client).recordOf (event.onFirst.recordAfter v) :=
    congrArg (F event.client).recordOf (Function.update_self _ _ _)
  have haw : (w.step event).answers event.client = w.answers event.client ++
      if event.call.scoped then
        [(event.call.run.value (event.task w), (event.call.run.after (event.task w)).sent)]
      else [] := Function.update_self _ _ _
  have hav : (v.step event.onFirst).answers event.client = v.answers event.client ++
      if event.call.scoped then
        [(event.call.run.value (event.onFirst.task v), (event.call.run.after (event.onFirst.task v)).sent)]
      else [] := Function.update_self _ _ _
  by_cases hscoped : event.call.scoped = true
  · rw [if_pos hscoped] at haw hav
    have hcoupled := coupled_call hscoped (s := event.task w) (t := event.onFirst.task v) h.record rfl hfits
    rw [Method.value, Method.after] at haw hav
    rw [Event.recordAfter] at hw hv
    change (v.step event.onFirst).recordOf F event.client = (F event.client).recordOf
      (contextAfter event.kept (v.records event.client) (event.call.run.run (event.onFirst.task v))) at hv
    generalize event.call.run.run (event.task w) = r at hcoupled haw hw
    generalize event.call.run.run (event.onFirst.task v) = r' at hcoupled hav hv
    cases hcoupled with
    | ok hsame =>
      rw [contextAfter] at hw hv
      dsimp only at haw hav
      refine ⟨?_, ?_⟩
      · rw [hw, hv, hsame.1]
      · rw [haw, hav, h.answers, hsame.2]
    | error hsame =>
      rw [contextAfter] at hw hv
      dsimp only at haw hav
      refine ⟨?_, ?_⟩
      · rw [hw, hv, hsame.1]
        split_ifs
        · rfl
        · exact h.record
      · rw [haw, hav, h.answers, hsame.2]
  · rw [if_neg hscoped, List.append_nil] at haw hav
    have hunchanged (w : World ρ υ) (event : Event ρ υ F) (hscoped : ¬event.call.scoped = true) :
        (w.step event).recordOf F event.client = w.recordOf F event.client := by
      obtain hsame | ⟨around, a, config, t, x, hcall, -⟩ := step_cases w event
      · exact hsame
      · exact absurd (by rw [hcall]; rfl) hscoped
    exact ⟨(hunchanged w event hscoped).trans (h.record.trans (hunchanged v event.onFirst hscoped).symm),
      haw.trans (h.answers.trans hav.symm)⟩

theorem agree_runAll {c : ℕ} (events : List (Event ρ υ F)) (h : Agree F c w v) (hw : Sound F w c) :
    Agree F c (w.runAll events) (v.runAll (alone c events)) := by
  induction events generalizing w v with
  | nil => exact h
  | cons event events ih =>
    by_cases hc : event.client = c
    · subst hc
      have hstep := ih (agree_step h hw.fits) (sound_step hw event)
      rw [alone, List.filter_cons_of_pos (by simp), List.map_cons]
      exact hstep
    · obtain ⟨hrecords, hanswers⟩ := step_other w event (Ne.symm hc)
      have hstep := ih (v := v) (w := w.step event)
        ⟨(congrArg (F c).recordOf hrecords).trans h.record, hanswers.trans h.answers⟩ (sound_step hw event)
      rw [alone, List.filter_cons_of_neg (by simpa using hc)]
      exact hstep

/-- The generators of a worker are changed by `get_parameters` alone. -/
theorem streams_step (w : World ρ υ) {event : Event ρ υ F} (hscoped : event.call.scoped = true)
    (hfits : Fits (F event.client).scope (w.recordOf F event.client).rng) : (w.step event).streams = w.streams := by
  have hkept : (event.call.run.after (event.task w)).streams = w.streams event.worker := by
    have hlogical := run_logicalState (F := F event.client) (event.task w)
    have hrest : Method.Respects StreamsKept ((liftM event.call.admitted : EStateM PyError (Task ρ) Unit) >>=
        fun _ ↦ event.call.answer (w.recordOf F event.client)) :=
      .lift_bind fun _ _ ↦ answer_kept hscoped hfits
    by_cases howns : (F event.client).Owns ((F event.client).recordOf (event.task w).record)
    · rw [if_pos howns] at hlogical
      rw [Call.run, Method.after_bind_of_ok hlogical]
      exact hrest _
    · rw [if_neg howns] at hlogical
      rw [Call.run, Method.after, Method.run_bind_of_error hlogical]
      rfl
  change Function.update w.streams event.worker _ = w.streams
  rw [hkept, Function.update_eq_self]

end World

end Runs

end SplitFleet.VirtualClient
