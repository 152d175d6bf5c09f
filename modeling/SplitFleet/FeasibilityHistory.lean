import SplitFleet.Feasibility

set_option autoImplicit false

namespace SplitFleet.FeasibilityHistory

open Lib Feasibility

/-- What can happen to a filter. -/
inductive Call
  | failure (round : ℤ) (cid : Cid) (boundary : Option String) (kind : String) (reason : Option String)
  | memory (cid : Cid) (boundary : String) (clientPeakMb serverPeakMb : Option ℚ)
  /-- The state is saved, and a new filter loads it and takes over. -/
  | reload

variable (normalize : String → String)

def apply (f : FeasibilityFilter) : Call → FeasibilityFilter
  | .failure round cid boundary kind reason => f.observeFailure round cid boundary (normalize kind) reason
  | .memory cid boundary client server => f.observeMemory cid boundary client server
  | .reload => (FeasibilityFilter.fresh f.failureCooldownRounds f.cooldown_pos).loadStateDict f.stateDict

/-- The filter after a history. -/
def run (k : ℤ) (hk : 1 ≤ k) (h : List Call) : FeasibilityFilter := h.foldl (apply normalize) (.fresh k hk)

section Readings

/-- The last thing that the calls of a history tell. -/
def latest {α : Type} (tells : Call → Option α) (h : List Call) : Option α := (h.filterMap tells).getLast?

/-- The boundary is invalid for everyone. -/
def invalidReason (boundary : String) : Call → Option String
  | .failure _ _ b kind reason =>
    if b = some boundary ∧ (normalize kind = "invalid" ∨ normalize kind = "programming") then
      some ("runtime_invalid:" ++ FeasibilityFilter.failureText reason (normalize kind))
    else none
  | _ => none

/-- The boundary is invalid for one client. -/
def abiReason (cid : Cid) (boundary : String) : Call → Option String
  | .failure _ c b kind reason =>
    if c = cid ∧ b = some boundary ∧ normalize kind = "abi" then
      some ("runtime_invalid:" ++ FeasibilityFilter.failureText reason (normalize kind))
    else none
  | _ => none

/-- The round of a failure that the client cools down from. -/
def failedIn (cid : Cid) (boundary : String) : Call → Option ℤ
  | .failure round c b kind _ =>
    if c = cid ∧ b = some boundary ∧ (normalize kind = "oom" ∨ normalize kind = "runtime") then some round else none
  | _ => none

/-- `int(mb * 1024 * 1024)`, where there is a measurement and it is not negative. -/
def measured : Option ℚ → Option ℤ
  | some mb => if 0 ≤ mb then some (FeasibilityFilter.peakBytes mb) else none
  | none => none

def clientPeak (cid : Cid) (boundary : String) : Call → Option ℤ
  | .memory c b mb _ => if c = cid ∧ b = boundary then measured mb else none
  | _ => none

def serverPeak (boundary : String) : Call → Option ℤ
  | .memory _ b _ mb => if b = boundary then measured mb else none
  | _ => none

variable {α : Type} {tells : Call → Option α} {h : List Call} {call : Call}

theorem latest_concat : latest tells (h ++ [call]) = (tells call).or (latest tells h) := by
  rw [latest, List.filterMap_append, latest]
  cases hc : tells call with
  | none => simp [hc]
  | some a => simp [hc]

theorem latest_silent (hc : tells call = none) : latest tells (h ++ [call]) = latest tells h := by
  rw [latest_concat, hc, Option.none_or]

theorem latest_ne_none_iff : latest tells h ≠ none ↔ ∃ call ∈ h, tells call ≠ none := by
  rw [latest, Ne, List.getLast?_eq_none_iff, List.filterMap_eq_nil_iff]
  push Not
  rfl

/-- Calls that tell as much, each in the place of another one. -/
theorem latest_flatMap {share : Call → List Call} (hs : ∀ c, (share c).filterMap tells = (tells c).toList) :
    latest tells (h.flatMap share) = latest tells h := by
  rw [latest, List.filterMap_flatMap, latest, List.filterMap_eq_flatMap_toList]
  simp only [hs]

end Readings

/-- The tables of a filter are what the history tells last. -/
structure Recounts (k : ℤ) (h : List Call) (f : FeasibilityFilter) : Prop where
  cooldown : f.failureCooldownRounds = k
  invalid : ∀ b, f.invalidBoundaries.get? b = latest (invalidReason normalize b) h
  barred : ∀ cid b, f.invalidClientBoundaries.get? (cid, b) = latest (abiReason normalize cid b) h
  cooling : ∀ cid b, f.blacklistUntil.get? (cid, b) = (latest (failedIn normalize cid b) h).map (· + k)
  client : ∀ cid b, f.clientPeakBytes.get? (cid, b) = latest (clientPeak cid b) h
  server : ∀ b, f.serverPeakBytes.get? b = latest (serverPeak b) h

section Run

variable {normalize} {k : ℤ} {h : List Call} {f : FeasibilityFilter}

theorem recounts_fresh (hk : 1 ≤ k) : Recounts normalize k [] (.fresh k hk) :=
  ⟨rfl, fun _ ↦ rfl, fun _ _ ↦ rfl, fun _ _ ↦ rfl, fun _ _ ↦ rfl, fun _ ↦ rfl⟩

section Failure

variable {round : ℤ} {cid : Cid} {boundary : Option String} {kind : String} {reason : Option String}

/-- The five ways in which a failure is recorded, beside its count. -/
inductive Recorded (f : FeasibilityFilter) (round : ℤ) (cid : Cid) (kind : String) (reason : Option String)
    (counts : Dict (Cid × String) ℤ) : Option String → FeasibilityFilter → Prop
  | nowhere : Recorded f round cid kind reason counts none { f with failureCounts := counts }
  | abi {b : String} (hk : kind = "abi") : Recorded f round cid kind reason counts (some b)
      { f with
        failureCounts := counts
        invalidClientBoundaries := f.invalidClientBoundaries.insert (cid, b)
          ("runtime_invalid:" ++ FeasibilityFilter.failureText reason kind) }
  | invalid {b : String} (hk : kind = "invalid" ∨ kind = "programming") :
    Recorded f round cid kind reason counts (some b)
      { f with
        failureCounts := counts
        invalidBoundaries := f.invalidBoundaries.insert b
          ("runtime_invalid:" ++ FeasibilityFilter.failureText reason kind) }
  | cools {b : String} (hk : kind = "oom" ∨ kind = "runtime") : Recorded f round cid kind reason counts (some b)
      { f with
        failureCounts := counts
        blacklistUntil := f.blacklistUntil.insert (cid, b) (round + f.failureCooldownRounds) }
  | counted {b : String} (ha : kind ≠ "abi") (hi : ¬ (kind = "invalid" ∨ kind = "programming"))
      (hc : ¬ (kind = "oom" ∨ kind = "runtime")) :
    Recorded f round cid kind reason counts (some b) { f with failureCounts := counts }

theorem recorded_observeFailure :
    Recorded f round cid kind reason (f.countFailure cid kind).failureCounts boundary
      (f.observeFailure round cid boundary kind reason) := by
  cases boundary with
  | none => exact .nowhere
  | some b =>
    rw [FeasibilityFilter.observeFailure]
    by_cases ha : kind = "abi"
    · rw [if_pos ha]
      exact .abi ha
    · rw [if_neg ha]
      by_cases hi : kind = "invalid" ∨ kind = "programming"
      · rw [if_pos hi]
        exact .invalid hi
      · rw [if_neg hi]
        by_cases hc : kind = "oom" ∨ kind = "runtime"
        · rw [if_pos hc]
          exact .cools hc
        · rw [if_neg hc]
          exact .counted ha hi hc

end Failure

section Memory

variable (f : FeasibilityFilter) (cid : Cid) (boundary : String) (client server : Option ℚ)

theorem observeMemory_eq : f.observeMemory cid boundary client server =
    { f with
      clientPeakBytes := match measured client with
        | some bytes => f.clientPeakBytes.insert (cid, boundary) bytes
        | none => f.clientPeakBytes
      serverPeakBytes := match measured server with
        | some bytes => f.serverPeakBytes.insert boundary bytes
        | none => f.serverPeakBytes } := by
  unfold FeasibilityFilter.observeMemory
  cases client with
  | none =>
    cases server with
    | none => rfl
    | some y => by_cases hy : 0 ≤ y <;> simp [measured, hy]
  | some x =>
    cases server with
    | none => by_cases hx : 0 ≤ x <;> simp [measured, hx]
    | some y => by_cases hx : 0 ≤ x <;> by_cases hy : 0 ≤ y <;> simp [measured, hx, hy]

end Memory

theorem Recounts.failure (r : Recounts normalize k h f) (round : ℤ) (cid : Cid) (boundary : Option String)
    (kind : String) (reason : Option String) :
    Recounts normalize k (h ++ [.failure round cid boundary kind reason])
      (f.observeFailure round cid boundary (normalize kind) reason) := by
  have hrec : Recorded f round cid (normalize kind) reason _ boundary _ := recorded_observeFailure
  generalize f.observeFailure round cid boundary (normalize kind) reason = f' at hrec
  constructor
  · cases hrec <;> exact r.cooldown
  · intro b
    rw [latest_concat, invalidReason]
    cases hrec with
    | nowhere => simpa using r.invalid b
    | abi hk => simpa [hk] using r.invalid b
    | cools hk => rcases hk with hk | hk <;> simpa [hk] using r.invalid b
    | counted _ hi _ => simpa [hi] using r.invalid b
    | @invalid b' hk =>
      by_cases hb : b' = b
      · simp [hb, hk]
      · simpa [hb] using r.invalid b
  · intro c b
    rw [latest_concat, abiReason]
    cases hrec with
    | nowhere => simpa using r.barred c b
    | invalid hk => rcases hk with hk | hk <;> simpa [hk] using r.barred c b
    | cools hk => rcases hk with hk | hk <;> simpa [hk] using r.barred c b
    | counted ha _ _ => simpa [ha] using r.barred c b
    | @abi b' hk =>
      by_cases hb : cid = c ∧ b' = b
      · simp [hb, hk]
      · simpa [hk, hb] using r.barred c b
  · intro c b
    rw [latest_concat, failedIn]
    cases hrec with
    | nowhere => simpa using r.cooling c b
    | abi hk => simpa [hk] using r.cooling c b
    | invalid hk => rcases hk with hk | hk <;> simpa [hk] using r.cooling c b
    | counted _ _ hc => simpa [hc] using r.cooling c b
    | @cools b' hk =>
      by_cases hb : cid = c ∧ b' = b
      · simp [hb, hk, r.cooldown]
      · simpa [hk, hb] using r.cooling c b
  · intro c b
    rw [latest_silent rfl, ← r.client]
    cases hrec <;> rfl
  · intro b
    rw [latest_silent rfl, ← r.server]
    cases hrec <;> rfl

theorem Recounts.memory (r : Recounts normalize k h f) (cid : Cid) (boundary : String) (client server : Option ℚ) :
    Recounts normalize k (h ++ [.memory cid boundary client server]) (f.observeMemory cid boundary client server) := by
  rw [observeMemory_eq]
  constructor
  · exact r.cooldown
  · intro b
    rw [latest_silent rfl, ← r.invalid]
  · intro c b
    rw [latest_silent rfl, ← r.barred]
  · intro c b
    rw [latest_silent rfl, ← r.cooling]
  · intro c b
    rw [latest_concat, clientPeak, ← r.client]
    by_cases hb : cid = c ∧ boundary = b
    · rw [if_pos hb]
      cases measured client <;> simp [hb]
    · rw [if_neg hb]
      cases measured client <;> simp [hb]
  · intro b
    rw [latest_concat, serverPeak, ← r.server]
    by_cases hb : boundary = b
    · rw [if_pos hb]
      cases measured server <;> simp [hb]
    · rw [if_neg hb]
      cases measured server <;> simp [hb]

/-- A filter that has loaded the state of another one has its tables. -/
theorem Recounts.reload (r : Recounts normalize k h f) :
    Recounts normalize k (h ++ [.reload]) (apply normalize f .reload) := by
  rw [apply]
  constructor
  · exact r.cooldown
  · intro b
    rw [FeasibilityFilter.invalidBoundaries_load, latest_silent rfl, ← r.invalid]
  · intro c b
    rw [FeasibilityFilter.invalidClientBoundaries_load, latest_silent rfl, ← r.barred]
  · intro c b
    rw [latest_silent rfl, ← r.cooling]
    exact get?_ofRows_rows f.blacklistUntil (c, b)
  · intro c b
    rw [latest_silent rfl, ← r.client]
    exact get?_ofRows_rows f.clientPeakBytes (c, b)
  · intro b
    rw [latest_silent rfl, ← r.server]
    simp [FeasibilityFilter.loadStateDict, FeasibilityFilter.stateDict, Dict.ofList_entries]

theorem recounts_run (hk : 1 ≤ k) (h : List Call) : Recounts normalize k h (run normalize k hk h) := by
  induction h using List.reverseRecOn with
  | nil => exact recounts_fresh hk
  | append_singleton h call ih =>
    rw [run, List.foldl_append, List.foldl_cons, List.foldl_nil]
    cases call with
    | failure round cid boundary kind reason => exact ih.failure round cid boundary kind reason
    | memory cid boundary client server => exact ih.memory cid boundary client server
    | reload => exact ih.reload

end Run

section Verdict

variable (k : ℤ) (h : List Call) (c : SplitCandidateDescriptor) (cid : Cid) (q : ℤ) (capabilities : Capabilities)

/-- The call reports the boundary invalid, to everyone. -/
def Invalidates (boundary : String) : Call → Prop
  | .failure _ _ b kind _ => b = some boundary ∧ (normalize kind = "invalid" ∨ normalize kind = "programming")
  | _ => False

def Bars (cid : Cid) (boundary : String) : Call → Prop
  | .failure _ c b kind _ => c = cid ∧ b = some boundary ∧ normalize kind = "abi"
  | _ => False

/-- What a history has against a cut, for a client and a round, with the memory that there is. -/
inductive HistoryObjects (boundary : String) (clientLimit serverLimit : Option ℤ) : Prop
  | invalid (call : Call) (hm : call ∈ h) (hi : Invalidates normalize boundary call)
  | abi (call : Call) (hm : call ∈ h) (hi : Bars normalize cid boundary call)
  | cooldown (r : ℤ) (hr : latest (failedIn normalize cid boundary) h = some r) (hq : q ≤ r + k)
  | client (he : exceeds (latest (clientPeak cid boundary) h) clientLimit = true)
  | server (he : exceeds (latest (serverPeak boundary) h) serverLimit = true)

/-- What the candidate has against itself: the estimates count until a peak is observed. -/
inductive CandidateObjects : Prop
  | invalid (hv : c.valid = false)
  | untrainable (ht : c.trainable = false)
  | abi (ha : abiAllowed c capabilities = false)
  | client (hn : latest (clientPeak cid c.boundary) h = none)
      (he : exceeds c.clientMemoryBytes capabilities.clientMemoryBytes = true)
  | server (hn : latest (serverPeak c.boundary) h = none)
      (he : exceeds c.serverMemoryBytes capabilities.serverMemoryBytes = true)

/-- The same cut with nothing against it but what the filter remembers. -/
def spotless (c : SplitCandidateDescriptor) : SplitCandidateDescriptor :=
  { c with valid := true, trainable := true, clientMemoryBytes := none, serverMemoryBytes := none }

variable {normalize k h c cid q capabilities}

theorem exists_invalidates_iff {b : String} :
    latest (invalidReason normalize b) h ≠ none ↔ ∃ call ∈ h, Invalidates normalize b call := by
  rw [latest_ne_none_iff]
  refine exists_congr fun call ↦ and_congr_right fun _ ↦ ?_
  cases call <;> simp [invalidReason, Invalidates, or_iff_not_imp_left]

theorem exists_bars_iff {b : String} :
    latest (abiReason normalize cid b) h ≠ none ↔ ∃ call ∈ h, Bars normalize cid b call := by
  rw [latest_ne_none_iff]
  refine exists_congr fun call ↦ and_congr_right fun _ ↦ ?_
  cases call <;> simp [abiReason, Bars]

/-- A cut is admitted where nothing speaks against it. -/
theorem check_feasible_iff {f : FeasibilityFilter} : (f.check c cid q capabilities).feasible = true ↔
    c.valid = true ∧ f.invalidBoundaries.get? c.boundary = none ∧
    f.invalidClientBoundaries.get? (cid, c.boundary) = none ∧ c.trainable = true ∧
    abiAllowed c capabilities = true ∧ f.cooldownOf cid c.boundary < q ∧
    exceeds (f.clientDemand cid c) capabilities.clientMemoryBytes = false ∧
    exceeds (f.serverDemand c) capabilities.serverMemoryBytes = false := by
  rw [FeasibilityFilter.check]
  cases c.valid with
  | false => simp
  | true =>
    cases f.invalidBoundaries.get? c.boundary with
    | some reason => simp
    | none =>
      cases f.invalidClientBoundaries.get? (cid, c.boundary) with
      | some reason => simp
      | none =>
        cases c.trainable with
        | false => simp
        | true =>
          cases abiAllowed c capabilities with
          | false => simp
          | true =>
            by_cases hq : q ≤ f.cooldownOf cid c.boundary
            · simp [hq]
            · cases exceeds (f.clientDemand cid c) capabilities.clientMemoryBytes with
              | true => simp [hq]
              | false => cases exceeds (f.serverDemand c) capabilities.serverMemoryBytes <;> simp [hq, lt_of_not_ge]

/-- The demand is the last peak, or the estimate while there is none. -/
theorem exceeds_or_iff {peak estimate limit : Option ℤ} :
    exceeds (peak.or estimate) limit = true ↔
      exceeds peak limit = true ∨ peak = none ∧ exceeds estimate limit = true := by
  cases peak with
  | none => simp [exceeds]
  | some bytes => simp

/-- The cooldown of a cut, by what the history tells last of it. -/
theorem le_cooldownOf_iff {f : FeasibilityFilter} (r : Recounts normalize k h f) :
    q ≤ f.cooldownOf cid c.boundary ↔
      (∃ round, latest (failedIn normalize cid c.boundary) h = some round ∧ q ≤ round + k) ∨
      latest (failedIn normalize cid c.boundary) h = none ∧ q < 0 := by
  rw [FeasibilityFilter.cooldownOf, r.cooling]
  cases latest (failedIn normalize cid c.boundary) h with
  | none =>
    simp
    omega
  | some round => simp

theorem Recounts.refused_iff {f : FeasibilityFilter} (r : Recounts normalize k h f) :
    (f.check c cid q capabilities).feasible = false ↔ CandidateObjects h c cid capabilities ∨
      HistoryObjects normalize k h cid q c.boundary capabilities.clientMemoryBytes capabilities.serverMemoryBytes ∨
      latest (failedIn normalize cid c.boundary) h = none ∧ q < 0 := by
  rw [← Bool.not_eq_true, check_feasible_iff, ← not_le, le_cooldownOf_iff r, FeasibilityFilter.clientDemand, r.client,
    FeasibilityFilter.serverDemand, r.server, r.invalid, r.barred, ← Bool.not_eq_true (exceeds _ _), exceeds_or_iff,
    ← Bool.not_eq_true (exceeds _ _), exceeds_or_iff]
  constructor
  · intro hno
    by_contra hnone
    obtain ⟨hc, hh, hn⟩ : ¬ _ ∧ ¬ _ ∧ ¬ _ := by simpa only [not_or] using hnone
    refine hno ⟨?_, ?_, ?_, ?_, ?_, ?_, ?_, ?_⟩
    · exact Bool.of_not_eq_false fun hv ↦ hc (.invalid hv)
    · by_contra hi
      obtain ⟨call, hm, hi⟩ := exists_invalidates_iff.mp hi
      exact hh (.invalid call hm hi)
    · by_contra hb
      obtain ⟨call, hm, hb⟩ := exists_bars_iff.mp hb
      exact hh (.abi call hm hb)
    · exact Bool.of_not_eq_false fun ht ↦ hc (.untrainable ht)
    · exact Bool.of_not_eq_false fun ha ↦ hc (.abi ha)
    · rintro (⟨round, hr, hq⟩ | hq)
      · exact hh (.cooldown round hr hq)
      · exact hn hq
    · rintro (he | ⟨hp, he⟩)
      · exact hh (.client he)
      · exact hc (.client hp he)
    · rintro (he | ⟨hp, he⟩)
      · exact hh (.server he)
      · exact hc (.server hp he)
  · rintro hobj ⟨hv, hi, hb, ht, ha, hq, hcl, hs⟩
    rcases hobj with hobj | hobj | hobj
    · cases hobj with
      | invalid hv' => simp [hv'] at hv
      | untrainable ht' => simp [ht'] at ht
      | abi ha' => simp [ha'] at ha
      | client hp he => exact hcl (.inr ⟨hp, he⟩)
      | server hp he => exact hs (.inr ⟨hp, he⟩)
    · cases hobj with
      | invalid call hm hi' => exact exists_invalidates_iff.mpr ⟨call, hm, hi'⟩ hi
      | abi call hm hb' => exact exists_bars_iff.mpr ⟨call, hm, hb'⟩ hb
      | cooldown round hr hle => exact hq (.inl ⟨round, hr, hle⟩)
      | client he => exact hcl (.inl he)
      | server he => exact hs (.inl he)
    · exact hq (.inr hobj)

/-- Two histories that tell the same of a cut give the same verdicts on it. -/
theorem check_congr {f g : FeasibilityFilter} {h' : List Call} (r : Recounts normalize k h f)
    (r' : Recounts normalize k h' g)
    (hi : latest (invalidReason normalize c.boundary) h' = latest (invalidReason normalize c.boundary) h)
    (hb : latest (abiReason normalize cid c.boundary) h' = latest (abiReason normalize cid c.boundary) h)
    (hf : latest (failedIn normalize cid c.boundary) h' = latest (failedIn normalize cid c.boundary) h)
    (hc : latest (clientPeak cid c.boundary) h' = latest (clientPeak cid c.boundary) h)
    (hs : latest (serverPeak c.boundary) h' = latest (serverPeak c.boundary) h) :
    g.check c cid q capabilities = f.check c cid q capabilities := by
  simp only [FeasibilityFilter.check, FeasibilityFilter.cooldownOf, FeasibilityFilter.clientDemand,
    FeasibilityFilter.serverDemand, r.invalid, r'.invalid, r.barred, r'.barred, r.cooling, r'.cooling,
    r.client, r'.client, r.server, r'.server, hi, hb, hf, hc, hs]

section Others

variable (normalize) (cid) (boundary : String)

/-- What a call has to do with one client and one boundary: of the calls of other clients, that the
boundary is invalid for everyone and the peak of the server. -/
def share : Call → List Call
  | .failure round c b kind reason =>
    if c = cid ∨ b = some boundary ∧ (normalize kind = "invalid" ∨ normalize kind = "programming") then
      [.failure round c b kind reason]
    else []
  | .memory c b client server => if c = cid then [.memory c b client server] else [.memory c b none server]
  | .reload => []

variable {normalize cid boundary}

theorem filterMap_one {α : Type} (tells : Call → Option α) (call : Call) :
    [call].filterMap tells = (tells call).toList := by
  cases ht : tells call <;> simp [ht]

theorem share_invalidReason (call : Call) :
    (share normalize cid boundary call).filterMap (invalidReason normalize boundary) =
      (invalidReason normalize boundary call).toList := by
  cases call with
  | failure round c b kind reason =>
    rw [share]
    split_ifs with hs
    · exact filterMap_one _ _
    · have hno : ¬ (b = some boundary ∧ (normalize kind = "invalid" ∨ normalize kind = "programming")) :=
        fun h ↦ hs (.inr h)
      rw [invalidReason, if_neg hno]
      rfl
  | memory c b client server =>
    rw [share]
    split_ifs <;> rfl
  | reload => rfl

theorem share_own {α : Type} {tells : Call → Option α} (hr : tells .reload = none)
    (hm : ∀ c b client server, c ≠ cid → tells (.memory c b client server) = none)
    (hf : ∀ round c b kind reason, c ≠ cid → tells (.failure round c b kind reason) = none) (call : Call) :
    (share normalize cid boundary call).filterMap tells = (tells call).toList := by
  cases call with
  | failure round c b kind reason =>
    rw [share]
    split_ifs with hs
    · exact filterMap_one _ _
    · rw [hf _ _ _ _ _ fun h ↦ hs (.inl h)]
      rfl
  | memory c b client server =>
    rw [share]
    split_ifs with hs
    · exact filterMap_one _ _
    · rw [filterMap_one, hm c b none server hs, hm c b client server hs]
  | reload =>
    rw [hr]
    rfl

theorem share_serverPeak (call : Call) :
    (share normalize cid boundary call).filterMap (serverPeak boundary) = (serverPeak boundary call).toList := by
  cases call with
  | failure round c b kind reason =>
    rw [share]
    split_ifs <;> rfl
  | memory c b client server =>
    rw [share]
    split_ifs
    · exact filterMap_one _ _
    · exact filterMap_one _ _
  | reload => rfl

/-- The verdict on a cut for a client, by the share that the calls have in it. -/
theorem check_share {k : ℤ} (hk : 1 ≤ k) (h : List Call) (c : SplitCandidateDescriptor) (cid : Cid) (q : ℤ)
    (capabilities : Capabilities) :
    (run normalize k hk (h.flatMap (share normalize cid c.boundary))).check c cid q capabilities =
      (run normalize k hk h).check c cid q capabilities := by
  apply check_congr (recounts_run hk h) (recounts_run hk _)
  · exact latest_flatMap share_invalidReason
  · refine latest_flatMap (share_own rfl (fun _ _ _ _ _ ↦ rfl) fun round c b kind reason hc ↦ ?_)
    rw [abiReason, if_neg fun h ↦ hc h.1]
  · refine latest_flatMap (share_own rfl (fun _ _ _ _ _ ↦ rfl) fun round c b kind reason hc ↦ ?_)
    rw [failedIn, if_neg fun h ↦ hc h.1]
  · refine latest_flatMap (share_own rfl (fun c b client server hc ↦ ?_) fun _ _ _ _ _ _ ↦ rfl)
    rw [clientPeak, if_neg fun h ↦ hc h.1]
  · exact latest_flatMap share_serverPeak

end Others

end Verdict

def plainCut : SplitCandidateDescriptor where
  boundary := "cut"
  graphPositionRatio := 1 / 2
  boundaryForwardBytes := none
  prefixParameterBytes := none
  clientMemoryBytes := none
  serverMemoryBytes := none
  trainable := true
  featureAbiId := "abi"
  graphSignature := "graph"
  frameworkBackend := "torch"
  valid := true
  validationError := none
  forwardBytesByBatchSize := .empty
  gradientBytesByBatchSize := .empty
  optimizerPrefixParameterBytes := none

/-- What a filter refuses after any history, and which part of the history matters to it. -/
theorem verdict_of_history (normalize : String → String) (k : ℤ) (hk : 1 ≤ k) (h : List Call)
    (c : SplitCandidateDescriptor) (cid : Cid) (q : ℤ) (capabilities : Capabilities) :
    (((run normalize k hk h).check (spotless c) cid q { capabilities with featureAbiIds := none }).feasible = false ↔
      HistoryObjects normalize k h cid q c.boundary capabilities.clientMemoryBytes capabilities.serverMemoryBytes ∨
      latest (failedIn normalize cid c.boundary) h = none ∧ q < 0) ∧
    (((run normalize k hk h).check c cid q capabilities).feasible = false ↔
      CandidateObjects h c cid capabilities ∨
      HistoryObjects normalize k h cid q c.boundary capabilities.clientMemoryBytes capabilities.serverMemoryBytes ∨
      latest (failedIn normalize cid c.boundary) h = none ∧ q < 0) ∧
    (run normalize k hk (h.flatMap (share normalize cid c.boundary))).check c cid q capabilities =
      (run normalize k hk h).check c cid q capabilities ∧
    ∀ g : FeasibilityFilter, (g.loadStateDict (run normalize k hk h).stateDict).check c cid q capabilities =
      (run normalize k hk h).check c cid q capabilities := by
  have hr : Recounts normalize k h (run normalize k hk h) := recounts_run hk h
  refine ⟨?_, hr.refused_iff, check_share hk h c cid q capabilities, fun g ↦ g.check_loadStateDict _ c cid q capabilities⟩
  rw [hr.refused_iff, or_iff_right]
  · rfl
  · rintro (hv | ht | ha | ⟨-, he⟩ | ⟨-, he⟩)
    · cases hv
    · cases ht
    · cases ha
    · cases he
    · cases he

/-- A failure of round 5 bars the cut in round 7. -/
theorem verdict_of_history_sample :
    ((run id 3 (by decide) [.failure 5 "a" (some "cut") "oom" none]).check (spotless plainCut) "a" 7
      { (⟨none, none, none⟩ : Capabilities) with featureAbiIds := none }).feasible = false :=
  (verdict_of_history id 3 (by decide) [.failure 5 "a" (some "cut") "oom" none] plainCut "a" 7
    ⟨none, none, none⟩).1.mpr (.inl (.cooldown 5 rfl (by decide)))

/-- Nothing was ever reported, and still the cut cools down in a round before the first one. -/
theorem negative_round_refused : ¬ ∀ (normalize : String → String) (k : ℤ) (hk : 1 ≤ k) (h : List Call)
    (c : SplitCandidateDescriptor) (cid : Cid) (q : ℤ) (capabilities : Capabilities),
    ((run normalize k hk h).check (spotless c) cid q { capabilities with featureAbiIds := none }).feasible = false ↔
      HistoryObjects normalize k h cid q c.boundary capabilities.clientMemoryBytes
        capabilities.serverMemoryBytes := by
  intro hall
  have hobj := (hall id 3 (by decide) [] plainCut "a" (-1) ⟨none, none, none⟩).mp rfl
  rcases hobj with ⟨call, hm, -⟩ | ⟨call, hm, -⟩ | ⟨r, hr, -⟩ | he | he
  · cases hm
  · cases hm
  · cases hr
  · cases he
  · cases he

end SplitFleet.FeasibilityHistory
