import SplitFleet.LateCalibration
import SplitFleet.Lib.DictOrder
import SplitFleet.Lib.Lists

set_option autoImplicit false

namespace SplitFleet.LateCalibration

open Lib Feasibility

/-! ### The handler -/

section Handler

variable {B : Builtins} {config : Properties} {known : Dict Cid Properties} {clients : List Client}

/-- What the binding of the properties leaves behind. -/
theorem keeps_foldl_insert (l : List (Cid × Properties × Dict String ℤ)) {d : Dict Cid Properties}
    (h : Dict.Keeps known d) : Dict.Keeps known (l.foldl (fun d r ↦ d.insert r.1 r.2.1) d) := by
  induction l generalizing d with
  | nil => exact h
  | cons r l ih => exact ih (h.insert r.1 r.2.1)

theorem get?_foldl_insert_of_not_mem (l : List (Cid × Properties × Dict String ℤ)) (d : Dict Cid Properties) {cid : Cid}
    (h : cid ∉ l.map Prod.fst) : (l.foldl (fun d r ↦ d.insert r.1 r.2.1) d).get? cid = d.get? cid := by
  induction l generalizing d with
  | nil => rfl
  | cons r l ih =>
    rw [List.map_cons, List.mem_cons, not_or] at h
    rw [List.foldl_cons, ih _ h.2, Dict.get?_insert, if_neg (Ne.symm h.1)]

theorem fetch_cid {client : Client} {r : Cid × Properties × Dict String ℤ} (h : fetch B config known client = .ok r) :
    r.1 = client.cid := by
  rw [fetch] at h
  obtain ⟨first, -, h⟩ := bind_eq_ok h
  obtain ⟨props, -, h⟩ := bind_eq_ok h
  obtain ⟨_, -, h⟩ := bind_eq_ok h
  obtain ⟨_, -, h⟩ := bind_eq_ok h
  cases h
  rfl

theorem map_fst_fetch {results : List (Cid × Properties × Dict String ℤ)}
    (h : clients.mapM (fetch B config known) = .ok results) : results.map Prod.fst = clients.map (·.cid) := by
  have hall := mapM_eq_ok_iff.mp h
  clear h
  induction hall with
  | nil => rfl
  | cons hr _ ih => rw [List.map_cons, List.map_cons, fetch_cid hr, ih]

/-- One turn of the handler's loop. -/
def putBack (d : Dict Cid Properties) (p : Cid × Option Properties) : Dict Cid Properties :=
  match p.2 with
  | none => d.erase p.1
  | some props => d.insert p.1 props

theorem get?_putBack (d : Dict Cid Properties) (p : Cid × Option Properties) (cid : Cid) :
    (putBack d p).get? cid = if p.1 = cid then p.2 else d.get? cid := by
  obtain ⟨k, v⟩ := p
  cases v with
  | none => exact Dict.get?_erase d k cid
  | some props => exact Dict.get?_insert d k cid props

theorem keeps_putBack {d : Dict Cid Properties} (h : Dict.Keeps known d) {p : Cid × Option Properties}
    (hp : p.2 = known.get? p.1) : Dict.Keeps known (putBack d p) := by
  obtain ⟨k, v⟩ := p
  cases v with
  | none => exact h.erase ((known.get?_eq_none_iff).mp hp.symm)
  | some props => exact h.insert k props

/-- The loop puts back what was known of the keys it goes through. -/
theorem foldl_putBack (l : List (Cid × Option Properties)) (hl : ∀ p ∈ l, p.2 = known.get? p.1)
    {d : Dict Cid Properties} (h : Dict.Keeps known d) : Dict.Keeps known (l.foldl putBack d) ∧
      ∀ cid, (l.foldl putBack d).get? cid = if cid ∈ l.map Prod.fst then known.get? cid else d.get? cid := by
  induction l generalizing d with
  | nil => exact ⟨h, fun _ ↦ rfl⟩
  | cons p l ih =>
    rw [List.forall_mem_cons] at hl
    obtain ⟨hkeeps, hget⟩ := ih hl.2 (keeps_putBack h hl.1)
    refine ⟨hkeeps, fun cid ↦ ?_⟩
    rw [List.foldl_cons, hget, get?_putBack, List.map_cons]
    by_cases hmem : cid ∈ l.map Prod.fst
    · rw [if_pos hmem, if_pos (List.mem_cons_of_mem p.1 hmem)]
    · by_cases hp : p.1 = cid
      · rw [if_neg hmem, if_pos hp, if_pos (List.mem_cons.mpr (.inl hp.symm)), hl.1, hp]
      · have hnot : cid ∉ p.1 :: l.map Prod.fst := by
          rw [List.mem_cons, not_or]
          exact ⟨Ne.symm hp, hmem⟩
        rw [if_neg hmem, if_neg hp, if_neg hnot]

theorem previousProperties_entries {p : Cid × Option Properties} (h : p ∈ (previousProperties known clients).entries) :
    p.2 = known.get? p.1 := by
  have hget := ((previousProperties known clients).get?_eq_some_iff).mpr h
  obtain ⟨c, -, hc⟩ := List.mem_map.mp (Dict.mem_of_get?_ofList hget)
  rw [Prod.mk.injEq] at hc
  rw [← hc.2, hc.1]

theorem mem_keys_previousProperties {cid : Cid} :
    cid ∈ (previousProperties known clients).keys ↔ cid ∈ clients.map (·.cid) := by
  rw [previousProperties, Dict.ofList, Dict.mem_keys_foldl_insert, List.map_map]
  exact or_iff_left List.not_mem_nil

/-- The handler undoes the binding of the properties. -/
theorem restore_foldl_insert {s : CalibratedTelemetry} {results : List (Cid × Properties × Dict String ℤ)}
    (h : clients.mapM (fetch B config s.clients) = .ok results) :
    restore (previousProperties s.clients clients)
      { s with clients := results.foldl (fun d r ↦ d.insert r.1 r.2.1) s.clients } = s := by
  obtain ⟨hkeeps, hget⟩ := foldl_putBack (previousProperties s.clients clients).entries
    (fun p hp ↦ previousProperties_entries hp) (keeps_foldl_insert results (.refl s.clients))
  have hsame : (previousProperties s.clients clients).entries.foldl putBack
      (results.foldl (fun d r ↦ d.insert r.1 r.2.1) s.clients) = s.clients := by
    apply hkeeps.eq
    intro cid
    rw [hget]
    split_ifs with hmem
    · rfl
    · apply get?_foldl_insert_of_not_mem
      rw [map_fst_fetch h]
      exact fun hc ↦ hmem (mem_keys_previousProperties.mpr hc)
  obtain ⟨clients', receipt, parameters, hash⟩ := s
  change CalibratedTelemetry.mk ((previousProperties clients' clients).entries.foldl putBack _) receipt parameters
    hash = _
  rw [hsame]

theorem restore_self (s : CalibratedTelemetry) : restore (previousProperties s.clients clients) s = s := by
  obtain ⟨hkeeps, hget⟩ := foldl_putBack (previousProperties s.clients clients).entries
    (fun p hp ↦ previousProperties_entries hp) (.refl s.clients)
  have hsame : (previousProperties s.clients clients).entries.foldl putBack s.clients = s.clients := by
    apply hkeeps.eq
    intro cid
    rw [hget]
    split_ifs <;> rfl
  obtain ⟨clients', receipt, parameters, hash⟩ := s
  change CalibratedTelemetry.mk ((previousProperties clients' clients).entries.foldl putBack _) receipt parameters
    hash = _
  rw [hsame]

end Handler

/-! ### What a call does -/

section Runs

variable {B : Builtins} {provider : Provider} {catalog : Dict String SplitCandidateDescriptor} {config : Properties}
  {clients : List Client} {seconds : ℚ} {s t : CalibratedTelemetry}

/-- The state once the properties of the late clients are bound. -/
def bound (s : CalibratedTelemetry) (results : List (Cid × Properties × Dict String ℤ)) : CalibratedTelemetry :=
  { s with clients := results.foldl (fun d r ↦ d.insert r.1 r.2.1) s.clients }

theorem bindProperties_run (h : clients ≠ []) : (bindProperties B config clients).run s =
    match clients.mapM (fetch B config s.clients) with
    | .error e => .error e s
    | .ok results => .ok (some (.ofList (transferKeys.map fun key ↦
        (key, (results.map fun r ↦ (r.2.2.get? key).getD 0).sum)))) (bound s results) := by
  rw [bindProperties, if_neg h, Method.get_bind_run]
  dsimp only
  cases clients.mapM (fetch B config s.clients) with
  | error e => rfl
  | ok results => rfl

theorem bindProperties_error {e : PyError} (h : (bindProperties B config clients).run s = .error e t) : t = s := by
  by_cases hnil : clients = []
  · rw [bindProperties, if_pos hnil] at h
    cases h
  · rw [bindProperties_run hnil] at h
    cases hm : clients.mapM (fetch B config s.clients) with
    | error e =>
      rw [hm] at h
      cases h
      rfl
    | ok results =>
      rw [hm] at h
      cases h

theorem bindProperties_ok {transfer : Option (Dict String ℤ)}
    (h : (bindProperties B config clients).run s = .ok transfer t) :
    ∃ results, clients.mapM (fetch B config s.clients) = .ok results ∧ t = bound s results := by
  by_cases hnil : clients = []
  · rw [bindProperties, if_pos hnil] at h
    cases h
    subst hnil
    exact ⟨[], rfl, rfl⟩
  · rw [bindProperties_run hnil] at h
    cases hm : clients.mapM (fetch B config s.clients) with
    | error e =>
      rw [hm] at h
      cases h
    | ok results =>
      rw [hm] at h
      cases h
      exact ⟨results, rfl, rfl⟩

/-- Where the measuring raises, at most the properties are bound. -/
theorem measureLateClients_error {e : PyError}
    (h : (measureLateClients B catalog config clients seconds).run s = .error e t) :
    t = s ∨ ∃ results, clients.mapM (fetch B config s.clients) = .ok results ∧ t = bound s results := by
  rw [measureLateClients, EStateM.run_bind] at h
  cases hb : (bindProperties B config clients).run s with
  | error e' u =>
    rw [hb] at h
    cases h
    exact .inl (bindProperties_error hb)
  | ok transfer u =>
    rw [hb] at h
    obtain ⟨results, hm, hu⟩ := bindProperties_ok hb
    refine .inr ⟨results, hm, ?_⟩
    rw [← hu]
    dsimp only at h
    rw [Method.get_bind_run] at h
    cases hs : clients.mapM (clientSamples B u catalog) with
    | error e' =>
      rw [hs] at h
      cases h
      rfl
    | ok samples =>
      rw [hs, Method.ok_bind_run] at h
      cases hp : clients.mapM (probeClient u.clients) with
      | error e' =>
        rw [hp] at h
        cases h
        rfl
      | ok probes =>
        rw [hp, Method.ok_bind_run] at h
        cases hr : u.receipt with
        | none =>
          rw [hr] at h
          cases h
          rfl
        | some receipt =>
          rw [hr] at h
          cases h

theorem undoing_error {σ α : Type} {undo : σ → σ} {call : Method σ α} {e : PyError} {s t : σ}
    (h : (undoing undo call).run s = .error e t) : ∃ u, call.run s = .error e u ∧ t = undo u := by
  change undoing undo call s = _ at h
  cases hc : call s with
  | ok a u =>
    rw [undoing, hc] at h
    cases h
  | error e' u =>
    rw [undoing, hc] at h
    cases h
    exact ⟨u, hc, rfl⟩

theorem undoing_ok {σ α : Type} {undo : σ → σ} {call : Method σ α} {a : α} {s t : σ}
    (h : (undoing undo call).run s = .ok a t) : call.run s = .ok a t := by
  change undoing undo call s = _ at h
  cases hc : call s with
  | ok a' u =>
    rw [undoing, hc] at h
    cases h
    exact hc
  | error e' u =>
    rw [undoing, hc] at h
    cases h

/-- A binding that raises leaves everything as it was. -/
theorem bindLateClients_error {e : PyError}
    (h : (bindLateClients B provider catalog clients seconds).run s = .error e t) : t = s := by
  rw [bindLateClients, Method.get_bind_run] at h
  cases hp : s.parameters with
  | none =>
    rw [hp] at h
    cases h
    rfl
  | some parameters =>
    rw [hp] at h
    dsimp only at h
    cases hc : calibrationConfig B provider parameters s.calibrationModelHash catalog with
    | error e' =>
      rw [hc] at h
      cases h
      rfl
    | ok config =>
      rw [hc, Method.ok_bind_run, EStateM.run_bind] at h
      cases hu : (undoing (restore (previousProperties s.clients clients))
          (measureLateClients B catalog config clients seconds)).run s with
      | ok a u =>
        rw [hu] at h
        cases h
      | error e' u =>
        rw [hu] at h
        cases h
        obtain ⟨v, hv, rfl⟩ := undoing_error hu
        obtain rfl | ⟨results, hm, rfl⟩ := measureLateClients_error hv
        · exact restore_self v
        · exact restore_foldl_insert hm

theorem measureLateClients_ok (h : (measureLateClients B catalog config clients seconds).run s = .ok () t) :
    ∃ results samples probes transfer r, clients.mapM (fetch B config s.clients) = .ok results ∧
      clients.mapM (clientSamples B (bound s results) catalog) = .ok samples ∧
      clients.mapM (probeClient (bound s results).clients) = .ok probes ∧ s.receipt = some r ∧
      t = { bound s results with
        receipt := some (r.extend ⟨samples, probes, transfer⟩ s.calibrationModelHash seconds) } := by
  rw [measureLateClients] at h
  obtain ⟨transfer, u, hb, h⟩ := Method.bind_eq_ok h
  obtain ⟨results, hm, rfl⟩ := bindProperties_ok hb
  rw [Method.get_bind_run] at h
  obtain ⟨samples, hs, h⟩ := Method.lift_bind_eq_ok h
  obtain ⟨probes, hp, h⟩ := Method.lift_bind_eq_ok h
  cases hr : (bound s results).receipt with
  | none =>
    rw [hr] at h
    cases h
  | some r =>
    rw [hr] at h
    cases h
    exact ⟨results, samples, probes, transfer.getD .empty, r, hm, hs, hp, hr, rfl⟩

end Runs

/-! ### What a client adds to the receipt -/

/-- The boundary of a sample. -/
def sampleBoundary (x : ClientSample) : Option String :=
  match x.get? "boundary" with
  | some (.inr (.str b)) => some b
  | _ => none

/-- The samples of one client. -/
structure Block where
  samples : List ClientSample
  transport : List LinkSample
  exchange : List ExchangeSample

/-- Every anchor has one sample with both costs, and every payload and every pair of sizes its own
echoes, all under the logical id of the client. -/
structure Block.Of (anchors : List String) (logical : Scalar) (b : Block) : Prop where
  anchors : (b.samples.map sampleBoundary).Perm (anchors.map some)
  costs : ∀ x ∈ b.samples, ∀ name ∈ ["client_forward_ms", "client_backward_ms"], ∃ j, x.get? name = some (.inr j)
  labels : ∀ x ∈ b.samples, x.get? "logical_client_id" = some (.inl logical) ∨
    ∃ j, x.get? "logical_client_id" = some (.inr j)
  transport : b.transport.map (fun x ↦ (x.payloadBytes, x.repetition)) = transportPlan ∧
    ∀ x ∈ b.transport, x.logicalClientId = logical ∧ x.echoVerified = true
  exchange : b.exchange.map (fun x ↦ (x.requestBytes, x.replyBytes, x.repetition)) = exchangePlan ∧
    ∀ x ∈ b.exchange, x.logicalClientId = logical ∧ x.replyVerified = true

section Blocks

variable {B : Builtins} {catalog : Dict String SplitCandidateDescriptor} {s : CalibratedTelemetry} {client : Client}
  {logical : Scalar}

theorem linkProbes {l : List ((ℕ × ℕ) × ℕ)} {block : List LinkSample}
    (h : l.mapM (linkProbe client logical) = .ok block) :
    block.map (fun x ↦ (x.payloadBytes, x.repetition)) = l.map Prod.fst ∧
      ∀ x ∈ block, x.logicalClientId = logical ∧ x.echoVerified = true := by
  have hall := mapM_eq_ok_iff.mp h
  clear h
  induction hall with
  | nil => exact ⟨rfl, fun _ h ↦ absurd h List.not_mem_nil⟩
  | cons hx _ ih =>
    obtain ⟨elapsed, -, hx⟩ := bind_eq_ok hx
    cases hx
    rw [List.map_cons, List.map_cons, ih.1, List.forall_mem_cons]
    exact ⟨rfl, ⟨rfl, rfl⟩, ih.2⟩

theorem exchangeProbes {l : List ((ℕ × ℕ × ℕ) × ℕ)} {block : List ExchangeSample}
    (h : l.mapM (exchangeProbe client logical) = .ok block) :
    block.map (fun x ↦ (x.requestBytes, x.replyBytes, x.repetition)) = l.map Prod.fst ∧
      ∀ x ∈ block, x.logicalClientId = logical ∧ x.replyVerified = true := by
  have hall := mapM_eq_ok_iff.mp h
  clear h
  induction hall with
  | nil => exact ⟨rfl, fun _ h ↦ absurd h List.not_mem_nil⟩
  | cons hx _ ih =>
    obtain ⟨elapsed, -, hx⟩ := bind_eq_ok hx
    cases hx
    rw [List.map_cons, List.map_cons, ih.1, List.forall_mem_cons]
    exact ⟨rfl, ⟨rfl, rfl⟩, ih.2⟩

theorem get?_clientSample {fields : List (String × Json)} {x : ClientSample}
    (h : clientSample logical (.obj fields) = .ok x) (name : String) : x.get? name =
      (((Dict.ofList fields).get? name).map Sum.inr).or
        (if "logical_client_id" = name then some (.inl logical) else none) := by
  cases h
  have hkeys : (((Dict.ofList fields).entries.map fun p ↦
      (p.1, (Sum.inr p.2 : Scalar ⊕ Json))).map Prod.fst).Nodup := by
    rw [List.map_map]
    exact (Dict.ofList fields).nodup
  rw [Dict.ofList, List.foldl_cons, Dict.get?_foldl_insert _ _ hkeys, Dict.get?_insert, Dict.get?_empty]
  congr 1
  generalize Dict.ofList fields = d
  obtain ⟨entries, nodup⟩ := d
  change Dict.lookup (entries.map _) name = (Dict.lookup entries name).map _
  clear nodup hkeys
  induction entries with
  | nil => rfl
  | cons p entries ih =>
    obtain ⟨a, b⟩ := p
    by_cases ha : a = name
    · simp [Dict.lookup, ha]
    · simpa [Dict.lookup, ha] using ih

def boundaryText : Option Json → Option String
  | some (.str b) => some b
  | _ => none

theorem boundaryText_of_equalsStr {b : String} {j : Option Json} (h : equalsStr b j = true) :
    boundaryText j = some b := by
  unfold equalsStr at h
  split at h
  · rw [of_decide_eq_true h]
    rfl
  · cases h

theorem rowBoundary_ok {row : Json} {b : Option Json} (h : rowBoundary row = .ok b) :
    ∃ fields, row = .obj fields ∧ b = (Dict.ofList fields).get? "boundary" := by
  cases row with
  | obj fields =>
    refine ⟨fields, rfl, ?_⟩
    obtain ⟨d, hd, h⟩ := bind_eq_ok h
    cases hd
    split at h
    · cases h
    · cases h
    · cases h
      rfl
  | _ => cases h

theorem anchors_nodup {anchors : List String} {candidates : List SplitCandidateDescriptor}
    (h : calibrationBoundaries candidates = .ok anchors) : anchors.Nodup := by
  rw [calibrationBoundaries] at h
  split_ifs at h
  cases h
  exact Dict.nodup _

/-- As many as there are anchors, and every anchor among them: each anchor once. -/
theorem checkAnchors_ok {anchors : List String} {records : List Json} {u : Unit} (hn : anchors.Nodup)
    (h : checkAnchors anchors records = .ok u) : ∃ boundaries, records.mapM rowBoundary = .ok boundaries ∧
      (boundaries.map boundaryText).Perm (anchors.map some) := by
  obtain ⟨_, hlen, h⟩ := bind_eq_ok h
  obtain ⟨boundaries, hb, h⟩ := bind_eq_ok h
  have hset := of_require h
  have hlen := of_require hlen
  refine ⟨boundaries, hb, ?_⟩
  have hlength : boundaries.length = records.length := (mapM_eq_ok_iff.mp hb).length_eq.symm
  have hsub : anchors.map some ⊆ boundaries.map boundaryText := by
    intro a ha
    obtain ⟨name, hname, rfl⟩ := List.mem_map.mp ha
    obtain ⟨b, hb, he⟩ := hset.2 name hname
    exact List.mem_map.mpr ⟨b, hb, boundaryText_of_equalsStr he⟩
  have hnodup : (anchors.map some).Nodup := hn.map (Option.some_injective String)
  have hle : (boundaries.map boundaryText).length ≤ (anchors.map some).length := by
    rw [List.length_map, List.length_map, hlength, hlen]
  exact ((List.subperm_of_subset hnodup hsub).perm_of_length_le hle).symm

theorem knownProperties_ok {clients : Dict Cid Properties} {cid : Cid} {props : Properties}
    (h : knownProperties clients cid = .ok props) : clients.get? cid = some props := by
  rw [knownProperties] at h
  split at h
  · cases h
    assumption
  · cases h

theorem logicalClientId_ok {props : Properties} (h : logicalClientId props = .ok logical) :
    props.get? "logical_client_id" = some logical := by
  rw [logicalClientId] at h
  split at h
  · cases h
    assumption
  · cases h

theorem checkCost_ok {message : String} {j : Option Json} {u : Unit} (h : checkCost B message j = .ok u) :
    ∃ value, j = some value := by
  cases j with
  | none => cases h
  | some value => exact ⟨value, rfl⟩

theorem checkRecord_ok {fields : List (String × Json)} {u : Unit} (h : checkRecord B catalog (.obj fields) = .ok u) :
    ∀ name ∈ ["client_forward_ms", "client_backward_ms"], ∃ j, (Dict.ofList fields).get? name = some j := by
  obtain ⟨d, hd, h⟩ := bind_eq_ok h
  cases hd
  split at h
  · split at h
    · cases h
    · obtain ⟨_, -, h⟩ := bind_eq_ok h
      obtain ⟨_, hf, h⟩ := bind_eq_ok h
      obtain ⟨_, hb, h⟩ := bind_eq_ok h
      intro name hname
      obtain rfl | hname := List.mem_cons.mp hname
      · exact checkCost_ok hf
      · rw [List.mem_singleton.mp hname]
        exact checkCost_ok hb
  · cases h

theorem validateLateClientReceipt_ok {modelHash : String} {props : Properties} {receipt : Json} {records : List Json}
    (h : validateLateClientReceipt B modelHash props receipt catalog = .ok records) :
    ∃ anchors, calibrationBoundaries catalog.values = .ok anchors ∧ checkAnchors anchors records = .ok () ∧
      records.forM (checkRecord B catalog) = .ok () := by
  rw [validateLateClientReceipt] at h
  obtain ⟨anchors, hanchors, h⟩ := bind_eq_ok h
  obtain ⟨fields, -, h⟩ := bind_eq_ok h
  obtain ⟨_, -, h⟩ := bind_eq_ok h
  obtain ⟨_, -, h⟩ := bind_eq_ok h
  obtain ⟨_, -, h⟩ := bind_eq_ok h
  obtain ⟨_, -, h⟩ := bind_eq_ok h
  obtain ⟨_, -, h⟩ := bind_eq_ok h
  obtain ⟨read, -, h⟩ := bind_eq_ok h
  obtain ⟨_, hcheck, h⟩ := bind_eq_ok h
  obtain ⟨_, hrecords, h⟩ := bind_eq_ok h
  cases h
  exact ⟨anchors, hanchors, hcheck, hrecords⟩

theorem clientSample_ok {row : Json} {x : ClientSample} (h : clientSample logical row = .ok x) :
    ∃ fields, row = .obj fields := by
  cases row with
  | obj fields => exact ⟨fields, rfl⟩
  | _ => cases h

theorem sampleBoundary_eq {fields : List (String × Json)} {x : ClientSample}
    (h : clientSample logical (.obj fields) = .ok x) :
    sampleBoundary x = boundaryText ((Dict.ofList fields).get? "boundary") := by
  have hget := get?_clientSample h "boundary"
  rw [if_neg (by decide), Option.or_none] at hget
  rw [sampleBoundary, hget]
  cases hb : (Dict.ofList fields).get? "boundary" with
  | none => rfl
  | some j =>
    cases j with
    | _ => rfl

/-- The samples name the boundaries of the records. -/
theorem map_sampleBoundary {records : List Json} {samples : List ClientSample} {boundaries : List (Option Json)}
    (hs : records.mapM (clientSample logical) = .ok samples) (hb : records.mapM rowBoundary = .ok boundaries) :
    samples.map sampleBoundary = boundaries.map boundaryText := by
  have hall := mapM_eq_ok_iff.mp hs
  have hall' := mapM_eq_ok_iff.mp hb
  clear hs hb
  induction hall generalizing boundaries with
  | nil =>
    cases hall'
    rfl
  | cons hx _ ih =>
    cases hall' with
    | cons hb hall' =>
      obtain ⟨fields, rfl, rfl⟩ := rowBoundary_ok hb
      rw [List.map_cons, List.map_cons, sampleBoundary_eq hx, ih hall']

/-- A sample has the costs of its record, under the label of the client or one of its own. -/
theorem sample_of_record {row : Json} {x : ClientSample} (hx : clientSample logical row = .ok x)
    (h : checkRecord B catalog row = .ok ()) :
    (∀ name ∈ ["client_forward_ms", "client_backward_ms"], ∃ j, x.get? name = some (.inr j)) ∧
      (x.get? "logical_client_id" = some (.inl logical) ∨ ∃ j, x.get? "logical_client_id" = some (.inr j)) := by
  obtain ⟨fields, rfl⟩ := clientSample_ok hx
  constructor
  · intro name hname
    obtain ⟨j, hj⟩ := checkRecord_ok h name hname
    rw [get?_clientSample hx, hj]
    exact ⟨j, rfl⟩
  · rw [get?_clientSample hx, if_pos rfl]
    cases (Dict.ofList fields).get? "logical_client_id" with
    | none => exact .inl rfl
    | some j => exact .inr ⟨j, rfl⟩

/-- A receipt that passes names every anchor once. -/
theorem clientSamples_ok {samples : List ClientSample} {elapsed : Json}
    (h : clientSamples B s catalog client = .ok (samples, logical, elapsed)) :
    ∃ props anchors, s.clients.get? client.cid = some props ∧ props.get? "logical_client_id" = some logical ∧
      calibrationBoundaries catalog.values = .ok anchors ∧
      (samples.map sampleBoundary).Perm (anchors.map some) ∧
      ∀ x ∈ samples, (∀ name ∈ ["client_forward_ms", "client_backward_ms"], ∃ j, x.get? name = some (.inr j)) ∧
        (x.get? "logical_client_id" = some (.inl logical) ∨ ∃ j, x.get? "logical_client_id" = some (.inr j)) := by
  rw [clientSamples] at h
  obtain ⟨props, hprops, h⟩ := bind_eq_ok h
  obtain ⟨receipt, -, h⟩ := bind_eq_ok h
  obtain ⟨records, hrecords, h⟩ := bind_eq_ok h
  obtain ⟨label, hlabel, h⟩ := bind_eq_ok h
  obtain ⟨rows, hrows, h⟩ := bind_eq_ok h
  obtain ⟨fields, -, h⟩ := bind_eq_ok h
  split at h
  · cases h
    obtain ⟨anchors, hanchors, hcheck, hforM⟩ := validateLateClientReceipt_ok hrecords
    obtain ⟨boundaries, hboundaries, hperm⟩ := checkAnchors_ok (anchors_nodup hanchors) hcheck
    refine ⟨props, anchors, knownProperties_ok hprops, logicalClientId_ok hlabel, hanchors, ?_, fun x hx ↦ ?_⟩
    · rw [map_sampleBoundary hrows hboundaries]
      exact hperm
    · obtain ⟨row, hrow, hsample⟩ := forall₂_exists_of_mem_right (mapM_eq_ok_iff.mp hrows) hx
      exact sample_of_record hsample (forM_eq_ok_iff.mp hforM row hrow)
  · cases h

/-- The probes of a client are those of the plans, under its logical id. -/
theorem probeClient_ok {known : Dict Cid Properties} {probes : Probes} (h : probeClient known client = .ok probes) :
    ∃ props logical, known.get? client.cid = some props ∧ props.get? "logical_client_id" = some logical ∧
      (probes.transport.map (fun x ↦ (x.payloadBytes, x.repetition)) = transportPlan ∧
        ∀ x ∈ probes.transport, x.logicalClientId = logical ∧ x.echoVerified = true) ∧
      (probes.exchange.map (fun x ↦ (x.requestBytes, x.replyBytes, x.repetition)) = exchangePlan ∧
        ∀ x ∈ probes.exchange, x.logicalClientId = logical ∧ x.replyVerified = true) := by
  rw [probeClient] at h
  obtain ⟨props, hprops, h⟩ := bind_eq_ok h
  obtain ⟨logical, hlogical, h⟩ := bind_eq_ok h
  obtain ⟨warmup, -, h⟩ := bind_eq_ok h
  obtain ⟨transport, htransport, h⟩ := bind_eq_ok h
  obtain ⟨exchange, hexchange, h⟩ := bind_eq_ok h
  cases h
  exact ⟨props, logical, knownProperties_ok hprops, logicalClientId_ok hlogical, linkProbes htransport,
    exchangeProbes hexchange⟩

/-- The block of a client, with what is known of it once it is bound. -/
def BlockFor (known : Dict Cid Properties) (anchors : List String) (client : Client) (b : Block) : Prop :=
  ∃ props logical, known.get? client.cid = some props ∧ props.get? "logical_client_id" = some logical ∧
    b.Of anchors logical

theorem blockFor {anchors : List String} {p : List ClientSample × Scalar × Json} {q : Probes}
    (ha : calibrationBoundaries catalog.values = .ok anchors) (hp : clientSamples B s catalog client = .ok p)
    (hq : probeClient s.clients client = .ok q) : BlockFor s.clients anchors client ⟨p.1, q.transport, q.exchange⟩ := by
  obtain ⟨samples, logical, elapsed⟩ := p
  obtain ⟨props, anchors', hprops, hlogical, hanchors, hperm, hsamples⟩ := clientSamples_ok hp
  obtain ⟨props', logical', hprops', hlogical', htransport, hexchange⟩ := probeClient_ok hq
  rw [ha] at hanchors
  cases hanchors
  rw [hprops] at hprops'
  cases hprops'
  rw [hlogical] at hlogical'
  cases hlogical'
  exact ⟨props, logical, hprops, hlogical, hperm, fun x hx ↦ (hsamples x hx).1, fun x hx ↦ (hsamples x hx).2,
    htransport, hexchange⟩

/-- What is measured of the clients falls into one block for each. -/
theorem exists_blocks {anchors : List String} {clients : List Client}
    {samples : List (List ClientSample × Scalar × Json)} {probes : List Probes}
    (ha : calibrationBoundaries catalog.values = .ok anchors)
    (hs : clients.mapM (clientSamples B s catalog) = .ok samples)
    (hp : clients.mapM (probeClient s.clients) = .ok probes) :
    ∃ blocks, List.Forall₂ (BlockFor s.clients anchors) clients blocks ∧
      samples.flatMap (·.1) = blocks.flatMap (·.samples) ∧
      probes.flatMap (·.transport) = blocks.flatMap (·.transport) ∧
      probes.flatMap (·.exchange) = blocks.flatMap (·.exchange) := by
  have hall := mapM_eq_ok_iff.mp hs
  have hall' := mapM_eq_ok_iff.mp hp
  clear hs hp
  induction hall generalizing probes with
  | nil =>
    cases hall'
    exact ⟨[], .nil, rfl, rfl, rfl⟩
  | @cons client p clients samples hp _ ih =>
    cases hall' with
    | @cons _ q _ probes hq hall' =>
      obtain ⟨blocks, hblocks, hsamples, htransport, hexchange⟩ := ih hall'
      refine ⟨⟨p.1, q.transport, q.exchange⟩ :: blocks, .cons (blockFor ha hp hq) hblocks, ?_, ?_, ?_⟩
      · rw [List.flatMap_cons, List.flatMap_cons, hsamples]
      · rw [List.flatMap_cons, List.flatMap_cons, htransport]
      · rw [List.flatMap_cons, List.flatMap_cons, hexchange]

end Blocks

/-! ### The whole call -/

section Atomic

variable {B : Builtins} {provider : Provider} {catalog : Dict String SplitCandidateDescriptor}
  {clients : List Client} {seconds : ℚ} {s t : CalibratedTelemetry}

/-- The receipt with one block for each of the late clients behind what was there. -/
structure Extended (r r' : Receipt) (blocks : List Block) : Prop where
  samples : r'.clientSamples = some (r.clientSamples.getD [] ++ blocks.flatMap (·.samples))
  transport : r'.transportBootstrap.bind (·.samples) =
    some ((r.transportBootstrap.bind (·.samples)).getD [] ++ blocks.flatMap (·.transport))
  exchange : r'.stateExchangeBootstrap =
    some (some (r.stateExchangeBootstrap.join.getD [] ++ blocks.flatMap (·.exchange)))

theorem extended {r : Receipt} {m : Measured} {modelHash : String} {blocks : List Block}
    (hs : m.samples.flatMap (·.1) = blocks.flatMap (·.samples))
    (ht : m.probes.flatMap (·.transport) = blocks.flatMap (·.transport))
    (he : m.probes.flatMap (·.exchange) = blocks.flatMap (·.exchange)) :
    Extended r (r.extend m modelHash seconds) blocks := by
  refine ⟨?_, ?_, ?_⟩
  · rw [← hs]
    rfl
  · rw [← ht, Receipt.extend]
    cases r.transportBootstrap with
    | none => rfl
    | some bootstrap => rfl
  · rw [← he]
    rfl

theorem calibrationConfig_ok {parameters : Bytes} {modelHash : String} {config : Properties}
    (h : calibrationConfig B provider parameters modelHash catalog = .ok config) :
    ∃ anchors, calibrationBoundaries catalog.values = .ok anchors := by
  obtain ⟨anchors, hanchors, -⟩ := bind_eq_ok h
  exact ⟨anchors, hanchors⟩

theorem bindLateClients_ok (h : (bindLateClients B provider catalog clients seconds).run s = .ok () t) :
    t.parameters = none ∧ (∀ cid ∉ clients.map (·.cid), t.clients.get? cid = s.clients.get? cid) ∧
      ∃ anchors r r' blocks, calibrationBoundaries catalog.values = .ok anchors ∧ s.receipt = some r ∧
        t.receipt = some r' ∧ List.Forall₂ (BlockFor t.clients anchors) clients blocks ∧ Extended r r' blocks := by
  rw [bindLateClients, Method.get_bind_run] at h
  cases hp : s.parameters with
  | none =>
    rw [hp] at h
    cases h
  | some parameters =>
    rw [hp] at h
    obtain ⟨config, hc, h⟩ := Method.lift_bind_eq_ok h
    obtain ⟨anchors, hanchors⟩ := calibrationConfig_ok hc
    obtain ⟨_, u, hu, h⟩ := Method.bind_eq_ok h
    cases h
    obtain ⟨results, samples, probes, transfer, r, hm, hs, hq, hr, rfl⟩ := measureLateClients_ok (undoing_ok hu)
    obtain ⟨blocks, hblocks, hsamples, htransport, hexchange⟩ := exists_blocks hanchors hs hq
    refine ⟨rfl, fun cid hcid ↦ ?_, anchors, r, _, blocks, hanchors, hr, rfl, hblocks,
      extended hsamples htransport hexchange⟩
    rw [← map_fst_fetch hm] at hcid
    exact get?_foldl_insert_of_not_mem results s.clients hcid

end Atomic

end SplitFleet.LateCalibration
