import SplitFleet.ConfigSections
import SplitFleet.PartitionLaw
import SplitFleet.VirtualClient

set_option autoImplicit false

namespace SplitFleet.DataPartition

open Lib Partition Virtual

/-! ### Splitting the dataset -/

/-- `np.cumsum`, from a start on. -/
def cumsum : ℕ → List ℕ → List ℕ
  | _, [] => []
  | start, count :: counts => (start + count) :: cumsum (start + count) counts

/-- `np.split(indices, np.cumsum(counts)[:-1])` -/
def splitBy (indices counts : List ℕ) : List (List ℕ) := npSplit indices 0 (cumsum 0 counts).dropLast

/-- The sections of `np.array_split(indices, total)`. -/
def sectionSizes (size total : ℕ) : List ℕ :=
  List.replicate (size % total) (size / total + 1) ++ List.replicate (total - size % total) (size / total)

/-- What is drawn from `np.random.default_rng(seed)`: a permutation, or what `dirichlet_partition` draws. -/
structure Generator (size total : ℕ) where
  permutation : List ℕ
  permutation_perm : permutation.Perm (List.range size)
  draws : Draws total

variable {size total : ℕ}

/-- `{str(i): chunk for i, chunk in enumerate(chunks)}` -/
def partsOf (chunks : List (List ℕ)) : Parts total := fun i ↦ chunks.getD i []

def singleLabelFamilies : List String := ["image_classification", "text_classification"]

section Code

variable (config : PartitionConfig) (g : Generator size total)

def iid : Except PyError (Parts total) :=
  match config.sampleCounts with
  | none => .ok (partsOf (splitBy g.permutation (sectionSizes size total)))
  | some counts =>
    if counts.length ≠ total ∨ counts.sum ≠ size ∨ ∃ c ∈ counts, c < config.minSamples then
      .error (.valueError "sample_counts must cover the dataset exactly and respect min_samples")
    else .ok (partsOf (splitBy g.permutation (counts.map Int.toNat)))

def dirichlet (labels : Option (List ℤ)) (family : String) (fuel : ℕ) : Option (Except PyError (Parts total)) :=
  if family ∉ singleLabelFamilies then
    some (.error (.valueError
      "Single-label Dirichlet is unsupported for detection/masks; use IID or a task-specific partitioner"))
  else
    match labels with
    | none => some (.error (.valueError
        "Dirichlet requires one scalar class label per sample; sample_counts applies to IID"))
    | some labels =>
      if labels.length ≠ size ∨ config.sampleCounts.isSome = true then
        some (.error (.valueError
          "Dirichlet requires one scalar class label per sample; sample_counts applies to IID"))
      else if total = 1 then some (.ok fun _ ↦ g.permutation)
      else dirichletPartition labels total config.alpha.value config.minSamples g.draws fuel

/-- The check at the end. -/
def checkCover (size : ℕ) (minimum : ℤ) (parts : Parts total) : Except PyError (Parts total) :=
  let flat := (List.finRange total).flatMap parts
  if flat.length ≠ size ∨ flat.toFinset ≠ Finset.range size ∨ ∃ i, ((parts i).length : ℤ) < minimum then
    .error (.runtimeError "Data partitioner lost, duplicated or underallocated samples")
  else .ok parts

def partitionDataset (labels : Option (List ℤ)) (family : String) (fuel : ℕ) : Option (Except PyError (Parts total)) :=
  if total < 1 ∨ config.minSamples < 1 ∨ (size : ℤ) < total * config.minSamples then
    some (.error (.valueError "Dataset is too small for the declared clients/min_samples"))
  else
    let result :=
      if config.method = "iid" then some (iid config g)
      else if config.method = "dirichlet" then dirichlet config g labels family fuel
      else some (.error (.valueError "partition.method must be iid or dirichlet"))
    result.map fun r ↦ r.bind (checkCover size config.minSamples)

end Code

/-! ### Batches of a client -/

/-- What a client iterates over. `DataLoader` refuses an empty dataset and an empty batch. -/
structure ClientBatches where
  indices : List ℕ
  batchSize : ℕ
  seed : ℤ
  partitionId : ℕ
  roundId : ℤ
  localEpochs : ℕ
  indices_ne : indices ≠ []
  batchSize_pos : 0 < batchSize

/-- The order in which `DataLoader` shuffles the samples with a seed, and SHA-256. -/
structure Loader where
  order : ℕ → List ℕ → List ℕ
  order_perm : ∀ seed l, (order seed l).Perm l
  sha256 : String → List ℕ

namespace ClientBatches

variable (L : Loader) (c : ClientBatches)

def epochSeed (epoch : ℕ) : ℕ :=
  VirtualClient.clientSeed L.sha256 c.seed c.partitionId s!"data:{c.roundId}:{epoch}"

/-- `math.ceil(len(self.dataset) / self.batch_size)` -/
def batchCount : ℕ := (c.indices.length + c.batchSize - 1) / c.batchSize

/-- `__len__` -/
def length : ℕ := c.batchCount * c.localEpochs

/-- The batches of a list, the last of which may be short. -/
def batched (l : List ℕ) : List (List ℕ) :=
  (List.range c.batchCount).map fun j ↦ (l.drop (j * c.batchSize)).take c.batchSize

def epochBatches (epoch : ℕ) : List (List ℕ) := c.batched (L.order (c.epochSeed L epoch) c.indices)

def batches : List (List ℕ) := (List.range c.localEpochs).flatMap (c.epochBatches L)

def deadlineExceeded : PyError := .raised "TimeoutError" "Virtual client training deadline exceeded"

def injectedDropout : PyError := .raised "ConnectionError" "Injected virtual client dropout"

/-- `__iter__` over what is left of the batches: what it yields, and how it ends. `late n` tells whether the clock has
reached the deadline before the batch `n`. -/
def serve (late : ℕ → Bool) (failAfter : Option ℤ) : ℕ → List (List ℕ) → List (List ℕ) × Option PyError
  | _, [] => ([], none)
  | executed, raw :: rest =>
    if late executed then ([], some deadlineExceeded)
    else if failAfter.any fun n ↦ decide (n ≤ (executed : ℤ)) then ([], some injectedDropout)
    else (raw :: (serve late failAfter (executed + 1) rest).1, (serve late failAfter (executed + 1) rest).2)

def iterate (late : ℕ → Bool) (failAfter : Option ℤ) : List (List ℕ) × Option PyError :=
  serve late failAfter 0 (c.batches L)

end ClientBatches

/-! ### The split of the dataset -/

theorem le_of_mem_cumsum {start x : ℕ} {counts : List ℕ} (hx : x ∈ cumsum start counts) : start ≤ x := by
  induction counts generalizing start with
  | nil => cases hx
  | cons count counts ih =>
    obtain rfl | hx := List.mem_cons.mp hx
    · exact Nat.le_add_right _ _
    · exact (Nat.le_add_right _ _).trans (ih hx)

theorem pairwise_cumsum (start : ℕ) (counts : List ℕ) : (start :: cumsum start counts).Pairwise (· ≤ ·) := by
  induction counts generalizing start with
  | nil => exact List.pairwise_singleton _ _
  | cons count counts ih => exact List.pairwise_cons.mpr ⟨fun _ ↦ le_of_mem_cumsum, ih (start + count)⟩

theorem splitBy_flatten (indices counts : List ℕ) : (splitBy indices counts).flatten = indices := by
  refine npSplit_flatten indices ((pairwise_cumsum 0 counts).sublist ?_)
  exact (List.dropLast_sublist _).cons_cons 0

theorem npSplit_lengths (l : List ℕ) (start count : ℕ) (counts : List ℕ)
    (h : start + (count :: counts).sum = l.length) :
    (npSplit l start (cumsum start (count :: counts)).dropLast).map List.length = count :: counts := by
  induction counts generalizing start count with
  | nil =>
    simp only [cumsum, List.dropLast_singleton, npSplit, List.map_cons, List.map_nil, List.length_drop]
    rw [List.sum_singleton] at h
    rw [← h, Nat.add_sub_cancel_left]
  | cons next counts ih =>
    rw [List.sum_cons, ← Nat.add_assoc] at h
    have hle : start + count ≤ l.length := h ▸ Nat.le_add_right _ _
    rw [cumsum, cumsum, List.dropLast_cons_cons, npSplit, List.map_cons, ← cumsum, ih _ _ h, List.length_drop,
      List.length_take, Nat.min_eq_left hle, Nat.add_sub_cancel_left]

/-- A split by sizes that add up has these sizes. -/
theorem splitBy_lengths {indices counts : List ℕ} (hne : counts ≠ []) (h : counts.sum = indices.length) :
    (splitBy indices counts).map List.length = counts := by
  cases counts with
  | nil => exact absurd rfl hne
  | cons count counts => exact npSplit_lengths indices 0 count counts ((Nat.zero_add _).trans h)

theorem toNat_sum {counts : List ℤ} (hpos : ∀ c ∈ counts, 0 ≤ c) (hsum : counts.sum = size) :
    (counts.map Int.toNat).sum = size := by
  induction counts generalizing size with
  | nil => exact Int.ofNat_inj.mp hsum
  | cons c counts ih =>
    obtain ⟨n, rfl⟩ := Int.eq_ofNat_of_zero_le (hpos c List.mem_cons_self)
    have hrest : 0 ≤ counts.sum := List.sum_nonneg fun z hz ↦ hpos z (List.mem_cons_of_mem _ hz)
    obtain ⟨m, hm⟩ := Int.eq_ofNat_of_zero_le hrest
    rw [List.map_cons, List.sum_cons, ih (fun z hz ↦ hpos z (List.mem_cons_of_mem _ hz)) hm, Int.toNat_natCast]
    rw [List.sum_cons, hm] at hsum
    exact Int.ofNat_inj.mp hsum

theorem sectionSizes_length (h : 0 < total) : (sectionSizes size total).length = total := by
  have hlt := Nat.mod_lt size h
  rw [sectionSizes, List.length_append, List.length_replicate, List.length_replicate]
  omega

theorem sectionSizes_sum (h : 0 < total) : (sectionSizes size total).sum = size := by
  obtain ⟨rest, hrest⟩ := Nat.exists_eq_add_of_le (Nat.mod_lt size h).le
  have hdiv := Nat.div_add_mod size total
  rw [sectionSizes, List.sum_append, List.sum_replicate, List.sum_replicate, smul_eq_mul, smul_eq_mul]
  generalize size / total = q at *
  generalize size % total = r at *
  have hsub : total - r = rest := by omega
  rw [hsub, ← hdiv, hrest]
  ring

theorem le_of_mem_sectionSizes {c : ℕ} (hc : c ∈ sectionSizes size total) : size / total ≤ c := by
  obtain hc | hc := List.mem_append.mp hc
  · exact (List.eq_of_mem_replicate hc).symm ▸ Nat.le_succ _
  · exact (List.eq_of_mem_replicate hc).symm.le

theorem flatMap_partsOf {chunks : List (List ℕ)} (h : chunks.length = total) :
    (List.finRange total).flatMap (partsOf chunks) = chunks.flatten := by
  subst h
  rw [List.flatMap_def]
  refine congrArg List.flatten (List.ext_getElem (by simp) fun i hi hi' ↦ ?_)
  simp [partsOf, hi']

/-! ### What is accepted -/

/-- Every sample is with one client, and every client has enough of them. -/
structure Covers (size : ℕ) (minimum : ℤ) (parts : Parts total) : Prop where
  lossless : Lossless size parts
  enough : ∀ i, minimum ≤ ((parts i).length : ℤ)

theorem checkCover_ok {minimum : ℤ} {parts : Parts total} (h : Covers size minimum parts) :
    checkCover size minimum parts = .ok parts := by
  have hperm := h.lossless.flatMap_perm
  refine if_neg ?_
  rintro (hlength | hset | ⟨i, hi⟩)
  · exact hlength (hperm.length_eq.trans List.length_range)
  · exact hset (Finset.ext fun x ↦ by rw [List.mem_toFinset, hperm.mem_iff, List.mem_range, Finset.mem_range])
  · exact absurd hi (not_lt.mpr (h.enough i))

theorem covers_partsOf {minimum : ℤ} {chunks : List (List ℕ)} (hlength : chunks.length = total)
    (hflat : chunks.flatten.Perm (List.range size)) (henough : ∀ c ∈ chunks, minimum ≤ (c.length : ℤ)) :
    Covers size minimum (partsOf chunks : Parts total) := by
  refine ⟨.of_flatMap_perm ((flatMap_partsOf hlength).symm ▸ hflat), fun i ↦ ?_⟩
  have hi : (i : ℕ) < chunks.length := hlength ▸ i.isLt
  rw [partsOf, List.getD_eq_getElem _ _ hi]
  exact henough _ (List.getElem_mem hi)

/-- A split of the permutation by sizes that add up to all samples. -/
theorem covers_splitBy {minimum : ℤ} (g : Generator size total) {counts : List ℕ} (htotal : 0 < total)
    (hlength : counts.length = total) (hsum : counts.sum = size) (henough : ∀ c ∈ counts, minimum ≤ (c : ℤ)) :
    Covers size minimum (partsOf (splitBy g.permutation counts) : Parts total) := by
  have hne : counts ≠ [] := by
    rintro rfl
    exact absurd hlength htotal.ne
  have hsize : g.permutation.length = size := g.permutation_perm.length_eq.trans List.length_range
  have hlengths : (splitBy g.permutation counts).map List.length = counts :=
    splitBy_lengths hne (hsum.trans hsize.symm)
  refine covers_partsOf ?_ ?_ fun c hc ↦ ?_
  · exact List.length_map _ |>.symm.trans ((congrArg List.length hlengths).trans hlength)
  · rw [splitBy_flatten]
    exact g.permutation_perm
  · exact henough _ (hlengths ▸ List.mem_map_of_mem hc)

section Accepts

variable (size total) (config : PartitionConfig) (labels : Option (List ℤ)) (family : String)

def AdmitsIid : Prop := ∀ counts, config.sampleCounts = some counts →
  counts.length = total ∧ counts.sum = size ∧ ∀ c ∈ counts, config.minSamples ≤ c

def AdmitsDirichlet : Prop :=
  family ∈ singleLabelFamilies ∧ config.sampleCounts = none ∧ ∃ l, labels = some l ∧ l.length = size

/-- The request can be met. -/
def Admits : Prop :=
  0 < total ∧ total * config.minSamples ≤ size ∧
    (config.method = "iid" ∧ AdmitsIid size total config ∨
      config.method = "dirichlet" ∧ AdmitsDirichlet size config labels family)

end Accepts

/-- The result is as good as the request: a cover if it can be met, else a `ValueError`. -/
def Decides (size : ℕ) (admits : Prop) (minimum : ℤ) (result : Option (Except PyError (Parts total))) : Prop :=
  (admits → ∃ parts, result = some (.ok parts) ∧ Covers size minimum parts) ∧
    (¬admits → ∃ message, result = some (.error (.valueError message)))

section Decides

variable {config : PartitionConfig} {g : Generator size total}

/-- Each of `total` clients gets at least `minSamples`, where there are enough samples. -/
theorem minSamples_le_div (htotal : 0 < total) (hsize : total * config.minSamples ≤ size) :
    config.minSamples ≤ ((size / total : ℕ) : ℤ) := by
  rw [Int.natCast_div, Int.le_ediv_iff_mul_le (Int.natCast_pos.mpr htotal), mul_comm]
  exact hsize

theorem iid_decides (htotal : 0 < total) (hmin : 1 ≤ config.minSamples) (hsize : total * config.minSamples ≤ size) :
    Decides size (AdmitsIid size total config) config.minSamples (some (iid config g)) := by
  cases hcounts : config.sampleCounts with
  | none =>
    refine ⟨fun _ ↦ ⟨partsOf (splitBy g.permutation (sectionSizes size total)), ?_, ?_⟩, fun hno ↦ ?_⟩
    · simp only [iid, hcounts]
    · refine covers_splitBy g htotal (sectionSizes_length htotal) (sectionSizes_sum htotal) fun c hc ↦ ?_
      exact (minSamples_le_div htotal hsize).trans (Int.ofNat_le.mpr (le_of_mem_sectionSizes hc))
    · exact absurd (fun counts h ↦ by cases hcounts.symm.trans h) hno
  | some counts =>
    have hiff : AdmitsIid size total config ↔
        ¬(counts.length ≠ total ∨ counts.sum ≠ size ∨ ∃ c ∈ counts, c < config.minSamples) := by
      simp [AdmitsIid, hcounts, not_or]
    refine ⟨fun hadmits ↦ ⟨partsOf (splitBy g.permutation (counts.map Int.toNat)), ?_, ?_⟩, fun hno ↦ ?_⟩
    · simp only [iid, hcounts]
      exact congrArg some (if_neg (hiff.mp hadmits))
    · obtain ⟨hlength, hsum, henough⟩ := hadmits counts hcounts
      have hpos : ∀ c ∈ counts, 0 ≤ c := fun c hc ↦ (Int.zero_le_ofNat 1).trans (hmin.trans (henough c hc))
      refine covers_splitBy g htotal ((List.length_map _).trans hlength) (toNat_sum hpos hsum) fun c hc ↦ ?_
      obtain ⟨z, hz, rfl⟩ := List.mem_map.mp hc
      rw [Int.toNat_of_nonneg (hpos z hz)]
      exact henough z hz
    · refine ⟨"sample_counts must cover the dataset exactly and respect min_samples", ?_⟩
      simp only [iid, hcounts]
      exact congrArg some (if_pos (not_not.mp fun h ↦ hno (hiff.mpr h)))

theorem dirichlet_decides (htotal : 0 < total) (hmin : 1 ≤ config.minSamples) (halpha : 0 < config.alpha.value)
    (hsize : total * config.minSamples ≤ size) (labels : Option (List ℤ)) (family : String) (extra : ℕ) :
    Decides size (AdmitsDirichlet size config labels family) config.minSamples
      (dirichlet config g labels family (size + extra)) := by
  by_cases hfamily : family ∉ singleLabelFamilies
  · refine ⟨fun hadmits ↦ absurd hadmits.1 hfamily, fun _ ↦ ⟨_, if_pos hfamily⟩⟩
  · cases labels with
    | none =>
      refine ⟨fun hadmits ↦ ?_, fun _ ↦ ⟨_, if_neg hfamily⟩⟩
      obtain ⟨-, -, l, hl, -⟩ := hadmits
      cases hl
    | some labels =>
      by_cases hbad : labels.length ≠ size ∨ config.sampleCounts.isSome = true
      · refine ⟨fun hadmits ↦ ?_, fun _ ↦ ⟨_, (if_neg hfamily).trans (if_pos hbad)⟩⟩
        obtain ⟨-, hnone, l, hl, hlength⟩ := hadmits
        cases hl
        rw [hnone] at hbad
        exact (hbad.elim (· hlength) fun h ↦ by cases h).elim
      · have hdirichlet : dirichlet config g (some labels) family (size + extra) =
            if total = 1 then some (.ok fun _ ↦ g.permutation)
            else dirichletPartition labels total config.alpha.value config.minSamples g.draws (size + extra) :=
          (if_neg hfamily).trans (if_neg hbad)
        obtain ⟨hlength, hnone⟩ := not_or.mp hbad
        rw [not_not] at hlength
        refine ⟨fun _ ↦ ?_, fun hno ↦ absurd ⟨not_not.mp hfamily, by simpa using hnone, labels, rfl, hlength⟩ hno⟩
        by_cases hone : total = 1
        · subst hone
          refine ⟨fun _ ↦ g.permutation, hdirichlet.trans (if_pos rfl), .of_flatMap_perm ?_, fun _ ↦ ?_⟩
          · rw [List.flatMap_def]
            simpa using g.permutation_perm
          · rw [g.permutation_perm.length_eq, List.length_range]
            simpa using hsize
        · have henough := minSamples_le_div htotal hsize
          have hclients : total ≤ labels.length := by
            have hle := mul_le_mul_of_nonneg_left hmin (Int.natCast_nonneg total)
            rw [mul_one] at hle
            exact hlength ▸ Int.ofNat_le.mp (hle.trans hsize)
          obtain ⟨parts, hok, hlossless, hsizes⟩ := dirichletPartition_ok labels config.alpha.value config.minSamples
            g.draws (size + extra) (by omega) halpha hmin hclients (hlength.le.trans (Nat.le_add_right _ _))
          rw [hlength, min_eq_left henough] at hsizes
          exact ⟨parts, hdirichlet.trans ((if_neg hone).trans hok), hlength ▸ hlossless, hsizes⟩

/-- What a configuration that was constructed has. -/
theorem of_postInit (h : config.postInit = .ok ()) :
    1 ≤ config.minSamples ∧ (config.method = "iid" ∨ config.method = "dirichlet") ∧ 0 < config.alpha.value := by
  obtain ⟨_, hmin, h⟩ := bind_eq_ok h
  obtain ⟨_, hmethod, -⟩ := bind_eq_ok h
  obtain ⟨hmethod, hfinite, halpha⟩ := of_require hmethod
  refine ⟨of_require hmin, by simpa using hmethod, ?_⟩
  rw [← Number.finite_value hfinite] at halpha
  simp only [Number.atMost, Number.below, Bool.or_eq_false_iff, decide_eq_false_iff_not, not_lt,
    Number.finite.injEq] at halpha
  exact lt_of_le_of_ne halpha.1 (Ne.symm halpha.2)

theorem partitionDataset_decides (hconfig : config.postInit = .ok ()) (labels : Option (List ℤ)) (family : String)
    (extra : ℕ) : Decides size (Admits size total config labels family) config.minSamples
      (partitionDataset config g labels family (size + extra)) := by
  obtain ⟨hmin, hmethod, halpha⟩ := of_postInit hconfig
  by_cases hsmall : total < 1 ∨ config.minSamples < 1 ∨ (size : ℤ) < total * config.minSamples
  · refine ⟨fun hadmits ↦ ?_, fun _ ↦ ⟨_, if_pos hsmall⟩⟩
    obtain ⟨htotal, hsize, -⟩ := hadmits
    obtain h | h | h := hsmall
    · omega
    · omega
    · exact absurd hsize (not_le.mpr h)
  · simp only [not_or, not_lt] at hsmall
    obtain ⟨htotal, -, hsize⟩ := hsmall
    have hresult {admits : Prop} {result : Option (Except PyError (Parts total))}
        (h : Decides size admits config.minSamples result)
        (hmap : partitionDataset config g labels family (size + extra) =
          result.map fun r ↦ r.bind (checkCover size config.minSamples)) :
        Decides size admits config.minSamples (partitionDataset config g labels family (size + extra)) := by
      refine ⟨fun hadmits ↦ ?_, fun hno ↦ ?_⟩
      · obtain ⟨parts, rfl, hcovers⟩ := h.1 hadmits
        exact ⟨parts, hmap.trans (congrArg some (checkCover_ok hcovers)), hcovers⟩
      · obtain ⟨message, rfl⟩ := h.2 hno
        exact ⟨message, hmap⟩
    have hlarge : ¬(total < 1 ∨ config.minSamples < 1 ∨ (size : ℤ) < total * config.minSamples) := by
      simp only [not_or, not_lt]
      exact ⟨htotal, hmin, hsize⟩
    obtain hiid | hdirichlet := hmethod
    · have hiff : Admits size total config labels family ↔ AdmitsIid size total config := by
        simp [Admits, hiid, hsize, Nat.pos_of_ne_zero (Nat.one_le_iff_ne_zero.mp htotal)]
      rw [hiff]
      refine hresult (iid_decides (g := g) htotal hmin hsize) ((if_neg hlarge).trans ?_)
      simp only [if_pos hiid]
    · have hiff : Admits size total config labels family ↔ AdmitsDirichlet size config labels family := by
        simp [Admits, hdirichlet, hsize, Nat.pos_of_ne_zero (Nat.one_le_iff_ne_zero.mp htotal)]
      rw [hiff]
      refine hresult (dirichlet_decides (g := g) htotal hmin halpha hsize labels family extra)
        ((if_neg hlarge).trans ?_)
      have hother : ¬config.method = "iid" := by simp [hdirichlet]
      simp only [if_neg hother, if_pos hdirichlet]

end Decides

/-! ### The batches of an epoch -/

namespace ClientBatches

variable (L : Loader) (c : ClientBatches)

theorem flatten_windows (l : List ℕ) (b n : ℕ) :
    ((List.range n).map fun j ↦ (l.drop (j * b)).take b).flatten = l.take (n * b) := by
  induction n with
  | zero => simp
  | succ n ih =>
    rw [List.range_succ, List.map_append, List.flatten_append, ih, List.map_singleton, List.flatten_singleton,
      Nat.succ_mul, List.take_add]

theorem length_le_batchCount : c.indices.length ≤ c.batchCount * c.batchSize := by
  have hdiv := Nat.div_add_mod (c.indices.length + c.batchSize - 1) c.batchSize
  have hlt := Nat.mod_lt (c.indices.length + c.batchSize - 1) c.batchSize_pos
  have hpos := c.batchSize_pos
  rw [Nat.mul_comm] at hdiv
  rw [batchCount]
  omega

theorem batched_flatten {l : List ℕ} (h : l.length = c.indices.length) : (c.batched l).flatten = l := by
  rw [batched, flatten_windows]
  exact List.take_of_length_le (h ▸ c.length_le_batchCount)

theorem epochBatches_flatten (epoch : ℕ) : (c.epochBatches L epoch).flatten.Perm c.indices := by
  have hperm := L.order_perm (c.epochSeed L epoch) c.indices
  rw [epochBatches, c.batched_flatten hperm.length_eq]
  exact hperm

theorem count_batches (x : ℕ) : (c.batches L).flatten.count x = c.localEpochs * c.indices.count x := by
  rw [batches]
  induction c.localEpochs with
  | zero => simp
  | succ n ih =>
    rw [List.range_succ, List.flatMap_append, List.flatten_append, List.count_append, ih, List.flatMap_singleton,
      (c.epochBatches_flatten L n).count_eq, Nat.succ_mul]

theorem batches_length : (c.batches L).length = c.length := by
  rw [batches, length, List.length_flatMap]
  simp [epochBatches, batched, Nat.mul_comm]

/-- A batch is not empty, is not too large and has the samples of the client. -/
theorem mem_batches {batch : List ℕ} (h : batch ∈ c.batches L) :
    0 < batch.length ∧ batch.length ≤ c.batchSize ∧ ∀ x ∈ batch, x ∈ c.indices := by
  obtain ⟨epoch, -, h⟩ := List.mem_flatMap.mp h
  have hperm := L.order_perm (c.epochSeed L epoch) c.indices
  obtain ⟨j, hj, rfl⟩ := List.mem_map.mp h
  have hstart : j * c.batchSize < c.indices.length := by
    have hlt := List.mem_range.mp hj
    rw [batchCount, Nat.lt_div_iff_mul_lt c.batchSize_pos] at hlt
    omega
  rw [List.length_take, List.length_drop, hperm.length_eq]
  refine ⟨?_, Nat.min_le_left _ _, fun x hx ↦ hperm.mem_iff.mp (List.mem_of_mem_drop (List.mem_of_mem_take hx))⟩
  have hpos := c.batchSize_pos
  omega

/-- Where the iteration stops: at the end, or before the first batch at which the client is late or drops out. -/
structure Stops (late : ℕ → Bool) (failAfter : Option ℤ) (executed k : ℕ) (l : List (List ℕ))
    (result : List (List ℕ) × Option PyError) : Prop where
  le : k ≤ l.length
  yields : result.1 = l.take k
  before : ∀ n < k, late (executed + n) = false ∧ ∀ m ∈ failAfter, ((executed + n : ℕ) : ℤ) < m
  ends : k = l.length ∧ result.2 = none ∨
    k < l.length ∧ (late (executed + k) = true ∧ result.2 = some deadlineExceeded ∨
      late (executed + k) = false ∧ (∃ m ∈ failAfter, m ≤ ((executed + k : ℕ) : ℤ)) ∧ result.2 = some injectedDropout)

theorem serve_stops (late : ℕ → Bool) (failAfter : Option ℤ) (executed : ℕ) (l : List (List ℕ)) :
    ∃ k, Stops late failAfter executed k l (serve late failAfter executed l) := by
  induction l generalizing executed with
  | nil => exact ⟨0, le_rfl, rfl, fun n hn ↦ absurd hn (Nat.not_lt_zero n), .inl ⟨rfl, rfl⟩⟩
  | cons raw rest ih =>
    have hnone {n : ℕ} (hn : n < 0) : late (executed + n) = false ∧ ∀ m ∈ failAfter, ((executed + n : ℕ) : ℤ) < m :=
      absurd hn (Nat.not_lt_zero n)
    by_cases hlate : late executed = true
    · have hserve : serve late failAfter executed (raw :: rest) = ([], some deadlineExceeded) := if_pos hlate
      rw [hserve]
      exact ⟨0, Nat.zero_le _, rfl, fun n hn ↦ hnone hn, .inr ⟨Nat.succ_pos _, .inl ⟨hlate, rfl⟩⟩⟩
    · have hlate' : late executed = false := Bool.eq_false_iff.mpr hlate
      by_cases hfail : (failAfter.any fun n ↦ decide (n ≤ (executed : ℤ))) = true
      · have hserve : serve late failAfter executed (raw :: rest) = ([], some injectedDropout) :=
          (if_neg hlate).trans (if_pos hfail)
        have hreached : ∃ m ∈ failAfter, m ≤ (executed : ℤ) := by
          cases failAfter with
          | none => cases hfail
          | some m => exact ⟨m, rfl, of_decide_eq_true hfail⟩
        rw [hserve]
        exact ⟨0, Nat.zero_le _, rfl, fun n hn ↦ hnone hn, .inr ⟨Nat.succ_pos _, .inr ⟨hlate', hreached, rfl⟩⟩⟩
      · have hserve : serve late failAfter executed (raw :: rest) =
            (raw :: (serve late failAfter (executed + 1) rest).1, (serve late failAfter (executed + 1) rest).2) :=
          (if_neg hlate).trans (if_neg hfail)
        obtain ⟨k, hle, hyields, hbefore, hends⟩ := ih (executed + 1)
        have hshift (n : ℕ) : executed + 1 + n = executed + (n + 1) := by omega
        rw [hserve]
        refine ⟨k + 1, Nat.succ_le_succ hle, congrArg (raw :: ·) hyields, ?_, ?_⟩
        · intro n hn
          cases n with
          | zero =>
            refine ⟨hlate', fun m hm ↦ ?_⟩
            rw [Option.mem_def] at hm
            subst hm
            simpa using hfail
          | succ n =>
            rw [← hshift n]
            exact hbefore n (Nat.lt_of_succ_lt_succ hn)
        · rw [← hshift k]
          exact hends.imp (fun h ↦ ⟨congrArg Nat.succ h.1, h.2⟩) fun h ↦ ⟨Nat.succ_lt_succ h.1, h.2⟩

end ClientBatches

/-- `partition_dataset` meets a request or refuses it with a `ValueError`, its own check at the end never fails, and
the clients of a round go through every sample of the dataset once in an epoch. -/
theorem partition_dataset_trains_each_sample (config : PartitionConfig) (hconfig : config.postInit = .ok ())
    (g : Generator size total) (labels : Option (List ℤ)) (family : String) (extra : ℕ) :
    (Admits size total config labels family ∧ ∃ parts,
      partitionDataset config g labels family (size + extra) = some (.ok parts) ∧
      Covers size config.minSamples parts ∧
      ∀ (L : Loader) (epochs : ℕ) (clients : Fin total → ClientBatches),
        (∀ i, (clients i).indices = parts i ∧ (clients i).localEpochs = epochs) →
        ∀ x, ∑ i, ((clients i).batches L).flatten.count x = if x < size then epochs else 0) ∨
    ¬Admits size total config labels family ∧
      ∃ message, partitionDataset config g labels family (size + extra) = some (.error (.valueError message)) := by
  have hdecides := partitionDataset_decides (g := g) hconfig labels family extra
  by_cases hadmits : Admits size total config labels family
  · obtain ⟨parts, hok, hcovers⟩ := hdecides.1 hadmits
    refine .inl ⟨hadmits, parts, hok, hcovers, fun L epochs clients hclients x ↦ ?_⟩
    have hcount : ∑ i, (parts i).count x = if x < size then 1 else 0 := by
      rw [Fin.sum_univ_def, ← Function.comp_def (List.count x) parts, ← List.count_flatMap,
        hcovers.lossless.flatMap_perm.count_eq, List.nodup_range.count]
      simp only [List.mem_range]
    have heach (i : Fin total) : ((clients i).batches L).flatten.count x = epochs * (parts i).count x := by
      rw [ClientBatches.count_batches, (hclients i).1, (hclients i).2]
    rw [Finset.sum_congr rfl fun i _ ↦ heach i, ← Finset.mul_sum, hcount, mul_ite, mul_one, mul_zero]
  · exact .inr ⟨hadmits, hdecides.2 hadmits⟩

/-- Three samples in their order, and two clients. -/
def threeSamples : Generator 3 2 := ⟨[0, 1, 2], .refl _, oneSided⟩

theorem three_samples_trained : ∃ parts : Parts 2,
    partitionDataset {} threeSamples none "image_classification" 3 = some (.ok parts) ∧ Covers 3 1 parts := by
  have hadmits : Admits 3 2 {} none "image_classification" :=
    ⟨by decide, by decide, .inl ⟨rfl, fun counts h ↦ by cases h⟩⟩
  obtain ⟨-, parts, hok, hcovers, -⟩ | ⟨hno, -⟩ := partition_dataset_trains_each_sample {} (by decide +kernel)
    threeSamples none "image_classification" 0
  · exact ⟨parts, hok, hcovers⟩
  · exact absurd hadmits hno

end SplitFleet.DataPartition
