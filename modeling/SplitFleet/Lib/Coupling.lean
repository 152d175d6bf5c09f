import SplitFleet.Lib.Hoare

set_option autoImplicit false

namespace SplitFleet.Lib.Method

variable {σ α β : Type}

/-- A part of the object. -/
def read (view : σ → β) : Method σ β := do
  let s ← get
  return view s

/-- Two runs with the same outcome, which leave objects that are related. -/
inductive Coupled (Q E : σ → σ → Prop) : EStateM.Result PyError σ α → EStateM.Result PyError σ α → Prop
  | ok {a : α} {s t : σ} (h : Q s t) : Coupled Q E (.ok a s) (.ok a t)
  | error {e : PyError} {s t : σ} (h : E s t) : Coupled Q E (.error e s) (.error e t)

/-- From objects related by `P` the call returns or raises the same, and leaves objects related by `Q` or by `E`. -/
def Couples (P : σ → σ → Prop) (x : Method σ α) (Q E : σ → σ → Prop) : Prop :=
  ∀ s t, P s t → Coupled Q E (x.run s) (x.run t)

namespace Couples

variable {P P' Q Q' E E' I : σ → σ → Prop} {x : Method σ α}

/-- The two ways in which coupled runs end. -/
theorem cases_run (h : Couples P x Q E) {s t : σ} (hst : P s t) :
    (∃ a s' t', x.run s = .ok a s' ∧ x.run t = .ok a t' ∧ Q s' t') ∨
      ∃ e s' t', x.run s = .error e s' ∧ x.run t = .error e t' ∧ E s' t' := by
  have hr := h s t hst
  generalize x.run s = r at hr ⊢
  generalize x.run t = r' at hr ⊢
  cases hr with
  | ok h => exact .inl ⟨_, _, _, rfl, rfl, h⟩
  | error h => exact .inr ⟨_, _, _, rfl, rfl, h⟩

theorem mono (h : Couples P x Q E) (hP : ∀ s t, P' s t → P s t) (hQ : ∀ s t, Q s t → Q' s t)
    (hE : ∀ s t, E s t → E' s t) : Couples P' x Q' E' := by
  intro s t hst
  obtain ⟨a, s', t', hs, ht, hQ'⟩ | ⟨e, s', t', hs, ht, hE'⟩ := h.cases_run (hP s t hst)
  · rw [hs, ht]
    exact .ok (hQ s' t' hQ')
  · rw [hs, ht]
    exact .error (hE s' t' hE')

theorem pure (a : α) (h : ∀ s t, P s t → Q s t) : Couples P (Pure.pure a) Q E := fun s t hst ↦ .ok (h s t hst)

theorem throw (e : PyError) (h : ∀ s t, P s t → E s t) : Couples P (MonadExcept.throw e : Method σ α) Q E :=
  fun s t hst ↦ .error (h s t hst)

theorem bind {f : α → Method σ β} (hx : Couples P x I E) (hf : ∀ a, Couples I (f a) Q E) :
    Couples P (x >>= f) Q E := by
  intro s t hst
  obtain ⟨a, s', t', hs, ht, hI⟩ | ⟨e, s', t', hs, ht, hE⟩ := hx.cases_run hst
  · rw [run_bind_of_ok hs, run_bind_of_ok ht]
    exact hf a s' t' hI
  · rw [run_bind_of_error hs, run_bind_of_error ht]
    exact .error hE

theorem lift (x : Except PyError α) (hok : ∀ s t, P s t → Q s t) (herror : ∀ s t, P s t → E s t) :
    Couples P (liftM x : EStateM PyError σ α) Q E := by
  intro s t hst
  cases x with
  | ok a => exact .ok (hok s t hst)
  | error e => exact .error (herror s t hst)

theorem lift_bind {x : Except PyError β} {f : β → Method σ α} (hf : ∀ b, x = .ok b → Couples P (f b) Q E)
    (herror : ∀ s t, P s t → E s t) : Couples P ((liftM x : EStateM PyError σ β) >>= f) Q E := by
  cases x with
  | ok b => exact hf b rfl
  | error e => exact fun s t hst ↦ .error (herror s t hst)

/-- A part that the relation fixes is read. -/
theorem read_bind {view : σ → β} {f : β → Method σ α} (hview : ∀ s t, P s t → view s = view t)
    (hf : ∀ s₀, Couples (fun s t ↦ P s t ∧ view s = view s₀) (f (view s₀)) Q E) : Couples P (read view >>= f) Q E := by
  intro s t hst
  change Coupled Q E ((f (view s)).run s) ((f (view t)).run t)
  rw [← hview s t hst]
  exact hf s s t ⟨hst, rfl⟩

theorem modify_bind {u : σ → σ} {f : PUnit → Method σ α} (h : ∀ s t, P s t → I (u s) (u t))
    (hf : Couples I (f ⟨⟩) Q E) : Couples P (modify u >>= f) Q E := fun s t hst ↦ hf _ _ (h s t hst)

theorem of_modify {u : σ → σ} (h : ∀ s t, P s t → Q (u s) (u t)) : Couples P (modify u : Method σ PUnit) Q E :=
  fun s t hst ↦ .ok (h s t hst)

theorem ite {c : Prop} [Decidable c] {x y : Method σ α} (hx : c → Couples P x Q E) (hy : ¬c → Couples P y Q E) :
    Couples P (if c then x else y) Q E := by
  split
  · next h => exact hx h
  · next h => exact hy h

theorem tryCatch {f : PyError → Method σ α} (hx : Couples P x Q I) (hf : ∀ e, Couples I (f e) Q E) :
    Couples P (MonadExcept.tryCatch x f) Q E := by
  intro s t hst
  obtain ⟨a, s', t', hs, ht, hQ⟩ | ⟨e, s', t', hs, ht, hI⟩ := hx.cases_run hst
  · rw [run_tryCatch_of_ok hs, run_tryCatch_of_ok ht]
    exact .ok hQ
  · rw [run_tryCatch_of_error hs, run_tryCatch_of_error ht]
    exact hf e s' t' hI

/-- The second call is made whether the first one returns or raises. -/
theorem tryFinally {J : σ → σ → Prop} {f : Method σ β} (hx : Couples P x J I) (hf : Couples J f Q E)
    (hraised : Couples I f E E) : Couples P (tryFinally x f) Q E := by
  intro s t hst
  obtain ⟨a, s', t', hs, ht, hJ⟩ | ⟨e, s', t', hs, ht, hI⟩ := hx.cases_run hst
  · rw [run_tryFinally_of_ok hs, run_tryFinally_of_ok ht]
    exact bind hf (fun _ ↦ pure a fun _ _ h ↦ h) s' t' hJ
  · rw [run_tryFinally_of_error hs, run_tryFinally_of_error ht]
    exact bind hraised (fun _ ↦ throw e fun _ _ h ↦ h) s' t' hI

end Couples

namespace Triple

variable {ι : Type} {Q : α → σ → Prop} {E : σ → Prop} {x : Method σ α}

theorem of_exists {P : ι → σ → Prop} (h : ∀ i, Triple (P i) x Q E) : Triple (fun s ↦ ∃ i, P i s) x Q E := by
  rintro s ⟨i, hs⟩
  exact h i s hs

theorem of_and {p : Prop} {P : σ → Prop} (h : p → Triple P x Q E) : Triple (fun s ↦ p ∧ P s) x Q E := by
  rintro s ⟨hp, hs⟩
  exact h hp s hs

end Triple

namespace Respects

variable {R : σ → σ → Prop} {x : Method σ α}

theorem tryCatch [IsTrans σ R] {f : PyError → Method σ α} (hx : Respects R x) (hf : ∀ e, Respects R (f e)) :
    Respects R (MonadExcept.tryCatch x f) := by
  intro s
  have h := hx s
  rw [after] at h ⊢
  cases hrun : x.run s with
  | ok a t =>
    rw [hrun] at h
    rw [run_tryCatch_of_ok hrun]
    exact h
  | error e t =>
    rw [hrun] at h
    rw [run_tryCatch_of_error hrun]
    exact Trans.trans h (hf e t)

theorem tryFinally [IsPreorder σ R] {f : Method σ β} (hx : Respects R x) (hf : Respects R f) :
    Respects R (tryFinally x f) := by
  intro s
  have h := hx s
  rw [after] at h ⊢
  cases hrun : x.run s with
  | ok a t =>
    rw [hrun] at h
    rw [run_tryFinally_of_ok hrun]
    exact Trans.trans h (bind hf (fun _ ↦ pure a) t)
  | error e t =>
    rw [hrun] at h
    rw [run_tryFinally_of_error hrun]
    exact Trans.trans h (bind hf (fun _ ↦ throw e) t)

theorem read [Std.Refl R] (view : σ → β) : Respects R (read view) := fun s ↦ Std.Refl.refl s

end Respects

end SplitFleet.Lib.Method
