import SplitFleet.Lib.Python

set_option autoImplicit false

namespace SplitFleet.Lib

/-- A call of a method on an object with state `σ`. Where it raises, what it changed before stays
changed. -/
abbrev Method (σ α : Type) := EStateM PyError σ α

namespace Method

variable {σ α β ι : Type}

/-- A computation that does not touch the object. -/
def lift : Except PyError α → Method σ α
  | .ok a => pure a
  | .error e => throw e

instance : MonadLift (Except PyError) (EStateM PyError σ) := ⟨lift⟩

/-- The object after the call, whether it returned or raised. -/
def after (x : Method σ α) (s : σ) : σ :=
  match x.run s with
  | .ok _ t => t
  | .error _ t => t

theorem after_of_ok {x : Method σ α} {s t : σ} {a : α} (h : x.run s = .ok a t) : x.after s = t := by
  rw [after, h]

/-- What the call returns or raises. -/
def value (x : Method σ α) (s : σ) : Except PyError α :=
  match x.run s with
  | .ok a _ => .ok a
  | .error e _ => .error e

section Bind

variable {x : Method σ α} {f : α → Method σ β} {s t : σ}

theorem run_bind_of_ok {a : α} (h : x.run s = .ok a t) : (x >>= f).run s = (f a).run t := by
  rw [EStateM.run_bind, h]

theorem run_bind_of_error {e : PyError} (h : x.run s = .error e t) : (x >>= f).run s = .error e t := by
  rw [EStateM.run_bind, h]

theorem bind_eq_ok {b : β} (h : (x >>= f).run s = .ok b t) :
    ∃ a u, x.run s = .ok a u ∧ (f a).run u = .ok b t := by
  rw [EStateM.run_bind] at h
  cases hx : x.run s with
  | ok a u =>
    rw [hx] at h
    exact ⟨a, u, rfl, h⟩
  | error e u =>
    rw [hx] at h
    cases h

theorem after_bind_of_ok {a : α} (h : x.run s = .ok a t) : (x >>= f).after s = (f a).after t := by
  rw [after, run_bind_of_ok h, after]

theorem value_bind_of_ok {a : α} (h : x.run s = .ok a t) : (x >>= f).value s = (f a).value t := by
  rw [value, run_bind_of_ok h, value]

theorem after_bind_pure (x : Method σ α) (g : α → β) (s : σ) : (x >>= fun a ↦ pure (g a)).after s = x.after s := by
  rw [after, after, EStateM.run_bind]
  cases x.run s <;> rfl

theorem value_bind_pure (x : Method σ α) (g : α → β) (s : σ) :
    (x >>= fun a ↦ pure (g a)).value s = g <$> x.value s := by
  rw [value, value, EStateM.run_bind]
  cases x.run s <;> rfl

theorem map_eq_ok {g : α → β} {b : β} (h : (g <$> x).run s = .ok b t) :
    ∃ a, x.run s = .ok a t ∧ b = g a := by
  rw [map_eq_pure_bind] at h
  obtain ⟨a, u, ha, h⟩ := bind_eq_ok h
  cases h
  exact ⟨a, ha, rfl⟩

theorem discard_eq_ok (h : (discard x).run s = .ok () t) : ∃ a, x.run s = .ok a t :=
  (map_eq_ok h).imp fun _ ↦ And.left

theorem run_map_of_ok {g : α → β} {a : α} (h : x.run s = .ok a t) : (g <$> x).run s = .ok (g a) t := by
  rw [map_eq_pure_bind, run_bind_of_ok h]
  rfl

theorem run_discard_of_ok {a : α} (h : x.run s = .ok a t) : (discard x).run s = .ok () t := run_map_of_ok h

end Bind

@[simp] theorem run_lift_ok (a : α) (s : σ) : (lift (.ok a)).run s = .ok a s := rfl

@[simp] theorem run_lift_error (e : PyError) (s : σ) : (lift (.error e) : Method σ α).run s = .error e s := rfl

@[simp] theorem run_liftM_ok (a : α) (s : σ) :
    EStateM.run (liftM (Except.ok a : Except PyError α) : EStateM PyError σ α) s = .ok a s := rfl

@[simp] theorem run_liftM_error (e : PyError) (s : σ) :
    EStateM.run (liftM (Except.error e : Except PyError α) : EStateM PyError σ α) s = .error e s := rfl

theorem lift_eq_ok {x : Except PyError α} {a : α} {s t : σ} (h : (lift x).run s = .ok a t) :
    x = .ok a ∧ t = s := by
  cases x with
  | error e => cases h
  | ok b =>
    cases h
    exact ⟨rfl, rfl⟩

theorem lift_bind_eq_ok {x : Except PyError α} {f : α → Method σ β} {b : β} {s t : σ}
    (h : EStateM.run ((liftM x : EStateM PyError σ α) >>= f) s = .ok b t) :
    ∃ a, x = .ok a ∧ (f a).run s = .ok b t := by
  cases x with
  | error e => cases h
  | ok a => exact ⟨a, rfl, h⟩

theorem require_bind_eq_ok {c : Prop} [Decidable c] {e : PyError} {f : Unit → Method σ β} {b : β} {s t : σ}
    (h : EStateM.run ((liftM (require c e) : EStateM PyError σ Unit) >>= f) s = .ok b t) :
    c ∧ (f ()).run s = .ok b t := by
  obtain ⟨_, hc, h⟩ := lift_bind_eq_ok h
  exact ⟨of_require hc, h⟩

theorem ok_bind_run (a : α) (f : α → Method σ β) (s : σ) :
    EStateM.run ((liftM (Except.ok a : Except PyError α) : EStateM PyError σ α) >>= f) s = (f a).run s := rfl

theorem get_bind_run (f : σ → Method σ β) (s : σ) : (get >>= f).run s = (f s).run s := rfl

theorem modify_bind_run (g : σ → σ) (f : PUnit → Method σ β) (s : σ) :
    (modify g >>= f).run s = (f ⟨⟩).run (g s) := rfl

theorem run_mapM_nil (f : ι → Method σ α) (s : σ) : ([].mapM f).run s = .ok [] s := rfl

theorem mapM_cons_eq_ok {f : ι → Method σ α} {i : ι} {l : List ι} {as : List α} {s t : σ}
    (h : ((i :: l).mapM f).run s = .ok as t) :
    ∃ a u rest, (f i).run s = .ok a u ∧ (l.mapM f).run u = .ok rest t ∧ as = a :: rest := by
  rw [List.mapM_cons] at h
  obtain ⟨a, u, ha, h⟩ := bind_eq_ok h
  obtain ⟨rest, v, hr, h⟩ := bind_eq_ok h
  cases h
  exact ⟨a, u, rest, ha, hr, rfl⟩

theorem forM_cons_eq_ok {f : ι → Method σ Unit} {i : ι} {l : List ι} {s t : σ}
    (h : ((i :: l).forM f).run s = .ok () t) :
    ∃ u, (f i).run s = .ok () u ∧ (l.forM f).run u = .ok () t := by
  obtain ⟨a, u, ha, h⟩ := bind_eq_ok h
  exact ⟨u, ha, h⟩

theorem forM_cons_run {f : ι → Method σ Unit} {i : ι} {l : List ι} {s t : σ} (h : (f i).run s = .ok () t) :
    ((i :: l).forM f).run s = (l.forM f).run t :=
  run_bind_of_ok h

theorem forM_append_run {f : ι → Method σ Unit} {l l' : List ι} {s t : σ} (h : (l.forM f).run s = .ok () t) :
    ((l ++ l').forM f).run s = (l'.forM f).run t := by
  induction l generalizing s with
  | nil =>
    cases h
    rfl
  | cons i l ih =>
    obtain ⟨u, hu, h⟩ := forM_cons_eq_ok h
    rw [List.cons_append, forM_cons_run hu, ih h]

/-- What a call may do to the object, raised or not. -/
def Respects (R : σ → σ → Prop) (x : Method σ α) : Prop := ∀ s, R s (x.after s)

namespace Respects

variable {R : σ → σ → Prop}

theorem of_ok {x : Method σ α} (hx : Respects R x) {s t : σ} {a : α} (h : x.run s = .ok a t) : R s t :=
  after_of_ok h ▸ hx s

theorem modify {f : σ → σ} (h : ∀ s, R s (f s)) : Respects R (modify f : Method σ PUnit) := h

section Refl

variable [Std.Refl R]

theorem pure (a : α) : Respects R (Pure.pure a : Method σ α) := fun s ↦ Std.Refl.refl s

theorem get : Respects R (MonadState.get : Method σ σ) := fun s ↦ Std.Refl.refl s

theorem throw (e : PyError) : Respects R (MonadExcept.throw e : Method σ α) := fun s ↦ Std.Refl.refl s

theorem lift (x : Except PyError α) : Respects R (Method.lift x : Method σ α) := by
  intro s
  cases x <;> exact Std.Refl.refl s

end Refl

theorem bind [IsTrans σ R] {x : Method σ α} {f : α → Method σ β} (hx : Respects R x)
    (hf : ∀ a, Respects R (f a)) : Respects R (x >>= f) := by
  intro s
  have h := hx s
  rw [after] at h ⊢
  rw [EStateM.run_bind]
  cases hr : x.run s with
  | error e t =>
    rw [hr] at h
    exact h
  | ok a t =>
    rw [hr] at h
    exact Trans.trans h (hf a t)

theorem map {x : Method σ α} (hx : Respects R x) (g : α → β) : Respects R (g <$> x) := by
  intro s
  have h := hx s
  rw [after] at h ⊢
  rw [map_eq_pure_bind, EStateM.run_bind]
  cases hr : x.run s with
  | error e t =>
    rw [hr] at h
    exact h
  | ok a t =>
    rw [hr] at h
    exact h

/-- As `bind`, where the rest relies on what the first call returned. -/
theorem bind_of_ok [IsTrans σ R] {x : Method σ α} {f : α → Method σ β} (hx : Respects R x)
    (hf : ∀ s a t, x.run s = .ok a t → R t ((f a).after t)) : Respects R (x >>= f) := by
  intro s
  have h := hx s
  rw [after] at h ⊢
  rw [EStateM.run_bind]
  cases hr : x.run s with
  | error e t =>
    rw [hr] at h
    exact h
  | ok a t =>
    rw [hr] at h
    exact Trans.trans h (hf s a t hr)

theorem lift_bind [Std.Refl R] {x : Except PyError α} {f : α → Method σ β}
    (hf : ∀ a, x = .ok a → Respects R (f a)) : Respects R (liftM x >>= f) := by
  intro s
  cases x with
  | error e => exact Std.Refl.refl s
  | ok a => exact hf a rfl s

theorem require_bind [Std.Refl R] {c : Prop} [Decidable c] {e : PyError} {f : Unit → Method σ β}
    (hf : c → Respects R (f ())) : Respects R (liftM (require c e) >>= f) :=
  lift_bind fun _ h ↦ hf (of_require h)

section Loops

variable [IsPreorder σ R]

theorem mapM {f : ι → Method σ α} {l : List ι} (hf : ∀ i ∈ l, Respects R (f i)) : Respects R (l.mapM f) := by
  induction l with
  | nil => exact pure []
  | cons i l ih =>
    rw [List.mapM_cons]
    refine bind (hf i List.mem_cons_self) fun a ↦ ?_
    exact bind (ih fun j hj ↦ hf j (List.mem_cons_of_mem i hj)) fun as ↦ pure _

theorem forM {f : ι → Method σ Unit} {l : List ι} (hf : ∀ i ∈ l, Respects R (f i)) : Respects R (l.forM f) := by
  induction l with
  | nil => exact pure ()
  | cons i l ih =>
    exact bind (hf i List.mem_cons_self) fun _ ↦ ih fun j hj ↦ hf j (List.mem_cons_of_mem i hj)

end Loops

end Respects

/-- What a call that raises may have done to the object by then. -/
def Leaves (R : σ → σ → Prop) (x : Method σ α) : Prop := ∀ s e t, x.run s = .error e t → R s t

namespace Leaves

variable {R : σ → σ → Prop}

theorem of_respects {x : Method σ α} (hx : Respects R x) : Leaves R x := by
  intro s e t h
  have hr := hx s
  rwa [after, h] at hr

theorem of_returns {x : Method σ α} (hx : ∀ s, ∃ a t, x.run s = .ok a t) : Leaves R x := by
  intro s e t h
  obtain ⟨a, u, hu⟩ := hx s
  rw [hu] at h
  cases h

theorem bind [IsTrans σ R] {x : Method σ α} {f : α → Method σ β} (hx : Respects R x)
    (hf : ∀ a, Leaves R (f a)) : Leaves R (x >>= f) := by
  intro s e t h
  have hr := hx s
  rw [after] at hr
  rw [EStateM.run_bind] at h
  cases hx' : x.run s with
  | ok a u =>
    rw [hx'] at h hr
    exact Trans.trans hr (hf a u e t h)
  | error e' u =>
    rw [hx'] at h hr
    cases h
    exact hr

end Leaves

/-- A loop that collects results: what a turn says of its result at the state it starts in, it also
says at the start of the loop, where the turns before it cannot tell the difference. -/
theorem forall₂_of_mapM {R : σ → σ → Prop} [IsPreorder σ R] {Q : σ → ι → α → Prop} {f : ι → Method σ α}
    (hR : ∀ i, Respects R (f i)) (hQ : ∀ i s a t, (f i).run s = .ok a t → Q s i a)
    (hback : ∀ i s t a, R s t → Q t i a → Q s i a) {l : List ι} {s t : σ} {as : List α}
    (h : (l.mapM f).run s = .ok as t) : List.Forall₂ (Q s) l as := by
  induction l generalizing s as with
  | nil =>
    cases h
    exact .nil
  | cons i l ih =>
    obtain ⟨a, u, rest, ha, hr, rfl⟩ := mapM_cons_eq_ok h
    exact .cons (hQ i s a u ha) ((ih hr).imp fun j b ↦ hback j s u b ((hR i).of_ok ha))

/-- The call returns, and then `Q` holds, or it raises one of the exceptions `E`. -/
def Yields (E : PyError → Prop) (x : Method σ α) (s : σ) (Q : α → σ → Prop) : Prop :=
  match x.run s with
  | .ok a t => Q a t
  | .error e _ => E e

namespace Yields

variable {E : PyError → Prop} {P : α → σ → Prop} {Q : β → σ → Prop} {s t : σ}

theorem of_run {x : Method σ α} {a : α} (hx : x.run s = .ok a t) (h : P a t) : Yields E x s P := by
  rw [Yields, hx]
  exact h

theorem of_error {x : Method σ α} {e : PyError} (hx : x.run s = .error e t) (h : E e) : Yields E x s P := by
  rw [Yields, hx]
  exact h

theorem of_ok {x : Method σ α} (h : Yields E x s P) {a : α} (hx : x.run s = .ok a t) : P a t := by
  rw [Yields, hx] at h
  exact h

theorem of_raise {x : Method σ α} (h : Yields E x s P) {e : PyError} (hx : x.run s = .error e t) : E e := by
  rw [Yields, hx] at h
  exact h

theorem exists_of_returns {x : Method σ α} (h : Yields (fun _ ↦ False) x s P) : ∃ a t, x.run s = .ok a t ∧ P a t := by
  rw [Yields] at h
  cases hr : x.run s with
  | ok a t =>
    rw [hr] at h
    exact ⟨a, t, rfl, h⟩
  | error e t =>
    rw [hr] at h
    exact h.elim

theorem congr {x y : Method σ α} (h : x.run s = y.run s) (hy : Yields E y s P) : Yields E x s P := by
  rwa [Yields, h]

theorem pure {a : α} (h : P a s) : Yields E (Pure.pure a : Method σ α) s P := h

theorem bind {x : Method σ α} {f : α → Method σ β} (hx : Yields E x s P) (hf : ∀ a t, P a t → Yields E (f a) t Q) :
    Yields E (x >>= f) s Q := by
  rw [Yields] at hx ⊢
  rw [EStateM.run_bind]
  cases hr : x.run s with
  | ok a t =>
    rw [hr] at hx
    exact hf a t hx
  | error e t =>
    rw [hr] at hx
    exact hx

theorem mono {x : Method σ α} {P' : α → σ → Prop} (hx : Yields E x s P) (h : ∀ a t, P a t → P' a t) :
    Yields E x s P' := by
  rw [Yields] at hx ⊢
  cases hr : x.run s with
  | ok a t =>
    rw [hr] at hx
    exact h a t hx
  | error e t =>
    rw [hr] at hx
    exact hx

theorem and {E' : PyError → Prop} {x : Method σ α} {P' : α → σ → Prop} (hx : Yields E x s P)
    (hx' : Yields E' x s P') : Yields E x s fun a t ↦ P a t ∧ P' a t := by
  rw [Yields] at hx hx' ⊢
  cases hr : x.run s with
  | ok a t =>
    rw [hr] at hx hx'
    exact ⟨hx, hx'⟩
  | error e t =>
    rw [hr] at hx
    exact hx

theorem get_bind {f : σ → Method σ β} (h : Yields E (f s) s Q) : Yields E (get >>= f) s Q := h

theorem modify_bind {g : σ → σ} {f : PUnit → Method σ β} (h : Yields E (f ⟨⟩) (g s) Q) :
    Yields E (modify g >>= f) s Q := h

/-- A loop whose turns keep an invariant. -/
theorem mapM {I : σ → Prop} {f : ι → Method σ α} {l : List ι}
    (hf : ∀ i ∈ l, ∀ s, I s → Yields E (f i) s fun _ t ↦ I t) (h : I s) : Yields E (l.mapM f) s fun _ t ↦ I t := by
  induction l generalizing s with
  | nil => exact .of_run (run_mapM_nil f s) h
  | cons i l ih =>
    rw [List.mapM_cons]
    refine (hf i List.mem_cons_self s h).bind fun a t ht ↦ ?_
    exact (ih (fun j hj ↦ hf j (List.mem_cons_of_mem i hj)) ht).bind fun as r hr ↦ .pure hr

theorem ok_bind {x : Except PyError α} {f : α → Method σ β} {a : α} (hx : x = .ok a) (h : Yields E (f a) s Q) :
    Yields E (liftM x >>= f) s Q := by
  rw [hx]
  exact h

theorem require_bind {c : Prop} [Decidable c] {e : PyError} {f : Unit → Method σ β} (hc : c)
    (h : Yields E (f ()) s Q) : Yields E (liftM (require c e) >>= f) s Q := ok_bind (require_of hc e) h

theorem lift_bind {x : Except PyError α} {f : α → Method σ β} (ho : ∀ a, x = .ok a → Yields E (f a) s Q)
    (he : ∀ e, x = .error e → E e) : Yields E (liftM x >>= f) s Q := by
  cases x with
  | ok a => exact ho a rfl
  | error e => exact he e rfl

end Yields

end Method

end SplitFleet.Lib
