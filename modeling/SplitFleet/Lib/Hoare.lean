import SplitFleet.Lib.Method

set_option autoImplicit false

namespace SplitFleet.Lib.Method

variable {σ α β : Type}

section Handlers

variable {x : Method σ α} {a : α} {e : PyError} {s t : σ}

theorem run_tryCatch_of_ok {f : PyError → Method σ α} (h : x.run s = .ok a t) : (tryCatch x f).run s = .ok a t := by
  change EStateM.tryCatch x f s = _
  rw [EStateM.tryCatch, show x s = _ from h]

theorem run_tryCatch_of_error {f : PyError → Method σ α} (h : x.run s = .error e t) :
    (tryCatch x f).run s = (f e).run t := by
  change EStateM.tryCatch x f s = _
  rw [EStateM.tryCatch, show x s = _ from h]
  rfl

theorem run_tryFinally_of_ok {f : Method σ β} (h : x.run s = .ok a t) :
    (tryFinally x f).run s = (f >>= fun _ ↦ pure a).run t := by
  change EStateM.map Prod.fst (tryFinally' x fun _ ↦ f) s = EStateM.bind f (fun _ ↦ pure a) t
  simp only [EStateM.map, EStateM.bind, tryFinally', show x s = _ from h]
  cases f t <;> rfl

theorem run_tryFinally_of_error {f : Method σ β} (h : x.run s = .error e t) :
    (tryFinally x f).run s = (f >>= fun _ ↦ throw e).run t := by
  change EStateM.map Prod.fst (tryFinally' x fun _ ↦ f) s = EStateM.bind f (fun _ ↦ throw e) t
  simp only [EStateM.map, EStateM.bind, tryFinally', show x s = _ from h]
  cases f t <;> rfl

end Handlers

/-- A call on a part of an object. -/
def within {τ : Type} (view : τ → σ) (put : τ → σ → τ) (x : Method σ α) : Method τ α := fun s ↦
  match x.run (view s) with
  | .ok a c => .ok a (put s c)
  | .error e c => .error e (put s c)

section Within

variable {τ : Type} {view : τ → σ} {put : τ → σ → τ} {x : Method σ α} {s : τ} {c : σ}

theorem run_within_of_ok {a : α} (h : x.run (view s) = .ok a c) : (x.within view put).run s = .ok a (put s c) := by
  change within view put x s = _
  rw [within, h]

theorem run_within_of_error {e : PyError} (h : x.run (view s) = .error e c) :
    (x.within view put).run s = .error e (put s c) := by
  change within view put x s = _
  rw [within, h]

end Within

/-- Where `P` holds before the call, `Q` holds of what it returns and of the object after it, and `E` of the object after
a call that raises. -/
def Triple (P : σ → Prop) (x : Method σ α) (Q : α → σ → Prop) (E : σ → Prop) : Prop :=
  ∀ s, P s → (∀ a t, x.run s = .ok a t → Q a t) ∧ ∀ e t, x.run s = .error e t → E t

namespace Triple

variable {P P' : σ → Prop} {Q Q' : α → σ → Prop} {R : β → σ → Prop} {E E' : σ → Prop}

theorem mono {x : Method σ α} (h : Triple P x Q E) (hP : ∀ s, P' s → P s) (hQ : ∀ a s, Q a s → Q' a s)
    (hE : ∀ s, E s → E' s) : Triple P' x Q' E' := by
  intro s hs
  obtain ⟨hok, herror⟩ := h s (hP s hs)
  exact ⟨fun a t ht ↦ hQ a t (hok a t ht), fun e t ht ↦ hE t (herror e t ht)⟩

theorem pure {a : α} (h : ∀ s, P s → Q a s) : Triple P (Pure.pure a) Q E := by
  intro s hs
  refine ⟨fun b t ht ↦ ?_, fun e t ht ↦ ?_⟩
  · cases ht
    exact h s hs
  · cases ht

theorem throw {e : PyError} (h : ∀ s, P s → E s) : Triple P (MonadExcept.throw e : Method σ α) Q E := by
  intro s hs
  refine ⟨fun b t ht ↦ ?_, fun e t ht ↦ ?_⟩
  · cases ht
  · cases ht
    exact h s hs

theorem bind {x : Method σ β} {f : β → Method σ α} (hx : Triple P x R E) (hf : ∀ b, Triple (R b) (f b) Q E) :
    Triple P (x >>= f) Q E := by
  intro s hs
  obtain ⟨hok, herror⟩ := hx s hs
  cases hrun : x.run s with
  | ok b u =>
    obtain ⟨hok', herror'⟩ := hf b u (hok b u hrun)
    rw [run_bind_of_ok hrun]
    exact ⟨hok', herror'⟩
  | error e u =>
    rw [run_bind_of_error hrun]
    refine ⟨fun a t ht ↦ ?_, fun e' t ht ↦ ?_⟩
    · cases ht
    · cases ht
      exact herror e u hrun

/-- A computation that does not touch the object. -/
theorem lift {x : Except PyError α} (hok : ∀ s a, P s → x = .ok a → Q a s) (herror : ∀ s, P s → E s) :
    Triple P (liftM x : EStateM PyError σ α) Q E := by
  intro s hs
  cases x with
  | ok a =>
    refine ⟨fun b t ht ↦ ?_, fun e t ht ↦ ?_⟩
    · cases ht
      exact hok s a hs rfl
    · cases ht
  | error e =>
    refine ⟨fun b t ht ↦ ?_, fun e' t ht ↦ ?_⟩
    · cases ht
    · cases ht
      exact herror s hs

theorem lift_bind {x : Except PyError β} {f : β → Method σ α} (hf : ∀ b, x = .ok b → Triple P (f b) Q E)
    (herror : ∀ s, P s → E s) : Triple P ((liftM x : EStateM PyError σ β) >>= f) Q E := by
  cases x with
  | ok b => exact hf b rfl
  | error e => exact bind (R := fun _ _ ↦ False) (lift (fun _ _ _ h ↦ nomatch h) herror) fun _ _ h ↦ h.elim

theorem require_bind {c : Prop} [Decidable c] {e : PyError} {f : Unit → Method σ α}
    (hf : c → Triple P (f ()) Q E) (herror : ∀ s, P s → E s) :
    Triple P ((liftM (require c e) : EStateM PyError σ Unit) >>= f) Q E :=
  lift_bind (fun _ hc ↦ hf (of_require hc)) herror

theorem get_bind {f : σ → Method σ α} (hf : ∀ s₀, P s₀ → Triple (fun s ↦ P s ∧ s = s₀) (f s₀) Q E) :
    Triple P (get >>= f) Q E := fun s hs ↦ hf s hs s ⟨hs, rfl⟩

theorem modify_bind {I : σ → Prop} {g : σ → σ} {f : PUnit → Method σ α} (h : ∀ s, P s → I (g s))
    (hf : Triple I (f ⟨⟩) Q E) :
    Triple P (modify g >>= f) Q E := fun s hs ↦ hf (g s) (h s hs)

theorem of_modify {g : σ → σ} {Q : PUnit → σ → Prop} (h : ∀ s, P s → Q ⟨⟩ (g s)) :
    Triple P (modify g : Method σ PUnit) Q E := by
  intro s hs
  refine ⟨fun a t ht ↦ ?_, fun e t ht ↦ ?_⟩
  · cases ht
    exact h s hs
  · cases ht

/-- What holds of the object whether the call returns or raises. -/
theorem after {x : Method σ α} {s : σ} (h : Triple P x (fun _ ↦ E) E) (hs : P s) : E (x.after s) := by
  obtain ⟨hok, herror⟩ := h s hs
  unfold Method.after
  split
  · next a t ht => exact hok a t ht
  · next e t ht => exact herror e t ht

theorem ite {c : Prop} [Decidable c] {x y : Method σ α} (hx : c → Triple P x Q E) (hy : ¬c → Triple P y Q E) :
    Triple P (if c then x else y) Q E := by
  split
  · next h => exact hx h
  · next h => exact hy h

theorem tryCatch {I : σ → Prop} {x : Method σ α} {f : PyError → Method σ α} (hx : Triple P x Q I)
    (hf : ∀ e, Triple I (f e) Q E) : Triple P (MonadExcept.tryCatch x f) Q E := by
  intro s hs
  obtain ⟨hok, herror⟩ := hx s hs
  cases hrun : x.run s with
  | ok a u =>
    rw [run_tryCatch_of_ok hrun]
    refine ⟨fun b t ht ↦ ?_, fun e t ht ↦ ?_⟩
    · cases ht
      exact hok a u hrun
    · cases ht
  | error e u =>
    rw [run_tryCatch_of_error hrun]
    exact hf e u (herror e u hrun)

/-- The second call is made whether the first one returns or raises. -/
theorem tryFinally {I : σ → Prop} {J : α → σ → Prop} {x : Method σ α} {f : Method σ β} (hx : Triple P x J I)
    (hf : ∀ a, Triple (J a) f (fun _ ↦ Q a) E) (hraised : Triple I f (fun _ ↦ E) E) :
    Triple P (tryFinally x f) Q E := by
  intro s hs
  obtain ⟨hok, herror⟩ := hx s hs
  cases hrun : x.run s with
  | ok a u =>
    rw [run_tryFinally_of_ok hrun]
    exact bind (hf a) (fun _ ↦ pure fun t ht ↦ ht) u (hok a u hrun)
  | error e u =>
    rw [run_tryFinally_of_error hrun]
    exact bind hraised (fun _ ↦ throw fun t ht ↦ ht) u (herror e u hrun)

theorem forM {ι : Type} {f : ι → Method σ Unit} {l : List ι} (hf : ∀ i ∈ l, Triple P (f i) (fun _ ↦ P) E) :
    Triple P (l.forM f) (fun _ ↦ P) E := by
  induction l with
  | nil => exact pure fun s hs ↦ hs
  | cons i l ih =>
    change Triple P (f i >>= fun _ ↦ l.forM f) _ _
    exact bind (hf i List.mem_cons_self) fun _ ↦ ih fun j hj ↦ hf j (List.mem_cons_of_mem i hj)

theorem within {τ : Type} {view : τ → σ} {put : τ → σ → τ} {x : Method σ α} {P : τ → Prop} {Q : α → τ → Prop}
    {E : τ → Prop} (h : ∀ s, P s → Triple (· = view s) x (fun a c ↦ Q a (put s c)) (fun c ↦ E (put s c))) :
    Triple P (x.within view put) Q E := by
  intro s hs
  obtain ⟨hok, herror⟩ := h s hs (view s) rfl
  cases hrun : x.run (view s) with
  | ok b c =>
    rw [run_within_of_ok hrun]
    refine ⟨fun a t ht ↦ ?_, fun e t ht ↦ ?_⟩
    · cases ht
      exact hok b c hrun
    · cases ht
  | error e c =>
    rw [run_within_of_error hrun]
    refine ⟨fun a t ht ↦ ?_, fun e' t ht ↦ ?_⟩
    · cases ht
    · cases ht
      exact herror e c hrun

end Triple

end SplitFleet.Lib.Method
