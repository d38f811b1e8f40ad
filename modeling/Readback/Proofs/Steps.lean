import Mathlib.Order.Defs.Unbundled

/-! # Steps on a state

Construction, lifting and building all run in `EStateM`: a step changes a state and gives a result or
fails, and what it did before a failure stays. There are four ways to reason about steps, and each of
them is kept by sequences, branches and loops:

* `Moves R m` says that every run of `m`, failed ones included, leads along the relation `R`. Where `R`
  is reflexive and transitive, the lemmas follow the code of a step without looking at results
  (`Moves.bind`, `Moves.mapM`, `Moves.forM`, `Moves.tryCatch`).
* `Ensures m s Q E` says that running `m` on `s` establishes `Q` of the result and the new state on
  success, and `E` of the new state on failure.
* `Leads R m s Q` says that running `m` on `s` leads along `R` in either case, and establishes `Q` on
  success. It is `Ensures` for a relation to the state before.
* `Outcome m s Q E` speaks of the failure itself too. It is needed where one has to know which failure
  comes, or that none does (`Outcome.ok`).

In each family, `bind` goes on from the states that the first step leaves, `get_bind` reads the state,
and `guard` is a failure under a condition, in the form in which `do` blocks write it.

`Step.after` is the state that a step leaves, whether it succeeds or fails. `Same view` relates states
that have the same view, for steps that leave a part of the state alone. -/

namespace Readback

namespace Step

variable {ε σ α β : Type}

/-- Reading the state and going on with it. -/
theorem get_bind (f : σ → EStateM ε σ β) (s : σ) : (get >>= f) s = f s s := rfl

/-- A successful run of two steps in a row. -/
theorem bind_eq_ok {m : EStateM ε σ α} {f : α → EStateM ε σ β} {s t : σ} {b : β} :
    (m >>= f) s = .ok b t ↔ ∃ a r, m s = .ok a r ∧ f a r = .ok b t := by
  show EStateM.bind m f s = _ ↔ _
  unfold EStateM.bind
  cases m s with
  | ok a r => exact ⟨fun h => ⟨a, r, rfl, h⟩, fun ⟨_, _, h, hf⟩ => by cases h; exact hf⟩
  | error e r => simp

/-- Running a second step after a first one that succeeded. -/
theorem bind_of_ok {m : EStateM ε σ α} {s t : σ} {a : α} (h : m s = .ok a t)
    (f : α → EStateM ε σ β) : (m >>= f) s = f a t := by
  show EStateM.bind m f s = _
  unfold EStateM.bind
  rw [h]

/-! ### All runs -/

/-- The state that a step leaves, whether it succeeds or fails. -/
def after (m : EStateM ε σ α) (s : σ) : σ :=
  match m s with
  | .ok _ t => t
  | .error _ t => t

/-- A run is known from its result and the state that it leaves. -/
theorem ok_of_run {m : EStateM ε σ α} {s : σ} {a : α} (h : m.run' s = some a) :
    m s = .ok a (after m s) := by
  unfold EStateM.run' EStateM.run at h
  unfold after
  cases hm : m s with
  | ok b t =>
      rw [hm] at h
      cases h
      rfl
  | error e t =>
      rw [hm] at h
      cases h

/-- Dropping the result of a step changes nothing else. -/
theorem after_discard (m : EStateM ε σ α) (s : σ) : after (discard m) s = after m s := by
  have h : discard m s = EStateM.map (Function.const α PUnit.unit) m s := rfl
  unfold after
  rw [h, EStateM.map]
  cases m s <;> rfl

/-- Every run of the step, also one that fails, leads along `R`. -/
def Moves (R : σ → σ → Prop) (m : EStateM ε σ α) : Prop := ∀ s, R s (after m s)

/-- The two states have the same view. -/
def Same (view : σ → β) (s t : σ) : Prop := view t = view s

instance (view : σ → β) : Std.Refl (Same view) := ⟨fun _ => rfl⟩

instance (view : σ → β) : IsTrans σ (Same view) := ⟨fun _ _ _ h₁ h₂ => Eq.trans h₂ h₁⟩

section Moves

variable {R : σ → σ → Prop}

theorem Moves.mono {R' : σ → σ → Prop} {m : EStateM ε σ α} (hm : Moves R m)
    (h : ∀ s t, R s t → R' s t) : Moves R' m := fun s => h _ _ (hm s)

theorem Moves.modifyGet {f : σ → α × σ} (h : ∀ s, R s (f s).2) :
    Moves R (modifyGet f : EStateM ε σ α) := h

theorem Moves.modify {f : σ → σ} (h : ∀ s, R s (f s)) :
    Moves R (modify f : EStateM ε σ PUnit) := h

theorem Moves.pure [Std.Refl R] (a : α) : Moves R (pure a : EStateM ε σ α) :=
  fun s => Std.Refl.refl s

theorem Moves.throw [Std.Refl R] (e : ε) : Moves R (throw e : EStateM ε σ α) :=
  fun s => Std.Refl.refl s

theorem Moves.get [Std.Refl R] : Moves R (get : EStateM ε σ σ) := fun s => Std.Refl.refl s

/-- Reading the state and going on with it. -/
theorem Moves.get_bind {f : σ → EStateM ε σ β} (h : ∀ s, R s (after (f s) s)) :
    Moves R (MonadState.get >>= f) := h

theorem Moves.bind [IsTrans σ R] {m : EStateM ε σ α} {f : α → EStateM ε σ β} (hm : Moves R m)
    (hf : ∀ a, Moves R (f a)) : Moves R (m >>= f) := by
  intro s
  have hs := hm s
  show R s (match EStateM.bind m f s with | .ok _ t => t | .error _ t => t)
  unfold EStateM.bind
  unfold after at hs
  cases h : m s with
  | ok a t =>
      rw [h] at hs
      exact IsTrans.trans _ _ _ hs (hf a t)
  | error e t =>
      rw [h] at hs
      exact hs

theorem Moves.map {m : EStateM ε σ α} (hm : Moves R m) (f : α → β) : Moves R (f <$> m) := by
  intro s
  have hs := hm s
  show R s (match EStateM.map f m s with | .ok _ t => t | .error _ t => t)
  unfold EStateM.map
  unfold after at hs
  cases h : m s <;> rw [h] at hs <;> exact hs

theorem Moves.mapM [Std.Refl R] [IsTrans σ R] {γ : Type} {f : γ → EStateM ε σ α} {l : List γ}
    (hf : ∀ a ∈ l, Moves R (f a)) : Moves R (l.mapM f) := by
  induction l with
  | nil => exact .pure []
  | cons a l ih =>
      rw [List.mapM_cons]
      refine .bind (hf a List.mem_cons_self) fun _ => .bind (ih fun b hb => ?_) fun _ => .pure _
      exact hf b (List.mem_cons_of_mem a hb)

theorem Moves.forM [Std.Refl R] [IsTrans σ R] {γ : Type} {f : γ → EStateM ε σ PUnit} {l : List γ}
    (hf : ∀ a ∈ l, Moves R (f a)) : Moves R (l.forM f) := by
  induction l with
  | nil => exact .pure _
  | cons a l ih =>
      refine .bind (hf a List.mem_cons_self) fun _ => ih fun b hb => ?_
      exact hf b (List.mem_cons_of_mem a hb)

theorem Moves.tryCatch [IsTrans σ R] {m : EStateM ε σ α} {handle : ε → EStateM ε σ α}
    (hm : Moves R m) (hh : ∀ e, Moves R (handle e)) : Moves R (tryCatch m handle) := by
  intro s
  have hs := hm s
  show R s (match EStateM.tryCatch m handle s with | .ok _ t => t | .error _ t => t)
  unfold EStateM.tryCatch
  unfold after at hs
  cases h : m s with
  | ok a t =>
      rw [h] at hs
      exact hs
  | error e t =>
      rw [h] at hs
      exact IsTrans.trans _ _ _ hs (hh e t)

theorem Moves.guard [Std.Refl R] {c : Prop} [Decidable c] {e : ε} {k : EStateM ε σ α}
    (hk : Moves R k) :
    Moves R (if c then do let _ ← (MonadExcept.throw e : EStateM ε σ PUnit); k else k) := by
  split
  · exact fun s => Std.Refl.refl s
  · exact hk

end Moves

/-- Running the step on `s` establishes `Q` if it succeeds and `E` if it fails. -/
def Ensures (m : EStateM ε σ α) (s : σ) (Q : α → σ → Prop) (E : σ → Prop) : Prop :=
  match m s with
  | .ok a t => Q a t
  | .error _ t => E t

section Ensures

variable {m : EStateM ε σ α} {s : σ} {E : σ → Prop}

theorem Ensures.bind {f : α → EStateM ε σ β} {P : α → σ → Prop} {Q : β → σ → Prop}
    (hm : Ensures m s P E) (hf : ∀ a t, P a t → Ensures (f a) t Q E) :
    Ensures (m >>= f) s Q E := by
  show match EStateM.bind m f s with | .ok a t => Q a t | .error _ t => E t
  unfold EStateM.bind
  unfold Ensures at hm
  cases h : m s with
  | ok a t =>
      rw [h] at hm
      exact hf a t hm
  | error e t =>
      rw [h] at hm
      exact hm

theorem Ensures.mono {P Q : α → σ → Prop} {F : σ → Prop} (hm : Ensures m s P E)
    (hQ : ∀ a t, P a t → Q a t) (hF : ∀ t, E t → F t) : Ensures m s Q F := by
  unfold Ensures at *
  cases hs : m s with
  | ok a t =>
      rw [hs] at hm
      exact hQ a t hm
  | error e t =>
      rw [hs] at hm
      exact hF t hm

theorem Ensures.imp {P Q : α → σ → Prop} (hm : Ensures m s P E) (h : ∀ a t, P a t → Q a t) :
    Ensures m s Q E := hm.mono h fun _ ht => ht

theorem Ensures.and {P Q : α → σ → Prop} (hP : Ensures m s P E) (hQ : Ensures m s Q E) :
    Ensures m s (fun a t => P a t ∧ Q a t) E := by
  unfold Ensures at *
  cases h : m s with
  | ok a t =>
      rw [h] at hP hQ
      exact ⟨hP, hQ⟩
  | error e t =>
      rw [h] at hP
      exact hP

theorem Ensures.map {f : α → β} {Q : β → σ → Prop} (hm : Ensures m s (fun a t => Q (f a) t) E) :
    Ensures (f <$> m) s Q E := by
  show match EStateM.map f m s with | .ok a t => Q a t | .error _ t => E t
  unfold EStateM.map
  unfold Ensures at hm
  cases h : m s <;> rw [h] at hm <;> exact hm

theorem Ensures.pure {Q : α → σ → Prop} {a : α} (h : Q a s) :
    Ensures (pure a : EStateM ε σ α) s Q E := h

theorem Ensures.throw {Q : α → σ → Prop} (e : ε) (h : E s) :
    Ensures (throw e : EStateM ε σ α) s Q E := h

theorem Ensures.guard {Q : α → σ → Prop} {c : Prop} [Decidable c] {e : ε} {k : EStateM ε σ α}
    (hE : E s) (hk : ¬ c → Ensures k s Q E) :
    Ensures (if c then do let _ ← (MonadExcept.throw e : EStateM ε σ PUnit); k else k) s Q E := by
  split
  · exact hE
  · next h => exact hk h

theorem Ensures.get_bind {f : σ → EStateM ε σ β} {Q : β → σ → Prop} (h : Ensures (f s) s Q E) :
    Ensures (get >>= f) s Q E := h

/-- A step that leads along `R` establishes whatever holds of all states reached along `R`. -/
theorem Moves.ensures {R : σ → σ → Prop} (hm : Moves R m) {Q : α → σ → Prop}
    (hQ : ∀ a t, R s t → Q a t) (hE : ∀ t, R s t → E t) : Ensures m s Q E := by
  have hs := hm s
  unfold after at hs
  unfold Ensures
  cases h : m s with
  | ok a t =>
      rw [h] at hs
      exact hQ a t hs
  | error e t =>
      rw [h] at hs
      exact hE t hs

/-- What holds on success and on failure holds of the state that is left. -/
theorem Ensures.after (h : Ensures m s (fun _ => E) E) : E (after m s) := by
  unfold Ensures at h
  unfold Step.after
  cases hm : m s <;> rw [hm] at h <;> exact h

end Ensures

/-- Running the step on `s` leads along `R`, and establishes `Q` if it succeeds. -/
def Leads (R : σ → σ → Prop) (m : EStateM ε σ α) (s : σ) (Q : α → σ → Prop) : Prop :=
  Ensures m s (fun a t => R s t ∧ Q a t) (R s)

section Leads

variable {R : σ → σ → Prop} {m : EStateM ε σ α} {s : σ} {P Q : α → σ → Prop}

theorem Leads.bind [IsTrans σ R] {f : α → EStateM ε σ β} {Q : β → σ → Prop} (hm : Leads R m s P)
    (hf : ∀ a t, R s t → P a t → Leads R (f a) t Q) : Leads R (m >>= f) s Q := by
  refine Ensures.bind hm fun a t ⟨ht, ha⟩ => ?_
  exact (hf a t ht ha).mono (fun b u ⟨hu, hb⟩ => ⟨IsTrans.trans _ _ _ ht hu, hb⟩)
    fun u hu => IsTrans.trans _ _ _ ht hu

theorem Leads.imp (hm : Leads R m s P) (h : ∀ a t, R s t → P a t → Q a t) : Leads R m s Q :=
  Ensures.imp hm fun a t ⟨ht, ha⟩ => ⟨ht, h a t ht ha⟩

theorem Leads.map {f : α → β} {Q : β → σ → Prop} (hm : Leads R m s fun a t => Q (f a) t) :
    Leads R (f <$> m) s Q := Ensures.map hm

theorem Leads.pure [Std.Refl R] {a : α} (h : Q a s) : Leads R (pure a : EStateM ε σ α) s Q :=
  ⟨Std.Refl.refl s, h⟩

theorem Leads.throw [Std.Refl R] (e : ε) : Leads R (throw e : EStateM ε σ α) s Q :=
  Std.Refl.refl (r := R) s

theorem Leads.guard [Std.Refl R] {c : Prop} [Decidable c] {e : ε} {k : EStateM ε σ α}
    (hk : ¬ c → Leads R k s Q) :
    Leads R (if c then do let _ ← (MonadExcept.throw e : EStateM ε σ PUnit); k else k) s Q :=
  Ensures.guard (Std.Refl.refl (r := R) s) hk

theorem Leads.get_bind {f : σ → EStateM ε σ β} {Q : β → σ → Prop} (h : Leads R (f s) s Q) :
    Leads R (get >>= f) s Q := h

theorem Leads.after (hm : Leads R m s Q) : R s (after m s) :=
  Ensures.after (Ensures.imp hm fun _ _ h => h.1)

end Leads

/-- Running the step on `s` establishes `Q` if it succeeds, and `E` of the failure if it fails. -/
def Outcome (m : EStateM ε σ α) (s : σ) (Q : α → σ → Prop) (E : ε → σ → Prop) : Prop :=
  match m s with
  | .ok a t => Q a t
  | .error e t => E e t

section Outcome

variable {m : EStateM ε σ α} {s : σ} {P Q : α → σ → Prop} {E F : ε → σ → Prop}

theorem Outcome.bind {f : α → EStateM ε σ β} {Q : β → σ → Prop} (hm : Outcome m s P E)
    (hf : ∀ a t, P a t → Outcome (f a) t Q E) : Outcome (m >>= f) s Q E := by
  show match EStateM.bind m f s with | .ok a t => Q a t | .error e t => E e t
  unfold EStateM.bind
  unfold Outcome at hm
  cases h : m s with
  | ok a t =>
      rw [h] at hm
      exact hf a t hm
  | error e t =>
      rw [h] at hm
      exact hm

theorem Outcome.mono (hm : Outcome m s P E) (hQ : ∀ a t, P a t → Q a t)
    (hF : ∀ e t, E e t → F e t) : Outcome m s Q F := by
  unfold Outcome at *
  cases h : m s with
  | ok a t =>
      rw [h] at hm
      exact hQ a t hm
  | error e t =>
      rw [h] at hm
      exact hF e t hm

theorem Outcome.get_bind {f : σ → EStateM ε σ β} {Q : β → σ → Prop} (h : Outcome (f s) s Q E) :
    Outcome (get >>= f) s Q E := h

theorem Outcome.map {f : α → β} {Q : β → σ → Prop} (hm : Outcome m s (fun a t => Q (f a) t) E) :
    Outcome (f <$> m) s Q E := by
  show match EStateM.map f m s with | .ok a t => Q a t | .error e t => E e t
  unfold EStateM.map
  unfold Outcome at hm
  cases h : m s <;> rw [h] at hm <;> exact hm

/-- A step that cannot fail gives something. -/
theorem Outcome.ok (h : Outcome m s P fun _ _ => False) : ∃ a t, m s = .ok a t ∧ P a t := by
  unfold Outcome at h
  cases hm : m s with
  | ok a t =>
      rw [hm] at h
      exact ⟨a, t, rfl, h⟩
  | error e t =>
      rw [hm] at h
      exact h.elim

end Outcome

end Step

end Readback
