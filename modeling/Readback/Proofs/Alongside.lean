import Mathlib.Data.List.Forall2
import Readback.Proofs.Steps

/-! # Two runs side by side

`Together m m' s s' Q E` says that `m` on `s` and `m'` on `s'` end alike: both succeed, and `Q` relates
what they give and leave, or both fail, and `E` relates the failures. The two may be steps over
different states with different errors, as for a lift and the lift of another graph.

Each way of putting steps together has its lemma: `Together.pure`, `Together.throw` and
`Together.modify` for single steps, `Together.bind`, `Together.map` and `Together.guard` for the rest.
Where only one side has a step, the other waits (`Together.get_bind_right`, `Together.bind_right`).
What is known of one run by itself is added with `Together.and_outcome`. -/

namespace Readback

namespace Step

variable {ε ε' σ σ' α α' β β' : Type}

/-- Both steps succeed and establish `Q`, or both fail and establish `E` of the failures. -/
def Together (m : EStateM ε σ α) (m' : EStateM ε' σ' α') (s : σ) (s' : σ')
    (Q : α → α' → σ → σ' → Prop) (E : ε → ε' → Prop) : Prop :=
  match m s, m' s' with
  | .ok a t, .ok a' t' => Q a a' t t'
  | .error e _, .error e' _ => E e e'
  | _, _ => False

namespace Together

variable {m : EStateM ε σ α} {m' : EStateM ε' σ' α'} {s : σ} {s' : σ'}
  {P Q : α → α' → σ → σ' → Prop} {E : ε → ε' → Prop}

theorem pure {a : α} {a' : α'} (h : Q a a' s s') :
    Together (pure a : EStateM ε σ α) (Pure.pure a' : EStateM ε' σ' α') s s' Q E := h

theorem throw {e : ε} {e' : ε'} (h : E e e') :
    Together (throw e : EStateM ε σ α) (MonadExcept.throw e' : EStateM ε' σ' α') s s' Q E := h

theorem modify {f : σ → σ} {f' : σ' → σ'} {Q : PUnit → PUnit → σ → σ' → Prop}
    (h : Q ⟨⟩ ⟨⟩ (f s) (f' s')) :
    Together (modify f : EStateM ε σ PUnit) (MonadState.modifyGet fun s => (⟨⟩, f' s)) s s' Q E := h

theorem get_bind {f : σ → EStateM ε σ α} {f' : σ' → EStateM ε' σ' α'}
    (h : Together (f s) (f' s') s s' Q E) : Together (get >>= f) (get >>= f') s s' Q E := h

theorem bind {f : α → EStateM ε σ β} {f' : α' → EStateM ε' σ' β'}
    {R : β → β' → σ → σ' → Prop} (hm : Together m m' s s' P E)
    (hf : ∀ a a' t t', P a a' t t' → Together (f a) (f' a') t t' R E) :
    Together (m >>= f) (m' >>= f') s s' R E := by
  show match EStateM.bind m f s, EStateM.bind m' f' s' with
    | .ok a t, .ok a' t' => R a a' t t'
    | .error e _, .error e' _ => E e e'
    | _, _ => False
  unfold EStateM.bind
  unfold Together at hm
  cases hs : m s <;> cases hs' : m' s' <;> rw [hs, hs'] at hm
  · exact hf _ _ _ _ hm
  · exact hm.elim
  · exact hm.elim
  · exact hm

theorem map {f : α → β} {f' : α' → β'} {R : β → β' → σ → σ' → Prop}
    (hm : Together m m' s s' (fun a a' => R (f a) (f' a')) E) :
    Together (f <$> m) (f' <$> m') s s' R E := by
  show match EStateM.map f m s, EStateM.map f' m' s' with
    | .ok a t, .ok a' t' => R a a' t t'
    | .error e _, .error e' _ => E e e'
    | _, _ => False
  unfold EStateM.map
  unfold Together at hm
  cases hs : m s <;> cases hs' : m' s' <;> rw [hs, hs'] at hm <;> exact hm

theorem mono {F : ε → ε' → Prop} (hm : Together m m' s s' P E)
    (hQ : ∀ a a' t t', P a a' t t' → Q a a' t t') (hF : ∀ e e', E e e' → F e e') :
    Together m m' s s' Q F := by
  unfold Together at *
  cases hs : m s <;> cases hs' : m' s' <;> rw [hs, hs'] at hm
  · exact hQ _ _ _ _ hm
  · exact hm
  · exact hm
  · exact hF _ _ hm

theorem imp (hm : Together m m' s s' P E) (hQ : ∀ a a' t t', P a a' t t' → Q a a' t t') :
    Together m m' s s' Q E := hm.mono hQ fun _ _ h => h

/-- Steps that do the same from where they start. -/
theorem of_eq {l : EStateM ε σ α} {l' : EStateM ε' σ' α'} (h : m s = l s) (h' : m' s' = l' s')
    (hl : Together l l' s s' Q E) : Together m m' s s' Q E := by
  unfold Together
  rw [h, h']
  exact hl

theorem get_bind_right {f' : σ' → EStateM ε' σ' α'} (h : Together m (f' s') s s' Q E) :
    Together m (get >>= f') s s' Q E := h

/-- The second step goes on alone. -/
theorem bind_right {f' : α' → EStateM ε' σ' β'} {R : α → β' → σ → σ' → Prop}
    (hm : Together m m' s s' P E)
    (hf : ∀ a a' t t', P a a' t t' → Together (Pure.pure a : EStateM ε σ α) (f' a') t t' R E) :
    Together m (m' >>= f') s s' R E := by
  rw [← bind_pure m]
  exact hm.bind hf

/-- What is known of the first step by itself. -/
theorem and_outcome {P : α → σ → Prop} {F : ε → σ → Prop} (hm : Together m m' s s' Q E)
    (h : Outcome m s P F) : Together m m' s s' (fun a a' t t' => Q a a' t t' ∧ P a t) E := by
  unfold Together at *
  unfold Outcome at h
  cases hs : m s <;> cases hs' : m' s' <;> rw [hs, hs'] at hm <;> rw [hs] at h
  · exact ⟨hm, h⟩
  · exact hm
  · exact hm
  · exact hm

/-- What the first step leads to, as that. -/
theorem and_left (hm : Together m m' s s' Q E) :
    Together m m' s s' (fun a a' t t' => Q a a' t t' ∧ m s = .ok a t) E := by
  refine hm.and_outcome (F := fun _ _ => True) ?_
  unfold Outcome
  cases m s with
  | ok a t => rfl
  | error e t => trivial

/-- If the first step succeeds, so does the second. -/
theorem of_ok {a : α} {t : σ} (hm : Together m m' s s' Q E) (h : m s = .ok a t) :
    ∃ a' t', m' s' = .ok a' t' ∧ Q a a' t t' := by
  unfold Together at hm
  cases h' : m' s' with
  | ok a' t' =>
      rw [h, h'] at hm
      exact ⟨a', t', rfl, hm⟩
  | error e' t' =>
      rw [h, h'] at hm
      exact hm.elim

/-- If the second step succeeds, so does the first. -/
theorem of_ok_right {a' : α'} {t' : σ'} (hm : Together m m' s s' Q E) (h : m' s' = .ok a' t') :
    ∃ a t, m s = .ok a t ∧ Q a a' t t' := by
  unfold Together at hm
  cases h' : m s with
  | ok a t =>
      rw [h, h'] at hm
      exact ⟨a, t, rfl, hm⟩
  | error e t =>
      rw [h, h'] at hm
      exact hm.elim

/-- What is known of each step by itself. -/
theorem of_outcomes {P : α → σ → Prop} {P' : α' → σ' → Prop} {F : ε → σ → Prop}
    {F' : ε' → σ' → Prop} (hm : Outcome m s P F) (hm' : Outcome m' s' P' F')
    (ok : ∀ a a' t t', P a t → P' a' t' → Q a a' t t')
    (error : ∀ e e' t t', F e t → F' e' t' → E e e')
    (apart : ∀ a e t t', P a t → ¬ F' e t') (apart' : ∀ a e t t', P' a t' → ¬ F e t) :
    Together m m' s s' Q E := by
  unfold Outcome at hm hm'
  unfold Together
  cases hs : m s <;> cases hs' : m' s' <;> rw [hs] at hm <;> rw [hs'] at hm'
  · exact ok _ _ _ _ hm hm'
  · exact apart _ _ _ _ hm hm'
  · exact apart' _ _ _ _ hm' hm
  · exact error _ _ _ _ hm hm'

theorem ite {c c' : Prop} [Decidable c] [Decidable c'] {a b : EStateM ε σ α}
    {a' b' : EStateM ε' σ' α'} (hc : c' ↔ c) (ha : c → Together a a' s s' Q E)
    (hb : ¬ c → Together b b' s s' Q E) :
    Together (if c then a else b) (if c' then a' else b') s s' Q E := by
  by_cases h : c
  · rw [if_pos h, if_pos (hc.mpr h)]
    exact ha h
  · rw [if_neg h, if_neg (mt hc.mp h)]
    exact hb h

theorem guard {c c' : Prop} [Decidable c] [Decidable c'] {e : ε} {e' : ε'} {k : EStateM ε σ α}
    {k' : EStateM ε' σ' α'} (hc : c' ↔ c) (he : E e e') (hk : ¬ c → Together k k' s s' Q E) :
    Together (if c then do let _ ← (MonadExcept.throw e : EStateM ε σ PUnit); k else k)
      (if c' then do let _ ← (MonadExcept.throw e' : EStateM ε' σ' PUnit); k' else k') s s' Q E :=
  .ite hc (fun _ => he) hk

end Together

end Step

end Readback
