import Mathlib.Data.List.Forall2
import Readback.Proofs.Data.Interned
import Readback.Proofs.Program.Roll
import Readback.Proofs.Typing.Declaring

/-! # Parameters of functions

A function is declared without parameters and is given them later, all at once. They are checked against
its type then, and neither the parameters nor the type change afterwards. So in a constructed program
the parameters of a function are as many as its type says, or none, and have the types that it says up
to qualifiers. No parameter is `void`.

* `Fits` says that a declaration is a parameter of a type, up to qualifiers, and `Accepts` that a list
  of declarations can be the parameters of a function of a type. Both are about declarations that are
  there, so they last (`Accepts.mono`).
* `Program.Signed` is the invariant: parameters have types other than `void`, and functions have no
  parameters or those that their types ask for. A step that keeps parameters as they are
  (`KeepsParams`), and gives functions only what fits, keeps it (`Signed.step`).
* Only two calls have to do with it. Making a parameter refuses `void`, and giving a function its
  parameters checks them one by one: parameters without fault are as many as expected, and each fits
  (`fits_of_paramsFault?`, `setParams_keepsSigned`).

The result is `Constructed.signed`. Heads of functions are written from the parameters and not from the
type, so this is what makes a head say the type of the function. -/

namespace Readback

open Step

theorem DeclKind.eq_param_of_settled {k k' : DeclKind} {type : QualType} {index : Nat}
    (h : k.settled = k'.settled) (hk : k' = .param type index) : k = .param type index := by
  cases k <;> simp_all [DeclKind.settled]

theorem DeclKind.eq_function_of_settled {k k' : DeclKind} {type : QualType} {params : List DeclId}
    {body : Option StmtId} {locals : List DeclId} (h : k.settled = k'.settled)
    (hk : k' = .function type params body locals) :
    ∃ body' locals', k = .function type params body' locals' := by
  cases k <;> simp_all [DeclKind.settled]

namespace Program

/-- The type is known and is not `void`. -/
def Sized (p : Program) (t : QualType) : Prop :=
  ∃ node, p.types.get? t.ref = some node ∧ node ≠ .builtin .void

/-- The declaration is a parameter of the type, up to qualifiers. -/
def Fits (p : Program) (x : DeclId) (t : QualType) : Prop :=
  ∃ type index, (p.decl x).kind = .param type index ∧ type.ref = t.ref

/-- The declarations can be the parameters of a function of the type. -/
def Accepts (p : Program) (type : QualType) (params : List DeclId) : Prop :=
  ∃ result types isVariadic, p.types.get? type.ref = some (.function result types isVariadic) ∧
    List.Forall₂ p.Fits params types

/-- Parameters have types other than `void`, and functions have no parameters or those that their
types ask for. -/
structure Signed (p : Program) : Prop where
  sized : ∀ x type index, (p.decl x).kind = .param type index → p.Sized type
  accepted : ∀ f type params body locals, (p.decl f).kind = .function type params body locals →
    params ≠ [] → p.Accepts type params

/-- The step leaves parameters as they are. -/
def KeepsParams (p q : Program) : Prop :=
  ∀ x type index, (p.decl x).kind = .param type index → (q.decl x).kind = .param type index

variable {p q : Program}

theorem type?_of_param {x : DeclId} {type : QualType} {index : Nat}
    (hx : (p.decl x).kind = .param type index) : (p.decl x).type? = some type := by
  rw [Decl.type?, hx]

theorem Accepts.mono {type : QualType} {params : List DeclId} (h : p.Accepts type params)
    (types : p.types.Within q.types) (kept : p.KeepsParams q) : q.Accepts type params := by
  obtain ⟨result, expected, isVariadic, hget, hfits⟩ := h
  refine ⟨result, expected, isVariadic, types _ _ hget, hfits.imp ?_⟩
  rintro x t ⟨type, index, hx, href⟩
  exact ⟨type, index, kept x type index hx, href⟩

theorem Sized.of_not_isVoid {t : QualType} (h : p.isVoid t = false) : p.Sized t := by
  unfold isVoid builtin? Program.node TypeArena.node at h
  cases hget : p.types.get? t.ref with
  | none => simp [hget] at h
  | some node =>
      refine ⟨node, hget, ?_⟩
      rintro rfl
      simp [hget] at h

theorem get?_of_functionParts? {t result : QualType} {types : List QualType} {isVariadic : Bool}
    (h : p.functionParts? t = some (result, types, isVariadic)) :
    p.types.get? t.ref = some (.function result types isVariadic) := by
  unfold functionParts? Program.node TypeArena.node at h
  cases hget : p.types.get? t.ref with
  | none => simp [hget] at h
  | some node =>
      rw [hget] at h
      cases node <;> simp_all

/-- A step that keeps parameters, and gives functions only what fits. -/
theorem Signed.step (h : p.Signed) (types : p.types.Within q.types) (kept : p.KeepsParams q)
    (made : ∀ x type index, (q.decl x).kind = .param type index →
      (p.decl x).kind = .param type index ∨ p.isVoid type = false)
    (given : ∀ f type params body locals, (q.decl f).kind = .function type params body locals →
      params ≠ [] → p.Accepts type params) : q.Signed where
  sized x type index hx := by
    obtain ⟨node, hget, hne⟩ : p.Sized type := by
      obtain hold | hnew := made x type index hx
      · exact h.sized x type index hold
      · exact .of_not_isVoid hnew
    exact ⟨node, types _ _ hget, hne⟩
  accepted f type params body locals hf hne :=
    (given f type params body locals hf hne).mono types kept

/-- The step leaves parameters in order if they were. -/
def KeepsSigned (p q : Program) : Prop := p.Signed → q.Signed

theorem KeepsSigned.of_settled (types : p.types.Within q.types)
    (settled : ∀ x, (q.decl x).kind.settled = (p.decl x).kind.settled) : p.KeepsSigned q := by
  refine fun h => h.step types (fun x _ _ => DeclKind.eq_param_of_settled (settled x))
    (fun x _ _ hx => .inl (DeclKind.eq_param_of_settled (settled x).symm hx)) ?_
  intro f type params body locals hf hne
  obtain ⟨body', locals', hold⟩ := DeclKind.eq_function_of_settled (settled f).symm hf
  exact h.accepted f type params body' locals' hold hne

theorem KeepsSigned.pushDecl (p : Program) (name : String) (scope : Scope) {k : DeclKind}
    (bare : ∀ type params body locals, k = .function type params body locals → params = [])
    (sized : ∀ type index, k = .param type index → p.isVoid type = false) :
    p.KeepsSigned (p.pushDecl name scope k).2 := by
  intro h
  have hdecl := decl_pushDecl p name scope k
  refine h.step (.refl _) (fun x type index hx => ?_) (fun x type index hx => ?_)
    fun f type params body locals hf hne => ?_
  · have hlt : x < p.decls.size := lt_of_kind_ne (by rw [hx]; exact nofun)
    rw [decl_pushDecl_of_lt _ _ _ _ hlt, hx]
  · rw [hdecl] at hx
    by_cases hnew : x = p.decls.size
    · subst hnew
      rw [Function.update_self] at hx
      exact .inr (sized type index hx)
    · rw [Function.update_of_ne hnew] at hx
      exact .inl hx
  · rw [hdecl] at hf
    by_cases hnew : f = p.decls.size
    · subst hnew
      rw [Function.update_self] at hf
      exact absurd (bare type params body locals hf) hne
    · rw [Function.update_of_ne hnew] at hf
      exact h.accepted f type params body locals hf hne

/-- Giving a function parameters that fit. -/
theorem KeepsSigned.give {f : DeclId} {type : QualType} {params old : List DeclId}
    {body : Option StmtId} {locals : List DeclId}
    (hf : (p.decl f).kind = .function type old body locals) (accepts : p.Accepts type params) :
    p.KeepsSigned (p.setDeclKind f (.function type params body locals)) := by
  intro h
  have hkind : ∀ x, ((p.setDeclKind f (.function type params body locals)).decl x).kind =
      if f = x ∧ x < p.decls.size then .function type params body locals else (p.decl x).kind := by
    intro x
    rw [decl_setDeclKind]
    split <;> rfl
  have hparam : ∀ x t index,
      ((p.setDeclKind f (.function type params body locals)).decl x).kind = .param t index ↔
        (p.decl x).kind = .param t index := by
    intro x t index
    rw [hkind]
    split
    · next hx =>
        rw [← hx.1, hf]
        exact iff_of_false nofun nofun
    · exact Iff.rfl
  refine h.step (.refl _) (fun x t index => (hparam x t index).mpr)
    (fun x t index hx => .inl ((hparam x t index).mp hx)) ?_
  intro g t ps b ls hg hne
  rw [hkind] at hg
  split at hg
  · cases hg
    exact accepts
  · exact h.accepted g t ps b ls hg hne

instance : Declaring KeepsSigned where
  refl _ := id
  trans _ _ _ h h' := h' ∘ h
  intern p node := .of_settled (p.types.within_intern node) fun _ => rfl
  pushExpr _ _ _ _ := .of_settled (.refl _) fun _ => rfl
  pushStmt _ _ := .of_settled (.refl _) fun _ => rfl
  list _ _ := .of_settled (.refl _) fun _ => rfl
  complete _ _ _ settled := .of_settled (.refl _) (kind_setDeclKind settled)
  pushDecl p name scope _ bare sized _ := .pushDecl p name scope bare sized

end Program

namespace Check

open Program

theorem fits_of_paramFault? {p : Program} {index : Nat} {x : DeclId} {expected : QualType}
    (h : paramFault? p index x expected = none) : p.Fits x expected := by
  unfold paramFault? at h
  split at h
  · next type i hx =>
      split at h
      · next href => exact ⟨type, i, hx, href⟩
      · cases h
  · cases h

/-- Parameters without fault are as many as expected, and each fits. -/
theorem fits_of_paramsFault? {p : Program} {params : List DeclId} {expected : List QualType}
    (h : paramsFault? p params expected = none) : List.Forall₂ p.Fits params expected := by
  unfold paramsFault? at h
  split at h
  · cases h
  · next hlength =>
      rw [List.findSome?_eq_none_iff] at h
      refine List.forall₂_iff_zip.mpr ⟨(of_not_not hlength).symm, fun {x t} hmem => ?_⟩
      obtain ⟨i, hi⟩ := List.mem_iff_getElem?.mp hmem
      exact fits_of_paramFault? (h ((x, t), i) (List.mk_mem_zipIdx_iff_getElem?.mpr hi))

theorem setParams_keepsSigned (function : DeclId) (params : List DeclId) :
    Moves KeepsSigned (setParams function params) := by
  refine .get_bind fun p => ?_
  dsimp only
  split
  · next type old body locals hk =>
      split
      · next result expected isVariadic hparts =>
          split
          · exact id
          · next hfault =>
              exact .give hk ⟨result, expected, isVariadic, get?_of_functionParts? hparts,
                fits_of_paramsFault? hfault⟩
      · exact id
  · exact id

theorem fieldDecl_keepsSigned (record : DeclId) (name : String) (type : QualType) :
    Moves KeepsSigned (fieldDecl record name type) := by
  refine .bind .get fun p => ?_
  dsimp only
  split
  · refine .guard (.bind (.modifyGet fun p => .pushDecl p name _ ?_ ?_) fun field => ?_)
    · intro _ _ _ _ h
      cases h
    · intro _ _ h
      cases h
    · exact .bind (Declaring.addDecl (.record record) field) fun _ => .pure _
  · exact .throw _

instance : Constructing KeepsSigned := ⟨setParams_keepsSigned, fieldDecl_keepsSigned⟩

end Check

namespace Program

/-- What a function has for parameters fits its type. -/
theorem Constructed.signed {p : Program} (h : p.Constructed) : p.Signed := by
  induction h with
  | empty target =>
      refine ⟨fun x type index hx => ?_, fun f type params body locals hf hne => ?_⟩
      · exact absurd (lt_of_kind_ne (by rw [hx]; exact nofun)) (Nat.not_lt_zero x)
      · cases hf
        exact absurd rfl hne
  | step c _ _ ih => exact c.run_moves (R := KeepsSigned) _ ih

end Program

end Readback
