import Mathlib.Logic.Function.Basic
import Readback.Proofs.Typing.Growth

/-! # The roll of a program

The `Roll` of a program says which declarations there are, where each one stands, what it is, and which
declarations are listed in which place. It leaves out bodies and initial values, so that only the making
and listing of declarations changes it.

* `Roll.push` makes a declaration, `Roll.list` lists one in a scope, and `Roll.setParams` gives a
  function its parameters. `Program.roll` is the roll of a program, and each step of construction does
  one of these to it or nothing (`Check.functionDecl_enters`, `Check.param_enters`,
  `Check.addDecl_lists`, `Check.setParams_enters`, `Check.setBody_moves`).
* A roll is `Enrolled` if every declaration is listed once in the place where it stands and nowhere
  else, and parameters and fields stand at their indices. Construction does not see to that: it holds as
  long as every declaration is listed where it was made (`Roll.Enrolled.declare`) and a function gets
  the parameters that were made for it (`Roll.Enrolled.parametrize`).
* `Keeps n R R'` says that the first `n` declarations stay as they are, with their parameters and
  fields, and that what is listed stays listed. What making further declarations, parameters and fields
  leaves alone is stated with it (`keeps_declare`, `keeps_pushParams`, `keeps_pushFields`). -/

namespace Readback

open Step Function

/-! ### Rolls -/

/-- What a declaration is; a parameter or a field has an index. -/
inductive Role where
  | function
  | param (index : Nat)
  | var
  | record
  | field (index : Nat)
deriving DecidableEq

/-- Whether the declaration is a parameter. -/
def Role.isParam : Role → Bool
  | .param _ => true
  | _ => false

namespace DeclKind

/-- What is declared. -/
def role : DeclKind → Role
  | .function _ _ _ _ => .function
  | .param _ index => .param index
  | .var _ _ _ => .var
  | .record _ => .record
  | .field _ index => .field index

/-- The parameters of a function. -/
def params : DeclKind → List DeclId
  | .function _ params _ _ => params
  | _ => []

/-- The declarations inside a function. -/
def locals : DeclKind → List DeclId
  | .function _ _ _ locals => locals
  | _ => []

/-- The fields of a record. -/
def fields : DeclKind → List DeclId
  | .record fields => fields
  | _ => []

end DeclKind

/-- Which declarations there are, where they stand, what they are, the parameters of functions, and
what is listed in each scope. -/
@[ext]
structure Roll where
  size : Nat
  place : DeclId → Scope
  role : DeclId → Role
  params : DeclId → List DeclId
  listed : Scope → List DeclId

namespace Roll

/-- The scope is there. -/
def Has (R : Roll) : Scope → Prop
  | .file => True
  | .function f => f < R.size
  | .record r => r < R.size

/-- One more declaration, which is not listed yet. -/
def push (R : Roll) (scope : Scope) (role : Role) : Roll :=
  { R with
    size := R.size + 1
    place := update R.place R.size scope
    role := update R.role R.size role }

/-- The declaration is listed in the scope, after those that are there. -/
def list (R : Roll) (scope : Scope) (d : DeclId) : Roll :=
  { R with listed := update R.listed scope (R.listed scope ++ [d]) }

/-- The function has the parameters. -/
def setParams (R : Roll) (f : DeclId) (params : List DeclId) : Roll :=
  { R with params := update R.params f params }

/-- One more declaration, which is listed where it stands. -/
def declare (R : Roll) (scope : Scope) (role : Role) : Roll := (R.push scope role).list scope R.size

/-- As many parameters of the function as the second number says, from an index on. -/
def pushParams (R : Roll) (f : DeclId) : Nat → Nat → Roll
  | _, 0 => R
  | index, n + 1 => (R.push (.function f) (.param index)).pushParams f (index + 1) n

/-- As many fields of the record as the second number says, from an index on. -/
def pushFields (R : Roll) (r : DeclId) : Nat → Nat → Roll
  | _, 0 => R
  | index, n + 1 => (R.declare (.record r) (.field index)).pushFields r (index + 1) n

@[simp] theorem listed_list (R : Roll) (scope : Scope) (d : DeclId) :
    (R.list scope d).listed scope = R.listed scope ++ [d] := update_self ..

theorem listed_list_of_ne {R : Roll} {scope scope' : Scope} {d : DeclId} (h : scope' ≠ scope) :
    (R.list scope d).listed scope' = R.listed scope' := update_of_ne h ..

theorem Has.mono {R R' : Roll} {scope : Scope} (h : R.Has scope) (hsize : R.size ≤ R'.size) :
    R'.Has scope := by
  cases scope with
  | file => trivial
  | function f => exact Nat.lt_of_lt_of_le h hsize
  | record r => exact Nat.lt_of_lt_of_le h hsize

/-! ### Everything is listed where it stands -/

/-- Every declaration is listed once where it stands and nowhere else, parameters of functions apart
from their other declarations, and parameters and fields have the indices at which they stand. -/
structure Enrolled (R : Roll) : Prop where
  place : ∀ d < R.size, R.Has (R.place d)
  owner : ∀ d < R.size, (R.role d).isParam = true → ∃ f, R.place d = .function f
  listed : ∀ scope d, d ∈ R.listed scope ↔
    d < R.size ∧ R.place d = scope ∧ (R.role d).isParam = false
  nodup : ∀ scope, (R.listed scope).Nodup
  params : ∀ f d, d ∈ R.params f ↔
    d < R.size ∧ R.place d = .function f ∧ (R.role d).isParam = true
  param : ∀ f i d, (R.params f)[i]? = some d → R.role d = .param i
  field : ∀ r i d, (R.listed (.record r))[i]? = some d → R.role d = .field i

section Enrolled

variable {R : Roll} {scope : Scope} {role : Role} {d : DeclId}

theorem lt_succ_iff_of_ne {n : Nat} (h : d ≠ n) : d < n + 1 ↔ d < n :=
  Nat.lt_succ_iff_lt_or_eq.trans (or_iff_left h)

theorem of_getElem?_concat {l : List DeclId} {a : DeclId} {i : Nat} (h : (l ++ [a])[i]? = some d) :
    l[i]? = some d ∨ d = a ∧ i = l.length := by
  obtain hi | hi := Nat.lt_or_ge i l.length
  · exact .inl (List.getElem?_append_left hi ▸ h)
  · rw [List.getElem?_append_right hi, List.getElem?_singleton] at h
    split at h
    · exact .inr ⟨(Option.some.inj h).symm, by omega⟩
    · cases h

theorem Enrolled.lt_of_listed (h : R.Enrolled) (hd : d ∈ R.listed scope) : d < R.size :=
  ((h.listed scope d).mp hd).1

theorem Enrolled.lt_of_params (h : R.Enrolled) {f : DeclId} (hd : d ∈ R.params f) : d < R.size :=
  ((h.params f d).mp hd).1

/-- Nothing is listed in a declaration that is not there. -/
theorem Enrolled.listed_eq_nil (h : R.Enrolled) (hscope : ¬ R.Has scope) : R.listed scope = [] := by
  refine List.eq_nil_iff_forall_not_mem.mpr fun d hd => hscope ?_
  obtain ⟨hlt, rfl, -⟩ := (h.listed scope d).mp hd
  exact h.place d hlt

theorem Enrolled.params_eq_nil (h : R.Enrolled) {f : DeclId} (hf : ¬ f < R.size) :
    R.params f = [] := by
  refine List.eq_nil_iff_forall_not_mem.mpr fun d hd => hf ?_
  obtain ⟨hlt, hplace, -⟩ := (h.params f d).mp hd
  have hhas := h.place d hlt
  rw [hplace] at hhas
  exact hhas

/-- A declaration that is listed where it is made. A field gets the next index of its record. -/
theorem Enrolled.declare (h : R.Enrolled) (hscope : R.Has scope) (hrole : role.isParam = false)
    (hfield : ∀ r, scope = .record r → role = .field (R.listed scope).length) :
    (R.declare scope role).Enrolled := by
  have hnew : ∀ {scope'}, R.size ∉ R.listed scope' := fun hmem =>
    Nat.lt_irrefl _ (h.lt_of_listed hmem)
  refine ⟨fun d hd => ?_, fun d hd => ?_, fun scope' d => ?_, fun scope' => ?_, fun f d => ?_,
    fun f i d hd => ?_, fun r i d hd => ?_⟩
  all_goals simp only [Roll.declare, push, list] at *
  · by_cases heq : d = R.size
    · rw [heq, update_self]
      exact hscope.mono (Nat.le_succ _)
    · rw [update_of_ne heq]
      exact (h.place d ((lt_succ_iff_of_ne heq).mp hd)).mono (Nat.le_succ _)
  · by_cases heq : d = R.size
    · rw [heq, update_self, hrole]
      nofun
    · rw [update_of_ne heq, update_of_ne heq]
      exact h.owner d ((lt_succ_iff_of_ne heq).mp hd)
  · by_cases heq : d = R.size
    · subst heq
      by_cases hs : scope' = scope
      · subst hs
        simp [hrole]
      · simp [update_of_ne hs, hnew, Ne.symm hs]
    · have hmem : d ∈ update R.listed scope (R.listed scope ++ [R.size]) scope' ↔
          d ∈ R.listed scope' := by
        by_cases hs : scope' = scope
        · subst hs
          simp [heq]
        · rw [update_of_ne hs]
      rw [hmem, update_of_ne heq, update_of_ne heq, lt_succ_iff_of_ne heq]
      exact h.listed scope' d
  · by_cases hs : scope' = scope
    · subst hs
      rw [update_self]
      refine List.nodup_append.mpr ⟨h.nodup scope', List.pairwise_singleton _ _, ?_⟩
      rintro a ha b hb rfl
      exact hnew (List.mem_singleton.mp hb ▸ ha)
    · rw [update_of_ne hs]
      exact h.nodup scope'
  · by_cases heq : d = R.size
    · subst heq
      have hold : R.size ∉ R.params f := fun hmem => Nat.lt_irrefl _ (h.lt_of_params hmem)
      simp [hold, hrole]
    · rw [update_of_ne heq, update_of_ne heq, lt_succ_iff_of_ne heq]
      exact h.params f d
  · rw [update_of_ne (Nat.ne_of_lt (h.lt_of_params (List.mem_of_getElem? hd)))]
    exact h.param f i d hd
  · have hold : (R.listed (.record r))[i]? = some d → update R.role R.size role d = .field i := by
      intro hd
      rw [update_of_ne (Nat.ne_of_lt (h.lt_of_listed (List.mem_of_getElem? hd)))]
      exact h.field r i d hd
    by_cases hs : Scope.record r = scope
    · subst hs
      rw [update_self] at hd
      obtain hd | ⟨rfl, rfl⟩ := of_getElem?_concat hd
      · exact hold hd
      · rw [update_self]
        exact hfield r rfl
    · rw [update_of_ne hs] at hd
      exact hold hd

/-- One more parameter of a function. -/
theorem Enrolled.param_snoc {f : DeclId} {params : List DeclId} (h : (R.setParams f params).Enrolled)
    (hf : f < R.size) : ((R.push (.function f) (.param params.length)).setParams f
      (params ++ [R.size])).Enrolled := by
  have hlt : ∀ {d f'}, d ∈ update R.params f params f' → d < R.size := fun hd => h.lt_of_params hd
  refine ⟨fun d hd => ?_, fun d hd => ?_, fun scope d => ?_, h.nodup, fun f' d => ?_,
    fun f' i d hd => ?_, fun r i d hd => ?_⟩
  all_goals simp only [push, setParams] at *
  · by_cases heq : d = R.size
    · rw [heq, update_self]
      exact Nat.lt_succ_of_lt hf
    · rw [update_of_ne heq]
      exact (h.place d ((lt_succ_iff_of_ne heq).mp hd)).mono (Nat.le_succ _)
  · by_cases heq : d = R.size
    · exact fun _ => ⟨f, by rw [heq, update_self]⟩
    · rw [update_of_ne heq, update_of_ne heq]
      exact h.owner d ((lt_succ_iff_of_ne heq).mp hd)
  · by_cases heq : d = R.size
    · subst heq
      have hold : R.size ∉ R.listed scope := fun hmem => Nat.lt_irrefl _ (h.lt_of_listed hmem)
      simp [hold, Role.isParam]
    · rw [update_of_ne heq, update_of_ne heq, lt_succ_iff_of_ne heq]
      exact h.listed scope d
  · by_cases heq : d = R.size
    · subst heq
      by_cases hf' : f' = f
      · subst hf'
        simp [Role.isParam]
      · have hold : R.size ∉ R.params f' := fun hmem =>
          Nat.lt_irrefl R.size (hlt (by rwa [update_of_ne hf']))
        simp [update_of_ne hf', hold, Ne.symm hf']
    · have hmem : d ∈ update R.params f (params ++ [R.size]) f' ↔
          d ∈ update R.params f params f' := by
        by_cases hf' : f' = f
        · subst hf'
          simp [heq]
        · rw [update_of_ne hf', update_of_ne hf']
      rw [hmem, update_of_ne heq, update_of_ne heq, lt_succ_iff_of_ne heq]
      exact h.params f' d
  · have hold : (update R.params f params f')[i]? = some d →
        update R.role R.size (.param params.length) d = .param i := by
      intro hd
      rw [update_of_ne (Nat.ne_of_lt (hlt (List.mem_of_getElem? hd)))]
      exact h.param f' i d hd
    by_cases hf' : f' = f
    · subst hf'
      rw [update_self] at hd hold
      obtain hd | ⟨rfl, rfl⟩ := of_getElem?_concat hd
      · exact hold hd
      · rw [update_self]
    · rw [update_of_ne hf'] at hd hold
      exact hold hd
  · rw [update_of_ne (Nat.ne_of_lt (h.lt_of_listed (List.mem_of_getElem? hd)))]
    exact h.field r i d hd

/-- A function that gets the parameters that were made for it. -/
theorem Enrolled.parametrize {f : DeclId} {params : List DeclId}
    (h : (R.setParams f params).Enrolled) (hf : f < R.size) (n : Nat) :
    ((R.pushParams f params.length n).setParams f
      (params ++ List.range' R.size n)).Enrolled := by
  induction n generalizing R params with
  | zero =>
      rw [List.range'_zero, List.append_nil]
      exact h
  | succ n ih =>
      have hnext := ih (h.param_snoc hf) (Nat.lt_succ_of_lt hf)
      rw [List.length_append, List.length_singleton, List.append_assoc] at hnext
      exact hnext

/-- A record that gets its fields. -/
theorem Enrolled.pushFields (h : R.Enrolled) {r : DeclId} (hr : r < R.size) (n : Nat) :
    (R.pushFields r (R.listed (.record r)).length n).Enrolled := by
  induction n generalizing R with
  | zero => exact h
  | succ n ih =>
      have hdeclared : (R.declare (.record r) (.field (R.listed (.record r)).length)).Enrolled :=
        h.declare hr rfl fun _ _ => rfl
      have hnext := ih hdeclared (Nat.lt_succ_of_lt hr)
      have hlength : ((R.declare (.record r) (.field (R.listed (.record r)).length)).listed
          (.record r)).length = (R.listed (.record r)).length + 1 := by
        simp [Roll.declare, push, list]
      rw [hlength] at hnext
      exact hnext

end Enrolled

/-! ### What stays -/

/-- The first `n` declarations stay as they are, with their parameters and fields, and what is listed
stays listed. -/
structure Keeps (n : Nat) (R R' : Roll) : Prop where
  size : R.size ≤ R'.size
  place : ∀ d < n, R'.place d = R.place d
  role : ∀ d < n, R'.role d = R.role d
  params : ∀ d < n, R'.params d = R.params d
  fields : ∀ d < n, R'.listed (.record d) = R.listed (.record d)
  listed : ∀ scope, R.listed scope <+: R'.listed scope

section Keeps

variable {n : Nat} {R R' R'' : Roll}

theorem Keeps.refl (n : Nat) (R : Roll) : Keeps n R R :=
  ⟨Nat.le_refl _, fun _ _ => rfl, fun _ _ => rfl, fun _ _ => rfl, fun _ _ => rfl,
    fun _ => List.prefix_refl _⟩

theorem Keeps.trans (h : Keeps n R R') (h' : Keeps n R' R'') : Keeps n R R'' where
  size := Nat.le_trans h.size h'.size
  place d hd := (h'.place d hd).trans (h.place d hd)
  role d hd := (h'.role d hd).trans (h.role d hd)
  params d hd := (h'.params d hd).trans (h.params d hd)
  fields d hd := (h'.fields d hd).trans (h.fields d hd)
  listed scope := (h.listed scope).trans (h'.listed scope)

theorem Keeps.mono {m : Nat} (h : Keeps n R R') (hm : m ≤ n) : Keeps m R R' where
  size := h.size
  place d hd := h.place d (Nat.lt_of_lt_of_le hd hm)
  role d hd := h.role d (Nat.lt_of_lt_of_le hd hm)
  params d hd := h.params d (Nat.lt_of_lt_of_le hd hm)
  fields d hd := h.fields d (Nat.lt_of_lt_of_le hd hm)
  listed := h.listed

theorem keeps_push (hn : n ≤ R.size) (scope : Scope) (role : Role) : Keeps n R (R.push scope role) where
  size := Nat.le_succ _
  place _ hd := update_of_ne (Nat.ne_of_lt (Nat.lt_of_lt_of_le hd hn)) ..
  role _ hd := update_of_ne (Nat.ne_of_lt (Nat.lt_of_lt_of_le hd hn)) ..
  params _ _ := rfl
  fields _ _ := rfl
  listed _ := List.prefix_refl _

theorem keeps_list {scope : Scope} (hscope : ∀ r, scope = .record r → n ≤ r) (d : DeclId) :
    Keeps n R (R.list scope d) where
  size := Nat.le_refl _
  place _ _ := rfl
  role _ _ := rfl
  params _ _ := rfl
  fields r hr := by
    refine listed_list_of_ne ?_
    rintro rfl
    exact absurd hr (Nat.not_lt.mpr (hscope r rfl))
  listed scope' := by
    by_cases hs : scope' = scope
    · rw [hs, listed_list]
      exact List.prefix_append ..
    · exact listed_list_of_ne hs ▸ List.prefix_refl _

theorem keeps_declare {scope : Scope} (hscope : ∀ r, scope = .record r → n ≤ r) (hn : n ≤ R.size)
    (role : Role) : Keeps n R (R.declare scope role) :=
  (keeps_push hn scope role).trans (keeps_list hscope R.size)

theorem keeps_setParams {f : DeclId} (hf : n ≤ f) (params : List DeclId) :
    Keeps n R (R.setParams f params) where
  size := Nat.le_refl _
  place _ _ := rfl
  role _ _ := rfl
  params _ hd := update_of_ne (Nat.ne_of_lt (Nat.lt_of_lt_of_le hd hf)) ..
  fields _ _ := rfl
  listed _ := List.prefix_refl _

theorem keeps_pushParams (hn : n ≤ R.size) (f : DeclId) (index count : Nat) :
    Keeps n R (R.pushParams f index count) := by
  induction count generalizing R index with
  | zero => exact .refl n R
  | succ count ih => exact (keeps_push hn _ _).trans (ih (Nat.le_succ_of_le hn) _)

theorem keeps_pushFields (hn : n ≤ R.size) {r : DeclId} (hr : n ≤ r) (index count : Nat) :
    Keeps n R (R.pushFields r index count) := by
  induction count generalizing R index with
  | zero => exact .refl n R
  | succ count ih =>
      refine (keeps_declare (fun r' h => ?_) hn _).trans (ih (Nat.le_succ_of_le hn) _)
      cases h
      exact hr

end Keeps

/-! ### What is new -/

section New

variable (R : Roll)

@[simp] theorem size_declare (scope : Scope) (role : Role) : (R.declare scope role).size = R.size + 1 :=
  rfl

@[simp] theorem place_declare (scope : Scope) (role : Role) :
    (R.declare scope role).place R.size = scope := update_self ..

@[simp] theorem role_declare (scope : Scope) (role : Role) :
    (R.declare scope role).role R.size = role := update_self ..

@[simp] theorem listed_declare (scope : Scope) (role : Role) :
    (R.declare scope role).listed scope = R.listed scope ++ [R.size] := listed_list ..

theorem size_pushParams (f : DeclId) (index n : Nat) : (R.pushParams f index n).size = R.size + n := by
  induction n generalizing R index with
  | zero => rfl
  | succ n ih => exact (ih _ _).trans (Nat.add_right_comm _ _ _)

theorem size_pushFields (r : DeclId) (index n : Nat) : (R.pushFields r index n).size = R.size + n := by
  induction n generalizing R index with
  | zero => rfl
  | succ n ih => exact (ih _ _).trans (Nat.add_right_comm _ _ _)

/-- The fields of a record leave the other declarations, and the record, as they are. -/
theorem pushFields_of_lt (r : DeclId) (index n : Nat) {d : DeclId} (hd : d < R.size) :
    (R.pushFields r index n).place d = R.place d ∧ (R.pushFields r index n).role d = R.role d := by
  induction n generalizing R index with
  | zero => exact ⟨rfl, rfl⟩
  | succ n ih =>
      obtain ⟨hplace, hrole⟩ := ih (R.declare (.record r) (.field index)) (index + 1)
        (Nat.lt_succ_of_lt hd)
      exact ⟨hplace.trans (update_of_ne (Nat.ne_of_lt hd) ..),
        hrole.trans (update_of_ne (Nat.ne_of_lt hd) ..)⟩

theorem listed_pushParams (f : DeclId) (index n : Nat) :
    (R.pushParams f index n).listed = R.listed := by
  induction n generalizing R index with
  | zero => rfl
  | succ n ih => exact ih _ _

theorem listed_pushFields (r : DeclId) (index n : Nat) (scope : Scope) :
    (R.pushFields r index n).listed scope =
      if scope = .record r then R.listed scope ++ List.range' R.size n else R.listed scope := by
  induction n generalizing R index with
  | zero => simp [pushFields]
  | succ n ih =>
      rw [pushFields, ih, size_declare, List.range'_succ]
      split
      · next hs => simp [hs]
      · next hs => exact listed_list_of_ne hs

variable {R} in
/-- A new declaration has no fields. -/
theorem Enrolled.fields_declare (h : R.Enrolled) {scope : Scope} (hplace : ∀ r, scope ≠ .record r)
    (role : Role) : (R.declare scope role).listed (.record R.size) = [] := by
  rw [Roll.declare, listed_list_of_ne (Ne.symm (hplace _))]
  exact h.listed_eq_nil (Nat.lt_irrefl _)

end New

end Roll

/-! ### Rolls of programs -/

namespace Program

/-- What is listed in a scope. -/
def declsIn (p : Program) : Scope → List DeclId
  | .file => p.topLevel
  | .function f => (p.decl f).kind.locals
  | .record r => (p.decl r).kind.fields

/-- The roll of a program. -/
def roll (p : Program) : Roll :=
  ⟨p.decls.size, fun d => (p.decl d).scope, fun d => (p.decl d).kind.role,
    fun d => (p.decl d).kind.params, p.declsIn⟩

instance : Interning (Same roll) := ⟨fun _ _ => rfl⟩

instance : Appending (Same roll) := ⟨fun _ _ _ _ => rfl, fun _ _ => rfl⟩

theorem enrolled_empty (target : Target) : (empty target).roll.Enrolled where
  place _ h := absurd h (Nat.not_lt_zero _)
  owner _ h := absurd h (Nat.not_lt_zero _)
  listed scope _ := by
    refine iff_of_false ?_ fun h => Nat.not_lt_zero _ h.1
    cases scope <;> exact List.not_mem_nil
  nodup scope := by cases scope <;> exact List.Pairwise.nil
  params _ _ := iff_of_false List.not_mem_nil fun h => Nat.not_lt_zero _ h.1
  param _ _ _ h := by cases h
  field _ _ _ h := by cases h

theorem decl_pushDecl (p : Program) (name : String) (scope : Scope) (k : DeclKind) :
    (p.pushDecl name scope k).2.decl =
      update p.decl p.decls.size ⟨p.decls.size, name, scope, k⟩ := by
  funext d
  by_cases hd : d = p.decls.size
  · subst hd
    rw [update_self, decl_pushDecl_self]
  · rw [update_of_ne hd]
    simp [pushDecl, decl, Array.getElem?_push, hd]

/-- A declaration without parameters, fields and declarations in it. -/
theorem roll_pushDecl (p : Program) (name : String) (scope : Scope) {k : DeclKind}
    (hparams : k.params = []) (hlocals : k.locals = []) (hfields : k.fields = []) :
    (p.pushDecl name scope k).2.roll = p.roll.push scope k.role := by
  -- What is not there has no parts either.
  have hdefault : p.decl p.decls.size = default := by simp [decl]
  have keep : ∀ {f : DeclKind → List DeclId}, f k = [] → f (default : Decl).kind = [] → ∀ d : DeclId,
      f ((p.pushDecl name scope k).2.decl d).kind = f (p.decl d).kind := by
    intro f hk hf d
    rw [decl_pushDecl]
    by_cases hd : d = p.decls.size
    · subst hd
      rw [update_self, hdefault, hf, hk]
    · rw [update_of_ne hd]
  have hplace : (fun d => ((p.pushDecl name scope k).2.decl d).scope) =
      update (fun d => (p.decl d).scope) p.decls.size scope := by
    rw [decl_pushDecl]
    exact comp_update Decl.scope ..
  have hrole : (fun d => ((p.pushDecl name scope k).2.decl d).kind.role) =
      update (fun d => (p.decl d).kind.role) p.decls.size k.role := by
    rw [decl_pushDecl]
    exact comp_update (fun d : Decl => d.kind.role) ..
  refine Roll.ext ?_ hplace hrole (funext (keep hparams rfl)) (funext fun scope' => ?_)
  · exact Array.size_push ..
  · cases scope' with
    | file => rfl
    | function f => exact keep hlocals rfl f
    | record r => exact keep hfields rfl r

section SetDeclKind

variable {α : Type} {p : Program} {d : DeclId} {k : DeclKind} {f : DeclKind → α}

theorem scope_setDeclKind (x : DeclId) : ((p.setDeclKind d k).decl x).scope = (p.decl x).scope := by
  rw [decl_setDeclKind]
  split <;> rfl

/-- What completing a declaration leaves as it was. -/
theorem kind_setDeclKind (h : f k = f (p.decl d).kind) (x : DeclId) :
    f ((p.setDeclKind d k).decl x).kind = f (p.decl x).kind := by
  rw [decl_setDeclKind]
  split
  · next hd => exact hd.1 ▸ h
  · rfl

/-- What completing a declaration that is there changes. -/
theorem kind_setDeclKind_update (hd : d < p.decls.size) :
    (fun x => f ((p.setDeclKind d k).decl x).kind) = update (fun x => f (p.decl x).kind) d (f k) := by
  funext x
  rw [decl_setDeclKind]
  by_cases hx : x = d
  · subst hx
    rw [update_self, if_pos ⟨rfl, hd⟩]
  · rw [update_of_ne hx, if_neg fun h => hx h.1.symm]

/-- The roll after completing a declaration, up to its parameters and what is listed. -/
theorem roll_setDeclKind (hrole : k.role = (p.decl d).kind.role) :
    (p.setDeclKind d k).roll =
      { p.roll with
        params := fun x => ((p.setDeclKind d k).decl x).kind.params
        listed := (p.setDeclKind d k).declsIn } := by
  have hsize : (p.setDeclKind d k).decls.size = p.decls.size := by simp [setDeclKind]
  exact Roll.ext hsize (funext scope_setDeclKind) (funext (kind_setDeclKind hrole)) rfl rfl

end SetDeclKind

end Program

/-! ### Steps of construction -/

namespace Check

open Program

variable {p : Program}

theorem pushDecl_enters (name : String) (scope : Scope) {k : DeclKind} (hparams : k.params = [])
    (hlocals : k.locals = []) (hfields : k.fields = []) :
    Gives (pushDecl name scope k) p fun d q =>
      d = p.decls.size ∧ q.roll = p.roll.push scope k.role :=
  ⟨rfl, p.roll_pushDecl name scope hparams hlocals hfields⟩

theorem functionDecl_enters (scope : Scope) (name : String) (type : QualType) :
    Gives (functionDecl scope name type) p fun d q =>
      d = p.decls.size ∧ q.roll = p.roll.push scope .function :=
  .get_bind (.guard trivial fun _ => pushDecl_enters name scope rfl rfl rfl)

theorem param_enters (function : DeclId) (name : String) (type : QualType) (index : Nat) :
    Gives (param function name type index) p fun d q =>
      d = p.decls.size ∧ q.roll = p.roll.push (.function function) (.param index) :=
  .get_bind (.guard trivial fun _ => pushDecl_enters name _ rfl rfl rfl)

theorem varDecl_enters (scope : Scope) (name : String) (type : QualType) (storage : Storage) :
    Gives (varDecl scope name type storage) p fun d q =>
      d = p.decls.size ∧ q.roll = p.roll.push scope .var :=
  .get_bind (.guard trivial fun _ => pushDecl_enters name scope rfl rfl rfl)

theorem recordDecl_enters (scope : Scope) (name : String) :
    Gives (recordDecl scope name) p fun d q =>
      d = p.decls.size ∧ q.roll = p.roll.push scope .record :=
  pushDecl_enters name scope rfl rfl rfl

/-- The roll is one with the declaration listed if it differs just so in what is listed. -/
theorem roll_eq_list {R R' : Roll} {scope : Scope} {d : DeclId} (hsize : R'.size = R.size)
    (hplace : R'.place = R.place) (hrole : R'.role = R.role) (hparams : R'.params = R.params)
    (hself : R'.listed scope = R.listed scope ++ [d])
    (hother : ∀ scope', scope' ≠ scope → R'.listed scope' = R.listed scope') :
    R' = R.list scope d := by
  refine Roll.ext hsize hplace hrole hparams (funext fun scope' => ?_)
  by_cases hs : scope' = scope
  · rw [hs, hself, Roll.listed_list]
  · rw [hother scope' hs, Roll.listed_list_of_ne hs]

/-- A declaration is listed in its scope, if that is there. -/
theorem addDecl_lists (scope : Scope) (d : DeclId) :
    Gives (addDecl scope d) p fun _ q => p.roll.Has scope → q.roll = p.roll.list scope d := by
  cases scope with
  | file =>
      refine fun _ => roll_eq_list rfl rfl rfl rfl rfl fun scope hs => ?_
      cases scope with
      | file => exact absurd rfl hs
      | _ => rfl
  | function f =>
      refine .get_bind ?_
      split
      · next type params body locals hk =>
          intro hf
          let k := DeclKind.function type params body (locals ++ [d])
          have hlocals := congrFun (@kind_setDeclKind_update _ p f k DeclKind.locals hf)
          show (p.setDeclKind f k).roll = _
          have hparams : k.params = (p.decl f).kind.params := by rw [hk]; rfl
          rw [roll_setDeclKind (by rw [hk]; rfl)]
          refine roll_eq_list rfl rfl rfl (funext (kind_setDeclKind hparams)) ?_ fun scope hs => ?_
          · refine (hlocals f).trans ((update_self ..).trans ?_)
            simp [k, roll, declsIn, hk, DeclKind.locals]
          · cases scope with
            | file => rfl
            | function x =>
                have hx : x ≠ f := fun h => hs (h ▸ rfl)
                exact (hlocals x).trans (update_of_ne hx ..)
            | record x =>
                have hfields : k.fields = (p.decl f).kind.fields := by rw [hk]; rfl
                exact kind_setDeclKind hfields x
      · trivial
  | record r =>
      refine .get_bind ?_
      split
      · next fields hk =>
          intro hr
          let k := DeclKind.record (fields ++ [d])
          have hfields := congrFun (@kind_setDeclKind_update _ p r k DeclKind.fields hr)
          show (p.setDeclKind r k).roll = _
          have hparams : k.params = (p.decl r).kind.params := by rw [hk]; rfl
          rw [roll_setDeclKind (by rw [hk]; rfl)]
          refine roll_eq_list rfl rfl rfl (funext (kind_setDeclKind hparams)) ?_ fun scope hs => ?_
          · refine (hfields r).trans ((update_self ..).trans ?_)
            simp [k, roll, declsIn, hk, DeclKind.fields]
          · cases scope with
            | file => rfl
            | function x =>
                have hlocals : k.locals = (p.decl r).kind.locals := by rw [hk]; rfl
                exact kind_setDeclKind hlocals x
            | record x =>
                have hx : x ≠ r := fun h => hs (h ▸ rfl)
                exact (hfields x).trans (update_of_ne hx ..)
      · trivial

/-- Completing a declaration without listing anything in it. -/
theorem declsIn_setDeclKind {d : DeclId} {k : DeclKind} (hlocals : k.locals = (p.decl d).kind.locals)
    (hfields : k.fields = (p.decl d).kind.fields) : (p.setDeclKind d k).declsIn = p.declsIn := by
  funext scope
  cases scope with
  | file => rfl
  | function x => exact kind_setDeclKind hlocals x
  | record x => exact kind_setDeclKind hfields x

theorem setParams_enters (function : DeclId) (params : List DeclId) :
    Gives (setParams function params) p fun _ q =>
      function < p.decls.size → q.roll = p.roll.setParams function params := by
  refine .get_bind ?_
  dsimp only
  split
  · next type old body locals hk =>
      split
      · split
        · trivial
        · intro hf
          let k := DeclKind.function type params body locals
          show (p.setDeclKind function k).roll = _
          rw [roll_setDeclKind (by rw [hk]; rfl),
            declsIn_setDeclKind (by rw [hk]; rfl) (by rw [hk]; rfl)]
          exact Roll.ext rfl rfl rfl (@kind_setDeclKind_update _ p function k DeclKind.params hf) rfl
      · trivial
  · trivial

/-- The next field of a record. -/
theorem fieldDecl_enters (record : DeclId) (name : String) (type : QualType) :
    Gives (fieldDecl record name type) p fun d q => d = p.decls.size ∧
      q.roll = p.roll.declare (.record record) (.field (p.declsIn (.record record)).length) := by
  refine .get_bind ?_
  dsimp only
  split
  · next fields hk =>
      have hr : record < p.decls.size := by
        by_contra hge
        rw [decl, Array.getElem?_eq_none (Nat.le_of_not_lt hge)] at hk
        cases hk
      have hfields : p.declsIn (.record record) = fields := by rw [declsIn, hk, DeclKind.fields]
      refine .guard trivial fun _ => (pushDecl_enters name _ rfl rfl rfl).bind ?_
      rintro d q ⟨rfl, hq⟩
      refine (addDecl_lists (.record record) _).bind fun _ r hlist => .pure ⟨rfl, ?_⟩
      rw [hlist (by rw [hq]; exact Nat.lt_succ_of_lt hr), hq, hfields]
      rfl
  · trivial

/-! Bodies and initial values are not on the roll. -/

theorem roll_setDeclKind_eq {d : DeclId} {k : DeclKind} (hrole : k.role = (p.decl d).kind.role)
    (hparams : k.params = (p.decl d).kind.params) (hlocals : k.locals = (p.decl d).kind.locals)
    (hfields : k.fields = (p.decl d).kind.fields) : (p.setDeclKind d k).roll = p.roll := by
  rw [roll_setDeclKind hrole, declsIn_setDeclKind hlocals hfields]
  exact Roll.ext rfl rfl rfl (funext (kind_setDeclKind hparams)) rfl

theorem setBody_moves (function : DeclId) (body : StmtId) :
    Moves (Same roll) (setBody function body) := by
  refine .get_bind fun p => ?_
  dsimp only
  split
  · next hk =>
      exact roll_setDeclKind_eq (by rw [hk]; rfl) (by rw [hk]; rfl) (by rw [hk]; rfl) (by rw [hk]; rfl)
  · exact rfl

theorem setInit_moves (var : DeclId) (init : ExprId) : Moves (Same roll) (setInit var init) := by
  refine .get_bind fun p => ?_
  dsimp only
  split
  · next type old storage hk =>
      have htypes : Moves TypesOnly (initializable type init) := initializable_moves type init
      have hchecked : Leads (Same roll) (initializable type init) p fun _ q =>
          q.decl var = p.decl var :=
        htypes.ensures (fun _ q hq => ⟨by rw [hq]; rfl, by rw [hq]; rfl⟩) fun q hq => by rw [hq]; rfl
      refine Leads.after (hchecked.bind (Q := fun _ _ => True) fun _ q _ hq => ⟨?_, trivial⟩)
      rw [← hq] at hk
      exact roll_setDeclKind_eq (by rw [hk]; rfl) (by rw [hk]; rfl) (by rw [hk]; rfl) (by rw [hk]; rfl)
  · exact rfl

end Check

end Readback
