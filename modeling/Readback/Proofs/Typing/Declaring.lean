import Readback.Proofs.Typing.Construction
import Readback.Proofs.Typing.Growth

/-! # What declaring leaves alone

Declarations are appended, completed and listed. A relation that allows these three changes is
`Declaring`. Most calls that declare something lead along it, but giving a function its parameters and
making a field of a record are checked against more than the declaration itself: what they do is left
to each relation. Along a relation for which that is known too (`Constructing`), all calls of
construction lead (`Construction.run_moves`). -/

namespace Readback

open Step

namespace Program

/-- The relation also allows declarations to be made, listed and given locals, bodies, initial values
and fields. Functions are made without parameters, parameters are not `void`, and no field is made.
-/
class Declaring (R : Program → Program → Prop) : Prop extends Appending R where
  pushDecl (p : Program) (name : String) (scope : Scope) (k : DeclKind)
      (bare : ∀ type params body locals, k = .function type params body locals → params = [])
      (sized : ∀ type index, k = .param type index → p.isVoid type = false)
      (noField : ∀ type index, k ≠ .field type index) : R p (p.pushDecl name scope k).2
  complete (p : Program) (d : DeclId) (k : DeclKind)
      (settled : k.settled = (p.decl d).kind.settled) : R p (p.setDeclKind d k)
  list (p : Program) (d : DeclId) : R p { p with topLevel := p.topLevel ++ [d] }

theorem Interning.and {R R' : Program → Program → Prop} [Interning R] [Interning R'] :
    Interning fun p q => R p q ∧ R' p q where
  refl p := ⟨Std.Refl.refl p, Std.Refl.refl p⟩
  trans _ _ _ h h' := ⟨IsTrans.trans _ _ _ h.1 h'.1, IsTrans.trans _ _ _ h.2 h'.2⟩
  intern p node := ⟨Interning.intern p node, Interning.intern p node⟩

namespace Declaring

variable {R : Program → Program → Prop} [Declaring R]

theorem addDecl (scope : Scope) (d : DeclId) : Moves R (Check.addDecl scope d) := by
  cases scope with
  | file => exact .modify fun p => list p d
  | function f =>
      refine .get_bind fun p => ?_
      split
      · next hk => exact complete p f _ (by rw [hk]; rfl)
      · exact Std.Refl.refl p
  | record r =>
      refine .get_bind fun p => ?_
      split
      · next hk => exact complete p r _ (by rw [hk]; rfl)
      · exact Std.Refl.refl p

theorem functionDecl (scope : Scope) (name : String) (type : QualType) :
    Moves R (Check.functionDecl scope name type) := by
  refine .bind .get fun _ => .guard (.modifyGet fun p => pushDecl p name scope _ ?_ nofun nofun)
  rintro _ _ _ _ ⟨⟩
  rfl

theorem param (function : DeclId) (name : String) (type : QualType) (index : Nat) :
    Moves R (Check.param function name type index) := by
  refine .get_bind fun p => ?_
  dsimp only
  split
  · exact Std.Refl.refl p
  · next hvoid =>
      refine pushDecl p name _ _ nofun ?_ nofun
      rintro _ _ ⟨⟩
      simp only [Bool.or_eq_true, not_or, Bool.not_eq_true] at hvoid
      exact hvoid.1

theorem varDecl (scope : Scope) (name : String) (type : QualType) (storage : Storage) :
    Moves R (Check.varDecl scope name type storage) :=
  .bind .get fun _ => .guard (.modifyGet fun p => pushDecl p name scope _ nofun nofun nofun)

theorem recordDecl (scope : Scope) (name : String) : Moves R (Check.recordDecl scope name) :=
  .modifyGet fun p => pushDecl p name scope _ nofun nofun nofun

theorem setBody (function : DeclId) (body : StmtId) : Moves R (Check.setBody function body) := by
  refine .get_bind fun p => ?_
  dsimp only
  split
  · next hk => exact complete p function _ (by rw [hk]; rfl)
  · exact Std.Refl.refl p

/-- Checking an initial value leaves the variable as it was read before. -/
theorem setInit (var : DeclId) (init : ExprId) : Moves R (Check.setInit var init) := by
  refine .get_bind fun p => ?_
  dsimp only
  split
  · next type old storage hk =>
      have checked : Leads R (Check.initializable type init) p fun _ q => q.decl var = p.decl var :=
        have : Interning fun p q => R p q ∧ p.TypesOnly q := Interning.and
        (Check.initializable_moves (R := fun p q => R p q ∧ p.TypesOnly q) type init).ensures
          (fun _ q hq => ⟨hq.1, by rw [hq.2]; rfl⟩) fun _ hq => hq.1
      refine Leads.after (checked.bind (Q := fun _ _ => True) fun _ q _ hq => ⟨?_, trivial⟩)
      exact complete q var _ (by rw [hq, hk]; rfl)
  · exact Std.Refl.refl p

end Declaring

/-- The relation also allows functions to be given their parameters, and fields to be made. -/
class Constructing (R : Program → Program → Prop) : Prop extends Declaring R where
  setParams (function : DeclId) (params : List DeclId) : Moves R (Check.setParams function params)
  fieldDecl (record : DeclId) (name : String) (type : QualType) :
      Moves R (Check.fieldDecl record name type)

end Program

open Program Check

/-- A call of construction leads along a relation that allows all of construction. -/
theorem Construction.run_moves {R : Program → Program → Prop} [Constructing R] (c : Construction) :
    Moves R c.run := by
  have drop {α : Type} {m : Check α} (hm : Moves R m) : Moves R (discard m) := hm.map _
  cases c with
  | builtin kind => exact drop (internNode_moves _)
  | pointerTo pointee => exact drop (internNode_moves _)
  | arrayOf element size => exact drop (internNode_moves _)
  | functionType result params isVariadic => exact drop (internNode_moves _)
  | recordType decl => exact drop (recordType_moves decl)
  | addDecl scope decl => exact Declaring.addDecl scope decl
  | functionDecl scope name type => exact drop (Declaring.functionDecl scope name type)
  | param function name type index => exact drop (Declaring.param function name type index)
  | setParams function params => exact Constructing.setParams function params
  | setBody function body => exact Declaring.setBody function body
  | varDecl scope name type storage => exact drop (Declaring.varDecl scope name type storage)
  | setInit var init => exact Declaring.setInit var init
  | recordDecl scope name => exact drop (Declaring.recordDecl scope name)
  | fieldDecl record name type => exact drop (Constructing.fieldDecl record name type)
  | declRef decl => exact drop (declRef_moves decl)
  | paren e => exact drop (paren_moves e)
  | integer value type => exact drop (integer_moves value type)
  | floating value type => exact drop (floating_moves value type)
  | text value => exact drop (text_moves value)
  | cast style conversion type operand category =>
      exact drop (cast_moves style conversion type operand category)
  | unary op operand => exact drop (unary_moves op operand)
  | binary op lhs rhs => exact drop (binary_moves op lhs rhs)
  | initList type elements => exact drop (initList_moves type elements)
  | call callee args => exact drop (call_moves callee args)
  | condition e => exact drop (condition_moves e)
  | compound body => exact drop (pushStmt_moves _)
  | returns function value => exact drop (returns_moves function value)
  | ifElse cond yes no => exact drop (controlled_moves cond fun e => .ifElse e yes no)
  | whileLoop cond body => exact drop (controlled_moves cond fun e => .whileLoop e body)
  | doLoop body cond => exact drop (controlled_moves cond fun e => .doLoop body e)
  | forLoop init cond inc body => exact drop (forLoop_moves init cond inc body)
  | breaks => exact drop (pushStmt_moves _)
  | continues => exact drop (pushStmt_moves _)
  | empty => exact drop (pushStmt_moves _)
  | declares decls => exact drop (pushStmt_moves _)

end Readback
