import Readback.Proofs.Typing.Changes
import Readback.Proofs.Typing.Frame

/-! # Failed construction

A call of typed construction checks and decides types first and makes nodes afterwards, with steps that
cannot fail. So a call that fails has interned some types at most.

* `Check.Sure` says that a step cannot fail. Appending a node is such a step, and so is putting
  parentheses around an operand.
* `Check.Atomic` says that a run of the step that fails has appended some types at most
  (`Program.TypesAppended`). Steps that only intern types are atomic (`Atomic.of_moves`), and a step
  that may make nodes is atomic if whatever comes before it only interned types and whatever comes
  behind it is sure (`Atomic.bind`). So a proof goes along the code of a call until its last check and
  is over there.
* The calls are gone through by their sorts: expressions (`cast_atomic`, `call_atomic`), statements
  (`controlled_atomic`, `forLoop_atomic`, `returns_atomic`) and declarations. Making a field is the one
  call that checks twice: its record is looked at when the field is made and again when it is listed. It
  is still the record that was checked, so the second look cannot fail (`fieldDecl_atomic`).

Types that were there come before those that were appended, and every type comes after its parts, so no
type has changed its meaning (`TypeArena.Ordered.tree_append`).

The main result is `Program.Constructed.error_keeps`: a call that fails leaves declarations, statements,
expressions and the list at file level as they were, and every type means and is spelled what it was.
`Constructed.error_keeps_text` is a failure after which a new type stays. -/

namespace Readback

open Step

namespace Program

/-- `q` is `p` with some types appended at the end of its table. -/
def TypesAppended (p q : Program) : Prop :=
  ∃ nodes, q = { p with types := ⟨p.types.entries ++ nodes⟩ }

theorem TypesAppended.rfl {p : Program} : p.TypesAppended p := ⟨#[], by simp⟩

instance : Std.Refl TypesAppended := ⟨fun _ => .rfl⟩

instance : IsTrans Program TypesAppended where
  trans p q r := by
    rintro ⟨nodes, rfl⟩ ⟨nodes', rfl⟩
    exact ⟨nodes ++ nodes', by rw [Array.append_assoc]⟩

instance : Interning TypesAppended where
  intern p node := by
    unfold internNode Interned.intern
    dsimp only
    split
    · exact ⟨#[], by simp⟩
    · exact ⟨#[node], by simp⟩

end Program

namespace Check

open Program

variable {α β : Type}

/-- The step cannot fail. -/
def Sure (m : Check α) : Prop := ∀ p, Outcome m p (fun _ _ => True) fun _ _ => False

/-- A run of the step that fails has appended some types at most. -/
def Atomic (m : Check α) : Prop := ∀ p, Outcome m p (fun _ _ => True) fun _ => p.TypesAppended

section Combinators

theorem Sure.pure (a : α) : Sure (pure a) := fun _ => trivial

theorem Sure.bind {m : Check α} {f : α → Check β} (hm : Sure m) (hf : ∀ a, Sure (f a)) :
    Sure (m >>= f) := fun p => (hm p).bind fun a q _ => hf a q

theorem Sure.get_bind {f : Program → Check α} (hf : ∀ p, Sure (f p)) : Sure (get >>= f) :=
  fun p => hf p p

theorem Sure.mapM {f : α → Check β} (hf : ∀ a, Sure (f a)) (l : List α) : Sure (l.mapM f) := by
  induction l with
  | nil => exact .pure _
  | cons a l ih =>
      rw [List.mapM_cons]
      exact .bind (hf a) fun _ => .bind ih fun _ => .pure _

theorem Sure.atomic {m : Check α} (hm : Sure m) : Atomic m := fun p =>
  (hm p).mono (fun _ _ _ => trivial) fun _ _ h => h.elim

theorem Atomic.throw (fault : Fault) : Atomic (throw fault : Check α) :=
  fun _ => TypesAppended.rfl

theorem Atomic.get_bind {f : Program → Check α} (hf : ∀ p, Atomic (f p)) : Atomic (get >>= f) :=
  fun p => hf p p

theorem Atomic.map {m : Check α} (hm : Atomic m) (f : α → β) : Atomic (f <$> m) :=
  fun p => Outcome.map (hm p)

theorem Atomic.guard {c : Prop} [Decidable c] {fault : Fault} {m : Check α} (hm : Atomic m) :
    Atomic (if c then do let _ ← (MonadExcept.throw fault : Check PUnit); m else m) := by
  split
  · exact .throw fault
  · exact hm

/-- A step that interns types at most. -/
theorem Atomic.of_moves {m : Check α} (hm : Moves TypesAppended m) : Atomic m := by
  intro p
  have hp := hm p
  unfold after at hp
  unfold Outcome
  cases h : m p with
  | ok a q => trivial
  | error fault q =>
      rw [h] at hp
      exact hp

/-- Types are interned first, and what follows fails only before it makes a node. -/
theorem Atomic.bind {m : Check α} {f : α → Check β} (hm : Moves TypesAppended m)
    (hf : ∀ a, Atomic (f a)) : Atomic (m >>= f) := by
  intro p
  refine Outcome.bind (P := fun _ => p.TypesAppended) ?_ fun a q hq => ?_
  · have hp := hm p
    unfold after at hp
    unfold Outcome
    cases h : m p <;> rw [h] at hp <;> exact hp
  · exact (hf a q).mono (fun _ _ h => h) fun _ r hr => IsTrans.trans _ _ _ hq hr

end Combinators

/-! ### Nodes that are made after all checks -/

section Nodes

theorem pushExpr_sure (k : ExprKind) (t : QualType) (c : ValueCategory) : Sure (pushExpr k t c) :=
  fun _ => trivial

theorem pushStmt_sure (k : StmtKind) : Sure (pushStmt k) := fun _ => trivial

theorem pushDecl_sure (name : String) (scope : Scope) (k : DeclKind) :
    Sure (pushDecl name scope k) := fun _ => trivial

theorem paren_sure (e : ExprId) : Sure (paren e) := .get_bind fun _ => pushExpr_sure _ _ _

theorem parenBelow_sure (e : ExprId) (least : Precedence) : Sure (parenBelow e least) := by
  refine .get_bind fun p => ?_
  split
  · exact paren_sure e
  · exact .pure _

theorem parenUpTo_sure (e : ExprId) (most : Precedence) : Sure (parenUpTo e most) := by
  refine .get_bind fun p => ?_
  split
  · exact paren_sure e
  · exact .pure _

theorem listed_sure (es : List ExprId) : Sure (listed es) := .mapM (fun e => parenUpTo_sure e _) es

end Nodes

/-! ### Calls -/

section Exprs

theorem declRef_atomic (d : DeclId) : Atomic (declRef d) := by
  refine .get_bind fun p => ?_
  dsimp only
  split
  · exact (pushExpr_sure _ _ _).atomic
  · exact (pushExpr_sure _ _ _).atomic
  · exact (pushExpr_sure _ _ _).atomic
  · exact .throw _
  · exact .throw _

theorem integer_atomic (value : Int) (type : QualType) : Atomic (integer value type) := by
  refine .get_bind fun p => ?_
  split
  · exact .throw _
  · exact (pushExpr_sure _ _ _).atomic

theorem floating_atomic (value : Binary64) (type : QualType) : Atomic (floating value type) := by
  refine .get_bind fun p => ?_
  split
  · exact .throw _
  · exact (pushExpr_sure _ _ _).atomic

theorem text_atomic (value : String) : Atomic (text value) :=
  .bind (internNode_moves _) fun _ => .bind (internNode_moves _) fun _ =>
    (pushExpr_sure _ _ _).atomic

theorem cast_atomic (style : CastStyle) (conversion : Conversion) (type : QualType)
    (operand : ExprId) (category : ValueCategory) :
    Atomic (cast style conversion type operand category) := by
  cases style with
  | implicit => exact (pushExpr_sure _ _ _).atomic
  | explicit =>
      refine .get_bind fun p => .guard (Sure.atomic ?_)
      exact .bind (parenBelow_sure _ _) fun _ => pushExpr_sure _ _ _

theorem unary_atomic (op : UnaryOp) (operand : ExprId) : Atomic (unary op operand) := by
  refine .bind (unaryType_moves _ _) fun _ => Sure.atomic ?_
  exact .bind (parenBelow_sure _ _) fun _ => pushExpr_sure _ _ _

theorem binary_atomic (op : BinaryOp) (lhs rhs : ExprId) : Atomic (binary op lhs rhs) := by
  refine .bind (binaryType_moves _ _ _) fun _ => Sure.atomic ?_
  split
  · exact .bind (parenUpTo_sure _ _) fun _ => .bind (parenBelow_sure _ _) fun _ => pushExpr_sure _ _ _
  · exact .bind (parenBelow_sure _ _) fun _ => .bind (parenUpTo_sure _ _) fun _ => pushExpr_sure _ _ _

theorem initList_sure (type : QualType) (elements : List ExprId) : Sure (initList type elements) :=
  .bind (listed_sure elements) fun _ => pushExpr_sure _ _ _

theorem call_atomic (callee : ExprId) (args : List ExprId) : Atomic (call callee args) := by
  refine .get_bind fun p => ?_
  dsimp only
  split
  · exact .throw _
  · refine .guard (Sure.atomic ?_)
    exact .bind (parenBelow_sure _ _) fun _ => .bind (listed_sure _) fun _ => pushExpr_sure _ _ _

end Exprs

section Stmts

theorem returns_atomic (function : DeclId) (value : Option ExprId) :
    Atomic (returns function value) := by
  refine .get_bind fun p => ?_
  dsimp only
  split
  · split
    · exact .bind (returnable_moves _ _ _) fun _ => (pushStmt_sure _).atomic
    · exact .throw _
  · exact .throw _

/-- A statement with a condition. -/
theorem controlled_atomic (cond : ExprId) (kind : ExprId → StmtKind) :
    Atomic (condition cond >>= fun e => pushStmt (kind e)) :=
  .bind (condition_moves cond) fun _ => (pushStmt_sure _).atomic

theorem forLoop_atomic (init : Option StmtId) (cond inc : Option ExprId) (body : StmtId) :
    Atomic (forLoop init cond inc body) := by
  cases cond with
  | none => exact (pushStmt_sure _).atomic
  | some e => exact .bind (.map (condition_moves e) _) fun _ => (pushStmt_sure _).atomic

end Stmts

section Decls

theorem addDecl_atomic (scope : Scope) (d : DeclId) : Atomic (addDecl scope d) := by
  cases scope with
  | file => exact fun _ => trivial
  | function f =>
      refine .get_bind fun p => ?_
      split
      · exact fun _ => trivial
      · exact .throw _
  | record r =>
      refine .get_bind fun p => ?_
      split
      · exact fun _ => trivial
      · exact .throw _

theorem setParams_atomic (function : DeclId) (params : List DeclId) :
    Atomic (setParams function params) := by
  refine .get_bind fun p => ?_
  dsimp only
  split
  · split
    · split
      · exact .throw _
      · exact fun _ => trivial
    · exact .throw _
  · exact .throw _

theorem setBody_atomic (function : DeclId) (body : StmtId) : Atomic (setBody function body) := by
  refine .get_bind fun p => ?_
  dsimp only
  split
  · exact fun _ => trivial
  · exact .throw _

theorem setInit_atomic (var : DeclId) (init : ExprId) : Atomic (setInit var init) := by
  refine .get_bind fun p => ?_
  dsimp only
  split
  · exact .bind (initializable_moves _ _) fun _ _ => trivial
  · exact .throw _

/-- A field can be listed once it is made: its record is still the record that was checked. -/
theorem fieldDecl_atomic (record : DeclId) (name : String) (type : QualType) :
    Atomic (fieldDecl record name type) := by
  intro p
  refine Outcome.get_bind ?_
  dsimp only
  split
  · next fields hk =>
      split
      · exact TypesAppended.rfl
      · have hr : record < p.decls.size := by
          by_contra hge
          rw [decl, Array.getElem?_eq_none (Nat.le_of_not_lt hge)] at hk
          cases hk
        have hpushed := p.decl_pushDecl_of_lt name (.record record) (.field type fields.length) hr
        refine Outcome.bind (P := fun _ q => Program.decl q record = Program.decl p record) hpushed
          fun field q hq => Outcome.bind (P := fun _ _ => True) ?_ fun _ _ _ => trivial
        refine Outcome.get_bind ?_
        rw [hq, hk]
        trivial
  · exact TypesAppended.rfl

end Decls

end Check

open Check in
/-- A call of construction that fails has appended some types at most. -/
theorem Construction.run_atomic (c : Construction) : Atomic c.run := by
  have drop {α : Type} {m : Check α} (hm : Atomic m) : Atomic (discard m) := hm.map _
  cases c with
  | builtin kind => exact drop (.of_moves (internNode_moves _))
  | pointerTo pointee => exact drop (.of_moves (internNode_moves _))
  | arrayOf element size => exact drop (.of_moves (internNode_moves _))
  | functionType result params isVariadic => exact drop (.of_moves (internNode_moves _))
  | recordType decl => exact drop (.of_moves (recordType_moves decl))
  | addDecl scope decl => exact addDecl_atomic scope decl
  | functionDecl scope name type => exact drop (.get_bind fun _ => .guard (pushDecl_sure _ _ _).atomic)
  | param function name type index =>
      exact drop (.get_bind fun _ => .guard (pushDecl_sure _ _ _).atomic)
  | setParams function params => exact setParams_atomic function params
  | setBody function body => exact setBody_atomic function body
  | varDecl scope name type storage =>
      exact drop (.get_bind fun _ => .guard (pushDecl_sure _ _ _).atomic)
  | setInit var init => exact setInit_atomic var init
  | recordDecl scope name => exact drop (pushDecl_sure _ _ _).atomic
  | fieldDecl record name type => exact drop (fieldDecl_atomic record name type)
  | declRef decl => exact drop (declRef_atomic decl)
  | paren e => exact drop (paren_sure e).atomic
  | integer value type => exact drop (integer_atomic value type)
  | floating value type => exact drop (floating_atomic value type)
  | text value => exact drop (text_atomic value)
  | cast style conversion type operand category =>
      exact drop (cast_atomic style conversion type operand category)
  | unary op operand => exact drop (unary_atomic op operand)
  | binary op lhs rhs => exact drop (binary_atomic op lhs rhs)
  | initList type elements => exact drop (initList_sure type elements).atomic
  | call callee args => exact drop (call_atomic callee args)
  | condition e => exact drop (.of_moves (condition_moves e))
  | compound body => exact drop (pushStmt_sure _).atomic
  | returns function value => exact drop (returns_atomic function value)
  | ifElse cond yes no => exact drop (controlled_atomic cond fun e => .ifElse e yes no)
  | whileLoop cond body => exact drop (controlled_atomic cond fun e => .whileLoop e body)
  | doLoop body cond => exact drop (controlled_atomic cond fun e => .doLoop body e)
  | forLoop init cond inc body => exact drop (forLoop_atomic init cond inc body)
  | breaks => exact drop (pushStmt_sure _).atomic
  | continues => exact drop (pushStmt_sure _).atomic
  | empty => exact drop (pushStmt_sure _).atomic
  | declares decls => exact drop (pushStmt_sure _).atomic

/-! ### Types keep their meaning -/

/-- Where every type stands after its parts, types that follow do not change its unfolding. -/
theorem TypeArena.Ordered.tree_append {a : TypeArena} (h : a.Ordered) (nodes : Array TypeNode)
    {t : QualType} (ht : t.ref < a.size) : TypeArena.tree ⟨a.entries ++ nodes⟩ t = a.tree t := by
  have same : ∀ n (t : QualType), t.ref < a.size →
      treeAux ⟨a.entries ++ nodes⟩ n t = a.treeAux n t := by
    intro n
    induction n with
    | zero => exact fun _ _ => rfl
    | succ n ih =>
        intro t ht
        have hnode : node ⟨a.entries ++ nodes⟩ t = a.node t := by
          simp only [node, Interned.get?]
          rw [Array.getElem?_append_left ht]
        have hpart : ∀ x ∈ (a.node t).parts,
            treeAux ⟨a.entries ++ nodes⟩ n x = a.treeAux n x := fun x hx =>
          ih x (Nat.lt_trans (h.part hx) ht)
        rw [treeAux, treeAux, hnode]
        cases hn : a.node t with
        | builtin kind => rfl
        | record decl => rfl
        | pointer pointee => simp only [hpart pointee (by simp [hn, TypeNode.parts])]
        | array element size => simp only [hpart element (by simp [hn, TypeNode.parts])]
        | function result params isVariadic =>
            have hparams : params.map (treeAux ⟨a.entries ++ nodes⟩ n) = params.map (a.treeAux n) :=
              List.map_congr_left fun x hx => hpart x (by simp [hn, TypeNode.parts, hx])
            simp only [hpart result (by simp [hn, TypeNode.parts]), hparams]
  exact same _ t ht

namespace Program

/-- A call of construction that fails leaves declarations, statements, expressions and the list at
file level as they were. Of the types it has at most appended some, so that every type that was there
means what it meant and is written as it was. -/
theorem Constructed.error_keeps {p q : Program} (hp : p.Constructed) {c : Construction}
    {fault : Fault} (h : c.run p = .error fault q) :
    (q.decls = p.decls ∧ q.stmts = p.stmts ∧ q.exprs = p.exprs ∧ q.topLevel = p.topLevel ∧
      q.target = p.target) ∧
    (∃ nodes, q.types.entries = p.types.entries ++ nodes) ∧
    ∀ t : QualType, t.ref < p.types.size → q.types.get? t.ref = p.types.get? t.ref ∧
      q.types.tree t = p.types.tree t ∧ ∀ name, q.declarator t name = p.declarator t name := by
  have hatomic := c.run_atomic p
  unfold Outcome at hatomic
  rw [h] at hatomic
  obtain ⟨nodes, rfl⟩ := hatomic
  refine ⟨⟨rfl, rfl, rfl, rfl, rfl⟩, ⟨nodes, rfl⟩, fun t ht => ?_⟩
  have htree := hp.wellTyped.types.tree_append nodes ht
  refine ⟨Array.getElem?_append_left ht, htree, fun name => ?_⟩
  unfold declarator
  rw [htree]
  rfl

/-- A text cannot be assigned to a number. That is found out only after the text has decayed, so that
the type of the pointer stays. -/
theorem Constructed.error_keeps_text :
    ∃ (p q : Program) (fault : Fault), p.Constructed ∧
      (Construction.binary .assign 0 1).run p = .error fault q ∧ q.exprs = p.exprs ∧
      p.types.size = 3 ∧ q.types.size = 4 ∧ q.types.tree (.plain 2) = p.types.tree (.plain 2) := by
  have h₀ := Constructed.empty ⟨"x86_64-unknown-linux-gnu", false, 16, 32, 64, 64, 64⟩
  have h₁ := h₀.step (.builtin .int) (by decide +kernel)
  have h₂ := h₁.step (.varDecl .file "count" (.plain 0) .unspecified) (by decide +kernel)
  have h₃ := h₂.step (.declRef 0) (by decide +kernel)
  have h₄ := h₃.step (.text "many") (by decide +kernel)
  have stays : ∀ p : Program, p.Constructed → p.types.size = 3 →
      (match (Construction.binary .assign 0 1).run p with
        | .error _ q => decide (q.types.size = 4)
        | .ok _ _ => false) = true →
      ∃ q fault, (Construction.binary .assign 0 1).run p = .error fault q ∧ q.exprs = p.exprs ∧
        q.types.size = 4 ∧ q.types.tree (.plain 2) = p.types.tree (.plain 2) := by
    intro p hp hsize hrun
    split at hrun
    · next fault q hq =>
        obtain ⟨⟨_, _, hexprs, _⟩, _, htypes⟩ := Constructed.error_keeps hp hq
        have h₂ : (QualType.plain 2).ref < p.types.size := by rw [hsize]; decide
        exact ⟨q, fault, hq, hexprs, of_decide_eq_true hrun, (htypes _ h₂).2.1⟩
    · cases hrun
  obtain ⟨q, fault, hq⟩ := stays _ h₄ (by decide +kernel) (by decide +kernel)
  exact ⟨_, q, fault, h₄, hq.1, hq.2.1, by decide +kernel, hq.2.2⟩

end Program

end Readback
