import Readback.Lift.Run
import Readback.Proofs.Graph.Built
import Readback.Proofs.Typing.Growth

/-! # What operations become

`Shown g s o r` says that `r` is what the operation `o` of the graph `g` became in the state `s`: an
expression whose operands are those of the operation, a statement made from its regions, or nothing. It
is spelled out per kind of operation by `ExprNode`, `StmtNode` and `Silent`, without reference to the
rules of the lift.

Operands are read in three steps:

* `Res g s v e`: the expression `e` stands for the value `v`. It is the node of the operation behind `v`,
  or a reference to the declaration behind `v`: a variable, a parameter (`ParamOf`), or what a symbol
  names (`Named`).
* `Use g s v e`: so it does at a place where `v` is used. Nodes of operations are shared by all places;
  references are made for one.
* `Operand g s v x`: the same, possibly in parentheses.

Regions are read by `Lifted`, `CompoundOf` and `BranchOf` (the sequence of what the operations leave, in
order), `YieldOf` and `ConditionOf` (what they yield) and `IncrementOf`. Whether an operation leaves a
statement, is part of the expressions that use it, or only passes on what it is given can be told from
the graph alone (`Graph.elides`, `Graph.passed`, `Shown.isElided_eq`).

A lift only adds to its state (`LiftState.Grows`), and what an operation became stays what it is
(`Shown.mono`); there is one such lemma for each of the relations above. Symbols are the exception that
`Grows` has a clause for: what a symbol names may be taken over by a later declaration, but not for an
operation that was lifted already (`LiftState.Cites`, `CitesFrom`, `Operation.cited?`).

Last, expressions and statements are kept apart: an operation became an expression if and only if its
kind says so (`Shown.asExpr?_isSome`). -/

namespace Readback

/-! ### Operations by their place -/

/-- Whether operations of the kind become expressions. -/
def Kind.isExpr : Kind → Bool
  | .translationUnit | .function | .var | .record | .field | .typeAlias | .enumeration
  | .enumerator | .ifStmt | .whileStmt | .doStmt | .forStmt | .returnStmt | .breakStmt
  | .continueStmt | .skip => false
  | _ => true

/-- The binary operator of an operation; that of a comparison is its predicate. -/
def Operation.binaryOp? (o : Operation) : Option BinaryOp :=
  match o.kind? with
  | some .compare =>
    match o.attr? AttrName.predicate with
    | some (.predicate p) => some p.operator
    | _ => none
  | some kind => kind.binaryOp?
  | none => none

/-- The unary operator of an operation. -/
def Operation.unaryOp? (o : Operation) : Option UnaryOp := o.kind?.bind Kind.unaryOp?

/-- The style of the cast that an operation is. -/
def Operation.castStyle? (o : Operation) : Option CastStyle :=
  match o.kind? with
  | some .implicitCast => some .implicit
  | some .explicitCast => some .explicit
  | _ => none

/-- The symbol that an operation refers to. -/
def Operation.cited? (o : Operation) : Option String :=
  match o.kind? with
  | some .functionRef | some .call => o.textAttr? AttrName.callee
  | some .globalRef => o.textAttr? AttrName.name
  | _ => none

/-- The ways in which an operation makes an expression from its values. -/
inductive Form where
  | passed
  | wrapper
  | symbol
  | constant
  | binary
  | unary
  | cast
  | call
  | initList
  | none
deriving DecidableEq

/-- Whether an operation of the form takes over the expression of another one. -/
def Form.passes : Form → Bool
  | .passed | .wrapper => true
  | _ => false

/-- Whether expressions of the form are made of a declaration that is named. -/
def Form.cites : Form → Bool
  | .symbol | .call => true
  | _ => false

/-- The form of the expressions that operations of a kind become. -/
def Kind.form (k : Kind) : Form :=
  match k with
  | .declRef | .valueYield | .condYield => .passed
  | .expression => .wrapper
  | .functionRef | .globalRef => .symbol
  | .constant => .constant
  | .compare => .binary
  | .implicitCast | .explicitCast => .cast
  | .call => .call
  | .initList => .initList
  | k => if k.binaryOp?.isSome then .binary else if k.unaryOp?.isSome then .unary else .none

section Forms

variable {o : Operation}

theorem Operation.form_of_binaryOp? {op : BinaryOp} (h : o.binaryOp? = some op) :
    ∃ k, o.kind? = some k ∧ k.form = .binary := by
  unfold Operation.binaryOp? at h
  cases hk : o.kind? with
  | none => simp [hk] at h
  | some k =>
      refine ⟨k, rfl, ?_⟩
      cases k <;> first | rfl | simp [hk, Kind.binaryOp?] at h

theorem Operation.form_of_unaryOp? {op : UnaryOp} (h : o.unaryOp? = some op) :
    ∃ k, o.kind? = some k ∧ k.form = .unary := by
  unfold Operation.unaryOp? at h
  cases hk : o.kind? with
  | none => simp [hk] at h
  | some k =>
      refine ⟨k, rfl, ?_⟩
      cases k <;> first | rfl | simp [hk, Kind.unaryOp?] at h

theorem Operation.form_of_castStyle? {style : CastStyle} (h : o.castStyle? = some style) :
    ∃ k, o.kind? = some k ∧ k.form = .cast := by
  unfold Operation.castStyle? at h
  cases hk : o.kind? with
  | none => simp [hk] at h
  | some k =>
      refine ⟨k, rfl, ?_⟩
      cases k <;> first | rfl | simp [hk] at h

/-- Only symbols and calls refer to declarations by their names. -/
theorem Operation.cited?_eq_none {form : Form} (h : ∃ k, o.kind? = some k ∧ k.form = form)
    (hcites : form.cites = false) : o.cited? = none := by
  obtain ⟨k, hk, rfl⟩ := h
  unfold cited?
  rw [hk]
  cases k <;> first | rfl | cases hcites

theorem Operation.cited?_of_symbol {attr sym : String} (hk : o.kind? = some .functionRef ∧
    attr = AttrName.callee ∨ o.kind? = some .globalRef ∧ attr = AttrName.name)
    (hsym : o.textAttr? attr = some sym) : o.cited? = some sym := by
  obtain ⟨hk, rfl⟩ | ⟨hk, rfl⟩ := hk
  · rw [cited?, hk]
    exact hsym
  · rw [cited?, hk]
    exact hsym

theorem Operation.cited?_of_call {sym : String} (hk : o.kind? = some .call)
    (hsym : o.textAttr? AttrName.callee = some sym) : o.cited? = some sym := by
  rw [cited?, hk]
  exact hsym

end Forms

namespace Graph

/-- Whether the operation at a position becomes an expression. -/
def isExpr (g : Graph) (op : OpId) : Bool := (g.kind? op).any Kind.isExpr

/-- Whether an operation is part of the expressions that use it and leaves no statement. -/
def elides (g : Graph) (op : OpId) : Bool := g.hasUses op && g.isExpr op

/-- Whether an operation is an expression that nothing uses, other than a yield. -/
def isLoose (g : Graph) (op : OpId) : Bool :=
  !Lift.isYield g op && (g.isExpr op && !g.hasUses op)

/-- The operations whose expression an operation takes over instead of making one: the one behind its
operand, or the yields of its region. -/
def passed (g : Graph) (o : Operation) : List OpId :=
  match o.kind?.map Kind.form with
  | some .passed => (o.operands[0]?.bind Value.definingOp?).toList
  | some .wrapper => o.regions.head?.elim [] fun r => (g.regionOps r).filter (Lift.isYield g)
  | _ => []

/-- An operation that has a rule of its own takes over nothing. -/
theorem passed_eq_nil {g : Graph} {o : Operation} {form : Form}
    (h : ∃ k, o.kind? = some k ∧ k.form = form) (hpasses : form.passes = false) : g.passed o = [] := by
  obtain ⟨k, hk, rfl⟩ := h
  unfold passed
  rw [hk]
  cases hform : k.form <;> simp_all [Form.passes]

/-- The region of the else part of a branch: the third one if it has a block. -/
def elseRegion? (g : Graph) (o : Operation) : Option RegionId :=
  o.regions[2]?.filter fun r => (g.region? r).any fun r => !r.blocks.isEmpty

end Graph

/-! ### States that grow -/

namespace LiftState

/-- The statement of an operation. -/
def stmtOf? (s : LiftState) (op : OpId) : Option StmtId := (s.opStmt.get? op).join

theorem stmtOf?_eq_some {s : LiftState} {op : OpId} {i : StmtId} :
    s.stmtOf? op = some i ↔ s.opStmt.get? op = some (some i) := by
  unfold stmtOf?
  cases s.opStmt.get? op with
  | none => simp
  | some l => cases l <;> simp

theorem exprOf?_eq_some {s : LiftState} {o : OpId} {e : ExprId} :
    s.exprOf? o = some e ↔
      ∃ i, s.opStmt.get? o = some (some i) ∧ s.program.asExpr? i = some e := by
  unfold exprOf?
  cases h : s.opStmt.get? o with
  | none => simp
  | some r => cases r <;> simp

theorem exprOf?_of_get? {s : LiftState} {o : OpId} {r : Option StmtId}
    (h : s.opStmt.get? o = some r) : s.exprOf? o = r.bind s.program.asExpr? := by
  unfold exprOf?
  rw [h]
  cases r <;> rfl

/-- The expression is a reference to the declaration, or a call of it. -/
def Cites (s : LiftState) (e : ExprId) (d : DeclId) : Prop :=
  e < s.program.exprs.size ∧ ((s.program.expr e).kind = .ref d ∨
    ∃ f xs, (s.program.expr e).kind = .call f xs ∧ f < s.program.exprs.size ∧
      (s.program.expr f).kind = .ref d)

/-- The operation became an expression that cites the declaration `x`, or one from `n` on. -/
def CitesFrom (s : LiftState) (id : OpId) (x : DeclId) (n : Nat) : Prop :=
  ∃ e d, s.exprOf? id = some e ∧ s.Cites e d ∧ (d = x ∨ n ≤ d)

/-- The state `t` comes after `s`, and operations below `n` were not lifted in between. A symbol stands
for what it stood for or for a new declaration, and so does what was lifted in between take it. -/
structure Grows (g : Graph) (n : Nat) (s t : LiftState) : Prop where
  program : s.program.Grows t.program
  below : ∀ o : Nat, o < n → t.opStmt.get? o = s.opStmt.get? o
  opStmt : ∀ o r, s.opStmt.get? o = some r → t.opStmt.get? o = some r
  opDecl : ∀ o d, g.kind? o ≠ some .field → s.opDecl.get? o = some d → t.opDecl.get? o = some d
  argDecl : ∀ v d, s.argDecl.get? v = some d → t.argDecl.get? v = some d
  typeOf : ∀ id type, s.typeOf.get? id = some type → t.typeOf.get? id = some type
  fresh : ∀ (o i : Nat), t.opStmt.get? o = some (some i) → i < s.program.stmts.size →
    ∃ o', s.opStmt.get? o' = some (some i)
  symbols : ∀ name x, s.symbols.get? name = some x →
    ∃ y, t.symbols.get? name = some y ∧ (y = x ∨ s.program.decls.size ≤ y)
  cited : ∀ id o r name x, g.op? id = some o → o.cited? = some name → s.opStmt.get? id = none →
    t.opStmt.get? id = some r → s.symbols.get? name = some x → t.CitesFrom id x s.program.decls.size

/-- Where nothing was lifted in between, nothing was cited. -/
theorem cited_of_opStmt {g : Graph} {s t : LiftState} (h : t.opStmt = s.opStmt) :
    ∀ id o r name x, g.op? id = some o → o.cited? = some name → s.opStmt.get? id = none →
      t.opStmt.get? id = some r → s.symbols.get? name = some x →
      t.CitesFrom id x s.program.decls.size := by
  intro id o r name x _ _ hs ht
  rw [h, hs] at ht
  cases ht

theorem Grows.refl (g : Graph) (n : Nat) (s : LiftState) : Grows g n s s :=
  ⟨.refl _, fun _ _ => rfl, fun _ _ h => h, fun _ _ _ h => h, fun _ _ h => h, fun _ _ h => h,
    fun o _ h _ => ⟨o, h⟩, fun _ x h => ⟨x, h, .inl rfl⟩, cited_of_opStmt rfl⟩

theorem asExpr?_lt {p : Program} {i : Nat} {e : ExprId} (h : p.asExpr? i = some e) :
    i < p.stmts.size := by
  rw [Program.asExpr?_eq] at h
  obtain ⟨x, hx, -⟩ := Option.bind_eq_some_iff.mp h
  exact (Array.getElem?_eq_some_iff.mp hx).1

/-- What an operation cites stays. -/
theorem CitesFrom.mono {s t : LiftState} {id : OpId} {x : DeclId} {n : Nat}
    (h : s.CitesFrom id x n) (hp : s.program.Grows t.program)
    (hstmt : ∀ r, s.opStmt.get? id = some r → t.opStmt.get? id = some r) : t.CitesFrom id x n := by
  obtain ⟨e, d, he, ⟨hlt, hkind⟩, hd⟩ := h
  obtain ⟨i, hi, htwin⟩ := exprOf?_eq_some.mp he
  refine ⟨e, d, exprOf?_eq_some.mpr ⟨i, hstmt _ hi, ?_⟩, ⟨Nat.lt_of_lt_of_le hlt hp.exprs.1, ?_⟩, hd⟩
  · rw [hp.asExpr? (asExpr?_lt htwin)]
    exact htwin
  · rw [hp.exprs.2 e hlt]
    refine hkind.imp_right fun ⟨f, xs, hcall, hf, href⟩ =>
      ⟨f, xs, hcall, Nat.lt_of_lt_of_le hf hp.exprs.1, ?_⟩
    rw [hp.exprs.2 f hf]
    exact href

theorem Grows.trans {g : Graph} {n : Nat} {s t u : LiftState} (h₁ : Grows g n s t)
    (h₂ : Grows g n t u) : Grows g n s u where
  program := h₁.program.trans h₂.program
  below o ho := (h₂.below o ho).trans (h₁.below o ho)
  opStmt o r h := h₂.opStmt o r (h₁.opStmt o r h)
  opDecl o d hk h := h₂.opDecl o d hk (h₁.opDecl o d hk h)
  argDecl v d h := h₂.argDecl v d (h₁.argDecl v d h)
  typeOf id type h := h₂.typeOf id type (h₁.typeOf id type h)
  fresh o i h hi := by
    obtain ⟨o', h'⟩ := h₂.fresh o i h (Nat.lt_of_lt_of_le hi h₁.program.stmts_size)
    exact h₁.fresh o' i h' hi
  symbols name x hx := by
    obtain ⟨y, hy, hxy⟩ := h₁.symbols name x hx
    obtain ⟨z, hz, hyz⟩ := h₂.symbols name y hy
    refine ⟨z, hz, ?_⟩
    obtain rfl | hnew := hyz
    · exact hxy
    · exact .inr (Nat.le_trans h₁.program.decls_size hnew)
  cited id o r name x ho hname hs hu hx := by
    cases ht : t.opStmt.get? id with
    | some r' => exact (h₁.cited id o r' name x ho hname hs ht hx).mono h₂.program (h₂.opStmt id)
    | none =>
        -- The operation was lifted after `t`, where the symbol stands for `y`.
        obtain ⟨y, hy, hxy⟩ := h₁.symbols name x hx
        obtain ⟨e, d, he, hcites, hd⟩ := h₂.cited id o r name y ho hname ht hu hy
        refine ⟨e, d, he, hcites, ?_⟩
        obtain rfl | hnew := hd
        · exact hxy
        · exact .inr (Nat.le_trans h₁.program.decls_size hnew)

theorem Grows.weaken {g : Graph} {m n : Nat} {s t : LiftState} (h : Grows g n s t) (hmn : m ≤ n) :
    Grows g m s t := { h with below := fun o ho => h.below o (Nat.lt_of_lt_of_le ho hmn) }

section Grows

variable {g : Graph} {n : Nat} {s t : LiftState}

theorem Grows.asExpr? (h : Grows g n s t) {i : Nat} (hi : i < s.program.stmts.size) :
    t.program.asExpr? i = s.program.asExpr? i := h.program.asExpr? hi

theorem Grows.expr (h : Grows g n s t) {e : Nat} (he : e < s.program.exprs.size) :
    t.program.expr e = s.program.expr e := h.program.exprs.2 e he

theorem Grows.stmt (h : Grows g n s t) {i : Nat} (hi : i < s.program.stmts.size) :
    t.program.stmt i = s.program.stmt i := h.program.stmt hi

theorem Grows.exprOf? (h : Grows g n s t) {o : OpId} {e : ExprId} (ho : s.exprOf? o = some e) :
    t.exprOf? o = some e := by
  obtain ⟨i, hi, he⟩ := exprOf?_eq_some.mp ho
  refine exprOf?_eq_some.mpr ⟨i, h.opStmt o _ hi, ?_⟩
  rw [h.asExpr? (asExpr?_lt he)]
  exact he

end Grows

/-! ### Nodes of values -/

/-- A statement of the program that no operation became. -/
def Auxiliary (s : LiftState) (i : Nat) : Prop :=
  i < s.program.stmts.size ∧ ∀ o, s.opStmt.get? o ≠ some (some i)

/-- An expression of the program that no operation became. -/
def AuxiliaryExpr (s : LiftState) (e : Nat) : Prop :=
  e < s.program.exprs.size ∧ s.Auxiliary (s.program.expr e).stmt

/-- The parameter `param` of a lifted function stands for the argument `v` of its entry block. -/
def ParamOf (g : Graph) (s : LiftState) (v : Value) (param : DeclId) : Prop :=
  ∃ f o b k d type params body locals, g.op? f = some o ∧ o.kind? = some .function ∧
    g.entry? o = some b ∧ v = .argument b k ∧ s.opDecl.get? f = some d ∧
    d < s.program.decls.size ∧ (s.program.decl d).kind = .function type params body locals ∧
    params[k]? = some param

/-- The declaration at file level of a function or variable with the given symbol. -/
def Named (g : Graph) (s : LiftState) (name : String) (d : DeclId) : Prop :=
  ∃ c o, g.op? c = some o ∧ (o.kind? = some .function ∨ o.kind? = some .var) ∧
    o.symbol? = some name ∧ s.opDecl.get? c = some d ∧ d < s.program.decls.size ∧
    (s.program.decl d).scope = .file

end LiftState

open LiftState

/-- `Res g s v e`: the expression `e` stands for the value `v`. It is the node that the operation
behind `v` became, or a reference to the declaration behind `v`. -/
inductive Res (g : Graph) (s : LiftState) : Value → ExprId → Prop where
  | node {d k e} (node : s.exprOf? d = some e) : Res g s (.result d k) e
  | decl {d k e x} (kind : g.kind? d = some .var ∨ g.kind? d = some .function)
      (noted : s.opDecl.get? d = some x) (known : e < s.program.exprs.size)
      (ref : (s.program.expr e).kind = .ref x) : Res g s (.result d k) e
  | param {v e x} (param : s.ParamOf g v x) (known : e < s.program.exprs.size)
      (ref : (s.program.expr e).kind = .ref x) : Res g s v e

/-- `Use g s v e`: the expression `e` stands for `v` at a place where `v` is used. Unless it is the
node of the operation behind `v`, it is there for this use only. -/
def Use (g : Graph) (s : LiftState) (v : Value) (e : ExprId) : Prop :=
  Res g s v e ∧ ((∃ d k, v = .result d k ∧ s.exprOf? d = some e) ∨ s.AuxiliaryExpr e)

/-- `Operand g s v x`: the expression `x` stands for `v` as an operand, possibly in parentheses. -/
def Operand (g : Graph) (s : LiftState) (v : Value) (x : ExprId) : Prop :=
  ∃ e, Use g s v e ∧ (x = e ∨ s.AuxiliaryExpr x ∧ (s.program.expr x).kind = .paren e)

/-! ### Nodes of regions -/

namespace LiftState

/-- All operations of the region have been lifted. -/
def Lifted (g : Graph) (s : LiftState) (r : RegionId) : Prop :=
  ∀ o ∈ g.regionOps r, ∃ l, s.opStmt.get? o = some l

/-- The statements that the operations of a region leave, in order. -/
def listed (g : Graph) (s : LiftState) (r : RegionId) : List StmtId :=
  (g.regionOps r).filterMap fun o => if g.elides o then none else s.stmtOf? o

/-- The statement is the sequence of what the operations of the region leave. -/
def CompoundOf (g : Graph) (s : LiftState) (r : RegionId) (i : StmtId) : Prop :=
  s.Lifted g r ∧ i < s.program.stmts.size ∧ (s.program.stmt i).kind = .compound (s.listed g r)

/-- The statement is the sequence of what the operations of the region leave, made for it. -/
def BranchOf (g : Graph) (s : LiftState) (r : RegionId) (i : StmtId) : Prop :=
  s.CompoundOf g r i ∧ s.Auxiliary i

/-- The expression is the node of the only yield of the region. -/
def YieldOf (g : Graph) (s : LiftState) (r : RegionId) (e : ExprId) : Prop :=
  s.Lifted g r ∧ ∃ y, (g.regionOps r).filter (Lift.isYield g) = [y] ∧ s.exprOf? y = some e

/-- The condition of a counting loop: none if the region is empty, else what it yields. -/
def ConditionOf (g : Graph) (s : LiftState) (r : RegionId) : Option ExprId → Prop
  | none => g.regionOps r = []
  | some e => g.regionOps r ≠ [] ∧ s.YieldOf g r e

/-- The expressions that operations became. -/
def Exprs (s : LiftState) : List OpId → List ExprId → Prop :=
  List.Forall₂ fun o e => s.exprOf? o = some e

/-- The increment of a counting loop: the node of the only operation of the region that is a yield
or an expression that nothing uses. -/
def IncrementOf (g : Graph) (s : LiftState) (r : RegionId) (inc : Option ExprId) : Prop :=
  s.Lifted g r ∧ s.Exprs ((g.regionOps r).filter (Lift.isYield g) ++
    (g.regionOps r).filter g.isLoose) inc.toList

end LiftState

/-! ### Nodes of operations -/

/-- `ExprNode g s o e`: the operation `o` became the expression `e`. -/
inductive ExprNode (g : Graph) (s : LiftState) (o : Operation) (e : ExprId) : Prop where
  | same {v} (kind : o.kind? = some .valueYield ∨ o.kind? = some .condYield ∨
      o.kind? = some .declRef) (operand : o.operands[0]? = some v) (res : Res g s v e)
  | wrapper {r y} (kind : o.kind? = some .expression) (region : o.regions.head? = some r)
      (lifted : s.Lifted g r) (yields : (g.regionOps r).filter (Lift.isYield g) = [y])
      (yield : g.kind? y = some .valueYield) (node : s.exprOf? y = some e)
  | symbol {attr sym d} (kind : o.kind? = some .functionRef ∧ attr = AttrName.callee ∨
      o.kind? = some .globalRef ∧ attr = AttrName.name) (name : o.textAttr? attr = some sym)
      (named : s.Named g sym d) (node : (s.program.expr e).kind = .ref d)
  | constant (kind : o.kind? = some .constant) (node : (s.program.expr e).kind.parts = [])
  | binary {op v w l r} (operator : o.binaryOp? = some op) (lhs : o.operands[0]? = some v)
      (rhs : o.operands[1]? = some w) (node : (s.program.expr e).kind = .binary op l r)
      (left : Operand g s v l) (right : Operand g s w r)
  | unary {op v x} (operator : o.unaryOp? = some op) (arg : o.operands[0]? = some v)
      (node : (s.program.expr e).kind = .unary op x) (operand : Operand g s v x)
  | cast {k c id v x} (style : o.castStyle? = some k)
      (conversion : o.attr? AttrName.kind = some (.conversion c))
      (result : o.resultTypes.head? = some id) (arg : o.operands[0]? = some v)
      (node : (s.program.expr e).kind = .cast k c x) (operand : Operand g s v x)
      (type : s.typeOf.get? id = some (s.program.expr e).type)
      (category : (s.program.expr e).category = .lvalue ↔
        (g.types.get? id).any Shape.isLvalue = true)
  | call {sym d f xs} (kind : o.kind? = some .call)
      (name : o.textAttr? AttrName.callee = some sym) (named : s.Named g sym d)
      (node : (s.program.expr e).kind = .call f xs) (own : s.AuxiliaryExpr f)
      (callee : (s.program.expr f).kind = .ref d) (args : List.Forall₂ (Operand g s) o.operands xs)
  | initList {id xs} (kind : o.kind? = some .initList) (result : o.resultTypes.head? = some id)
      (node : (s.program.expr e).kind = .initList xs)
      (elements : List.Forall₂ (Operand g s) o.operands xs)

/-- `StmtNode g s o i`: the operation `o` became the statement `i`, which is not an expression. -/
inductive StmtNode (g : Graph) (s : LiftState) (o : Operation) (i : StmtId) : Prop where
  | ifElse {rc ry c y n} (kind : o.kind? = some .ifStmt) (cond : o.regions[0]? = some rc)
      (yes : o.regions[1]? = some ry) (node : (s.program.stmt i).kind = .ifElse c y n)
      (condition : s.YieldOf g rc c) (branch : s.BranchOf g ry y)
      (other : Option.Rel (s.BranchOf g) (g.elseRegion? o) n)
  | whileLoop {rc rb c b} (kind : o.kind? = some .whileStmt) (cond : o.regions[0]? = some rc)
      (body : o.regions[1]? = some rb) (node : (s.program.stmt i).kind = .whileLoop c b)
      (condition : s.YieldOf g rc c) (branch : s.BranchOf g rb b)
  | doLoop {rc rb c b} (kind : o.kind? = some .doStmt) (body : o.regions[0]? = some rb)
      (cond : o.regions[1]? = some rc) (node : (s.program.stmt i).kind = .doLoop b c)
      (condition : s.YieldOf g rc c) (branch : s.BranchOf g rb b)
  | forLoop {rc ri rb c inc b} (kind : o.kind? = some .forStmt) (cond : o.regions[0]? = some rc)
      (increment : o.regions[1]? = some ri) (body : o.regions[2]? = some rb)
      (node : (s.program.stmt i).kind = .forLoop none c inc b)
      (condition : s.ConditionOf g rc c) (step : s.IncrementOf g ri inc)
      (branch : s.BranchOf g rb b)
  | scope {r} (kind : o.kind? = none) (name : o.name.text = Registry.scopeName)
      (region : o.regions[0]? = some r) (compound : s.CompoundOf g r i)
  | returns {value} (kind : o.kind? = some .returnStmt) (arity : o.operands.length ≤ 1)
      (node : (s.program.stmt i).kind = .returns value)
      (operand : Option.Rel (Use g s) o.operands.head? value)
  | leaf (kind : o.kind? = some .breakStmt ∧ (s.program.stmt i).kind = .breaks ∨
      o.kind? = some .continueStmt ∧ (s.program.stmt i).kind = .continues ∨
      o.kind? = some .skip ∧ (s.program.stmt i).kind = .empty)
  | declares {d} (kind : o.kind? = some .var ∨ o.kind? = some .record)
      (noted : s.opDecl.get? o.id = some d) (node : (s.program.stmt i).kind = .declares [d])

/-- `Silent g s o`: the operation `o` left no statement. -/
inductive Silent (g : Graph) (s : LiftState) (o : Operation) : Prop where
  | unit (kind : o.kind? = some .translationUnit) (lifted : ∀ r ∈ o.regions, s.Lifted g r)
  | decl {d} (kind : o.kind? = some .function ∨ o.kind? = some .var ∨ o.kind? = some .record)
      (noted : s.opDecl.get? o.id = some d)
  | name (kind : o.kind? = some .field ∨ o.kind? = some .typeAlias ∨ o.kind? = some .enumeration ∨
      o.kind? = some .enumerator)

/-- `Rooted g s id e`: the expression `e` of an operation was made by the operation itself, or by one
that it was passed on from. -/
inductive Rooted (g : Graph) (s : LiftState) : OpId → ExprId → Prop where
  | own {id o e} (op : g.op? id = some o) (node : s.exprOf? id = some e)
      (known : e < s.program.exprs.size)
      (own : g.passed o = [] ∨ (s.program.expr e).kind.parts = []) : Rooted g s id e
  | pass {id o d e} (op : g.op? id = some o) (node : s.exprOf? id = some e)
      (mem : d ∈ g.passed o) (root : Rooted g s d e) : Rooted g s id e

theorem Rooted.exprOf? {g : Graph} {s : LiftState} {id : OpId} {e : ExprId} (h : Rooted g s id e) :
    s.exprOf? id = some e := by
  cases h with
  | own _ node => exact node
  | pass _ node => exact node

/-- `Shown g s o r`: the operation `o` became `r`. -/
inductive Shown (g : Graph) (s : LiftState) (o : Operation) : Option StmtId → Prop where
  | expr {i e} (twin : s.program.asExpr? i = some e) (known : e < s.program.exprs.size)
      (node : ExprNode g s o e) (root : Rooted g s o.id e) : Shown g s o (some i)
  | stmt {i} (known : i < s.program.stmts.size) (node : StmtNode g s o i) : Shown g s o (some i)
  | silent (silent : Silent g s o) : Shown g s o none

/-! ### What an operation became stays -/

section Mono

theorem relImp {α β : Type} {R S : α → β → Prop} {x : Option α} {y : Option β}
    (h : Option.Rel R x y) (imp : ∀ a b, R a b → S a b) : Option.Rel S x y := by
  cases h with
  | none => exact .none
  | some h => exact .some (imp _ _ h)

variable {g : Graph} {n : Nat} {s t : LiftState}

namespace LiftState

theorem Auxiliary.mono {i : Nat} (h : s.Auxiliary i) (hg : Grows g n s t) : t.Auxiliary i := by
  refine ⟨Nat.lt_of_lt_of_le h.1 hg.program.stmts_size, fun o ho => ?_⟩
  obtain ⟨o', ho'⟩ := hg.fresh o i ho h.1
  exact h.2 o' ho'

theorem AuxiliaryExpr.mono {e : Nat} (h : s.AuxiliaryExpr e) (hg : Grows g n s t) :
    t.AuxiliaryExpr e := by
  refine ⟨Nat.lt_of_lt_of_le h.1 hg.program.exprs.1, ?_⟩
  rw [hg.expr h.1]
  exact h.2.mono hg

/-- A function keeps its parameters. -/
theorem Grows.function (hg : Grows g n s t) {d : Nat} (hd : d < s.program.decls.size)
    {type : QualType} {params : List DeclId} {body : Option StmtId} {locals : List DeclId}
    (h : (s.program.decl d).kind = .function type params body locals) :
    ∃ body' locals', (t.program.decl d).kind = .function type params body' locals' := by
  have hk := (hg.program.decls d hd).2
  rw [h] at hk
  cases hk' : (t.program.decl d).kind <;> rw [hk'] at hk <;> simp_all [DeclKind.settled]

theorem ParamOf.mono {v : Value} {x : DeclId} (h : s.ParamOf g v x) (hg : Grows g n s t) :
    t.ParamOf g v x := by
  obtain ⟨f, o, b, k, d, type, params, body, locals, ho, hk, hb, hv, hd, hlt, hkind, hx⟩ := h
  obtain ⟨body', locals', hkind'⟩ := hg.function hlt hkind
  refine ⟨f, o, b, k, d, type, params, body', locals', ho, hk, hb, hv, ?_,
    Nat.lt_of_lt_of_le hlt hg.program.decls_size, hkind', hx⟩
  exact hg.opDecl f d (by simp [Graph.kind?, ho, hk]) hd

theorem Named.mono {name : String} {d : DeclId} (h : s.Named g name d) (hg : Grows g n s t) :
    t.Named g name d := by
  obtain ⟨c, o, ho, hk, hname, hd, hlt, hscope⟩ := h
  refine ⟨c, o, ho, hk, hname, hg.opDecl c d ?_ hd, Nat.lt_of_lt_of_le hlt hg.program.decls_size,
    (hg.program.decls d hlt).1.trans hscope⟩
  obtain hk | hk := hk <;> simp [Graph.kind?, ho, hk]

theorem Lifted.mono {r : RegionId} (h : s.Lifted g r) (hg : Grows g n s t) : t.Lifted g r := by
  intro o ho
  obtain ⟨l, hl⟩ := h o ho
  exact ⟨l, hg.opStmt o l hl⟩

theorem Lifted.listed_eq {r : RegionId} (h : s.Lifted g r) (hg : Grows g n s t) :
    t.listed g r = s.listed g r := by
  unfold listed
  refine List.filterMap_congr fun o ho => ?_
  obtain ⟨l, hl⟩ := h o ho
  rw [stmtOf?, stmtOf?, hl, hg.opStmt o l hl]

theorem CompoundOf.mono {r : RegionId} {i : StmtId} (h : s.CompoundOf g r i)
    (hg : Grows g n s t) : t.CompoundOf g r i := by
  obtain ⟨hl, hi, hk⟩ := h
  refine ⟨hl.mono hg, Nat.lt_of_lt_of_le hi hg.program.stmts_size, ?_⟩
  rw [hg.stmt hi, hl.listed_eq hg]
  exact hk

theorem BranchOf.mono {r : RegionId} {i : StmtId} (h : s.BranchOf g r i) (hg : Grows g n s t) :
    t.BranchOf g r i := ⟨h.1.mono hg, h.2.mono hg⟩

theorem YieldOf.mono {r : RegionId} {e : ExprId} (h : s.YieldOf g r e) (hg : Grows g n s t) :
    t.YieldOf g r e := by
  obtain ⟨hl, y, hy, he⟩ := h
  exact ⟨hl.mono hg, y, hy, hg.exprOf? he⟩

theorem ConditionOf.mono {r : RegionId} {c : Option ExprId} (h : s.ConditionOf g r c)
    (hg : Grows g n s t) : t.ConditionOf g r c := by
  cases c with
  | none => exact h
  | some e => exact ⟨h.1, h.2.mono hg⟩

theorem Exprs.mono {ops : List OpId} {es : List ExprId} (h : s.Exprs ops es)
    (hg : Grows g n s t) : t.Exprs ops es := h.imp fun _ _ he => hg.exprOf? he

theorem IncrementOf.mono {r : RegionId} {inc : Option ExprId} (h : s.IncrementOf g r inc)
    (hg : Grows g n s t) : t.IncrementOf g r inc := ⟨h.1.mono hg, h.2.mono hg⟩

end LiftState

theorem Res.mono {v : Value} {e : ExprId} (h : Res g s v e) (hg : Grows g n s t) :
    Res g t v e := by
  cases h with
  | node node => exact .node (hg.exprOf? node)
  | @decl d k e x kind noted known ref =>
      refine .decl kind (hg.opDecl d x ?_ noted) (Nat.lt_of_lt_of_le known hg.program.exprs.1) ?_
      · obtain kind | kind := kind <;> simp [kind]
      · rw [hg.expr known]
        exact ref
  | param param known ref =>
      refine .param (param.mono hg) (Nat.lt_of_lt_of_le known hg.program.exprs.1) ?_
      rw [hg.expr known]
      exact ref

theorem Use.mono {v : Value} {e : ExprId} (h : Use g s v e) (hg : Grows g n s t) : Use g t v e := by
  obtain ⟨hres, ⟨d, k, hv, he⟩ | haux⟩ := h
  · exact ⟨hres.mono hg, .inl ⟨d, k, hv, hg.exprOf? he⟩⟩
  · exact ⟨hres.mono hg, .inr (haux.mono hg)⟩

theorem Operand.mono {v : Value} {x : ExprId} (h : Operand g s v x) (hg : Grows g n s t) :
    Operand g t v x := by
  obtain ⟨e, huse, rfl | ⟨haux, hk⟩⟩ := h
  · exact ⟨x, huse.mono hg, .inl rfl⟩
  · refine ⟨e, huse.mono hg, .inr ⟨haux.mono hg, ?_⟩⟩
    rw [hg.expr haux.1]
    exact hk

theorem ExprNode.mono {o : Operation} {e : ExprId} (h : ExprNode g s o e)
    (he : e < s.program.exprs.size) (hg : Grows g n s t) : ExprNode g t o e := by
  have hexpr := hg.expr he
  have operands : ∀ {vs : List Value} {xs : List ExprId}, List.Forall₂ (Operand g s) vs xs →
      List.Forall₂ (Operand g t) vs xs := fun h => h.imp fun _ _ h => h.mono hg
  cases h with
  | same kind operand res => exact .same kind operand (res.mono hg)
  | wrapper kind region lifted yields yield node =>
      exact .wrapper kind region (lifted.mono hg) yields yield (hg.exprOf? node)
  | symbol kind name named node => exact .symbol kind name (named.mono hg) (hexpr ▸ node)
  | constant kind node => exact .constant kind (hexpr ▸ node)
  | binary operator lhs rhs node left right =>
      exact .binary operator lhs rhs (hexpr ▸ node) (left.mono hg) (right.mono hg)
  | unary operator arg node operand => exact .unary operator arg (hexpr ▸ node) (operand.mono hg)
  | @cast k c id v x style conversion result arg node operand type category =>
      refine .cast style conversion result arg (hexpr ▸ node) (operand.mono hg) ?_ ?_
      · rw [hexpr]
        exact hg.typeOf id _ type
      · rw [hexpr]
        exact category
  | call kind name named node own callee args =>
      refine .call kind name (named.mono hg) (hexpr ▸ node) (own.mono hg) ?_ (operands args)
      rw [hg.expr own.1]
      exact callee
  | initList kind result node elements =>
      exact .initList kind result (hexpr ▸ node) (operands elements)

/-- The declaration of an operation other than a field stays. -/
theorem LiftState.Grows.noted (hg : Grows g n s t) {o : Operation} (ho : g.op? o.id = some o)
    (hk : o.kind? ≠ some .field) {d : DeclId} (hd : s.opDecl.get? o.id = some d) :
    t.opDecl.get? o.id = some d := hg.opDecl o.id d (by simpa [Graph.kind?, ho] using hk) hd

theorem StmtNode.mono {o : Operation} {i : StmtId} (h : StmtNode g s o i)
    (ho : g.op? o.id = some o) (hi : i < s.program.stmts.size) (hg : Grows g n s t) :
    StmtNode g t o i := by
  have hstmt := hg.stmt hi
  cases h with
  | ifElse kind cond yes node condition branch other =>
      exact .ifElse kind cond yes (hstmt ▸ node) (condition.mono hg) (branch.mono hg)
        (relImp other fun _ _ h => h.mono hg)
  | whileLoop kind cond body node condition branch =>
      exact .whileLoop kind cond body (hstmt ▸ node) (condition.mono hg) (branch.mono hg)
  | doLoop kind body cond node condition branch =>
      exact .doLoop kind body cond (hstmt ▸ node) (condition.mono hg) (branch.mono hg)
  | forLoop kind cond increment body node condition step branch =>
      exact .forLoop kind cond increment body (hstmt ▸ node) (condition.mono hg) (step.mono hg)
        (branch.mono hg)
  | scope kind name region compound => exact .scope kind name region (compound.mono hg)
  | returns kind arity node operand =>
      exact .returns kind arity (hstmt ▸ node) (relImp operand fun _ _ h => h.mono hg)
  | leaf kind => exact .leaf (hstmt ▸ kind)
  | declares kind noted node =>
      refine .declares kind (hg.noted ho ?_ noted) (hstmt ▸ node)
      obtain kind | kind := kind <;> simp [kind]

theorem Silent.mono {o : Operation} (h : Silent g s o) (ho : g.op? o.id = some o)
    (hg : Grows g n s t) : Silent g t o := by
  cases h with
  | unit kind lifted => exact .unit kind fun r hr => (lifted r hr).mono hg
  | decl kind noted =>
      refine .decl kind (hg.noted ho ?_ noted)
      obtain kind | kind | kind := kind <;> simp [kind]
  | name kind => exact .name kind

theorem Rooted.mono {o : OpId} {e : ExprId} (h : Rooted g s o e) (hg : Grows g n s t) :
    Rooted g t o e := by
  induction h with
  | own op node known own =>
      refine .own op (hg.exprOf? node) (Nat.lt_of_lt_of_le known hg.program.exprs.1) ?_
      rw [hg.expr known]
      exact own
  | pass op node mem _ ih => exact .pass op (hg.exprOf? node) mem ih

theorem Shown.mono {o : Operation} {r : Option StmtId} (h : Shown g s o r)
    (ho : g.op? o.id = some o) (hg : Grows g n s t) : Shown g t o r := by
  cases h with
  | expr twin known node root =>
      refine .expr ?_ (Nat.lt_of_lt_of_le known hg.program.exprs.1) (node.mono known hg)
        (root.mono hg)
      rw [hg.asExpr? (asExpr?_lt twin)]
      exact twin
  | stmt known node =>
      exact .stmt (Nat.lt_of_lt_of_le known hg.program.stmts_size) (node.mono ho known hg)
  | silent silent => exact .silent (silent.mono ho hg)

end Mono

/-! ### Expressions and statements apart -/

section Apart

variable {g : Graph} {s : LiftState} {o : Operation}

theorem ExprNode.isExpr {e : ExprId} (h : ExprNode g s o e) : o.kind?.any Kind.isExpr = true := by
  cases h with
  | same kind => obtain kind | kind | kind := kind <;> simp [kind, Kind.isExpr]
  | wrapper kind => simp [kind, Kind.isExpr]
  | symbol kind => obtain ⟨kind, -⟩ | ⟨kind, -⟩ := kind <;> simp [kind, Kind.isExpr]
  | constant kind => simp [kind, Kind.isExpr]
  | binary operator =>
      unfold Operation.binaryOp? at operator
      cases hk : o.kind? with
      | none => simp [hk] at operator
      | some k => cases k <;> simp_all [Kind.isExpr, Kind.binaryOp?]
  | unary operator =>
      unfold Operation.unaryOp? at operator
      cases hk : o.kind? with
      | none => simp [hk] at operator
      | some k => cases k <;> simp_all [Kind.isExpr, Kind.unaryOp?]
  | cast style =>
      unfold Operation.castStyle? at style
      cases hk : o.kind? with
      | none => simp [hk] at style
      | some k => cases k <;> simp_all [Kind.isExpr]
  | call kind => simp [kind, Kind.isExpr]
  | initList kind => simp [kind, Kind.isExpr]

/-- The node of a yield is that of its operand. -/
theorem ExprNode.of_yield {e : ExprId} (h : ExprNode g s o e) (hk : o.kind? = some .valueYield) :
    ∃ v, o.operands[0]? = some v ∧ Res g s v e := by
  cases h with
  | same _ operand res => exact ⟨_, operand, res⟩
  | binary operator => simp [Operation.binaryOp?, hk, Kind.binaryOp?] at operator
  | unary operator => simp [Operation.unaryOp?, hk, Kind.unaryOp?] at operator
  | cast style => simp [Operation.castStyle?, hk] at style
  | symbol kind => simp [hk] at kind
  | wrapper kind => simp [hk] at kind
  | constant kind => simp [hk] at kind
  | call kind => simp [hk] at kind
  | initList kind => simp [hk] at kind

/-- A wrapper is the node of the yield of its region. -/
theorem ExprNode.of_wrapper {e : ExprId} (h : ExprNode g s o e) (hk : o.kind? = some .expression) :
    ∃ r y, o.regions.head? = some r ∧ s.Lifted g r ∧
      (g.regionOps r).filter (Lift.isYield g) = [y] ∧ s.exprOf? y = some e := by
  cases h with
  | wrapper _ region lifted yields _ node => exact ⟨_, _, region, lifted, yields, node⟩
  | same kind => simp [hk] at kind
  | binary operator => simp [Operation.binaryOp?, hk, Kind.binaryOp?] at operator
  | unary operator => simp [Operation.unaryOp?, hk, Kind.unaryOp?] at operator
  | cast style => simp [Operation.castStyle?, hk] at style
  | symbol kind => simp [hk] at kind
  | constant kind => simp [hk] at kind
  | call kind => simp [hk] at kind
  | initList kind => simp [hk] at kind

theorem asExpr?_of_kind {p : Program} {i : Nat} (h : (p.stmt i).kind.expr? = none) :
    p.asExpr? i = none := by
  rw [Program.asExpr?_eq]
  rw [Program.stmt] at h
  cases hs : p.stmts[i]? with
  | none => rfl
  | some x => simpa [hs] using h

theorem StmtNode.not_expr {i : StmtId} (h : StmtNode g s o i) :
    s.program.asExpr? i = none ∧ o.kind?.any Kind.isExpr = false := by
  cases h with
  | ifElse kind _ _ node => exact ⟨asExpr?_of_kind (by rw [node]; rfl), by simp [kind, Kind.isExpr]⟩
  | whileLoop kind _ _ node =>
      exact ⟨asExpr?_of_kind (by rw [node]; rfl), by simp [kind, Kind.isExpr]⟩
  | doLoop kind _ _ node => exact ⟨asExpr?_of_kind (by rw [node]; rfl), by simp [kind, Kind.isExpr]⟩
  | forLoop kind _ _ _ node =>
      exact ⟨asExpr?_of_kind (by rw [node]; rfl), by simp [kind, Kind.isExpr]⟩
  | scope kind _ _ compound =>
      exact ⟨asExpr?_of_kind (by rw [compound.2.2]; rfl), by simp [kind]⟩
  | returns kind _ node => exact ⟨asExpr?_of_kind (by rw [node]; rfl), by simp [kind, Kind.isExpr]⟩
  | leaf kind =>
      obtain ⟨kind, node⟩ | ⟨kind, node⟩ | ⟨kind, node⟩ := kind <;>
        exact ⟨asExpr?_of_kind (by rw [node]; rfl), by simp [kind, Kind.isExpr]⟩
  | declares kind _ node =>
      refine ⟨asExpr?_of_kind (by rw [node]; rfl), ?_⟩
      obtain kind | kind := kind <;> simp [kind, Kind.isExpr]

theorem Silent.not_expr (h : Silent g s o) : o.kind?.any Kind.isExpr = false := by
  cases h with
  | unit kind => simp [kind, Kind.isExpr]
  | decl kind => obtain kind | kind | kind := kind <;> simp [kind, Kind.isExpr]
  | name kind => obtain kind | kind | kind | kind := kind <;> simp [kind, Kind.isExpr]

/-- An operation became an expression if and only if its kind says so. -/
theorem Shown.asExpr?_isSome {r : Option StmtId} (h : Shown g s o r) :
    (r.bind s.program.asExpr?).isSome = o.kind?.any Kind.isExpr := by
  cases h with
  | expr twin _ node => rw [Option.bind_some, twin, node.isExpr]; rfl
  | stmt _ node => rw [Option.bind_some, node.not_expr.1, node.not_expr.2]; rfl
  | silent silent => rw [silent.not_expr]; rfl

/-- Whether an operation is elided can be told from the graph. -/
theorem Shown.isElided_eq {op : OpId} {i : StmtId} (ho : g.op? op = some o)
    (h : Shown g s o (some i)) : isElided g s.program op i = g.elides op := by
  have hkind : g.kind? op = o.kind? := by simp [Graph.kind?, ho]
  unfold isElided Graph.elides Graph.isExpr
  rw [show (s.program.asExpr? i).isSome = _ from h.asExpr?_isSome, hkind]
  cases hk : o.kind? with
  | none => simp
  | some k =>
      by_cases hx : k = .expression
      · subst hx
        simp [Kind.isExpr]
      · simp [beq_eq_false_iff_ne.mpr hx]

end Apart

end Readback
