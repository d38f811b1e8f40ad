import Readback.Proofs.Program.Alike

/-! # Paired programs

Two programs that were built in different orders have the same nodes under different numbers. A
`Pairing` says which node of one is which node of the other, and `Program.Matched` that paired nodes are
indeed the same, down to what they refer to.

* Sameness of single nodes is spelled out for each sort: `Expr.Paired`, `StmtKind.Paired`,
  `Decl.Headed`. Each of them looks at one level, and asks that what the node refers to is paired. Types
  are compared by the types of C that they denote, since they may have different ids too.
* Declarations are completed later, so two may be the same by their heads only (`Decl.Headed`); those
  that are to be the same in full are (`DeclKind.Filled`). `Program.Matched` takes the declarations that
  need not be so as a parameter: they are apart for the time being.
* `Program.Continues` is how a program goes on: nodes stay, save that declarations that are free may be
  completed. Nothing of a match is lost when both programs go on (`Matched.expr_later`,
  `Matched.stmt_later`, `Matched.decl_later`), where what one side completes is apart from then on
  (`Matched.later`).
* Programs that match along two pairings match along both if each has in full what is apart in the other
  (`Matched.join`). That is how what two parties have built is put together.

Nodes that two programs gain side by side are paired in their order: `along` pairs the next ones one by
one, and `Pairing.along` does so for all sorts of nodes. -/

namespace Readback

/-- Which declarations, expressions and statements of two programs are paired. -/
structure Pairing where
  decl : DeclId → DeclId → Prop
  expr : ExprId → ExprId → Prop
  stmt : StmtId → StmtId → Prop

/-- What is paired in `ρ` is paired in `σ`. -/
structure Pairing.Within (ρ σ : Pairing) : Prop where
  decl {d d'} : ρ.decl d d' → σ.decl d d'
  expr {e e'} : ρ.expr e e' → σ.expr e e'
  stmt {s s'} : ρ.stmt s s' → σ.stmt s s'

/-- What is paired in one of them. -/
def Pairing.join (ρ σ : Pairing) : Pairing where
  decl d d' := ρ.decl d d' ∨ σ.decl d d'
  expr e e' := ρ.expr e e' ∨ σ.expr e e'
  stmt s s' := ρ.stmt s s' ∨ σ.stmt s s'

theorem Pairing.within_join (ρ σ : Pairing) : ρ.Within (ρ.join σ) := ⟨.inl, .inl, .inl⟩

theorem Pairing.within_join_right (ρ σ : Pairing) : σ.Within (ρ.join σ) := ⟨.inr, .inr, .inr⟩

variable {ρ σ : Pairing} {a b a' b' : TypeArena}

/-! ### Paired nodes -/

/-- The same level of an expression over paired parts. -/
inductive ExprKind.Paired (ρ : Pairing) : ExprKind → ExprKind → Prop where
  | integer (value : Int) : Paired ρ (.integer value) (.integer value)
  | floating (value : Binary64) : Paired ρ (.floating value) (.floating value)
  | text (value : String) : Paired ρ (.text value) (.text value)
  | ref {d d' : DeclId} (h : ρ.decl d d') : Paired ρ (.ref d) (.ref d')
  | paren {e e' : ExprId} (h : ρ.expr e e') : Paired ρ (.paren e) (.paren e')
  | unary (op : UnaryOp) {e e' : ExprId} (h : ρ.expr e e') : Paired ρ (.unary op e) (.unary op e')
  | binary (op : BinaryOp) {l l' r r' : ExprId} (hl : ρ.expr l l') (hr : ρ.expr r r') :
      Paired ρ (.binary op l r) (.binary op l' r')
  | cast (style : CastStyle) (c : Conversion) {e e' : ExprId} (h : ρ.expr e e') :
      Paired ρ (.cast style c e) (.cast style c e')
  | initList {es es' : List ExprId} (h : List.Forall₂ ρ.expr es es') :
      Paired ρ (.initList es) (.initList es')
  | call {f f' : ExprId} {es es' : List ExprId} (h : ρ.expr f f') (hs : List.Forall₂ ρ.expr es es') :
      Paired ρ (.call f es) (.call f' es')

/-- The same expression: its level, type and category. -/
structure Expr.Paired (ρ : Pairing) (a b : TypeArena) (x x' : Expr) : Prop where
  kind : x.kind.Paired ρ x'.kind
  type : a.Alike b x.type x'.type
  category : x.category = x'.category
  stmt : ρ.stmt x.stmt x'.stmt

/-- The same statement over paired parts. Loops have no initial part, and declarations come one by
one. -/
inductive StmtKind.Paired (ρ : Pairing) : StmtKind → StmtKind → Prop where
  | compound {xs xs' : List StmtId} (h : List.Forall₂ ρ.stmt xs xs') :
      Paired ρ (.compound xs) (.compound xs')
  | returns {e e' : Option ExprId} (h : Option.Rel ρ.expr e e') : Paired ρ (.returns e) (.returns e')
  | ifElse {c c' : ExprId} {y y' : StmtId} {n n' : Option StmtId} (hc : ρ.expr c c')
      (hy : ρ.stmt y y') (hn : Option.Rel ρ.stmt n n') : Paired ρ (.ifElse c y n) (.ifElse c' y' n')
  | whileLoop {c c' : ExprId} {s s' : StmtId} (hc : ρ.expr c c') (hs : ρ.stmt s s') :
      Paired ρ (.whileLoop c s) (.whileLoop c' s')
  | doLoop {c c' : ExprId} {s s' : StmtId} (hs : ρ.stmt s s') (hc : ρ.expr c c') :
      Paired ρ (.doLoop s c) (.doLoop s' c')
  | forLoop {c c' i i' : Option ExprId} {s s' : StmtId} (hc : Option.Rel ρ.expr c c')
      (hi : Option.Rel ρ.expr i i') (hs : ρ.stmt s s') :
      Paired ρ (.forLoop none c i s) (.forLoop none c' i' s')
  | breaks : Paired ρ .breaks .breaks
  | continues : Paired ρ .continues .continues
  | empty : Paired ρ .empty .empty
  | declares {d d' : DeclId} (h : ρ.decl d d') : Paired ρ (.declares [d]) (.declares [d'])
  | expr {e e' : ExprId} (h : ρ.expr e e') : Paired ρ (.expr e) (.expr e')

/-- Declarations of the same sort with alike types. -/
inductive DeclKind.Headed (a b : TypeArena) : DeclKind → DeclKind → Prop where
  | function {t t' : QualType} (h : a.Alike b t t') (ps ps' : List DeclId) (s s' : Option StmtId)
      (ls ls' : List DeclId) : Headed a b (.function t ps s ls) (.function t' ps' s' ls')
  | param {t t' : QualType} (h : a.Alike b t t') (index index' : Nat) :
      Headed a b (.param t index) (.param t' index')
  | var {t t' : QualType} (h : a.Alike b t t') (e e' : Option ExprId) (storage : Storage) :
      Headed a b (.var t e storage) (.var t' e' storage)
  | record (fs fs' : List DeclId) : Headed a b (.record fs) (.record fs')
  | field {t t' : QualType} (h : a.Alike b t t') (index index' : Nat) :
      Headed a b (.field t index) (.field t' index')

/-- Declarations with the same name, sort and type. -/
structure Decl.Headed (a b : TypeArena) (d d' : Decl) : Prop where
  name : d.name = d'.name
  kind : d.kind.Headed a b d'.kind

/-- The same parts that are set after a declaration was made. -/
inductive DeclKind.Filled (ρ : Pairing) : DeclKind → DeclKind → Prop where
  | function (t t' : QualType) {ps ps' : List DeclId} {s s' : Option StmtId}
      (hps : List.Forall₂ ρ.decl ps ps') (hs : Option.Rel ρ.stmt s s') (ls ls' : List DeclId) :
      Filled ρ (.function t ps s ls) (.function t' ps' s' ls')
  | param (t t' : QualType) (index index' : Nat) : Filled ρ (.param t index) (.param t' index')
  | var (t t' : QualType) {e e' : Option ExprId} (he : Option.Rel ρ.expr e e')
      (storage storage' : Storage) : Filled ρ (.var t e storage) (.var t' e' storage')
  | record {fs fs' : List DeclId} (h : List.Forall₂ ρ.decl fs fs') :
      Filled ρ (.record fs) (.record fs')
  | field (t t' : QualType) (index index' : Nat) : Filled ρ (.field t index) (.field t' index')

/-- The same scope: file level, if `file` holds, or functions that `own` relates. -/
def Scope.Paired (file : Prop) (own : DeclId → DeclId → Prop) : Scope → Scope → Prop
  | .file, .file => file
  | .function f, .function f' => own f f'
  | _, _ => False

/-! ### Larger pairings -/

theorem Pairing.Within.refl (ρ : Pairing) : ρ.Within ρ := ⟨id, id, id⟩

theorem Pairing.Within.trans {τ : Pairing} (h : ρ.Within σ) (h' : σ.Within τ) : ρ.Within τ :=
  ⟨h'.decl ∘ h.decl, h'.expr ∘ h.expr, h'.stmt ∘ h.stmt⟩

/-- Values that are there are related in a larger relation if they are in a smaller one. -/
theorem optionRel_imp {α β : Type} {R S : α → β → Prop} (h : ∀ {x y}, R x y → S x y) {x : Option α}
    {y : Option β} (hxy : Option.Rel R x y) : Option.Rel S x y := by
  cases hxy with
  | none => exact .none
  | some hr => exact .some (h hr)

section Mono

variable (h : ρ.Within σ)

include h

theorem ExprKind.Paired.mono {k k' : ExprKind} (hk : k.Paired ρ k') : k.Paired σ k' := by
  cases hk with
  | integer value => exact .integer value
  | floating value => exact .floating value
  | text value => exact .text value
  | ref hd => exact .ref (h.decl hd)
  | paren he => exact .paren (h.expr he)
  | unary op he => exact .unary op (h.expr he)
  | binary op hl hr => exact .binary op (h.expr hl) (h.expr hr)
  | cast style c he => exact .cast style c (h.expr he)
  | initList hes => exact .initList (hes.imp fun _ _ => h.expr)
  | call hf hes => exact .call (h.expr hf) (hes.imp fun _ _ => h.expr)

theorem Expr.Paired.mono {x x' : Expr} (hx : x.Paired ρ a b x') (ha : a.Within a')
    (hb : b.Within b') : x.Paired σ a' b' x' :=
  ⟨hx.kind.mono h, hx.type.mono ha hb, hx.category, h.stmt hx.stmt⟩

theorem StmtKind.Paired.mono {k k' : StmtKind} (hk : k.Paired ρ k') : k.Paired σ k' := by
  cases hk with
  | compound hxs => exact .compound (hxs.imp fun _ _ => h.stmt)
  | returns he => exact .returns (optionRel_imp h.expr he)
  | ifElse hc hy hn => exact .ifElse (h.expr hc) (h.stmt hy) (optionRel_imp h.stmt hn)
  | whileLoop hc hs => exact .whileLoop (h.expr hc) (h.stmt hs)
  | doLoop hs hc => exact .doLoop (h.stmt hs) (h.expr hc)
  | forLoop hc hi hs =>
      exact .forLoop (optionRel_imp h.expr hc) (optionRel_imp h.expr hi) (h.stmt hs)
  | breaks => exact .breaks
  | continues => exact .continues
  | empty => exact .empty
  | declares hd => exact .declares (h.decl hd)
  | expr he => exact .expr (h.expr he)

theorem DeclKind.Filled.mono {k k' : DeclKind} (hk : k.Filled ρ k') : k.Filled σ k' := by
  cases hk with
  | function t t' hps hs ls ls' =>
      exact .function t t' (hps.imp fun _ _ => h.decl) (optionRel_imp h.stmt hs) ls ls'
  | param t t' i i' => exact .param t t' i i'
  | var t t' he st st' => exact .var t t' (optionRel_imp h.expr he) st st'
  | record hfs => exact .record (hfs.imp fun _ _ => h.decl)
  | field t t' i i' => exact .field t t' i i'

end Mono

/-- The sort of a declaration is all that its head says. -/
theorem DeclKind.Headed.congr {k k' l l' : DeclKind} (h : k.Headed a b k') (hk : l.sort = k.sort)
    (hk' : l'.sort = k'.sort) (ha : a.Within a') (hb : b.Within b') : l.Headed a' b' l' := by
  cases h with
  | function h =>
      cases l <;> cases hk
      cases l' <;> cases hk'
      exact .function (h.mono ha hb) ..
  | param h =>
      cases l <;> cases hk
      cases l' <;> cases hk'
      exact .param (h.mono ha hb) ..
  | var h =>
      cases l <;> cases hk
      cases l' <;> cases hk'
      exact .var (h.mono ha hb) ..
  | record =>
      cases l <;> cases hk
      cases l' <;> cases hk'
      exact .record ..
  | field h =>
      cases l <;> cases hk
      cases l' <;> cases hk'
      exact .field (h.mono ha hb) ..

theorem Scope.Paired.mono {file file' : Prop} {own own' : DeclId → DeclId → Prop} {sc sc' : Scope}
    (h : sc.Paired file own sc') (hfile : file → file') (hown : ∀ {d d'}, own d d' → own' d d') :
    sc.Paired file' own' sc' := by
  match sc, sc', h with
  | .file, .file, h => exact hfile h
  | .function _, .function _, h => exact hown h

/-! ### Programs -/

namespace Program

/-- The program goes on as `q`: nodes stay, save that declarations that are `free` may be completed. -/
structure Continues (free : DeclId → Prop) (p q : Program) : Prop where
  target : q.target = p.target
  types : p.types.Within q.types
  exprs : p.ExprsGrow q
  stmts_size : p.stmts.size ≤ q.stmts.size
  stmts : ∀ s : Nat, s < p.stmts.size → q.stmt s = p.stmt s
  decls_size : p.decls.size ≤ q.decls.size
  heads : ∀ d : Nat, d < p.decls.size → (q.decl d).name = (p.decl d).name ∧
    (q.decl d).kind.sort = (p.decl d).kind.sort
  decls : ∀ d : Nat, d < p.decls.size → ¬ free d → q.decl d = p.decl d

/-- Paired nodes are the same, and declarations that are not `apart` are so in full. -/
structure Matched (ρ : Pairing) (apart : DeclId → DeclId → Prop) (p q : Program) : Prop where
  target : q.target = p.target
  distinct : p.types.Distinct ∧ q.types.Distinct
  recordless : p.types.Recordless ∧ q.types.Recordless
  ordered : p.Ordered ∧ q.Ordered
  expr {e e'} : ρ.expr e e' → e < p.exprs.size ∧ e' < q.exprs.size ∧
    (p.expr e).Paired ρ p.types q.types (q.expr e')
  stmt {s s'} : ρ.stmt s s' → s < p.stmts.size ∧ s' < q.stmts.size ∧
    (p.stmt s).kind.Paired ρ (q.stmt s').kind
  decl {d d'} : ρ.decl d d' → d < p.decls.size ∧ d' < q.decls.size ∧
    (p.decl d).Headed p.types q.types (q.decl d')
  filled {d d'} : ρ.decl d d' → ¬ apart d d' → (p.decl d).kind.Filled ρ (q.decl d').kind
  unique {d d' x x'} : ρ.decl d d' → ρ.decl x x' → (d = x ↔ d' = x')

variable {p q p' q' r : Program} {free free' : DeclId → Prop} {apart : DeclId → DeclId → Prop}

theorem Continues.refl (free : DeclId → Prop) (p : Program) : p.Continues free p :=
  ⟨rfl, .refl _, .of_eq rfl, Nat.le_refl _, fun _ _ => rfl, Nat.le_refl _, fun _ _ => ⟨rfl, rfl⟩,
    fun _ _ _ => rfl⟩

theorem Continues.trans (h : p.Continues free q) (h' : q.Continues free r) : p.Continues free r where
  target := h'.target.trans h.target
  types := h.types.trans h'.types
  exprs := h.exprs.trans h'.exprs
  stmts_size := Nat.le_trans h.stmts_size h'.stmts_size
  stmts s hs := (h'.stmts s (Nat.lt_of_lt_of_le hs h.stmts_size)).trans (h.stmts s hs)
  decls_size := Nat.le_trans h.decls_size h'.decls_size
  heads d hd := by
    have hq := h'.heads d (Nat.lt_of_lt_of_le hd h.decls_size)
    exact ⟨hq.1.trans (h.heads d hd).1, hq.2.trans (h.heads d hd).2⟩
  decls d hd hfree :=
    (h'.decls d (Nat.lt_of_lt_of_le hd h.decls_size) hfree).trans (h.decls d hd hfree)

section Later

variable (h : p.Matched ρ apart q) (hp : p.Continues free p') (hq : q.Continues free' q')
  (hρ : ρ.Within σ)

include h hp hq hρ

theorem Matched.expr_later {e e' : ExprId} (he : ρ.expr e e') :
    e < p'.exprs.size ∧ e' < q'.exprs.size ∧ (p'.expr e).Paired σ p'.types q'.types (q'.expr e') := by
  obtain ⟨hlt, hlt', hpaired⟩ := h.expr he
  rw [hp.exprs.2 e hlt, hq.exprs.2 e' hlt']
  exact ⟨Nat.lt_of_lt_of_le hlt hp.exprs.1, Nat.lt_of_lt_of_le hlt' hq.exprs.1,
    hpaired.mono hρ hp.types hq.types⟩

theorem Matched.stmt_later {s s' : StmtId} (hs : ρ.stmt s s') :
    s < p'.stmts.size ∧ s' < q'.stmts.size ∧ (p'.stmt s).kind.Paired σ (q'.stmt s').kind := by
  obtain ⟨hlt, hlt', hpaired⟩ := h.stmt hs
  rw [hp.stmts s hlt, hq.stmts s' hlt']
  exact ⟨Nat.lt_of_lt_of_le hlt hp.stmts_size, Nat.lt_of_lt_of_le hlt' hq.stmts_size,
    hpaired.mono hρ⟩

omit hρ in
theorem Matched.decl_later {d d' : DeclId} (hd : ρ.decl d d') :
    d < p'.decls.size ∧ d' < q'.decls.size ∧ (p'.decl d).Headed p'.types q'.types (q'.decl d') := by
  obtain ⟨hlt, hlt', hname, hkind⟩ := h.decl hd
  obtain ⟨hn, hs⟩ := hp.heads d hlt
  obtain ⟨hn', hs'⟩ := hq.heads d' hlt'
  exact ⟨Nat.lt_of_lt_of_le hlt hp.decls_size, Nat.lt_of_lt_of_le hlt' hq.decls_size,
    hn.trans (hname.trans hn'.symm), hkind.congr hs hs' hp.types hq.types⟩

/-- Declarations that neither side completes stay the same in full. -/
theorem Matched.filled_later {d d' : DeclId} (hd : ρ.decl d d') (hapart : ¬ apart d d')
    (hfree : ¬ free d) (hfree' : ¬ free' d') : (p'.decl d).kind.Filled σ (q'.decl d').kind := by
  obtain ⟨hlt, hlt', -⟩ := h.decl hd
  rw [hp.decls d hlt hfree, hq.decls d' hlt' hfree']
  exact (h.filled hd hapart).mono hρ

end Later

/-- Programs that match go on to match, where what one side completes is apart from then on. -/
theorem Matched.later {apart' : DeclId → DeclId → Prop} (h : p.Matched ρ apart q)
    (hp : p.Continues free p') (hq : q.Continues free' q')
    (distinct : p'.types.Distinct ∧ q'.types.Distinct)
    (recordless : p'.types.Recordless ∧ q'.types.Recordless) (ordered : p'.Ordered ∧ q'.Ordered)
    (hfree : ∀ {d d'}, ρ.decl d d' → ¬ apart' d d' → ¬ apart d d' ∧ ¬ free d ∧ ¬ free' d') :
    p'.Matched ρ apart' q' where
  target := hq.target.trans (h.target.trans hp.target.symm)
  distinct := distinct
  recordless := recordless
  ordered := ordered
  expr := h.expr_later hp hq (.refl ρ)
  stmt := h.stmt_later hp hq (.refl ρ)
  decl := h.decl_later hp hq
  filled hd hapart :=
    h.filled_later hp hq (.refl ρ) hd (hfree hd hapart).1 (hfree hd hapart).2.1 (hfree hd hapart).2.2
  unique := h.unique

/-- Programs that match along two pairings match along both if each has in full what is apart in the
other. -/
theorem Matched.join {apart' : DeclId → DeclId → Prop} (h : p.Matched ρ apart q)
    (h' : p.Matched σ apart' q)
    (left : ∀ {d d'}, ρ.decl d d' → apart d d' → σ.decl d d' ∧ ¬ apart' d d')
    (right : ∀ {d d'}, σ.decl d d' → apart' d d' → ρ.decl d d' ∧ ¬ apart d d')
    (unique : ∀ {d d' x x'}, ρ.decl d d' → σ.decl x x' → (d = x ↔ d' = x')) :
    p.Matched (ρ.join σ) (fun _ _ => False) q where
  target := h.target
  distinct := h.distinct
  recordless := h.recordless
  ordered := h.ordered
  expr he := he.elim
    (fun he => ⟨(h.expr he).1, (h.expr he).2.1,
      (h.expr he).2.2.mono (ρ.within_join σ) (.refl _) (.refl _)⟩)
    fun he => ⟨(h'.expr he).1, (h'.expr he).2.1,
      (h'.expr he).2.2.mono (ρ.within_join_right σ) (.refl _) (.refl _)⟩
  stmt hs := hs.elim
    (fun hs => ⟨(h.stmt hs).1, (h.stmt hs).2.1, (h.stmt hs).2.2.mono (ρ.within_join σ)⟩)
    fun hs => ⟨(h'.stmt hs).1, (h'.stmt hs).2.1, (h'.stmt hs).2.2.mono (ρ.within_join_right σ)⟩
  decl hd := hd.elim h.decl h'.decl
  filled {d d'} hd _ := by
    by_cases hapart : apart d d' ∧ ρ.decl d d'
    · obtain ⟨hσ, hnot⟩ := left hapart.2 hapart.1
      exact (h'.filled hσ hnot).mono (ρ.within_join_right σ)
    · obtain hd | hd := hd
      · exact (h.filled hd fun ha => hapart ⟨ha, hd⟩).mono (ρ.within_join σ)
      · by_cases hapart' : apart' d d'
        · obtain ⟨hρ, hnot⟩ := right hd hapart'
          exact (h.filled hρ hnot).mono (ρ.within_join σ)
        · exact (h'.filled hd hapart').mono (ρ.within_join_right σ)
  unique hd hx := by
    obtain hd | hd := hd <;> obtain hx | hx := hx
    · exact h.unique hd hx
    · exact unique hd hx
    · exact ⟨fun heq => ((unique hx hd).mp heq.symm).symm,
        fun heq => ((unique hx hd).mpr heq.symm).symm⟩
    · exact h'.unique hd hx

/-- Expressions that are paired with the same are made of parts that were there before. -/
theorem Matched.parts_lt (h : p.Matched ρ apart q) {k k' : ExprKind} (hk : k.Paired ρ k') :
    (∀ x ∈ k.parts, x < p.exprs.size) ∧ ∀ x ∈ k'.parts, x < q.exprs.size := by
  have one {e e' : ExprId} (he : ρ.expr e e') : e < p.exprs.size ∧ e' < q.exprs.size :=
    ⟨(h.expr he).1, (h.expr he).2.1⟩
  have all {es es' : List ExprId} (hes : List.Forall₂ ρ.expr es es') :
      (∀ e ∈ es, e < p.exprs.size) ∧ ∀ e ∈ es', e < q.exprs.size := by
    induction hes with
    | nil => exact ⟨nofun, nofun⟩
    | cons he _ ih =>
        exact ⟨List.forall_mem_cons.mpr ⟨(one he).1, ih.1⟩,
          List.forall_mem_cons.mpr ⟨(one he).2, ih.2⟩⟩
  cases hk with
  | integer | floating | text | ref => exact ⟨nofun, nofun⟩
  | paren he | unary _ he | cast _ _ he =>
      exact ⟨List.forall_mem_singleton.mpr (one he).1, List.forall_mem_singleton.mpr (one he).2⟩
  | binary _ hl hr =>
      exact ⟨List.forall_mem_cons.mpr ⟨(one hl).1, List.forall_mem_singleton.mpr (one hr).1⟩,
        List.forall_mem_cons.mpr ⟨(one hl).2, List.forall_mem_singleton.mpr (one hr).2⟩⟩
  | initList hes => exact all hes
  | call hf hes =>
      exact ⟨List.forall_mem_cons.mpr ⟨(one hf).1, (all hes).1⟩,
        List.forall_mem_cons.mpr ⟨(one hf).2, (all hes).2⟩⟩

end Program

/-! ### Side by side -/

/-- What is paired in `R`, and what comes from `b` and `b'` on in order, up to `n` on the left. -/
def along (R : Nat → Nat → Prop) (b b' n : Nat) (x x' : Nat) : Prop :=
  R x x' ∨ ∃ i, b + i < n ∧ x = b + i ∧ x' = b' + i

section Along

variable {R : Nat → Nat → Prop} {b b' m n x x' : Nat}

theorem along_start : along R b b' b x x' ↔ R x x' :=
  ⟨fun h => h.resolve_right fun ⟨_, hlt, _⟩ => by omega, .inl⟩

theorem along_mono (hmn : m ≤ n) (h : along R b b' m x x') : along R b b' n x x' :=
  h.imp_right fun ⟨i, hlt, hx, hx'⟩ => ⟨i, Nat.lt_of_lt_of_le hlt hmn, hx, hx'⟩

theorem along_succ {n' : Nat} (hn : n + b' = n' + b) (hb : b ≤ n) :
    along R b b' (n + 1) x x' ↔ along R b b' n x x' ∨ x = n ∧ x' = n' := by
  constructor
  · rintro (hR | ⟨i, hlt, rfl, rfl⟩)
    · exact .inl (.inl hR)
    · by_cases hi : b + i < n
      · exact .inl (.inr ⟨i, hi, rfl, rfl⟩)
      · exact .inr ⟨by omega, by omega⟩
  · rintro ((hR | ⟨i, hlt, rfl, rfl⟩) | ⟨rfl, rfl⟩)
    · exact .inl hR
    · exact .inr ⟨i, by omega, rfl, rfl⟩
    · exact .inr ⟨x - b, by omega, by omega, by omega⟩

end Along

/-- The pairing along with what the programs `l` and `r` gain in order until `l` becomes `p`. -/
def Pairing.along (ρ : Pairing) (l r p : Program) : Pairing where
  decl := Readback.along ρ.decl l.decls.size r.decls.size p.decls.size
  expr := Readback.along ρ.expr l.exprs.size r.exprs.size p.exprs.size
  stmt := Readback.along ρ.stmt l.stmts.size r.stmts.size p.stmts.size

end Readback
