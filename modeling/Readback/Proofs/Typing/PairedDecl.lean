import Readback.Proofs.Typing.Paired

/-! # Statements and declarations side by side

Statements and declarations are built in accord like expressions, with paired nodes and alike types on
two programs that match. There are three sorts of steps:

* Statements append a node after their conditions and values were checked (`returns_runs`,
  `ifElse_runs`, `forLoop_runs`). Loops have no initial part here, since a lift makes none.
* Making a declaration appends a node that is paired with its like on the other side
  (`functionDecl_runs`, `varDecl_runs`, `param_runs`, `recordDecl_runs`). It is one of those that may be
  completed from then on.
* Completing a declaration changes a node that is there. Both sides complete the same one, if it is one
  that may be completed (`Accord.mine`): parameters, bodies, initial values, locals and fields
  (`setParams_runs`, `setBody_runs`, `setInit_runs`, `fieldDecl_runs`). Checks that compare types on the
  way have the same outcome, since no two types are the same on one side only (`fits_iff`).

Listing a declaration at file level (`listTop_runs`) changes neither nodes nor types, but the order of
what is listed is part of what programs in accord have in common. -/

namespace Readback

open Step Program Check

namespace Accord

variable {A : Accord} {p q : Program}

/-! ### Statements -/

section Statements

variable {c c' e e' : ExprId} {s s' y y' : StmtId} {d d' f f' : DeclId}

theorem compound_runs {xs xs' : List StmtId} (h : List.Forall₂ (A.stmts p q) xs xs') :
    A.Runs p q (compound xs) (compound xs') A.stmts := pushStmt_runs (.compound h)

theorem returnable_runs (name name' : String) {t t' : QualType} {v v' : Option ExprId}
    (ht : types p q t t') (hv : Option.Rel (A.exprs p q) v v') :
    A.Runs p q (returnable name t v) (returnable name' t' v') anything := by
  refine .get_bind fun hk => ?_
  have hp := hk.matched.recordless.1
  cases hv with
  | none =>
      dsimp only
      rw [isVoid_alike hp ht]
      exact .ite .rfl (fun _ => .throw _ _) fun _ => .pure trivial
  | some he =>
      dsimp only
      rw [isVoid_alike hp ht, isVoid_alike hp (hk.matched.type_alike he)]
      exact .ite .rfl (fun _ => .ite .rfl (fun _ => .throw _ _) fun _ => .pure trivial)
        fun _ => assignable_runs ht.unqualified he

theorem returns_runs {v v' : Option ExprId} (hf : (A.pairing p).decl f f')
    (hv : Option.Rel (A.exprs p q) v v') : A.Runs p q (returns f v) (returns f' v') A.stmts := by
  refine .get_bind fun hk => ?_
  have hkind := (hk.matched.decl hf).2.2.kind
  dsimp only
  generalize (p.decl f).name = name
  generalize (q.decl f').name = name'
  generalize (p.decl f).kind = k at hkind
  generalize (q.decl f').kind = k' at hkind
  cases hkind with
  | @function t t' h =>
      have hparts := functionParts?_alike hk.matched.recordless.1 h
      dsimp only
      generalize p.functionParts? t = x at hparts
      generalize q.functionParts? t' = x' at hparts
      cases hparts with
      | none => exact .throw _ _
      | some h =>
          exact .bind (returnable_runs _ _ h.1 hv) fun _ _ _ _ hl _ =>
            pushStmt_runs (.returns (optionRel_imp hl.pairing.expr hv))
  | _ => exact .throw _ _

theorem ifElse_runs {n n' : Option StmtId} (hc : A.exprs p q c c') (hy : A.stmts p q y y')
    (hn : Option.Rel (A.stmts p q) n n') :
    A.Runs p q (ifElse c y n) (ifElse c' y' n') A.stmts :=
  .bind (condition_runs hc) fun _ _ _ _ hl hc =>
    pushStmt_runs (.ifElse hc (hl.pairing.stmt hy) (optionRel_imp hl.pairing.stmt hn))

theorem whileLoop_runs (hc : A.exprs p q c c') (hs : A.stmts p q s s') :
    A.Runs p q (whileLoop c s) (whileLoop c' s') A.stmts :=
  .bind (condition_runs hc) fun _ _ _ _ hl hc => pushStmt_runs (.whileLoop hc (hl.pairing.stmt hs))

theorem doLoop_runs (hs : A.stmts p q s s') (hc : A.exprs p q c c') :
    A.Runs p q (doLoop s c) (doLoop s' c') A.stmts :=
  .bind (condition_runs hc) fun _ _ _ _ hl hc => pushStmt_runs (.doLoop (hl.pairing.stmt hs) hc)

theorem forLoop_runs {x x' i i' : Option ExprId} (hx : Option.Rel (A.exprs p q) x x')
    (hi : Option.Rel (A.exprs p q) i i') (hs : A.stmts p q s s') :
    A.Runs p q (forLoop none x i s) (forLoop none x' i' s') A.stmts := by
  have hcond : A.Runs p q (x.mapM condition) (x'.mapM condition)
      fun p q => Option.Rel (A.exprs p q) := by
    cases hx with
    | none => exact .pure .none
    | some hc => exact .bind (condition_runs hc) fun _ _ _ _ _ hc => .pure (.some hc)
  exact .bind hcond fun _ _ _ _ hl hx =>
    pushStmt_runs (.forLoop hx (optionRel_imp hl.pairing.expr hi) (hl.pairing.stmt hs))

end Statements

/-! ### Making declarations -/

section Declarations

variable {d d' f f' : DeclId} {sc sc' : Scope} {t t' : QualType}

theorem functionDecl_runs (name : String) (sc sc' : Scope) (ht : types p q t t') :
    A.Runs p q (functionDecl sc name t) (functionDecl sc' name t') A.decls := by
  refine .get_bind fun hk => ?_
  rw [isFunction_alike hk.matched.recordless.1 ht]
  exact .guard .rfl fun _ =>
    pushDecl_runs name sc sc' (.function ht ..) (.function t t' .nil .none ..)

theorem param_runs (name : String) (index : Nat) (f f' : DeclId) (ht : types p q t t') :
    A.Runs p q (param f name t index) (param f' name t' index) A.decls := by
  refine .get_bind fun hk => ?_
  dsimp only
  rw [isVoid_alike hk.matched.recordless.1 ht, isFunction_alike hk.matched.recordless.1 ht]
  exact .guard .rfl fun _ => pushDecl_runs name _ _ (.param ht ..) (.param t t' ..)

theorem varDecl_runs (name : String) (storage : Storage) (sc sc' : Scope) (ht : types p q t t') :
    A.Runs p q (varDecl sc name t storage) (varDecl sc' name t' storage) A.decls := by
  refine .get_bind fun hk => ?_
  rw [isVoid_alike hk.matched.recordless.1 ht, isFunction_alike hk.matched.recordless.1 ht]
  exact .guard .rfl fun _ => pushDecl_runs name sc sc' (.var ht ..) (.var t t' .none ..)

theorem recordDecl_runs (name : String) (sc sc' : Scope) :
    A.Runs p q (recordDecl sc name) (recordDecl sc' name) A.decls :=
  pushDecl_runs name sc sc' (.record ..) (.record .nil)

/-! ### Completing declarations -/

/-- Paired declarations fit a type on both sides or on neither. -/
theorem fits_iff (hk : A.Kept p q) {x x' : DeclId} (hx : (A.pairing p).decl x x')
    (ht : types p q t t') : p.Fits x t ↔ q.Fits x' t' := by
  have hkind := (hk.matched.decl hx).2.2.kind
  unfold Program.Fits
  generalize (p.decl x).kind = k at hkind
  generalize (q.decl x').kind = k' at hkind
  have none {k k' : DeclKind} (hne : ∀ t i, k ≠ .param t i) (hne' : ∀ t i, k' ≠ .param t i) :
      (∃ type index, k = .param type index ∧ type.ref = t.ref) ↔
        ∃ type index, k' = .param type index ∧ type.ref = t'.ref :=
    iff_of_false (fun ⟨type, i, h, _⟩ => hne type i h) fun ⟨type, i, h, _⟩ => hne' type i h
  cases hkind with
  | @param u u' h i i' =>
      have href := h.ref_iff hk.matched.distinct.1 hk.matched.distinct.2 ht
      constructor
      · rintro ⟨_, _, heq, hu⟩
        cases heq
        exact ⟨u', i', rfl, href.mp hu⟩
      · rintro ⟨_, _, heq, hu⟩
        cases heq
        exact ⟨u, i, rfl, href.mpr hu⟩
  | _ => exact none (fun _ _ h => by cases h) fun _ _ h => by cases h

theorem fitAll_iff (hk : A.Kept p q) {xs xs' : List DeclId} {ts ts' : List QualType}
    (hxs : List.Forall₂ (A.pairing p).decl xs xs') (hts : List.Forall₂ (types p q) ts ts') :
    List.Forall₂ p.Fits xs ts ↔ List.Forall₂ q.Fits xs' ts' := by
  induction hxs generalizing ts ts' with
  | nil => cases hts <;> simp
  | cons hx _ ih =>
      cases hts with
      | nil => simp
      | cons ht hts => rw [List.forall₂_cons, List.forall₂_cons, fits_iff hk hx ht, ih hts]

theorem setParams_runs {xs xs' : List DeclId} (hf : A.mine p f f')
    (hxs : List.Forall₂ (A.pairing p).decl xs xs') :
    A.Runs p q (setParams f xs) (setParams f' xs') anything := by
  refine .get_bind fun hk => ?_
  have hkind := (hk.matched.decl (mine_pairing hf)).2.2.kind
  have hfilled := hk.matched.filled (mine_pairing hf)
  dsimp only
  generalize (p.decl f).name = name
  generalize (q.decl f').name = name'
  generalize hl : (p.decl f).kind = k at hkind hfilled
  generalize hr : (q.decl f').kind = k' at hkind hfilled
  cases hkind with
  | @function t t' h ps ps' b b' ls ls' =>
      have hparts := functionParts?_alike hk.matched.recordless.1 h
      dsimp only
      generalize p.functionParts? t = x at hparts
      generalize q.functionParts? t' = x' at hparts
      cases hparts with
      | none => exact .throw _ _
      | @some x x' h =>
          obtain ⟨_, ts, _⟩ := x
          obtain ⟨_, ts', _⟩ := x'
          have hfault : paramsFault? p xs ts = none ↔ paramsFault? q xs' ts' = none := by
            rw [paramsFault?_eq_none_iff, paramsFault?_eq_none_iff]
            exact fitAll_iff hk hxs h.2.1
          dsimp only
          cases hp : paramsFault? p xs ts <;> cases hq : paramsFault? q xs' ts'
          · refine fill_runs hf (by rw [hl]; rfl) (by rw [hr]; rfl) fun hapart => ?_
            cases hfilled hapart with
            | function _ _ _ hb => exact .function t t' hxs hb ls ls'
          · exact absurd (hfault.mp hp) (by rw [hq]; exact nofun)
          · exact absurd (hfault.mpr hq) (by rw [hp]; exact nofun)
          · exact .throw _ _
  | _ => exact .throw _ _

theorem setBody_runs {s s' : StmtId} (hf : A.mine p f f') (hs : A.stmts p q s s') :
    A.Runs p q (setBody f s) (setBody f' s') anything := by
  refine .get_bind fun hk => ?_
  have hkind := (hk.matched.decl (mine_pairing hf)).2.2.kind
  have hfilled := hk.matched.filled (mine_pairing hf)
  dsimp only
  generalize (p.decl f).name = name
  generalize (q.decl f').name = name'
  generalize hl : (p.decl f).kind = k at hkind hfilled
  generalize hr : (q.decl f').kind = k' at hkind hfilled
  cases hkind with
  | @function t t' h ps ps' b b' ls ls' =>
      refine fill_runs hf (by rw [hl]; rfl) (by rw [hr]; rfl) fun hapart => ?_
      cases hfilled hapart with
      | function _ _ hps => exact .function t t' hps (.some hs) ls ls'
  | _ => exact .throw _ _

theorem setInit_runs {e e' : ExprId} (hd : A.mine p d d') (he : A.exprs p q e e') :
    A.Runs p q (setInit d e) (setInit d' e') anything := by
  refine .get_bind fun hk => ?_
  have hkind := (hk.matched.decl (mine_pairing hd)).2.2.kind
  dsimp only
  generalize (p.decl d).name = name
  generalize (q.decl d').name = name'
  generalize hl : (p.decl d).kind = k at hkind
  generalize hr : (q.decl d').kind = k' at hkind
  cases hkind with
  | @var t t' h x x' storage =>
      refine .bind (initializable_runs h he) fun _ _ p' q' hlead _ => ?_
      have hlt := hk.matched.decl (mine_pairing hd)
      refine fill_runs (mine_mono hlead.left.decls_size hd) ?_ ?_ fun _ =>
        .var t t' (.some (hlead.pairing.expr he)) ..
      · rw [(hlead.left.heads d hlt.1).2, hl]
        rfl
      · rw [(hlead.right.heads d' hlt.2.1).2, hr]
        rfl
  | _ => exact .throw _ _

/-! ### Listing declarations -/

/-- What is listed at file level on both sides is paired. -/
theorem listTop_runs (hfile : A.atFile) (hd : (A.pairing p).decl d d') :
    A.Runs p q (modify fun p => { p with topLevel := p.topLevel ++ [d] })
      (modify fun q => { q with topLevel := q.topLevel ++ [d'] }) anything := by
  intro hk
  have hp : p.Continues A.FreeLeft { p with topLevel := p.topLevel ++ [d] } :=
    { Continues.refl A.FreeLeft p with }
  have hq : q.Continues A.FreeRight { q with topLevel := q.topLevel ++ [d'] } :=
    { Continues.refl A.FreeRight q with }
  refine Together.modify ⟨⟨?_, hk.decls, hk.exprs, hk.stmts⟩,
    ⟨hp, hq, [d], [d'], rfl, rfl, .cons hd .nil, fun _ => hfile⟩, trivial⟩
  exact
    { target := hk.matched.target
      distinct := hk.matched.distinct
      recordless := hk.matched.recordless
      ordered := hk.matched.ordered
      expr := hk.matched.expr_later hp hq (.refl _)
      stmt := hk.matched.stmt_later hp hq (.refl _)
      decl := hk.matched.decl_later hp hq
      filled := hk.matched.filled
      unique := hk.matched.unique }

theorem addDecl_runs (hsc : sc.Paired A.atFile (A.mine p) sc') (hd : (A.pairing p).decl d d') :
    A.Runs p q (addDecl sc d) (addDecl sc' d') anything := by
  match sc, sc', hsc with
  | .file, .file, hfile => exact listTop_runs hfile hd
  | .function f, .function f', hf =>
      refine .get_bind fun hk => ?_
      have hkind := (hk.matched.decl (mine_pairing hf)).2.2.kind
      have hfilled := hk.matched.filled (mine_pairing hf)
      generalize hl : (p.decl f).kind = k at hkind hfilled
      generalize hr : (q.decl f').kind = k' at hkind hfilled
      cases hkind with
      | @function t t' h ps ps' b b' ls ls' =>
          refine fill_runs hf (by rw [hl]; rfl) (by rw [hr]; rfl) fun hapart => ?_
          cases hfilled hapart with
          | function _ _ hps hb => exact .function t t' hps hb ..
      | _ => exact .throw _ _

theorem addField_runs {r r' : DeclId} (hrecord : A.mine p r r') (hd : (A.pairing p).decl d d') :
    A.Runs p q (addDecl (.record r) d) (addDecl (.record r') d') anything := by
  refine .get_bind fun hk => ?_
  have hkind := (hk.matched.decl (mine_pairing hrecord)).2.2.kind
  have hfilled := hk.matched.filled (mine_pairing hrecord)
  generalize hl : (p.decl r).kind = k at hkind hfilled
  generalize hr : (q.decl r').kind = k' at hkind hfilled
  cases hkind with
  | @record fs fs' =>
      refine fill_runs hrecord (by rw [hl]; rfl) (by rw [hr]; rfl) fun hapart => ?_
      cases hfilled hapart with
      | record hfs => exact .record (List.rel_append hfs (.cons hd .nil))
  | _ => exact .throw _ _

theorem isIncompleteField_eq (hp : p.types.Recordless) (r r' : DeclId) (ht : types p q t t') :
    isIncompleteField q r' t' = isIncompleteField p r t := by
  have hlevel := ht.level hp
  unfold isIncompleteField Program.node
  generalize p.types.node t = n at hlevel
  generalize q.types.node t' = m at hlevel
  cases hlevel <;> rfl

theorem fieldDecl_runs {r r' : DeclId} (name : String) (hr : A.mine p r r') (ht : types p q t t') :
    A.Runs p q (fieldDecl r name t) (fieldDecl r' name t') A.decls := by
  refine .get_bind fun hk => ?_
  have hkind := (hk.matched.decl (mine_pairing hr)).2.2.kind
  dsimp only
  generalize (p.decl r).name = n
  generalize (q.decl r').name = n'
  generalize (p.decl r).kind = k at hkind
  generalize (q.decl r').kind = k' at hkind
  cases hkind with
  | @record fs fs' =>
      dsimp only
      rw [isIncompleteField_eq hk.matched.recordless.1 r r' ht]
      refine .guard .rfl fun _ => .bind (pushDecl_runs name _ _ (.field ht ..) (.field t t' ..))
        fun _ _ _ _ hl hd => ?_
      exact .bind (addField_runs (mine_mono hl.left.decls_size hr) (mine_pairing hd))
        fun _ _ _ _ hl' _ => .pure (mine_mono hl'.left.decls_size hd)
  | _ => exact .throw _ _

end Declarations

end Accord

end Readback
