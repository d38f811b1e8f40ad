import Readback.Proofs.Layout.ColouredExpr
import Readback.Proofs.Typing.Construction

/-! # What colours change in the text of a program

A program is written with colours on and with colours off, side by side. When the codes of the colours
are taken out of the first text, the second one should be left; this module says exactly how far that is
so.

* `Fades` relates two pages: the same page written with colours and without them, so that the visible
  text of each line is the same.
* `Pairs m m' R E` says that two writing steps, run on pages that differ only in their colours, fail
  together with the same error or give results related by `R` and pages whose texts still agree, but for
  the blanks that `E` is about. It is kept by everything that writing steps are put together from
  (`Pairs.bind`, `Pairs.line`, `Pairs.block`, `Pairs.nested`, `Pairs.forM`), and every writing step is
  paired with itself.
* `Program.Writes` says which expressions are written on the lines of a node and of the nodes inside it,
  and `Program.KeepsSigns` that none of them has a minus directly before a negative literal.

That case is where the texts differ. Whether a blank goes between two signs is decided by looking at the
first character of the operand, and with colours on the first character of a literal is that of a code:
the blank is left out, and without the codes the signs stand together.

Statements and declarations are gone through once (`pairs_stmt`, `pairs_decl`), with the nodes inside
them as a hypothesis, and `pairs_emitAux` is the induction over the depth. The main result is
`Program.uncoloured_text`: errors are the same with and without colours, and without its codes the
coloured text is the plain one if and only if signs are kept apart in what is written.
`Program.uncoloured_text_negation` is the negation of a negative number. -/

namespace Readback

/-! ### What is written for a node -/

namespace Program

/-- The statements of a body. -/
def bodyNodes (p : Program) (id : StmtId) : List UnitNode :=
  match (p.stmt id).kind with
  | .compound stmts => stmts.map .stmt
  | _ => [.stmt id]

/-- The initial value of a variable. -/
def initExprs (p : Program) (id : DeclId) : List ExprId :=
  match (p.decl id).kind with
  | .var _ init _ => init.toList
  | _ => []

/-- The expressions in the first part of a counting loop. -/
def forInitExprs (p : Program) (id : StmtId) : List ExprId :=
  match (p.stmt id).kind with
  | .expr e => [e]
  | .declares decls => decls.flatMap p.initExprs
  | _ => []

/-- The expressions on the lines of a node itself. -/
def ownExprs (p : Program) : UnitNode → List ExprId
  | .decl id => p.initExprs id
  | .stmt id =>
    match (p.stmt id).kind with
    | .returns value => value.toList
    | .ifElse cond _ _ => [cond]
    | .whileLoop cond _ => [cond]
    | .doLoop _ cond => [cond]
    | .forLoop init cond inc _ => init.toList.flatMap p.forInitExprs ++ (cond.toList ++ inc.toList)
    | .expr e => [e]
    | _ => []

/-- The nodes written inside a node. -/
def innerNodes (p : Program) : UnitNode → List UnitNode
  | .decl id =>
    match (p.decl id).kind with
    | .function _ _ body _ => body.toList.flatMap p.bodyNodes
    | _ => []
  | .stmt id =>
    match (p.stmt id).kind with
    | .compound _ => p.bodyNodes id
    | .ifElse _ yes no => p.bodyNodes yes ++ no.toList.flatMap p.bodyNodes
    | .whileLoop _ body => p.bodyNodes body
    | .doLoop body _ => p.bodyNodes body
    | .forLoop _ _ _ body => p.bodyNodes body
    | .declares decls => decls.map .decl
    | _ => []

/-- `Writes n e`: the expression `e` is written on a line of the node `n` or of a node inside it. -/
inductive Writes (p : Program) : UnitNode → ExprId → Prop where
  | own {n e} (mem : e ∈ p.ownExprs n) : Writes p n e
  | inner {n m e} (mem : m ∈ p.innerNodes n) (writes : Writes p m e) : Writes p n e

/-- No minus stands directly before a negative literal in what is written for the node. -/
def KeepsSigns (p : Program) (showCasts : Bool) (n : UnitNode) : Prop :=
  ∀ e, p.Writes n e → (p.term e).signsApart showCasts

theorem keepsSigns_iff (p : Program) (showCasts : Bool) (n : UnitNode) :
    p.KeepsSigns showCasts n ↔ (∀ e ∈ p.ownExprs n, (p.term e).signsApart showCasts) ∧
      ∀ m ∈ p.innerNodes n, p.KeepsSigns showCasts m := by
  refine ⟨fun h => ⟨fun e he => h e (.own he), fun m hm e he => h e (.inner hm he)⟩, ?_⟩
  rintro ⟨hown, hinner⟩ e (he | ⟨hm, he⟩)
  · exact hown e he
  · exact hinner _ hm e he

end Program

/-! ### Pages -/

namespace Page

/-- The same page written with colours and without them. -/
structure Fades (q r : Page) (exact : Prop) : Prop where
  unit : q.unit = r.unit
  unitFree : EscapeFree q.unit
  painted : q.useColors = true
  plain : r.useColors = false
  level : q.level = r.level
  text : Readback.Fades q.text r.text exact

theorem text_push (p : Page) (l : Line) :
    Page.text { p with lines := p.lines.push l } = p.text ++ renderLine p.unit l := by
  simp [Page.text, textFrom, String.join_append]

theorem escapeFree_repeated {s : String} (h : EscapeFree s) (n : Nat) : EscapeFree (repeated s n) := by
  unfold repeated
  induction n with
  | zero => simp [EscapeFree]
  | succ n ih =>
      rw [List.replicate_succ, String.join_cons]
      exact h.append ih

theorem Fades.line {q r : Page} {E F : Prop} (h : q.Fades r E) (n : Nat) {a b : String}
    (hab : Readback.Fades a b F) :
    Page.Fades { q with lines := q.lines.push ⟨n, a⟩ } { r with lines := r.lines.push ⟨n, b⟩ }
      (E ∧ F) where
  unit := h.unit
  unitFree := h.unitFree
  painted := h.painted
  plain := h.plain
  level := h.level
  text := by
    rw [text_push, text_push, renderLine, renderLine, ← h.unit]
    exact h.text.append ((hab.after (escapeFree_repeated h.unitFree _)).before (by decide))

end Page

/-! ### Steps side by side -/

/-- Run on pages that differ only in their colours, the two steps fail with the same error, or they
give results related by `R` and pages that still agree, exactly so only if `E` holds. -/
def Pairs {α : Type} (m m' : Write α) (R : α → α → Prop) (E : Prop) : Prop :=
  ∀ q r F, Page.Fades q r F →
    match m q, m' r with
    | .ok a q', .ok b r' => R a b ∧ q'.Fades r' (F ∧ E)
    | .error x _, .error y _ => x = y
    | _, _ => False

/-- Two texts or the same error. -/
def FadesOr (x y : Except LayoutError String) (E : Prop) : Prop :=
  match x, y with
  | .ok a, .ok b => Fades a b E
  | .error e, .error e' => e = e'
  | _, _ => False

theorem FadesOr.of_escapeFree {x : Except LayoutError String}
    (h : ∀ text, x = .ok text → EscapeFree text) : FadesOr x x True := by
  cases x with
  | ok text => exact Fades.of_escapeFree (h text rfl)
  | error e => rfl

namespace Pairs

variable {α β : Type} {m m' : Write α} {R : α → α → Prop} {S : β → β → Prop} {E G : Prop}

/-- The results of steps that are run for what they write. -/
abbrev Any (_ _ : Unit) : Prop := True

theorem congr (h : Pairs m m' R E) (hE : E ↔ G) : Pairs m m' R G := by
  rwa [← propext hE]

theorem pure {a b : α} (h : R a b) : Pairs (Pure.pure a) (Pure.pure b) R True :=
  fun _ _ F hq => ⟨h, by rwa [and_true]⟩

theorem bind {f f' : α → Write β} (hm : Pairs m m' R E)
    (hf : ∀ a b, R a b → Pairs (f a) (f' b) S G) : Pairs (m >>= f) (m' >>= f') S (E ∧ G) := by
  intro q r F hq
  have hqr := hm q r F hq
  show match EStateM.bind m f q, EStateM.bind m' f' r with
    | .ok a q', .ok b r' => S a b ∧ q'.Fades r' (F ∧ E ∧ G)
    | .error x _, .error y _ => x = y
    | _, _ => False
  unfold EStateM.bind
  cases hmq : m q <;> cases hmr : m' r <;> rw [hmq, hmr] at hqr
  · obtain ⟨hab, hpage⟩ := hqr
    simpa only [and_assoc] using hf _ _ hab _ _ _ hpage
  · exact hqr.elim
  · exact hqr.elim
  · exact hqr

theorem throw (e : LayoutError) : Pairs (throw e : Write α) (throw e) R E := fun _ _ _ _ => rfl

theorem get : Pairs get get (fun q r => q.useColors = true ∧ r.useColors = false) True :=
  fun _ _ _ hq => ⟨⟨hq.painted, hq.plain⟩, by rwa [and_true]⟩

theorem ofExcept {x y : Except LayoutError String} {F : Prop} (h : FadesOr x y F) :
    Pairs (Write.ofExcept x) (Write.ofExcept y) (fun a b => Fades a b F) True := by
  unfold FadesOr at h
  cases x <;> cases y
  · exact fun _ _ _ _ => h
  · exact h.elim
  · exact h.elim
  · exact .pure h

theorem line {a b : String} (h : Fades a b E) : Pairs (Write.line a) (Write.line b) Any E := by
  intro q r F hq
  have hline : Line.mk r.level b = ⟨q.level, b⟩ := by rw [hq.level]
  show True ∧ Page.Fades { q with lines := q.lines.push ⟨q.level, a⟩ }
    { r with lines := r.lines.push ⟨r.level, b⟩ } (F ∧ E)
  rw [hline]
  exact ⟨trivial, hq.line _ h⟩

theorem blankLine : Pairs Write.blankLine Write.blankLine Any True := fun _ _ _ hq =>
  ⟨trivial, hq.line 0 (.of_escapeFree (by decide))⟩

theorem indent : Pairs Write.indent Write.indent Any True := fun _ _ F hq =>
  ⟨trivial, hq.unit, hq.unitFree, hq.painted, hq.plain, congrArg (· + 1) hq.level,
    hq.text.congr (iff_of_eq (and_true F)).symm⟩

theorem dedent : Pairs Write.dedent Write.dedent Any True := fun _ _ F hq =>
  ⟨trivial, hq.unit, hq.unitFree, hq.painted, hq.plain, congrArg (· - 1) hq.level,
    hq.text.congr (iff_of_eq (and_true F)).symm⟩

theorem keyword {s : String} (h : EscapeFree s) :
    Pairs (Write.keyword s) (Write.keyword s) (fun a b => Fades a b True) True := by
  refine (get.bind (G := True) fun q r hqr => ?_).congr (by simp)
  rw [hqr.1, hqr.2]
  exact .pure (.keyword h)

theorem keywordStmt {s : String} (h : EscapeFree s) :
    Pairs (Write.keywordStmt s) (Write.keywordStmt s) Any True :=
  ((keyword h).bind fun _ _ hab => .line (hab.before (by decide))).congr (by simp)

theorem exprText {p : Program} (hp : p.EscapeFreeNames) (showCasts : Bool) (e : ExprId) :
    Pairs (Write.exprText p showCasts e) (Write.exprText p showCasts e)
      (fun a b => Fades a b ((p.term e).signsApart showCasts)) True := by
  refine (get.bind (G := True) fun q r hqr => ?_).congr (by simp)
  rw [hqr.1, hqr.2]
  exact .pure (Term.fades_pieces hp showCasts _)

theorem block {a b c d : String} {Eh Et : Prop} {body body' : Write Unit} (hh : Fades a b Eh)
    (ht : Fades c d Et) (hb : Pairs body body' Any E) :
    Pairs (Write.block a c body) (Write.block b d body') Any (Eh ∧ Et ∧ E) := by
  refine ((line (hh.before (by decide))).bind fun _ _ _ => indent.bind fun _ _ _ =>
    hb.bind fun _ _ _ => dedent.bind fun _ _ _ => line (ht.after (by decide))).congr ?_
  simp only [true_and]
  exact and_congr_right fun _ => and_comm

theorem nested {body body' : Write Unit} (hb : Pairs body body' Any E) :
    Pairs (Write.nested body) (Write.nested body') Any E := by
  intro q r F hq
  have hin : q.deeper.Fades r.deeper F :=
    ⟨hq.unit, hq.unitFree, hq.painted, hq.plain, congrArg (· + 1) hq.level, hq.text⟩
  have hqr := hb _ _ F hin
  unfold Write.nested
  cases hmq : body q.deeper <;> cases hmr : body' r.deeper <;> rw [hmq, hmr] at hqr
  · obtain ⟨-, hpage⟩ := hqr
    exact ⟨trivial, hpage.unit, hpage.unitFree, hpage.painted, hpage.plain,
      congrArg (· - 1) hpage.level, hpage.text⟩
  · exact hqr.elim
  · exact hqr.elim
  · exact hqr

theorem forM {ι : Type} {f : ι → Write Unit} {C : ι → Prop} {l : List ι}
    (h : ∀ x ∈ l, Pairs (f x) (f x) Any (C x)) : Pairs (l.forM f) (l.forM f) Any (∀ x ∈ l, C x) := by
  induction l with
  | nil => exact (Pairs.pure (a := ()) (b := ()) trivial).congr (by simp)
  | cons x l ih =>
      exact ((h x List.mem_cons_self).bind fun _ _ _ =>
        ih fun y hy => h y (List.mem_cons_of_mem x hy)).congr List.forall_mem_cons.symm

end Pairs

/-! ### Nodes -/

section Nodes

variable {p : Program} (hp : p.EscapeFreeNames) {showCasts : Bool}

include hp

/-- A function's head has no literals and no keywords in colour. -/
theorem fades_functionHeader (id : DeclId) :
    FadesOr (p.functionHeader id) (p.functionHeader id) True := by
  refine .of_escapeFree fun text htext => ?_
  cases hk : (p.decl id).kind with
  | function type params body locals =>
      cases hparts : p.functionParts? type with
      | none => simp [Program.functionHeader, hk, hparts] at htext
      | some parts =>
          simp only [Program.functionHeader, hk, hparts] at htext
          cases htext
          refine hp.declarator _ (.append (.append (.append (hp.name id) (by decide))
            (.parameters (fun x hx => ?_) _)) (by decide))
          split at hx
          · obtain ⟨y, -, rfl⟩ := List.mem_map.mp hx
            exact hp.declarator _ (hp.name _)
          · obtain ⟨t, -, rfl⟩ := List.mem_map.mp hx
            exact hp.typeText t
  | _ => simp [Program.functionHeader, hk] at htext

theorem fades_varText (id : DeclId) :
    FadesOr (p.varText showCasts true id) (p.varText showCasts false id)
      (∀ e ∈ p.initExprs id, (p.term e).signsApart showCasts) := by
  cases hk : (p.decl id).kind with
  | var type init storage =>
      have hstorage : Fades (storage.keyword?.elim "" fun k => Readback.keyword true k ++ " ")
          (storage.keyword?.elim "" fun k => Readback.keyword false k ++ " ") True := by
        cases storage with
        | unspecified => exact .of_escapeFree (by decide)
        | static => exact (Fades.keyword (by decide)).before (by decide)
        | external => exact (Fades.keyword (by decide)).before (by decide)
      have hinit : Fades (init.elim "" fun e => " = " ++ p.exprText showCasts true e)
          (init.elim "" fun e => " = " ++ p.exprText showCasts false e)
          (∀ e ∈ init.toList, (p.term e).signsApart showCasts) := by
        cases init with
        | none => exact (Fades.of_escapeFree (s := "") (by decide)).congr (by simp)
        | some e => exact ((Term.fades_pieces hp showCasts _).after (by decide)).congr (by simp)
      simp only [Program.varText, Program.initExprs, hk]
      exact ((hstorage.before (hp.declarator type (hp.name id))).append hinit).congr (by simp)
  | _ =>
      simp only [Program.varText, hk]
      rfl

theorem fades_forInitText (id : StmtId) :
    FadesOr (p.forInitText showCasts true id) (p.forInitText showCasts false id)
      (∀ e ∈ p.forInitExprs id, (p.term e).signsApart showCasts) := by
  cases hk : (p.stmt id).kind with
  | expr e =>
      simp only [Program.forInitText, Program.forInitExprs, hk]
      exact (Term.fades_pieces hp showCasts _).congr (by simp)
  | declares decls =>
      match decls with
      | [d] =>
          simp only [Program.forInitText, Program.forInitExprs, hk]
          simpa using fades_varText hp d
      | [] =>
          simp only [Program.forInitText, hk]
          rfl
      | _ :: _ :: _ =>
          simp only [Program.forInitText, hk]
          rfl
  | _ =>
      simp only [Program.forInitText, hk]
      rfl

variable {emit : UnitNode → Write Unit} {C : UnitNode → Prop}

omit hp in
/-- The statements of a body are written one by one. -/
theorem pairs_body (id : StmtId)
    (hemit : ∀ m ∈ p.bodyNodes id, Pairs (emit m) (emit m) Pairs.Any (C m)) :
    Pairs (Write.body p emit id) (Write.body p emit id) Pairs.Any (∀ m ∈ p.bodyNodes id, C m) := by
  unfold Write.body
  unfold Program.bodyNodes at hemit ⊢
  split
  · next stmts hk =>
      simp only [hk, List.forall_mem_map] at hemit ⊢
      exact .forM hemit
  · next hk =>
      split at hemit
      · next stmts hk' => exact absurd hk' (hk stmts)
      · exact (hemit _ (by simp)).congr (by simp)

theorem pairs_field (id : DeclId) : Pairs (Write.field p id) (Write.field p id) Pairs.Any True := by
  cases hk : (p.decl id).kind with
  | field type index =>
      simp only [Write.field, hk]
      exact .line (.of_escapeFree (.append (hp.declarator type (hp.name id)) (by decide)))
  | _ =>
      simp only [Write.field, hk]
      exact .throw _

/-- A declaration whose inner nodes are written alike is. -/
theorem pairs_decl {id : DeclId}
    (hemit : ∀ m ∈ p.innerNodes (.decl id), Pairs (emit m) (emit m) Pairs.Any (C m)) :
    Pairs (Write.decl p showCasts emit id) (Write.decl p showCasts emit id) Pairs.Any
      ((∀ e ∈ p.ownExprs (.decl id), (p.term e).signsApart showCasts) ∧
        ∀ m ∈ p.innerNodes (.decl id), C m) := by
  have hheader := Pairs.ofExcept (fades_functionHeader hp id)
  cases hk : (p.decl id).kind with
  | function type params body locals =>
      simp only [Program.innerNodes, hk] at hemit
      cases body with
      | none =>
          simp only [Write.decl, Program.ownExprs, Program.initExprs, Program.innerNodes, hk]
          exact (hheader.bind fun _ _ hab => .line (hab.before (by decide))).congr (by simp)
      | some stmt =>
          simp only [Write.decl, Program.ownExprs, Program.initExprs, Program.innerNodes, hk]
          exact (hheader.bind fun _ _ hab => .block hab (.of_escapeFree (by decide))
            (pairs_body _ fun m hm => hemit m (by simpa using hm))).congr (by simp)
  | var type init storage =>
      simp only [Write.decl, Program.ownExprs, Program.innerNodes, hk]
      refine (Pairs.get.bind (G := ∀ e ∈ p.initExprs id, (p.term e).signsApart showCasts)
        fun q r hqr => ?_).congr (by simp)
      rw [hqr.1, hqr.2]
      exact ((Pairs.ofExcept (fades_varText hp id)).bind fun _ _ hab =>
        .line (hab.before (by decide))).congr (by simp)
  | record fields =>
      simp only [Write.decl, Program.ownExprs, Program.initExprs, Program.innerNodes, hk]
      exact ((Pairs.keyword (by decide)).bind fun _ _ hab =>
        .block ((hab.before (by decide)).before (hp.name id)) (.of_escapeFree (by decide))
          (.forM fun f _ => pairs_field hp f)).congr (by simp)
  | param type index =>
      simp only [Write.decl, Program.ownExprs, Program.initExprs, Program.innerNodes, hk]
      exact .throw _
  | field type index =>
      simp only [Write.decl, Program.ownExprs, Program.initExprs, Program.innerNodes, hk]
      exact .throw _

/-- A statement whose inner nodes are written alike is. -/
theorem pairs_stmt {id : StmtId}
    (hemit : ∀ m ∈ p.innerNodes (.stmt id), Pairs (emit m) (emit m) Pairs.Any (C m)) :
    Pairs (Write.stmt p showCasts emit id) (Write.stmt p showCasts emit id) Pairs.Any
      ((∀ e ∈ p.ownExprs (.stmt id), (p.term e).signsApart showCasts) ∧
        ∀ m ∈ p.innerNodes (.stmt id), C m) := by
  have kw {s : String} (h : EscapeFree s) := Pairs.keyword h
  have text (e : ExprId) := Pairs.exprText hp showCasts e
  cases hk : (p.stmt id).kind with
  | compound stmts =>
      simp only [Program.innerNodes, hk] at hemit
      simp only [Write.stmt, Program.ownExprs, Program.innerNodes, hk]
      exact ((Pairs.line (.of_escapeFree (by decide))).bind fun _ _ _ =>
        (Pairs.nested (pairs_body _ hemit)).bind fun _ _ _ =>
          .line (.of_escapeFree (by decide))).congr (by simp)
  | returns value =>
      cases value with
      | none =>
          simp only [Write.stmt, Program.ownExprs, Program.innerNodes, hk]
          exact (Pairs.keywordStmt (by decide)).congr (by simp)
      | some e =>
          simp only [Write.stmt, Program.ownExprs, Program.innerNodes, hk]
          exact ((text e).bind fun _ _ he => (kw (by decide)).bind fun _ _ hkw =>
            .line (((hkw.before (by decide)).append he).before (by decide))).congr (by simp)
  | ifElse cond yes no =>
      simp only [Program.innerNodes, hk] at hemit
      have hyes := pairs_body yes fun m hm => hemit m (List.mem_append_left _ hm)
      simp only [Write.stmt, Program.ownExprs, Program.innerNodes, hk]
      cases no with
      | none =>
          exact ((text cond).bind fun _ _ he => (kw (by decide)).bind fun _ _ hkw =>
            (Pairs.line (((hkw.before (by decide)).append he).before (by decide))).bind fun _ _ _ =>
            (Pairs.nested hyes).bind fun _ _ _ => .line (.of_escapeFree (by decide))).congr (by simp)
      | some no =>
          have hno := pairs_body no fun m hm =>
            hemit m (List.mem_append_right _ (by simpa using hm))
          exact ((text cond).bind fun _ _ he => (kw (by decide)).bind fun _ _ hkw =>
            (Pairs.line (((hkw.before (by decide)).append he).before (by decide))).bind fun _ _ _ =>
            (Pairs.nested hyes).bind fun _ _ _ => (kw (by decide)).bind fun _ _ hkw =>
            (Pairs.line ((hkw.after (by decide)).before (by decide))).bind fun _ _ _ =>
            (Pairs.nested hno).bind fun _ _ _ => .line (.of_escapeFree (by decide))).congr
              (by simp [or_imp, forall_and])
  | whileLoop cond body =>
      simp only [Program.innerNodes, hk] at hemit
      simp only [Write.stmt, Program.ownExprs, Program.innerNodes, hk]
      exact ((text cond).bind fun _ _ he => (kw (by decide)).bind fun _ _ hkw =>
        .block (((hkw.before (by decide)).append he).before (by decide)) (.of_escapeFree (by decide))
          (pairs_body _ hemit)).congr (by simp)
  | doLoop body cond =>
      simp only [Program.innerNodes, hk] at hemit
      simp only [Write.stmt, Program.ownExprs, Program.innerNodes, hk]
      exact ((text cond).bind fun _ _ he => (kw (by decide)).bind fun _ _ hdo =>
        (kw (by decide)).bind fun _ _ hkw =>
        .block hdo ((((hkw.after (by decide)).before (by decide)).append he).before (by decide))
          (pairs_body _ hemit)).congr (by simp)
  | forLoop init cond inc body =>
      simp only [Program.innerNodes, hk] at hemit
      have hbody := pairs_body _ hemit
      have hpart : ∀ e : Option ExprId,
          Fades (e.elim "" fun e => " " ++ p.exprText showCasts true e)
            (e.elim "" fun e => " " ++ p.exprText showCasts false e)
            (∀ x ∈ e.toList, (p.term x).signsApart showCasts) := by
        intro e
        cases e with
        | none => exact (Fades.of_escapeFree (s := "") (by decide)).congr (by simp)
        | some e => exact ((Term.fades_pieces hp showCasts _).after (by decide)).congr (by simp)
      have hloop {m m' : Write String} {E : Prop} (hm : Pairs m m' (fun a b => Fades a b E) True) :=
        hm.bind fun _ _ hi => (kw (s := "for") (by decide)).bind fun _ _ hkw =>
          have head := (((((hkw.before (s := " (") (by decide)).append hi).before (s := ";")
            (by decide)).append (hpart cond)).before (s := ";") (by decide)).append (hpart inc)
          .block (head.before (s := ")") (by decide)) (.of_escapeFree (s := "") (by decide)) hbody
      simp only [Write.stmt, Program.ownExprs, Program.innerNodes, hk]
      refine (Pairs.get.bind (G := (∀ e ∈ init.toList.flatMap p.forInitExprs ++
          (cond.toList ++ inc.toList), (p.term e).signsApart showCasts) ∧
        ∀ m ∈ p.bodyNodes body, C m) fun q r hqr => ?_).congr (by simp)
      rw [hqr.1, hqr.2]
      cases init with
      | none => exact (hloop (.pure (.of_escapeFree (by decide)))).congr (by simp [or_imp, forall_and])
      | some s =>
          exact (hloop (.ofExcept (fades_forInitText hp s))).congr
            (by simp [or_imp, forall_and, and_assoc])
  | breaks =>
      simp only [Write.stmt, Program.ownExprs, Program.innerNodes, hk]
      exact (Pairs.keywordStmt (by decide)).congr (by simp)
  | continues =>
      simp only [Write.stmt, Program.ownExprs, Program.innerNodes, hk]
      exact (Pairs.keywordStmt (by decide)).congr (by simp)
  | empty =>
      simp only [Write.stmt, Program.ownExprs, Program.innerNodes, hk]
      exact (Pairs.line (.of_escapeFree (by decide))).congr (by simp)
  | declares decls =>
      simp only [Program.innerNodes, hk, List.forall_mem_map] at hemit
      simp only [Write.stmt, Program.ownExprs, Program.innerNodes, hk, List.forall_mem_map]
      exact (Pairs.forM hemit).congr (by simp)
  | expr e =>
      simp only [Write.stmt, Program.ownExprs, Program.innerNodes, hk]
      exact ((text e).bind fun _ _ he => .line (he.before (by decide))).congr (by simp)

/-- Every node is written alike, whatever the bound on the depth. -/
theorem pairs_emitAux (n : Nat) (node : UnitNode) :
    Pairs (Write.emitAux p showCasts n node) (Write.emitAux p showCasts n node) Pairs.Any
      (p.KeepsSigns showCasts node) := by
  induction n generalizing node with
  | zero => exact .throw _
  | succ n ih =>
      refine Pairs.congr ?_ (p.keepsSigns_iff showCasts node).symm
      cases node with
      | decl id => exact pairs_decl hp fun m _ => ih m
      | stmt id => exact pairs_stmt hp fun m _ => ih m

theorem pairs_decls (c : Config) (separate : Bool) (ds : List DeclId) :
    Pairs (Write.decls p { c with useColors := true } separate ds)
      (Write.decls p { c with useColors := false } separate ds) Pairs.Any
      (∀ d ∈ ds, p.KeepsSigns c.showImplicitCasts (.decl d)) := by
  induction ds generalizing separate with
  | nil => exact (Pairs.pure (a := ()) (b := ()) trivial).congr (by simp)
  | cons d ds ih =>
      have hnode : Pairs (Write.emitAux p c.showImplicitCasts _ (.decl d)) _ Pairs.Any _ :=
        pairs_emitAux hp (p.decls.size + p.stmts.size + 1) (.decl d)
      have hrest := hnode.bind fun _ _ _ => ih c.blankLineBetweenDecls
      refine Pairs.congr ?_ List.forall_mem_cons.symm
      unfold Write.decls
      cases separate with
      | true => exact (Pairs.blankLine.bind fun _ _ _ => hrest).congr (by simp)
      | false => exact hrest

end Nodes

theorem Indent.escapeFree_unit (i : Indent) : EscapeFree i.unit := by
  cases i with
  | tabs => decide
  | spaces n =>
      show EscapeFree (Nat.repeat (fun s => s.push ' ') n "")
      induction n with
      | zero => decide
      | succ n ih =>
          rw [Nat.repeat]
          simpa [EscapeFree] using ih

theorem Page.fades_ofConfig (c : Config) :
    (Page.ofConfig { c with useColors := true }).Fades
      (Page.ofConfig { c with useColors := false }) True where
  unit := rfl
  unitFree := c.indent.escapeFree_unit
  painted := rfl
  plain := rfl
  level := rfl
  text := .of_escapeFree (s := "") (by decide)

namespace Program

/-- **What colours change.** If no name has an escape character in it, a program is written with
colours if and only if it is written without them, and the errors are the same. When the codes of
the colours are taken out of the first text, it is the second with blanks left out; and the two are
the same if and only if no minus stands directly before a negative literal in what is written. -/
theorem uncoloured_text {p : Program} (hp : p.EscapeFreeNames) (c : Config) :
    match p.text { c with useColors := true }, p.text { c with useColors := false } with
    | .ok coloured, .ok plain =>
      Spaced (uncoloured coloured.toList) plain.toList ∧
        (uncoloured coloured.toList = plain.toList ↔
          ∀ d ∈ p.topLevel, p.KeepsSigns c.showImplicitCasts (.decl d))
    | .error e, .error e' => e = e'
    | _, _ => False := by
  have hpages := pairs_decls hp c false p.topLevel _ _ _ (Page.fades_ofConfig c)
  unfold Program.text Write.program
  generalize Write.decls p { c with useColors := true } false p.topLevel = m at hpages ⊢
  generalize Write.decls p { c with useColors := false } false p.topLevel = m' at hpages ⊢
  cases hq : m (Page.ofConfig { c with useColors := true }) <;>
    cases hr : m' (Page.ofConfig { c with useColors := false }) <;> rw [hq, hr] at hpages
  · exact (hpages.2.text.congr (iff_of_eq (true_and _))).uncoloured
  · exact hpages.elim
  · exact hpages.elim
  · exact hpages

/-- The negation of a negative number: only without colours there is a blank between the signs. -/
theorem uncoloured_text_negation :
    ∃ p : Program, p.Constructed ∧ p.EscapeFreeNames ∧
      p.text { Config.standard with useColors := true } = .ok "int x = -\x1b[32m-1\x1b[0m;\n" ∧
      p.text { Config.standard with useColors := false } = .ok "int x = - -1;\n" ∧
      ¬ ∀ d ∈ p.topLevel, p.KeepsSigns false (.decl d) := by
  have h₀ := Constructed.empty ⟨"x86_64-unknown-linux-gnu", false, 16, 32, 64, 64, 64⟩
  have h₁ := h₀.step (.builtin .int) (by decide +kernel)
  have h₂ := h₁.step (.integer (-1) (.plain 0)) (by decide +kernel)
  have h₃ := h₂.step (.unary .minus 0) (by decide +kernel)
  have h₄ := h₃.step (.varDecl .file "x" (.plain 0) .unspecified) (by decide +kernel)
  have h₅ := h₄.step (.setInit 0 1) (by decide +kernel)
  have h₆ := h₅.step (.addDecl .file 0) (by decide +kernel)
  have differ : ∀ {p : Program}, p.EscapeFreeNames →
      p.text { Config.standard with useColors := true } = .ok "int x = -\x1b[32m-1\x1b[0m;\n" →
      p.text { Config.standard with useColors := false } = .ok "int x = - -1;\n" →
      ¬ ∀ d ∈ p.topLevel, p.KeepsSigns false (.decl d) := by
    intro p hp hcoloured hplain hkeeps
    have h := uncoloured_text hp Config.standard
    rw [hcoloured, hplain] at h
    exact absurd (h.2.mpr hkeeps) (by decide)
  have ok : ∀ {x : Except LayoutError String} {text}, x.toOption = some text → x = .ok text := by
    rintro (_ | _) text h <;> cases h
    rfl
  exact ⟨_, h₆, by decide +kernel, ok (by decide +kernel), ok (by decide +kernel),
    differ (by decide +kernel) (ok (by decide +kernel)) (ok (by decide +kernel))⟩

end Program

end Readback
