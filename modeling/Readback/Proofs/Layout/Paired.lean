import Readback.Proofs.Layout.Total
import Readback.Proofs.Program.Paired

/-! # The text of paired declarations

Programs that match have the same text, piece by piece. The numbers of nodes do not show in it.

* Alike types have the same declarators around the same text (`Denotes.declarator_eq`), because a
  declarator is a matter of the type of C. Records are the exception: their names are looked up by
  number. Where no type is that of a record, this does not show.
* Paired expressions unfold to the same terms up to the numbers of what they refer to, and paired
  references name declarations of the same name, so they have the same pieces and bind as tightly
  (`Twins.term_eq`).
* Heads of functions and variables are made of these (`Twins.functionHeader_eq`, `Twins.varText_eq`).
* Statements and declarations are written by steps. Paired ones are written by the same steps
  (`Twins.stmt_eq`, `Twins.decl_eq`), given that what stands inside them is; and since what stands
  inside is nested less deeply, that can be assumed.

`Twins` collects what is asked: the programs match in full, and each of them can be written.

The result is `Twins.emitAux_eq`: paired statements, and paired declarations that may stand by
themselves, are written by the same steps. As these are equal as functions of the page, the texts are
the same on every page, at every level and in every configuration. -/

namespace Readback

open Step

/-! ### Types -/

namespace TypeArena

variable {a : TypeArena}

mutual

/-- Where no type is that of a record, the names of records do not show. -/
theorem Denotes.declarator_eq (ha : a.Recordless) (tag tag' : DeclId → String) :
    ∀ {t : QualType} (c : CType) (_ : a.Denotes t c) (outer : Quals) (inner : String),
      c.declarator tag' outer inner = c.declarator tag outer inner
  | _, .builtin _ _, _, _, _ => rfl
  | _, .record _ _, h, _, _ => absurd h.2 (ha _ _)
  | _, .pointer _ c, ⟨_, _, _, hx⟩, _, _ => hx.declarator_eq ha tag tag' c _ _
  | _, .array _ c _, ⟨_, _, _, hx⟩, _, _ => hx.declarator_eq ha tag tag' c _ _
  | _, .function _ c cs _, ⟨_, _, _, _, hx, hxs⟩, outer, inner => by
    unfold CType.declarator
    rw [hxs.paramTexts_eq ha tag tag' cs]
    exact hx.declarator_eq ha tag tag' c _ _

theorem DenoteAll.paramTexts_eq (ha : a.Recordless) (tag tag' : DeclId → String) :
    ∀ {ts : List QualType} (cs : List CType) (_ : a.DenoteAll ts cs),
      CType.paramTexts tag' cs = CType.paramTexts tag cs
  | [], [], _ => rfl
  | _ :: _, c :: cs, ⟨h, hs⟩ => by
    unfold CType.paramTexts
    rw [h.declarator_eq ha tag tag' c, hs.paramTexts_eq ha tag tag' cs]
  | [], _ :: _, h => h.elim
  | _ :: _, [], h => h.elim

end

end TypeArena

namespace Program

/-- The programs match in full, and each of them can be written. -/
structure Twins (ρ : Pairing) (p q : Program) : Prop where
  matched : p.Matched ρ (fun _ _ => False) q
  left : p.Printable
  right : q.Printable

namespace Twins

variable {ρ : Pairing} {p q : Program} (h : p.Twins ρ q) {showCasts useColors : Bool}

include h

theorem declarator_eq {t u : QualType} (ht : p.types.Alike q.types t u) (name : String) :
    q.declarator u name = p.declarator t name := by
  obtain ⟨c, hp, hq⟩ := ht
  have hc := hp.unique (h.left.typed.types.denotes t hp.lt)
  have hc' := hq.unique (h.right.typed.types.denotes u hq.lt)
  unfold Program.declarator
  rw [← hc, ← hc']
  exact hp.declarator_eq h.matched.recordless.1 _ _ c _ _

theorem typeText_eq {t u : QualType} (ht : p.types.Alike q.types t u) : q.typeText u = p.typeText t :=
  h.declarator_eq ht ""

/-! ### Expressions -/

omit h in
theorem piecesOf_eq {es es' : List ExprId} (hes : List.Forall₂ ρ.expr es es')
    (hpieces : ∀ e ∈ es, ∀ e', ρ.expr e e' →
      (q.term e').pieces q showCasts useColors = (p.term e).pieces p showCasts useColors) :
    Term.piecesOf q showCasts useColors (es'.map q.term) =
      Term.piecesOf p showCasts useColors (es.map p.term) := by
  induction hes with
  | nil => rfl
  | cons he _ ih =>
      rw [List.map_cons, List.map_cons, Term.piecesOf, Term.piecesOf,
        hpieces _ List.mem_cons_self _ he, ih fun e hmem => hpieces e (List.mem_cons_of_mem _ hmem)]

/-- Paired expressions have the same pieces, and bind as tightly. -/
theorem term_eq {e e' : ExprId} (he : ρ.expr e e') :
    (q.term e').precedence = (p.term e).precedence ∧
      (q.term e').pieces q showCasts useColors = (p.term e).pieces p showCasts useColors := by
  induction e using Nat.strong_induction_on generalizing e' with
  | h e ih =>
      obtain ⟨-, -, hpaired⟩ := h.matched.expr he
      have hparts : ∀ x ∈ (p.expr e).kind.parts, x < e := h.matched.ordered.1 e
      have hkind := hpaired.kind
      have hbuiltin := builtin?_alike h.matched.recordless.1 hpaired.type
      have htext := h.typeText_eq hpaired.type
      rw [h.matched.ordered.1.term_eq e, h.matched.ordered.2.term_eq e']
      unfold termLevel
      generalize (p.expr e).kind = k at hkind hparts ⊢
      generalize (q.expr e').kind = k' at hkind ⊢
      have part {x : Nat} (hx : x ∈ k.parts) {x' : ExprId} (hxx' : ρ.expr x x') := ih x (hparts x hx) hxx'
      cases hkind with
      | integer value => exact ⟨rfl, by simp only [Term.pieces, hbuiltin]⟩
      | floating value => exact ⟨rfl, by simp only [Term.pieces, hbuiltin]⟩
      | text value => exact ⟨rfl, rfl⟩
      | ref hd =>
          obtain ⟨-, -, hname, -⟩ := h.matched.decl hd
          exact ⟨rfl, by simp only [Term.pieces, hname]⟩
      | paren hx => exact ⟨rfl, by simp only [Term.pieces, (part List.mem_cons_self hx).2]⟩
      | unary op hx => exact ⟨rfl, by simp only [Term.pieces, (part List.mem_cons_self hx).2]⟩
      | binary op hl hr =>
          have hleft := (part List.mem_cons_self hl).2
          have hright := (part (List.mem_cons_of_mem _ List.mem_cons_self) hr).2
          exact ⟨rfl, by simp only [Term.pieces, hleft, hright]⟩
      | cast style c hx =>
          obtain ⟨hprecedence, hpieces⟩ := part List.mem_cons_self hx
          cases style with
          | explicit => exact ⟨rfl, by simp only [Term.pieces, hpieces, htext]⟩
          | implicit =>
              exact ⟨hprecedence, by simp only [Term.pieces, hpieces, htext, hprecedence]⟩
      | initList hes =>
          have helements := piecesOf_eq hes fun x hx _ hxx' => (part hx hxx').2
          exact ⟨rfl, by simp only [Term.pieces, helements]⟩
      | call hf hes =>
          have hcallee := (part List.mem_cons_self hf).2
          have hargs := piecesOf_eq hes fun x hx _ hxx' => (part (List.mem_cons_of_mem _ hx) hxx').2
          exact ⟨rfl, by simp only [Term.pieces, hcallee, hargs]⟩

theorem exprText_eq {e e' : ExprId} (he : ρ.expr e e') :
    q.exprText showCasts useColors e' = p.exprText showCasts useColors e := by
  rw [exprText, exprText, (h.term_eq he).2]

/-! ### Heads -/

theorem type?_rel {d d' : DeclId} (hd : ρ.decl d d') :
    Option.Rel (p.types.Alike q.types) (p.decl d).type? (q.decl d').type? := by
  obtain ⟨-, -, -, hkind⟩ := h.matched.decl hd
  unfold Decl.type?
  generalize (p.decl d).kind = k at hkind
  generalize (q.decl d').kind = k' at hkind
  cases hkind with
  | function ht => exact .some ht
  | param ht => exact .some ht
  | var ht => exact .some ht
  | record => exact .none
  | field ht => exact .some ht

theorem typeTexts_eq {ts us : List QualType} (hts : List.Forall₂ (p.types.Alike q.types) ts us) :
    us.map q.typeText = ts.map p.typeText := by
  induction hts with
  | nil => rfl
  | cons ht _ ih => rw [List.map_cons, List.map_cons, h.typeText_eq ht, ih]

/-- A parameter with its name. -/
theorem param_eq {d d' : DeclId} (hd : ρ.decl d d') {t u : QualType} (ht : p.types.Alike q.types t u) :
    q.declarator ((q.decl d').type?.getD u) (q.decl d').name =
      p.declarator ((p.decl d).type?.getD t) (p.decl d).name := by
  obtain ⟨-, -, hname, -⟩ := h.matched.decl hd
  rw [hname]
  have htype := h.type?_rel hd
  generalize (p.decl d).type? = x at htype
  generalize (q.decl d').type? = x' at htype
  cases htype with
  | none => exact h.declarator_eq ht _
  | some hx => exact h.declarator_eq hx _

theorem params_eq {ds ds' : List DeclId} (hds : List.Forall₂ ρ.decl ds ds') {ts us : List QualType}
    (hts : List.Forall₂ (p.types.Alike q.types) ts us) :
    (ds'.zip us).map (fun x => q.declarator ((q.decl x.1).type?.getD x.2) (q.decl x.1).name) =
      (ds.zip ts).map fun x => p.declarator ((p.decl x.1).type?.getD x.2) (p.decl x.1).name := by
  induction hds generalizing ts us with
  | nil => rfl
  | cons hd _ ih =>
      cases hts with
      | nil => rfl
      | cons ht hts =>
          rw [List.zip_cons_cons, List.zip_cons_cons, List.map_cons, List.map_cons, h.param_eq hd ht,
            ih hts]

theorem functionHeader_eq {d d' : DeclId} (hd : ρ.decl d d') :
    q.functionHeader d' = p.functionHeader d := by
  obtain ⟨-, -, hname, hkind⟩ := h.matched.decl hd
  have hfilled := h.matched.filled hd id
  unfold functionHeader
  dsimp only
  rw [hname]
  generalize (p.decl d).kind = k at hkind hfilled
  generalize (q.decl d').kind = k' at hkind hfilled
  cases hkind with
  | function ht =>
      cases hfilled with
      | function _ _ hps _ _ _ =>
          have hparts := functionParts?_alike h.matched.recordless.1 ht
          dsimp only
          generalize p.functionParts? _ = x at hparts
          generalize q.functionParts? _ = x' at hparts
          cases hparts with
          | none => rfl
          | @some y y' hy =>
              obtain ⟨result, ts, isVariadic⟩ := y
              obtain ⟨result', us, isVariadic'⟩ := y'
              obtain ⟨hresult, hts, hvariadic⟩ := hy
              dsimp only at hresult hts hvariadic ⊢
              rw [hvariadic, h.params_eq hps hts, h.typeTexts_eq hts, ← hps.length_eq, ← hts.length_eq,
                h.declarator_eq hresult]
  | _ => rfl

theorem varText_eq {d d' : DeclId} (hd : ρ.decl d d') :
    q.varText showCasts useColors d' = p.varText showCasts useColors d := by
  obtain ⟨-, -, hname, hkind⟩ := h.matched.decl hd
  have hfilled := h.matched.filled hd id
  unfold varText
  dsimp only
  rw [hname]
  generalize (p.decl d).kind = k at hkind hfilled
  generalize (q.decl d').kind = k' at hkind hfilled
  cases hkind with
  | var ht =>
      cases hfilled with
      | var _ _ he _ _ =>
          dsimp only
          rw [h.declarator_eq ht]
          cases he with
          | none => rfl
          | some he => simp only [Option.elim_some, h.exprText_eq he]
  | _ => rfl

/-! ### Statements and declarations -/

omit h in
theorem forM_paired {α β : Type} {R : α → β → Prop} {l : List α} {l' : List β} {f : α → Write Unit}
    {f' : β → Write Unit} (hl : List.Forall₂ R l l') (hf : ∀ x ∈ l, ∀ x', R x x' → f' x' = f x) :
    l'.forM f' = l.forM f := by
  induction hl with
  | nil => rfl
  | cons hx _ ih =>
      show (f' _ >>= fun _ => List.forM _ f') = (f _ >>= fun _ => List.forM _ f)
      rw [hf _ List.mem_cons_self _ hx, ih fun x hx => hf x (List.mem_cons_of_mem _ hx)]

theorem field_eq {d d' : DeclId} (hd : ρ.decl d d') (hfield : (p.decl d).kind.IsField) :
    Write.field q d' = Write.field p d := by
  obtain ⟨-, -, hname, hkind⟩ := h.matched.decl hd
  unfold Write.field
  dsimp only
  rw [hname]
  generalize (p.decl d).kind = k at hkind hfield
  generalize (q.decl d').kind = k' at hkind
  cases hkind with
  | field ht =>
      dsimp only
      rw [h.declarator_eq ht]
  | _ => exact hfield.elim

section Emission

variable {emit emit' : UnitNode → Write Unit}
  (hemit : ∀ {i i'}, ρ.stmt i i' → emit' (.stmt i') = emit (.stmt i))

include hemit

theorem body_eq {i i' : StmtId} (hi : ρ.stmt i i') : Write.body q emit' i' = Write.body p emit i := by
  obtain ⟨-, -, hkind⟩ := h.matched.stmt hi
  unfold Write.body
  generalize (p.stmt i).kind = k at hkind
  generalize (q.stmt i').kind = k' at hkind
  cases hkind with
  | compound hxs => exact forM_paired hxs fun _ _ _ => hemit
  | _ => exact hemit hi

theorem stmt_eq (hdecl : ∀ {d d'}, ρ.decl d d' → (p.decl d).kind.IsUnit → emit' (.decl d') = emit (.decl d))
    {i i' : StmtId} (hi : ρ.stmt i i') :
    Write.stmt q showCasts emit' i' = Write.stmt p showCasts emit i := by
  have hbody := h.body_eq hemit hi
  obtain ⟨-, -, hkind⟩ := h.matched.stmt hi
  have hlaid := h.left.laid i
  have hexpr {e e' : ExprId} (he : ρ.expr e e') :
      Write.exprText q showCasts e' = Write.exprText p showCasts e := by
    unfold Write.exprText
    funext page
    simp only [h.exprText_eq he]
  unfold Write.stmt
  generalize (p.stmt i).kind = k at hkind hlaid
  generalize (q.stmt i').kind = k' at hkind
  cases hkind with
  | compound hxs => simp only [hbody]
  | returns he =>
      cases he with
      | none => rfl
      | some he => simp only [hexpr he]
  | ifElse hc hy hn =>
      cases hn with
      | none => simp only [hexpr hc, h.body_eq hemit hy]
      | some hn => simp only [hexpr hc, h.body_eq hemit hy, h.body_eq hemit hn]
  | whileLoop hc hs => simp only [hexpr hc, h.body_eq hemit hs]
  | doLoop hs hc => simp only [hexpr hc, h.body_eq hemit hs]
  | forLoop hc hi hs =>
      have hpart (useColors : Bool) {e e' : Option ExprId} (he : Option.Rel ρ.expr e e') :
          (e'.elim "" fun e => " " ++ q.exprText showCasts useColors e) =
            e.elim "" fun e => " " ++ p.exprText showCasts useColors e := by
        cases he with
        | none => rfl
        | some he => simp only [Option.elim_some, h.exprText_eq he]
      simp only [hpart _ hc, hpart _ hi, h.body_eq hemit hs]
  | breaks => rfl
  | continues => rfl
  | empty => rfl
  | declares hd =>
      refine forM_paired (.cons hd .nil) fun x hx x' hxx' => hdecl hxx' ?_
      exact (hlaid.declared x hx).2.isUnit
  | expr he => simp only [hexpr he]

theorem decl_eq {d d' : DeclId} (hd : ρ.decl d d') (hunit : (p.decl d).kind.IsUnit) :
    Write.decl q showCasts emit' d' = Write.decl p showCasts emit d := by
  obtain ⟨hlt, -, hname, hkind⟩ := h.matched.decl hd
  have hfilled := h.matched.filled hd id
  have hlaid := h.left.decls d hlt
  unfold Write.decl
  dsimp only
  rw [hname, h.functionHeader_eq hd]
  generalize (p.decl d).kind = k at hkind hfilled hunit hlaid
  generalize (q.decl d').kind = k' at hkind hfilled
  cases hkind with
  | function ht =>
      cases hfilled with
      | function _ _ _ hs _ _ =>
          cases hs with
          | none => rfl
          | some hs => simp only [h.body_eq hemit hs]
  | var ht => simp only [h.varText_eq hd]
  | record =>
      cases hfilled with
      | record hfs =>
          have hfields := forM_paired hfs fun x hx x' hxx' => h.field_eq hxx' (hlaid x hx).2
          simp only [hfields]
  | _ => exact hunit.elim

end Emission

/-- Paired statements, and paired declarations that may stand by themselves, are written by the same
steps. -/
theorem emitAux_eq (n : Nat) :
    (∀ {i i'}, ρ.stmt i i' →
      Write.emitAux q showCasts n (.stmt i') = Write.emitAux p showCasts n (.stmt i)) ∧
    ∀ {d d'}, ρ.decl d d' → (p.decl d).kind.IsUnit →
      Write.emitAux q showCasts n (.decl d') = Write.emitAux p showCasts n (.decl d) := by
  induction n with
  | zero => exact ⟨fun _ => rfl, fun _ _ => rfl⟩
  | succ n ih => exact ⟨h.stmt_eq ih.1 ih.2, h.decl_eq ih.1⟩

end Twins

end Program

end Readback
