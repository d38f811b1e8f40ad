import Readback.Layout.Unit
import Readback.Proofs.Layout.Printable

/-! # Writing succeeds

A printable program can be written: writing it meets no error, and the bound on the depth of the nesting
plays no part in it.

* `Total` says that a writing step succeeds on every state. It is kept by sequences and by blocks
  (`Total.bind`, `Total.forM`, `block_total`, `nested_total`).
* Writing fails in few places: at a declaration that is not of a sort that can be written where it
  stands, at a function without a function type, and at the bound. A printable program has none of the
  first two.
* As for the bound, statements get smaller from one level to the next: inside a compound stand
  statements before it (`compound_total`), and the body of a conditional or a loop is a statement before
  it (`body_total`). What a body declares has no body of its own (`decl_local_total`), so declarations
  do not nest any further.

Every node has a lemma `f_total`, that it is written without error if the nodes inside it are, and a
lemma `f_congr`, that it is written alike by two ways to write the nodes inside it if these agree. The
first ones give `Program.Printable.text_ok`: writing a printable program succeeds. The second ones give
`Program.Printable.emit_eq`: any two bounds that are large enough write the same, so the bound is not
part of what a program is written as. -/

namespace Readback

namespace Step

variable {ε σ α β : Type}

/-- The step succeeds on every state. -/
def Total (m : EStateM ε σ α) : Prop := ∀ s, ∃ a t, m s = .ok a t

theorem Total.pure (a : α) : Total (pure a : EStateM ε σ α) := fun s => ⟨a, s, rfl⟩

theorem Total.get : Total (get : EStateM ε σ σ) := fun s => ⟨s, s, rfl⟩

theorem Total.modify (f : σ → σ) : Total (modify f : EStateM ε σ PUnit) := fun s => ⟨_, f s, rfl⟩

theorem Total.bind {m : EStateM ε σ α} {f : α → EStateM ε σ β} (hm : Total m)
    (hf : ∀ a, Total (f a)) : Total (m >>= f) := by
  intro s
  obtain ⟨a, t, hmt⟩ := hm s
  obtain ⟨b, u, hfu⟩ := hf a t
  exact ⟨b, u, bind_eq_ok.mpr ⟨a, t, hmt, hfu⟩⟩

theorem Total.forM {f : α → EStateM ε σ PUnit} {l : List α} (hf : ∀ a ∈ l, Total (f a)) :
    Total (l.forM f) := by
  induction l with
  | nil => exact .pure _
  | cons a l ih =>
      exact .bind (hf a List.mem_cons_self) fun _ => ih fun b hb => hf b (List.mem_cons_of_mem a hb)

end Step

open Step Program

theorem forM_congr {ε σ α : Type} {f g : α → EStateM ε σ PUnit} {l : List α}
    (h : ∀ a ∈ l, f a = g a) : l.forM f = l.forM g := by
  induction l with
  | nil => rfl
  | cons a l ih =>
      show (f a >>= fun _ => l.forM f) = (g a >>= fun _ => l.forM g)
      rw [h a List.mem_cons_self, ih fun b hb => h b (List.mem_cons_of_mem a hb)]

namespace Write

/-! ### Pieces of a page -/

theorem line_total (text : String) : Total (line text) := .modify _

theorem keyword_total (text : String) : Total (keyword text) := .bind .get fun _ => .pure _

theorem exprText_total (p : Program) (showCasts : Bool) (e : ExprId) :
    Total (exprText p showCasts e) := .bind .get fun _ => .pure _

theorem keywordStmt_total (text : String) : Total (keywordStmt text) :=
  .bind (keyword_total text) fun _ => line_total _

theorem ofExcept_total {α : Type} {x : Except LayoutError α} {a : α} (h : x = .ok a) :
    Total (ofExcept x) := by
  rw [h]
  exact .pure a

theorem block_total (header trailer : String) {body : Write Unit} (hbody : Total body) :
    Total (block header trailer body) :=
  .bind (line_total _) fun _ => .bind (.modify _) fun _ => .bind hbody fun _ =>
    .bind (.modify _) fun _ => line_total _

theorem nested_total {body : Write Unit} (hbody : Total body) : Total (nested body) := by
  intro page
  obtain ⟨_, t, ht⟩ := hbody page.deeper
  exact ⟨(), t.shallower, by rw [nested, ht]⟩

/-! ### Nodes -/

section Nodes

variable {p : Program} {showCasts : Bool} {emit emit' : UnitNode → Write Unit}

/-- A body consists of statements up to the one that it is. -/
theorem body_total (h : p.Printable) {b : Nat} (hemit : ∀ x ≤ b, Total (emit (.stmt x))) :
    Total (body p emit b) := by
  unfold body
  split
  · next stmts hk =>
      refine .forM fun x hx => hemit x (Nat.le_of_lt ((h.laid b).inner x ?_))
      rw [hk]
      exact hx
  · exact hemit b (Nat.le_refl b)

theorem body_congr (h : p.Printable) {b : Nat} (hemit : ∀ x ≤ b, emit (.stmt x) = emit' (.stmt x)) :
    body p emit b = body p emit' b := by
  unfold body
  split
  · next stmts hk =>
      refine forM_congr fun x hx => hemit x (Nat.le_of_lt ((h.laid b).inner x ?_))
      rw [hk]
      exact hx
  · exact hemit b (Nat.le_refl b)

/-- Inside a compound stand statements before it. -/
theorem compound_total (h : p.Printable) {i : Nat} {l : List StmtId}
    (hk : (p.stmt i).kind = .compound l) (hemit : ∀ x < i, Total (emit (.stmt x))) :
    Total (body p emit i) := by
  rw [body, hk]
  refine .forM fun x hx => hemit x ((h.laid i).inner x ?_)
  rw [hk]
  exact hx

theorem stmt_total (h : p.Printable) {i : Nat} (hemit : ∀ x < i, Total (emit (.stmt x)))
    (hdecl : ∀ d ∈ (p.stmt i).kind.declared, Total (emit (.decl d))) :
    Total (stmt p showCasts emit i) := by
  have hlaid := h.laid i
  have inner {b : Nat} (hb : b ∈ (p.stmt i).kind.inner) : Total (body p emit b) :=
    body_total h fun x hx => hemit x (Nat.lt_of_le_of_lt hx (hlaid.inner b hb))
  unfold stmt
  cases hk : (p.stmt i).kind with
  | compound l =>
      exact .bind (line_total _) fun _ => .bind (nested_total (compound_total h hk hemit)) fun _ =>
        line_total _
  | returns value =>
      cases value with
      | none => exact keywordStmt_total _
      | some e =>
          exact .bind (exprText_total p showCasts e) fun _ => .bind (keyword_total _) fun _ =>
            line_total _
  | ifElse cond yes no =>
      refine .bind (exprText_total p showCasts cond) fun _ => .bind (keyword_total _) fun _ =>
        .bind (line_total _) fun _ =>
        .bind (nested_total (inner (by simp [hk, StmtKind.inner]))) fun _ => ?_
      cases no with
      | none => exact line_total _
      | some no =>
          exact .bind (keyword_total _) fun _ => .bind (line_total _) fun _ =>
            .bind (nested_total (inner (by simp [hk, StmtKind.inner]))) fun _ => line_total _
  | whileLoop cond b =>
      exact .bind (exprText_total p showCasts cond) fun _ => .bind (keyword_total _) fun _ =>
        block_total _ _ (inner (by simp [hk, StmtKind.inner]))
  | doLoop b cond =>
      exact .bind (exprText_total p showCasts cond) fun _ => .bind (keyword_total _) fun _ =>
        .bind (keyword_total _) fun _ => block_total _ _ (inner (by simp [hk, StmtKind.inner]))
  | forLoop init cond inc b =>
      have hinit : init = none := by simpa [hk, StmtKind.initial?] using hlaid.initial
      subst hinit
      exact .bind .get fun _ => .bind (.pure _) fun _ => .bind (keyword_total _) fun _ =>
        block_total _ _ (inner (by simp [hk, StmtKind.inner]))
  | breaks => exact keywordStmt_total _
  | continues => exact keywordStmt_total _
  | empty => exact line_total _
  | declares decls => exact .forM fun d hd => hdecl d (by rw [hk]; exact hd)
  | expr e => exact .bind (exprText_total p showCasts e) fun _ => line_total _

theorem stmt_congr (h : p.Printable) {i : Nat} (hemit : ∀ x < i, emit (.stmt x) = emit' (.stmt x))
    (hdecl : ∀ d ∈ (p.stmt i).kind.declared, emit (.decl d) = emit' (.decl d)) :
    stmt p showCasts emit i = stmt p showCasts emit' i := by
  have hlaid := h.laid i
  have inner {b : Nat} (hb : b ∈ (p.stmt i).kind.inner) : body p emit b = body p emit' b :=
    body_congr h fun x hx => hemit x (Nat.lt_of_le_of_lt hx (hlaid.inner b hb))
  unfold stmt
  cases hk : (p.stmt i).kind with
  | compound l =>
      have hbody : body p emit i = body p emit' i := by
        rw [body, body, hk]
        exact forM_congr fun x hx => hemit x (hlaid.inner x (by rw [hk]; exact hx))
      simp only [hbody]
  | ifElse cond yes no =>
      have hyes := inner (b := yes) (by simp [hk, StmtKind.inner])
      cases no with
      | none => simp only [hyes]
      | some no => simp only [hyes, inner (b := no) (by simp [hk, StmtKind.inner])]
  | whileLoop cond b => simp only [inner (b := b) (by simp [hk, StmtKind.inner])]
  | doLoop b cond => simp only [inner (b := b) (by simp [hk, StmtKind.inner])]
  | forLoop init cond inc b => simp only [inner (b := b) (by simp [hk, StmtKind.inner])]
  | declares decls => exact forM_congr fun d hd => hdecl d (by rw [hk]; exact hd)
  | returns value => cases value <;> rfl
  | _ => rfl

/-- A variable or record has no body. -/
theorem decl_local_total (h : p.Printable) {d : DeclId} (hd : d < p.decls.size)
    (hlocal : (p.decl d).kind.IsLocal) : Total (decl p showCasts emit d) := by
  have hlaid := h.decls d hd
  unfold decl
  cases hk : (p.decl d).kind with
  | var type init storage =>
      simp only [hk]
      refine .bind .get fun page => .bind ?_ fun _ => line_total _
      unfold varText
      simp only [hk]
      exact .pure _
  | record fields =>
      simp only [hk]
      refine .bind (keyword_total _) fun _ => block_total _ _ (.forM fun f hf => ?_)
      rw [hk] at hlaid
      obtain ⟨_, hfield⟩ := hlaid f hf
      unfold field
      cases hkf : (p.decl f).kind with
      | field type index =>
          simp only [hkf]
          exact line_total _
      | _ =>
          rw [hkf] at hfield
          exact hfield.elim
  | _ =>
      rw [hk] at hlocal
      exact hlocal.elim

theorem decl_local_congr {d : DeclId} (hlocal : (p.decl d).kind.IsLocal) :
    decl p showCasts emit d = decl p showCasts emit' d := by
  unfold decl
  cases hk : (p.decl d).kind with
  | var type init storage => simp only [hk]
  | record fields => simp only [hk]
  | _ =>
      rw [hk] at hlocal
      exact hlocal.elim

theorem functionHeader_ok {d : DeclId} {type : QualType} {params locals : List DeclId}
    {body : Option StmtId} (hk : (p.decl d).kind = .function type params body locals)
    (htype : p.isFunction type = true) : ∃ text, p.functionHeader d = .ok text := by
  unfold Program.isFunction at htype
  split at htype
  · next result paramTypes isVariadic hn =>
      simp only [functionHeader, hk, functionParts?, hn]
      exact ⟨_, rfl⟩
  · cases htype

theorem decl_total (h : p.Printable) {d : DeclId} (hd : d < p.decls.size)
    (hunit : (p.decl d).kind.IsUnit) (hemit : ∀ x < p.stmts.size, Total (emit (.stmt x))) :
    Total (decl p showCasts emit d) := by
  cases hk : (p.decl d).kind with
  | function type params b locals =>
      have hlaid := h.decls d hd
      rw [hk] at hlaid
      obtain ⟨text, htext⟩ := functionHeader_ok hk hlaid.1
      unfold decl
      simp only [hk]
      cases b with
      | none => exact .bind (ofExcept_total htext) fun _ => line_total _
      | some b =>
          refine .bind (ofExcept_total htext) fun _ => block_total _ _ (body_total h fun x hx => ?_)
          exact hemit x (Nat.lt_of_le_of_lt hx (hlaid.2 b rfl))
  | _ => exact decl_local_total h hd (by rw [hk] at hunit ⊢; exact hunit)

theorem decl_congr (h : p.Printable) {d : DeclId} (hd : d < p.decls.size)
    (hunit : (p.decl d).kind.IsUnit) (hemit : ∀ x < p.stmts.size, emit (.stmt x) = emit' (.stmt x)) :
    decl p showCasts emit d = decl p showCasts emit' d := by
  cases hk : (p.decl d).kind with
  | function type params b locals =>
      have hlaid := h.decls d hd
      rw [hk] at hlaid
      unfold decl
      simp only [hk]
      cases b with
      | none => rfl
      | some b =>
          have hbody : body p emit b = body p emit' b :=
            body_congr h fun x hx => hemit x (Nat.lt_of_le_of_lt hx (hlaid.2 b rfl))
          simp only [hbody]
  | _ => exact decl_local_congr (by rw [hk] at hunit ⊢; exact hunit)

/-! ### Whole programs -/

theorem emitAux_stmt_total (h : p.Printable) :
    ∀ (n : Nat) (i : Nat), i + 2 ≤ n → Total (emitAux p showCasts n (.stmt i)) := by
  intro n
  induction n with
  | zero => intro i hi; omega
  | succ n ih =>
      intro i hi
      refine stmt_total h (fun x hx => ih x (by omega)) fun d hd => ?_
      obtain ⟨hlt, hlocal⟩ := (h.laid i).declared d hd
      obtain ⟨m, rfl⟩ : ∃ m, n = m + 1 := ⟨n - 1, by omega⟩
      exact decl_local_total h hlt hlocal

theorem emitAux_stmt_eq (h : p.Printable) :
    ∀ (n m : Nat) (i : Nat), i + 2 ≤ n → i + 2 ≤ m →
      emitAux p showCasts n (.stmt i) = emitAux p showCasts m (.stmt i) := by
  intro n
  induction n with
  | zero => intro m i hi; omega
  | succ n ih =>
      intro m i hi hm
      obtain ⟨m, rfl⟩ : ∃ k, m = k + 1 := ⟨m - 1, by omega⟩
      refine stmt_congr h (fun x hx => ih m x (by omega) (by omega)) fun d hd => ?_
      obtain ⟨hlt, hlocal⟩ := (h.laid i).declared d hd
      obtain ⟨n, rfl⟩ : ∃ k, n = k + 1 := ⟨n - 1, by omega⟩
      obtain ⟨m, rfl⟩ : ∃ k, m = k + 1 := ⟨m - 1, by omega⟩
      exact decl_local_congr hlocal

theorem emit_total (h : p.Printable) {d : DeclId} (hd : d ∈ p.topLevel) :
    Total (Write.emit p showCasts (.decl d)) := by
  obtain ⟨hlt, hunit⟩ := h.topLevel d hd
  have hsize : 0 < p.decls.size := Nat.zero_lt_of_lt hlt
  exact decl_total h hlt hunit fun x hx => emitAux_stmt_total h _ x (by omega)

end Nodes

theorem decls_total {p : Program} (h : p.Printable) (c : Config) (separate : Bool) {ds : List DeclId}
    (hds : ∀ d ∈ ds, d ∈ p.topLevel) : Total (decls p c separate ds) := by
  induction ds generalizing separate with
  | nil => exact .pure _
  | cons d ds ih =>
      have rest : Total (do
          Write.emit p c.showImplicitCasts (.decl d)
          decls p c c.blankLineBetweenDecls ds) :=
        .bind (emit_total h (hds d List.mem_cons_self)) fun _ =>
          ih _ fun x hx => hds x (List.mem_cons_of_mem d hx)
      unfold decls
      dsimp only
      split
      · exact .bind (.modify _) fun _ => rest
      · exact rest

end Write

namespace Program.Printable

variable {p : Program}

/-- Writing a printable program succeeds. -/
theorem text_ok (h : p.Printable) (c : Config) : ∃ text, p.text c = .ok text := by
  obtain ⟨_, page, hpage⟩ := Write.decls_total h c false (fun _ hd => hd) (Page.ofConfig c)
  refine ⟨page.text, ?_⟩
  unfold Program.text Write.program
  rw [hpage]

/-- No deeper nesting than that of the bound occurs. -/
theorem emit_eq (h : p.Printable) {d : DeclId} (hd : d ∈ p.topLevel) (showCasts : Bool) {n : Nat}
    (hn : p.decls.size + p.stmts.size + 1 ≤ n) :
    Write.emitAux p showCasts n (.decl d) = Write.emit p showCasts (.decl d) := by
  obtain ⟨hlt, hunit⟩ := h.topLevel d hd
  have hsize : 0 < p.decls.size := Nat.zero_lt_of_lt hlt
  obtain ⟨n, rfl⟩ : ∃ k, n = k + 1 := ⟨n - 1, by omega⟩
  exact Write.decl_congr h hlt hunit fun x hx =>
    Write.emitAux_stmt_eq h _ _ x (by omega) (by omega)

end Program.Printable

end Readback
