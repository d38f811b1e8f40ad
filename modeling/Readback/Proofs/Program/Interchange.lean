import Readback.Program.Interchange
import Readback.Proofs.Data.Interned
import Readback.Proofs.Json.Codec
import Readback.Proofs.Program.Term
import Readback.Proofs.Typing.Construction

/-! # Programs and their interchange form

The interchange form of a program gives the program back if all its floating literals are finite
(`Program.floatsFinite`), and cannot be read otherwise. Ids, widths and sizes are written with a fixed
width, which they have to fit.

The form is nested as the program is, so the proof is, too: for each type of the model there is a
function `fits`, which says which numbers in it have to fit, and a lemma `ofJson?_toJson`, that reading
what was written gives the value back.

* Tags: enumerations are written as texts, and their tags are different (`Builtin.ofTag?_tag`,
  `BinaryOp.ofTag?_tag` and so on).
* Choices: a constructor with data is written as an object with one key. The `@[simp]` lemmas
  `ofJson?_tagged` take the key off, and the rest is a case distinction on constructors.
* Records: an object is written with all its keys in order. Reading looks keys up, so what is read does
  not depend on the order, but keys must be different.
* Tables: the nodes of a table come back in their places. A table of types is read by interning its
  nodes one after the other, which keeps their places because no node is there twice
  (`TypeArena.ofJson?_toJson`).

Floating literals are the only values that may not come back. The result, `Program.ofJson?_toJson`, says
of every program whose numbers fit what reading its form gives: the program if all its literals are
finite, and nothing otherwise. -/

namespace Readback

open Json

/-! ### Tags -/

theorem Builtin.ofTag?_tag (k : Builtin) : ofTag? k.tag = some k := by cases k <;> rfl

theorem Storage.ofTag?_tag (s : Storage) : ofTag? s.tag = some s := by cases s <;> rfl

theorem UnaryOp.ofTag?_tag (op : UnaryOp) : ofTag? op.tag = some op := by cases op <;> rfl

theorem BinaryOp.ofTag?_tag (op : BinaryOp) : ofTag? op.tag = some op := by cases op <;> rfl

theorem CastStyle.ofTag?_tag (s : CastStyle) : ofTag? s.tag = some s := by cases s <;> rfl

theorem ValueCategory.ofTag?_tag (c : ValueCategory) : ofTag? c.tag = some c := by cases c <;> rfl

theorem Conversion.ofName?_name (c : Conversion) : ofName? c.name = some c := by cases c <;> rfl

/-! ### Targets and types -/

namespace Target

/-- Whether the widths fit. -/
def fits (t : Target) : Bool :=
  isIndex t.shortWidth && isIndex t.intWidth && isIndex t.longWidth && isIndex t.longLongWidth &&
    isIndex t.pointerWidth

theorem ofJson?_toJson {t : Target} (h : t.fits) : ofJson? t.toJson = some t := by
  simp only [fits, Bool.and_eq_true] at h
  simp [ofJson?, toJson, text?, bool?, index?_ofNat, h]

end Target

theorem Quals.ofJson?_toJson (q : Quals) : ofJson? q.toJson = some q := by
  simp [ofJson?, toJson, bool?]

namespace QualType

/-- Whether the id of the type fits. -/
def fits (t : QualType) : Bool := isIndex t.ref

theorem ofJson?_toJson {t : QualType} (h : t.fits) : ofJson? t.toJson = some t := by
  simp [ofJson?, toJson, index?_ofNat h, Quals.ofJson?_toJson]

theorem listOf?_ofJson?_toJson {ts : List QualType} (h : ts.all fits) :
    listOf? ofJson? (.list (ts.map toJson)) = some ts :=
  listOf?_map_self fun t ht => ofJson?_toJson (List.all_eq_true.mp h t ht)

end QualType

namespace TypeNode

/-- Whether the ids and the size fit. -/
def fits : TypeNode → Bool
  | .builtin _ => true
  | .pointer pointee => pointee.fits
  | .array element size => element.fits && size.all isSize
  | .function result params _ => result.fits && params.all QualType.fits
  | .record decl => isIndex decl

@[simp] theorem ofJson?_tagged (tag : String) (content : Json) :
    ofJson? (tagged tag content) = ofChoice? tag content := rfl

theorem ofJson?_toJson {n : TypeNode} (h : n.fits) : ofJson? n.toJson = some n := by
  cases n with
  | builtin kind => simp [toJson, ofChoice?, Builtin.ofTag?_tag]
  | pointer pointee => simp [toJson, ofChoice?, QualType.ofJson?_toJson h]
  | array element size =>
      obtain ⟨helement, hsize⟩ := Bool.and_eq_true_iff.mp h
      cases size with
      | none => simp [toJson, ofChoice?, QualType.ofJson?_toJson helement]
      | some size =>
          have hread : size? (ofNat size) = some size := size?_ofNat (by simpa using hsize)
          simp [toJson, ofChoice?, QualType.ofJson?_toJson helement, hread]
  | function result params isVariadic =>
      obtain ⟨hresult, hparams⟩ := Bool.and_eq_true_iff.mp h
      simp [toJson, ofChoice?, bool?, QualType.ofJson?_toJson hresult,
        QualType.listOf?_ofJson?_toJson hparams]
  | record decl => simp [toJson, ofChoice?, index?_ofNat h]

end TypeNode

/-- The nodes of a table come back in their places. -/
theorem TypeArena.ofJson?_toJson {a : TypeArena} (h : a.entries.toList.all TypeNode.fits)
    (distinct : Interned.Distinct a) : ofJson? a.toJson = some a := by
  have hnodes : listOf? TypeNode.ofJson? (.list (a.entries.toList.map TypeNode.toJson)) =
      some a.entries.toList :=
    listOf?_map_self fun n hn => TypeNode.ofJson?_toJson (List.all_eq_true.mp h n hn)
  simp [ofJson?, toJson, hnodes, distinct.ofList_entries]

/-! ### Declarations -/

namespace Scope

/-- Whether the id of the owner fits. -/
def fits (s : Scope) : Bool := s.owner?.all isIndex

theorem ofJson?_toJson {s : Scope} (h : s.fits) : ofJson? s.toJson = some s := by
  cases s with
  | file => rfl
  | function decl => simp [ofJson?, toJson, index?_ofNat h]
  | record decl => simp [ofJson?, toJson, index?_ofNat h]

end Scope

namespace DeclKind

/-- Whether the ids and positions fit. -/
def fits : DeclKind → Bool
  | .function type params body locals =>
    type.fits && params.all isIndex && body.all isIndex && locals.all isIndex
  | .param type index => type.fits && isSize index
  | .var type init _ => type.fits && init.all isIndex
  | .record fields => fields.all isIndex
  | .field type index => type.fits && isSize index

@[simp] theorem ofJson?_tagged (tag : String) (content : Json) :
    ofJson? (tagged tag content) = ofChoice? tag content := rfl

theorem ofJson?_toJson {k : DeclKind} (h : k.fits) : ofJson? k.toJson = some k := by
  cases k with
  | function type params body locals =>
      simp only [fits, Bool.and_eq_true] at h
      obtain ⟨⟨⟨htype, hparams⟩, hbody⟩, hlocals⟩ := h
      simp [toJson, ofChoice?, QualType.ofJson?_toJson htype, listOf?_ofNats hparams,
        optional_index?_ofNat hbody, listOf?_ofNats hlocals]
  | param type index =>
      obtain ⟨htype, hindex⟩ := Bool.and_eq_true_iff.mp h
      simp [toJson, ofChoice?, QualType.ofJson?_toJson htype, size?_ofNat hindex]
  | var type init storage =>
      obtain ⟨htype, hinit⟩ := Bool.and_eq_true_iff.mp h
      simp [toJson, ofChoice?, QualType.ofJson?_toJson htype, optional_index?_ofNat hinit,
        Storage.ofTag?_tag]
  | record fields => simp [toJson, ofChoice?, listOf?_ofNats h]
  | field type index =>
      obtain ⟨htype, hindex⟩ := Bool.and_eq_true_iff.mp h
      simp [toJson, ofChoice?, QualType.ofJson?_toJson htype, size?_ofNat hindex]

end DeclKind

namespace Decl

/-- Whether the ids and positions fit. -/
def fits (d : Decl) : Bool := isIndex d.id && d.scope.fits && d.kind.fits

theorem ofJson?_toJson {d : Decl} (h : d.fits) : ofJson? d.toJson = some d := by
  simp only [fits, Bool.and_eq_true] at h
  obtain ⟨⟨hid, hscope⟩, hkind⟩ := h
  simp [ofJson?, toJson, text?, index?_ofNat hid, Scope.ofJson?_toJson hscope,
    DeclKind.ofJson?_toJson hkind]

end Decl

/-! ### Statements -/

namespace StmtKind

/-- Whether the ids fit. -/
def fits : StmtKind → Bool
  | .compound body => body.all isIndex
  | .returns value => value.all isIndex
  | .ifElse cond yes no => isIndex cond && isIndex yes && no.all isIndex
  | .whileLoop cond body => isIndex cond && isIndex body
  | .doLoop body cond => isIndex body && isIndex cond
  | .forLoop init cond inc body =>
    init.all isIndex && cond.all isIndex && inc.all isIndex && isIndex body
  | .breaks | .continues | .empty => true
  | .declares decls => decls.all isIndex
  | .expr e => isIndex e

@[simp] theorem ofJson?_tagged (tag : String) (content : Json) :
    ofJson? (tagged tag content) = ofChoice? tag (some content) := rfl

theorem ofJson?_toJson {k : StmtKind} (h : k.fits) : ofJson? k.toJson = some k := by
  cases k with
  | compound body => simp [toJson, ofChoice?, listOf?_ofNats h]
  | returns value => simp [toJson, ofChoice?, optional_index?_ofNat h]
  | ifElse cond yes no =>
      simp only [fits, Bool.and_eq_true] at h
      obtain ⟨⟨hcond, hyes⟩, hno⟩ := h
      simp [toJson, ofChoice?, index?_ofNat hcond, index?_ofNat hyes, optional_index?_ofNat hno]
  | whileLoop cond body =>
      obtain ⟨hcond, hbody⟩ := Bool.and_eq_true_iff.mp h
      simp [toJson, ofChoice?, index?_ofNat hcond, index?_ofNat hbody]
  | doLoop body cond =>
      obtain ⟨hbody, hcond⟩ := Bool.and_eq_true_iff.mp h
      simp [toJson, ofChoice?, index?_ofNat hcond, index?_ofNat hbody]
  | forLoop init cond inc body =>
      simp only [fits, Bool.and_eq_true] at h
      obtain ⟨⟨⟨hinit, hcond⟩, hinc⟩, hbody⟩ := h
      simp [toJson, ofChoice?, optional_index?_ofNat hinit, optional_index?_ofNat hcond,
        optional_index?_ofNat hinc, index?_ofNat hbody]
  | breaks => rfl
  | continues => rfl
  | empty => rfl
  | declares decls => simp [toJson, ofChoice?, listOf?_ofNats h]
  | expr e => simp [toJson, ofChoice?, index?_ofNat h]

end StmtKind

namespace Stmt

/-- Whether the ids fit. -/
def fits (s : Stmt) : Bool := isIndex s.id && s.kind.fits

theorem ofJson?_toJson {s : Stmt} (h : s.fits) : ofJson? s.toJson = some s := by
  obtain ⟨hid, hkind⟩ := Bool.and_eq_true_iff.mp h
  simp [ofJson?, toJson, index?_ofNat hid, StmtKind.ofJson?_toJson hkind]

end Stmt

/-! ### Expressions -/

namespace ExprKind

/-- Whether the ids fit. -/
def fits : ExprKind → Bool
  | .ref decl => isIndex decl
  | k => k.parts.all isIndex

/-- Whether it is not a literal of an infinity or a NaN. -/
def isFinite : ExprKind → Bool
  | .floating value => value.isFinite
  | _ => true

@[simp] theorem ofJson?_tagged (tag : String) (content : Json) :
    ofJson? (tagged tag content) = ofChoice? tag content := rfl

theorem ofJson?_toJson {k : ExprKind} (h : k.fits) :
    ofJson? k.toJson = if k.isFinite then some k else none := by
  cases k with
  | integer value => simp [toJson, ofChoice?, isFinite, integer?_ofInteger]
  | floating value =>
      have hread := float?_ofFloat value
      cases hv : value.isFinite <;> simp [toJson, ofChoice?, isFinite, hread, hv]
  | text value => simp [toJson, ofChoice?, isFinite, text?]
  | ref decl => simp [toJson, ofChoice?, isFinite, index?_ofNat h]
  | paren inner =>
      simp only [fits, parts, List.all_cons, Bool.and_eq_true] at h
      simp [toJson, ofChoice?, isFinite, index?_ofNat h.1]
  | unary op operand =>
      simp only [fits, parts, List.all_cons, Bool.and_eq_true] at h
      simp [toJson, ofChoice?, isFinite, UnaryOp.ofTag?_tag, index?_ofNat h.1]
  | binary op lhs rhs =>
      simp only [fits, parts, List.all_cons, Bool.and_eq_true] at h
      simp [toJson, ofChoice?, isFinite, BinaryOp.ofTag?_tag, index?_ofNat h.1, index?_ofNat h.2.1]
  | cast style conversion operand =>
      simp only [fits, parts, List.all_cons, Bool.and_eq_true] at h
      simp [toJson, ofChoice?, isFinite, CastStyle.ofTag?_tag, Conversion.ofName?_name,
        index?_ofNat h.1]
  | initList elements =>
      have h : elements.all isIndex := h
      simp [toJson, ofChoice?, isFinite, listOf?_ofNats h]
  | call callee args =>
      simp only [fits, parts, List.all_cons, Bool.and_eq_true] at h
      simp [toJson, ofChoice?, isFinite, index?_ofNat h.1, listOf?_ofNats h.2]

end ExprKind

namespace Expr

/-- Whether the ids fit. -/
def fits (x : Expr) : Bool := isIndex x.id && isIndex x.stmt && x.kind.fits && x.type.fits

theorem ofJson?_toJson {x : Expr} (h : x.fits) :
    ofJson? x.toJson = if x.kind.isFinite then some x else none := by
  simp only [fits, Bool.and_eq_true] at h
  obtain ⟨⟨⟨hid, hstmt⟩, hkind⟩, htype⟩ := h
  have hread := ExprKind.ofJson?_toJson hkind
  cases hf : x.kind.isFinite <;>
    simp [ofJson?, toJson, index?_ofNat hid, index?_ofNat hstmt, hread, hf,
      QualType.ofJson?_toJson htype, ValueCategory.ofTag?_tag]

end Expr

/-! ### Programs -/

namespace Program

/-- Whether all numbers but those of literals fit their widths: 32 bits for ids and widths of types,
64 bits for sizes of arrays and positions of parameters and fields. -/
def fits (p : Program) : Bool :=
  p.target.fits && p.types.entries.toList.all TypeNode.fits && p.decls.toList.all Decl.fits &&
    p.stmts.toList.all Stmt.fits && p.exprs.toList.all Expr.fits && p.topLevel.all isIndex

/-- Whether all floating literals are finite. -/
def floatsFinite (p : Program) : Bool := p.exprs.toList.all fun x => x.kind.isFinite

/-- The interchange form gives the program back if all its floating literals are finite, and none
otherwise. -/
theorem ofJson?_toJson {p : Program} (h : p.fits) (distinct : p.types.Distinct) :
    ofJson? p.toJson = if p.floatsFinite then some p else none := by
  simp only [fits, Bool.and_eq_true, List.all_eq_true] at h
  obtain ⟨⟨⟨⟨⟨htarget, htypes⟩, hdecls⟩, hstmts⟩, hexprs⟩, htop⟩ := h
  have hexprs : listOf? Expr.ofJson? (.list (p.exprs.toList.map Expr.toJson)) =
      if p.floatsFinite then some p.exprs.toList else none :=
    listOf?_map fun x hx => Expr.ofJson?_toJson (hexprs x hx)
  cases hf : p.floatsFinite <;>
    simp [ofJson?, toJson, Target.ofJson?_toJson htarget,
      TypeArena.ofJson?_toJson (List.all_eq_true.mpr htypes) distinct,
      listOf?_map_self fun d hd => Decl.ofJson?_toJson (hdecls d hd),
      listOf?_map_self fun s hs => Stmt.ofJson?_toJson (hstmts s hs),
      hexprs, listOf?_ofNats (List.all_eq_true.mpr htop), hf]

end Program

end Readback
