import Readback.Proofs.Layout.LineTexts
import Readback.Proofs.Layout.Total
import Readback.Proofs.Layout.Uncoloured
import Readback.Proofs.Lift.Sound
import Readback.Proofs.Lift.Structure

/-! # Statements as blocks

What a declaration or statement is written as, as a tree of lines and blocks: conditionals, loops,
inner scopes, functions and records are blocks around what is inside them, in order, and everything
else is one line.

* `Program.stmtTrees`, `Program.declTrees` and `Program.fieldTrees` give the trees of a node over those of
  the nodes inside it, which they take as a parameter. `Program.trees` ties the knot with a bound on the
  depth, which is never reached in a printable program (`Printable.trees_eq`).
* `Draws` says of a writing step that it writes the lines of certain trees, in given colours, at the level
  of the page, and comes back to that level. It is kept by sequences (`Draws.append`, `Draws.forM`) and
  by blocks (`Draws.block`, `Draws.headed`, and `Draws.halves` for the two halves of a conditional).
* Writing a node draws its trees (`Write.emit_draws`), by induction on the statements inside it. A body
  that is itself a conditional has no braces of its own, which is why `bodyTrees` looks at the statement
  (`bodyNodes_le`).

The trees are fit to be read back (`BraceTree.Fits`): a line opens or closes a block if and only if it
stands at the edge of one, as is seen from its first and last characters. So reading the text that was
added to a page gives the trees again, and the levels of its lines can be counted from the braces
(`Page.Gained`, `Page.gained_drawn`).

The main result is `Graph.lift_blocks`. The program of a lift that succeeds, if its names are
identifiers, is written with its block structure, at any level, in any configuration and after any
lines, and every declaration or statement is one tree (`Printable.trees_single`). -/

namespace Readback

open Step

/-! ### The trees of a node -/

namespace Program

section Trees

variable (p : Program) (showCasts useColors : Bool) (sub : UnitNode → List BraceTree)

/-- The trees of a body, be it a compound statement or not. -/
def bodyTrees (id : StmtId) : List BraceTree := (p.bodyNodes id).flatMap sub

/-- A field of a record. -/
def fieldTrees (id : DeclId) : List BraceTree :=
  match (p.decl id).kind with
  | .field type _ => [.line (p.declarator type (p.decl id).name ++ ";")]
  | _ => []

/-- A declaration; `sub` gives the trees of the nodes inside it. -/
def declTrees (id : DeclId) : List BraceTree :=
  match (p.decl id).kind with
  | .function _ _ body _ =>
    match p.functionHeader id, body with
    | .ok header, none => [.line (header ++ ";")]
    | .ok header, some stmt => [.block (header ++ " \x7b") (p.bodyTrees sub stmt) "\x7d"]
    | .error _, _ => []
  | .var _ _ _ =>
    match p.varText showCasts useColors id with
    | .ok text => [.line (text ++ ";")]
    | .error _ => []
  | .record fields =>
    [.block (keyword useColors "struct" ++ " " ++ (p.decl id).name ++ " \x7b")
      (fields.flatMap p.fieldTrees) "\x7d;"]
  | .param _ _ => []
  | .field _ _ => []

/-- A statement; `sub` gives the trees of the nodes inside it. -/
def stmtTrees (id : StmtId) : List BraceTree :=
  let word := keyword useColors
  let value := p.exprText showCasts useColors
  match (p.stmt id).kind with
  | .compound _ => [.block "\x7b" (p.bodyTrees sub id) "\x7d"]
  | .returns none => [.line (word "return" ++ ";")]
  | .returns (some e) => [.line (word "return" ++ " " ++ value e ++ ";")]
  | .ifElse cond yes none =>
    [.block (word "if" ++ " (" ++ value cond ++ ") \x7b") (p.bodyTrees sub yes) "\x7d"]
  | .ifElse cond yes (some no) =>
    [.halves (word "if" ++ " (" ++ value cond ++ ") \x7b") (p.bodyTrees sub yes)
      ("\x7d " ++ word "else" ++ " \x7b") (p.bodyTrees sub no) "\x7d"]
  | .whileLoop cond inner =>
    [.block (word "while" ++ " (" ++ value cond ++ ")" ++ " \x7b") (p.bodyTrees sub inner) "\x7d"]
  | .doLoop inner cond =>
    [.block (word "do" ++ " \x7b") (p.bodyTrees sub inner)
      ("\x7d" ++ (" " ++ word "while" ++ " (" ++ value cond ++ ");"))]
  | .forLoop init cond inc inner =>
    let part := fun e : Option ExprId => e.elim "" fun e => " " ++ value e
    match init.elim (.ok "") (p.forInitText showCasts useColors) with
    | .ok init =>
      [.block (word "for" ++ " (" ++ init ++ ";" ++ part cond ++ ";" ++ part inc ++ ")" ++ " \x7b")
        (p.bodyTrees sub inner) "\x7d"]
    | .error _ => []
  | .breaks => [.line (word "break" ++ ";")]
  | .continues => [.line (word "continue" ++ ";")]
  | .empty => [.line ";"]
  | .declares decls => decls.flatMap fun d => sub (.decl d)
  | .expr e => [.line (value e ++ ";")]

/-- The trees of a node over those of the nodes inside it. -/
def nodeTrees : UnitNode → List BraceTree
  | .decl id => p.declTrees showCasts useColors sub id
  | .stmt id => p.stmtTrees showCasts useColors sub id

end Trees

/-- The trees of a node with everything inside it. The first number bounds the depth of the
nesting. -/
def treesAux (p : Program) (showCasts useColors : Bool) : Nat → UnitNode → List BraceTree
  | 0, _ => []
  | n + 1, node => p.nodeTrees showCasts useColors (p.treesAux showCasts useColors n) node

/-- The trees of a node with everything inside it. -/
def trees (p : Program) (showCasts useColors : Bool) (node : UnitNode) : List BraceTree :=
  p.treesAux showCasts useColors (p.decls.size + p.stmts.size + 1) node

/-- The node is there, and it is written by itself: parameters and fields are written with their
function and record only. -/
def Writable (p : Program) : UnitNode → Prop
  | .decl d => d < p.decls.size ∧ (p.decl d).kind.IsUnit
  | .stmt i => i < p.stmts.size

end Program

/-! ### Writing trees -/

namespace Page

/-- The page with the lines of the trees at its level. -/
def drawn (p : Page) (ts : List BraceTree) : Page :=
  { p with lines := p.lines ++ (BraceTree.linesAll p.level ts).toArray }

theorem drawn_nil (p : Page) : p.drawn [] = p := by simp [drawn, BraceTree.linesAll]

theorem drawn_drawn (p : Page) (ts us : List BraceTree) : (p.drawn ts).drawn us = p.drawn (ts ++ us) := by
  simp [drawn, BraceTree.linesAll_append]

end Page

/-- In the given colours the step writes the lines of the trees, which are fit to be read back. -/
def Draws (useColors : Bool) (m : Write Unit) (ts : List BraceTree) : Prop :=
  BraceTree.FitAll ts ∧ ∀ page : Page, page.useColors = useColors → m page = .ok () (page.drawn ts)

namespace Draws

variable {useColors : Bool} {m m' body body' : Write Unit} {ts us : List BraceTree}

theorem nil : Draws useColors (pure ()) [] :=
  ⟨trivial, fun page _ => by rw [page.drawn_nil]; rfl⟩

theorem append (h : Draws useColors m ts) (h' : Draws useColors m' us) :
    Draws useColors (m >>= fun _ => m') (ts ++ us) := by
  refine ⟨BraceTree.fitAll_iff.mpr fun t ht => ?_, fun page hpage => ?_⟩
  · obtain ht | ht := List.mem_append.mp ht
    · exact BraceTree.fitAll_iff.mp h.1 t ht
    · exact BraceTree.fitAll_iff.mp h'.1 t ht
  · rw [bind_of_ok (h.2 page hpage), h'.2 (page.drawn ts) hpage, page.drawn_drawn]

theorem forM {α : Type} {f : α → Write Unit} {trees : α → List BraceTree} {l : List α}
    (h : ∀ a ∈ l, Draws useColors (f a) (trees a)) : Draws useColors (l.forM f) (l.flatMap trees) := by
  induction l with
  | nil => exact nil
  | cons a l ih =>
      rw [List.flatMap_cons]
      exact (h a List.mem_cons_self).append (ih fun b hb => h b (List.mem_cons_of_mem a hb))

theorem line {s : String} (h : BraceText s false false) : Draws useColors (Write.line s) [.line s] :=
  ⟨⟨h, trivial⟩, fun page _ => by simp [Write.line, Page.drawn, BraceTree.lines]; rfl⟩

theorem run_keyword (word : String) (page : Page) (hpage : page.useColors = useColors) :
    Write.keyword word page = .ok (Readback.keyword useColors word) page := by
  rw [← hpage]
  rfl

/-- Words are written in the colours of the page. -/
theorem keyword {word : String} {f : String → Write Unit}
    (h : Draws useColors (f (Readback.keyword useColors word)) ts) :
    Draws useColors (Write.keyword word >>= f) ts :=
  ⟨h.1, fun page hpage => by rw [bind_of_ok (run_keyword word page hpage), h.2 page hpage]⟩

/-- So are expressions. -/
theorem exprText {p : Program} {showCasts : Bool} {e : ExprId} {f : String → Write Unit}
    (h : Draws useColors (f (p.exprText showCasts useColors e)) ts) :
    Draws useColors (Write.exprText p showCasts e >>= f) ts := by
  refine ⟨h.1, fun page hpage => ?_⟩
  have htext : Write.exprText p showCasts e page = .ok (p.exprText showCasts useColors e) page := by
    rw [← hpage]
    rfl
  rw [bind_of_ok htext, h.2 page hpage]

/-- The colours of the page may be asked for. -/
theorem get {f : Page → Write Unit}
    (h : ∀ page : Page, page.useColors = useColors → Draws useColors (f page) ts) :
    Draws useColors (MonadState.get >>= f) ts :=
  ⟨(h ⟨"", useColors, 0, #[]⟩ rfl).1, fun page hpage => (h page hpage).2 page hpage⟩

/-! ### Blocks -/

theorem run_line (s : String) (page : Page) :
    Write.line s page = .ok () { page with lines := page.lines.push ⟨page.level, s⟩ } := rfl

theorem run_nested (h : Draws useColors body ts) (page : Page) (lines : Array Line)
    (hpage : page.useColors = useColors) :
    Write.nested body { page with lines } = .ok ()
      { page with lines := lines ++ (BraceTree.linesAll (page.level + 1) ts).toArray } := by
  rw [Write.nested, h.2 (Page.deeper { page with lines }) hpage]
  rfl

/-- A block between braces on lines of their own. -/
theorem block {opener closer : String} (hopen : BraceText opener false true)
    (hclose : BraceText closer true false) (h : Draws useColors body ts) :
    Draws useColors (do
      Write.line opener
      Write.nested body
      Write.line closer) [.block opener ts closer] := by
  refine ⟨⟨⟨hopen, h.1, hclose⟩, trivial⟩, fun page hpage => ?_⟩
  rw [bind_of_ok (run_line opener page), bind_of_ok (h.run_nested page _ hpage), run_line]
  simp [Page.drawn, BraceTree.lines]

/-- A block behind a header. Nothing fails, so the level comes back as for a nested body. -/
theorem headed {header trailer : String} (hopen : BraceText (header ++ " \x7b") false true)
    (hclose : BraceText ("\x7d" ++ trailer) true false) (h : Draws useColors body ts) :
    Draws useColors (Write.block header trailer body)
      [.block (header ++ " \x7b") ts ("\x7d" ++ trailer)] := by
  refine ⟨⟨⟨hopen, h.1, hclose⟩, trivial⟩, fun page hpage => ?_⟩
  have hsame : Write.block header trailer body page = (do
      Write.line (header ++ " \x7b")
      Write.nested body
      Write.line ("\x7d" ++ trailer)) page := by
    rw [bind_of_ok (run_line _ page), bind_of_ok (h.run_nested page _ hpage), Write.block,
      bind_of_ok (run_line _ page)]
    show (body >>= fun _ => Write.dedent >>= fun _ => Write.line _) (Page.deeper _) = _
    have hbody := h.2 (Page.deeper { page with
      lines := page.lines.push ⟨page.level, header ++ " \x7b"⟩ }) hpage
    rw [bind_of_ok hbody]
    rfl
  rw [hsame]
  exact (block hopen hclose h).2 page hpage

/-- A block of two halves. There is a word in the line between them. -/
theorem halves {opener closer word : String} (turn : String → String)
    (hopen : BraceText opener false true)
    (hturn : BraceText (turn (Readback.keyword useColors word)) true true)
    (hclose : BraceText closer true false) (h : Draws useColors body ts)
    (h' : Draws useColors body' us) :
    Draws useColors (do
      Write.line opener
      Write.nested body
      let word ← Write.keyword word
      Write.line (turn word)
      Write.nested body'
      Write.line closer) [.halves opener ts (turn (Readback.keyword useColors word)) us closer] := by
  refine ⟨⟨⟨hopen, h.1, hturn, h'.1, hclose⟩, trivial⟩, fun page hpage => ?_⟩
  subst hpage
  rw [bind_of_ok (run_line opener page), bind_of_ok (h.run_nested page _ rfl),
    bind_of_ok (run_keyword word _ rfl), bind_of_ok (run_line _ _),
    bind_of_ok (h'.run_nested page _ rfl), run_line]
  simp [Page.drawn, BraceTree.lines]

end Draws

namespace Write

open Program

section Nodes

variable {p : Program} (h : p.Printable) (names : p.Identified) {showCasts useColors : Bool}
  {emit : UnitNode → Write Unit} {sub : UnitNode → List BraceTree}

include h in
/-- A body consists of statements up to the one that it is. -/
theorem bodyNodes_le {b : Nat} {m : UnitNode} (hm : m ∈ p.bodyNodes b) : ∃ x ≤ b, m = .stmt x := by
  unfold bodyNodes at hm
  split at hm
  · next stmts hk =>
      obtain ⟨x, hx, rfl⟩ := List.mem_map.mp hm
      refine ⟨x, Nat.le_of_lt ((h.laid b).inner x ?_), rfl⟩
      rw [hk]
      exact hx
  · exact ⟨b, Nat.le_refl b, List.mem_singleton.mp hm⟩

theorem body_draws {id : StmtId} (hemit : ∀ m ∈ p.bodyNodes id, Draws useColors (emit m) (sub m)) :
    Draws useColors (body p emit id) (p.bodyTrees sub id) := by
  unfold body bodyTrees
  split
  · next stmts hk =>
      have hnodes : p.bodyNodes id = stmts.map .stmt := by simp only [bodyNodes, hk]
      rw [hnodes, List.forall_mem_map] at hemit
      rw [hnodes, List.flatMap_map]
      exact .forM hemit
  · simp_all [bodyNodes]

/-- The words that lines begin with. -/
def lineWords : List String :=
  ["return", "if", "while", "do", "for", "break", "continue", "struct"]

theorem oneLine_word {word : String} (hword : word ∈ lineWords) :
    OneLine (Readback.keyword useColors word) := by
  have hall : ∀ w ∈ lineWords, StartsLine w ∧ Lacks '\n' w := by decide
  exact oneLine_keyword useColors ⟨(hall word hword).1, (hall word hword).2⟩

theorem keywordStmt_draws {word : String} (hword : word ∈ lineWords) :
    Draws useColors (keywordStmt word) [.line (Readback.keyword useColors word ++ ";")] :=
  .keyword (.line (oneLine_word hword).plain)

/-- The line between the halves of a conditional. -/
theorem turn_text : BraceText ("\x7d " ++ Readback.keyword useColors "else" ++ " \x7b") true true := by
  have hword : Lacks '\n' (Readback.keyword useColors "else") :=
    (oneLine_keyword useColors ⟨by decide, by decide⟩).unbroken
  have htext : "\x7d " ++ Readback.keyword useColors "else" ++ " \x7b" =
      "\x7d" ++ (" " ++ Readback.keyword useColors "else" ++ " \x7b") := by
    simp only [← String.append_assoc]
    rfl
  rw [htext]
  exact .of_close (c := '\x7b') (.append (by decide) hword) (by decide) rfl

include names

theorem field_draws {id : DeclId} (hfield : (p.decl id).kind.IsField) :
    Draws useColors (field p id) (p.fieldTrees id) := by
  unfold field fieldTrees
  cases hk : (p.decl id).kind with
  | field type index =>
      simp only [hk]
      exact .line (names.declarator type (names.name id)).plain
  | _ =>
      rw [hk] at hfield
      exact hfield.elim

include h

theorem stmt_draws {i : Nat} (hemit : ∀ x < i, Draws useColors (emit (.stmt x)) (sub (.stmt x)))
    (hdecl : ∀ d ∈ (p.stmt i).kind.declared, Draws useColors (emit (.decl d)) (sub (.decl d))) :
    Draws useColors (stmt p showCasts emit i) (p.stmtTrees showCasts useColors sub i) := by
  have hlaid := h.laid i
  have value (e : ExprId) := h.exprText_oneLine names showCasts useColors e
  have condition (word : String) (hword : word ∈ lineWords) (e : ExprId) :
      OneLine (Readback.keyword useColors word ++ " (" ++ p.exprText showCasts useColors e) :=
    ((oneLine_word hword).append (by decide)).append (value e).unbroken
  have inner {b : Nat} (hb : b ∈ (p.stmt i).kind.inner) :
      Draws useColors (body p emit b) (p.bodyTrees sub b) :=
    body_draws fun m hm => by
      obtain ⟨x, hx, rfl⟩ := bodyNodes_le h hm
      exact hemit x (Nat.lt_of_le_of_lt hx (hlaid.inner b hb))
  unfold stmt stmtTrees
  cases hk : (p.stmt i).kind with
  | compound l =>
      refine .block .open .closer (body_draws fun m hm => ?_)
      rw [bodyNodes, hk] at hm
      obtain ⟨x, hx, rfl⟩ := List.mem_map.mp hm
      exact hemit x (hlaid.inner x (by rw [hk]; exact hx))
  | returns value? =>
      cases value? with
      | none => exact keywordStmt_draws (by decide)
      | some e =>
          refine .exprText (.keyword (.line ?_))
          exact (((oneLine_word (by decide)).append (by decide)).append (value e).unbroken).plain
  | ifElse cond yes no =>
      have hopen := (condition "if" (by decide) cond).ending (c := '\x7b') (t := ") \x7b") (by decide) rfl
      have hyes := inner (b := yes) (by simp [hk, StmtKind.inner])
      refine .exprText (.keyword ?_)
      cases no with
      | none => exact .block hopen .closer hyes
      | some no =>
          have hno := inner (b := no) (by simp [hk, StmtKind.inner])
          exact .halves (fun word => "\x7d " ++ word ++ " \x7b") hopen turn_text .closer hyes hno
  | whileLoop cond b =>
      refine .exprText (.keyword (.headed ?_ .closer (inner (by simp [hk, StmtKind.inner]))))
      exact ((condition "while" (by decide) cond).append (by decide)).opener
  | doLoop b cond =>
      refine .exprText (.keyword (.keyword (.headed (oneLine_word (by decide)).opener ?_
        (inner (by simp [hk, StmtKind.inner])))))
      have hword : OneLine (Readback.keyword useColors "while") := oneLine_word (by decide)
      exact .of_close (c := ';') (((Lacks.append (by decide) hword.unbroken).append (by decide)).append
        (value cond).unbroken) (by decide) rfl
  | forLoop init cond inc b =>
      have hinit : init = none := by simpa [hk, StmtKind.initial?] using hlaid.initial
      subst hinit
      refine .get fun page hpage => ?_
      rw [hpage]
      have hpart (e : Option ExprId) :
          Lacks '\n' (e.elim "" fun e => " " ++ p.exprText showCasts useColors e) := by
        cases e with
        | none => exact .empty
        | some e => exact .append (by decide) (value e).unbroken
      show Draws useColors (Write.keyword "for" >>= fun word => block (word ++ " (" ++ "" ++ ";" ++
        _ ++ ";" ++ _ ++ ")") "" (body p emit b)) _
      refine .keyword (.headed (OneLine.opener ?_) .closer (inner (by simp [hk, StmtKind.inner])))
      exact (((((((oneLine_word (by decide)).append (by decide)).append .empty).append
        (by decide)).append (hpart cond)).append (by decide)).append (hpart inc)).append (by decide)
  | breaks => exact keywordStmt_draws (by decide)
  | continues => exact keywordStmt_draws (by decide)
  | empty => exact .line ⟨⟨';', by decide, by decide⟩, by decide, by decide, by decide⟩
  | declares decls => exact .forM fun d hd => hdecl d (by rw [hk]; exact hd)
  | expr e => exact .exprText (.line (value e).plain)

/-- A variable or record has no body. -/
theorem decl_local_draws {d : DeclId} (hd : d < p.decls.size) (hlocal : (p.decl d).kind.IsLocal) :
    Draws useColors (decl p showCasts emit d) (p.declTrees showCasts useColors sub d) := by
  have hlaid := h.decls d hd
  unfold decl declTrees
  cases hk : (p.decl d).kind with
  | var type init storage =>
      simp only [hk]
      refine .get fun page hpage => ?_
      rw [hpage]
      obtain ⟨text, htext⟩ : ∃ text, p.varText showCasts useColors d = .ok text := by
        simp only [varText, hk]
        exact ⟨_, rfl⟩
      rw [htext]
      exact .line (names.varText htext).plain
  | record fields =>
      simp only [hk]
      rw [hk] at hlaid
      have hword : OneLine (Readback.keyword useColors "struct" ++ " " ++ (p.decl d).name) :=
        ((oneLine_word (by decide)).append (by decide)).append (names.name d)
      have hclose : BraceText "\x7d;" true false :=
        ⟨⟨'\x7d', by decide, by decide⟩, by decide, by decide, by decide⟩
      exact .keyword (.headed hword.opener hclose (.forM fun f hf => field_draws names (hlaid f hf).2))
  | _ =>
      rw [hk] at hlocal
      exact hlocal.elim

theorem decl_draws {d : DeclId} (hd : d < p.decls.size) (hunit : (p.decl d).kind.IsUnit)
    (hemit : ∀ x < p.stmts.size, Draws useColors (emit (.stmt x)) (sub (.stmt x))) :
    Draws useColors (decl p showCasts emit d) (p.declTrees showCasts useColors sub d) := by
  cases hk : (p.decl d).kind with
  | function type params b locals =>
      have hlaid := h.decls d hd
      rw [hk] at hlaid
      obtain ⟨text, htext⟩ := functionHeader_ok hk hlaid.1
      have hline := names.functionHeader htext
      unfold decl declTrees
      simp only [hk, htext]
      cases b with
      | none => exact .line hline.plain
      | some b =>
          refine .headed hline.opener .closer (body_draws fun m hm => ?_)
          obtain ⟨x, hx, rfl⟩ := bodyNodes_le h hm
          exact hemit x (Nat.lt_of_le_of_lt hx (hlaid.2 b rfl))
  | _ => exact decl_local_draws h names hd (by rw [hk] at hunit ⊢; exact hunit)

theorem emitAux_stmt_draws : ∀ (n : Nat) (i : Nat), i + 2 ≤ n →
    Draws useColors (emitAux p showCasts n (.stmt i)) (p.treesAux showCasts useColors n (.stmt i)) := by
  intro n
  induction n with
  | zero => intro i hi; omega
  | succ n ih =>
      intro i hi
      refine stmt_draws h names (fun x hx => ih x (by omega)) fun d hd => ?_
      obtain ⟨hlt, hlocal⟩ := (h.laid i).declared d hd
      obtain ⟨m, rfl⟩ : ∃ m, n = m + 1 := ⟨n - 1, by omega⟩
      exact decl_local_draws h names hlt hlocal

/-- Writing a node writes the lines of its trees. -/
theorem emit_draws {node : UnitNode} (hnode : p.Writable node) :
    Draws useColors (Write.emit p showCasts node) (p.trees showCasts useColors node) := by
  cases node with
  | decl d =>
      have hsize : 0 < p.decls.size := Nat.zero_lt_of_lt hnode.1
      exact decl_draws h names hnode.1 hnode.2 fun x hx => emitAux_stmt_draws h names _ x (by omega)
  | stmt i => exact emitAux_stmt_draws h names _ i (Nat.succ_le_succ (Nat.le_add_left_of_le hnode))

end Nodes

end Write

/-! ### Reading what is written -/

namespace Program

variable {p : Program} {showCasts useColors : Bool} {sub sub' : UnitNode → List BraceTree}

theorem bodyTrees_congr {id : StmtId} (hsub : ∀ m ∈ p.bodyNodes id, sub m = sub' m) :
    p.bodyTrees sub id = p.bodyTrees sub' id :=
  List.flatMap_congr hsub

theorem stmtTrees_congr (h : p.Printable) {i : Nat} (hsub : ∀ x < i, sub (.stmt x) = sub' (.stmt x))
    (hdecl : ∀ d ∈ (p.stmt i).kind.declared, sub (.decl d) = sub' (.decl d)) :
    p.stmtTrees showCasts useColors sub i = p.stmtTrees showCasts useColors sub' i := by
  have hlaid := h.laid i
  have inner {b : Nat} (hb : b ∈ (p.stmt i).kind.inner) : p.bodyTrees sub b = p.bodyTrees sub' b :=
    bodyTrees_congr fun m hm => by
      obtain ⟨x, hx, rfl⟩ := Write.bodyNodes_le h hm
      exact hsub x (Nat.lt_of_le_of_lt hx (hlaid.inner b hb))
  unfold stmtTrees
  cases hk : (p.stmt i).kind with
  | compound l =>
      have hbody : p.bodyTrees sub i = p.bodyTrees sub' i := bodyTrees_congr fun m hm => by
        rw [bodyNodes, hk] at hm
        obtain ⟨x, hx, rfl⟩ := List.mem_map.mp hm
        exact hsub x (hlaid.inner x (by rw [hk]; exact hx))
      simp only [hbody]
  | ifElse cond yes no =>
      have hyes := inner (b := yes) (by simp [hk, StmtKind.inner])
      cases no with
      | none => simp only [hyes]
      | some no => simp only [hyes, inner (b := no) (by simp [hk, StmtKind.inner])]
  | whileLoop cond b => simp only [inner (b := b) (by simp [hk, StmtKind.inner])]
  | doLoop b cond => simp only [inner (b := b) (by simp [hk, StmtKind.inner])]
  | forLoop init cond inc b => simp only [inner (b := b) (by simp [hk, StmtKind.inner])]
  | declares decls => exact List.flatMap_congr fun d hd => hdecl d (by rw [hk]; exact hd)
  | returns value => cases value <;> rfl
  | _ => rfl

theorem declTrees_local_congr {d : DeclId} (hlocal : (p.decl d).kind.IsLocal) :
    p.declTrees showCasts useColors sub d = p.declTrees showCasts useColors sub' d := by
  unfold declTrees
  cases hk : (p.decl d).kind with
  | var type init storage => rfl
  | record fields => rfl
  | _ => exact absurd hlocal (by rw [hk]; exact id)

theorem treesAux_stmt_eq (h : p.Printable) : ∀ (n m : Nat) (i : Nat), i + 2 ≤ n → i + 2 ≤ m →
    p.treesAux showCasts useColors n (.stmt i) = p.treesAux showCasts useColors m (.stmt i) := by
  intro n
  induction n with
  | zero => intro m i hi; omega
  | succ n ih =>
      intro m i hi hm
      obtain ⟨m, rfl⟩ : ∃ k, m = k + 1 := ⟨m - 1, by omega⟩
      refine stmtTrees_congr h (fun x hx => ih m x (by omega) (by omega)) fun d hd => ?_
      obtain ⟨-, hlocal⟩ := (h.laid i).declared d hd
      obtain ⟨n, rfl⟩ : ∃ k, n = k + 1 := ⟨n - 1, by omega⟩
      obtain ⟨m, rfl⟩ : ∃ k, m = k + 1 := ⟨m - 1, by omega⟩
      exact declTrees_local_congr hlocal

/-- A node has the trees that its kind gives it over those of the nodes inside it. -/
theorem Printable.trees_eq (h : p.Printable) {node : UnitNode} (hnode : p.Writable node) :
    p.trees showCasts useColors node =
      p.nodeTrees showCasts useColors (p.trees showCasts useColors) node := by
  have bound {i : Nat} (hi : i < p.stmts.size) : i + 2 ≤ p.decls.size + p.stmts.size + 1 := by omega
  cases node with
  | stmt i =>
      refine stmtTrees_congr h (fun x hx => ?_) fun d hd => ?_
      · have hi := bound (i := i) hnode
        exact treesAux_stmt_eq h _ _ x (by omega) (by omega)
      · obtain ⟨hlt, hlocal⟩ := (h.laid i).declared d hd
        have hsize : 0 < p.decls.size := Nat.zero_lt_of_lt hlt
        obtain ⟨n, hn⟩ : ∃ n, p.decls.size + p.stmts.size = n + 1 :=
          ⟨p.decls.size + p.stmts.size - 1, by omega⟩
        rw [trees, hn]
        exact declTrees_local_congr hlocal
  | decl d =>
      obtain ⟨hlt, hunit⟩ := hnode
      have hsize : 0 < p.decls.size := Nat.zero_lt_of_lt hlt
      show p.declTrees _ _ _ d = p.declTrees _ _ _ d
      cases hk : (p.decl d).kind with
      | function type params b locals =>
          have hlaid := h.decls d hlt
          rw [hk] at hlaid
          obtain ⟨text, htext⟩ := Write.functionHeader_ok hk hlaid.1
          simp only [declTrees, hk, htext]
          cases b with
          | none => rfl
          | some b =>
              have hbody : p.bodyTrees (p.treesAux showCasts useColors (p.decls.size + p.stmts.size)) b =
                  p.bodyTrees (p.trees showCasts useColors) b := bodyTrees_congr fun m hm => by
                obtain ⟨x, hx, rfl⟩ := Write.bodyNodes_le h hm
                have hb : Nat.succ b ≤ p.stmts.size := hlaid.2 b rfl
                exact treesAux_stmt_eq h _ _ x (by omega) (by omega)
              simp only [hbody]
      | _ => exact declTrees_local_congr (by rw [hk] at hunit ⊢; exact hunit)

/-- A declaration that may stand in a body is one tree. -/
theorem declTrees_local_single {d : DeclId} (hlocal : (p.decl d).kind.IsLocal) :
    ∃ t, p.declTrees showCasts useColors sub d = [t] := by
  unfold declTrees
  cases hk : (p.decl d).kind with
  | var type init storage =>
      simp only [varText, hk]
      exact ⟨_, rfl⟩
  | record fields => exact ⟨_, rfl⟩
  | _ => exact absurd hlocal (by rw [hk]; exact id)

/-- A declaration or statement is one tree. -/
theorem Printable.trees_single (h : p.Printable) {node : UnitNode} (hnode : p.Writable node) :
    ∃ t, p.trees showCasts useColors node = [t] := by
  rw [h.trees_eq hnode]
  cases node with
  | decl d =>
      obtain ⟨hlt, hunit⟩ := hnode
      show ∃ t, p.declTrees _ _ _ d = [t]
      cases hk : (p.decl d).kind with
      | function type params b locals =>
          have hlaid := h.decls d hlt
          rw [hk] at hlaid
          obtain ⟨text, htext⟩ := Write.functionHeader_ok hk hlaid.1
          simp only [declTrees, hk, htext]
          cases b <;> exact ⟨_, rfl⟩
      | _ => exact declTrees_local_single (by rw [hk] at hunit ⊢; exact hunit)
  | stmt i =>
      have hlaid := h.laid i
      show ∃ t, p.stmtTrees _ _ _ i = [t]
      unfold stmtTrees
      cases hk : (p.stmt i).kind with
      | returns value => cases value <;> exact ⟨_, rfl⟩
      | ifElse cond yes no => cases no <;> exact ⟨_, rfl⟩
      | forLoop init cond inc b =>
          have hinit : init = none := by simpa [hk, StmtKind.initial?] using hlaid.initial
          subst hinit
          exact ⟨_, rfl⟩
      | declares ds =>
          obtain ⟨d, rfl⟩ := hlaid.single ds hk
          obtain ⟨hlt, hlocal⟩ := hlaid.declared d (by simp [hk, StmtKind.declared])
          have hdecl : p.Writable (.decl d) := ⟨hlt, hlocal.isUnit⟩
          show ∃ t, [d].flatMap (fun d => p.trees showCasts useColors (.decl d)) = [t]
          rw [List.flatMap_singleton, h.trees_eq hdecl]
          exact declTrees_local_single hlocal
      | _ => exact ⟨_, rfl⟩

end Program

/-- From the first page to the second, lines were written that are indented by their braces and are
read as the trees. What was there before is there still, and writing goes on at the same level. -/
structure Page.Gained (page q : Page) (ts : List BraceTree) : Prop where
  level : q.level = page.level
  kept : page.lines.toList <+: q.lines.toList
  braced : Braced page.unit page.level (cutLines (q.textFrom page.lines.size).toList)
  read : readBlocks [] [] (cutLines (q.textFrom page.lines.size).toList) = some ts

/-- Trees that are fit to be read back are read back. -/
theorem Page.gained_drawn {page : Page} (blank : ∀ c ∈ page.unit.toList, isBlank c)
    {ts : List BraceTree} (h : BraceTree.FitAll ts) : page.Gained (page.drawn ts) ts := by
  have hsteps := BraceTree.stepsAll page.level h
  have hcut : cutLines ((page.drawn ts).textFrom page.lines.size).toList =
      (BraceTree.linesAll page.level ts).map (Line.raw page.unit) := by
    have hnew : (page.drawn ts).lines.toList.drop page.lines.size =
        BraceTree.linesAll page.level ts := by simp [drawn]
    rw [textFrom, hnew]
    refine cutLines_render fun l hl => ?_
    obtain ⟨closes, opens, htext⟩ := hsteps.text hl
    exact htext.unbroken_raw blank l.level
  refine ⟨rfl, by simp [drawn], ?_, ?_⟩
  · rw [hcut]
    exact hsteps.braced blank
  · rw [hcut]
    simpa [readBlocks] using read_linesAll blank h page.level [] [] []

/-- **Blocks.** The program of a lift that succeeds, if its names are identifiers, is written with its
block structure at any level and after any lines: a declaration or statement is written as one tree,
the one that its kind gives it over the trees of the nodes inside it, and the lines written are
indented by their braces and read as that tree. Parameters and fields are not written by themselves
and leave the page as it is. -/
theorem Graph.lift_blocks {g : Graph} {naming : Naming} {c : LiftConfig} {s : LiftState}
    (h : g.lift naming c = (.ok (), s)) (names : s.program.Identified) (layout : Config) (n : Nat)
    (before : Array Line) :
    let p := s.program
    let page : Page := { Page.ofConfig layout with level := n, lines := before }
    let trees := p.trees layout.showImplicitCasts layout.useColors
    (∀ node, p.Writable node → ∃ q t,
      Write.emit p layout.showImplicitCasts node page = .ok () q ∧ page.Gained q [t] ∧
        trees node = [t] ∧
        p.nodeTrees layout.showImplicitCasts layout.useColors trees node = [t]) ∧
      ∀ d < p.decls.size, ¬ (p.decl d).kind.IsUnit →
        ∃ e, Write.emit p layout.showImplicitCasts (.decl d) page = .error e page := by
  intro p page trees
  have hp : p.Printable := (Graph.lift_sound h).printable
  refine ⟨fun node hnode => ?_, fun d hd hunit => ?_⟩
  · have hdraws : Draws layout.useColors (Write.emit p layout.showImplicitCasts node) (trees node) :=
      Write.emit_draws hp names hnode
    have hgained : page.Gained (page.drawn (trees node)) (trees node) :=
      Page.gained_drawn layout.indent.blank_unit hdraws.1
    obtain ⟨t, ht⟩ : ∃ t, trees node = [t] := hp.trees_single hnode
    exact ⟨_, t, hdraws.2 page rfl, ht ▸ hgained, ht, (hp.trees_eq hnode).symm.trans ht⟩
  · show ∃ e, Write.decl p _ _ d page = _
    unfold Write.decl
    cases hk : (p.decl d).kind with
    | param => exact ⟨_, rfl⟩
    | field => exact ⟨_, rfl⟩
    | _ => exact absurd (by rw [hk]; trivial) hunit

/-- A function with a branch, written two levels in. -/
theorem Graph.lift_blocks_choice :
    ∃ s q t, choice.lift .standard (.forTarget .host) = (.ok (), s) ∧ s.program.Identified ∧
      s.program.Writable (.decl 0) ∧
      Write.emit s.program false (.decl 0) ⟨"    ", false, 2, #[]⟩ = .ok () q ∧
      Page.Gained ⟨"    ", false, 2, #[]⟩ q [t] ∧ s.program.trees false false (.decl 0) = [t] := by
  have hlift : (choice.lift .standard (.forTarget .host)).1 = .ok () := by decide +kernel
  have hs := Graph.lift_eq_of_fst hlift
  have names : (choice.lift .standard (.forTarget .host)).2.program.Identified := by
    unfold Program.Identified
    decide +kernel
  have htop : 0 ∈ (choice.lift .standard (.forTarget .host)).2.program.topLevel := by decide +kernel
  have hnode := (Graph.lift_sound hs).printable.topLevel 0 htop
  obtain ⟨q, t, hwritten, hgained, ht, -⟩ := (Graph.lift_blocks hs names .standard 2 #[]).1 (.decl 0) hnode
  exact ⟨_, q, t, hs, names, hnode, hwritten, hgained, ht⟩

end Readback
