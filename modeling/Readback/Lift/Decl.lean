import Readback.Lift.Region

/-! # Lifting declarations

Functions, variables and records are declared at once. The body of a function and the initial value
of a variable wait as tasks. -/

namespace Readback

namespace Lift

/-- Makes a declaration at file level reachable by its symbol. -/
def registerSymbol (scope : Scope) (o : Operation) (decl : DeclId) : Lift Unit := do
  if scope = .file then
    match o.symbol? with
    | some s => modify fun st => { st with symbols := st.symbols.insert s decl }
    | none => return ()

/-- Notes the declaration that an operation introduced. -/
def noteDecl (op : OpId) (decl : DeclId) : Lift Unit :=
  modify fun s => { s with opDecl := s.opDecl.insert op decl }

/-- A statement for a declaration inside a function; there is none elsewhere. -/
def declStmt? (scope : Scope) (decl : DeclId) : Lift (Option StmtId) :=
  match scope with
  | .function _ => some <$> typed (Check.pushStmt (.declares [decl]))
  | _ => return none

/-- The parameters of a function from an index on. Each is bound to the argument of the entry block
at its index, if the function has a body. -/
def params (env : LiftEnv) (o : Operation) (function : DeclId) (entry : Option BlockId) :
    Nat → List TypeId → Lift (List DeclId)
  | _, [] => return []
  | index, input :: rest => do
    let name ← chooseName env .parameter o index
    let type ← type env input
    let param ← typed (Check.param function name type index)
    match entry with
    | some block =>
      modify fun s => { s with argDecl := s.argDecl.insert (.argument block index) param }
    | none => pure ()
    let others ← params env o function entry (index + 1) rest
    return param :: others

/-- Declares a function and puts its body off. -/
def function (env : LiftEnv) (scope : Scope) (o : Operation) : Lift Unit := do
  match o.typeAttr? AttrName.functionType with
  | none => throw (env.malformed o "function without a function type")
  | some typeId =>
    match env.graph.types.signature? typeId with
    | none => throw (env.malformed o "function type attribute is not a function type")
    | some (inputs, _) =>
      let type ← type env typeId
      let name ← chooseName env .function o 0
      let decl ← typed (Check.functionDecl scope name type)
      typed (Check.addDecl scope decl)
      noteDecl o.id decl
      registerSymbol scope o decl
      let blocks := ((o.regions.head?.bind env.graph.region?).map Region.blocks).getD []
      if 1 < blocks.length then
        throw (env.malformed o "function body with more than one block")
      let list ← params env o decl blocks.head? 0 inputs
      typed (Check.setParams decl list)
      match o.regions.head?, blocks.head? with
      | some region, some _ => defer (.body decl region)
      | _, _ => return ()

/-- The storage class that an operation asks for. -/
def storageOf (o : Operation) : Storage :=
  match o.textAttr? AttrName.storageClass with
  | some "static" => .static
  | some "extern" => .external
  | _ => .unspecified

/-- Declares a variable and puts its initial value off. -/
def var (env : LiftEnv) (scope : Scope) (o : Operation) : Lift (Option StmtId) := do
  let type ← type env (← resultType env o)
  let name ← chooseName env .var o 0
  let decl ← typed (Check.varDecl scope name type (storageOf o))
  typed (Check.addDecl scope decl)
  noteDecl o.id decl
  registerSymbol scope o decl
  match o.regions.head? with
  | some region =>
    if !(env.graph.regionOps region).isEmpty then defer (.init scope decl region)
  | none => pure ()
  declStmt? scope decl

/-- The fields of a record from an index on. -/
def fields (env : LiftEnv) (record : DeclId) : Nat → List OpId → Lift Unit
  | _, [] => return ()
  | index, id :: rest => do
    let o ← operation env id
    if o.kind? ≠ some .field then throw (env.malformed o "struct body may only hold fields")
    match o.typeAttr? AttrName.type with
    | none => throw (env.malformed o "field without a type")
    | some typeId =>
      let type ← type env typeId
      let name ← chooseName env .field o index
      let decl ← typed (Check.fieldDecl record name type)
      noteDecl id decl
      modify fun s => { s with opStmt := s.opStmt.insert id none }
      fields env record (index + 1) rest

/-- Declares a record with its fields. -/
def record (env : LiftEnv) (scope : Scope) (o : Operation) : Lift (Option StmtId) := do
  let name ← chooseName env .record o 0
  let decl ← typed (Check.recordDecl scope name)
  typed (Check.addDecl scope decl)
  noteDecl o.id decl
  fields env decl 0 (o.regions.head?.elim [] env.graph.regionOps)
  declStmt? scope decl

end Lift

end Readback
