/-! # Kinds of operations

The operations of the high-level dialect, which lifting tells apart by name. `Kind.all` lists them
in a fixed order; names are pairwise different, so a name has at most one kind. -/

namespace Readback

/-- The kind of an operation of the high-level dialect. -/
inductive Kind where
  | translationUnit
  | function
  | var
  | record
  | union
  | field
  | typeAlias
  | enumeration
  | enumerator
  | ifStmt
  | whileStmt
  | doStmt
  | forStmt
  | switchStmt
  | caseLabel
  | defaultLabel
  | label
  | goto
  | breakStmt
  | continueStmt
  | skip
  | returnStmt
  | valueYield
  | condYield
  | expression
  | declRef
  | functionRef
  | globalRef
  | call
  | member
  | subscript
  | sizeOfType
  | sizeOfExpr
  | constant
  | initList
  | implicitCast
  | explicitCast
  | add
  | sub
  | mul
  | divSigned
  | divUnsigned
  | remSigned
  | remUnsigned
  | addFloats
  | subFloats
  | mulFloats
  | divFloats
  | shl
  | shrSigned
  | shrUnsigned
  | bitAnd
  | bitOr
  | bitXor
  | logicalAnd
  | logicalOr
  | comma
  | compare
  | compareFloats
  | bitNot
  | logicalNot
  | minus
  | plus
  | addressOf
  | deref
  | preInc
  | preDec
  | postInc
  | postDec
  | assign
  | addAssign
  | subAssign
  | mulAssign
  | divSignedAssign
  | divUnsignedAssign
  | remSignedAssign
  | remUnsignedAssign
  | shlAssign
  | shrSignedAssign
  | shrUnsignedAssign
  | bitAndAssign
  | bitOrAssign
  | bitXorAssign
deriving DecidableEq, Inhabited

namespace Kind

/-- All kinds, in their fixed order. -/
def all : List Kind :=
  [.translationUnit, .function, .var, .record, .union, .field, .typeAlias, .enumeration,
    .enumerator, .ifStmt, .whileStmt, .doStmt, .forStmt, .switchStmt, .caseLabel, .defaultLabel,
    .label, .goto, .breakStmt, .continueStmt, .skip, .returnStmt, .valueYield, .condYield,
    .expression, .declRef, .functionRef, .globalRef, .call, .member, .subscript, .sizeOfType,
    .sizeOfExpr, .constant, .initList, .implicitCast, .explicitCast, .add, .sub, .mul, .divSigned,
    .divUnsigned, .remSigned, .remUnsigned, .addFloats, .subFloats, .mulFloats, .divFloats, .shl,
    .shrSigned, .shrUnsigned, .bitAnd, .bitOr, .bitXor, .logicalAnd, .logicalOr, .comma, .compare,
    .compareFloats, .bitNot, .logicalNot, .minus, .plus, .addressOf, .deref, .preInc, .preDec,
    .postInc, .postDec, .assign, .addAssign, .subAssign, .mulAssign, .divSignedAssign,
    .divUnsignedAssign, .remSignedAssign, .remUnsignedAssign, .shlAssign, .shrSignedAssign,
    .shrUnsignedAssign, .bitAndAssign, .bitOrAssign, .bitXorAssign]

/-- The full name of the operations of a kind. -/
def name : Kind → String
  | .translationUnit => "hl.translation_unit"
  | .function => "hl.func"
  | .var => "hl.var"
  | .record => "hl.struct"
  | .union => "hl.union"
  | .field => "hl.field"
  | .typeAlias => "hl.typedef"
  | .enumeration => "hl.enum"
  | .enumerator => "hl.enum.const"
  | .ifStmt => "hl.if"
  | .whileStmt => "hl.while"
  | .doStmt => "hl.do"
  | .forStmt => "hl.for"
  | .switchStmt => "hl.switch"
  | .caseLabel => "hl.case"
  | .defaultLabel => "hl.default"
  | .label => "hl.label"
  | .goto => "hl.goto"
  | .breakStmt => "hl.break"
  | .continueStmt => "hl.continue"
  | .skip => "hl.skip"
  | .returnStmt => "hl.return"
  | .valueYield => "hl.value.yield"
  | .condYield => "hl.cond.yield"
  | .expression => "hl.expr"
  | .declRef => "hl.ref"
  | .functionRef => "hl.funcref"
  | .globalRef => "hl.globref"
  | .call => "hl.call"
  | .member => "hl.member"
  | .subscript => "hl.subscript"
  | .sizeOfType => "hl.sizeof.type"
  | .sizeOfExpr => "hl.sizeof.expr"
  | .constant => "hl.const"
  | .initList => "hl.initlist"
  | .implicitCast => "hl.implicit_cast"
  | .explicitCast => "hl.cstyle_cast"
  | .add => "hl.add"
  | .sub => "hl.sub"
  | .mul => "hl.mul"
  | .divSigned => "hl.sdiv"
  | .divUnsigned => "hl.udiv"
  | .remSigned => "hl.srem"
  | .remUnsigned => "hl.urem"
  | .addFloats => "hl.fadd"
  | .subFloats => "hl.fsub"
  | .mulFloats => "hl.fmul"
  | .divFloats => "hl.fdiv"
  | .shl => "hl.bin.shl"
  | .shrSigned => "hl.bin.ashr"
  | .shrUnsigned => "hl.bin.lshr"
  | .bitAnd => "hl.bin.and"
  | .bitOr => "hl.bin.or"
  | .bitXor => "hl.bin.xor"
  | .logicalAnd => "hl.bin.land"
  | .logicalOr => "hl.bin.lor"
  | .comma => "hl.bin.comma"
  | .compare => "hl.cmp"
  | .compareFloats => "hl.fcmp"
  | .bitNot => "hl.not"
  | .logicalNot => "hl.lnot"
  | .minus => "hl.minus"
  | .plus => "hl.plus"
  | .addressOf => "hl.addressof"
  | .deref => "hl.deref"
  | .preInc => "hl.pre.inc"
  | .preDec => "hl.pre.dec"
  | .postInc => "hl.post.inc"
  | .postDec => "hl.post.dec"
  | .assign => "hl.assign"
  | .addAssign => "hl.assign.add"
  | .subAssign => "hl.assign.sub"
  | .mulAssign => "hl.assign.mul"
  | .divSignedAssign => "hl.assign.sdiv"
  | .divUnsignedAssign => "hl.assign.udiv"
  | .remSignedAssign => "hl.assign.srem"
  | .remUnsignedAssign => "hl.assign.urem"
  | .shlAssign => "hl.assign.bin.shl"
  | .shrSignedAssign => "hl.assign.bin.ashr"
  | .shrUnsignedAssign => "hl.assign.bin.lshr"
  | .bitAndAssign => "hl.assign.bin.and"
  | .bitOrAssign => "hl.assign.bin.or"
  | .bitXorAssign => "hl.assign.bin.xor"

/-- The name of the kind in messages. -/
def title : Kind → String
  | .translationUnit => "TranslationUnit"
  | .function => "Func"
  | .var => "Var"
  | .record => "Struct"
  | .union => "Union"
  | .field => "Field"
  | .typeAlias => "Typedef"
  | .enumeration => "Enum"
  | .enumerator => "EnumConst"
  | .ifStmt => "If"
  | .whileStmt => "While"
  | .doStmt => "Do"
  | .forStmt => "For"
  | .switchStmt => "Switch"
  | .caseLabel => "Case"
  | .defaultLabel => "Default"
  | .label => "Label"
  | .goto => "Goto"
  | .breakStmt => "Break"
  | .continueStmt => "Continue"
  | .skip => "Skip"
  | .returnStmt => "Return"
  | .valueYield => "ValueYield"
  | .condYield => "CondYield"
  | .expression => "Expr"
  | .declRef => "DeclRef"
  | .functionRef => "FuncRef"
  | .globalRef => "GlobalRef"
  | .call => "Call"
  | .member => "Member"
  | .subscript => "Subscript"
  | .sizeOfType => "SizeOfType"
  | .sizeOfExpr => "SizeOfExpr"
  | .constant => "Const"
  | .initList => "InitList"
  | .implicitCast => "ImplicitCast"
  | .explicitCast => "CStyleCast"
  | .add => "AddI"
  | .sub => "SubI"
  | .mul => "MulI"
  | .divSigned => "DivS"
  | .divUnsigned => "DivU"
  | .remSigned => "RemS"
  | .remUnsigned => "RemU"
  | .addFloats => "AddF"
  | .subFloats => "SubF"
  | .mulFloats => "MulF"
  | .divFloats => "DivF"
  | .shl => "Shl"
  | .shrSigned => "AShr"
  | .shrUnsigned => "LShr"
  | .bitAnd => "BinAnd"
  | .bitOr => "BinOr"
  | .bitXor => "BinXor"
  | .logicalAnd => "LogicalAnd"
  | .logicalOr => "LogicalOr"
  | .comma => "Comma"
  | .compare => "Cmp"
  | .compareFloats => "FCmp"
  | .bitNot => "Not"
  | .logicalNot => "LNot"
  | .minus => "Minus"
  | .plus => "Plus"
  | .addressOf => "AddressOf"
  | .deref => "Deref"
  | .preInc => "PreInc"
  | .preDec => "PreDec"
  | .postInc => "PostInc"
  | .postDec => "PostDec"
  | .assign => "Assign"
  | .addAssign => "AddIAssign"
  | .subAssign => "SubIAssign"
  | .mulAssign => "MulIAssign"
  | .divSignedAssign => "DivSAssign"
  | .divUnsignedAssign => "DivUAssign"
  | .remSignedAssign => "RemSAssign"
  | .remUnsignedAssign => "RemUAssign"
  | .shlAssign => "ShlAssign"
  | .shrSignedAssign => "AShrAssign"
  | .shrUnsignedAssign => "LShrAssign"
  | .bitAndAssign => "BinAndAssign"
  | .bitOrAssign => "BinOrAssign"
  | .bitXorAssign => "BinXorAssign"

/-- The title for an operation that may be of no known kind. -/
def titleOf (k : Option Kind) : String := k.elim "Unknown" title

/-- The dialect that the kinds belong to. -/
def dialect : String := "hl"

/-- The kind whose operations have the given name. -/
def ofName? (name : String) : Option Kind := all.find? fun k => k.name == name

end Kind

end Readback
