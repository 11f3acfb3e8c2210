/-!
# Kinds of nodes

Every record of a dump names its kind by a tag. The kinds that the library knows are constructors; a
tag that it does not know is a kind of its own.

* `Kind.ofTag`, `Kind.tag`            : between tags and kinds, `tag_ofTag`;
* `Kind.isLoop`, `Kind.isExpression`  : the classes of kinds that the views ask for.
-/

namespace AstDump

/-- The kind of a node. -/
inductive Kind where
  | translationUnitDecl | typedefDecl | recordDecl | fieldDecl | enumDecl | enumConstantDecl
  | functionDecl | parmVarDecl | varDecl
  | builtinType | recordType | pointerType | constantArrayType | incompleteArrayType
  | functionProtoType | functionNoProtoType | elaboratedType | typedefType | parenType | qualType
  | compoundStmt | declStmt | returnStmt | forStmt | whileStmt | doStmt | ifStmt | breakStmt
  | continueStmt | nullStmt
  | integerLiteral | floatingLiteral | characterLiteral | stringLiteral | implicitCastExpr
  | cStyleCastExpr | declRefExpr | binaryOperator | unaryOperator | compoundAssignOperator
  | arraySubscriptExpr | callExpr | memberExpr | conditionalOperator | parenExpr | initListExpr
  | unaryExprOrTypeTraitExpr
  | asmLabelAttr | builtinAttr | constAttr | formatAttr | noThrowAttr | nonNullAttr | pureAttr
  | restrictAttr | warnUnusedResultAttr
  | other (name : String)
  deriving DecidableEq, Repr, Inhabited

namespace Kind

/-- The tag that names a kind. -/
def tag : Kind → String
  | translationUnitDecl => "TranslationUnitDecl"
  | typedefDecl => "TypedefDecl"
  | recordDecl => "RecordDecl"
  | fieldDecl => "FieldDecl"
  | enumDecl => "EnumDecl"
  | enumConstantDecl => "EnumConstantDecl"
  | functionDecl => "FunctionDecl"
  | parmVarDecl => "ParmVarDecl"
  | varDecl => "VarDecl"
  | builtinType => "BuiltinType"
  | recordType => "RecordType"
  | pointerType => "PointerType"
  | constantArrayType => "ConstantArrayType"
  | incompleteArrayType => "IncompleteArrayType"
  | functionProtoType => "FunctionProtoType"
  | functionNoProtoType => "FunctionNoProtoType"
  | elaboratedType => "ElaboratedType"
  | typedefType => "TypedefType"
  | parenType => "ParenType"
  | qualType => "QualType"
  | compoundStmt => "CompoundStmt"
  | declStmt => "DeclStmt"
  | returnStmt => "ReturnStmt"
  | forStmt => "ForStmt"
  | whileStmt => "WhileStmt"
  | doStmt => "DoStmt"
  | ifStmt => "IfStmt"
  | breakStmt => "BreakStmt"
  | continueStmt => "ContinueStmt"
  | nullStmt => "NullStmt"
  | integerLiteral => "IntegerLiteral"
  | floatingLiteral => "FloatingLiteral"
  | characterLiteral => "CharacterLiteral"
  | stringLiteral => "StringLiteral"
  | implicitCastExpr => "ImplicitCastExpr"
  | cStyleCastExpr => "CStyleCastExpr"
  | declRefExpr => "DeclRefExpr"
  | binaryOperator => "BinaryOperator"
  | unaryOperator => "UnaryOperator"
  | compoundAssignOperator => "CompoundAssignOperator"
  | arraySubscriptExpr => "ArraySubscriptExpr"
  | callExpr => "CallExpr"
  | memberExpr => "MemberExpr"
  | conditionalOperator => "ConditionalOperator"
  | parenExpr => "ParenExpr"
  | initListExpr => "InitListExpr"
  | unaryExprOrTypeTraitExpr => "UnaryExprOrTypeTraitExpr"
  | asmLabelAttr => "AsmLabelAttr"
  | builtinAttr => "BuiltinAttr"
  | constAttr => "ConstAttr"
  | formatAttr => "FormatAttr"
  | noThrowAttr => "NoThrowAttr"
  | nonNullAttr => "NonNullAttr"
  | pureAttr => "PureAttr"
  | restrictAttr => "RestrictAttr"
  | warnUnusedResultAttr => "WarnUnusedResultAttr"
  | other name => name

/-- The kinds that the library knows. -/
def known : List Kind := [
  translationUnitDecl, typedefDecl, recordDecl, fieldDecl, enumDecl, enumConstantDecl,
  functionDecl, parmVarDecl, varDecl, builtinType, recordType, pointerType, constantArrayType,
  incompleteArrayType, functionProtoType, functionNoProtoType, elaboratedType, typedefType,
  parenType, qualType, compoundStmt, declStmt, returnStmt, forStmt, whileStmt, doStmt, ifStmt,
  breakStmt, continueStmt, nullStmt, integerLiteral, floatingLiteral, characterLiteral,
  stringLiteral, implicitCastExpr, cStyleCastExpr, declRefExpr, binaryOperator, unaryOperator,
  compoundAssignOperator, arraySubscriptExpr, callExpr, memberExpr, conditionalOperator, parenExpr,
  initListExpr, unaryExprOrTypeTraitExpr, asmLabelAttr, builtinAttr, constAttr, formatAttr,
  noThrowAttr, nonNullAttr, pureAttr, restrictAttr, warnUnusedResultAttr]

/-- The kind that a tag names. -/
def ofTag (name : String) : Kind := (known.find? fun k => k.tag = name).getD (other name)

/-- A kind is named by the tag that it was read from. -/
@[simp] theorem tag_ofTag (name : String) : (ofTag name).tag = name := by
  unfold ofTag
  cases h : known.find? fun k => k.tag = name with
  | none => rfl
  | some k => simpa using List.find?_some h

/-- The kind is one that the library knows. -/
def isKnown : Kind → Bool
  | other _ => false
  | _ => true

/-- The kinds of loops. -/
def isLoop : Kind → Bool
  | forStmt => true
  | whileStmt => true
  | doStmt => true
  | _ => false

/-- The endings of the tags of expressions. -/
def expressionEndings : List String := ["Expr", "Literal", "Operator"]

/-- Expressions are told by how their tags end. -/
def isExpression (k : Kind) : Bool :=
  expressionEndings.any fun ending => ending.toList.isSuffixOf k.tag.toList

/-- The casts and parentheses that leave the value of their operand as it is written. -/
def isTransparent : Kind → Bool
  | implicitCastExpr => true
  | parenExpr => true
  | cStyleCastExpr => true
  | _ => false

/-- The kinds of variables. -/
def isVariable : Kind → Bool
  | varDecl => true
  | parmVarDecl => true
  | _ => false

end Kind

end AstDump
