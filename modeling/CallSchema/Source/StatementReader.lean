import CallSchema.Source.ExpressionReader
import CallSchema.Source.Lexer
import CallSchema.Source.Statement

set_option autoImplicit false

namespace CallSchema.Source

namespace Reader

/-! ### Simple statements -/

def endOfStatement : Reader Unit := atEnd <|> ahead (mark ";")

def expressions (expr : Reader Expression) : Reader (List Expression × Bool) :=
  commaSeparated (element expr)

def dottedName : Reader Unit := do
  let _ ← joinedBy (mark ".") name

def importedNames : Reader Unit := do
  let _ ← commaSeparated (do
    dottedName
    if ← opt (keyword "as") then
      let _ ← word)

def importStatement : Reader Unit :=
  (do
    let _ ← keyword "import"
    importedNames) <|>
  (do
    let _ ← keyword "from"
    let dots ← many (anyMark [".", "..."])
    if dots.isEmpty then dottedName
    else
      let _ ← attempt dottedName
    let _ ← keyword "import"
    (do let _ ← mark "*") <|> importedNames <|>
      (do let _ ← mark "("; importedNames; let _ ← mark ")"))

def wordStatement (expr : Reader Expression) : Reader Unit :=
  importStatement <|>
  (do let _ ← keyword "pass" <|> keyword "break" <|> keyword "continue") <|>
  (do let _ ← keyword "return"; let _ ← attempt (expressions expr)) <|>
  (do let _ ← keyword "del"; let _ ← expressions expr) <|>
  (do let _ ← keyword "assert"; let _ ← joinedBy (mark ",") expr) <|>
  (do let _ ← keyword "global" <|> keyword "nonlocal"; let _ ← joinedBy (mark ",") word) <|>
  (do
    let _ ← keyword "raise"
    let _ ← attempt (expressions expr)
    if ← opt (keyword "from") then
      let _ ← expr)

def typeExpression (expr : Reader Expression) : Reader Unit := do
  let _ ← attempt (anyMark ["*", "**"])
  let _ ← expr

def softStatement (expr : Reader Expression) : Reader Unit :=
  (do
    let _ ← keyword "print"
    let _ ← attempt (mark ">>")
    let _ ← commaSeparated expr) <|>
  (do
    let _ ← keyword "exec"
    let _ ← expr
    if ← opt (keyword "in") then
      let _ ← joinedBy (mark ",") expr) <|>
  (do
    let _ ← keyword "type"
    typeExpression expr
    let _ ← mark "="
    typeExpression expr)

def augmentedAssign : Reader Lexeme :=
  anyMark ["+=", "-=", "*=", "/=", "@=", "//=", "%=", "**=", ">>=", "<<=", "&=", "^=", "|="]

def targetName? : List Expression × Bool → Option Text
  | ([.name name], false) => some name
  | _ => none

def onlyExpression : List Expression × Bool → Expression
  | ([expression], false) => expression
  | _ => .other

def assignmentRest (expr : Reader Expression) : Nat → List Expression × Bool → Reader Assignment
  | 0, _ => failure
  | bound + 1, targets => do
    guard (targets.1.all Expression.isTarget)
    let name := targetName? targets
    let value (name : Option Text) : Reader Assignment := do
      let values ← expressions expr
      (do return .chained name (← assignmentRest expr bound values)) <|>
        (do return .last name (some (onlyExpression values)))
    (do let _ ← mark "="; value name) <|>
    (do let _ ← augmentedAssign; value none) <|>
    (do
      let _ ← mark ":"
      typeExpression expr
      if ← opt (mark "=") then value name else return .last name none)

def expressionStatement (expr : Reader Expression) : Reader Statement := do
  noOpeningWord
  let values ← expressions expr
  (do return .assignment (← assignmentRest expr (← get).length values)) <|>
    (return .expression (values.1.headD .other))

def simpleStatement (expr : Reader Expression) : Reader Statement :=
  (do wordStatement expr; endOfStatement; return .plain) <|>
  (do
    let statement ← expressionStatement expr
    endOfStatement
    return statement) <|>
  (do softStatement expr; endOfStatement; return .plain)

def simpleStatements (expr : Reader Expression) : Reader (List Statement) := do
  let statements ← separated (mark ";") (simpleStatement expr)
  return statements.1

/-! ### Headers -/

inductive Header where
  | branch
  | loop
  | guarded
  | plain
  | clause (kind : SuiteKind)
  | function (name : Text) (defaults : List Text)
  | classDefinition (name : Text)

def parameter (expr : Reader Expression) : Reader (Option Text) :=
  (do
    let _ ← anyMark ["*", "**"]
    let _ ← word
    if ← opt (mark ":") then typeExpression expr
    return none) <|>
  (do let _ ← anyMark ["*", "/"]; return none) <|>
  (do
    let parameter ← word
    if ← opt (mark ":") then typeExpression expr
    if ← opt (mark "=") then
      let _ ← expr
      return some parameter
    return none) <|>
  (do
    let pattern ← expr
    guard pattern.isTarget
    if ← opt (mark "=") then
      let _ ← expr
    return none)

def parameters (expr : Reader Expression) : Reader (List Text) := do
  let _ ← mark "("
  let parameters ← attempt (commaSeparated (parameter expr))
  let _ ← mark ")"
  return ((parameters.map (·.1)).getD []).filterMap id

def typeParameters (expr : Reader Expression) : Reader Unit := do
  let _ ← mark "["
  let _ ← commaSeparated (do
    typeExpression expr
    if ← opt (mark ":") then typeExpression expr)
  let _ ← mark "]"

def functionHeader (expr : Reader Expression) : Reader Header := do
  let _ ← attempt (keyword "async")
  let _ ← keyword "def"
  let name ← word
  let _ ← attempt (typeParameters expr)
  let defaults ← parameters expr
  if ← opt (mark "->") then typeExpression expr
  return .function name defaults

def classHeader (primary expr : Reader Expression) : Reader Header := do
  let _ ← keyword "class"
  let name ← word
  let _ ← attempt (typeParameters expr)
  let _ ← attempt (arguments primary expr)
  return .classDefinition name

def forHeader (primary expr : Reader Expression) : Reader Header := do
  let _ ← attempt (keyword "async")
  let _ ← keyword "for"
  comprehensionTargets primary
  let _ ← keyword "in"
  let _ ← expressions expr
  return .loop

def header (primary expr : Reader Expression) : Reader Header :=
  (do let _ ← keyword "if"; let _ ← expr; return .branch) <|>
  (do let _ ← keyword "while"; let _ ← expr; return .loop) <|>
  forHeader primary expr <|>
  (do let _ ← keyword "try"; return .guarded) <|>
  (do
    let _ ← attempt (keyword "async")
    let _ ← keyword "with"
    let _ ← commaSeparated expr
    return .plain) <|>
  (do let _ ← keyword "elif"; let _ ← expr; return .clause .elif) <|>
  (do let _ ← keyword "else"; return .clause .otherwise) <|>
  (do
    let _ ← keyword "except"
    let _ ← attempt (mark "*")
    let _ ← attempt (commaSeparated expr)
    return .clause .handler) <|>
  (do let _ ← keyword "finally"; return .clause .cleanup) <|>
  functionHeader expr <|> classHeader primary expr

def inlineSuite (expr : Reader Expression) : Reader (Option (List Statement)) := do
  let _ ← mark ":"
  (do atEnd; return none) <|> (some <$> simpleStatements expr)

def matchHeader (expr : Reader Expression) : Reader Unit := do
  let _ ← keyword "match"
  let _ ← expressions expr
  let _ ← mark ":"

def caseHeader (expr : Reader Expression) : Reader (Option (List Statement)) := do
  let _ ← keyword "case"
  let _ ← expressions expr
  if ← opt (keyword "if") then
    let _ ← expr
  inlineSuite expr

def decorator (expr : Reader Expression) : Reader Unit := do
  let _ ← mark "@"
  let _ ← expr

end Reader

/-! ### Lines -/

def depthFor (lexemes : List Lexeme) : Nat := lexemes.length + 2

def expressionFor (lexemes : List Lexeme) : Reader Expression :=
  Reader.expression (depthFor lexemes)

def primaryFor (lexemes : List Lexeme) : Reader Expression := Reader.primary (depthFor lexemes)

def compound? (lexemes : List Lexeme) : Option (Reader.Header × Option (List Statement)) :=
  let expr := expressionFor lexemes
  let reader : Reader (Reader.Header × Option (List Statement)) := do
    return (← Reader.header (primaryFor lexemes) expr, ← Reader.inlineSuite expr)
  reader.readAll? lexemes

def simple? (lexemes : List Lexeme) : Option (List Statement) :=
  (Reader.simpleStatements (expressionFor lexemes)).readAll? lexemes

def isDecorator (lexemes : List Lexeme) : Bool :=
  ((Reader.decorator (expressionFor lexemes)).readAll? lexemes).isSome

def isMatch (lexemes : List Lexeme) : Bool :=
  ((Reader.matchHeader (expressionFor lexemes)).readAll? lexemes).isSome

def case? (lexemes : List Lexeme) : Option (Option (List Statement)) :=
  (Reader.caseHeader (expressionFor lexemes)).readAll? lexemes

def isWhole (lexemes : List Lexeme) : Bool :=
  (compound? lexemes).isSome || (simple? lexemes).isSome || isDecorator lexemes ||
    isMatch lexemes || (case? lexemes).isSome

/-! ### Rows -/

inductive Row where
  | mk (lexemes : List Lexeme) (below : List Row)

def opensSuite (line : Line) : Bool := line.lexemes.getLast?.any (·.token == .mark [':'])

-- A line with the ones after it that it goes on in: a statement that is not whole at the end of a
-- line goes on in the next one, unless this leaves the suite.
def gather? (margin : Nat) (line : Line) : List Line → Option (Line × List Line)
  | [] => if isWhole line.lexemes then some (line, []) else none
  | next :: rest =>
    if isWhole line.lexemes then some (line, next :: rest)
    else if next.indent < margin then none
    else gather? margin ⟨line.indent, line.lexemes ++ next.lexemes⟩ rest

-- The rows of the lines that are indented by `margin` or more, and the lines from the first that is
-- not. Each step takes a line, so their number is bound enough.
def nestRows : Nat → Nat → List Line → List Row × List Line
  | 0, _, lines => ([], lines)
  | _, _, [] => ([], [])
  | bound + 1, margin, line :: rest =>
    if line.indent < margin then ([], line :: rest)
    else
      let (line, rest) := (gather? margin line rest).getD (line, rest)
      let suite := match rest with
        | next :: _ => opensSuite line && margin < next.indent
        | [] => false
      let (below, rest) :=
        match rest with
        | next :: _ => if suite then nestRows bound next.indent rest else ([], rest)
        | [] => ([], [])
      let (rows, rest) := nestRows bound margin rest
      (.mk line.lexemes below :: rows, rest)

def rowsOf (lines : List Line) : List Row := (nestRows lines.length 0 lines).1

/-! ### Suites -/

inductive Piece where
  | statements (statements : List Statement)
  | decorator
  -- A statement that clauses may follow, with its own suite.
  | opening (header : Reader.Header) (body : List Statement)
  | clause (kind : SuiteKind) (body : List Statement)

def bodyOf (inline : Option (List Statement)) (below : List Statement) : List Statement :=
  match inline with
  | none => below
  | some statements => if below.isEmpty then statements else [.malformed]

def readPiece (lexemes : List Lexeme) (below : List Statement) : Piece :=
  match compound? lexemes with
  | some (.clause kind, inline) => .clause kind (bodyOf inline below)
  | some (header, inline) => .opening header (bodyOf inline below)
  | none =>
    if !below.isEmpty then .statements [.malformed]
    else match simple? lexemes with
      | some statements => .statements statements
      | none => if isDecorator lexemes then .decorator else .statements [.malformed]

def clausesFit (header : Reader.Header) (kinds : List SuiteKind) : Bool :=
  match header with
  | .branch => kinds.dropWhile (· == .elif) == [] || kinds.dropWhile (· == .elif) == [.otherwise]
  | .loop => kinds == [] || kinds == [.otherwise]
  | .guarded =>
    let rest := kinds.dropWhile (· == .handler)
    if kinds.head? == some .handler then
      [[], [.otherwise], [.cleanup], [.otherwise, .cleanup]].contains rest
    else rest == [.cleanup]
  | _ => kinds == []

def closeStatement (header : Reader.Header) (body : List Statement) (clauses : List Suite) :
    Statement :=
  if clausesFit header (clauses.map fun | .mk kind _ => kind) then
    match header with
    | .function name defaults => .function name defaults body
    | .classDefinition name => .classDefinition name body
    | _ => .compound (.mk .own body :: clauses)
  else .malformed

def decorate : List Statement → List Statement
  | .decorated definition :: rest => .decorated definition :: rest
  | .function name defaults body :: rest => .decorated (.function name defaults body) :: rest
  | .classDefinition name body :: rest => .decorated (.classDefinition name body) :: rest
  | rest => .malformed :: rest

def joinPieces : List Piece → List Suite × List Statement
  | [] => ([], [])
  | piece :: rest =>
    let (clauses, statements) := joinPieces rest
    let whole := if clauses.isEmpty then statements else .malformed :: statements
    match piece with
    | .clause kind body => (.mk kind body :: clauses, statements)
    | .opening header body => ([], closeStatement header body clauses :: statements)
    | .decorator => ([], decorate whole)
    | .statements more => ([], more ++ whole)

def statementsOf (pieces : List Piece) : List Statement :=
  let (clauses, statements) := joinPieces pieces
  if clauses.isEmpty then statements else .malformed :: statements

mutual

def pieceOf : Row → Piece
  | .mk lexemes below =>
    if isMatch lexemes then .statements [.compound (casesOf below)]
    else readPiece lexemes (statementsOf (piecesOf below))
termination_by structural row => row

def piecesOf : List Row → List Piece
  | [] => []
  | row :: rest => pieceOf row :: piecesOf rest
termination_by structural rows => rows

def casesOf : List Row → List Suite
  | [] => []
  | row :: rest => caseOf row :: casesOf rest
termination_by structural rows => rows

def caseOf : Row → Suite
  | .mk lexemes below =>
    match case? lexemes with
    | some inline => .mk .case (bodyOf inline (statementsOf (piecesOf below)))
    | none => .mk .case [.malformed]
termination_by structural row => row

end

def Module.read (t : Text) : Module := ⟨statementsOf (piecesOf (rowsOf (lex t)))⟩

end CallSchema.Source
