import CallSchema.Source.Expression
import CallSchema.Source.Reader

set_option autoImplicit false

namespace CallSchema.Source.Reader

def holeWith (inner : Reader Expression) (specification : Reader Unit) : Reader Unit := do
  let _ ← satisfy (· == .holeStart)
  let _ ← attempt (keyword "yield")
  let _ ← attempt (commaSeparated inner)
  specification
  let _ ← satisfy (· == .holeEnd)

def holes (inner : Reader Expression) : Reader Unit := do
  let nested := holeWith inner (pure ())
  let _ ← many (holeWith inner (do let _ ← many nested))

def literal (inner : Reader Expression) : Reader Text := do
  match (← next).token with
  | .literal written =>
    holes inner
    return written
  | _ => failure

def literals (inner : Reader Expression) : Reader Expression := do
  match ← many1 (literal inner) with
  | [written] => return .literal written
  | written => return .adjacent written

def starredItem (inner : Reader Expression) : Reader Expression := do
  let _ ← mark "*"
  return .starred (← inner)

def yieldExpression (inner : Reader Expression) : Reader Expression := do
  let _ ← keyword "yield"
  if ← opt (keyword "from") then
    let _ ← inner
  else
    let _ ← attempt (commaSeparated inner)
  return .other

def element (inner : Reader Expression) : Reader Expression :=
  starredItem inner <|> yieldExpression inner <|> inner

def lambdaParameter (inner : Reader Expression) : Reader Unit :=
  (do let _ ← mark "**"; let _ ← word) <|>
  (do let _ ← mark "*"; let _ ← attempt word) <|>
  (do let _ ← mark "/") <|>
  (do
    let _ ← word
    if ← opt (mark "=") then
      let _ ← inner)

def lambdaExpression (inner : Reader Expression) : Reader Expression := do
  let _ ← keyword "lambda"
  let _ ← attempt (commaSeparated (lambdaParameter inner))
  let _ ← mark ":"
  let _ ← inner
  return .other

inductive Trailer where
  | call | reference

def comprehensionTargets (primary : Reader Expression) : Reader Unit := do
  let targets ← commaSeparated (do let _ ← attempt (mark "*"); primary)
  guard (targets.1.all Expression.isTarget)

def comprehension (primary inner : Reader Expression) : Reader Unit := do
  let clause : Reader Unit := do
    let _ ← attempt (keyword "async")
    let _ ← keyword "for"
    comprehensionTargets primary
    let _ ← keyword "in"
    let _ ← commaSeparated inner
  let condition : Reader Unit := do
    let _ ← keyword "if"
    let _ ← inner
  clause
  let _ ← many (clause <|> condition)

def argument (primary inner : Reader Expression) : Reader Unit :=
  (do let _ ← anyMark ["*", "**"]; let _ ← inner) <|>
  (do let _ ← name; let _ ← mark "="; let _ ← inner) <|>
  (do let _ ← inner; let _ ← attempt (comprehension primary inner))

def arguments (primary inner : Reader Expression) : Reader Unit := do
  let _ ← mark "("
  if !(← opt (commaSeparated (argument primary inner))) then
    let _ ← attempt (mark ",")
  let _ ← mark ")"

def subscript (inner : Reader Expression) : Reader Unit := do
  let first ← attempt (element inner)
  if ← opt (mark ":") then
    let _ ← attempt inner
    if ← opt (mark ":") then
      let _ ← attempt inner
  else
    guard first.isSome

def trailer (primary inner : Reader Expression) : Reader Trailer :=
  (do let _ ← mark "."; let _ ← word; return .reference) <|>
  (do arguments primary inner; return .call) <|>
  (do
    let _ ← mark "["
    let _ ← commaSeparated (subscript inner)
    let _ ← mark "]"
    return .reference)

def joinedNext : Reader Bool := fun lexemes =>
  some (lexemes.head?.any (·.joined), lexemes)

def parentheses (primary inner : Reader Expression) : Reader Expression := do
  let _ ← mark "("
  if ← opt (mark ")") then
    return .sequence []
  let joined ← joinedNext
  let first ← element inner
  if ← opt (comprehension primary inner) then
    let _ ← mark ")"
    return .other
  match ← attempt (mark ")") with
  | some close =>
    match first with
    | .starred _ => return .other
    | _ => return .parenthesized (joined || close.joined) first
  | none =>
    let _ ← mark ","
    let rest ← attempt (commaSeparated (element inner))
    let _ ← mark ")"
    return .sequence (first :: (rest.map (·.1)).getD [])

def squareBrackets (primary inner : Reader Expression) : Reader Expression := do
  let _ ← mark "["
  if ← opt (mark "]") then
    return .sequence []
  let items ← commaSeparated (element inner)
  let comprised ← opt (comprehension primary inner)
  let _ ← mark "]"
  return if comprised then .other else .sequence items.1

def dictionaryItem (inner : Reader Expression) : Reader (Bool × Item) := do
  let joined ← joinedNext
  if ← opt (mark "**") then
    let _ ← inner
    return (joined, .spread)
  let key ← inner
  let _ ← mark ":"
  return (joined, .pair key (← inner))

def dictionaryRest (inner : Reader Expression) (first : Bool × Item) : Reader Expression := do
  let rest ← many (do
    let comma ← mark ","
    let (joined, item) ← dictionaryItem inner
    return (comma.joined || joined, item))
  let comma ← attempt (mark ",")
  let close ← mark "\x7d"
  let items := first :: rest
  return .dictionary (items.any (·.1) || comma.any (·.joined) || close.joined) (items.map (·.2))

def dictionaryFrom (primary inner : Reader Expression) (first : Bool × Item) :
    Reader Expression :=
  (do
    comprehension primary inner
    let _ ← mark "\x7d"
    return .other) <|> dictionaryRest inner first

def setRest (primary inner : Reader Expression) : Reader Expression := do
  if !(← opt (comprehension primary inner)) then
    let _ ← many (do let _ ← mark ","; element inner)
    let _ ← attempt (mark ",")
  let _ ← mark "\x7d"
  return .other

def braces (primary inner : Reader Expression) : Reader Expression := do
  let _ ← mark "\x7b"
  let comma ← attempt (mark ",")
  match ← attempt (mark "\x7d") with
  | some close => return .dictionary (comma.any (·.joined) || close.joined) []
  | none =>
    guard comma.isNone
    let joined ← joinedNext
    if ← opt (mark "**") then
      let _ ← inner
      dictionaryFrom primary inner (joined, .spread)
    else
      let first ← element inner
      if ← opt (mark ":") then
        dictionaryFrom primary inner (joined, .pair first (← inner))
      else
        setRest primary inner

def constant : Reader Expression := do
  let _ ← satisfy fun token =>
    token == .number || token == .mark ['.', '.', '.'] ||
      ["True", "False", "None"].any fun word => token == .word word.toList
  return .other

def atom (primary inner : Reader Expression) : Reader Expression :=
  (.name <$> name) <|> constant <|> literals inner <|> parentheses primary inner <|>
    squareBrackets primary inner <|> braces primary inner

def primaryWith (primary inner : Reader Expression) : Reader Expression := do
  let first ← atom primary inner
  match (← many (trailer primary inner)).getLast? with
  | none => return first
  | some .reference => return .reference
  | some .call => return .other

def signed (primary : Reader Expression) : Reader Expression :=
  (do
    let _ ← mark "*"
    return .starred (← primary)) <|>
  (do
    let _ ← many1 (anyMark ["+", "-", "~", "*"] <|> keyword "await")
    let _ ← primary
    return .other) <|>
  primary

def chain (operator : Reader Unit) (operand : Reader Expression) : Reader Expression := do
  let first ← operand
  match ← many (do operator; operand) with
  | [] => return first
  | _ => return .other

def binaryOperator : Reader Unit := do
  let _ ← anyMark ["+", "-", "*", "@", "/", "%", "//", "**", "|", "&", "^", "<<", ">>"]

def comparisonOperator : Reader Unit :=
  (do let _ ← anyMark ["<", "<=", "==", "!=", ">=", ">", "<>"]) <|>
  (do let _ ← keyword "in") <|>
  (do let _ ← keyword "not"; let _ ← keyword "in") <|>
  (do let _ ← keyword "is"; let _ ← attempt (keyword "not"))

def namedExpression (inner : Reader Expression) : Reader Expression := do
  let _ ← name
  let _ ← mark ":="
  let _ ← inner
  return .other

def inversion (primary inner : Reader Expression) : Reader Expression := do
  let negations ← many (keyword "not")
  let operand ← lambdaExpression inner <|> namedExpression inner <|>
    chain comparisonOperator (chain binaryOperator (signed primary))
  return if negations.isEmpty then operand else .other

def disjunction (primary inner : Reader Expression) : Reader Expression :=
  chain (do let _ ← keyword "and" <|> keyword "or") (inversion primary inner)

def expressionWith (primary inner : Reader Expression) : Reader Expression := do
  let first ← disjunction primary inner
  let choice ← opt (do
    let _ ← keyword "if"
    let _ ← disjunction primary inner
    let _ ← keyword "else"
    inner)
  let renamed ← opt (do let _ ← keyword "as"; inner)
  return if choice || renamed then .other else first

mutual

def expression : Nat → Reader Expression
  | 0 => failure
  | depth + 1 => fun lexemes =>
    expressionWith (fun rest => primary depth rest) (fun rest => expression depth rest) lexemes
termination_by structural depth => depth

def primary : Nat → Reader Expression
  | 0 => failure
  | depth + 1 => fun lexemes =>
    primaryWith (fun rest => primary depth rest) (fun rest => expression depth rest) lexemes
termination_by structural depth => depth

end

end CallSchema.Source.Reader
