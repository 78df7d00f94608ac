import FilterQuery.Condition
import FilterQuery.Literal
import FilterQuery.Token

set_option autoImplicit false

/-! # Parsing filters

An expression is a row of terms with `$and:` or `$or:` between them, joined from the left. A term is
a negation, an expression in parentheses, a having condition or a predicate on a field. Every
negation, pair of parentheses and having condition is one level of nesting, and the levels are
limited.

A parser takes the tokens in front of it and returns a result with the tokens behind. The parser of
terms is built level by level: `termAt inner` reads one term and uses `inner`, if there is a level
left, for what is nested in it. The condition inside a having condition is read as a filter of its
own, from the tokens between the parentheses. -/

namespace FilterQuery

open FilterQuery.Text

/-- What the parser looked for at the place of an error. -/
inductive Expected where
  | continuation | term | operator | comparison | value | havingSubject | number
  | token (t : Token)
  deriving DecidableEq, Repr

def Expected.text : Expected → String
  | .continuation => "'$and:', '$or:' or end of input"
  | .term => "a field, '(', '$not:' or '$having:'"
  | .operator => "an operator"
  | .comparison => "a comparison operator"
  | .value => "a value"
  | .havingSubject => "a field or aggregate function"
  | .number => "a number"
  | .token t => "'" ++ String.ofList t.spelling ++ "'"

/-- Why a text is no filter. -/
inductive ParseError where
  | lex (e : LexError)
  | unexpectedToken (found : Token) (expected : Expected) (position : Position)
  | unexpectedEnd (expected : Expected) (position : Position)
  | unknownOperator (operator : String) (position : Position)
  | unknownValueType (literal : String) (position : Position)
  | dateTime (literal : String) (cause : DateTimeError) (position : Position)
  | tooLong (length max : Nat)
  | tooDeep (max : Nat) (position : Position)
  deriving DecidableEq, Repr

namespace ParseError

def message : ParseError → String
  | .lex e => "lex error: " ++ e.message
  | .unexpectedToken found expected position =>
    let spelling := String.ofList found.spelling
    s!"unexpected token '{spelling}' {position.text}, expected {expected.text}"
  | .unexpectedEnd expected position =>
    s!"unexpected end of input {position.text}, expected {expected.text}"
  | .unknownOperator operator position => s!"unknown operator {operator} {position.text}"
  | .unknownValueType literal position => s!"unknown value type for '{literal}' {position.text}"
  | .dateTime literal cause position =>
    s!"failed to parse date/time value '{literal}' {position.text}: {cause.message}"
  | .tooLong length max => s!"filter is {length} bytes long, the limit is {max}"
  | .tooDeep max position => s!"filter nesting exceeds {max} levels {position.text}"

/-- The place of the error, if it has one. -/
def position? : ParseError → Option Position
  | .lex e => some e.position
  | .unexpectedToken _ _ p | .unexpectedEnd _ p | .unknownOperator _ p | .unknownValueType _ p
  | .dateTime _ _ p | .tooDeep _ p => some p
  | .tooLong .. => none

end ParseError

/-- Bounds on the text of a filter. -/
structure Limits where
  /-- Length in bytes. -/
  maxLength : Nat := 4096
  /-- Levels of nesting. -/
  maxDepth : Nat := 64
  deriving DecidableEq, Repr

namespace Condition

/-- The outcome of a parser. -/
abbrev Parse := Except (Failure ParseError)

/-- What every parser of one filter shares: its text, its limit of nesting, and the zones that it
may name. -/
structure Context where
  source : List Char
  maxDepth : Nat
  zones : Zone.Database

/-- Reads a term from tokens that end at a byte offset. -/
abbrev TermParser := Nat → List Lexeme → Parse (Condition × List Lexeme)

namespace Context

def position (ctx : Context) (offset : Nat) : Position := Position.ofOffset ctx.source offset

/-- The offset of the next token, or of the end. -/
def offset (stop : Nat) : List Lexeme → Nat
  | [] => stop
  | lexeme :: _ => lexeme.start

/-- The next token is not what was expected. -/
def unexpected (ctx : Context) {α : Type} (expected : Expected) (stop : Nat) :
    List Lexeme → Parse α
  | [] => refuse (.unexpectedEnd expected (ctx.position stop))
  | lexeme :: _ => refuse (.unexpectedToken lexeme.token expected (ctx.position lexeme.start))

/-- Pass a given token. -/
def expect (ctx : Context) (token : Token) (stop : Nat) (tokens : List Lexeme) :
    Parse (List Lexeme) :=
  match tokens with
  | [] => ctx.unexpected (.token token) stop tokens
  | lexeme :: rest =>
    if lexeme.token = token then .ok rest else ctx.unexpected (.token token) stop tokens

/-- The parser of the next level of nesting, if the limit leaves one. -/
def enter (ctx : Context) (inner : Option TermParser) (stop : Nat) (tokens : List Lexeme) :
    Parse TermParser :=
  match inner with
  | some parser => .ok parser
  | none => refuse (.tooDeep ctx.maxDepth (ctx.position (offset stop tokens)))

/-! ## Values -/

/-- An error in a literal, as an error at its place. -/
def literalError (ctx : Context) (literal : List Char) (start : Nat) : LiteralError → ParseError
  | .unknownValueType => .unknownValueType (String.ofList literal) (ctx.position start)
  | .dateTime e => .dateTime (String.ofList literal) e (ctx.position start)

/-- The value of a literal token. -/
def literalValue (ctx : Context) (op : Operator) (raw : String) (quoted : Bool) (start : Nat) :
    Parse Value :=
  let literal := trim raw.toList
  match Literal.coerce ctx.zones literal quoted op with
  | .ok value => .ok value
  | .error e => .error (e.map (ctx.literalError literal start))

def value (ctx : Context) (op : Operator) (stop : Nat) (tokens : List Lexeme) :
    Parse (Value × List Lexeme) :=
  match tokens with
  | ⟨.literal raw quoted, start, _⟩ :: rest => do
    let v ← ctx.literalValue op raw quoted start
    return (v, rest)
  | _ => ctx.unexpected .value stop tokens

/-- The values of a list behind its first one, each with a comma in front. -/
def moreValues (ctx : Context) (op : Operator) (stop : Nat) :
    List Lexeme → Parse (List Value × List Lexeme)
  | ⟨.comma, _, _⟩ :: ⟨.literal raw quoted, start, _⟩ :: rest => do
    let v ← ctx.literalValue op raw quoted start
    let (vs, rest) ← moreValues ctx op stop rest
    return (v :: vs, rest)
  | ⟨.comma, _, _⟩ :: rest => ctx.unexpected .value stop rest
  | tokens => .ok ([], tokens)

/-- Values in brackets, one at least. -/
def valueList (ctx : Context) (op : Operator) (stop : Nat) (tokens : List Lexeme) :
    Parse (List Value × List Lexeme) := do
  let tokens ← ctx.expect .openBracket stop tokens
  let (v, tokens) ← ctx.value op stop tokens
  let (vs, tokens) ← ctx.moreValues op stop tokens
  let tokens ← ctx.expect .closeBracket stop tokens
  return (v :: vs, tokens)

/-! ## Predicates -/

/-- The next operator and the token it stands in. -/
def operator (ctx : Context) (stop : Nat) (tokens : List Lexeme) :
    Parse ((Operator × Lexeme) × List Lexeme) :=
  match tokens with
  | [] => ctx.unexpected .operator stop tokens
  | lexeme :: rest =>
    match lexeme.token with
    | .operator text =>
      match Operator.ofToken? text with
      | some op => .ok ((op, lexeme), rest)
      | none => refuse (.unknownOperator text (ctx.position lexeme.start))
    | _ => ctx.unexpected .operator stop tokens

/-- An operator that stands where only a comparison can. -/
def notComparison (ctx : Context) {α : Type} (lexeme : Lexeme) : Parse α :=
  refuse (.unexpectedToken lexeme.token .comparison (ctx.position lexeme.start))

/-- The operator of a predicate and what it needs. -/
def predicate (ctx : Context) (field : String) (stop : Nat) (tokens : List Lexeme) :
    Parse (Condition × List Lexeme) := do
  let ((op, lexeme), tokens) ← ctx.operator stop tokens
  match op with
  | .null | .notNull => return (.simple field op none, tokens)
  | .oneOf =>
    let (vs, tokens) ← ctx.valueList op stop tokens
    return (.oneOf field vs, tokens)
  | .noneOf =>
    let (vs, tokens) ← ctx.valueList op stop tokens
    return (.noneOf field vs, tokens)
  | .and | .or | .not => ctx.notComparison lexeme
  | _ =>
    let (v, tokens) ← ctx.value op stop tokens
    return (.simple field op (some v), tokens)

/-! ## Expressions -/

/-- The connective in front of another term. -/
def connective? : List Lexeme → Option (Connective × List Lexeme)
  | ⟨.operator text, _, _⟩ :: rest =>
    if text = Operator.and.token then some (.and, rest)
    else if text = Operator.or.token then some (.or, rest)
    else none
  | _ => none

/-- Join further terms to `left`; `fuel` bounds their number. -/
def chain (term : TermParser) (stop : Nat) :
    (fuel : Nat) → Condition → List Lexeme → Parse (Condition × List Lexeme)
  | 0, left, tokens => .ok (left, tokens)
  | fuel + 1, left, tokens =>
    match connective? tokens with
    | none => .ok (left, tokens)
    | some (join, rest) => do
      let (right, rest) ← term stop rest
      chain term stop fuel (.group join left right []) rest

/-- Terms joined from the left. Each of them takes a token, so their number is bounded. -/
def expression (term : TermParser) : TermParser := fun stop tokens => do
  let (first, rest) ← term stop tokens
  chain term stop rest.length first rest

/-- An expression that uses up its tokens. -/
def filter (ctx : Context) (term : TermParser) (stop : Nat) (tokens : List Lexeme) :
    Parse Condition := do
  let (c, rest) ← expression term stop tokens
  match rest with
  | [] => return c
  | _ => ctx.unexpected .continuation stop rest

/-! ## Having conditions -/

/-- The tokens up to the parenthesis that closes the current one, that parenthesis, and the tokens
behind it; `depth` counts the parentheses opened since. -/
def closing? (depth : Nat) : List Lexeme → Option (List Lexeme × Lexeme × List Lexeme)
  | [] => none
  | lexeme :: rest =>
    let inside (depth : Nat) := (closing? depth rest).map fun (before, close, after) =>
      (lexeme :: before, close, after)
    match lexeme.token with
    | .openParen => inside (depth + 1)
    | .closeParen => if depth = 0 then some ([], lexeme, rest) else inside (depth - 1)
    | _ => inside depth

/-- A condition on the members of the relationship `field`. -/
def havingFilter (ctx : Context) (term : TermParser) (field : String) (stop : Nat)
    (tokens : List Lexeme) : Parse (Condition × List Lexeme) := do
  let tokens ← ctx.expect .openParen stop tokens
  match closing? 0 tokens with
  | none => ctx.unexpected (.token .closeParen) stop []
  | some (inside, close, rest) =>
    let sub ← ctx.filter term close.start inside
    return (.having field sub, rest)

/-- The comparison of a function with a number. -/
def aggregateBound (ctx : Context) (function : Aggregate) (field : String) (stop : Nat)
    (tokens : List Lexeme) : Parse (Condition × List Lexeme) := do
  let ((op, lexeme), tokens) ← ctx.operator stop tokens
  if !op.isComparison then ctx.notComparison lexeme
  else
    match tokens with
    | ⟨.literal raw false, start, _⟩ :: rest =>
      let literal := trim raw.toList
      if Shape.isNumber literal then
        match Literal.number literal with
        | .ok bound => return (.aggregate field function op bound, rest)
        | .error e => refuse (ctx.literalError literal start e)
      else ctx.unexpected .number stop tokens
    | _ => ctx.unexpected .number stop tokens

/-- The name of a function, a field in parentheses and an operator are a function over the
relationship; any other name is a relationship with a condition on its members. -/
def having (ctx : Context) (term : TermParser) (stop : Nat) (tokens : List Lexeme) :
    Parse (Condition × List Lexeme) :=
  match tokens with
  | ⟨.literal raw _, _, _⟩ :: rest =>
    let name := trimmed raw
    match Aggregate.ofName? name, rest with
    | some function, ⟨.openParen, _, _⟩ :: ⟨.literal field _, _, _⟩ :: ⟨.closeParen, _, _⟩ ::
        ⟨.operator text, start, stop'⟩ :: rest' =>
      ctx.aggregateBound function (trimmed field) stop (⟨.operator text, start, stop'⟩ :: rest')
    | _, _ => ctx.havingFilter term name stop rest
  | _ => ctx.unexpected .havingSubject stop tokens

/-! ## Terms -/

/-- One term; `inner` reads the terms nested in it. -/
def termAt (ctx : Context) (inner : Option TermParser) : TermParser := fun stop tokens =>
  match tokens with
  | ⟨.operator text, _, _⟩ :: rest =>
    if text = Operator.not.token then do
      let term ← ctx.enter inner stop rest
      let (c, rest) ← term stop rest
      return (.not c, rest)
    else ctx.unexpected .term stop tokens
  | ⟨.openParen, _, _⟩ :: rest => do
    let term ← ctx.enter inner stop rest
    let (c, rest) ← expression term stop rest
    let rest ← ctx.expect .closeParen stop rest
    return (c, rest)
  | ⟨.having, _, _⟩ :: rest => do
    let term ← ctx.enter inner stop rest
    ctx.having term stop rest
  | ⟨.literal raw _, _, _⟩ :: rest => ctx.predicate (trimmed raw) stop rest
  | _ => ctx.unexpected .term stop tokens

/-- The parser of terms that may nest `levels` deep. -/
def term (ctx : Context) : (levels : Nat) → TermParser
  | 0 => ctx.termAt none
  | levels + 1 => ctx.termAt (some (ctx.term levels))

end Context

/-- The condition that a filter denotes. -/
def parse (limits : Limits) (source : String) (zones : Zone.Database := Zone.known) :
    Parse Condition :=
  let text := source.toList
  if limits.maxLength < byteSize text then
    refuse (.tooLong (byteSize text) limits.maxLength)
  else
    match lexemes text with
    | .error e => refuse (.lex e)
    | .ok tokens =>
      let ctx : Context := ⟨text, limits.maxDepth, zones⟩
      ctx.filter (ctx.term limits.maxDepth) (byteSize text) tokens

end Condition

end FilterQuery
