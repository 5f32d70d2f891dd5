import CommandWiring.Java.Reader.Machine

/-!
# The grammar of Java

The rules of the language, part by part. Where two readings of a text begin alike, the one that is
tried first asks for a lexeme that the other cannot have.
-/

namespace CommandWiring
namespace Java

/-- Where an expression stands. An arrow behind the expression of a switch label belongs to the
label, so a lambda cannot begin there. -/
inductive Position where
  | free
  | label
deriving DecidableEq, Repr

inductive Part where
  | unit
  | statement
  | block
  | localVariableDeclaration
  | typeDeclaration
  | classBody
  | modifiers
  | annotationUse
  | elementValue
  | type
  | unannotatedType
  | typeArguments
  | formalParameters
  | variableInitializer
  | expression
  | conditional (position : Position)
  | binary (position : Position) (level : Nat)
  | operand (position : Position)
  | prefixed (position : Position)
  | primary
  | arguments
  | creation
  | recordPattern
  | switchExpression
deriving DecidableEq, Repr

namespace Grammar

open Rule

/-!
# Lexemes
-/

def reservedWords : List (List Char) :=
  ["abstract", "assert", "boolean", "break", "byte", "case", "catch", "char", "class", "continue",
    "default", "do", "double", "else", "enum", "extends", "final", "finally", "float", "for", "if",
    "implements", "import", "instanceof", "int", "interface", "long", "native", "new", "package",
    "private", "protected", "public", "return", "short", "static", "strictfp", "super", "switch",
    "synchronized", "this", "throw", "throws", "transient", "try", "void", "volatile", "while",
    "true", "false", "null"].map String.toList

def isName (lexeme : Lexeme) : Bool :=
  lexeme.kind == .word && !reservedWords.contains lexeme.text

def one (accepts : Lexeme -> Bool) : Rule Part :=
  .lexeme false accepts

def word (text : String) : Rule Part :=
  one fun lexeme => lexeme == { kind := .word, text := text.toList }

def symbol (text : String) : Rule Part :=
  one fun lexeme => lexeme == { kind := .symbol, text := text.toList }

def semicolon : Rule Part :=
  .lexeme true fun lexeme => lexeme == { kind := .symbol, text := [';'] }

def ofKind (kind : LexemeKind) : Rule Part :=
  one fun lexeme => lexeme.kind == kind

def symbols (texts : List String) : Rule Part :=
  sequence (texts.map symbol)

def wordIn (texts : List String) : Rule Part :=
  choice (texts.map word)

def comma : Rule Part :=
  symbol ","

def inParentheses (rules : List (Rule Part)) : Rule Part :=
  sequence (symbol "(" :: rules ++ [symbol ")"])

def inBraces (rules : List (Rule Part)) : Rule Part :=
  sequence (symbol "\x7b" :: rules ++ [symbol "\x7d"])

def commaSeparated (rule : Rule Part) : Rule Part :=
  separated rule comma

def commaSeparated1 (rule : Rule Part) : Rule Part :=
  separated1 rule comma

/-!
# Names
-/

def identifier : Rule Part :=
  node .identifier [one isName]

def nameIdentifier : Rule Part :=
  inSlot .name identifier

def declaredName : Rule Part :=
  inSlot .name (choice [node .underscorePattern [word "_"], identifier])

/-- An identifier, or identifiers between dots. -/
def qualifiedName : Rule Part :=
  grown identifier [wrap .scopedIdentifier .plain (sequence [symbol ".", nameIdentifier])]

def thisWord : Rule Part :=
  node .this [word "this"]

def superWord : Rule Part :=
  node .super [word "super"]

/-!
# Annotations and modifiers
-/

def annotations : Rule Part :=
  many (part .annotationUse)

def annotationUse : Rule Part :=
  choice
    [node .annotationCall
      [symbol "@", inSlot .name qualifiedName,
        node .annotationArgumentList
          [inParentheses
            [choice
              [separated1
                (node .elementValuePair
                  [identifier, symbol "=", inSlot .value (part .elementValue)]) comma,
                optional (part .elementValue)]]]],
      node .annotationMark [symbol "@", inSlot .name qualifiedName]]

def elementValue : Rule Part :=
  choice
    [part .annotationUse,
      node .elementValueArrayInitializer
        [inBraces [commaSeparated (part .elementValue), optional comma]],
      part .expression]

def modifierWord : Rule Part :=
  choice
    [wordIn
      ["public", "protected", "private", "abstract", "static", "final", "strictfp", "default",
        "synchronized", "native", "transient", "volatile", "sealed"],
      sequence [word "non", symbol "-", word "sealed"]]

def modifiers : Rule Part :=
  node .modifiers [many1 (choice [part .annotationUse, modifierWord])]

def optionalModifiers : Rule Part :=
  optional (part .modifiers)

/-!
# Types
-/

def typeIdentifier : Rule Part :=
  node .typeIdentifier [one isName]

def wildcard : Rule Part :=
  node .wildcard
    [annotations, symbol "?",
      optional
        (choice
          [sequence [word "extends", part .type], sequence [superWord, part .type]])]

def typeArguments : Rule Part :=
  node .typeArguments
    [symbol "<", commaSeparated (choice [wildcard, part .type]), symbol ">"]

def dimensions : Rule Part :=
  node .dimensions [many1 (sequence [annotations, symbol "[", symbol "]"])]

def primitiveType : Rule Part :=
  choice
    [node .integralType [wordIn ["byte", "short", "int", "long", "char"]],
      node .floatingPointType [wordIn ["float", "double"]],
      node .booleanType [word "boolean"],
      node .voidType [word "void"]]

def namedType : Rule Part :=
  grown typeIdentifier
    [wrap .genericType .plain (part .typeArguments),
      wrap .scopedTypeIdentifier .plain (sequence [symbol ".", annotations, typeIdentifier])]

def simpleType : Rule Part :=
  choice [primitiveType, namedType]

def unannotatedType : Rule Part :=
  grown simpleType [wrap .arrayType .plain dimensions]

def type : Rule Part :=
  choice
    [part .unannotatedType,
      node .annotatedType [many1 (part .annotationUse), part .unannotatedType]]

def typeParameters : Rule Part :=
  node .typeParameters
    [symbol "<",
      commaSeparated1
        (node .typeParameter
          [annotations, typeIdentifier,
            optional
              (node .typeBound
                [word "extends", separated1 (part .type) (symbol "&")])]),
      symbol ">"]

def typeList : Rule Part :=
  node .typeList [commaSeparated1 (part .type)]

def superInterfaces : Rule Part :=
  node .superInterfaces [word "implements", typeList]

def permits : Rule Part :=
  node .permits [word "permits", typeList]

/-!
# Variables and parameters
-/

def variableDeclarator : Rule Part :=
  node .variableDeclarator
    [declaredName, optional dimensions,
      optional (sequence [symbol "=", inSlot .value (part .variableInitializer)])]

def variableDeclarators : Rule Part :=
  commaSeparated1 variableDeclarator

def variableInitializer : Rule Part :=
  choice
    [node .arrayInitializer
      [inBraces [commaSeparated (part .variableInitializer), optional comma]],
      part .expression]

def receiverParameter : Rule Part :=
  node .receiverParameter
    [annotations, part .unannotatedType, many (sequence [identifier, symbol "."]), thisWord]

def formalParameter : Rule Part :=
  choice
    [node .spreadParameter
      [optionalModifiers, part .unannotatedType, symbol "...", annotations, variableDeclarator],
      node .formalParameter
        [optionalModifiers, part .unannotatedType, declaredName, optional dimensions]]

def formalParameters : Rule Part :=
  node .formalParameters
    [inParentheses
      [choice
        [sequence
          [receiverParameter, optional (sequence [comma, commaSeparated1 formalParameter])],
          commaSeparated formalParameter]]]

/-!
# Primary expressions
-/

def interpolation : Rule Part :=
  node .stringInterpolation [symbol "\\\x7b", part .expression, symbol "\x7d"]

def stringLiteral : Rule Part :=
  choice
    [node .stringLiteral
      [ofKind .quote,
        many
          (choice
            [node .stringFragment [ofKind .fragment], node .escapeSequence [ofKind .escape],
              interpolation]),
        ofKind .quote],
      node .stringLiteral
        [ofKind .textQuote,
          many
            (choice
              [node .multilineStringFragment [ofKind .textFragment],
                node .escapeSequence [ofKind .escape], ofKind .bareEscape, interpolation]),
          ofKind .textQuote]]

def literal : Rule Part :=
  choice
    [node .numberLiteral [ofKind .number],
      node .characterLiteral [ofKind .character],
      stringLiteral,
      node .trueLiteral [word "true"],
      node .falseLiteral [word "false"],
      node .nullLiteral [word "null"]]

def parenthesized : Rule Part :=
  node .parenthesizedExpression [inParentheses [part .expression]]

def arguments : Rule Part :=
  node .argumentList [inParentheses [commaSeparated (part .expression)]]

def optionalTypeArguments : Rule Part :=
  optional (part .typeArguments)

def callTail : List (Rule Part) :=
  [symbol ".", optional (sequence [superWord, symbol "."]), optionalTypeArguments, nameIdentifier,
    part .arguments]

def accessTail : List (Rule Part) :=
  [optional (sequence [symbol ".", superWord]), symbol ".", choice [identifier, thisWord]]

def referenceTail : List (Rule Part) :=
  [symbol "::", optionalTypeArguments, choice [word "new", identifier]]

def objectCreationTail : List (Rule Part) :=
  [word "new", annotations, optional (sequence [part .typeArguments, annotations]), simpleType,
    part .arguments, optional (part .classBody)]

def arrayCreation : Rule Part :=
  node .arrayCreationExpression
    [word "new", annotations, simpleType,
      choice
        [sequence
          [many1
            (node .dimensionsExpr [annotations, symbol "[", part .expression, symbol "]"]),
            optional dimensions],
          sequence [dimensions, inSlot .value (part .variableInitializer)]]]

def creation : Rule Part :=
  choice [arrayCreation, node .objectCreationExpression objectCreationTail]

/-- A type in front of a method reference. Behind it `super` is read as the name of a type. -/
def receiverType : Rule Part :=
  grown (part .type)
    [wrap .scopedTypeIdentifier .plain
      (sequence [symbol ".", node .typeIdentifier [word "super"], ahead (symbol "::")])]

/-- A reference whose receiver can only be a type; a plain name is an expression. -/
def referenceOnType : Rule Part :=
  sequence
    [avoid (sequence [qualifiedName, symbol "::"]),
      node .methodReference (receiverType :: referenceTail)]

def onSuper : Rule Part :=
  sequence
    [superWord,
      choice
        [wrap .methodInvocation .object (sequence callTail),
          wrap .fieldAccess .object (sequence accessTail),
          wrap .methodReference .plain (sequence referenceTail)]]

def primaryHead : Rule Part :=
  choice
    [literal,
      part .creation,
      referenceOnType,
      node .classLiteral [part .unannotatedType, symbol ".", word "class"],
      parenthesized,
      scope onSuper,
      thisWord,
      node .methodInvocation [nameIdentifier, part .arguments],
      identifier]

def primary : Rule Part :=
  grown primaryHead
    [wrap .methodInvocation .object (sequence callTail),
      wrap .fieldAccess .object (sequence accessTail),
      wrap .objectCreationExpression .plain (sequence (symbol "." :: objectCreationTail)),
      wrap .arrayAccess .plain (sequence [symbol "[", part .expression, symbol "]"]),
      wrap .methodReference .plain (sequence referenceTail),
      wrap .templateExpression .plain (sequence [symbol ".", stringLiteral])]

/-!
# Operands

A lambda and an assignment can be operands of any operator, and they reach as far as they can.
-/

def lambdaBody : Rule Part :=
  inSlot .body (choice [part .block, part .expression])

def lambda : Rule Part :=
  choice
    [node .lambdaExpression [identifier, symbol "->", lambdaBody],
      node .lambdaExpression
        [node .inferredParameters [inParentheses [commaSeparated1 identifier]], symbol "->",
          lambdaBody],
      node .lambdaExpression [part .formalParameters, symbol "->", lambdaBody]]

def lambdaAt : Position -> Rule Part
  | .free => lambda
  | .label => nothing

def assignmentOperator : Rule Part :=
  choice
    [choice
      (["=", "+=", "-=", "*=", "/=", "&=", "|=", "^=", "%=", "<<="].map symbol),
      symbols [">", ">", ">="],
      symbols [">", ">="]]

/-- A primary expression, or an assignment to one. -/
def assignable (position : Position) : Rule Part :=
  scope
    (both (part .primary)
      (optional
        (wrap .assignmentExpression .plain
          (sequence [assignmentOperator, part (.conditional position)]))))

def signs : Rule Part :=
  choice [symbol "+", symbol "-", symbol "!", symbol "~"]

def steps : Rule Part :=
  choice [symbol "++", symbol "--"]

/-- An operator behind `head` applies to all of it. -/
def stepped (head : Rule Part) : Rule Part :=
  grown head [wrap .updateExpression .plain steps]

/-- An operator of arithmetic behind a single name in parentheses. The name is no type then, and the
operator has two operands. -/
def arithmeticOnName : Rule Part :=
  sequence
    [symbol "(", identifier, symbol ")", optional steps, choice [symbol "+", symbol "-"]]

/-- What begins like a cast is one wherever it can be, unless it is arithmetic on a name. An
operator behind a primary operand applies to the cast. -/
def cast (position : Position) : Rule Part :=
  sequence
    [avoid arithmeticOnName,
      node .castExpression
        [symbol "(", part .type, symbol ")",
          inSlot .value
            (choice
              [lambdaAt position, stepped (part (.prefixed position)), assignable position])]]

/-- A cast to several types takes no operator into its operand. -/
def castToSeveral (position : Position) : Rule Part :=
  node .castExpression
    [symbol "(", part .type, many1 (both (symbol "&") (part .type)), symbol ")",
      inSlot .value (choice [lambdaAt position, part .primary])]

def prefixed (position : Position) : Rule Part :=
  choice
    [node .unaryExpression [signs, part (.operand position)],
      node .updateExpression [steps, part (.operand position)],
      cast position,
      castToSeveral position,
      part .switchExpression]

def operand (position : Position) : Rule Part :=
  choice [lambdaAt position, part (.prefixed position), assignable position]

/-!
# Operators
-/

/-- The binary operators from those that bind least to those that bind most. An operator that is
written with right angle brackets is several lexemes. -/
def binaryLevels : List (List (List String)) :=
  [[["||"]], [["&&"]], [["|"]], [["^"]], [["&"]], [["=="], ["!="]], [["<"], [">"], ["<="], [">="]],
    [["<<"], [">", ">", ">"], [">", ">"]], [["+"], ["-"]], [["*"], ["/"], ["%"]]]

def relationalLevel : Nat := 6

def instanceofTail : Rule Part :=
  sequence
    [word "instanceof", optional (word "final"),
      choice
        [part .recordPattern,
          sequence [part .type, optional (inSlot .name identifier)]]]

def unary (position : Position) : Rule Part :=
  stepped (part (.operand position))

def binary (position : Position) (level : Nat) : Rule Part :=
  match binaryLevels[level]? with
  | none => unary position
  | some operators =>
      let tighter := part (.binary position (level + 1))
      let tails := operators.map fun texts =>
        wrap .binaryExpression .plain (sequence [symbols texts, tighter])
      let comparisons :=
        if level = relationalLevel then [wrap .instanceofExpression .plain instanceofTail] else []
      grown tighter (comparisons ++ tails)

def conditional (position : Position) : Rule Part :=
  grown (part (.binary position 0))
    [wrap .ternaryExpression .plain
      (sequence [symbol "?", part .expression, symbol ":", part (.conditional position)])]

def expression : Rule Part :=
  part (.conditional .free)

/-!
# Switches and patterns
-/

def recordPattern : Rule Part :=
  node .recordPattern
    [choice
      [sequence [identifier, ahead (symbol "(")], grown typeIdentifier
        [wrap .genericType .plain (part .typeArguments),
          wrap .scopedTypeIdentifier .plain (sequence [symbol ".", annotations, typeIdentifier])]],
      node .recordPatternBody
        [inParentheses
          [commaSeparated
            (choice
              [part .recordPattern,
                node .recordPatternComponent [part .unannotatedType, identifier],
                node .recordPatternComponent [node .underscorePattern [word "_"]]])]]]

def pattern : Rule Part :=
  node .pattern
    [choice [part .recordPattern, node .typePattern [part .unannotatedType, identifier]]]

/-- The word `default` behind `case` is read as a name. -/
def labelExpression : Rule Part :=
  choice [part (.conditional .label), node .identifier [word "default"]]

def switchLabel : Rule Part :=
  node .switchLabel
    [choice
      [sequence
        [word "case", choice [pattern, commaSeparated1 labelExpression],
          optional (node .guard [word "when", part (.conditional .label)])],
        word "default"]]

def throwStatement : Rule Part :=
  node .throwStatement [word "throw", part .expression, semicolon]

def expressionStatement : Rule Part :=
  node .expressionStatement [part .expression, semicolon]

/-- A switch that is the first of several statements takes the semicolon behind it. Behind any other
switch a semicolon is a statement of its own. -/
def firstSwitch : Rule Part :=
  scope
    (both (part .switchExpression) (optional (wrap .expressionStatement .plain (symbol ";"))))

def statements : Rule Part :=
  both (optional firstSwitch) (many (part .statement))

def switchBlock : Rule Part :=
  choice
    [node .switchBlock
      [inBraces
        [many1
          (node .switchRule
            [switchLabel, symbol "->",
              choice [part .block, throwStatement, expressionStatement]])]],
      node .switchBlock
        [inBraces
          [many
            (node .switchBlockStatementGroup
              [many1 (sequence [switchLabel, symbol ":"]), statements])]]]

def switchExpression : Rule Part :=
  node .switchExpression [word "switch", parenthesized, inSlot .body switchBlock]

/-!
# Statements
-/

def block : Rule Part :=
  node .block [inBraces [statements]]

def bodyBlock : Rule Part :=
  inSlot .body (part .block)

def bodyStatement : Rule Part :=
  inSlot .body (part .statement)

def localVariableDeclaration : Rule Part :=
  node .localVariableDeclaration
    [optionalModifiers, part .unannotatedType, variableDeclarators, semicolon]

def forStatement : Rule Part :=
  choice
    [node .enhancedForStatement
      [word "for", symbol "(", optionalModifiers, part .unannotatedType, declaredName,
        optional dimensions, symbol ":", inSlot .value (part .expression), symbol ")",
        bodyStatement],
      node .forStatement
        [word "for", symbol "(",
          choice
            [part .localVariableDeclaration,
              sequence [commaSeparated (part .expression), symbol ";"]],
          optional (part .expression), symbol ";", commaSeparated (part .expression), symbol ")",
          bodyStatement]]

def catchClause : Rule Part :=
  node .catchClause
    [word "catch",
      inParentheses
        [node .catchFormalParameter
          [optionalModifiers,
            node .catchType [separated1 (part .unannotatedType) (symbol "|")], declaredName,
            optional dimensions]],
      bodyBlock]

def finallyClause : Rule Part :=
  node .finallyClause [word "finally", part .block]

def resources : Rule Part :=
  node .resourceSpecification
    [inParentheses
      [separated1
        (node .resource
          [choice
            [sequence
              [optionalModifiers, part .unannotatedType, declaredName, optional dimensions,
                symbol "=", inSlot .value (part .expression)],
              part .primary]])
        (symbol ";"),
        optional (symbol ";")]]

def tryStatement : Rule Part :=
  choice
    [node .tryWithResourcesStatement
      [word "try", resources, bodyBlock, many catchClause, optional finallyClause],
      node .tryStatement [word "try", bodyBlock, many catchClause, optional finallyClause]]

/-- A single name in parentheses behind `yield` is the argument of a call, if that makes a
statement. -/
def yieldStatement : Rule Part :=
  choice
    [sequence
      [ahead (sequence [word "yield", symbol "(", identifier, symbol ")"]), expressionStatement],
      node .yieldStatement [word "yield", part .expression, semicolon]]

def markedStatement : Rule Part :=
  choice
    [part .block,
      symbol ";",
      node .ifStatement
        [word "if", parenthesized, part .statement,
          optional (sequence [word "else", part .statement])],
      node .whileStatement [word "while", parenthesized, bodyStatement],
      node .doStatement [word "do", bodyStatement, word "while", parenthesized, semicolon],
      forStatement,
      node .returnStatement [word "return", optional (part .expression), semicolon],
      tryStatement,
      throwStatement,
      part .switchExpression,
      node .synchronizedStatement [word "synchronized", parenthesized, bodyBlock],
      node .breakStatement [word "break", optional identifier, semicolon],
      node .continueStatement [word "continue", optional identifier, semicolon],
      node .assertStatement
        [word "assert", part .expression, optional (sequence [symbol ":", part .expression]),
          semicolon],
      yieldStatement,
      node .labeledStatement [identifier, symbol ":", part .statement]]

/-!
# Units
-/

def moduleDirective : Rule Part :=
  let names := commaSeparated1 qualifiedName
  choice
    [node .requiresDirective
      [word "requires",
        many (node .requiresModifier [wordIn ["transitive", "static"]]), qualifiedName, semicolon],
      node .exportsDirective
        [word "exports", qualifiedName, optional (sequence [word "to", names]), semicolon],
      node .opensDirective
        [word "opens", qualifiedName, optional (sequence [word "to", names]), semicolon],
      node .usesDirective [word "uses", qualifiedName, semicolon],
      node .providesDirective [word "provides", qualifiedName, word "with", names, semicolon]]

def unitDeclaration : Rule Part :=
  choice
    [node .importDeclaration
      [word "import", optional (word "static"), qualifiedName,
        optional (sequence [symbol ".", node .asterisk [symbol "*"]]), semicolon],
      node .packageDeclaration [annotations, word "package", qualifiedName, semicolon],
      node .moduleDeclaration
        [annotations, optional (word "open"), word "module", inSlot .name qualifiedName,
          inSlot .body (node .moduleBody [inBraces [many moduleDirective]])]]

def declarationStatement : Rule Part :=
  choice [unitDeclaration, part .typeDeclaration, part .localVariableDeclaration]

def statement : Rule Part :=
  choice [markedStatement, declarationStatement, expressionStatement]

/-!
# Members
-/

def throwsClause : Rule Part :=
  node .throws [word "throws", commaSeparated1 (part .type)]

/-- The first statement of a constructor, which may call another constructor. -/
def firstOfConstructor : Rule Part :=
  choice
    [sequence
      [node .explicitConstructorInvocation
        [optionalTypeArguments, choice [thisWord, superWord], part .arguments, semicolon],
        optional firstSwitch],
      firstSwitch,
      markedStatement,
      declarationStatement,
      scope
        (both (part .expression)
          (choice
            [wrap .explicitConstructorInvocation .object
              (sequence
                [symbol ".", optionalTypeArguments, superWord, part .arguments, semicolon]),
              wrap .expressionStatement .plain semicolon]))]

def constructorBody : Rule Part :=
  node .constructorBody
    [inBraces [optional (both firstOfConstructor (many (part .statement)))]]

def constructorTail : Rule Part :=
  sequence
    [optional typeParameters, nameIdentifier, part .formalParameters, optional throwsClause,
      inSlot .body constructorBody]

def compactConstructorTail : Rule Part :=
  sequence [nameIdentifier, bodyBlock]

def methodTail : Rule Part :=
  sequence
    [optional (sequence [typeParameters, annotations]), part .unannotatedType, nameIdentifier,
      part .formalParameters, optional dimensions, optional throwsClause,
      choice [bodyBlock, semicolon]]

def variablesTail : Rule Part :=
  sequence [part .unannotatedType, variableDeclarators, semicolon]

/-!
# Declarations of types
-/

def classTail : Rule Part :=
  sequence
    [word "class", nameIdentifier, optional typeParameters,
      optional (node .superclass [word "extends", part .type]), optional superInterfaces,
      optional permits, inSlot .body (part .classBody)]

def enumConstant : Rule Part :=
  node .enumConstant
    [optionalModifiers, nameIdentifier, optional (part .arguments),
      optional (inSlot .body (part .classBody))]

def typeTails (memberOfClass memberOfInterface memberOfAnnotationType : Rule Part) :
    List (Rule Part) :=
  [wrap .classDeclaration .plain classTail,
    wrap .interfaceDeclaration .plain
      (sequence
        [word "interface", nameIdentifier, optional typeParameters,
          optional (node .extendsInterfaces [word "extends", typeList]), optional permits,
          inSlot .body (node .interfaceBody [inBraces [many memberOfInterface]])]),
    wrap .enumDeclaration .plain
      (sequence
        [word "enum", nameIdentifier, optional superInterfaces,
          inSlot .body
            (node .enumBody
              [inBraces
                [commaSeparated enumConstant, optional comma,
                  optional
                    (node .enumBodyDeclarations [symbol ";", many memberOfClass])]])]),
    wrap .recordDeclaration .plain
      (sequence
        [word "record", nameIdentifier, optional typeParameters, part .formalParameters,
          optional superInterfaces, inSlot .body (part .classBody)]),
    wrap .annotationTypeDeclaration .plain
      (sequence
        [symbol "@", word "interface", nameIdentifier,
          inSlot .body (node .annotationTypeBody [inBraces [many memberOfAnnotationType]])])]

def modified (tails : List (Rule Part)) : Rule Part :=
  scope (both optionalModifiers (choice tails))

def memberType : Rule Part :=
  part .typeDeclaration

def memberOfClass : Rule Part :=
  choice
    [symbol ";",
      part .block,
      node .staticInitializer [word "static", part .block],
      memberType,
      modified
        [wrap .constructorDeclaration .plain constructorTail,
          wrap .compactConstructorDeclaration .plain compactConstructorTail,
          wrap .methodDeclaration .plain methodTail,
          wrap .fieldDeclaration .plain variablesTail]]

def memberOfInterface : Rule Part :=
  choice
    [symbol ";",
      memberType,
      modified
        [wrap .methodDeclaration .plain methodTail,
          wrap .constantDeclaration .plain variablesTail]]

def memberOfAnnotationType : Rule Part :=
  choice
    [symbol ";",
      memberType,
      modified
        [wrap .annotationTypeElementDeclaration .plain
          (sequence
            [part .unannotatedType, nameIdentifier, symbol "(", symbol ")", optional dimensions,
              optional (sequence [word "default", inSlot .value (part .elementValue)]), semicolon]),
          wrap .constantDeclaration .plain variablesTail]]

def typeDeclaration : Rule Part :=
  modified (typeTails memberOfClass memberOfInterface memberOfAnnotationType)

def classBody : Rule Part :=
  node .classBody [inBraces [many memberOfClass]]

def topMethod : Rule Part :=
  modified [wrap .methodDeclaration .plain methodTail]

def unit : Rule Part :=
  node .program
    [optional firstSwitch, many (choice [part .typeDeclaration, topMethod, part .statement])]

/-!
# All parts
-/

def rules : Part -> Rule Part
  | .unit => unit
  | .statement => statement
  | .block => block
  | .localVariableDeclaration => localVariableDeclaration
  | .typeDeclaration => typeDeclaration
  | .classBody => classBody
  | .modifiers => modifiers
  | .annotationUse => annotationUse
  | .elementValue => elementValue
  | .type => type
  | .unannotatedType => unannotatedType
  | .typeArguments => typeArguments
  | .formalParameters => formalParameters
  | .variableInitializer => variableInitializer
  | .expression => expression
  | .conditional position => conditional position
  | .binary position level => binary position level
  | .operand position => operand position
  | .prefixed position => prefixed position
  | .primary => primary
  | .arguments => arguments
  | .creation => creation
  | .recordPattern => recordPattern
  | .switchExpression => switchExpression

end Grammar
end Java
end CommandWiring
