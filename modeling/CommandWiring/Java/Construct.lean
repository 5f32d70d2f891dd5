/-!
# Constructs of Java

A construct is what a named node of a source tree stands for, and a slot is the place that a node
takes under its parent where the place has a name that matters.
-/

namespace CommandWiring
namespace Java

inductive Construct where
  -- compilation units
  | program | packageDeclaration | importDeclaration | asterisk
  | moduleDeclaration | moduleBody | requiresDirective | requiresModifier | exportsDirective
  | opensDirective | usesDirective | providesDirective
  -- names
  | identifier | underscorePattern | scopedIdentifier
  -- annotations and modifiers
  | modifiers | annotationMark | annotationCall | annotationArgumentList | elementValuePair
  | elementValueArrayInitializer
  -- types
  | voidType | integralType | floatingPointType | booleanType | typeIdentifier
  | scopedTypeIdentifier | genericType | arrayType | annotatedType | typeArguments | wildcard
  | dimensions | typeParameters | typeParameter | typeBound | typeList
  -- declarations of types
  | classDeclaration | interfaceDeclaration | enumDeclaration | recordDeclaration
  | annotationTypeDeclaration | superclass | superInterfaces | extendsInterfaces | permits
  | classBody | interfaceBody | enumBody | enumConstant | enumBodyDeclarations
  | annotationTypeBody | annotationTypeElementDeclaration
  -- members
  | fieldDeclaration | constantDeclaration | methodDeclaration | constructorDeclaration
  | compactConstructorDeclaration | constructorBody | explicitConstructorInvocation
  | staticInitializer | formalParameters | formalParameter | spreadParameter | receiverParameter
  | throws | variableDeclarator | arrayInitializer
  -- statements
  | block | expressionStatement | labeledStatement | ifStatement | whileStatement | forStatement
  | enhancedForStatement | assertStatement | doStatement | breakStatement | continueStatement
  | returnStatement | yieldStatement | synchronizedStatement | throwStatement | tryStatement
  | tryWithResourcesStatement | resourceSpecification | resource | catchClause
  | catchFormalParameter | catchType | finallyClause | localVariableDeclaration
  -- switches and patterns
  | switchExpression | switchBlock | switchBlockStatementGroup | switchRule | switchLabel | guard
  | pattern | typePattern | recordPattern | recordPatternBody | recordPatternComponent
  -- expressions
  | assignmentExpression | ternaryExpression | binaryExpression | instanceofExpression
  | unaryExpression | updateExpression | castExpression | lambdaExpression | inferredParameters
  | parenthesizedExpression | objectCreationExpression | arrayCreationExpression | dimensionsExpr
  | fieldAccess | arrayAccess | methodInvocation | argumentList | methodReference | classLiteral
  | templateExpression | this | super
  -- literals
  | numberLiteral | characterLiteral | stringLiteral | stringFragment | multilineStringFragment
  | escapeSequence | stringInterpolation | trueLiteral | falseLiteral | nullLiteral
  -- text that is no program
  | unreadable
deriving DecidableEq, Repr

inductive Slot where
  | plain
  | name
  | body
  | value
  | object
deriving DecidableEq, Repr

end Java
end CommandWiring
