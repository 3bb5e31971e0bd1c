import EcmaLower.Syntax.Span
import EcmaLower.Text.Shown

/-!
# Faults of a source text

What can be wrong with a source text, and the words in which it is reported.
-/

namespace EcmaLower

/-- What is wrong with a source text. -/
inductive Cause
  -- Lexical causes
  | unterminatedBlockComment
  | unterminatedString
  | unterminatedTemplate
  | unterminatedRegExp
  | unexpectedChar (c : Char)
  | invalidStringEscape
  | invalidUnicodeEscape
  | badEscape (expected : String)
  | expectedUnicodeEscape
  | invalidIdentChar
  | escapeInReservedWord (word : String)
  | expectedDigit (radix : Nat)
  | identAfterNumber
  | exponentWithoutDigits
  | misplacedSeparator
  | legacyDecimal
  | legacyOctal
  | legacyComment
  | conflictMarker
  | unknownRegExpFlags
  | duplicateRegExpFlag (flag : Char)
  -- Tokens
  | expected (want got : String)
  | unexpected (got wanted : String)
  | expectedIdent
  | expectedSemi
  | expectedSemiAfterExpr
  | expectedExpr
  | unexpectedEof
  | trailingComma
  -- Names
  | invalidIdentInStrict (name : String)
  | invalidIdentInAsync
  | evalOrArgumentsBound
  | evalOrArgumentsAssigned
  | argumentsInField
  | spaceAfterHash
  -- Expressions
  | assignProperty
  | invalidAssignTarget
  | notAssignable
  | notSimpleTarget
  | notPattern
  | unaryBeforePower
  | nullishMixed
  | spreadInParens
  | emptyParens
  | arrowNotAllowed
  | lineBreakBeforeArrow
  | awaitStar
  | awaitInFunction
  | awaitInParameters
  | awaitInScript
  | yieldInParameters
  | invalidSuper
  | invalidSuperCall
  | superPrivateName
  | optionalSuper
  | optionalNew
  | taggedOptional
  | invalidNewTarget
  | invalidImport
  | importMetaInScript
  | deleteIdent
  -- Patterns and parameters
  | restNotLast
  | restParamNotLast
  | commaAfterRest
  | restInitializer
  | restNotIdent
  | strictDirective
  | getterParams
  | setterParams
  | setterRest
  | optionalProperty
  -- Statements
  | constWithoutInit
  | patternWithoutInit
  | declarationNotAllowed
  | returnNotAllowed
  | breakOutside
  | breakLabel
  | continueOutside
  | continueLabel
  | duplicateLabel (name : String)
  | labelledFunction
  | labelledFunctionInStrict
  | lineBreakAfterThrow
  | multipleDefaults
  | withInStrict
  | manyForBindings
  | forInitializer
  | awaitForIn
  | forOfAsync
  | usingNotEnabled
  -- Classes
  | duplicateConstructor
  | constructorAccessor
  | constructorGenerator
  | constructorAsync
  | constructorModifier (word : String)
  | fieldNamedConstructor
  | privateConstructor
  | extendsTwice
  -- Modules
  | importExportInScript
  | importBindingIsString (name : String)
  | exportBindingIsString
  | exportExpectsFrom (name : String)
  | outOfFuel
deriving DecidableEq, Repr

/-- The report of a cause. -/
def Cause.message : Cause → String
  | unterminatedBlockComment => "Unterminated block comment"
  | unterminatedString => "Unterminated string constant"
  | unterminatedTemplate => "Unterminated template"
  | unterminatedRegExp => "Unterminated regexp literal"
  | unexpectedChar c => "Unexpected character " ++ reportedChar c
  | invalidStringEscape => "Invalid string escape"
  | invalidUnicodeEscape => "Invalid unicode escape"
  | badEscape e => "Bad character escape sequence, expected " ++ e
  | expectedUnicodeEscape => "Expected unicode escape"
  | invalidIdentChar => "Invalid character in identifier"
  | escapeInReservedWord w => "Unexpected escape sequence in reserved word: " ++ w
  | expectedDigit radix =>
    "Expected " ++ (if radix == 2 then "a binary" else if radix == 8 then "an octal"
      else if radix == 10 then "a decimal" else "a hexadecimal") ++ " digit"
  | identAfterNumber => "Identifier cannot follow number"
  | exponentWithoutDigits => "Expected +, - or decimal digit after e"
  | misplacedSeparator => "A numeric separator is only allowed between two digits"
  | legacyDecimal => "Legacy decimal escape is not permitted in strict mode"
  | legacyOctal => "Legacy octal escape is not permitted in strict mode"
  | legacyComment => "Legacy comments cannot be used in module code"
  | conflictMarker => "Merge conflict marker encountered."
  | unknownRegExpFlags => "Unknown regular expression flags."
  | duplicateRegExpFlag f => "Duplicated regular expression flag '" ++ f.toString ++ "'."
  | expected want got => "Expected '" ++ want ++ "', got '" ++ got ++ "'"
  | unexpected got wanted => "Unexpected token `" ++ got ++ "`. Expected " ++ wanted
  | expectedIdent => "Expected ident"
  | expectedSemi => "Expected a semicolon"
  | expectedSemiAfterExpr => "Expected ';', '\x7d' or <eof>"
  | expectedExpr => "Expression expected"
  | unexpectedEof => "Unexpected eof"
  | trailingComma => "Trailing comma is not allowed"
  | invalidIdentInStrict n => "`" ++ n ++ "` cannot be used as an identifier in strict mode"
  | invalidIdentInAsync => "`await` cannot be used as an identifier in an async context"
  | evalOrArgumentsBound =>
    "'eval' and 'arguments' cannot be used as a binding identifier in strict mode"
  | evalOrArgumentsAssigned => "Invalid use of 'arguments' and 'eval' in strict mode"
  | argumentsInField => "'arguments' is only allowed in functions and class methods"
  | spaceAfterHash => "Unexpected space between # and identifier"
  | assignProperty => "assignment property is invalid syntax"
  | invalidAssignTarget => "Invalid assignment target"
  | notAssignable =>
    "The left-hand side of an assignment expression must be a variable or a property access."
  | notSimpleTarget => "Cannot assign to this"
  | notPattern => "Not a pattern"
  | unaryBeforePower => "'**' cannot be applied to unary/await expression."
  | nullishMixed =>
    "Nullish coalescing operator(??) requires parens when mixing with logical operators"
  | spreadInParens => "Parenthesized expression cannot contain spread operator"
  | emptyParens => "Parenthesized expression cannot be empty"
  | arrowNotAllowed => "An arrow function is not allowed here"
  | lineBreakBeforeArrow => "Unexpected line break between arrow head and arrow"
  | awaitStar =>
    "await* has been removed from the async functions proposal. Use Promise.all() instead."
  | awaitInFunction => "await isn't allowed in non-async function"
  | awaitInParameters => "`await` expressions cannot be used in a parameter initializer."
  | awaitInScript => "top level await is only allowed in module"
  | yieldInParameters => "'yield' cannot be used as a parameter within generator"
  | invalidSuper => "Invalid access to super"
  | invalidSuperCall => "Invalid `super()`"
  | superPrivateName => "Index super with private name is not allowed"
  | optionalSuper => "Super call cannot be optional"
  | optionalNew => "Optional chaining cannot follow constructor call"
  | taggedOptional => "Tagged template literal is not allowed in optional chain."
  | invalidNewTarget => "'new.target' is only allowed in the body of a function declaration, " ++
      "function expression, or class."
  | invalidImport => "Import is not allowed here"
  | importMetaInScript => "'import.meta' cannot be used outside of module code."
  | deleteIdent => "'delete' cannot be called on an identifier in strict mode"
  | restNotLast => "Rest element must be final element"
  | restParamNotLast => "A rest parameter must be last in a parameter list"
  | commaAfterRest => "Trailing comma isn't permitted after a rest element"
  | restInitializer => "A rest parameter cannot have an initializer"
  | restNotIdent => "`...` must be followed by an identifier in declaration contexts"
  | strictDirective =>
    "Illegal 'use strict' directive in function with non-simple parameter list."
  | getterParams => "A `get` accessor cannot have parameters"
  | setterParams => "A `set` accessor must have exactly one parameter"
  | setterRest => "Rest pattern is not allowed in setter"
  | optionalProperty => "An object member cannot be declared optional"
  | constWithoutInit => "'const' declarations must be initialized"
  | patternWithoutInit => "Destructuring bindings require initializers"
  | declarationNotAllowed => "Declaration is not allowed"
  | returnNotAllowed => "Return statement is not allowed here"
  | breakOutside => "A 'break' statement can only be used within an enclosing iteration or " ++
      "switch statement"
  | breakLabel => "A 'break' statement can only jump to a label of an enclosing statement"
  | continueOutside =>
    "A 'continue' statement can only jump to a label of an enclosing iteration statement"
  | continueLabel => "Jump target cannot cross function boundary"
  | duplicateLabel n => "Label " ++ n ++ " is already declared"
  | labelledFunction => "Generator or async function cannot be labelled"
  | labelledFunctionInStrict => "Function cannot be labelled in strict mode"
  | lineBreakAfterThrow => "LineBreak cannot follow 'throw'"
  | multipleDefaults => "A switch block cannot have multiple defaults"
  | withInStrict => "With statement are not allowed in strict mode"
  | manyForBindings => "Expected one variable binding"
  | forInitializer => "Unexpected initializer in for in/of loop"
  | awaitForIn => "for await syntax is valid only for for-of statement"
  | forOfAsync => "The left-hand side of a `for...of` statement may not be `async`"
  | usingNotEnabled => "Using declaration is not enabled. " ++
      "Set jsc.parser.explicitResourceManagement to true"
  | duplicateConstructor => "A class can only have one constructor"
  | constructorAccessor => "Class constructor can't be an accessor."
  | constructorGenerator => "A constructor cannot be generator"
  | constructorAsync => "A constructor cannot be async"
  | constructorModifier w => "'" ++ w ++ "' modifier cannot appear on a constructor declaration"
  | fieldNamedConstructor => "Classes may not have a non-static field named 'constructor'"
  | privateConstructor => "Classes can't have a private field named '#constructor'."
  | extendsTwice => "`extends` clause already seen."
  | importExportInScript => "'import', and 'export' cannot be used outside of module code"
  | importBindingIsString n => "A string literal cannot be used as an imported binding.\n" ++
      "- Did you mean `import \x7b \"" ++ n ++ "\" as foo \x7d`?"
  | exportBindingIsString =>
    "A string literal cannot be used as an exported binding without `from`."
  | exportExpectsFrom n => "`" ++ n ++ "` cannot be used without `from` clause"
  | outOfFuel => "Nesting is too deep"

/-- A cause with the place where it was found. -/
structure Fault where
  span : Span
  cause : Cause
deriving DecidableEq, Repr

end EcmaLower
