import HeaderBridge.Grammar.Expr

/-! # The header grammar

The body of every rule. Only declarations are described in full: the contents of
`@implementation` blocks, plain C declarations and members that are not
understood are taken as a whole by the rules whose names begin with `skipped`.
-/

namespace HeaderBridge.Grammar

open HeaderBridge.Grammar.Expr

/-- What each rule stands for. -/
def Rule.body : Rule → Expr
  | .endOfInput => finish
  | .whitespace => oneOf " " ["\t", "\r", "\n"]
  | .comment =>
    lit "/*" ++ many (notAhead (lit "*/") ++ char .any) ++ lit "*/"
      <|> lit "//" ++ many (notAhead newline ++ char .any)
  | .identChar => char .letterOrDigit <|> lit "_" <|> lit "$"
  | .identifier => (char .letter <|> lit "_" <|> lit "$") ++ many (call .identChar)

  -- the whole header
  | .translationUnit => start ++ many (call .externalDeclaration) ++ call .endOfInput
  | .externalDeclaration =>
    call .preprocessorDirective <|> call .nonnullAuditMarker
      <|> call .classForwardDeclaration <|> call .protocolForwardDeclaration
      <|> call .categoryInterface <|> call .classInterface <|> call .protocolDeclaration
      <|> call .implementationBlock <|> call .skippedDeclaration
  | .preprocessorDirective =>
    lit "#" ++ many (lit "\\" ++ newline <|> notAhead newline ++ char .any)
  | .nonnullAuditMarker => word (oneOf "NS_ASSUME_NONNULL_BEGIN" ["NS_ASSUME_NONNULL_END"])
  | .classForwardDeclaration =>
    lit "@class" ++ call .identifier ++ many (lit "," ++ call .identifier) ++ lit ";"
  | .protocolForwardDeclaration =>
    lit "@protocol" ++ call .identifier ++ many (lit "," ++ call .identifier) ++ lit ";"
  | .implementationBlock =>
    lit "@implementation" ++ many (notAhead (word (lit "@end")) ++ char .any) ++ lit "@end"
  | .objcDirective =>
    lit "@" ++ word (oneOf "interface"
      ["protocol", "implementation", "class", "end", "property", "optional", "required"])
  | .directiveLine => newline ++ many spaceOrTab ++ lit "#"
  | .skippedDeclaration =>
    many1 (call .skippedBlock
        <|> notAhead (lit ";" <|> call .objcDirective <|> call .directiveLine) ++ char .any)
      ++ opt (lit ";")
  | .skippedBlock =>
    lit "\x7b"
      ++ many (call .skippedBlock
        <|> notAhead (lit "\x7b" <|> lit "\x7d" <|> call .objcDirective) ++ char .any)
      ++ lit "\x7d"

  -- classes, categories and protocols
  | .classInterface =>
    lit "@interface" ++ call .className ++ opt (lit ":" ++ call .superclassName)
      ++ opt (lit "<" ++ call .protocolList ++ lit ">") ++ opt (call .instanceVariables)
      ++ call .interfaceDeclarationList ++ lit "@end"
  | .categoryInterface =>
    lit "@interface" ++ call .className ++ lit "(" ++ opt (call .categoryName) ++ lit ")"
      ++ opt (lit "<" ++ call .protocolList ++ lit ">") ++ opt (call .instanceVariables)
      ++ call .interfaceDeclarationList ++ lit "@end"
  | .className => call .identifier ++ opt (call .genericParameterClause)
  | .superclassName => call .identifier
  | .categoryName => call .identifier
  | .genericParameterClause =>
    lit "<" ++ call .genericParameter ++ many (lit "," ++ call .genericParameter) ++ lit ">"
  | .genericParameter =>
    opt (call .variance) ++ call .identifier ++ opt (lit ":" ++ call .typeArgument)
  | .variance => word (oneOf "__covariant" ["__contravariant"])
  | .protocolDeclaration =>
    lit "@protocol" ++ call .identifier ++ opt (lit "<" ++ call .protocolList ++ lit ">")
      ++ call .protocolDeclarationList ++ lit "@end"
  | .protocolDeclarationList =>
    many (call .protocolSectionKeyword <|> call .interfaceMember)
  | .protocolSectionKeyword => word (oneOf "@optional" ["@required"])
  | .protocolList => call .protocolName ++ many (lit "," ++ call .protocolName)
  | .protocolName => call .identifier

  -- instance variables
  | .instanceVariables => lit "\x7b" ++ many (call .visibilitySection) ++ lit "\x7d"
  | .visibilitySection =>
    call .accessModifier ++ many (call .ivarEntry) <|> many1 (call .ivarEntry)
  | .ivarEntry => call .fieldDeclaration <|> call .skippedField
  | .accessModifier => word (oneOf "@private" ["@package", "@protected", "@public"])
  | .skippedField =>
    many1 (call .skippedBlock
        <|> notAhead (lit ";" <|> lit "\x7d" <|> call .objcDirective) ++ char .any)
      ++ lit ";"

  -- members
  | .interfaceDeclarationList => many (call .interfaceMember)
  | .interfaceMember =>
    call .propertyDeclaration <|> call .methodDeclaration <|> call .preprocessorDirective
      <|> call .nonnullAuditMarker <|> call .skippedMember
  | .skippedMember =>
    opt (lit "@property") ++ many1 (notAhead (lit ";" <|> call .objcDirective) ++ char .any)
      ++ lit ";"
  | .propertyDeclaration =>
    lit "@property" ++ opt (lit "(" ++ call .propertyAttributesList ++ lit ")")
      ++ call .fieldDeclaration
  | .propertyAttributesList =>
    call .propertyAttribute ++ many (lit "," ++ call .propertyAttribute)
  | .propertyAttribute =>
    call .getterKeyword ++ lit "=" ++ call .identifier
      <|> call .setterKeyword ++ lit "=" ++ call .identifier ++ lit ":"
      <|> call .nullabilitySpecifier
      <|> call .identifier
  | .getterKeyword => word (lit "getter")
  | .setterKeyword => word (lit "setter")
  | .methodDeclaration =>
    call .methodKind ++ opt (call .methodType) ++ call .methodSelector
      ++ many (call .declarationMacro) ++ lit ";"
  | .methodKind => oneOf "+" ["-"]
  | .methodType => lit "(" ++ call .typeName ++ lit ")"
  | .methodSelector =>
    many1 (call .keywordDeclarator) ++ opt (call .variadicMarker) <|> call .selector
  | .keywordDeclarator =>
    opt (call .selector) ++ lit ":" ++ many (call .methodType)
      ++ opt (call .arcBehaviourSpecifier) ++ call .identifier
  | .selector => call .identifier
  | .variadicMarker => lit "," ++ lit "..."
  | .declarationMacro =>
    (lit "__attribute__" <|> call .macroName) ++ many spaceOrTab ++ opt (call .macroArguments)
  | .macroName =>
    word (char .upper ++ many1 (char .upper <|> char .digit <|> lit "_"))
  | .macroArguments =>
    lit "(" ++ many (call .macroArguments <|> notAhead (lit "(" <|> lit ")") ++ char .any)
      ++ lit ")"

  -- declarations and types
  | .fieldDeclaration =>
    call .specifierQualifierList ++ call .fieldDeclaratorList
      ++ many (call .declarationMacro) ++ lit ";"
  | .fieldDeclaratorList => call .fieldDeclarator ++ many (lit "," ++ call .fieldDeclarator)
  | .fieldDeclarator => call .declarator ++ opt (lit ":" ++ call .bitWidth)
  | .bitWidth => many1 (char .digit)
  | .specifierQualifierList =>
    many (call .typePrefix) ++ call .typeSpecifier ++ many (call .typePrefix)
  | .typePrefix =>
    call .arcBehaviourSpecifier <|> call .nullabilitySpecifier <|> call .typeQualifier
  | .arcBehaviourSpecifier =>
    word (oneOf "__unsafe_unretained" ["__autoreleasing", "__strong", "__weak", "__block"])
  | .nullabilitySpecifier =>
    word (oneOf "null_unspecified" ["null_resettable", "nullable", "nonnull",
      "_Null_unspecified", "_Nullable", "_Nonnull",
      "__null_unspecified", "__nullable", "__nonnull"])
  | .typeQualifier =>
    word (oneOf "const"
      ["volatile", "restrict", "__kindof", "IBOutlet", "IBInspectable", "__unused"])
  | .typeSpecifier =>
    call .primitiveType <|> call .taggedTypeSpecifier <|> call .genericTypeSpecifier
      <|> call .identifier
  | .primitiveType =>
    word (oneOf "unsigned" ["signed"]) ++ many (many1 spaceOrTab ++ call .primitiveWord)
      <|> call .primitiveWord ++ many (many1 spaceOrTab ++ call .primitiveWord)
  | .primitiveWord =>
    word (oneOf "void" ["char", "short", "int", "long", "float", "double", "_Bool"])
  | .taggedTypeSpecifier => call .tagKeyword ++ call .identifier
  | .tagKeyword => word (oneOf "struct" ["union", "enum"])
  | .genericTypeSpecifier =>
    call .identifier ++ (lit "<" ++ call .protocolList ++ lit ">" <|> call .genericsSpecifier)
  | .genericsSpecifier =>
    lit "<" ++ call .typeArgument ++ many (lit "," ++ call .typeArgument) ++ lit ">"
  | .typeArgument =>
    many (call .typePrefix) ++ call .typeSpecifier ++ many (call .typePrefix)
      ++ opt (call .pointer)
  | .pointer => many1 (call .pointerLevel)
  | .pointerLevel => lit "*" ++ many (call .pointerQualifier)
  | .pointerQualifier =>
    call .typeQualifier <|> call .nullabilitySpecifier <|> call .arcBehaviourSpecifier
  | .declarator => opt (call .pointer) ++ call .directDeclarator
  | .directDeclarator =>
    call .identifier ++ many (call .declaratorSuffix)
      <|> lit "(" ++ lit "^" ++ opt (call .nullabilitySpecifier) ++ opt (call .identifier)
        ++ lit ")" ++ call .blockParameters
  | .declaratorSuffix => lit "[" ++ opt (call .arrayLength) ++ lit "]"
  | .arrayLength => many1 (notAhead (lit "]") ++ char .any)
  | .blockParameters =>
    lit "("
      ++ opt (call .parameterDeclaration ++ many (lit "," ++ call .parameterDeclaration)
        ++ opt (lit "," ++ lit "..."))
      ++ lit ")"
  | .parameterDeclaration =>
    call .specifierQualifierList ++ opt (call .declarator <|> call .abstractDeclarator)
  | .abstractDeclarator =>
    call .pointer ++ (call .abstractBlockDeclarator <|> many (call .declaratorSuffix))
      <|> call .abstractBlockDeclarator
      <|> many1 (call .declaratorSuffix)
  | .abstractBlockDeclarator =>
    lit "(" ++ lit "^" ++ opt (call .nullabilitySpecifier) ++ lit ")" ++ call .blockParameters
  | .typeName => call .specifierQualifierList ++ opt (call .abstractDeclarator)
  | .typeNameEntry => start ++ call .typeName ++ call .endOfInput

end HeaderBridge.Grammar
