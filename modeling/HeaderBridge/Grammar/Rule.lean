/-! # Rules of the header grammar

Every rule has the name that error messages show, and the rules stand in the
order in which those messages list them. A rule's kind says what a match of it
leaves in the parse tree and whether blanks may stand between its parts.
-/

namespace HeaderBridge.Grammar

/-- The rules of the header grammar, in the order of their declaration. -/
inductive Rule where
  | endOfInput | whitespace | comment | identChar | identifier | translationUnit
  | externalDeclaration | preprocessorDirective | nonnullAuditMarker | classForwardDeclaration
  | protocolForwardDeclaration | implementationBlock | objcDirective | directiveLine
  | skippedDeclaration | skippedBlock | classInterface | categoryInterface | className
  | superclassName | categoryName | genericParameterClause | genericParameter | variance
  | protocolDeclaration | protocolDeclarationList | protocolSectionKeyword | protocolList
  | protocolName | instanceVariables | visibilitySection | ivarEntry | accessModifier
  | skippedField | interfaceDeclarationList | interfaceMember | skippedMember
  | propertyDeclaration | propertyAttributesList | propertyAttribute | getterKeyword
  | setterKeyword | methodDeclaration | methodKind | methodType | methodSelector
  | keywordDeclarator | selector | variadicMarker | declarationMacro | macroName | macroArguments
  | fieldDeclaration | fieldDeclaratorList | fieldDeclarator | bitWidth | specifierQualifierList
  | typePrefix | arcBehaviourSpecifier | nullabilitySpecifier | typeQualifier | typeSpecifier
  | primitiveType | primitiveWord | taggedTypeSpecifier | tagKeyword | genericTypeSpecifier
  | genericsSpecifier | typeArgument | pointer | pointerLevel | pointerQualifier | declarator
  | directDeclarator | declaratorSuffix | arrayLength | blockParameters | parameterDeclaration
  | abstractDeclarator | abstractBlockDeclarator | typeName | typeNameEntry
  deriving DecidableEq, Inhabited

namespace Rule

def name : Rule → String
  | .endOfInput => "EOI"
  | .whitespace => "WHITESPACE"
  | .comment => "COMMENT"
  | .identChar => "ident_char"
  | .identifier => "identifier"
  | .translationUnit => "translation_unit"
  | .externalDeclaration => "external_declaration"
  | .preprocessorDirective => "preprocessor_directive"
  | .nonnullAuditMarker => "nonnull_audit_marker"
  | .classForwardDeclaration => "class_forward_declaration"
  | .protocolForwardDeclaration => "protocol_forward_declaration"
  | .implementationBlock => "implementation_block"
  | .objcDirective => "objc_directive"
  | .directiveLine => "directive_line"
  | .skippedDeclaration => "skipped_declaration"
  | .skippedBlock => "skipped_block"
  | .classInterface => "class_interface"
  | .categoryInterface => "category_interface"
  | .className => "class_name"
  | .superclassName => "superclass_name"
  | .categoryName => "category_name"
  | .genericParameterClause => "generic_parameter_clause"
  | .genericParameter => "generic_parameter"
  | .variance => "variance"
  | .protocolDeclaration => "protocol_declaration"
  | .protocolDeclarationList => "protocol_declaration_list"
  | .protocolSectionKeyword => "protocol_section_keyword"
  | .protocolList => "protocol_list"
  | .protocolName => "protocol_name"
  | .instanceVariables => "instance_variables"
  | .visibilitySection => "visibility_section"
  | .ivarEntry => "ivar_entry"
  | .accessModifier => "access_modifier"
  | .skippedField => "skipped_field"
  | .interfaceDeclarationList => "interface_declaration_list"
  | .interfaceMember => "interface_member"
  | .skippedMember => "skipped_member"
  | .propertyDeclaration => "property_declaration"
  | .propertyAttributesList => "property_attributes_list"
  | .propertyAttribute => "property_attribute"
  | .getterKeyword => "getter_keyword"
  | .setterKeyword => "setter_keyword"
  | .methodDeclaration => "method_declaration"
  | .methodKind => "method_kind"
  | .methodType => "method_type"
  | .methodSelector => "method_selector"
  | .keywordDeclarator => "keyword_declarator"
  | .selector => "selector"
  | .variadicMarker => "variadic_marker"
  | .declarationMacro => "declaration_macro"
  | .macroName => "macro_name"
  | .macroArguments => "macro_arguments"
  | .fieldDeclaration => "field_declaration"
  | .fieldDeclaratorList => "field_declarator_list"
  | .fieldDeclarator => "field_declarator"
  | .bitWidth => "bit_width"
  | .specifierQualifierList => "specifier_qualifier_list"
  | .typePrefix => "type_prefix"
  | .arcBehaviourSpecifier => "arc_behaviour_specifier"
  | .nullabilitySpecifier => "nullability_specifier"
  | .typeQualifier => "type_qualifier"
  | .typeSpecifier => "type_specifier"
  | .primitiveType => "primitive_type"
  | .primitiveWord => "primitive_word"
  | .taggedTypeSpecifier => "tagged_type_specifier"
  | .tagKeyword => "tag_keyword"
  | .genericTypeSpecifier => "generic_type_specifier"
  | .genericsSpecifier => "generics_specifier"
  | .typeArgument => "type_argument"
  | .pointer => "pointer"
  | .pointerLevel => "pointer_level"
  | .pointerQualifier => "pointer_qualifier"
  | .declarator => "declarator"
  | .directDeclarator => "direct_declarator"
  | .declaratorSuffix => "declarator_suffix"
  | .arrayLength => "array_length"
  | .blockParameters => "block_parameters"
  | .parameterDeclaration => "parameter_declaration"
  | .abstractDeclarator => "abstract_declarator"
  | .abstractBlockDeclarator => "abstract_block_declarator"
  | .typeName => "type_name"
  | .typeNameEntry => "type_name_entry"

def all : List Rule :=
  [.endOfInput, .whitespace, .comment, .identChar, .identifier, .translationUnit,
    .externalDeclaration, .preprocessorDirective, .nonnullAuditMarker, .classForwardDeclaration,
    .protocolForwardDeclaration, .implementationBlock, .objcDirective, .directiveLine,
    .skippedDeclaration, .skippedBlock, .classInterface, .categoryInterface, .className,
    .superclassName, .categoryName, .genericParameterClause, .genericParameter, .variance,
    .protocolDeclaration, .protocolDeclarationList, .protocolSectionKeyword, .protocolList,
    .protocolName, .instanceVariables, .visibilitySection, .ivarEntry, .accessModifier,
    .skippedField, .interfaceDeclarationList, .interfaceMember, .skippedMember,
    .propertyDeclaration, .propertyAttributesList, .propertyAttribute, .getterKeyword,
    .setterKeyword, .methodDeclaration, .methodKind, .methodType, .methodSelector,
    .keywordDeclarator, .selector, .variadicMarker, .declarationMacro, .macroName,
    .macroArguments, .fieldDeclaration, .fieldDeclaratorList, .fieldDeclarator, .bitWidth,
    .specifierQualifierList, .typePrefix, .arcBehaviourSpecifier, .nullabilitySpecifier,
    .typeQualifier, .typeSpecifier, .primitiveType, .primitiveWord, .taggedTypeSpecifier,
    .tagKeyword, .genericTypeSpecifier, .genericsSpecifier, .typeArgument, .pointer,
    .pointerLevel, .pointerQualifier, .declarator, .directDeclarator, .declaratorSuffix,
    .arrayLength, .blockParameters, .parameterDeclaration, .abstractDeclarator,
    .abstractBlockDeclarator, .typeName, .typeNameEntry]

def ofName? (s : String) : Option Rule :=
  all.find? (·.name == s)

theorem mem_all (r : Rule) : r ∈ all := by
  cases r <;> simp [all]

end Rule

/-- What a match of a rule leaves behind, and how blanks are treated inside it. -/
inductive Kind where
  /-- Leaves a node; blanks may stand between the parts. -/
  | branch
  /-- Leaves a node without children; its parts stand together. -/
  | token
  /-- Leaves only the nodes of its parts. -/
  | group
  /-- Leaves nothing; its parts stand together. -/
  | blank
  deriving DecidableEq

/-- The kind of each rule; a rule is a branch unless listed. -/
def Rule.kind : Rule → Kind
  | .whitespace | .comment => .blank
  | .identChar | .externalDeclaration | .objcDirective | .directiveLine | .ivarEntry
  | .interfaceMember | .typePrefix | .pointerQualifier => .group
  | .identifier | .preprocessorDirective | .nonnullAuditMarker | .implementationBlock
  | .skippedDeclaration | .variance | .protocolSectionKeyword | .accessModifier
  | .skippedField | .skippedMember | .getterKeyword | .setterKeyword | .methodKind
  | .declarationMacro | .bitWidth | .arcBehaviourSpecifier | .nullabilitySpecifier
  | .typeQualifier | .primitiveType | .tagKeyword | .arrayLength => .token
  | _ => .branch

end HeaderBridge.Grammar
