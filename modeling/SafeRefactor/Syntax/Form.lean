/-!
# Forms of syntax

The named forms of Python syntax that a tree distinguishes, with the name each goes by in messages.
-/

set_option autoImplicit false

namespace SafeRefactor.Syntax

inductive Form where
  | moduleUnit
  | expressionStatement
  | importStatement
  | importPrefix
  | relativeImport
  | futureImportStatement
  | importFromStatement
  | aliasedImport
  | wildcardImport
  | printStatement
  | chevron
  | assertStatement
  | namedExpression
  | returnStatement
  | deleteStatement
  | raiseStatement
  | passStatement
  | breakStatement
  | continueStatement
  | ifStatement
  | elifClause
  | elseClause
  | matchStatement
  | caseClause
  | forStatement
  | whileStatement
  | tryStatement
  | exceptClause
  | exceptGroupClause
  | finallyClause
  | withStatement
  | withClause
  | withItem
  | functionDefinition
  | parameters
  | lambdaParameters
  | listSplat
  | dictionarySplat
  | globalStatement
  | nonlocalStatement
  | execStatement
  | typeAliasStatement
  | classDefinition
  | typeParameter
  | parenthesizedListSplat
  | argumentList
  | decoratedDefinition
  | decorator
  | block
  | expressionList
  | dottedName
  | casePattern
  | unionPattern
  | listPattern
  | tuplePattern
  | dictPattern
  | keywordPattern
  | splatPattern
  | classPattern
  | complexPattern
  | asPattern
  | asPatternTarget
  | patternList
  | defaultParameter
  | typedDefaultParameter
  | listSplatPattern
  | dictionarySplatPattern
  | notOperator
  | booleanOperator
  | binaryOperator
  | unaryOperator
  | comparisonOperator
  | lambdaExpr
  | assignment
  | augmentedAssignment
  | yieldExpr
  | attributeAccess
  | subscript
  | slice
  | call
  | typedParameter
  | typeExpr
  | splatType
  | genericType
  | unionType
  | constrainedType
  | memberType
  | keywordArgument
  | listDisplay
  | setDisplay
  | tupleDisplay
  | dictDisplay
  | pair
  | listComprehension
  | dictionaryComprehension
  | setComprehension
  | generatorExpression
  | forInClause
  | ifClause
  | parenthesizedExpression
  | conditionalExpression
  | concatenatedString
  | stringLiteral
  | stringStart
  | stringContent
  | stringEnd
  | interpolation
  | escapeSequence
  | escapeInterpolation
  | formatSpecifier
  | formatExpression
  | typeConversion
  | integerLiteral
  | floatLiteral
  | identifier
  | trueLiteral
  | falseLiteral
  | noneLiteral
  | awaitExpr
  | comment
  | lineContinuation
  | positionalSeparator
  | keywordSeparator
  | ellipsis
  deriving DecidableEq, Repr

namespace Form

def name : Form → String
  | moduleUnit => "module"
  | expressionStatement => "expression_statement"
  | importStatement => "import_statement"
  | importPrefix => "import_prefix"
  | relativeImport => "relative_import"
  | futureImportStatement => "future_import_statement"
  | importFromStatement => "import_from_statement"
  | aliasedImport => "aliased_import"
  | wildcardImport => "wildcard_import"
  | printStatement => "print_statement"
  | chevron => "chevron"
  | assertStatement => "assert_statement"
  | namedExpression => "named_expression"
  | returnStatement => "return_statement"
  | deleteStatement => "delete_statement"
  | raiseStatement => "raise_statement"
  | passStatement => "pass_statement"
  | breakStatement => "break_statement"
  | continueStatement => "continue_statement"
  | ifStatement => "if_statement"
  | elifClause => "elif_clause"
  | elseClause => "else_clause"
  | matchStatement => "match_statement"
  | caseClause => "case_clause"
  | forStatement => "for_statement"
  | whileStatement => "while_statement"
  | tryStatement => "try_statement"
  | exceptClause => "except_clause"
  | exceptGroupClause => "except_group_clause"
  | finallyClause => "finally_clause"
  | withStatement => "with_statement"
  | withClause => "with_clause"
  | withItem => "with_item"
  | functionDefinition => "function_definition"
  | parameters => "parameters"
  | lambdaParameters => "lambda_parameters"
  | listSplat => "list_splat"
  | dictionarySplat => "dictionary_splat"
  | globalStatement => "global_statement"
  | nonlocalStatement => "nonlocal_statement"
  | execStatement => "exec_statement"
  | typeAliasStatement => "type_alias_statement"
  | classDefinition => "class_definition"
  | typeParameter => "type_parameter"
  | parenthesizedListSplat => "parenthesized_list_splat"
  | argumentList => "argument_list"
  | decoratedDefinition => "decorated_definition"
  | decorator => "decorator"
  | block => "block"
  | expressionList => "expression_list"
  | dottedName => "dotted_name"
  | casePattern => "case_pattern"
  | unionPattern => "union_pattern"
  | listPattern => "list_pattern"
  | tuplePattern => "tuple_pattern"
  | dictPattern => "dict_pattern"
  | keywordPattern => "keyword_pattern"
  | splatPattern => "splat_pattern"
  | classPattern => "class_pattern"
  | complexPattern => "complex_pattern"
  | asPattern => "as_pattern"
  | asPatternTarget => "as_pattern_target"
  | patternList => "pattern_list"
  | defaultParameter => "default_parameter"
  | typedDefaultParameter => "typed_default_parameter"
  | listSplatPattern => "list_splat_pattern"
  | dictionarySplatPattern => "dictionary_splat_pattern"
  | notOperator => "not_operator"
  | booleanOperator => "boolean_operator"
  | binaryOperator => "binary_operator"
  | unaryOperator => "unary_operator"
  | comparisonOperator => "comparison_operator"
  | lambdaExpr => "lambda"
  | assignment => "assignment"
  | augmentedAssignment => "augmented_assignment"
  | yieldExpr => "yield"
  | attributeAccess => "attribute"
  | subscript => "subscript"
  | slice => "slice"
  | call => "call"
  | typedParameter => "typed_parameter"
  | typeExpr => "type"
  | splatType => "splat_type"
  | genericType => "generic_type"
  | unionType => "union_type"
  | constrainedType => "constrained_type"
  | memberType => "member_type"
  | keywordArgument => "keyword_argument"
  | listDisplay => "list"
  | setDisplay => "set"
  | tupleDisplay => "tuple"
  | dictDisplay => "dictionary"
  | pair => "pair"
  | listComprehension => "list_comprehension"
  | dictionaryComprehension => "dictionary_comprehension"
  | setComprehension => "set_comprehension"
  | generatorExpression => "generator_expression"
  | forInClause => "for_in_clause"
  | ifClause => "if_clause"
  | parenthesizedExpression => "parenthesized_expression"
  | conditionalExpression => "conditional_expression"
  | concatenatedString => "concatenated_string"
  | stringLiteral => "string"
  | stringStart => "string_start"
  | stringContent => "string_content"
  | stringEnd => "string_end"
  | interpolation => "interpolation"
  | escapeSequence => "escape_sequence"
  | escapeInterpolation => "escape_interpolation"
  | formatSpecifier => "format_specifier"
  | formatExpression => "format_expression"
  | typeConversion => "type_conversion"
  | integerLiteral => "integer"
  | floatLiteral => "float"
  | identifier => "identifier"
  | trueLiteral => "true"
  | falseLiteral => "false"
  | noneLiteral => "none"
  | awaitExpr => "await"
  | comment => "comment"
  | lineContinuation => "line_continuation"
  | positionalSeparator => "positional_separator"
  | keywordSeparator => "keyword_separator"
  | ellipsis => "ellipsis"

def opensScope : Form → Bool
  | functionDefinition | classDefinition | lambdaExpr => true
  | _ => false

def isComprehension : Form → Bool
  | listComprehension | setComprehension | dictionaryComprehension | generatorExpression => true
  | _ => false

end Form

end SafeRefactor.Syntax
