import SafeRefactor.Syntax.Recovery.Rule

/-!
# The rules of Python

The grammar of Python as a whole, with the forms of older versions that are still accepted. Names
that begin with an underscore, and the names of `groupings`, are not shown in trees. Where the rules
leave a choice open, the readings are followed side by side.
-/

set_option autoImplicit false

namespace SafeRefactor.Syntax.Recovery

open Rule (optional star separated commas)

def oneOf (names : List String) : Rule := .choice (names.map .construct)

def oneToken (names : List String) : Rule := .choice (names.map .token)

def binary (precedence : Int) (side : Side) (operator : String) : Rule :=
  .ranked precedence (.grouped side
    (.seq [.construct "primary_expression", .token operator, .construct "primary_expression"]))

def statementRules : List NamedRule := [
  ⟨"module", star (.construct "_statement")⟩,
  ⟨"_statement", oneOf ["_simple_statements", "_compound_statement"]⟩,
  ⟨"_simple_statements", .seq [separated ";" (.construct "_simple_statement"),
    optional (.token ";"),
    .construct "_newline"]⟩,
  ⟨"_simple_statement", oneOf ["future_import_statement", "import_statement",
    "import_from_statement", "print_statement", "assert_statement", "expression_statement",
    "return_statement", "delete_statement", "raise_statement", "pass_statement", "break_statement",
    "continue_statement", "global_statement", "nonlocal_statement", "exec_statement",
    "type_alias_statement"]⟩,
  ⟨"import_statement", .seq [.token "import", .construct "_import_list"]⟩,
  ⟨"import_prefix", .many (.token ".")⟩,
  ⟨"relative_import", .seq [.construct "import_prefix", optional (.construct "dotted_name")]⟩,
  ⟨"future_import_statement", .seq [.token "from", .token "__future__", .token "import",
    .choice [.construct "_import_list", .seq [.token "(", .construct "_import_list", .token ")"]]]⟩,
  ⟨"import_from_statement", .seq [.token "from", oneOf ["relative_import", "dotted_name"],
    .token "import", .choice [.construct "wildcard_import", .construct "_import_list",
      .seq [.token "(",
    .construct "_import_list", .token ")"]]]⟩,
  ⟨"_import_list", .seq [commas (oneOf ["dotted_name", "aliased_import"]), optional (.token ",")]⟩,
  ⟨"aliased_import", .seq [.construct "dotted_name", .token "as", .construct "identifier"]⟩,
  ⟨"wildcard_import", .token "*"⟩,
  ⟨"print_statement", .choice [.ranked 1 (.seq [.token "print", .construct "chevron",
    star (.seq [.token ",", .construct "expression"]), optional (.token ",")]),
    .ranked (-3) (.weighted (-1) (.seq [.token "print", commas (.construct "expression"),
    optional (.token ",")]))]⟩,
  ⟨"chevron", .seq [.token ">>", .construct "expression"]⟩,
  ⟨"assert_statement", .seq [.token "assert", commas (.construct "expression")]⟩,
  ⟨"expression_statement", .choice [.construct "expression", .seq [commas (.construct "expression"),
    optional (.token ",")], .construct "assignment", .construct "augmented_assignment",
    .construct "yield"]⟩,
  ⟨"named_expression", .seq [.construct "_named_expression_lhs", .token ":=",
    .construct "expression"]⟩,
  ⟨"_named_expression_lhs", oneOf ["identifier", "keyword_identifier"]⟩,
  ⟨"return_statement", .seq [.token "return", optional (.construct "_expressions")]⟩,
  ⟨"delete_statement", .seq [.token "del", .construct "_expressions"]⟩,
  ⟨"_expressions", oneOf ["expression", "expression_list"]⟩,
  ⟨"raise_statement", .seq [.token "raise", optional (.construct "_expressions"),
    optional (.seq [.token "from", .construct "expression"])]⟩,
  ⟨"pass_statement", .ranked 0 (.grouped .left (.token "pass"))⟩,
  ⟨"break_statement", .ranked 0 (.grouped .left (.token "break"))⟩,
  ⟨"continue_statement", .ranked 0 (.grouped .left (.token "continue"))⟩]

def compoundRules : List NamedRule := [
  ⟨"_compound_statement", oneOf ["if_statement", "for_statement", "while_statement",
    "try_statement", "with_statement", "function_definition", "class_definition",
    "decorated_definition", "match_statement"]⟩,
  ⟨"if_statement", .seq [.token "if", .construct "expression", .token ":", .construct "_suite",
    star (.construct "elif_clause"), optional (.construct "else_clause")]⟩,
  ⟨"elif_clause", .seq [.token "elif", .construct "expression", .token ":", .construct "_suite"]⟩,
  ⟨"else_clause", .seq [.token "else", .token ":", .construct "_suite"]⟩,
  ⟨"match_statement", .seq [.token "match", commas (.construct "expression"), optional (.token ","),
    .token ":", .shownAs "block" (.construct "_match_block")]⟩,
  ⟨"_match_block", .choice [.seq [.construct "_indent", star (.construct "case_clause"),
    .construct "_dedent"], .construct "_newline"]⟩,
  ⟨"case_clause", .seq [.token "case", commas (.construct "case_pattern"), optional (.token ","),
    optional (.construct "if_clause"), .token ":", .construct "_suite"]⟩,
  ⟨"for_statement", .seq [optional (.token "async"), .token "for", .construct "_left_hand_side",
    .token "in", .construct "_expressions", .token ":", .construct "_suite",
    optional (.construct "else_clause")]⟩,
  ⟨"while_statement", .seq [.token "while", .construct "expression", .token ":",
    .construct "_suite",
    optional (.construct "else_clause")]⟩,
  ⟨"try_statement", .seq [.token "try", .token ":", .construct "_suite",
    .choice [.seq [.many (.construct "except_clause"), optional (.construct "else_clause"),
    optional (.construct "finally_clause")], .seq [.many (.construct "except_group_clause"),
    optional (.construct "else_clause"), optional (.construct "finally_clause")],
    .construct "finally_clause"]]⟩,
  ⟨"except_clause", .seq [.token "except", optional (.seq [.construct "expression",
    optional (.seq [oneToken ["as", ","], .construct "expression"])]), .token ":",
      .construct "_suite"]⟩,
  ⟨"except_group_clause", .seq [.token "except*", .seq [.construct "expression",
    optional (.seq [.token "as", .construct "expression"])], .token ":", .construct "_suite"]⟩,
  ⟨"finally_clause", .seq [.token "finally", .token ":", .construct "_suite"]⟩,
  ⟨"with_statement", .seq [optional (.token "async"), .token "with", .construct "with_clause",
    .token ":", .construct "_suite"]⟩,
  ⟨"with_clause", .choice [.seq [commas (.construct "with_item"), optional (.token ",")],
    .seq [.token "(", commas (.construct "with_item"), optional (.token ","), .token ")"]]⟩,
  ⟨"with_item", .weighted 1 (.seq [.construct "expression"])⟩,
  ⟨"function_definition", .seq [optional (.token "async"), .token "def", .construct "identifier",
    optional (.construct "type_parameter"), .construct "parameters", optional (.seq [.token "->",
    .construct "type"]), .token ":", .construct "_suite"]⟩,
  ⟨"parameters", .seq [.token "(", optional (.construct "_parameters"), .token ")"]⟩,
  ⟨"lambda_parameters", .construct "_parameters"⟩,
  ⟨"list_splat", .seq [.token "*", .construct "expression"]⟩,
  ⟨"dictionary_splat", .seq [.token "**", .construct "expression"]⟩,
  ⟨"global_statement", .seq [.token "global", commas (.construct "identifier")]⟩,
  ⟨"nonlocal_statement", .seq [.token "nonlocal", commas (.construct "identifier")]⟩,
  ⟨"exec_statement", .seq [.token "exec", oneOf ["string", "identifier"],
    optional (.seq [.token "in", commas (.construct "expression")])]⟩,
  ⟨"type_alias_statement", .weighted 1 (.seq [.token "type", .construct "type", .token "=",
    .construct "type"])⟩,
  ⟨"class_definition", .seq [.token "class", .construct "identifier",
    optional (.construct "type_parameter"), optional (.construct "argument_list"), .token ":",
    .construct "_suite"]⟩,
  ⟨"type_parameter", .seq [.token "[", commas (.construct "type"), optional (.token ","),
    .token "]"]⟩,
  ⟨"parenthesized_list_splat", .ranked 1 (.seq [.token "(",
    .choice [.shownAs "parenthesized_expression" (.construct "parenthesized_list_splat"),
    .construct "list_splat"], .token ")"])⟩,
  ⟨"argument_list", .seq [.token "(", optional (commas (.choice [.construct "expression",
    .construct "list_splat", .construct "dictionary_splat",
    .shownAs "parenthesized_expression" (.construct "parenthesized_list_splat"),
    .construct "keyword_argument"])), optional (.token ","), .token ")"]⟩,
  ⟨"decorated_definition", .seq [.many (.construct "decorator"), oneOf ["class_definition",
    "function_definition"]]⟩,
  ⟨"decorator", .seq [.token "@", .construct "expression", .construct "_newline"]⟩,
  ⟨"_suite", .choice [.shownAs "block" (.construct "_simple_statements"),
    .seq [.construct "_indent",
    .construct "block"], .shownAs "block" (.construct "_newline")]⟩,
  ⟨"block", .seq [star (.construct "_statement"), .construct "_dedent"]⟩,
  ⟨"expression_list",
    .ranked 0 (.grouped .right (.seq [.construct "expression", .choice [.token ",",
    .seq [.many (.seq [.token ",", .construct "expression"]), optional (.token ",")]]]))⟩,
  ⟨"dotted_name", .ranked 1 (separated "." (.construct "identifier"))⟩]

def casePatternRules : List NamedRule := [
  ⟨"case_pattern", .ranked 1 (.choice [.shownAs "as_pattern" (.construct "_as_pattern"),
    .construct "keyword_pattern", .construct "_simple_pattern"])⟩,
  ⟨"_simple_pattern", .ranked 1 (.choice [.construct "class_pattern", .construct "splat_pattern",
    .construct "union_pattern", .shownAs "list_pattern" (.construct "_list_pattern"),
    .shownAs "tuple_pattern" (.construct "_tuple_pattern"), .construct "dict_pattern",
    .construct "string", .construct "concatenated_string", .construct "true", .construct "false",
    .construct "none", .seq [optional (.token "-"), oneOf ["integer", "float"]],
    .construct "complex_pattern", .construct "dotted_name", .token "_"])⟩,
  ⟨"_as_pattern", .seq [.construct "case_pattern", .token "as", .construct "identifier"]⟩,
  ⟨"union_pattern", .ranked 0 (.grouped .right (.seq [.construct "_simple_pattern",
    .many (.ranked 0 (.grouped .left (.seq [.token "|", .construct "_simple_pattern"])))]))⟩,
  ⟨"_list_pattern", .seq [.token "[", optional (.seq [commas (.construct "case_pattern"),
    optional (.token ",")]), .token "]"]⟩,
  ⟨"_tuple_pattern", .seq [.token "(", optional (.seq [commas (.construct "case_pattern"),
    optional (.token ",")]), .token ")"]⟩,
  ⟨"dict_pattern", .seq [.token "\x7b", optional (.seq [commas (oneOf ["_key_value_pattern",
    "splat_pattern"]), optional (.token ",")]), .token "\x7d"]⟩,
  ⟨"_key_value_pattern",
    .seq [.construct "_simple_pattern", .token ":", .construct "case_pattern"]⟩,
  ⟨"keyword_pattern", .seq [.construct "identifier", .token "=", .construct "_simple_pattern"]⟩,
  ⟨"splat_pattern", .ranked 1 (.seq [oneToken ["*", "**"], .choice [.construct "identifier",
    .token "_"]])⟩,
  ⟨"class_pattern", .seq [.construct "dotted_name", .token "(",
    optional (.seq [commas (.construct "case_pattern"), optional (.token ",")]), .token ")"]⟩,
  ⟨"complex_pattern", .ranked 1 (.seq [optional (.token "-"), oneOf ["integer", "float"],
    oneToken ["+", "-"], oneOf ["integer", "float"]])⟩]

def targetRules : List NamedRule := [
  ⟨"_parameters", .seq [commas (.construct "parameter"), optional (.token ",")]⟩,
  ⟨"_patterns", .seq [commas (.construct "pattern"), optional (.token ",")]⟩,
  ⟨"parameter", oneOf ["identifier", "typed_parameter", "default_parameter",
    "typed_default_parameter", "list_splat_pattern", "tuple_pattern", "keyword_separator",
    "positional_separator", "dictionary_splat_pattern"]⟩,
  ⟨"pattern", oneOf ["identifier", "keyword_identifier", "subscript", "attribute",
    "list_splat_pattern", "tuple_pattern", "list_pattern"]⟩,
  ⟨"tuple_pattern", .seq [.token "(", optional (.construct "_patterns"), .token ")"]⟩,
  ⟨"list_pattern", .seq [.token "[", optional (.construct "_patterns"), .token "]"]⟩,
  ⟨"default_parameter", .seq [oneOf ["identifier", "tuple_pattern"], .token "=",
    .construct "expression"]⟩,
  ⟨"typed_default_parameter", .ranked (-1) (.seq [.construct "identifier", .token ":",
    .construct "type", .token "=", .construct "expression"])⟩,
  ⟨"list_splat_pattern", .seq [.token "*", oneOf ["identifier", "keyword_identifier", "subscript",
    "attribute"]]⟩,
  ⟨"dictionary_splat_pattern", .seq [.token "**", oneOf ["identifier", "keyword_identifier",
    "subscript", "attribute"]]⟩]

def expressionRules : List NamedRule := [
  ⟨"as_pattern", .ranked 0 (.grouped .left (.seq [.construct "expression", .token "as",
    .shownAs "as_pattern_target" (.construct "expression")]))⟩,
  ⟨"_expression_within_for_in_clause", .choice [.construct "expression",
    .shownAs "lambda" (.construct "lambda_within_for_in_clause")]⟩,
  ⟨"expression", oneOf ["comparison_operator", "not_operator", "boolean_operator", "lambda",
    "primary_expression", "conditional_expression", "named_expression", "as_pattern"]⟩,
  ⟨"primary_expression", .choice [.construct "await", .construct "binary_operator",
    .construct "identifier", .construct "keyword_identifier", .construct "string",
    .construct "concatenated_string", .construct "integer", .construct "float", .construct "true",
    .construct "false", .construct "none", .construct "unary_operator", .construct "attribute",
    .construct "subscript", .construct "call", .construct "list", .construct "list_comprehension",
    .construct "dictionary", .construct "dictionary_comprehension", .construct "set",
    .construct "set_comprehension", .construct "tuple", .construct "parenthesized_expression",
    .construct "generator_expression", .construct "ellipsis",
    .shownAs "list_splat" (.construct "list_splat_pattern")]⟩,
  ⟨"not_operator", .ranked 12 (.seq [.token "not", .construct "expression"])⟩,
  ⟨"boolean_operator",
    .choice [.ranked 11 (.grouped .left (.seq [.construct "expression", .token "and",
    .construct "expression"])),
      .ranked 10 (.grouped .left (.seq [.construct "expression", .token "or",
    .construct "expression"]))]⟩,
  ⟨"binary_operator", .choice [binary 18 .left "+", binary 18 .left "-", binary 19 .left "*",
    binary 19 .left "@", binary 19 .left "/", binary 19 .left "%", binary 19 .left "//",
    binary 21 .right "**", binary 14 .left "|", binary 15 .left "&", binary 16 .left "^",
    binary 17 .left "<<", binary 17 .left ">>"]⟩,
  ⟨"unary_operator", .ranked 20 (.seq [oneToken ["+", "-", "~"], .construct "primary_expression"])⟩,
  ⟨"_not_in", .seq [.token "not", .token "in"]⟩,
  ⟨"_is_not", .seq [.token "is", .token "not"]⟩,
  ⟨"comparison_operator", .ranked 13 (.grouped .left (.seq [.construct "primary_expression",
    .many
      (.seq [.choice [.token "<", .token "<=", .token "==", .token "!=", .token ">=", .token ">",
    .token "<>", .token "in", .shownAs "not in" (.construct "_not_in"), .token "is",
    .shownAs "is not" (.construct "_is_not")], .construct "primary_expression"])]))⟩,
  ⟨"lambda",
    .ranked (-2) (.seq [.token "lambda", optional (.construct "lambda_parameters"), .token ":",
    .construct "expression"])⟩,
  ⟨"lambda_within_for_in_clause", .seq [.token "lambda", optional (.construct "lambda_parameters"),
    .token ":", .construct "_expression_within_for_in_clause"]⟩,
  ⟨"assignment", .seq [.construct "_left_hand_side", .choice [.seq [.token "=",
    .construct "_right_hand_side"], .seq [.token ":", .construct "type"], .seq [.token ":",
    .construct "type", .token "=", .construct "_right_hand_side"]]]⟩,
  ⟨"augmented_assignment",
    .seq [.construct "_left_hand_side", oneToken ["+=", "-=", "*=", "/=", "@=",
    "//=", "%=", "**=", ">>=", "<<=", "&=", "^=", "|="], .construct "_right_hand_side"]⟩,
  ⟨"_left_hand_side", oneOf ["pattern", "pattern_list"]⟩,
  ⟨"pattern_list", .seq [.construct "pattern", .choice [.token ",", .seq [.many (.seq [.token ",",
    .construct "pattern"]), optional (.token ",")]]]⟩,
  ⟨"_right_hand_side", oneOf ["expression", "expression_list", "assignment",
    "augmented_assignment", "pattern_list", "yield"]⟩,
  ⟨"yield", .ranked 0 (.grouped .right (.seq [.token "yield", .choice [.seq [.token "from",
    .construct "expression"], optional (.construct "_expressions")]]))⟩,
  ⟨"attribute", .ranked 22 (.seq [.construct "primary_expression", .token ".",
    .construct "identifier"])⟩,
  ⟨"subscript", .ranked 22 (.seq [.construct "primary_expression", .token "[",
    commas (oneOf ["expression", "slice"]), optional (.token ","), .token "]"])⟩,
  ⟨"slice", .seq [optional (.construct "expression"), .token ":",
    optional (.construct "expression"),
    optional (.seq [.token ":", optional (.construct "expression")])]⟩,
  ⟨"ellipsis", .token "ellipsis"⟩,
  ⟨"call", .ranked 22 (.seq [.construct "primary_expression", oneOf ["generator_expression",
    "argument_list"]])⟩,
  ⟨"typed_parameter", .ranked (-1) (.seq [oneOf ["identifier", "list_splat_pattern",
    "dictionary_splat_pattern"], .token ":", .construct "type"])⟩,
  ⟨"type", .choice [.ranked 1 (.construct "expression"), .construct "splat_type",
    .construct "generic_type", .construct "union_type", .construct "constrained_type",
    .construct "member_type"]⟩,
  ⟨"splat_type", .ranked 1 (.seq [oneToken ["*", "**"], .construct "identifier"])⟩,
  ⟨"generic_type", .ranked 1 (.seq [.choice [.construct "identifier",
    .shownAs "identifier" (.token "type")], .construct "type_parameter"])⟩,
  ⟨"union_type",
    .ranked 0 (.grouped .left (.seq [.construct "type", .token "|", .construct "type"]))⟩,
  ⟨"constrained_type", .ranked 0 (.grouped .right (.seq [.construct "type", .token ":",
    .construct "type"]))⟩,
  ⟨"member_type", .seq [.construct "type", .token ".", .construct "identifier"]⟩,
  ⟨"keyword_argument", .seq [oneOf ["identifier", "keyword_identifier"], .token "=",
    .construct "expression"]⟩,
  ⟨"list", .seq [.token "[", optional (.construct "_collection_elements"), .token "]"]⟩,
  ⟨"set", .seq [.token "\x7b", .construct "_collection_elements", .token "\x7d"]⟩,
  ⟨"tuple", .seq [.token "(", optional (.construct "_collection_elements"), .token ")"]⟩,
  ⟨"dictionary", .seq [.token "\x7b", optional (commas (oneOf ["pair", "dictionary_splat"])),
    optional (.token ","), .token "\x7d"]⟩,
  ⟨"pair", .seq [.construct "expression", .token ":", .construct "expression"]⟩,
  ⟨"list_comprehension",
    .seq [.token "[", .construct "expression", .construct "_comprehension_clauses",
    .token "]"]⟩,
  ⟨"dictionary_comprehension", .seq [.token "\x7b", .construct "pair",
    .construct "_comprehension_clauses", .token "\x7d"]⟩,
  ⟨"set_comprehension", .seq [.token "\x7b", .construct "expression",
    .construct "_comprehension_clauses", .token "\x7d"]⟩,
  ⟨"generator_expression", .seq [.token "(", .construct "expression",
    .construct "_comprehension_clauses", .token ")"]⟩,
  ⟨"_comprehension_clauses", .seq [.construct "for_in_clause", star (oneOf ["for_in_clause",
    "if_clause"])]⟩,
  ⟨"parenthesized_expression", .ranked 1 (.seq [.token "(", oneOf ["expression", "yield"],
    .token ")"])⟩,
  ⟨"_collection_elements", .seq [commas (oneOf ["expression", "yield", "list_splat",
    "parenthesized_list_splat"]), optional (.token ",")]⟩,
  ⟨"for_in_clause", .ranked 0 (.grouped .left (.seq [optional (.token "async"), .token "for",
    .construct "_left_hand_side", .token "in",
      commas (.construct "_expression_within_for_in_clause"),
    optional (.token ",")]))⟩,
  ⟨"if_clause", .seq [.token "if", .construct "expression"]⟩,
  ⟨"conditional_expression",
    .ranked (-1) (.grouped .right (.seq [.construct "expression", .token "if",
    .construct "expression", .token "else", .construct "expression"]))⟩]

def literalRules : List NamedRule := [
  ⟨"concatenated_string", .seq [.construct "string", .many (.construct "string")]⟩,
  ⟨"string", .seq [.construct "string_start", star (oneOf ["interpolation", "string_content"]),
    .construct "string_end"]⟩,
  ⟨"string_content", .ranked 0 (.grouped .right (.many (oneOf ["escape_interpolation",
    "escape_sequence", "_not_escape_sequence", "_string_content"])))⟩,
  ⟨"interpolation", .seq [.token "\x7b", .construct "_f_expression", optional (.token "="),
    optional (.construct "type_conversion"), optional (.construct "format_specifier"),
      .token "\x7d"]⟩,
  ⟨"_f_expression", oneOf ["expression", "expression_list", "pattern_list", "yield"]⟩,
  ⟨"escape_sequence", .token "escape_sequence"⟩,
  ⟨"_not_escape_sequence", .token "_not_escape_sequence"⟩,
  ⟨"format_specifier", .seq [.token ":", star (.choice [.token "fmt_content",
    .shownAs "format_expression" (.construct "interpolation")])]⟩,
  ⟨"type_conversion", .token "type_conversion"⟩,
  ⟨"integer", .token "integer"⟩,
  ⟨"float", .token "float"⟩,
  ⟨"identifier", .token "identifier"⟩,
  ⟨"keyword_identifier",
    .choice [.ranked (-3) (.shownAs "identifier" (oneToken ["print", "exec", "async",
    "await"])), .shownAs "identifier" (oneToken ["type", "match"])]⟩,
  ⟨"true", .token "true"⟩,
  ⟨"false", .token "false"⟩,
  ⟨"none", .token "none"⟩,
  ⟨"await", .ranked 20 (.seq [.token "await", .construct "primary_expression"])⟩,
  ⟨"comment", .token "comment"⟩,
  ⟨"line_continuation", .token "line_continuation"⟩,
  ⟨"positional_separator", .token "/"⟩,
  ⟨"keyword_separator", .token "*"⟩]

def rules : List NamedRule :=
  statementRules ++ compoundRules ++ casePatternRules ++ targetRules ++ expressionRules ++
    literalRules

def layoutTokens : List String :=
  ["_newline", "_indent", "_dedent", "string_start", "_string_content", "escape_interpolation",
    "string_end"]

def extraTokens : List String := ["comment", "line_continuation"]

def hiddenTokens : List String :=
  ["end", "_newline", "_indent", "_dedent", "_string_content", "_not_escape_sequence",
    "fmt_content"]

def groupings : List String :=
  ["_simple_statement", "_compound_statement", "expression", "primary_expression", "pattern",
    "parameter"]

def inlined : List String :=
  ["_simple_statement", "_compound_statement", "_suite", "_expressions", "_left_hand_side",
    "keyword_identifier"]

end SafeRefactor.Syntax.Recovery
