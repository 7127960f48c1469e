import Highlight.Grammar.Basic
import Highlight.Language

/-!
# Built-in grammars

The tables for C (C89 through C23) and C++ (through C++23).
-/

namespace Highlight.Grammar

/-- Operators that C++ adds to those of C. -/
def cppOperators : List String :=
  ["::", "->*", ".*", "<=>"]

/-- The encoding prefixes of literals. -/
def encodingPrefixes : List String :=
  ["u8", "u", "U", "L"]

/-- Control flow words of C. -/
def cControl : List String :=
  ["if", "else", "for", "while", "do", "switch", "case", "default", "break", "continue",
    "return", "goto"]

/-- The other reserved words of C. -/
def cKeywords : List String :=
  ["auto", "const", "enum", "extern", "inline", "register", "restrict", "sizeof", "static",
    "struct", "typedef", "union", "volatile", "asm", "_Alignas", "_Alignof", "_Atomic",
    "_Generic", "_Noreturn", "_Static_assert", "_Thread_local", "_Pragma", "alignas", "alignof",
    "constexpr", "static_assert", "thread_local", "typeof", "typeof_unqual"]

/-- Type names of C and its library. -/
def cTypes : List String :=
  ["void", "char", "short", "int", "long", "float", "double", "signed", "unsigned", "_Bool",
    "bool", "_Complex", "_Imaginary", "_BitInt", "_Decimal32", "_Decimal64", "_Decimal128",
    "size_t", "ssize_t", "ptrdiff_t", "intptr_t", "uintptr_t", "intmax_t", "uintmax_t",
    "int8_t", "int16_t", "int32_t", "int64_t", "uint8_t", "uint16_t", "uint32_t", "uint64_t",
    "wchar_t", "char8_t", "char16_t", "char32_t", "nullptr_t", "va_list", "FILE", "DIR",
    "time_t", "clock_t", "pid_t", "off_t"]

/-- Control flow words of C++. -/
def cppControl : List String :=
  cControl ++ ["try", "catch", "throw", "co_await", "co_return", "co_yield"]

/-- The other reserved words of C++. -/
def cppKeywords : List String :=
  ["alignas", "alignof", "and", "and_eq", "asm", "auto", "bitand", "bitor", "class", "compl",
    "concept", "const", "const_cast", "consteval", "constexpr", "constinit", "decltype",
    "delete", "dynamic_cast", "enum", "explicit", "export", "extern", "final", "friend",
    "import", "inline", "module", "mutable", "namespace", "new", "noexcept", "not", "not_eq",
    "operator", "or", "or_eq", "override", "private", "protected", "public", "register",
    "reinterpret_cast", "requires", "sizeof", "static", "static_assert", "static_cast",
    "struct", "template", "this", "thread_local", "typedef", "typeid", "typename", "union",
    "using", "virtual", "volatile", "xor", "xor_eq"]

/-- Type names of C++ and its library. -/
def cppTypes : List String :=
  ["void", "bool", "char", "char8_t", "char16_t", "char32_t", "wchar_t", "short", "int",
    "long", "float", "double", "signed", "unsigned", "size_t", "ptrdiff_t", "nullptr_t",
    "intptr_t", "uintptr_t", "int8_t", "int16_t", "int32_t", "int64_t", "uint8_t", "uint16_t",
    "uint32_t", "uint64_t", "string", "string_view", "vector", "map", "unordered_map", "set",
    "unordered_set", "list", "deque", "queue", "priority_queue", "stack", "array", "pair",
    "tuple", "optional", "variant", "any", "function", "shared_ptr", "unique_ptr", "weak_ptr",
    "span", "ostream", "istream"]

/-- The boolean literals of both languages. -/
def booleans : List String :=
  ["true", "false", "TRUE", "FALSE"]

/-- The null literals of both languages. -/
def nulls : List String :=
  ["NULL", "nullptr"]

/-- The grammar of C. -/
def c : Grammar where
  name := Language.c.id
  extensions := Language.c.extensions
  keywords := .ofList cKeywords
  control := .ofList cControl
  types := .ofList cTypes
  constants := .ofList booleans
  nullLiterals := .ofList nulls
  lineComment := some "//"
  blockComment := some ⟨"/*", "*/"⟩
  operators := commonOperators
  stringPrefixes := encodingPrefixes
  preprocessor := true
  rawStrings := false
  digitSeparators := true

/-- The grammar of C++. -/
def cpp : Grammar where
  name := Language.cpp.id
  extensions := Language.cpp.extensions
  keywords := .ofList cppKeywords
  control := .ofList cppControl
  types := .ofList cppTypes
  constants := .ofList booleans
  nullLiterals := .ofList nulls
  lineComment := some "//"
  blockComment := some ⟨"/*", "*/"⟩
  operators := commonOperators ++ cppOperators
  stringPrefixes := encodingPrefixes
  preprocessor := true
  rawStrings := true
  digitSeparators := true

/-- The built-in grammar of a language.  Plain text has none. -/
def builtin? : Language → Option Grammar
  | .plainText => none
  | .c => some c
  | .cpp => some cpp

end Highlight.Grammar
