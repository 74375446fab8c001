/-
The words of C# that have a meaning of their own in source text: types of the language and of its base library, words
that cannot be types, and modifiers.
-/
import ClassAtlas.Text.Basic

namespace ClassAtlas.Vocabulary

/-- types of the language, under both of their names -/
def languageTypes : List Text := List.map String.toList
  ["bool", "byte", "sbyte", "char", "decimal", "double", "float", "int", "uint", "nint", "nuint", "long", "ulong",
   "short", "ushort", "object", "string", "void", "dynamic", "var", "Boolean", "Byte", "SByte", "Char", "Decimal",
   "Double", "Single", "Int16", "Int32", "Int64", "UInt16", "UInt32", "UInt64", "IntPtr", "UIntPtr", "Object",
   "String", "Void"]

/-- well-known types of the base library -/
def libraryTypes : List Text := List.map String.toList
  ["List", "IList", "IEnumerable", "IEnumerator", "ICollection", "IReadOnlyList", "IReadOnlyCollection",
   "IReadOnlyDictionary", "Dictionary", "IDictionary", "HashSet", "ISet", "SortedDictionary", "SortedList",
   "SortedSet", "LinkedList", "Queue", "Stack", "ConcurrentDictionary", "ConcurrentQueue", "ConcurrentBag",
   "IQueryable", "Array", "Span", "ReadOnlySpan", "Memory", "ReadOnlyMemory", "Task", "ValueTask", "Func", "Action",
   "Predicate", "Nullable", "Tuple", "ValueTuple", "KeyValuePair", "Lazy", "StringBuilder", "Exception",
   "ArgumentException", "ArgumentNullException", "ArgumentOutOfRangeException", "InvalidOperationException",
   "NotImplementedException", "NotSupportedException", "Random", "Guid", "DateTime", "DateTimeOffset", "TimeSpan",
   "CancellationToken", "CancellationTokenSource", "Stopwatch", "Regex", "Uri", "SemaphoreSlim", "EventHandler",
   "EventArgs", "IDisposable", "IAsyncDisposable"]

/-- the base that every class has anyway -/
def rootBases : List Text := ["object", "Object", "System.Object"]

/-- words that may stand where a type is expected but name none -/
def nonTypeWords : List Text := List.map String.toList
  ["class", "struct", "interface", "enum", "record", "delegate", "namespace", "return", "throw", "await", "yield",
   "using", "goto", "case", "else", "new", "lock", "in", "is", "as", "out", "ref", "params", "typeof", "sizeof",
   "nameof", "default", "checked", "unchecked", "get", "set", "init", "add", "remove", "when", "where", "select",
   "from", "let", "orderby", "group", "into", "join", "operator", "implicit", "explicit", "this", "base", "null",
   "true", "false", "break", "continue", "do", "for", "foreach", "while", "if", "switch", "try", "catch", "finally",
   "static", "const", "readonly", "event"]

/-- modifiers that may stand before the type of a parameter -/
def parameterWords : List Text := ["this", "ref", "out", "in", "params", "scoped", "readonly"]

def isLanguageType (name : Text) : Bool := languageTypes.contains name

def isLibraryType (name : Text) : Bool := libraryTypes.contains name

def isRootBase (name : Text) : Bool := rootBases.contains name

def isNonTypeWord (word : Text) : Bool := nonTypeWords.contains word

def isParameterWord (word : Text) : Bool := parameterWords.contains word

/-- the namespace `System` or one below it -/
def isSystemScope (scope : Text) : Bool := scope == "System" || List.isPrefixOf "System.".toList scope

/-- the name without its scope, if that is a system scope -/
def withoutSystemScope (name : Text) : Text :=
  match Text.splitLast? '.' name with
  | some (scope, last) => if isSystemScope scope then last else name
  | none => name

/-- a type of the language or its library, written bare or under a system scope; no class depends on these -/
def isStandardType (name : Text) : Bool :=
  let bare := withoutSystemScope name
  isLanguageType bare || isLibraryType bare

end ClassAtlas.Vocabulary
