import ScriptLens.Completion.Candidate

/-! # What every program can name

The members of well-known objects, the methods of arrays, the names that are always
defined, and the reserved words.
-/
namespace ScriptLens.Builtin

def objectMethods : List String :=
  ["hasOwnProperty", "toString", "valueOf"]

def globalNames : List String :=
  ["Array", "Boolean", "Date", "Error", "JSON", "Map", "Math", "Number", "Object",
   "Promise", "RegExp", "Set", "String", "Symbol", "console", "globalThis", "isNaN",
   "parseFloat", "parseInt", "undefined"]

def arrayNames : List String :=
  ["at", "concat", "every", "filter", "find", "findIndex", "flat", "flatMap", "forEach",
   "includes", "indexOf", "join", "keys", "length", "map", "pop", "push", "reduce",
   "reverse", "shift", "slice", "some", "sort", "splice", "unshift"]

def reservedWords : List String :=
  ["async", "await", "break", "case", "catch", "class", "const", "continue", "debugger",
   "default", "delete", "do", "else", "export", "extends", "false", "finally", "for",
   "function", "if", "import", "in", "instanceof", "let", "new", "null", "of", "return",
   "static", "super", "switch", "this", "throw", "true", "try", "typeof", "var", "void",
   "while", "with", "yield"]

/-- The methods and the constants of a well-known object. -/
def tables : List (String × List String × List String) :=
  [ ("console",
      ["log", "error", "warn", "info", "debug", "trace", "table", "dir", "group", "groupEnd",
       "time", "timeEnd", "assert", "count", "clear"],
      []),
    ("Math",
      ["abs", "ceil", "cos", "exp", "floor", "hypot", "log", "max", "min", "pow", "random",
       "round", "sign", "sin", "sqrt", "tan", "trunc"],
      ["E", "LN2", "LN10", "PI", "SQRT2"]),
    ("JSON",
      ["parse", "stringify"],
      []),
    ("Object",
      ["assign", "create", "defineProperty", "entries", "freeze", "fromEntries",
       "getPrototypeOf", "is", "keys", "values"],
      []),
    ("Array",
      ["from", "isArray", "of"],
      []),
    ("Promise",
      ["all", "allSettled", "any", "race", "reject", "resolve"],
      []),
    ("Number",
      ["isFinite", "isInteger", "isNaN", "isSafeInteger", "parseFloat", "parseInt"],
      ["EPSILON", "MAX_SAFE_INTEGER", "MAX_VALUE", "MIN_SAFE_INTEGER", "MIN_VALUE", "NaN"]),
    ("String",
      ["fromCharCode", "fromCodePoint", "raw"],
      []),
    ("Date",
      ["now", "parse", "UTC"],
      []) ]

/-- The members of a well-known object, methods first. -/
def members? (name : String) : Option (List Candidate) :=
  (tables.lookup name).map fun (methods, constants) =>
    methods.map (⟨·, .method, name⟩) ++ constants.map (⟨·, .property, name⟩)

def arrayMembers : List Candidate :=
  arrayNames.map fun m =>
    ⟨m, if m == "length" then .property else .method, "Array.prototype"⟩

def objectMembers : List Candidate :=
  objectMethods.map (⟨·, .method, "Object.prototype"⟩)

def globals : List Candidate :=
  globalNames.map fun g =>
    ⟨g, if g == "isNaN" || g == "parseFloat" || g == "parseInt" then .function else .variable,
      "global"⟩

def keywords : List Candidate := reservedWords.map (⟨·, .keyword, "keyword"⟩)

end ScriptLens.Builtin
