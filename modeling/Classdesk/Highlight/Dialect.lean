import Classdesk.Bytecode.Opcode
import Classdesk.Highlight.Span

/-!
# Dialects

The two built-in pattern sets: source code, and patch scripts. A patch script
names instructions by their mnemonics, marked as looked for (`.`), added (`+`) or
removed (`-`); mnemonics match in any case, and a `-` may stand for their `_`.
-/

namespace Classdesk.Highlight

/-- A built-in pattern set. -/
inductive Dialect
  | java | patch
  deriving DecidableEq, Repr

/-- The keywords of source code. -/
def javaKeywords : List String :=
  ["abstract ", "assert ", "boolean ", "break ", "byte ", "case ", "catch ", "char ",
   "class ", "const ", "continue ", "default ", "do ", "double ", "else ", "enum ",
   "extends ", "final ", "finally ", "float ", "for ", "goto ", "if ", "implements ",
   "import ", "instanceof ", "int ", "interface ", "long ", "native ", "new ", "package ",
   "private ", "protected ", "public ", "return ", "short ", "static ", "strictfp ",
   "super ", "switch ", "synchronized ", "this ", "throw ", "throws ", "transient ", "try ",
   "void ", "volatile ", "while"]

/-- The keywords of patch scripts. -/
def patchKeywords : List String :=
  ["abstract ", "class ", "void ", "double ", "float ", "int ", "interface ", "long ",
   "native ", "private ", "protected ", "public ", "short ", "static ", "synchronized ",
   "throws ", "boolean "]

/-- Punctuation and literals, the same in both dialects. -/
def commonPairs : List (String × String) :=
  [(";", "semicolon"), ("[()]", "paren"), ("[\x7b\x7d]", "brace"), ("[\\[\\]]", "bracket"),
    ("\"(?:[^\"\\\\]|\\\\.)*\"", "string"), ("'(?:\\\\[\"']|.)'", "string")]

/-- The notation for a text that is to match literally. -/
def literalSource (text : String) : String :=
  let special := "\\.+*?()|[]\x7b\x7d^$#&-~".toList
  String.ofList (text.toList.flatMap fun c => if special.contains c then ['\\', c] else [c])

/-- A pattern for each mnemonic behind something given in pattern notation. -/
def mnemonicSources (front : String) : List String :=
  Opcode.allMnemonics.map fun mnemonic =>
    let name := (literalSource mnemonic.toLower).toList
    "(?i)" ++ front ++ String.ofList (Text.replaceChar '_' "[-_]".toList name)

/-- Give one label to several sources. -/
def labelled (label : String) (sources : List String) : List (String × String) :=
  sources.map fun source => (source, label)

/-- Comments and other marks of patch scripts. -/
def scriptPairs : List (String × String) :=
  [("//[^\\n]*", "comment"), ("#[^\\n]*", "comment"),
    ("/\\*(?:[^*]|\\*+[^*/])*\\*+/", "comment"),
    ("#(?:include|exclude) [^\\n]+", "action"), ("//(?:include|exclude) [^\\n]+", "action"),
    ("~", "match")]

/-- A name that no dialect has. -/
structure UnknownDialect where
  name : String
  deriving DecidableEq, Repr

/-- The wording for an unknown name. -/
def UnknownDialect.message (f : UnknownDialect) : String :=
  s!"Unknown dialect {Text.escaped f.name} (expected `java` or `patch`)"

namespace Dialect

/-- The dialect with this name. -/
def ofName (name : String) : Except UnknownDialect Dialect :=
  match name with
  | "java" => .ok java
  | "patch" => .ok patch
  | other => .error ⟨other⟩

/-- The sources and labels of a dialect. -/
def pairs : Dialect → List (String × String)
  | java => labelled "keyword" (javaKeywords.map literalSource) ++ commonPairs
  | patch =>
    labelled "keyword" (patchKeywords.map literalSource) ++
      labelled "find" (mnemonicSources "\\.") ++
      ("add", "add") :: labelled "add" (mnemonicSources "\\+") ++
      ("remove", "remove") :: labelled "remove" (mnemonicSources "-") ++
      commonPairs ++ scriptPairs

/-- The compiled sources; each of them is an expression. -/
def compiled (d : Dialect) : PatternSet :=
  match PatternSet.compile d.pairs with
  | .ok patterns => patterns
  | .error _ => []

/-- The patterns of source code. -/
def javaPatterns : PatternSet := compiled java

/-- The patterns of patch scripts. -/
def patchPatterns : PatternSet := compiled patch

/-- The patterns of a dialect. -/
def patterns : Dialect → PatternSet
  | java => javaPatterns
  | patch => patchPatterns

end Dialect

end Classdesk.Highlight
