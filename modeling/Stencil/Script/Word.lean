import Stencil.Script.Token

/-! # Words of the grammar

Which words mean something to the grammar, and what kinds of tokens it tells apart. A word keeps its
meaning when it is spelled with escapes, although it must not be spelled so where it has one.
-/
namespace Stencil.Script

/-- Words that are never names. -/
def reservedWords : List String := [
  "break", "case", "catch", "class", "const", "continue", "debugger", "default", "delete", "do",
  "else", "enum", "export", "extends", "false", "finally", "for", "function", "if", "import", "in",
  "instanceof", "new", "null", "return", "super", "switch", "this", "throw", "true", "try",
  "typeof", "var", "void", "while", "with"]

/-- Words that cannot be exported under their own name although they may be names. -/
def guardedWords : List String := [
  "await", "yield", "let", "static", "implements", "interface", "package", "private", "protected",
  "public"]

/-- Words that mean something in some places and are names in others. -/
def contextualWords : List String := guardedWords ++ [
  "abstract", "accessor", "any", "as", "assert", "asserts", "async", "bigint", "boolean",
  "constructor", "declare", "defer", "from", "get", "global", "infer", "intrinsic", "is", "keyof",
  "meta", "module", "namespace", "never", "number", "object", "of", "out", "override", "readonly",
  "require", "satisfies", "set", "source", "string", "symbol", "target", "type", "undefined",
  "unique", "unknown", "using"]

/-- Whether a word means something to the grammar. -/
def isKeyword (word : String) : Bool :=
  reservedWords.contains word || contextualWords.contains word

/-- Whether a token is the mark `text`. -/
def Lexeme.isMark (l : Lexeme) (text : String) : Bool :=
  match l.token with
  | .mark t => t == text
  | _ => false

/-- Whether a token is one of some marks. -/
def Lexeme.isMarkOf (l : Lexeme) (texts : List String) : Bool :=
  match l.token with
  | .mark t => texts.contains t
  | _ => false

/-- Whether a token is the word `text`. -/
def Lexeme.isWord (l : Lexeme) (text : String) : Bool :=
  match l.token with
  | .word w _ => w == text
  | _ => false

/-- Whether a token is a word, reserved or not. -/
def Lexeme.isAnyWord (l : Lexeme) : Bool :=
  match l.token with
  | .word _ _ => true
  | _ => false

/-- Whether a token is spelled with escapes. -/
def Lexeme.isEscaped (l : Lexeme) : Bool :=
  match l.token with
  | .word _ escaped => escaped
  | _ => false

/-- The text of a word. -/
def Lexeme.text (l : Lexeme) : String :=
  match l.token with
  | .word w _ => w
  | _ => ""

/-- Whether a token may be a name. -/
def Lexeme.isName (l : Lexeme) : Bool :=
  match l.token with
  | .word w _ => !reservedWords.contains w
  | _ => false

/-- Whether a token may be the key of a member. -/
def Lexeme.isKey (l : Lexeme) : Bool :=
  match l.token with
  | .word _ _ => true
  | .string _ => true
  | .number _ => true
  | .bigInt => true
  | .privateName _ => true
  | .mark "[" => true
  | _ => false

/-- Whether a token is a literal of one token. -/
def Lexeme.isLiteral (l : Lexeme) : Bool :=
  match l.token with
  | .number _ => true
  | .bigInt => true
  | .string _ => true
  | .word w _ => w == "true" || w == "false" || w == "null"
  | _ => false

end Stencil.Script
