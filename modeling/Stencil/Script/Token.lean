import Stencil.Text.Identifier
import Stencil.Number.Read

/-! # Tokens of scripts

Reads one token from the characters of a source. Comments and white space before it only count as
the fact that a line break was passed. Regular expressions and the later parts of template literals
are read on request, since only the grammar knows where they may stand.
-/
namespace Stencil.Script

/-- A source that cannot be read: what is wrong, and the place where it shows. -/
structure Fault where
  message : String
  offset : Nat
  deriving DecidableEq, Repr, Inhabited

/-- A token. -/
inductive Token
  /-- A name or a keyword; a word spelled with escapes is never a keyword. -/
  | word (name : String) (escaped : Bool)
  | privateName (name : String)
  | number (value : Float)
  | bigInt
  | string (value : String)
  /-- A part of a template literal up to an expression, or up to the end if `last`. Escapes that
  mean nothing leave it without a value. -/
  | template (value : Option String) (last : Bool)
  | regex
  | mark (text : String)
  | stop
  /-- Characters that make no token. -/
  | broken (fault : Fault)
  deriving Inhabited

/-- A comment: the place where it begins, and what is written in it. -/
structure Comment where
  start : Nat
  text : List Char
  deriving Inhabited

/-- A token with the place of its first character and the place behind it. -/
structure Lexeme where
  token : Token
  start : Nat
  stop : Nat
  /-- Whether a line break stands between this token and the one before it. -/
  onNewLine : Bool
  /-- The first comment between this token and the one before it. -/
  comment : Option Comment
  deriving Inhabited

/-- A position in a source while it is read: the characters ahead and the number of those behind. -/
structure Cursor where
  offset : Nat
  ahead : List Char
  /-- At least the number of characters ahead. -/
  bound : Nat
  deriving Inhabited

namespace Cursor

/-- Passes one character. -/
def next (c : Cursor) : Cursor := { c with offset := c.offset + 1, ahead := c.ahead.tail }

/-- Passes `n` characters. -/
def skip (c : Cursor) (n : Nat) : Cursor :=
  { c with offset := c.offset + n, ahead := c.ahead.drop n }

/-- Takes back the characters `cs`, which were passed last. -/
def back (c : Cursor) (cs : List Char) : Cursor :=
  ⟨c.offset - cs.length, cs ++ c.ahead, c.bound + cs.length⟩

end Cursor

/-! ## Between tokens -/

/-- A character that ends a line. -/
def isLineBreak (c : Char) : Bool :=
  c == '\n' || c == '\r' || c == '\u2028' || c == '\u2029'

/-- White space between tokens. -/
def isSpace (c : Char) : Bool :=
  c == ' ' || c == '\t' || c == '\x0b' || c == '\x0c' || c == '\u0085' || c == '\u00a0' ||
    c == '\u1680' || ('\u2000' ≤ c && c ≤ '\u200b') || c == '\u202f' || c == '\u205f' ||
    c == '\u3000' || c == '\ufeff'

/-- Where the space between tokens is being read; what a comment says stands last first. -/
inductive Gap
  | plain
  | lineComment (start : Nat) (text : List Char)
  | blockComment (start : Nat) (text : List Char)

/-- What follows the space between tokens. -/
inductive GapEnd
  /-- A token, behind a line break or not, and the first comment before it. -/
  | token (offset : Nat) (ahead : List Char) (onNewLine : Bool) (comment : Option Comment)
  /-- The place of a comment that does not end. -/
  | openComment (start : Nat)

/-- The first of two comments, if `seen` is the earlier one. -/
def Comment.orElse (seen : Option Comment) (start : Nat) (reversed : List Char) : Option Comment :=
  some (seen.getD ⟨start, reversed.reverse⟩)

/-- Passes white space, line breaks and comments. -/
def skipGap : Gap → Nat → Bool → Option Comment → List Char → GapEnd
  | .plain, n, broke, seen, [] => .token n [] broke seen
  | .plain, n, broke, seen, '/' :: '/' :: cs => skipGap (.lineComment n []) (n + 2) broke seen cs
  | .plain, n, broke, seen, '/' :: '*' :: cs => skipGap (.blockComment n []) (n + 2) broke seen cs
  | .plain, n, broke, seen, c :: cs =>
    if isLineBreak c then skipGap .plain (n + 1) true seen cs
    else if isSpace c then skipGap .plain (n + 1) broke seen cs
    else .token n (c :: cs) broke seen
  | .lineComment start text, n, broke, seen, [] =>
    .token n [] broke (Comment.orElse seen start text)
  | .lineComment start text, n, broke, seen, c :: cs =>
    if isLineBreak c then skipGap .plain (n + 1) true (Comment.orElse seen start text) cs
    else skipGap (.lineComment start (c :: text)) (n + 1) broke seen cs
  | .blockComment start _, _, _, _, [] => .openComment start
  | .blockComment start text, n, broke, seen, '*' :: '/' :: cs =>
    skipGap .plain (n + 2) broke (Comment.orElse seen start text) cs
  | .blockComment start text, n, broke, seen, c :: cs =>
    skipGap (.blockComment start (c :: text)) (n + 1) (broke || isLineBreak c) seen cs

/-! ## Escapes -/

/-- The value of a hexadecimal digit. -/
def hexDigit? (c : Char) : Option Nat :=
  let n := c.toNat
  if 0x30 ≤ n && n ≤ 0x39 then some (n - 0x30)
  else if 0x61 ≤ n && n ≤ 0x66 then some (n - 0x57)
  else if 0x41 ≤ n && n ≤ 0x46 then some (n - 0x37)
  else none

/-- A code point written with exactly `count` hexadecimal digits. -/
def readHex (count : Nat) (cs : List Char) : Option Nat :=
  let digits := cs.take count
  if digits.length == count && digits.all (fun c => (hexDigit? c).isSome) then
    some (digitsValue 16 digits)
  else none

/-- A code point behind `\u`: four digits, or any number of digits in braces. The result tells how
many characters it takes. -/
def readCodePoint : List Char → Option (Nat × Nat)
  | '\x7b' :: cs =>
    let (digits, rest) := cs.span fun c => (hexDigit? c).isSome
    let n := digitsValue 16 digits
    match rest with
    | '\x7d' :: _ =>
      if digits.isEmpty || 0x10ffff < n then none else some (n, digits.length + 2)
    | _ => none
  | cs => (readHex 4 cs).map (·, 4)

/-- The character behind `\u`, and how many characters it takes. Two escaped units of a pair are one
character. -/
def readUnicode (cs : List Char) : Option (Char × Nat) :=
  match readCodePoint cs with
  | none => none
  | some (n, used) =>
    if 0xd800 ≤ n && n < 0xdc00 then
      match cs.drop used with
      | '\\' :: 'u' :: low =>
        match readCodePoint low with
        | some (m, more) =>
          if 0xdc00 ≤ m && m < 0xe000 then
            some (Char.ofNat (0x10000 + (n - 0xd800) * 0x400 + (m - 0xdc00)), used + 2 + more)
          else some ('\ufffd', used)
        | none => some ('\ufffd', used)
      | _ => some ('\ufffd', used)
    else if 0xdc00 ≤ n && n < 0xe000 then some ('\ufffd', used)
    else some (Char.ofNat n, used)

/-- A digit of base eight. -/
def isOctal (c : Char) : Bool := '0' ≤ c && c ≤ '7'

/-- An escape of base eight in a string: up to three digits, as long as the value stays below
`256`. The result tells how many digits it takes. -/
def readOctal (first : Char) (cs : List Char) : Char × Nat :=
  let more := if first ≤ '3' then 2 else 1
  let digits := first :: (cs.take more).takeWhile isOctal
  (Char.ofNat (digitsValue 8 digits), digits.length)

/-- What the characters behind a backslash stand for, and how many of them do. A line break stands
for nothing. In a template, digits mean nothing unless they are a single zero. -/
def readEscape (inTemplate : Bool) : List Char → Option (List Char × Nat)
  | [] => none
  | 'n' :: _ => some (['\n'], 1)
  | 'r' :: _ => some (['\r'], 1)
  | 't' :: _ => some (['\t'], 1)
  | 'b' :: _ => some (['\x08'], 1)
  | 'v' :: _ => some (['\x0b'], 1)
  | 'f' :: _ => some (['\x0c'], 1)
  | 'x' :: cs => (readHex 2 cs).map fun n => ([Char.ofNat n], 3)
  | 'u' :: cs => (readUnicode cs).map fun (c, used) => ([c], used + 1)
  | '\r' :: '\n' :: _ => some ([], 2)
  | c :: cs =>
    if isLineBreak c then some ([], 1)
    else if inTemplate then
      if c == '0' && !(cs.head?.any Char.isDigit) then some (['\x00'], 1)
      else if c.isDigit then none
      else some ([c], 1)
    else if isOctal c then
      let (d, used) := readOctal c cs
      some ([d], used)
    else some ([c], 1)

/-! ## Words -/

/-- The character of a name that is spelled by the escape behind the backslash at `c`, and the
cursor behind it. What is no escape of a character shows behind the backslash, and a character that
may not stand in a name shows behind the escape. -/
def readNameEscape (allowed : Char → Bool) (c : Cursor) : Except Fault (Char × Cursor) :=
  let behind := c.next
  match behind.ahead with
  | 'u' :: rest =>
    match readCodePoint rest with
    | some (n, used) =>
      let c' := behind.skip (1 + used)
      if 0xd800 ≤ n && n < 0xe000 then .error ⟨"invalid escape in a name", behind.offset⟩
      else if allowed (Char.ofNat n) then .ok (Char.ofNat n, c')
      else .error ⟨"invalid character in a name", c'.offset⟩
    | none => .error ⟨"invalid escape in a name", behind.offset⟩
  | _ => .error ⟨"invalid escape in a name", behind.offset⟩

/-- Reads the characters of a word, `done` holding those so far, last first. A name may be spelled
with escaped characters. -/
def readWordFrom (done : List Char) (escaped : Bool) :
    Nat → Cursor → Except Fault (String × Bool × Cursor)
  | 0, c => .ok (String.ofList done.reverse, escaped, c)
  | fuel + 1, c =>
    match c.ahead with
    | '\\' :: _ => do
      let allowed := if done.isEmpty then isIdentifierStart else isIdentifierPart
      let (ch, c') ← readNameEscape allowed c
      readWordFrom (ch :: done) true fuel c'
    | ch :: _ =>
      if isIdentifierPart ch then readWordFrom (ch :: done) escaped fuel c.next
      else .ok (String.ofList done.reverse, escaped, c)
    | [] => .ok (String.ofList done.reverse, escaped, c)

/-- Reads a word. -/
def readWord (c : Cursor) : Except Fault (String × Bool × Cursor) :=
  readWordFrom [] false c.bound c

/-! ## Numbers -/

/-- Digits with single underscores between them, up to the first other character. An underscore
that no digit follows is a fault behind it. -/
def readDigits (isDigit : Char → Bool) (done : List Char) : Nat → Cursor →
    Except Fault (List Char × Cursor)
  | 0, c => .ok (done.reverse, c)
  | fuel + 1, c =>
    match c.ahead with
    | '_' :: rest =>
      if done.isEmpty then .ok ([], c)
      else if rest.head?.any isDigit then readDigits isDigit done fuel c.next
      else .error ⟨"misplaced numeric separator", c.offset + 1⟩
    | d :: _ =>
      if isDigit d then readDigits isDigit (d :: done) fuel c.next else .ok (done.reverse, c)
    | [] => .ok (done.reverse, c)

/-- A number must not run into a name or another number. -/
def endNumber (token : Token) (c : Cursor) : Except Fault (Token × Cursor) :=
  match c.ahead with
  | ch :: _ =>
    if isIdentifierStart ch || ch.isDigit then
      .error ⟨"invalid characters after number", c.offset⟩
    else .ok (token, c)
  | [] => .ok (token, c)

/-- A base in which whole numbers are written. -/
structure Radix where
  base : Nat
  isDigit : Char → Bool
  /-- The number of digits that are sure to fit 64 bits. -/
  exactDigits : Nat

/-- Base two. -/
def Radix.binary : Radix := ⟨2, fun c => c == '0' || c == '1', 64⟩

/-- Base eight. -/
def Radix.octal : Radix := ⟨8, isOctal, 21⟩

/-- Base sixteen. -/
def Radix.hexadecimal : Radix := ⟨16, fun c => (hexDigit? c).isSome, 16⟩

/-- The number that a row of digits stands for. One that may not fit 64 bits is rounded to a double
behind every digit, from the left to the right. -/
def Radix.value (r : Radix) (digits : List Char) : Float :=
  if digits.length ≤ r.exactDigits then nearestDouble (digitsValue r.base digits) 0
  else nearestDouble
    (digits.foldl (fun n d => roundToDouble (n * r.base + digitsValue r.base [d])) 0) 0

/-- A number in base two, eight or sixteen behind the two characters that announce it. -/
def readRadix (r : Radix) (c : Cursor) : Except Fault (Token × Cursor) := do
  let (digits, c) ← readDigits r.isDigit [] c.bound c
  if digits.isEmpty then throw ⟨"unexpected token", c.offset⟩
  match c.ahead with
  | 'n' :: _ => endNumber .bigInt c.next
  | _ => endNumber (.number (r.value digits)) c

/-- An exponent behind its letter. -/
def readPower (c : Cursor) : Except Fault (Int × Cursor) := do
  let (negative, c) := match c.ahead with
    | '-' :: _ => (true, c.next)
    | '+' :: _ => (false, c.next)
    | _ => (false, c)
  let (digits, c) ← readDigits Char.isDigit [] c.bound c
  if digits.isEmpty then throw ⟨"unexpected token", c.offset⟩
  let n : Int := digitsValue 10 digits
  pure (if negative then -n else n, c)

/-- The exponent of a decimal number, if there is one. -/
def readExponent (c : Cursor) : Except Fault (Int × Cursor) :=
  match c.ahead with
  | 'e' :: _ => readPower c.next
  | 'E' :: _ => readPower c.next
  | _ => .ok (0, c)

/-- The number of decimal digits before and behind the point, and an exponent. -/
def decimalToken (whole fraction : List Char) (power : Int) : Token :=
  .number (nearestDouble (digitsValue 10 (whole ++ fraction)) (power - fraction.length))

/-- A decimal number behind the digits before its point. -/
def readDecimalRest (whole : List Char) (c : Cursor) : Except Fault (Token × Cursor) := do
  let (fraction, c) ← match c.ahead with
    | '.' :: _ => readDigits Char.isDigit [] c.bound c.next
    | _ => pure ([], c)
  let (power, c) ← readExponent c
  endNumber (decimalToken whole fraction power) c

/-- A decimal number that begins with a zero and has no point, behind the letter of its exponent.
Anything may follow it. -/
def readZeroPower (whole : List Char) (c : Cursor) : Except Fault (Token × Cursor) := do
  let (power, c) ← readPower c
  pure (decimalToken whole [] power, c)

/-- A number that begins with a zero and more digits: base eight if no digit is above seven. -/
def readZeroLed (c : Cursor) : Except Fault (Token × Cursor) :=
  let digits := c.ahead.takeWhile Char.isDigit
  let behind := c.skip digits.length
  if digits.all isOctal then endNumber (.number (Radix.octal.value digits.tail)) behind
  else
    match behind.ahead with
    | '.' :: _ => readDecimalRest digits behind
    | 'e' :: _ => readZeroPower digits behind.next
    | _ => endNumber (decimalToken digits [] 0) behind

/-- Reads a number. -/
def readNumber (c : Cursor) : Except Fault (Token × Cursor) :=
  match c.ahead with
  | '0' :: d :: _ =>
    if d == 'x' || d == 'X' then readRadix .hexadecimal (c.skip 2)
    else if d == 'o' || d == 'O' then readRadix .octal (c.skip 2)
    else if d == 'b' || d == 'B' then readRadix .binary (c.skip 2)
    else if d == 'e' || d == 'E' then readZeroPower ['0'] (c.skip 2)
    else if d == 'n' then endNumber .bigInt (c.skip 2)
    else if d.isDigit then readZeroLed c
    else readDecimalRest ['0'] c.next
  | '.' :: _ => readDecimalRest [] c
  | _ => do
    let (whole, c) ← readDigits Char.isDigit [] c.bound c
    match c.ahead with
    | 'n' :: _ => endNumber .bigInt c.next
    | _ => readDecimalRest whole c

/-! ## Texts -/

/-- The rest of a string behind its opening quote at `start`; `done` holds its characters so far,
last first. -/
def readStringFrom (quote : Char) (start : Nat) (done : List Char) :
    Nat → Cursor → Except Fault (Token × Cursor)
  | 0, _ => .error ⟨"unterminated string", start⟩
  | fuel + 1, c =>
    match c.ahead with
    | [] => .error ⟨"unterminated string", start⟩
    | '\\' :: rest =>
      match readEscape false rest with
      | some (meaning, used) =>
        readStringFrom quote start (meaning.reverse ++ done) fuel (c.skip (1 + used))
      | none =>
        if rest.isEmpty then .error ⟨"unterminated string", start⟩
        else .error ⟨"invalid escape sequence", c.offset⟩
    | ch :: _ =>
      if ch == quote then .ok (.string (String.ofList done.reverse), c.next)
      else if ch == '\n' || ch == '\r' then .error ⟨"unterminated string", start⟩
      else readStringFrom quote start (ch :: done) fuel c.next

/-- Reads a string. -/
def readString (quote : Char) (c : Cursor) : Except Fault (Token × Cursor) :=
  readStringFrom quote c.offset [] c.bound c.next

/-- The rest of a part of a template literal that begins at `start`; `done` holds its characters so
far, last first, unless an escape means nothing. Every way to break a line reads as a line feed. -/
def readTemplateFrom (start : Nat) (done : Option (List Char)) :
    Nat → Cursor → Except Fault (Token × Cursor)
  | 0, _ => .error ⟨"unterminated template literal", start⟩
  | fuel + 1, c =>
    let value := done.map fun cs => String.ofList cs.reverse
    match c.ahead with
    | [] => .error ⟨"unterminated template literal", start⟩
    | '\x60' :: _ => .ok (.template value true, c.next)
    | '$' :: '\x7b' :: _ => .ok (.template value false, c.skip 2)
    | '\\' :: rest =>
      match readEscape true rest with
      | some (meaning, used) =>
        readTemplateFrom start (done.map (meaning.reverse ++ ·)) fuel (c.skip (1 + used))
      | none => readTemplateFrom start none fuel (c.skip 2)
    | '\r' :: '\n' :: _ => readTemplateFrom start (done.map ('\n' :: ·)) fuel (c.skip 2)
    | ch :: _ =>
      let ch := if ch == '\r' then '\n' else ch
      readTemplateFrom start (done.map (ch :: ·)) fuel c.next

/-- Reads a part of a template literal behind the backtick or brace that opens it at `start`. -/
def readTemplate (start : Nat) (c : Cursor) : Except Fault (Token × Cursor) :=
  readTemplateFrom start (some []) (c.bound + 1) c

/-- The body of a regular expression that begins at `start`. A slash inside brackets does not end
it. -/
def readRegexBody (start : Nat) (inClass : Bool) : Nat → Cursor → Except Fault Cursor
  | 0, _ => .error ⟨"unterminated regular expression", start⟩
  | fuel + 1, c =>
    match c.ahead with
    | [] => .error ⟨"unterminated regular expression", start⟩
    | ch :: rest =>
      if isLineBreak ch then .error ⟨"unterminated regular expression", start⟩
      else if ch == '\\' then
        if rest.head?.any isLineBreak then .error ⟨"unterminated regular expression", start⟩
        else readRegexBody start inClass fuel (c.skip 2)
      else if ch == '[' then readRegexBody start true fuel c.next
      else if ch == ']' then readRegexBody start false fuel c.next
      else if ch == '/' && !inClass then .ok c.next
      else readRegexBody start inClass fuel c.next

/-- The flags of a regular expression, each at most once. -/
def readRegexFlags (seen : List Char) : Nat → Cursor → Except Fault Cursor
  | 0, c => .ok c
  | fuel + 1, c =>
    match c.ahead with
    | ch :: _ =>
      if !isIdentifierPart ch then .ok c
      else if seen.contains ch || !"dgimsuvy".toList.contains ch then
        .error ⟨"invalid regular expression flag", c.offset⟩
      else readRegexFlags (ch :: seen) fuel c.next
    | [] => .ok c

/-- Reads a regular expression that begins at `start`, behind its opening slash. -/
def readRegex (start : Nat) (c : Cursor) : Except Fault (Token × Cursor) := do
  let c ← readRegexBody start false (c.bound + 1) c
  let c ← readRegexFlags [] c.bound c
  pure (.regex, c)

/-! ## Tokens -/

/-- The marks of the language; of those that fit, the first is the longest. -/
def marks : List String := [
  ">>>=", "...", "===", "!==", "**=", "<<=", ">>=", ">>>", "&&=", "||=", "??=", "=>", "==", "!=",
  "<=", ">=", "&&", "||", "??", "?.", "++", "--", "+=", "-=", "*=", "/=", "%=", "&=", "|=", "^=",
  "<<", ">>", "**", "\x7b", "\x7d", "(", ")", "[", "]", ";", ",", "<", ">", "+", "-", "*", "/",
  "%", "&", "|", "^", "!", "~", "?", ":", "=", ".", "@"]

/-- The marks with their characters. -/
def markTable : List (String × List Char) := marks.map fun m => (m, m.toList)

/-- Reads a mark. An optional link is not read where a decimal number follows the question mark. -/
def readMark (c : Cursor) : Except Fault (Token × Cursor) :=
  match c.ahead with
  | '?' :: '.' :: d :: _ =>
    if d.isDigit then .ok (.mark "?", c.next) else .ok (.mark "?.", c.skip 2)
  | _ =>
    match markTable.find? (fun m => m.2.isPrefixOf c.ahead) with
    | some (text, cs) => .ok (.mark text, c.skip cs.length)
    | none => .error ⟨"invalid character", c.offset⟩

/-- Reads the token that begins at the cursor. -/
def readToken (c : Cursor) : Except Fault (Token × Cursor) :=
  match c.ahead with
  | [] => .ok (.stop, c)
  | '"' :: _ => readString '"' c
  | '\'' :: _ => readString '\'' c
  | '\x60' :: _ => readTemplate c.offset c.next
  | '#' :: rest =>
    if rest.head?.any (fun ch => isIdentifierStart ch || ch == '\\') then do
      let (name, _, c) ← readWord c.next
      pure (.privateName name, c)
    else .error ⟨"unexpected token", c.offset + 1⟩
  | '.' :: d :: _ => if d.isDigit then readNumber c else readMark c
  | ch :: _ =>
    if ch.isDigit then readNumber c
    else if isIdentifierStart ch || ch == '\\' then do
      let (name, escaped, c) ← readWord c
      pure (.word name escaped, c)
    else readMark c

/-- The lexeme behind the cursor, and the cursor behind it. -/
def nextLexeme (c : Cursor) : Lexeme × Cursor :=
  match skipGap .plain c.offset false none c.ahead with
  | .openComment start =>
    (⟨.broken ⟨"unterminated multi-line comment", start⟩, start, start, false, none⟩, c)
  | .token offset ahead broke comment =>
    let c := { c with offset, ahead }
    match readToken c with
    | .ok (token, c') => (⟨token, offset, c'.offset, broke, comment⟩, c')
    | .error fault => (⟨.broken fault, offset, offset, broke, comment⟩, c)

/-- The cursor at the beginning of a source, behind a first line that starts with `#!`. -/
def Cursor.ofSource (source : List Char) : Cursor :=
  let c : Cursor := ⟨0, source, source.length⟩
  match source with
  | '#' :: '!' :: _ => c.skip (source.takeWhile fun c => !isLineBreak c).length
  | _ => c

end Stencil.Script
