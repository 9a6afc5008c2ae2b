import Stencil.Text.Letter
import Stencil.Text.Search
import Stencil.Text.Slice
import Stencil.Template.Quoting
import Stencil.Template.Span

/-! # The syntax of templates

Openers and closers set regions of script apart from the text around them. A text is taken apart
into pieces that follow each other without a gap, so their concatenation is the text again; their
lengths give the ranges that a classifier reports.
-/
namespace Stencil.Template

/-- The marks of templates. -/
structure Syntax where
  blockOpeners : List String
  inlineOpeners : List String
  closer : String
  includeKeyword : String
  deriving DecidableEq, Repr, Inhabited

/-- The marks that are used where no others are chosen. -/
def Syntax.default : Syntax :=
  { blockOpeners := ["<?exp", "<?block"]
    inlineOpeners := ["<?e=", "<?write"]
    closer := "?>"
    includeKeyword := "include" }

/-- A stretch of text of one scope. -/
structure Piece where
  scope : Scope
  text : List Char
  deriving DecidableEq, Repr, Inhabited

/-- The lines of a text, each with the line break that ends it; `done` holds the characters of the
open line, last first. -/
def splitLines (done : List Char) : List Char → List (List Char)
  | [] => if done.isEmpty then [] else [done.reverse]
  | c :: cs =>
    if c == '\n' then (c :: done).reverse :: splitLines [] cs else splitLines (c :: done) cs

/-- A text as pieces of one scope, one for each line. -/
def linePieces (scope : Scope) (text : List Char) : List Piece :=
  (splitLines [] text).map (⟨scope, ·⟩)

theorem stripStart?_length {needle cs rest : List Char} (h : stripStart? needle cs = some rest) :
    rest.length + needle.length = cs.length := by
  induction needle generalizing cs with
  | nil => simp_all [stripStart?]
  | cons n needle ih =>
    cases cs with
    | nil => simp [stripStart?] at h
    | cons c cs =>
      simp only [stripStart?] at h
      split at h
      · have := ih h
        simp only [List.length_cons]
        omega
      · cases h

/-! ## Openers -/

/-- The openers of a syntax; of those that fit at one place the longest one counts. -/
def Syntax.openers (s : Syntax) : List (List Char) :=
  let all := (s.blockOpeners ++ s.inlineOpeners).filter fun o => !o.isEmpty
  (all.mergeSort fun a b => b.utf8ByteSize ≤ a.utf8ByteSize).map String.toList

/-- Whether an opener may be followed by a text. One that ends in a letter or a number has to be
a word there. -/
def endsWord (opener rest : List Char) : Bool :=
  match opener.getLast? with
  | some last =>
    !isLetterOrNumber last || isWordChar last != rest.head?.any isWordChar
  | none => true

/-- The opener at the start of a text, and the text behind it. -/
def openerAt? (openers : List (List Char)) (cs : List Char) : Option (List Char × List Char) :=
  openers.findSome? fun opener =>
    match stripStart? opener cs with
    | some rest => if endsWord opener rest then some (opener, rest) else none
    | none => none

/-- The first opener of a text that is not empty, with the text before and behind it. -/
def findOpener? (openers : List (List Char)) (before : List Char) :
    List Char → Option (List Char × List Char × List Char)
  | [] => none
  | c :: cs =>
    match openerAt? openers (c :: cs) with
    | some (opener, rest) => some (before.reverse, opener, rest)
    | none => findOpener? openers (c :: before) cs

theorem openerAt?_length {openers : List (List Char)} {cs opener rest : List Char}
    (h : openerAt? openers cs = some (opener, rest)) :
    opener ∈ openers ∧ rest.length + opener.length = cs.length := by
  obtain ⟨o, ho, h⟩ := List.exists_of_findSome?_eq_some h
  split at h
  · rename_i r hr
    split at h
    · cases h
      exact ⟨ho, stripStart?_length hr⟩
    · cases h
  · cases h

theorem findOpener?_length {openers : List (List Char)} {before cs b opener rest : List Char}
    (h : findOpener? openers before cs = some (b, opener, rest)) :
    opener ∈ openers ∧ rest.length + opener.length ≤ cs.length := by
  induction cs generalizing before with
  | nil => simp [findOpener?] at h
  | cons c cs ih =>
    simp only [findOpener?] at h
    split at h
    · rename_i o r hr
      cases h
      have := openerAt?_length hr
      exact ⟨this.1, Nat.le_of_eq this.2⟩
    · have := ih h
      exact ⟨this.1, Nat.le_succ_of_le this.2⟩

theorem Syntax.ne_nil_of_mem_openers {s : Syntax} {opener : List Char} (h : opener ∈ s.openers) :
    opener ≠ [] := by
  simp only [openers, List.mem_map, List.mem_mergeSort, List.mem_filter] at h
  obtain ⟨o, ⟨_, ho⟩, rfl⟩ := h
  intro hn
  simp_all [String.isEmpty, String.toList_eq_nil_iff]

/-! ## Include directives -/

/-- A character that belongs to a name of a script. -/
def isNameChar (c : Char) : Bool := isLetterOrNumber c || c == '_' || c == '$'

/-- The beginning of an include directive behind the character `before`: the keyword and an
opening parenthesis, with nothing but blanks between them. The keyword must not be the end of a
name or a member. -/
def includeHead? (keyword : List Char) (before : Option Char) (cs : List Char) :
    Option (List Char × List Char) :=
  if keyword.isEmpty || before.any (fun p => isNameChar p || p == '.') then none
  else
    match stripStart? keyword cs with
    | none => none
    | some behind =>
      let isGap (c : Char) : Bool := c == ' ' || c == '\t'
      match behind.dropWhile isGap with
      | '(' :: rest => some (keyword ++ behind.takeWhile isGap ++ ['('], rest)
      | _ => none

theorem includeHead?_length {keyword cs head rest : List Char} {before : Option Char}
    (h : includeHead? keyword before cs = some (head, rest)) : rest.length < cs.length := by
  unfold includeHead? at h
  split at h
  · cases h
  · split at h
    · cases h
    · rename_i behind hb
      simp only at h
      split at h
      · rename_i r hr
        cases h
        have h1 := stripStart?_length hb
        have h2 := List.dropWhile_suffix (fun c => c == ' ' || c == '\t') (l := behind)
        have h3 := h2.length_le
        simp only [hr, List.length_cons] at h3
        omega
      · cases h

/-- How the arguments of an include directive end. -/
structure ArgumentText where
  text : List Char
  /-- Whether a closing parenthesis ends them, and not the closer of the region or the text. -/
  closed : Bool
  /-- The text behind the parenthesis, or from the closer on. -/
  rest : List Char

/-- Reads the arguments of an include directive up to its closing parenthesis; `done` holds their
characters so far, last first. -/
def readArguments (closer : List Char) (quoting : Quoting) (depth : Nat) (done : List Char) :
    List Char → ArgumentText
  | [] => ⟨done.reverse, false, []⟩
  | c :: cs =>
    if quoting = .outside then
      if closer.isPrefixOf (c :: cs) then ⟨done.reverse, false, c :: cs⟩
      else if c == ')' && depth == 0 then ⟨done.reverse, true, cs⟩
      else readArguments closer (Quoting.outside.step c) (depthBehind depth c) (c :: done) cs
    else readArguments closer (quoting.step c) depth (c :: done) cs

theorem readArguments_length (closer : List Char) (quoting : Quoting) (depth : Nat)
    (done cs : List Char) :
    (readArguments closer quoting depth done cs).rest.length ≤ cs.length := by
  induction cs generalizing quoting depth done with
  | nil => simp [readArguments]
  | cons c cs ih =>
    simp only [readArguments]
    split
    · split
      · simp
      · split
        · simp
        · exact Nat.le_succ_of_le (ih _ _ _)
    · exact Nat.le_succ_of_le (ih _ _ _)

/-- An include directive of a text. -/
structure Directive where
  pieces : List Piece
  /-- The character before the text behind the directive. -/
  before : Option Char
  /-- The text behind the directive. -/
  rest : List Char

/-- Reads an include directive behind its beginning `head`. A semicolon right behind its closing
parenthesis belongs to it and counts for nothing. -/
def readDirective (closer head : List Char) (scope : Scope) (inner : List Char) : Directive :=
  let list := readArguments closer .outside 0 [] inner
  let pieces := ⟨.includeBegin, head⟩ :: linePieces scope list.text
  if !list.closed then ⟨pieces, none, list.rest⟩
  else if list.rest.head? = some ';' then
    ⟨pieces ++ [⟨.includeEnd, [')']⟩, ⟨.delimiter, [';']⟩], some ';', list.rest.tail⟩
  else ⟨pieces ++ [⟨.includeEnd, [')']⟩], some ')', list.rest⟩

theorem readDirective_length (closer head : List Char) (scope : Scope) (inner : List Char) :
    (readDirective closer head scope inner).rest.length ≤ inner.length := by
  have h := readArguments_length closer .outside 0 [] inner
  unfold readDirective
  simp only
  split
  · exact h
  · split
    · simp only [List.length_tail]
      omega
    · exact h

/-! ## Regions -/

/-- What stands in a region of script, without its closer. -/
structure Body where
  pieces : List Piece
  /-- The text behind the closer, if the region has one. -/
  rest? : Option (List Char)

/-- Reads the body of a region. Its parts have the given scope, apart from include directives where
the region has them. `before` is the character before the text, and `chunk` holds the characters of
the open part, last first. -/
def readBody (s : Syntax) (scope : Scope) (includes : Bool) (before : Option Char)
    (quoting : Quoting) (chunk : List Char) (cs : List Char) : Body :=
  match cs with
  | [] => ⟨linePieces scope chunk.reverse, none⟩
  | c :: rest =>
    if quoting ≠ .outside then
      readBody s scope includes (some c) (quoting.step c) (c :: chunk) rest
    else
      match stripStart? s.closer.toList (c :: rest) with
      | some behind => ⟨linePieces scope chunk.reverse, some behind⟩
      | none =>
        if isQuote c || !includes then
          readBody s scope includes (some c) (Quoting.outside.step c) (c :: chunk) rest
        else
          match _h : includeHead? s.includeKeyword.toList before (c :: rest) with
          | none => readBody s scope includes (some c) .outside (c :: chunk) rest
          | some (head, inner) =>
            let d := readDirective s.closer.toList head scope inner
            let more := readBody s scope includes d.before .outside [] d.rest
            ⟨linePieces scope chunk.reverse ++ d.pieces ++ more.pieces, more.rest?⟩
termination_by cs.length
decreasing_by
  · simp
  · simp
  · simp
  · have h1 := includeHead?_length _h
    have h2 := readDirective_length s.closer.toList head scope inner
    exact Nat.lt_of_le_of_lt h2 h1

theorem readBody_length {s : Syntax} {scope : Scope} {includes : Bool} {before : Option Char}
    {quoting : Quoting} {chunk cs rest : List Char}
    (h : (readBody s scope includes before quoting chunk cs).rest? = some rest) :
    rest.length ≤ cs.length := by
  fun_induction readBody s scope includes before quoting chunk cs with
  | case1 => simp at h
  | case2 _ _ _ _ _ _ ih => exact Nat.le_succ_of_le (ih h)
  | case3 _ _ _ _ _ _ behind hb =>
    cases h
    have := stripStart?_length hb
    omega
  | case4 _ _ _ _ _ _ _ _ ih => exact Nat.le_succ_of_le (ih h)
  | case5 _ _ _ _ _ _ _ _ _ ih => exact Nat.le_succ_of_le (ih h)
  | case6 _ _ _ _ _ _ _ _ head inner hi d more ih =>
    have h1 := includeHead?_length hi
    have h2 := readDirective_length s.closer.toList head scope inner
    have h3 := ih h
    simp only [d] at h3
    omega

/-! ## Whole texts -/

/-- Whether an opener opens an inline region. -/
def Syntax.isInline (s : Syntax) (opener : List Char) : Bool :=
  s.inlineOpeners.any fun o => o.toList == opener

/-- Takes a text apart. -/
def classifyFrom (s : Syntax) (openers : List (List Char)) (hne : ∀ o ∈ openers, o ≠ [])
    (cs : List Char) : List Piece :=
  match h : findOpener? openers [] cs with
  | none => linePieces .text cs
  | some (before, opener, inner) =>
    let inline := s.isInline opener
    let body := readBody s (if inline then .inlineWrite else .block) (!inline) opener.getLast?
      .outside [] inner
    let region := ⟨if inline then .inlineOpen else .blockOpen, opener⟩ :: body.pieces
    match hb : body.rest? with
    | none => linePieces .text before ++ region
    | some behind =>
      linePieces .text before ++ region ++
        ⟨if inline then .inlineClose else .blockClose, s.closer.toList⟩ ::
          classifyFrom s openers hne behind
termination_by cs.length
decreasing_by
  have h1 := findOpener?_length h
  have h2 := readBody_length hb
  have h3 := List.length_pos_iff.2 (hne opener h1.1)
  omega

/-- The pieces of a text, from its beginning to its end. -/
def pieces (s : Syntax) (cs : List Char) : List Piece :=
  classifyFrom s s.openers (fun _ h => Syntax.ne_nil_of_mem_openers h) cs

/-- The ranges that pieces take up which follow each other from a byte on. -/
def rangesFrom (start : Nat) : List Piece → List Classified
  | [] => []
  | p :: rest =>
    let stop := start + utf8Length p.text
    ⟨start, stop, p.scope⟩ :: rangesFrom stop rest

/-- The classifier of a syntax. -/
def Syntax.classify (s : Syntax) : Classifier := fun cs => rangesFrom 0 (pieces s cs)

end Stencil.Template
