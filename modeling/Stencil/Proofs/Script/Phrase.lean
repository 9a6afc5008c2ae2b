import Stencil.Proofs.Script.Operand

/-! # Phrases

A source that is made of string literals, names and calls only says something that can be told from
its form: a phrase.  However phrases are nested, the text of one is read as an operand that says it,
wherever it stands between other tokens.  How the characters of a literal are written is left open;
they only have to be read back.
-/
namespace Stencil.Script

/-! ## Words -/

/-- Whether a text is a word, as a source spells it without escapes. -/
def isPlainWord (word : String) : Bool :=
  word.toList.head?.any isIdentifierStart && word.toList.all isIdentifierPart

/-- A word that a source can use as a name. -/
structure IsName (word : String) : Prop where
  plain : isPlainWord word = true
  notReserved : word ∉ reservedWords
  notAwait : word ≠ "await"

/-- The code points of white space and line breaks. -/
def gapCodes : List Nat :=
  [0x09, 0x0a, 0x0b, 0x0c, 0x0d, 0x20, 0x85, 0xa0, 0x1680, 0x2000, 0x2001, 0x2002, 0x2003, 0x2004,
    0x2005, 0x2006, 0x2007, 0x2008, 0x2009, 0x200a, 0x200b, 0x2028, 0x2029, 0x202f, 0x205f, 0x3000,
    0xfeff]

/-- The code points of the characters, other than those, that begin a number, a literal, a comment,
an escape or a private name. -/
def otherCodes : List Nat :=
  [0x22, 0x23, 0x27, 0x2e, 0x2f, 0x30, 0x31, 0x32, 0x33, 0x34, 0x35, 0x36, 0x37, 0x38, 0x39, 0x5c,
    0x60]

theorem mem_gapCodes {c : Char} (h : isLineBreak c = true ∨ isSpace c = true) :
    c.toNat ∈ gapCodes := by
  simp only [isLineBreak, isSpace, Bool.or_eq_true, Bool.and_eq_true, beq_iff_eq,
    decide_eq_true_eq, or_assoc] at h
  rcases h with rfl | rfl | rfl | rfl | rfl | rfl | rfl | rfl | rfl | rfl | rfl | ⟨hlow, hhigh⟩ |
    rfl | rfl | rfl | rfl
  case inr.inr.inr.inr.inr.inr.inr.inr.inr.inr.inr.inl =>
    have hlow : 0x2000 ≤ c.toNat := hlow
    have hhigh : c.toNat ≤ 0x200b := hhigh
    simp only [gapCodes, List.mem_cons, List.not_mem_nil]
    omega
  all_goals decide

theorem mem_otherCodes {c : Char} (h : c.isDigit = true) : c.toNat ∈ otherCodes := by
  obtain ⟨hlow, hhigh⟩ : 0x30 ≤ c.toNat ∧ c.toNat ≤ 0x39 := Char.isDigit_iff_toNat.mp h
  simp only [otherCodes, List.mem_cons, List.not_mem_nil]
  omega

theorem isIdentifierStart_of_mem {n : Nat} (h : n ∈ gapCodes ++ otherCodes) :
    isIdentifierStart (.ofNat n) = false := by
  have hnone : ∀ n ∈ gapCodes ++ otherCodes, (Char.ofNat n).toNat < 0x80 ∧
      isIdentifierStart (.ofNat n) = false ∨ ¬ (Char.ofNat n).toNat < 0x80 ∧
      ∀ r ∈ identifierStartRanges.toList ++ unassignedRanges.toList,
        (decide (r.1 ≤ (Char.ofNat n).toNat) && decide ((Char.ofNat n).toNat ≤ r.2)) = false := by
    decide +kernel
  obtain ⟨-, hword⟩ | ⟨hhigh, hout⟩ := hnone n h
  · exact hword
  · simp only [List.mem_append, or_imp, forall_and] at hout
    rw [isIdentifierStart, if_neg hhigh, inRanges, inRanges, ← Array.any_toList,
      ← Array.any_toList, List.any_eq_false.mpr, List.any_eq_false.mpr, Bool.or_false]
    · exact fun r hr => Bool.eq_false_iff.mp (hout.2 r hr)
    · exact fun r hr => Bool.eq_false_iff.mp (hout.1 r hr)

/-- A character that begins a word, and nothing else. -/
structure BeginsWord (c : Char) : Prop where
  starts : isIdentifierStart c = true
  notGap : c.toNat ∉ gapCodes
  notDigit : c.isDigit = false
  ne {d : Char} : d.toNat ∈ otherCodes → c ≠ d

theorem beginsWord_of_isIdentifierStart {c : Char} (h : isIdentifierStart c = true) :
    BeginsWord c := by
  have hnot : c.toNat ∉ gapCodes ++ otherCodes := by
    intro hmem
    have hfalse := isIdentifierStart_of_mem hmem
    rw [Char.ofNat_toNat, h] at hfalse
    exact absurd hfalse (by simp)
  rw [List.mem_append, not_or] at hnot
  obtain ⟨hgap, hother⟩ := hnot
  exact ⟨h, hgap, Bool.eq_false_iff.mpr fun hdigit => hother (mem_otherCodes hdigit),
    fun hd hc => hother (hc ▸ hd)⟩

/-- No word goes on with what is ahead. -/
def WordEnds (rest : List Char) : Prop :=
  ∀ c ∈ rest.head?, isIdentifierPart c = false ∧ c ≠ '\\'

theorem wordEnds_of_mem {c : Char} (hc : c ∈ ['(', '.', ')', ',', ';']) (rest : List Char) :
    WordEnds (c :: rest) := by
  intro d hd
  obtain rfl : c = d := by simpa using hd
  simp only [List.mem_cons, List.not_mem_nil, or_false] at hc
  rcases hc with rfl | rfl | rfl | rfl | rfl <;> decide

theorem readWordFrom_append {cs rest : List Char} (hcs : ∀ c ∈ cs, isIdentifierPart c = true)
    (hrest : WordEnds rest) (done : List Char)
    (offset bound fuel : Nat) (hfuel : cs.length ≤ fuel) :
    readWordFrom done false fuel ⟨offset, cs ++ rest, bound⟩ =
      .ok (String.ofList (done.reverse ++ cs), false, ⟨offset + cs.length, rest, bound⟩) := by
  induction cs generalizing done offset fuel with
  | nil =>
    cases fuel with
    | zero => simp [readWordFrom]
    | succ fuel =>
      cases rest with
      | nil => simp [readWordFrom]
      | cons c rest =>
        obtain ⟨hpart, hslash⟩ := hrest c rfl
        simp [readWordFrom, hpart]
  | cons c cs ih =>
    obtain ⟨fuel, rfl⟩ := Nat.exists_eq_add_of_le' (Nat.one_le_of_lt hfuel)
    obtain ⟨hpart, hcs⟩ := List.forall_mem_cons.mp hcs
    have hslash : c ≠ '\\' := by
      rintro rfl
      exact absurd hpart (by decide)
    have hrest := ih hcs (c :: done) (offset + 1) fuel (Nat.le_of_succ_le_succ hfuel)
    rw [List.cons_append, readWordFrom]
    simp [hpart, Cursor.next, hrest, Nat.add_assoc, Nat.add_comm 1]

/-! ## Tokens -/

/-- A gap of blanks at a cursor. -/
theorem skipGap_replicate (count offset : Nat) (ahead : List Char) :
    skipGap .plain offset false none (List.replicate count ' ' ++ ahead) =
      skipGap .plain (offset + count) false none ahead := by
  induction count generalizing offset with
  | zero => rfl
  | succ count ih =>
    rw [List.replicate_succ, List.cons_append, skipGap.eq_def]
    simp [isLineBreak, isSpace, ih, Nat.add_assoc, Nat.add_comm 1]

/-- Behind a gap of blanks, a token begins with a character that does not belong to a gap. -/
theorem skipGap_blanks {c : Char} (hgap : c.toNat ∉ gapCodes) (hslash : c ≠ '/')
    (gap offset : Nat) (cs : List Char) :
    skipGap .plain offset false none (List.replicate gap ' ' ++ c :: cs) =
      .token (offset + gap) (c :: cs) false none := by
  have hbreak : isLineBreak c = false := Bool.eq_false_iff.mpr fun h => hgap (mem_gapCodes (.inl h))
  have hspace : isSpace c = false := Bool.eq_false_iff.mpr fun h => hgap (mem_gapCodes (.inr h))
  rw [skipGap_replicate, skipGap.eq_def]
  simp [hbreak, hspace, hslash]

theorem beginsWord_of_isPlainWord {word : String} (h : isPlainWord word = true) :
    ∃ c cs, word.toList = c :: cs ∧ BeginsWord c := by
  obtain ⟨hfirst, -⟩ := Bool.and_eq_true_iff.mp h
  cases hchars : word.toList with
  | nil => simp [hchars] at hfirst
  | cons c cs =>
    exact ⟨c, cs, rfl, beginsWord_of_isIdentifierStart (by simpa [hchars] using hfirst)⟩

section

variable {rest : List Char} (bound gap offset : Nat)

theorem shows_word {word : String} (h : isPlainWord word = true) (hbound : word.length ≤ bound)
    (hrest : WordEnds rest) :
    Cursor.Shows ⟨offset, List.replicate gap ' ' ++ (word.toList ++ rest), bound⟩
      (.word word false) ⟨offset + gap + word.length, rest, bound⟩ := by
  have hall := List.all_eq_true.mp (Bool.and_eq_true_iff.mp h).2
  have hread := readWordFrom_append hall hrest [] (offset + gap) bound bound
    (by simpa [String.length_toList] using hbound)
  obtain ⟨c, cs, hchars, hc⟩ := beginsWord_of_isPlainWord h
  rw [hchars] at hread ⊢
  refine Cursor.shows_of_readToken (skipGap_blanks hc.notGap (hc.ne (by decide)) gap offset _) ?_
  have hword : readWord ⟨offset + gap, c :: (cs ++ rest), bound⟩ =
      .ok (word, false, ⟨offset + gap + word.length, rest, bound⟩) := by
    rw [readWord, ← List.cons_append, hread, ← hchars, String.length_toList]
    simp
  rw [readToken.eq_def]
  simp [hc.ne (by decide : '"'.toNat ∈ otherCodes), hc.ne (by decide : '\''.toNat ∈ otherCodes),
    hc.ne (by decide : '\x60'.toNat ∈ otherCodes), hc.ne (by decide : '#'.toNat ∈ otherCodes),
    hc.ne (by decide : '.'.toNat ∈ otherCodes), hc.notDigit, hc.starts, hword, bind, Except.bind,
    pure, Except.pure]

theorem shows_literal {mark : QuoteMark} {written : Char → List Char} (h : ReadsBack mark written)
    (text : String) (hbound : text.length < bound) :
    Cursor.Shows
      ⟨offset, List.replicate gap ' ' ++
        mark.char :: (text.toList.flatMap written ++ mark.char :: rest), bound⟩
      (.string text)
      ⟨offset + gap + 1 + (text.toList.flatMap written).length + 1, rest, bound⟩ := by
  refine Cursor.shows_of_readToken (skipGap_blanks ?_ ?_ gap offset _)
    (h.readToken_literal text _ rest hbound)
  · cases mark <;> decide
  · cases mark <;> decide

/-- A point in front of a word. -/
theorem shows_point {word : String} (h : isPlainWord word = true) :
    Cursor.Shows ⟨offset, '.' :: (word.toList ++ rest), bound⟩ (.mark ".")
      ⟨offset + 1, word.toList ++ rest, bound⟩ := by
  obtain ⟨c, cs, hchars, hc⟩ := beginsWord_of_isPlainWord h
  have hpoint : ('.' == c) = false := beq_false_of_ne (hc.ne (by decide)).symm
  rw [hchars, List.cons_append]
  have hmark : readMark ⟨offset, '.' :: c :: (cs ++ rest), bound⟩ =
      .ok (.mark ".", ⟨offset + 1, c :: (cs ++ rest), bound⟩) := by
    simp [readMark, markTable, marks, List.find?, List.isPrefixOf, hpoint, Cursor.skip]
  have hgap : skipGap .plain offset false none ('.' :: c :: (cs ++ rest)) =
      .token offset ('.' :: c :: (cs ++ rest)) false none := rfl
  refine Cursor.shows_of_readToken hgap ?_
  simp [readToken, hc.notDigit, hmark]

theorem shows_semicolon : Cursor.Shows ⟨offset, ';' :: rest, bound⟩ (.mark ";")
    ⟨offset + 1, rest, bound⟩ := ⟨offset, rfl⟩

/-- What may stand behind an operand for it to be over: nothing, or a mark that closes it. -/
def Closing (rest : List Char) : Prop :=
  ∀ c ∈ rest.head?, c ∈ [')', ',', ';']

theorem Closing.shows (h : Closing rest) :
    ∃ token c', Cursor.Shows ⟨offset, rest, bound⟩ token c' ∧ token.Closes := by
  cases rest with
  | nil => exact ⟨.stop, _, ⟨offset, rfl⟩, trivial⟩
  | cons c cs =>
    have hc : c = ')' ∨ c = ',' ∨ c = ';' := by simpa using h c rfl
    obtain rfl | rfl | rfl := hc
    · exact ⟨.mark ")", ⟨offset + 1, cs, bound⟩, ⟨offset, rfl⟩, by simp [Token.Closes]⟩
    · exact ⟨.mark ",", ⟨offset + 1, cs, bound⟩, ⟨offset, rfl⟩, by simp [Token.Closes]⟩
    · exact ⟨.mark ";", ⟨offset + 1, cs, bound⟩, ⟨offset, rfl⟩, by simp [Token.Closes]⟩

end

/-! ## Phrases -/

/-- What a phrase calls: a function with a name, or a member of something with a name. -/
inductive Callee
  | name (word : String)
  | member (owner word : String)

/-- Something that literals, names and calls say. -/
inductive Phrase
  | literal (mark : QuoteMark) (text : String)
  | name (word : String)
  | call (callee : Callee) (arguments : List Phrase)

/-- The text of a callee. -/
def Callee.written : Callee → List Char
  | .name word => word.toList
  | .member owner word => owner.toList ++ '.' :: word.toList

/-- A source can spell a callee. A call of `async` would be the beginning of a function. -/
inductive Callee.Sayable : Callee → Prop
  | name {word : String} (hname : IsName word) (hasync : word ≠ "async") : Sayable (.name word)
  | member {owner word : String} (howner : IsName owner) (hword : isPlainWord word = true) :
    Sayable (.member owner word)

/-- An expression is a callee, wherever it stands. -/
inductive Callee.Says : Callee → Expr → Prop
  | name (span : Span) (word : String) : Says (.name word) (.name span word)
  | member (span ownerSpan nameSpan : Span) (owner word : String) :
    Says (.member owner word) (.member span (.name ownerSpan owner) word nameSpan false)

section

variable (char : Char → List Char)

mutual

/-- The text of a phrase, with the characters of its literals as `char` writes them. -/
def Phrase.written : Phrase → List Char
  | .literal mark text => mark.char :: (text.toList.flatMap char ++ [mark.char])
  | .name word => word.toList
  | .call callee arguments => callee.written ++ '(' :: (Phrase.allWritten arguments ++ [')'])

/-- The text of phrases with commas between them. -/
def Phrase.allWritten : List Phrase → List Char
  | [] => []
  | [p] => p.written
  | p :: q :: rest => p.written ++ ',' :: ' ' :: Phrase.allWritten (q :: rest)

end

mutual

/-- The names of a phrase can be spelled, and its literals are read back. -/
def Phrase.Sayable : Phrase → Prop
  | .literal mark _ => ReadsBack mark char
  | .name word => IsName word
  | .call callee arguments => callee.Sayable ∧ Phrase.AllSayable arguments

def Phrase.AllSayable : List Phrase → Prop
  | [] => True
  | p :: rest => p.Sayable ∧ Phrase.AllSayable rest

end

end

mutual

/-- An expression says a phrase, wherever it stands. -/
inductive Phrase.Says : Phrase → Expr → Prop
  | literal (mark : QuoteMark) (span : Span) (text : String) :
    Says (.literal mark text) (.string span text)
  | name (span : Span) (word : String) : Says (.name word) (.name span word)
  | call (span : Span) {callee : Callee} {arguments : List Phrase} {e : Expr} {es : List Expr}
    (hcallee : callee.Says e) (harguments : Phrase.AllSay arguments es) :
    Says (.call callee arguments) (.call span e (es.map .item) false)

/-- Expressions say phrases, one by one. -/
inductive Phrase.AllSay : List Phrase → List Expr → Prop
  | nil : AllSay [] []
  | cons {p : Phrase} {e : Expr} {rest : List Phrase} {es : List Expr} (h : Phrase.Says p e)
    (hrest : AllSay rest es) : AllSay (p :: rest) (e :: es)

end

/-! ## Reading phrases -/

/-- A source of a length can be read within some bounds. -/
structure Fits (length bound fuel depth : Nat) : Prop where
  bound : length ≤ bound
  fuel : length ≤ fuel
  depth : 3 * length ≤ depth

section

variable {length bound fuel depth : Nat}

theorem Fits.mono (h : Fits length bound fuel depth) {part : Nat} (hpart : part ≤ length) :
    Fits part bound fuel depth :=
  ⟨hpart.trans h.bound, hpart.trans h.fuel, (Nat.mul_le_mul_left 3 hpart).trans h.depth⟩

/-- Inside of something, there is room for the rules of the grammar around it. -/
theorem Fits.inside (h : Fits length bound fuel depth) {part : Nat} (hpart : part < length) :
    ∃ inner, depth = inner + 3 ∧ Fits part bound fuel inner := by
  have hdepth := h.depth
  exact ⟨depth - 3, by omega, by have := h.bound; omega, by have := h.fuel; omega, by omega⟩

theorem length_le_allWritten (char : Char → List Char) (ps : List Phrase) :
    ps.length ≤ (Phrase.allWritten char ps).length + 1 := by
  induction ps with
  | nil => exact Nat.zero_le _
  | cons p ps ih =>
    cases ps with
    | nil => simp
    | cons q rest =>
      simp only [Phrase.allWritten, List.length_append, List.length_cons] at ih ⊢
      omega

theorem Phrase.length_call (char : Char → List Char) (callee : Callee) (arguments : List Phrase) :
    (Phrase.written char (.call callee arguments)).length =
      callee.written.length + (Phrase.allWritten char arguments).length + 2 := by
  simp only [Phrase.written, List.length_append, List.length_cons, List.length_nil]
  omega

theorem Closing.wordEnds {rest : List Char} (h : Closing rest) : WordEnds rest := by
  cases rest with
  | nil => simp [WordEnds]
  | cons c rest =>
    have hmem : c ∈ [')', ',', ';'] := h c rfl
    exact wordEnds_of_mem (List.mem_of_mem_tail (List.mem_of_mem_tail hmem)) rest

theorem Phrase.AllSay.length_eq {ps : List Phrase} {es : List Expr} (h : Phrase.AllSay ps es) :
    es.length = ps.length := by
  induction ps generalizing es with
  | nil =>
    cases h
    rfl
  | cons p ps ih =>
    cases h with
    | cons _ hrest => simp [ih hrest]

end

open Grammar

/-- A call is read as an operand if its arguments are read. -/
theorem Callee.Sayable.readsOperand {dialect : Bool} {fuel depth : Nat} {callee : Callee}
    (hcallee : callee.Sayable) (gap offset : Nat) {args rest : List Char} {bound stop : Nat}
    (hbound : callee.written.length ≤ bound) (hrest : Closing rest) {list : List Element}
    (hlist : (bounded (fuel + 3) depth).arguments
      (.facing dialect ⟨offset + gap + callee.written.length, '(' :: args, bound⟩) =
        .ok (list, .facing dialect ⟨stop, rest, bound⟩)) :
    ∃ span e, callee.Says e ∧ ReadsOperand dialect (fuel + 3) depth
      ⟨offset, List.replicate gap ' ' ++ (callee.written ++ '(' :: args), bound⟩
      (.call span e list false) ⟨stop, rest, bound⟩ := by
  have hparen : WordEnds ('(' :: args) := wordEnds_of_mem (by decide) args
  have hopen : ∀ start, Cursor.Shows ⟨start, '(' :: args, bound⟩ (.mark "(")
      ⟨start + 1, args, bound⟩ := fun start => ⟨start, rfl⟩
  obtain ⟨token, c', hend, hcloses⟩ := hrest.shows bound stop
  cases hcallee with
  | @name word hname hasync =>
    have hword := shows_word bound gap offset hname.plain
      (by simpa [Callee.written, String.length_toList] using hbound) hparen
    rw [Callee.written, String.length_toList] at hlist
    exact ⟨_, _, .name _ word, readsOperand_call hword (hopen _) hname.notReserved hname.notAwait
      hasync hlist hend hcloses⟩
  | @member owner word hname hplain =>
    simp only [Callee.written, List.length_append, List.length_cons, String.length_toList]
      at hbound hlist
    have hpoint : WordEnds ('.' :: (word.toList ++ '(' :: args)) := wordEnds_of_mem (by decide) _
    have howner := shows_word bound gap offset hname.plain (by omega) hpoint
    have hword := shows_word bound 0 (offset + gap + owner.length + 1) hplain (by omega)
      hparen
    have hwritten : List.replicate gap ' ' ++ (Callee.written (.member owner word) ++ '(' :: args) =
        List.replicate gap ' ' ++ (owner.toList ++ '.' :: (word.toList ++ '(' :: args)) := by
      simp [Callee.written]
    have hstop : offset + gap + (owner.length + (word.length + 1)) =
        offset + gap + owner.length + 1 + 0 + word.length := by omega
    rw [hwritten]
    rw [hstop] at hlist
    exact ⟨_, _, .member _ _ _ owner word, readsOperand_memberCall howner (shows_point _ _ hplain)
      hword (hopen _) hname.notReserved hname.notAwait hlist hend hcloses⟩

/-- A call of a callee is read as an operand if its arguments are read one by one. -/
theorem Callee.Sayable.readsOperand_call {dialect : Bool} {char : Char → List Char}
    {callee : Callee} (hcallee : callee.Sayable) (gap offset : Nat) {rest : List Char}
    (hrest : Closing rest) {bound fuel depth : Nat} (hbound : callee.written.length ≤ bound)
    {arguments : List Phrase} {es : List Expr} (hsay : Phrase.AllSay arguments es)
    (hcount : arguments.length ≤ fuel + 2)
    (hitems : ReadsItems dialect (fuel + 3) depth
      ⟨offset + gap + callee.written.length + 1,
        Phrase.allWritten char arguments ++ ')' :: rest, bound⟩ es
      ⟨offset + gap + callee.written.length + 1 + (Phrase.allWritten char arguments).length,
        ')' :: rest, bound⟩) :
    ∃ e, Phrase.Says (.call callee arguments) e ∧ ReadsOperand dialect (fuel + 3) (depth + 3)
      ⟨offset, List.replicate gap ' ' ++ (Phrase.written char (.call callee arguments) ++ rest),
        bound⟩ e
      ⟨offset + gap + (Phrase.written char (.call callee arguments)).length, rest, bound⟩ := by
  have hopen : Cursor.Shows ⟨offset + gap + callee.written.length,
      '(' :: (Phrase.allWritten char arguments ++ ')' :: rest), bound⟩ (.mark "(")
      ⟨offset + gap + callee.written.length + 1, _, bound⟩ := ⟨_, rfl⟩
  -- the arguments end where the parenthesis closes, and the call behind it
  obtain ⟨token, c', hend, -⟩ := hrest.shows bound (offset + gap + callee.written.length + 1 +
    (Phrase.allWritten char arguments).length + 1)
  have hlist := hitems.arguments hopen ⟨_, rfl⟩ hend (hsay.length_eq ▸ hcount)
  obtain ⟨span, e, hsaid, hread⟩ := hcallee.readsOperand gap offset hbound hrest hlist
  have hsource : Phrase.written char (.call callee arguments) ++ rest =
      callee.written ++ '(' :: (Phrase.allWritten char arguments ++ ')' :: rest) := by
    simp [Phrase.written]
  have hstop : offset + gap + (Phrase.written char (.call callee arguments)).length =
      offset + gap + callee.written.length + 1 + (Phrase.allWritten char arguments).length + 1 := by
    rw [Phrase.length_call]
    omega
  rw [hsource, hstop]
  exact ⟨_, .call span hsaid hsay, hread⟩

section

variable (dialect : Bool) {char : Char → List Char}

mutual

/-- **The text of a phrase is read as an operand that says it**, behind any gap and in front of
whatever closes it. -/
theorem Phrase.readsOperand (p : Phrase) (hp : p.Sayable char) (gap offset : Nat)
    {rest : List Char} (hrest : Closing rest) {bound fuel depth : Nat}
    (hfits : Fits (p.written char).length bound fuel depth) :
    ∃ e, p.Says e ∧ ReadsOperand dialect (fuel + 1) depth
      ⟨offset, List.replicate gap ' ' ++ (p.written char ++ rest), bound⟩ e
      ⟨offset + gap + (p.written char).length, rest, bound⟩ := by
  have hbound := hfits.bound
  cases p with
  | literal mark text =>
    have hlength := ReadsBack.length_le hp text.toList
    simp only [Phrase.written, List.length_append, List.length_cons, List.length_nil,
      String.length_toList] at hbound hlength ⊢
    obtain ⟨token, c', hend, hcloses⟩ := hrest.shows bound
      (offset + gap + 1 + (text.toList.flatMap char).length + 1)
    have hliteral := @shows_literal rest bound gap offset mark char hp text (by omega)
    have hsource : mark.char :: (text.toList.flatMap char ++ [mark.char]) ++ rest =
        mark.char :: (text.toList.flatMap char ++ mark.char :: rest) := by
      simp
    have hstop : offset + gap + ((text.toList.flatMap char).length + (0 + 1) + 1) =
        offset + gap + 1 + (text.toList.flatMap char).length + 1 := by
      omega
    rw [hsource, hstop]
    exact ⟨_, .literal mark _ text, readsOperand_string hliteral hend hcloses⟩
  | name word =>
    obtain ⟨token, c', hend, hcloses⟩ := hrest.shows bound (offset + gap + word.length)
    rw [Phrase.written, String.length_toList] at hbound ⊢
    have hword := shows_word bound gap offset hp.plain hbound hrest.wordEnds
    exact ⟨_, .name _ word, readsOperand_name hword hend hcloses hp.notReserved hp.notAwait⟩
  | call callee arguments =>
    obtain ⟨hcallee, harguments⟩ := hp
    rw [Phrase.length_call] at hfits hbound
    obtain ⟨fuel, rfl⟩ : ∃ inner, fuel = inner + 2 :=
      Nat.exists_eq_add_of_le' (by have := hfits.fuel; omega)
    obtain ⟨depth, rfl, hinside⟩ := hfits.inside
      (by omega : (Phrase.allWritten char arguments).length < _)
    obtain ⟨es, hsay, hitems⟩ := Phrase.readsItems arguments harguments 0
      (offset + gap + callee.written.length + 1) rest (fun _ => rfl) hinside
    have hcount : arguments.length ≤ _ := length_le_allWritten char arguments
    exact hcallee.readsOperand_call gap offset hrest (by omega) hsay
      (by have := hfits.fuel; omega) hitems

theorem Phrase.readsItems (ps : List Phrase) (hps : Phrase.AllSayable char ps) (gap offset : Nat)
    (rest : List Char) (hgap : ps = [] → gap = 0) {bound fuel depth : Nat}
    (hfits : Fits (Phrase.allWritten char ps).length bound fuel depth) :
    ∃ es, Phrase.AllSay ps es ∧ ReadsItems dialect (fuel + 1) depth
      ⟨offset, List.replicate gap ' ' ++ (Phrase.allWritten char ps ++ ')' :: rest), bound⟩ es
      ⟨offset + gap + (Phrase.allWritten char ps).length, ')' :: rest, bound⟩ := by
  cases ps with
  | nil =>
    obtain rfl := hgap rfl
    exact ⟨[], .nil, .nil ⟨offset, rfl⟩⟩
  | cons p ps =>
    cases ps with
    | nil =>
      have hclosing : Closing (')' :: rest) := by simp [Closing]
      obtain ⟨e, hsaid, hread⟩ := Phrase.readsOperand p hps.1 gap offset hclosing hfits
      exact ⟨[e], .cons hsaid .nil, .last hread ⟨_, rfl⟩⟩
    | cons q ps =>
      have hlength : (Phrase.allWritten char (p :: q :: ps)).length =
          (p.written char).length + (Phrase.allWritten char (q :: ps)).length + 2 := by
        simp only [Phrase.allWritten, List.length_append, List.length_cons]
        omega
      rw [hlength] at hfits ⊢
      have hclosing :
          Closing (',' :: ' ' :: (Phrase.allWritten char (q :: ps) ++ ')' :: rest)) := by
        simp [Closing]
      obtain ⟨e, hsaid, hread⟩ := Phrase.readsOperand p hps.1 gap offset hclosing
        (hfits.mono (by omega))
      obtain ⟨es, hsay, hitems⟩ := Phrase.readsItems (q :: ps) hps.2 1
        (offset + gap + (p.written char).length + 1) rest (by simp) (hfits.mono (by omega))
      have hsource : Phrase.allWritten char (p :: q :: ps) ++ ')' :: rest =
          p.written char ++ ',' :: ' ' :: (Phrase.allWritten char (q :: ps) ++ ')' :: rest) := by
        simp [Phrase.allWritten]
      have hstop : offset + gap +
          ((p.written char).length + (Phrase.allWritten char (q :: ps)).length + 2) =
            offset + gap + (p.written char).length + 1 + 1 +
              (Phrase.allWritten char (q :: ps)).length := by
        omega
      rw [hsource, hstop]
      exact ⟨e :: es, .cons hsaid hsay, .cons hread ⟨_, rfl⟩ hitems⟩

end

end

end Stencil.Script
