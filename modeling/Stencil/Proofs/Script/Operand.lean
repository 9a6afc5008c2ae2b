import Stencil.Proofs.Script.Reading

/-! # Reading operands

Strings, names and calls are operands, and the arguments of a call are operands with commas between
them.  An operand is read up to the place where it ends, if what stands there goes on with none.
-/
namespace Stencil.Script

namespace Grammar

/-! ## Links -/

/-- No link is ahead, whatever the operand before it is. -/
def NoLink (r : Reader) : Prop :=
  ∀ (g : Grammar) (fuel start : Nat) (e : Expr) (chained : Bool),
    g.linksFrom true start e chained (fuel + 1) r = .ok ((e, chained), r)

theorem noLink_of_closes {r : Reader} (h : r.lexeme.token.Closes) : NoLink r := by
  intro g fuel start e chained
  obtain htoken | htoken | htoken | htoken := h.cases <;> simp [linksFrom, htoken]

section

variable {g : Grammar} {dialect : Bool} {fuel depth start : Nat} {e : Expr} {list : List Element}
  {c c₁ c₂ c₃ c₄ : Cursor} {word owner : String} {next : Token} {r : Reader}

/-- Behind a point, a word is a member. -/
theorem linksFrom_member (hpoint : c.Shows (.mark ".") c₁) (hword : c₁.Shows (.word word false) c₂)
    (hnext : c₂.Shows next c₃) :
    g.linksFrom true start e false (fuel + 1) (.facing dialect c) =
      g.linksFrom true start
        (.member ⟨start, c₂.offset⟩ e word
          ⟨(Reader.facing dialect c₁).lexeme.start, c₂.offset⟩ false)
        false fuel (.facing dialect c₂) := by
  have hpass : pass (.facing dialect c) = _ := pass_facing hpoint hword (by simp)
  have hname : passName (.facing dialect c₁) = _ := passName_facing hword hnext
  simp [linksFrom, hpoint.token_eq, hpass, memberLink, readAnyWord, hword.token_eq, hword.stop_eq,
    hname]

/-- What stands in parentheses behind an operand are the arguments of a call. -/
theorem linksFrom_call (hopen : c.Shows (.mark "(") c₁)
    (hlist : g.arguments (.facing dialect c) = .ok (list, r)) :
    g.linksFrom true start e false (fuel + 1) (.facing dialect c) =
      g.linksFrom true start (.call ⟨start, r.lastStop⟩ e list false) false fuel r := by
  simp [linksFrom, hopen.token_eq, callLink, hlist]

/-! ## Names -/

/-- A word that is not reserved is a name, unless it is an operator or another word follows it. -/
theorem primary_name (h : c.Shows (.word word false) c₁) (h' : c₁.Shows next c₂)
    (hreserved : word ∉ reservedWords) (hawait : word ≠ "await")
    (hnext : ∀ w escaped, next ≠ .word w escaped) :
    g.primary (.facing dialect c) =
      .ok (.name ⟨(Reader.facing dialect c).lexeme.start, c₁.offset⟩ word,
        .facing dialect c₁) := by
  have hpass : passName (.facing dialect c) = _ := passName_facing h h'
  have hname : readName (.facing dialect c) =
      .ok ((⟨(Reader.facing dialect c).lexeme.start, c₁.offset⟩, word), .facing dialect c₁) := by
    simp [readName, Lexeme.isName, noteOperatorName, Lexeme.isWord, Lexeme.text, h.token_eq,
      h.stop_eq, hreserved, hawait, hpass]
  have hsecond : (nextLexeme c₁).1.isWord "function" = false := by
    rw [Lexeme.isWord, h'.token_nextLexeme]
    split
    · exact absurd rfl (hnext _ _)
    · rfl
  simp only [primary, Parse.bind_apply, ahead_apply, Parse.ok_bind, h.token_eq, second_apply,
    h.cursor_eq, wordOperand]
  split
  case h_10 => simp [hsecond, hname]
  all_goals exact absurd (by decide) hreserved

/-- A call of a function with a name, where no link is behind it. -/
theorem linked_call (h : c.Shows (.word word false) c₁) (hopen : c₁.Shows (.mark "(") c₂)
    (hreserved : word ∉ reservedWords) (hawait : word ≠ "await")
    (hlist : (bounded (fuel + 2) depth).arguments (.facing dialect c₁) = .ok (list, r))
    (hlink : NoLink r) :
    (bounded (fuel + 2) depth).linked true (.facing dialect c) =
      .ok (.call ⟨(Reader.facing dialect c).lexeme.start, r.lastStop⟩
        (.name ⟨(Reader.facing dialect c).lexeme.start, c₁.offset⟩ word) list false, r) := by
  have hname : (bounded (fuel + 2) depth).primary (.facing dialect c) = _ :=
    primary_name h hopen hreserved hawait (by simp)
  have hcount : (bounded (fuel + 2) depth).fuel = fuel + 1 + 1 := rfl
  simp [linked, hname, hcount, linksFrom_call hopen hlist, hlink (bounded (fuel + 2) depth) fuel]

/-- A call of a member of something with a name, where no link is behind it. -/
theorem linked_memberCall (h : c.Shows (.word owner false) c₁) (hpoint : c₁.Shows (.mark ".") c₂)
    (hword : c₂.Shows (.word word false) c₃) (hopen : c₃.Shows (.mark "(") c₄)
    (hreserved : owner ∉ reservedWords) (hawait : owner ≠ "await")
    (hlist : (bounded (fuel + 3) depth).arguments (.facing dialect c₃) = .ok (list, r))
    (hlink : NoLink r) :
    (bounded (fuel + 3) depth).linked true (.facing dialect c) =
      .ok (.call ⟨(Reader.facing dialect c).lexeme.start, r.lastStop⟩
        (.member ⟨(Reader.facing dialect c).lexeme.start, c₃.offset⟩
          (.name ⟨(Reader.facing dialect c).lexeme.start, c₁.offset⟩ owner) word
          ⟨(Reader.facing dialect c₂).lexeme.start, c₃.offset⟩ false) list false, r) := by
  have hname : (bounded (fuel + 3) depth).primary (.facing dialect c) = _ :=
    primary_name h hpoint hreserved hawait (by simp)
  have hcount : (bounded (fuel + 3) depth).fuel = fuel + 1 + 1 + 1 := rfl
  simp [linked, hname, hcount, linksFrom_member hpoint hword hopen, linksFrom_call hopen hlist,
    hlink (bounded (fuel + 3) depth) fuel]

end

/-! ## Operands -/

/-- Behind a cursor stands an operand, which ends at another one. It begins with a token that is no
mark. -/
structure ReadsOperand (dialect : Bool) (fuel depth : Nat) (c : Cursor) (e : Expr) (c' : Cursor) :
    Prop where
  shows : ∃ token c₁, c.Shows token c₁ ∧ token ≠ .stop ∧ ∀ text, token ≠ .mark text
  begins : (Reader.facing dialect c).BeginsOperand
  linked : (bounded fuel depth).linked true (.facing dialect c) = .ok (e, .facing dialect c')

/-- Up to the mark that closes them, operands stand behind a cursor, with commas between them. -/
inductive ReadsItems (dialect : Bool) (fuel depth : Nat) : Cursor → List Expr → Cursor → Prop
  | nil {c c' : Cursor} (hclose : c.Shows (.mark ")") c') : ReadsItems dialect fuel depth c [] c
  | last {c c₁ c₂ : Cursor} {e : Expr} (h : ReadsOperand dialect fuel depth c e c₁)
      (hclose : c₁.Shows (.mark ")") c₂) : ReadsItems dialect fuel depth c [e] c₁
  | cons {c c₁ c₂ c' : Cursor} {e : Expr} {es : List Expr}
      (h : ReadsOperand dialect fuel depth c e c₁) (hcomma : c₁.Shows (.mark ",") c₂)
      (hrest : ReadsItems dialect fuel depth c₂ es c') :
      ReadsItems dialect fuel depth c (e :: es) c'

variable {dialect : Bool} {fuel depth : Nat} {c c₁ c₂ c₃ c₄ c₅ c₆ : Cursor}
  {text word owner : String} {next : Token} {e : Expr} {es : List Expr}

theorem ReadsOperand.isMark_eq (h : ReadsOperand dialect fuel depth c e c₁) (mark : String) :
    (Reader.facing dialect c).lexeme.isMark mark = false := by
  obtain ⟨token, c', hshows, -, hmark⟩ := h.shows
  rw [Lexeme.isMark, hshows.token_eq]
  split
  · exact absurd rfl (hmark _)
  · rfl

theorem ReadsItems.shows {c' : Cursor} (h : ReadsItems dialect fuel depth c es c') :
    ∃ token c₁, c.Shows token c₁ := by
  cases h with
  | nil hclose => exact ⟨_, _, hclose⟩
  | last h hclose => exact ⟨_, _, h.shows.choose_spec.choose_spec.1⟩
  | cons h hcomma hrest => exact ⟨_, _, h.shows.choose_spec.choose_spec.1⟩

theorem readsOperand_string (h : c.Shows (.string text) c₁) (h' : c₁.Shows next c₂)
    (hcloses : next.Closes) :
    ReadsOperand dialect (fuel + 1) depth c
      (.string ⟨(Reader.facing dialect c).lexeme.start, c₁.offset⟩ text) c₁ where
  shows := ⟨_, _, h, by simp⟩
  begins := Reader.beginsOperand_string h.token_eq
  linked := by
    have hpass : pass (.facing dialect c) = _ := pass_facing h h' (by simp)
    have hlinks : ∀ start e, (bounded (fuel + 1) depth).linksFrom true start e false
        (bounded (fuel + 1) depth).fuel (.facing dialect c₁) =
          .ok ((e, false), .facing dialect c₁) :=
      fun start e => noLink_of_closes (h'.token_eq.symm ▸ hcloses) _ fuel start e false
    simp [Grammar.linked, primary, h.token_eq, h.stop_eq, hpass, hlinks]

theorem readsOperand_name (h : c.Shows (.word word false) c₁) (h' : c₁.Shows next c₂)
    (hcloses : next.Closes) (hreserved : word ∉ reservedWords) (hawait : word ≠ "await") :
    ReadsOperand dialect (fuel + 1) depth c
      (.name ⟨(Reader.facing dialect c).lexeme.start, c₁.offset⟩ word) c₁ where
  shows := ⟨_, _, h, by simp⟩
  begins := by
    refine h.beginsOperand_word h' hreserved hawait ?_
    obtain rfl | rfl | rfl | rfl := hcloses.cases <;> simp
  linked := by
    have hword : ∀ w escaped, next ≠ .word w escaped := by
      obtain rfl | rfl | rfl | rfl := hcloses.cases <;> simp
    have hname : (bounded (fuel + 1) depth).primary (.facing dialect c) = _ :=
      primary_name h h' hreserved hawait hword
    have hlinks : ∀ start e, (bounded (fuel + 1) depth).linksFrom true start e false
        (bounded (fuel + 1) depth).fuel (.facing dialect c₁) =
          .ok ((e, false), .facing dialect c₁) :=
      fun start e => noLink_of_closes (h'.token_eq.symm ▸ hcloses) _ fuel start e false
    simp [Grammar.linked, hname, hlinks]

/-- A call is an operand. A call of `async` would be the beginning of a function. -/
theorem readsOperand_call {list : List Element} (h : c.Shows (.word word false) c₁)
    (hopen : c₁.Shows (.mark "(") c₂) (hreserved : word ∉ reservedWords) (hawait : word ≠ "await")
    (hasync : word ≠ "async")
    (hlist : (bounded (fuel + 2) depth).arguments (.facing dialect c₁) =
      .ok (list, .facing dialect c₃))
    (h' : c₃.Shows next c₄) (hcloses : next.Closes) :
    ReadsOperand dialect (fuel + 2) depth c
      (.call ⟨(Reader.facing dialect c).lexeme.start, c₃.offset⟩
        (.name ⟨(Reader.facing dialect c).lexeme.start, c₁.offset⟩ word) list false) c₃ where
  shows := ⟨_, _, h, by simp⟩
  begins := h.beginsOperand_word hopen hreserved hawait
    (.inr ⟨"(", rfl, fun hword => absurd hword hasync⟩)
  linked := linked_call h hopen hreserved hawait hlist
    (noLink_of_closes (h'.token_eq.symm ▸ hcloses))

theorem readsOperand_memberCall {list : List Element} (h : c.Shows (.word owner false) c₁)
    (hpoint : c₁.Shows (.mark ".") c₂) (hword : c₂.Shows (.word word false) c₃)
    (hopen : c₃.Shows (.mark "(") c₄) (hreserved : owner ∉ reservedWords)
    (hawait : owner ≠ "await")
    (hlist : (bounded (fuel + 3) depth).arguments (.facing dialect c₃) =
      .ok (list, .facing dialect c₅))
    (h' : c₅.Shows next c₆) (hcloses : next.Closes) :
    ReadsOperand dialect (fuel + 3) depth c
      (.call ⟨(Reader.facing dialect c).lexeme.start, c₅.offset⟩
        (.member ⟨(Reader.facing dialect c).lexeme.start, c₃.offset⟩
          (.name ⟨(Reader.facing dialect c).lexeme.start, c₁.offset⟩ owner) word
          ⟨(Reader.facing dialect c₂).lexeme.start, c₃.offset⟩ false) list false) c₅ where
  shows := ⟨_, _, h, by simp⟩
  begins := h.beginsOperand_word hpoint hreserved hawait (.inr ⟨".", rfl, fun _ => by simp⟩)
  linked := linked_memberCall h hpoint hword hopen hreserved hawait hlist
    (noLink_of_closes (h'.token_eq.symm ▸ hcloses))

/-! ## Arguments -/

/-- An operand is an argument that is not spread. -/
theorem ReadsOperand.spreadable (h : ReadsOperand dialect (fuel + 1) depth c e c₁)
    (h' : c₁.Shows next c₂) (hcloses : next.Closes) :
    (bounded (fuel + 1) (depth + 3)).spreadable (.facing dialect c) =
      .ok (.item e, .facing dialect c₁) := by
  have hclosed : (Reader.facing dialect c₁).lexeme.token.Closes := h'.token_eq.symm ▸ hcloses
  have hassignment : (bounded (fuel + 1) (depth + 3)).assignment (.facing dialect c) = _ :=
    assignment_eq h.begins (Reader.endsOperand_of_closes hclosed) (.inl hclosed) h.linked
  have hfull : (bounded (fuel + 1) (depth + 3)).fullAssignment (.facing dialect c) = _ :=
    within_facing rfl hassignment
  have hspread := eatMark_of_not _ (h.isMark_eq "...")
  simp [Grammar.spreadable, hspread, hfull]

/-- Arguments are read as they stand, up to the mark that closes them. -/
theorem ReadsItems.itemsFrom (h : ReadsItems dialect (fuel + 1) depth c es c₁)
    (done : List Element) (comma? : Option Nat) (count : Nat) (hcount : es.length < count) :
    ∃ last?, itemsFrom ")" (bounded (fuel + 1) (depth + 3)).spreadable done comma? count
      (.facing dialect c) = .ok ((done.reverse ++ es.map .item, last?), .facing dialect c₁) := by
  induction h generalizing done comma? count with
  | nil hclose =>
    obtain ⟨count, rfl⟩ := Nat.exists_eq_add_of_lt hcount
    refine ⟨comma?, ?_⟩
    simp [Script.itemsFrom, Lexeme.isMark, hclose.token_eq]
  | last h hclose =>
    obtain ⟨count, rfl⟩ := Nat.exists_eq_add_of_lt hcount
    have hitem := h.spreadable hclose (by simp [Token.Closes])
    refine ⟨none, ?_⟩
    rw [Script.itemsFrom, Parse.bind_apply, atMark_apply, h.isMark_eq]
    simp [hitem, Lexeme.isMark, hclose.token_eq]
  | @cons c c₁ c₂ c' e es h hcomma hrest ih =>
    obtain ⟨count, rfl⟩ := Nat.exists_eq_add_of_lt hcount
    have hitem := h.spreadable hcomma (by simp [Token.Closes])
    obtain ⟨token, c₃, hnext⟩ := hrest.shows
    have hover : expectMark "," (.facing dialect c₁) = _ := expectMark_facing hcomma hnext
    obtain ⟨last?, hlast⟩ := ih (.item e :: done)
      (some (Reader.facing dialect c₁).lexeme.start) (es.length + 1 + count)
      (by omega)
    refine ⟨last?, ?_⟩
    rw [Script.itemsFrom, Parse.bind_apply, atMark_apply, h.isMark_eq]
    simp [hitem, Lexeme.isMark, hcomma.token_eq, hover, hlast]

/-- The arguments of a call. -/
theorem ReadsItems.arguments (h : ReadsItems dialect (fuel + 1) depth c₁ es c₂)
    (hopen : c.Shows (.mark "(") c₁) (hclose : c₂.Shows (.mark ")") c₃) (hend : c₃.Shows next c₄)
    (hcount : es.length ≤ fuel) :
    (bounded (fuel + 1) (depth + 3)).arguments (.facing dialect c) =
      .ok (es.map .item, .facing dialect c₃) := by
  obtain ⟨token, c', hfirst⟩ := h.shows
  have hpass : expectMark "(" (.facing dialect c) = _ := expectMark_facing hopen hfirst
  have hover : expectMark ")" (.facing dialect c₂) = _ := expectMark_facing hclose hend
  obtain ⟨last?, hlast⟩ := h.itemsFrom [] none (fuel + 1) (Nat.lt_succ_of_le hcount)
  have hitems : (bounded (fuel + 1) (depth + 3)).items ")"
      (bounded (fuel + 1) (depth + 3)).spreadable (.facing dialect c₁) =
        .ok (es.map .item, .facing dialect c₃) := by
    have hcount : (bounded (fuel + 1) (depth + 3)).fuel = fuel + 1 := rfl
    simp [items, itemsAndComma, hcount, hlast, hover]
  have hsettings : insideSettings (.facing dialect c₁) = .facing dialect c₁ := rfl
  have hinside := within_facing hsettings hitems
  simp [Grammar.arguments, hpass, hinside]

end Grammar

end Stencil.Script
