import Mathlib.Data.List.Forall2
import Stencil.Proofs.Include.Static
import Stencil.Proofs.Path
import Stencil.Proofs.Script.Sentence
import Stencil.Proofs.Template.Arguments

/-! # Requests and joins

A directive joins the texts of its arguments, and a call inside of an argument joins those of its
own.  Since joining segments is associative, the request of a directive only depends on the texts
that its arguments come down to, in their order: how joins are nested in each other does not matter.
This is so for every argument that has a text, and in particular for the directives that are spelled
with string literals and calls of the functions that join.
-/
namespace Stencil.Include
open Script
open Template (Balanced Quoted splitArguments)

/-! ## Expressions that join -/

mutual

/-- What an expression joins: the texts that its parts join if it is a call of a function that
joins, or nothing but its own text. -/
inductive Joins : Expr → List String → Prop
  | text {e : Expr} {text : String} (h : StaticExpr e text) : Joins e [text]
  | call (span : Span) {callee : Expr} {arguments : List Element} {texts : List String}
    (hcallee : JoinCallee callee) (harguments : JoinsAll arguments texts) :
    Joins (.call span callee arguments false) texts

/-- What arguments join, one behind the other. -/
inductive JoinsAll : List Element → List String → Prop
  | nil : JoinsAll [] []
  | cons {e : Expr} {rest : List Element} {texts more : List String} (hitem : Joins e texts)
    (hrest : JoinsAll rest more) : JoinsAll (.item e :: rest) (texts ++ more)

end

mutual

/-- **An expression has the path as its text that all it joins is joined to.** -/
theorem Joins.staticExpr {e : Expr} {texts : List String} (h : Joins e texts) :
    StaticExpr e (Path.joinSegments texts) := by
  cases h with
  | text htext =>
    rw [Path.joinSegments_singleton]
    exact htext
  | call span hcallee harguments =>
    obtain ⟨groups, hgroups, hsegments⟩ := harguments.staticArguments
    rw [hsegments, Path.joinSegments_flatten]
    exact .join span hcallee hgroups

/-- The arguments of a call have the texts that groups of what they join are joined to. -/
theorem JoinsAll.staticArguments {arguments : List Element} {texts : List String}
    (h : JoinsAll arguments texts) : ∃ groups : List (List String),
      StaticArguments arguments (groups.map Path.joinSegments) ∧ texts = groups.flatten := by
  cases h with
  | nil => exact ⟨[], .nil, rfl⟩
  | @cons e rest first more hitem hrest =>
    obtain ⟨groups, hgroups, rfl⟩ := hrest.staticArguments
    exact ⟨first :: groups, .cons hitem.staticExpr hgroups, rfl⟩

end

/-- An argument joins texts if it says an expression that joins them. -/
def ArgumentJoins (argument : String) (texts : List String) : Prop :=
  ∃ e, readExpression (trimText argument) = .ok e ∧ Joins e texts

theorem ArgumentJoins.argumentText_eq {argument : String} {texts : List String}
    (h : ArgumentJoins argument texts) :
    argumentText argument = .ok (Path.joinSegments texts) := by
  obtain ⟨e, hread, hjoins⟩ := h
  exact ((judges_of_ok hread).accepts _).mpr ⟨e, rfl, hjoins.staticExpr⟩

/-- **The request of a directive is the path that everything its arguments join is joined to.** -/
theorem request_of_joins {arguments : List String} {groups : List (List String)}
    (h : List.Forall₂ ArgumentJoins arguments groups) :
    request arguments = .ok (Path.joinSegments groups.flatten) := by
  have hsegments : arguments.mapM argumentText = .ok (groups.map Path.joinSegments) := by
    induction h with
    | nil => rfl
    | cons hargument _ ih =>
      rw [List.mapM_cons, hargument.argumentText_eq, ih]
      rfl
  rw [request, hsegments, Path.joinSegments_flatten]
  rfl

/-! ## Directives that are spelled with literals -/

/-- The ways to spell a function that joins. -/
inductive JoinName
  | plain
  | path
  | posix

/-- What is called. -/
def JoinName.callee : JoinName → Callee
  | .plain => .name "join"
  | .path => .member "path" "join"
  | .posix => .member "posix" "join"

theorem JoinName.sayable (function : JoinName) : function.callee.Sayable := by
  cases function with
  | plain => exact .name ⟨by decide, by decide, by decide⟩ (by decide)
  | path | posix => exact .member ⟨by decide, by decide, by decide⟩ (by decide)

theorem JoinName.joinCallee {function : JoinName} {e : Expr} (h : function.callee.Says e) :
    JoinCallee e := by
  cases function with
  | plain =>
    cases h with
    | name span => exact .name span
  | path | posix =>
    cases h with
    | member span ownerSpan nameSpan => exact .member span ownerSpan nameSpan (by decide)

/-- An argument that is spelled with string literals and calls of functions that join. -/
inductive PathArgument
  | literal (mark : QuoteMark) (text : String)
  | join (function : JoinName) (parts : List PathArgument)

namespace PathArgument

mutual

/-- The argument as a phrase. -/
def phrase : PathArgument → Phrase
  | literal mark text => .literal mark text
  | join function parts => .call function.callee (phrases parts)

/-- `phrase` of every argument. -/
def phrases : List PathArgument → List Phrase
  | [] => []
  | a :: rest => phrase a :: phrases rest

end

mutual

/-- The texts that an argument comes down to. -/
def texts : PathArgument → List String
  | literal _ text => [text]
  | join _ parts => allTexts parts

/-- The texts of arguments, one behind the other. -/
def allTexts : List PathArgument → List String
  | [] => []
  | a :: rest => texts a ++ allTexts rest

end

/-- What is written for an argument in a directive. -/
def written (a : PathArgument) : List Char := a.phrase.written scriptChar

/-- What is written for arguments in a directive, with commas between them. -/
def directiveText (args : List PathArgument) : String :=
  .ofList (Phrase.allWritten scriptChar (phrases args))

mutual

theorem sayable (a : PathArgument) : a.phrase.Sayable scriptChar := by
  cases a with
  | literal mark text => exact readsBack_scriptChar mark
  | join function parts => exact ⟨function.sayable, allSayable parts⟩

theorem allSayable (args : List PathArgument) : Phrase.AllSayable scriptChar (phrases args) := by
  cases args with
  | nil => trivial
  | cons a rest => exact ⟨sayable a, allSayable rest⟩

end

mutual

/-- What says an argument joins the texts that the argument comes down to. -/
theorem joins (a : PathArgument) {e : Expr} (h : a.phrase.Says e) : Joins e a.texts := by
  cases a with
  | literal mark text =>
    cases h with
    | literal _ span => exact .text (.string span text)
  | join function parts =>
    cases h with
    | call span hcallee harguments =>
      exact .call span (JoinName.joinCallee hcallee) (joinsAll parts harguments)

theorem joinsAll (args : List PathArgument) {es : List Expr} (h : Phrase.AllSay (phrases args) es) :
    JoinsAll (es.map .item) (allTexts args) := by
  cases args with
  | nil =>
    cases h
    exact .nil
  | cons a rest =>
    cases h with
    | cons hfirst hrest => exact .cons (joins a hfirst) (joinsAll rest hrest)

end

/-! ### What is written -/

theorem exists_quoted (mark : QuoteMark) (cs : List Char) :
    ∃ inside : List (Quoted mark.char), cs.flatMap scriptChar = inside.flatMap Quoted.text := by
  have hchar (c : Char) : ∃ q : Quoted mark.char, scriptChar c = q.text := by
    unfold scriptChar
    split
    case h_10 =>
      refine ⟨.plain c ⟨?_, ‹c = '\\' → False›⟩, rfl⟩
      cases mark with
      | single => exact ‹c = '\'' → False›
      | double => exact ‹c = '"' → False›
    all_goals exact ⟨.escaped _, rfl⟩
  induction cs with
  | nil => exact ⟨[], rfl⟩
  | cons c cs ih =>
    obtain ⟨q, hq⟩ := hchar c
    obtain ⟨inside, hinside⟩ := ih
    exact ⟨q :: inside, by rw [List.flatMap_cons, List.flatMap_cons, hq, hinside]⟩

theorem balanced_of_plain {cs : List Char}
    (h : cs.all fun c => !(Template.isQuote c || Template.opensBracket c ||
      Template.closesBracket c || c == ',')) : Balanced false cs := by
  induction cs with
  | nil => exact .nil
  | cons c cs ih =>
    simp only [List.all_cons, Bool.and_eq_true, Bool.not_eq_true', Bool.or_eq_false_iff] at h
    obtain ⟨⟨⟨⟨hquote, hopens⟩, hcloses⟩, hcomma⟩, hcs⟩ := h
    exact .char hquote hopens hcloses (fun hc => absurd hc (beq_eq_false_iff_ne.mp hcomma)) (ih hcs)

mutual

theorem balanced (a : PathArgument) : Balanced false a.written := by
  cases a with
  | literal mark text =>
    obtain ⟨inside, hinside⟩ := exists_quoted mark text.toList
    have hquote : Template.isQuote mark.char = true := by cases mark <;> rfl
    rw [written, phrase, Phrase.written, hinside]
    exact .quoted mark.char hquote inside .nil
  | join function parts =>
    have hcallee : Balanced false function.callee.written := by
      cases function <;> exact balanced_of_plain (by decide)
    exact hcallee.append (.group .round (balanced_all parts) .nil)

theorem balanced_all (args : List PathArgument) :
    Balanced true (Phrase.allWritten scriptChar (phrases args)) := by
  cases args with
  | nil => exact .nil
  | cons a rest =>
    cases rest with
    | nil => exact (balanced a).withCommas
    | cons b rest =>
      have hbehind : Balanced true (' ' :: Phrase.allWritten scriptChar (phrases (b :: rest))) :=
        .char rfl rfl rfl (by decide) (balanced_all (b :: rest))
      exact (balanced a).withCommas.append (.char rfl rfl rfl (fun _ => rfl) hbehind)

end

/-- What is written for an argument begins and ends with something. -/
theorem exists_ends (a : PathArgument) : ∃ c cs d, a.written = c :: (cs ++ [d]) ∧
    isBlank c = false ∧ isBlank d = false := by
  cases a with
  | literal mark text => exact ⟨mark.char, _, mark.char, rfl, by cases mark <;> decide⟩
  | join function parts =>
    have hends (c : Char) (cs : List Char) : c :: cs ++ '(' ::
        (Phrase.allWritten scriptChar (phrases parts) ++ [')']) =
          c :: (cs ++ '(' :: Phrase.allWritten scriptChar (phrases parts) ++ [')']) := by
      simp
    cases function with
    | plain => exact ⟨_, _, _, hends 'j' "oin".toList, by decide⟩
    | path => exact ⟨_, _, _, hends 'p' "ath.join".toList, by decide⟩
    | posix => exact ⟨_, _, _, hends 'p' "osix.join".toList, by decide⟩

theorem exists_not_blank (a : PathArgument) : ∃ c ∈ a.written, isBlank c = false := by
  obtain ⟨c, cs, d, hwritten, hc, -⟩ := a.exists_ends
  exact ⟨c, by simp [hwritten], hc⟩

theorem trimChars_written (a : PathArgument) :
    trimChars a.written = a.written ∧ trimChars (' ' :: a.written) = a.written := by
  obtain ⟨c, cs, d, hwritten, hc, hd⟩ := a.exists_ends
  have hblank : isBlank ' ' = true := by decide
  rw [hwritten]
  simp [trimChars, trimCharsEnd, hc, hd, hblank]

/-- An argument joins the texts that it comes down to. -/
theorem argumentJoins (a : PathArgument) : ArgumentJoins (.ofList a.written) a.texts := by
  obtain ⟨e, hsaid, hread⟩ := readExpression_phrase a.sayable
  refine ⟨e, ?_, a.joins hsaid⟩
  rw [trimText, String.toList_ofList, a.trimChars_written.1]
  exact hread

/-! ### Directives -/

theorem allWritten_cons (a : PathArgument) (rest : List PathArgument) :
    Phrase.allWritten scriptChar (phrases (a :: rest)) =
      [','].intercalate (a.written :: rest.map fun b => ' ' :: b.written) := by
  induction rest generalizing a with
  | nil => simp [phrases, Phrase.allWritten, written]
  | cons b rest ih =>
    have hspace (cs : List Char) (list : List (List Char)) :
        [','].intercalate ((' ' :: cs) :: list) = ' ' :: [','].intercalate (cs :: list) := by
      cases list <;> simp
    have hrest := ih b
    rw [phrases] at hrest
    rw [phrases, phrases, Phrase.allWritten, hrest, List.map_cons, List.intercalate_cons_cons,
      hspace, List.append_assoc]
    rfl

/-- The arguments of a directive are found in its text. -/
theorem splitArguments_directiveText (args : List PathArgument) :
    splitArguments (directiveText args) = args.map fun a => .ofList a.written := by
  cases args with
  | nil => rfl
  | cons a rest =>
    have hbalanced : ∀ cs ∈ a.written :: rest.map fun b => ' ' :: b.written,
        (∃ c ∈ cs, isBlank c = false) ∧ Balanced false cs := by
      rw [List.forall_mem_cons, List.forall_mem_map]
      refine ⟨⟨a.exists_not_blank, a.balanced⟩, fun b _ => ⟨?_, ?_⟩⟩
      · obtain ⟨c, hc, hblank⟩ := b.exists_not_blank
        exact ⟨c, List.mem_cons_of_mem _ hc, hblank⟩
      · exact .char rfl rfl rfl (by decide) b.balanced
    rw [directiveText, allWritten_cons, Template.splitArguments_balanced (by simp) hbalanced]
    simp [trimChars_written]

/-- **The request of a directive only depends on the texts that its arguments come down to.** -/
theorem request_directiveText (args : List PathArgument) :
    request (splitArguments (directiveText args)) = .ok (Path.joinSegments (allTexts args)) := by
  have hgroups : (args.map texts).flatten = allTexts args := by
    induction args with
    | nil => rfl
    | cons a rest ih => rw [List.map_cons, List.flatten_cons, ih, allTexts]
  rw [splitArguments_directiveText, ← hgroups]
  refine request_of_joins ?_
  rw [List.forall₂_map_left_iff, List.forall₂_map_right_iff, List.forall₂_same]
  exact fun a _ => a.argumentJoins

end PathArgument

/-! ## Grouping -/

/-- A string literal of a text. -/
def literalOf (mark : QuoteMark) (text : String) : String :=
  String.singleton mark.char ++ escapeScript text ++ String.singleton mark.char

/-- How segments are joined, and what requests make of it. -/
structure JoinsAlike : Prop where
  /-- Two lists of segments can be joined one by one. -/
  append (xs ys : List String) : Path.joinSegments (xs ++ ys) =
    Path.joinSegments [Path.joinSegments xs, Path.joinSegments ys]
  /-- An empty segment adds nothing. -/
  empty (s : String) : Path.joinSegments [] = "" ∧ Path.joinSegments ["", s] = s ∧
    Path.joinSegments [s, ""] = s
  /-- The request of any arguments that have texts is the path of all that they join. -/
  joined (arguments : List String) (groups : List (List String)) :
    List.Forall₂ ArgumentJoins arguments groups →
      request arguments = .ok (Path.joinSegments groups.flatten)
  /-- The request of a directive with literals and joins, nested as they may be, is the path of the
  texts in the literals. -/
  nested (args : List PathArgument) :
    request (splitArguments (PathArgument.directiveText args)) =
      .ok (Path.joinSegments (PathArgument.allTexts args))
  /-- Three texts make the same request as arguments of their own and joined in either way. -/
  grouped (mark : QuoteMark) (a b c : String) :
    let first := literalOf mark a
    let second := literalOf mark b
    let third := literalOf mark c
    ∀ directive ∈ [first ++ ", " ++ second ++ ", " ++ third,
        "join(" ++ first ++ ", " ++ second ++ "), " ++ third,
        first ++ ", path.join(" ++ second ++ ", " ++ third ++ ")"],
      request (splitArguments directive) = .ok (Path.joinSegments [a, b, c])

/-- **Joining is associative, and a request does not depend on how joins are nested.** -/
theorem requests_join_alike : JoinsAlike where
  append := Path.joinSegments_append
  empty s := by simp [Path.joinSegments, Path.nil_appendSegment, Path.appendSegment_nil]
  joined _ _ := request_of_joins
  nested := PathArgument.request_directiveText
  grouped mark a b c := by
    intro first second third directive hdirective
    have hspelled (args : List PathArgument) (htexts : PathArgument.allTexts args = [a, b, c])
        (h : directive = PathArgument.directiveText args) :
        request (splitArguments directive) = .ok (Path.joinSegments [a, b, c]) := by
      rw [h, PathArgument.request_directiveText, htexts]
    simp only [List.mem_cons, List.not_mem_nil, or_false] at hdirective
    obtain rfl | rfl | rfl := hdirective
    on_goal 1 => refine hspelled [.literal mark a, .literal mark b, .literal mark c] rfl ?_
    on_goal 2 => refine hspelled [.join .plain [.literal mark a, .literal mark b],
      .literal mark c] rfl ?_
    on_goal 3 => refine hspelled [.literal mark a,
      .join .path [.literal mark b, .literal mark c]] rfl ?_
    all_goals simp [first, second, third, literalOf, escapeScript, PathArgument.directiveText,
      PathArgument.phrases, PathArgument.phrase, JoinName.callee, Callee.written,
      Phrase.allWritten, Phrase.written, ← String.toList_inj]

end Stencil.Include
