import Stencil.Proofs.Template.Balanced
import Stencil.Proofs.Template.Roundtrip

/-! # The arguments of a directive

Where a directive ends is found by the reader of a region; what its arguments are is found behind
the scanner, by another reader.  Both count brackets outside of quoted texts.  What the second one
finds are the parts of a text between the commas outside of quoted texts and brackets, without the
white space around them; only a text of nothing but white space has no arguments, in place of a
blank one.  The two agree on balanced arguments: the first one reads all of them and stops at the
parenthesis behind them, and the second one stops at the commas between them and nowhere else.
-/
namespace Stencil.Template

variable {cs ds rest : List Char} {l l' : Level}

/-! ## Reading to the parenthesis -/

/-- In a text that begins at a place of the given kind, the closer is only found in quoted texts. -/
def HidesCloser (quoting : Quoting) (cs : List Char) : Prop :=
  ∀ pre post, cs = pre ++ Syntax.default.closer.toList ++ post →
    pre.foldl Quoting.step quoting ≠ .outside

namespace HidesCloser

variable {quoting : Quoting}

theorem tail {c : Char} (h : HidesCloser quoting (c :: cs)) : HidesCloser (quoting.step c) cs :=
  fun pre post hcs => h (c :: pre) post (by rw [hcs]; rfl)

theorem nil : HidesCloser quoting [] := fun pre post hcs => by
  simp [toList_closer_default] at hcs

theorem cons {c : Char} (hc : c ≠ '?') (h : HidesCloser (quoting.step c) cs) :
    HidesCloser quoting (c :: cs) := by
  intro pre post hcs
  cases pre with
  | nil => exact absurd (List.cons.inj hcs).1 hc
  | cons p pre =>
    obtain ⟨rfl, hbehind⟩ := List.cons.inj hcs
    exact h pre post hbehind

/-- The closer does not begin outside of quoted texts if it does not begin at the end either. -/
theorem not_prefix {c : Char} (h : HidesCloser .outside (c :: cs)) (hrest : rest.head? ≠ some '>') :
    ¬ ['?', '>'] <+: c :: (cs ++ rest) := by
  rintro ⟨post, hpost⟩
  obtain ⟨rfl, hbehind⟩ := List.cons.inj hpost
  cases cs with
  | nil =>
    obtain rfl : '>' :: post = rest := hbehind
    exact hrest rfl
  | cons b cs =>
    obtain ⟨rfl, -⟩ := List.cons.inj hbehind
    exact h [] cs rfl rfl

theorem append (h : HidesCloser quoting cs)
    (h' : HidesCloser (cs.foldl Quoting.step quoting) ds) (hds : ds.head? ≠ some '>') :
    HidesCloser quoting (cs ++ ds) := by
  induction cs generalizing quoting with
  | nil => exact h'
  | cons c cs ih =>
    intro pre post hsplit
    cases pre with
    | nil =>
      rintro rfl
      exact h.not_prefix hds ⟨post, hsplit.symm⟩
    | cons p pre =>
      obtain ⟨rfl, hbehind⟩ := List.cons.inj hsplit
      exact ih h.tail h' pre post hbehind

end HidesCloser

/-- A reader of arguments passes a text on whose way no parenthesis closes nothing. -/
theorem readArguments_pass (hleads : Level.Leads ')' l cs l')
    (hcloser : HidesCloser l.quoting cs) (hrest : rest.head? ≠ some '>') (done : List Char) :
    readArguments ['?', '>'] l.quoting l.depth done (cs ++ rest) =
      readArguments ['?', '>'] l'.quoting l'.depth (cs.reverse ++ done) rest := by
  induction cs generalizing l done with
  | nil =>
    obtain rfl : l = l' := hleads
    rfl
  | cons c cs ih =>
    obtain ⟨htop, hleads⟩ := hleads
    have hread := ih hleads hcloser.tail (c :: done)
    rw [List.reverse_cons, List.append_assoc, List.singleton_append, ← hread, List.cons_append,
      readArguments]
    obtain ⟨quoting, depth⟩ := l
    by_cases hquoting : quoting = .outside
    · -- neither the closer nor the parenthesis of the directive stands here
      subst hquoting
      have hclose : ¬ ['?', '>'].isPrefixOf (c :: (cs ++ rest)) = true := fun hprefix =>
        hcloser.not_prefix hrest (List.isPrefixOf_iff_prefix.mp hprefix)
      have hend : ¬ (c == ')' && depth == 0) = true := by
        rw [Bool.and_eq_true, beq_iff_eq, beq_iff_eq]
        rintro ⟨hc, rfl⟩
        exact htop rfl hc
      rw [if_pos rfl, if_neg hclose, if_neg hend]
      rfl
    · rw [if_neg hquoting]
      simp [Level.step, hquoting]

/-! ## Splitting at commas -/

/-- A splitter stops at a comma at the top, and passes every other character. -/
theorem splitArgumentsFrom_cons (l : Level) (c : Char) (current : List Char)
    (done : List (List Char)) (cs : List Char) :
    splitArgumentsFrom l.quoting l.depth current done (c :: cs) =
      if l = .top ∧ c = ',' then
        splitArgumentsFrom .outside 0 [] (trimChars current.reverse :: done) cs
      else splitArgumentsFrom (l.step c).quoting (l.step c).depth (c :: current) done cs := by
  obtain ⟨quoting, depth⟩ := l
  rw [splitArgumentsFrom]
  by_cases hquoting : quoting = .outside
  · subst hquoting
    by_cases hdepth : depth = 0 <;> simp [Level.top, Level.step, hdepth]
  · simp [Level.top, Level.step, hquoting]

/-- A splitter of arguments passes a text on whose way there is no comma outside of brackets. -/
theorem splitArgumentsFrom_pass (hleads : Level.Leads ',' l cs l') (current : List Char)
    (done : List (List Char)) (rest : List Char) :
    splitArgumentsFrom l.quoting l.depth current done (cs ++ rest) =
      splitArgumentsFrom l'.quoting l'.depth (cs.reverse ++ current) done rest := by
  induction cs generalizing l current with
  | nil =>
    obtain rfl : l = l' := hleads
    rfl
  | cons c cs ih =>
    obtain ⟨htop, hleads⟩ := hleads
    have hcomma : ¬ (l = .top ∧ c = ',') := fun h => htop h.1 h.2
    rw [List.cons_append, splitArgumentsFrom_cons, if_neg hcomma, ih hleads, List.reverse_cons,
      List.append_assoc, List.singleton_append]

/-! ## Texts with commas -/

theorem mem_dropWhile {p : Char → Bool} {c : Char} (hc : c ∈ cs) (hp : p c = false) :
    c ∈ cs.dropWhile p := by
  rw [← List.takeWhile_append_dropWhile (p := p) (l := cs), List.mem_append] at hc
  refine hc.resolve_left fun htaken => ?_
  rw [List.mem_takeWhile_imp htaken] at hp
  cases hp

/-- Trimming keeps what is no white space. -/
theorem mem_trimChars {c : Char} (hc : c ∈ cs) (hblank : isBlank c = false) : c ∈ trimChars cs := by
  have hfront : c ∈ (cs.dropWhile isBlank).reverse :=
    List.mem_reverse.mpr (mem_dropWhile hc hblank)
  exact List.mem_reverse.mpr (mem_dropWhile hfront hblank)

/-- A text has nothing but white space. -/
def Blank (cs : List Char) : Prop := ∀ c ∈ cs, isBlank c = true

instance (cs : List Char) : Decidable (Blank cs) := List.decidableBAll _ cs

instance Level.decidableLeads (stop : Char) :
    (l : Level) → (cs : List Char) → (l' : Level) → Decidable (Leads stop l cs l')
  | l, [], l' => inferInstanceAs (Decidable (l = l'))
  | l, c :: cs, l' =>
    have := decidableLeads stop (l.step c) cs l'
    inferInstanceAs (Decidable ((l = top → c ≠ stop) ∧ Leads stop (l.step c) cs l'))

/-- A text consists of parts, with a comma outside of quoted texts and brackets between any two of
them and no such comma in any. -/
inductive Separated : List Char → List (List Char) → Prop
  | last {cs : List Char} {l : Level} (h : Level.Leads ',' .top cs l) : Separated cs [cs]
  | cons {part cs : List Char} {parts : List (List Char)} (h : Level.Leads ',' .top part .top)
    (hrest : Separated cs parts) : Separated (part ++ ',' :: cs) (part :: parts)

/-- A text has a character at the top, or leads to its end without it. -/
theorem Level.leads_or_exists (stop : Char) (l : Level) (cs : List Char) :
    (∃ l', Leads stop l cs l') ∨
      ∃ front back, cs = front ++ stop :: back ∧ Leads stop l front .top := by
  induction cs generalizing l with
  | nil => exact .inl ⟨l, rfl⟩
  | cons c cs ih =>
    by_cases hstop : l = .top ∧ c = stop
    · obtain ⟨rfl, rfl⟩ := hstop
      exact .inr ⟨[], cs, rfl, rfl⟩
    · have hpasses : l = .top → c ≠ stop := fun htop hc => hstop ⟨htop, hc⟩
      rcases ih (l.step c) with ⟨l', hleads⟩ | ⟨front, back, rfl, hleads⟩
      · exact .inl ⟨l', hpasses, hleads⟩
      · exact .inr ⟨c :: front, back, rfl, hpasses, hleads⟩

/-- Every text can be taken apart. -/
theorem exists_separated (cs : List Char) : ∃ parts, Separated cs parts := by
  induction hlength : cs.length using Nat.strong_induction_on generalizing cs with
  | _ n ih =>
    rcases Level.leads_or_exists ',' .top cs with ⟨l, hleads⟩ | ⟨part, rest, rfl, hleads⟩
    · exact ⟨[cs], .last hleads⟩
    · obtain ⟨parts, hrest⟩ := ih rest.length (by simp [← hlength]; omega) rest rfl
      exact ⟨part :: parts, .cons hleads hrest⟩

theorem trimChars_eq_nil {cs : List Char} : trimChars cs = [] ↔ Blank cs := by
  constructor
  · intro hnil c hc
    by_contra hblank
    have hmem := mem_trimChars hc (by simpa using hblank)
    rw [hnil] at hmem
    cases hmem
  · intro hblank
    have hfront : cs.dropWhile isBlank = [] := List.dropWhile_eq_nil_iff.mpr hblank
    rw [trimChars, hfront]
    rfl

namespace Separated

variable {cs : List Char} {parts : List (List Char)}

/-- Behind an argument the parts of a text are arguments, whatever they are. -/
theorem splitArgumentsFrom_eq (h : Separated cs parts) {done : List (List Char)}
    (hdone : done ≠ []) :
    splitArgumentsFrom .outside 0 [] done cs = done.reverse ++ parts.map trimChars := by
  induction h generalizing done with
  | @last cs l hleads =>
    have hpass := splitArgumentsFrom_pass hleads [] done []
    rw [List.append_nil] at hpass
    exact hpass.trans (by simp [splitArgumentsFrom, hdone])
  | @cons part cs parts hleads _ ih =>
    have hpass := splitArgumentsFrom_pass hleads [] done (',' :: cs)
    refine hpass.trans ?_
    rw [splitArgumentsFrom_cons, if_pos ⟨rfl, rfl⟩, ih (List.cons_ne_nil _ _)]
    simp

/-- **The arguments of a text are its parts, without the white space around them.**  A blank text
has no arguments. -/
theorem splitArguments_eq {text : String} (h : Separated text.toList parts) :
    splitArguments text =
      if Blank text.toList then [] else parts.map fun part => .ofList (trimChars part) := by
  unfold splitArguments
  generalize text.toList = cs at h
  cases h with
  | @last _ l hleads =>
    have hpass := splitArgumentsFrom_pass hleads [] [] []
    rw [List.append_nil] at hpass
    have hlast : splitArgumentsFrom .outside 0 [] [] cs =
        if trimChars cs = [] then [] else [trimChars cs] :=
      hpass.trans (by simp [splitArgumentsFrom])
    rw [hlast]
    by_cases hblank : Blank cs
    · rw [if_pos (trimChars_eq_nil.mpr hblank), if_pos hblank]
      rfl
    · rw [if_neg (mt trimChars_eq_nil.mp hblank), if_neg hblank]
      rfl
  | @cons part cs parts hleads hrest =>
    have hcomma : ¬ Blank (part ++ ',' :: cs) := fun hblank => by
      have hmem := hblank ',' (by simp)
      cases hmem
    have hpass := splitArgumentsFrom_pass hleads [] [] (',' :: cs)
    rw [if_neg hcomma]
    refine (congrArg _ hpass).trans ?_
    rw [splitArgumentsFrom_cons, if_pos ⟨rfl, rfl⟩, hrest.splitArgumentsFrom_eq (by simp)]
    simp

/-- One of the arguments is blank if one of the parts is, and not all of the text. -/
theorem empty_mem_splitArguments {text : String} (h : Separated text.toList parts) :
    "" ∈ splitArguments text ↔ (∃ part ∈ parts, Blank part) ∧ ¬ Blank text.toList := by
  rw [h.splitArguments_eq]
  by_cases hblank : Blank text.toList
  · simp [hblank]
  · simp [hblank, trimChars_eq_nil]

end Separated

/-! ## Arguments -/

/-- A text that can stand for an argument: it has more than white space, is balanced without commas,
and has the closer in quoted texts alone. -/
structure IsArgument (cs : List Char) : Prop where
  notBlank : ∃ c ∈ cs, isBlank c = false
  balanced : Balanced false cs
  closer : HidesCloser .outside cs

/-- With commas between them, arguments have the closer in quoted texts alone. -/
theorem hidesCloser_intercalate {args : List (List Char)} (h : ∀ cs ∈ args, IsArgument cs) :
    HidesCloser .outside ([','].intercalate args) := by
  induction args with
  | nil => exact .nil
  | cons cs args ih =>
    obtain ⟨hfirst, hrest⟩ := List.forall_mem_cons.mp h
    cases args with
    | nil => simpa using hfirst.closer
    | cons ds args =>
      -- the next argument may begin with the end of a closer, but the comma is no beginning of one
      have hquoting := (hfirst.balanced.leads ',' 0 fun _ => .inr ⟨rfl, rfl⟩).foldl_quoting
      rw [List.intercalate_cons_cons, List.append_assoc, List.singleton_append]
      refine hfirst.closer.append ?_ (by simp)
      rw [hquoting]
      exact .cons (by decide) (ih hrest)

/-- Balanced arguments with commas between them are read up to the parenthesis behind them. -/
theorem readArguments_intercalate {args : List (List Char)} (h : ∀ cs ∈ args, IsArgument cs)
    (behind : List Char) :
    readArguments ['?', '>'] .outside 0 [] ([','].intercalate args ++ ')' :: behind) =
      ⟨[','].intercalate args, true, behind⟩ := by
  have hbalanced : Balanced true ([','].intercalate args) :=
    .intercalate fun cs hcs => (h cs hcs).balanced
  have hleads := hbalanced.leads ')' 0 fun _ => .inl rfl
  rw [readArguments_pass hleads (hidesCloser_intercalate h) (by simp)]
  simp [readArguments]

/-- Balanced texts with commas between them have just these commas outside of brackets. -/
theorem Separated.of_balanced {args : List (List Char)} (hne : args ≠ [])
    (h : ∀ cs ∈ args, Balanced false cs) : Separated ([','].intercalate args) args := by
  induction args with
  | nil => exact absurd rfl hne
  | cons cs args ih =>
    obtain ⟨hfirst, hrest⟩ := List.forall_mem_cons.mp h
    have hleads := hfirst.leads ',' 0 fun _ => .inr ⟨rfl, rfl⟩
    cases args with
    | nil =>
      rw [List.intercalate_singleton]
      exact .last hleads
    | cons ds args =>
      rw [List.intercalate_cons_cons, List.append_assoc]
      exact .cons hleads (ih (List.cons_ne_nil ds args) hrest)

theorem splitArguments_balanced {args : List (List Char)} (hne : args ≠ [])
    (h : ∀ cs ∈ args, (∃ c ∈ cs, isBlank c = false) ∧ Balanced false cs) :
    splitArguments (.ofList ([','].intercalate args)) =
      args.map fun cs => .ofList (trimChars cs) := by
  have hparts := Separated.of_balanced hne fun cs hcs => (h cs hcs).2
  rw [← String.toList_ofList (l := [','].intercalate args)] at hparts
  rw [hparts.splitArguments_eq, if_neg]
  rw [String.toList_ofList]
  intro hall
  obtain ⟨cs, rest, rfl⟩ := List.exists_cons_of_ne_nil hne
  obtain ⟨c, hc, hblank⟩ := (h cs List.mem_cons_self).1
  have hmem : c ∈ [','].intercalate (cs :: rest) := by
    cases rest with
    | nil => simpa using hc
    | cons ds rest => simp [List.intercalate_cons_cons, hc]
  rw [hall c hmem] at hblank
  cases hblank

theorem toList_commas (args : List String) :
    (",".intercalate args).toList = [','].intercalate (args.map String.toList) := by
  rw [String.toList_intercalate]
  rfl

theorem splitArguments_intercalate {args : List String} (hne : args ≠ [])
    (h : ∀ a ∈ args, IsArgument a.toList) :
    splitArguments (",".intercalate args) = args.map trimText := by
  have hlists : ∀ cs ∈ args.map String.toList,
      (∃ c ∈ cs, isBlank c = false) ∧ Balanced false cs := by
    intro cs hcs
    obtain ⟨a, ha, rfl⟩ := List.mem_map.mp hcs
    exact ⟨(h a ha).notBlank, (h a ha).balanced⟩
  have hsplit := splitArguments_balanced (by simpa using hne) hlists
  rw [← toList_commas, String.ofList_toList] at hsplit
  rw [hsplit]
  simp [trimText, Function.comp_def]

/-! ## Templates with a directive -/

/-- The template whose only region is a block with a directive. -/
def directiveTemplate (args : List String) : String :=
  "<?exp include(" ++ ",".intercalate args ++ ") ?>"

/-- The pieces of its block: a directive with the given text of arguments, between two spaces. -/
def includePieces (text : List Char) : List Piece :=
  linePieces .block [' '] ++ ⟨.includeBegin, "include(".toList⟩ :: (linePieces .block text ++
    ⟨.includeEnd, [')']⟩ :: linePieces .block [' '])

section
variable {text : List Char}
  (hread : readArguments ['?', '>'] .outside 0 [] (text ++ [')', ' ', '?', '>']) =
    ⟨text, true, [' ', '?', '>']⟩)
include hread

theorem readBody_include :
    readBody .default .block true (some 'p') .outside []
        (' ' :: ("include(".toList ++ (text ++ [')', ' ', '?', '>']))) =
      ⟨includePieces text, some []⟩ := by
  have hhead : includeHead? keyword (some ' ')
      ("include(".toList ++ (text ++ [')', ' ', '?', '>'])) =
        some ("include(".toList, text ++ [')', ' ', '?', '>']) :=
    (includeHead?_eq_some_iff (by decide)).mpr ⟨by decide, [], by simp, by simp [keyword], rfl⟩
  have hdirective : readDirective ['?', '>'] "include(".toList .block
      (text ++ [')', ' ', '?', '>']) =
        ⟨⟨.includeBegin, "include(".toList⟩ :: linePieces .block text ++ [⟨.includeEnd, [')']⟩],
          some ')', [' ', '?', '>']⟩ := by
    simp [readDirective, hread]
  have hspace : Quoting.outside.step ' ' = .outside := by decide
  rw [readBody_pass (passes_space _ _), hspace, readBody_directive hhead, hdirective,
    readBody_pass (passes_space _ _), hspace, readBody_close]
  simp [includePieces]

/-- The template is taken apart at the directive. -/
theorem pieces_directiveTemplate :
    pieces .default ("<?exp include(".toList ++ text ++ ") ?>".toList) =
      ⟨.blockOpen, "<?exp".toList⟩ :: (includePieces text ++ [⟨.blockClose, "?>".toList⟩]) := by
  have hwhole : "<?exp include(".toList ++ text ++ ") ?>".toList =
      opener false ++ ' ' :: ("include(".toList ++ (text ++ [')', ' ', '?', '>'])) := by
    simp [opener]
  have hword : ∀ cs : List Char, (' ' :: cs).head?.any isWordChar = false :=
    fun _ => (by decide : isWordChar ' ' = false)
  have hregion : FirstRegion
      (opener false ++ ' ' :: ("include(".toList ++ (text ++ [')', ' ', '?', '>']))) []
      (opener false) (' ' :: ("include(".toList ++ (text ++ [')', ' ', '?', '>'])))
      ⟨includePieces text, some []⟩ :=
    ⟨findOpener?_opener (fun _ => hword _) [], readBody_include hread⟩
  have hend : defaultPieces [] = [] := defaultPieces_text (by simp)
  rw [pieces_default, hwhole, hregion.pieces_eq, openMark, piecesBehind, isInline_opener, hend]
  rfl

end

/-- A mark and the content behind it are a span each. -/
theorem Scanner.pass_marked {text pre mark post : List Char} {s : Scanner} {kind scope : Scope}
    {more : List Piece} (hcursor : s.cursor = utf8Length pre)
    (htext : text = pre ++ mark ++ cs ++ post)
    (hkind : kind ≠ .delimiter ∧ kind.isContent = false) (hcontent : scope.isContent = true)
    (hcs : cs ≠ []) :
    s.pass text pre (⟨kind, mark⟩ :: (linePieces scope cs ++ more)) =
      pass text (pre ++ mark ++ cs) more
        ⟨⟨.ofList cs, scope, Position.origin.after (pre ++ mark),
            Position.origin.after (pre ++ mark ++ cs)⟩ ::
          ⟨"", kind, Position.origin.after pre, Position.origin.after (pre ++ mark)⟩ :: s.spans,
          some (utf8Length (pre ++ mark ++ cs)), utf8Length (pre ++ mark ++ cs)⟩ := by
  have hfirst : text = pre ++ mark ++ (cs ++ post) := by
    rw [htext, List.append_assoc]
  rw [pass_cons, step_mark hfirst hcursor hkind.1 hkind.2, pass_append, flatMap_linePieces,
    pass_linePieces rfl rfl htext hcontent hcs]

/-- The spans of the template; `p` is the place behind the directive. -/
def directiveSpans (text : List Char) (p : Position) : List Span :=
  [⟨"", .blockOpen, ⟨0, 0⟩, ⟨0, 5⟩⟩,
    ⟨" ", .block, ⟨0, 5⟩, ⟨0, 6⟩⟩,
    ⟨"", .includeBegin, ⟨0, 6⟩, ⟨0, 14⟩⟩,
    ⟨.ofList text, .block, ⟨0, 14⟩, Position.after ⟨0, 14⟩ text⟩,
    ⟨"", .includeEnd, Position.after ⟨0, 14⟩ text, p⟩,
    ⟨" ", .block, p, ⟨p.line, p.column + 1⟩⟩,
    ⟨"", .blockClose, ⟨p.line, p.column + 1⟩, ⟨p.line, p.column + 3⟩⟩]

theorem scan_directiveTemplate {text : List Char} (hne : text ≠ [])
    (hread : readArguments ['?', '>'] .outside 0 [] (text ++ [')', ' ', '?', '>']) =
      ⟨text, true, [' ', '?', '>']⟩) :
    scan Syntax.default.classify (.ofList ("<?exp include(".toList ++ text ++ ") ?>".toList)) =
      directiveSpans text (Position.origin.after ("<?exp include(".toList ++ text ++ [')'])) := by
  have hpieces := pieces_directiveTemplate hread
  -- each of the three contents stands behind a mark, and the last mark behind nothing but these
  let opening := [] ++ "<?exp".toList ++ [' ']
  let directive := opening ++ "include(".toList ++ text
  let ending := directive ++ [')'] ++ [' ']
  generalize hwhole : "<?exp include(".toList ++ text ++ ") ?>".toList = whole at *
  have hopening : whole = opening ++ ("include(".toList ++ text ++ ") ?>".toList) := by
    simp [← hwhole, opening]
  have hdirective : whole = directive ++ ") ?>".toList := by
    simp [← hwhole, directive, opening]
  have hending : whole = ending ++ "?>".toList := by
    simp [← hwhole, ending, directive, opening]
  have hlast : whole = ending ++ "?>".toList ++ [] := by
    rw [hending, List.append_nil]
  have hscan : Scanner.pass whole [] (pieces .default whole) .start =
      ⟨(directiveSpans text
          (Position.origin.after ("<?exp include(".toList ++ text ++ [')']))).reverse, none,
        utf8Length whole⟩ := by
    rw [hpieces, includePieces, List.append_assoc, List.cons_append, List.append_assoc,
      List.cons_append, Scanner.pass_marked rfl hopening (by decide) rfl (by simp),
      Scanner.pass_marked rfl hdirective (by decide) rfl hne,
      Scanner.pass_marked rfl hending (by decide) rfl (by simp),
      Scanner.pass_cons, Scanner.step_mark hlast rfl (by decide) rfl, ← hending]
    simp [Scanner.pass, rangesFrom, directiveSpans, Position.after_append, Position.advance,
      Position.origin, Scanner.start, opening, directive, ending, ← hwhole]
  exact scan_of_pass (congrArg Scanner.spans hscan) (congrArg Scanner.cursor hscan)

/-- The tree of these spans is one block, in which the directive stands between two spaces. -/
theorem ofSpans_directiveSpans (text : List Char) (p : Position) :
    Tree.ofSpans (directiveSpans text p) =
      ⟨[.block ⟨.origin, ⟨p.line, p.column + 3⟩⟩
        [.script ⟨" ", .block, ⟨0, 5⟩, ⟨0, 6⟩⟩,
          .inclusion ⟨⟨⟨0, 6⟩, p⟩, splitArguments (.ofList text)⟩,
          .script ⟨" ", .block, p, ⟨p.line, p.column + 1⟩⟩]], []⟩ := by
  have htext : "" ++ String.ofList text = .ofList text := String.empty_append
  rw [← htext]
  rfl

/-- **The scanner and the splitter agree on arguments.** A block with a directive whose arguments
are balanced texts is read as this block and nothing else: the directive has the arguments as they
are written, without the white space around them, and no region is malformed. -/
theorem ofSpans_scan_directiveTemplate {args : List String} (hne : args ≠ [])
    (h : ∀ a ∈ args, IsArgument a.toList) :
    let p := Position.origin.after ("<?exp include(" ++ ",".intercalate args ++ ")").toList
    Tree.ofSpans (scan Syntax.default.classify (directiveTemplate args)) =
      ⟨[.block ⟨.origin, ⟨p.line, p.column + 3⟩⟩
        [.script ⟨" ", .block, ⟨0, 5⟩, ⟨0, 6⟩⟩,
          .inclusion ⟨⟨⟨0, 6⟩, p⟩, args.map trimText⟩,
          .script ⟨" ", .block, p, ⟨p.line, p.column + 1⟩⟩]], []⟩ := by
  intro p
  have hlists : ∀ cs ∈ args.map String.toList, IsArgument cs := by simpa using h
  have hread := readArguments_intercalate hlists [' ', '?', '>']
  rw [← toList_commas] at hread
  have hsplit := splitArguments_intercalate hne h
  have hnonempty : (",".intercalate args).toList ≠ [] := by
    intro hempty
    rw [String.toList_eq_nil_iff.mp hempty] at hsplit
    exact hne (List.map_eq_nil_iff.mp hsplit.symm)
  have htemplate : directiveTemplate args =
      .ofList ("<?exp include(".toList ++ (",".intercalate args).toList ++ ") ?>".toList) := by
    simp [← String.toList_inj, directiveTemplate]
  have hbehind : Position.origin.after
      ("<?exp include(".toList ++ (",".intercalate args).toList ++ [')']) = p := by
    simp [p]
  rw [htemplate, scan_directiveTemplate hnonempty hread, ofSpans_directiveSpans, hbehind,
    String.ofList_toList, hsplit]

/-- A quoted text with a comma and an escaped character, and brackets in brackets with a closer in a
quoted text, on a line of their own. -/
def nestedArguments : List String := ["'a,\\é'", "\n[(b,\x60?>\x60)] "]

theorem ofSpans_scan_directiveTemplate_nested :
    directiveTemplate nestedArguments = "<?exp include('a,\\é',\n[(b,\x60?>\x60)] ) ?>" ∧
    Tree.ofSpans (scan Syntax.default.classify (directiveTemplate nestedArguments)) =
      ⟨[.block ⟨⟨0, 0⟩, ⟨1, 15⟩⟩
        [.script ⟨" ", .block, ⟨0, 5⟩, ⟨0, 6⟩⟩,
          .inclusion ⟨⟨⟨0, 6⟩, ⟨1, 12⟩⟩, ["'a,\\é'", "[(b,\x60?>\x60)]"]⟩,
          .script ⟨" ", .block, ⟨1, 12⟩, ⟨1, 13⟩⟩]], []⟩ := by
  have hquoted : IsArgument "'a,\\é'".toList := by
    refine ⟨⟨'a', by simp, by decide⟩, ?_,
      (by decide +kernel : FitsRegion "'a,\\é'".toList).closer⟩
    exact .quoted '\'' rfl [.plain 'a' (by decide), .plain ',' (by decide), .escaped 'é'] .nil
  have hbrackets : IsArgument "\n[(b,\x60?>\x60)] ".toList := by
    refine ⟨⟨'b', by simp, by decide⟩, ?_,
      (by decide +kernel : FitsRegion "\n[(b,\x60?>\x60)] ".toList).closer⟩
    have hinner : Balanced true "b,\x60?>\x60".toList :=
      .char rfl rfl rfl (by decide) (.char rfl rfl rfl (by decide)
        (.quoted '\x60' rfl [.plain '?' (by decide), .plain '>' (by decide)] .nil))
    exact .char rfl rfl rfl (by decide) (.group .square (.group .round hinner .nil)
      (.char rfl rfl rfl (by decide) .nil))
  have hargs : ∀ a ∈ nestedArguments, IsArgument a.toList := by
    simpa [nestedArguments] using ⟨hquoted, hbrackets⟩
  refine ⟨by decide +kernel, (ofSpans_scan_directiveTemplate (by decide) hargs).trans ?_⟩
  decide +kernel

end Stencil.Template
