import Stencil.Proofs.Template.Inline
import Stencil.Proofs.Template.Locality

/-! # Directives that give way to a space

A directive leaves one symbol in the outline of a template.  If a space stands in its place in the
text, the scanner goes on behind it as before: no quote is open, the next character does not
continue a word, and no text in front of the space is read in another way, unless a keyword stands
there that would find its parenthesis behind the space.  So the outline has the space in the place
of the directive, and all else as it was.
-/
namespace Stencil.Template

/-! ## Drafts -/

namespace Draft

/-- A draft that goes on behind some symbols. -/
def behind (d : Draft) (before : List Symbol) : Draft := { d with done := before ++ d.done }

variable (d : Draft) (before more : List Symbol)

theorem behind_behind : (d.behind more).behind before = d.behind (before ++ more) := by
  simp [behind]

theorem flush_behind : (d.behind before).flush = d.flush.behind before := by
  obtain ⟨done, text, region, inclusion⟩ := d
  cases text <;> simp [behind, flush]

theorem content_behind (scope : Scope) (cs : List Char) :
    (d.behind before).content scope cs = (d.content scope cs).behind before := by
  obtain ⟨done, text, region, inclusion⟩ := d
  cases inclusion with
  | some i => rfl
  | none =>
    cases region with
    | some kind => simp [content, behind, add]
    | none =>
      cases text with
      | none => rfl
      | some t =>
        obtain ⟨old, text⟩ := t
        by_cases hold : old = scope
        · simp [content, behind, hold]
        · simp [content, behind, hold, flush]

theorem endInclusion_behind (i : List Char) :
    (d.behind before).endInclusion i = (d.endInclusion i).behind before := by
  simp [endInclusion, behind]

theorem stepRegion_behind (scope : Scope) :
    (d.behind before).stepRegion scope = (d.stepRegion scope).behind before := by
  obtain ⟨done, text, region, inclusion⟩ := d
  rcases region with _ | _ | _ | _ <;> cases scope <;> simp [stepRegion, behind, add]

theorem boundary_behind (scope : Scope) :
    (d.behind before).boundary scope = (d.boundary scope).behind before := by
  obtain ⟨done, text, region, inclusion⟩ := d
  cases inclusion with
  | none => exact stepRegion_behind ⟨done, text, region, none⟩ before scope
  | some i =>
    cases scope with
    | includeEnd => exact endInclusion_behind _ before i
    | blockClose =>
      exact (congrArg (stepRegion · .blockClose)
        (endInclusion_behind ⟨done, text, region, some i⟩ before i)).trans
          (stepRegion_behind _ before .blockClose)
    | _ => rfl

theorem step_behind (p : Piece) : (d.behind before).step p = (d.step p).behind before := by
  unfold step
  split
  · exact flush_behind d before
  · split
    · split
      · rfl
      · exact content_behind d before _ _
    · rw [flush_behind, boundary_behind]

/-- What is drafted next does not depend on the symbols so far. -/
theorem run_behind (ps : List Piece) : (d.behind before).run ps = (d.run ps).behind before := by
  induction ps generalizing d with
  | nil => rfl
  | cons p ps ih => exact (congrArg (run · ps) (step_behind d before p)).trans (ih (d.step p))

theorem run_cons (p : Piece) (ps : List Piece) : d.run (p :: ps) = (d.step p).run ps := rfl

theorem run_append (ps qs : List Piece) : d.run (ps ++ qs) = (d.run ps).run qs :=
  List.foldl_append

theorem outline_behind : (d.behind before).outline = before ++ d.outline := by
  unfold outline
  rw [flush_behind]
  generalize hflushed : d.flush = flushed
  have hregion : (d.behind before).region = d.region := rfl
  have hclose : (flushed.behind before).close.done = before ++ flushed.close.done := by
    obtain ⟨done, text, region, inclusion⟩ := flushed
    cases inclusion <;> simp [close, behind, endInclusion]
  rw [hregion, hclose, List.append_assoc]

/-- The draft at the beginning of a block. -/
def inBlock : Draft := ⟨[], none, some .block, none⟩

theorem run_chunk (cs : List Char) (ps : List Piece) :
    inBlock.run (linePieces .block cs ++ ps) = (inBlock.run ps).behind (symbols cs) := by
  rw [run_append, ← run_behind]
  congr 1
  by_cases hcs : cs = []
  · subst hcs
    rfl
  · rw [run_linePieces rfl hcs]
    simp [content, inBlock, behind, add]

/-- A directive with its parenthesis is drafted as one symbol. -/
theorem run_directive (head text : List Char) (ps : List Piece) :
    inBlock.run (⟨.includeBegin, head⟩ ::
        (linePieces .block text ++ ⟨.includeEnd, [')']⟩ :: ps)) =
      (inBlock.run ps).behind [.directive (splitArguments (.ofList text))] := by
  have hopen : inBlock.step ⟨.includeBegin, head⟩ = ⟨[], none, some .block, some []⟩ := rfl
  have htext : run ⟨[], none, some .block, some []⟩ (linePieces .block text) =
      ⟨[], none, some .block, some text⟩ := by
    by_cases hempty : text = []
    · subst hempty
      rfl
    · exact run_linePieces rfl hempty
  rw [run_cons, hopen, run_append, htext, run_cons, ← run_behind]
  rfl

end Draft

/-! ## Pieces in front of a directive -/

theorem scope_of_mem_linePieces {scope : Scope} {cs : List Char} :
    ∀ p ∈ linePieces scope cs, p.scope = scope := by
  intro p hp
  obtain ⟨line, -, rfl⟩ := List.mem_map.mp hp
  rfl

/-- Pieces of other scopes stand in front of a piece. -/
theorem exists_append_of_scope {ps qs front back : List Piece} {p : Piece}
    (h : ps ++ qs = front ++ p :: back) (hps : ∀ q ∈ ps, q.scope ≠ p.scope) :
    ∃ front', front = ps ++ front' ∧ qs = front' ++ p :: back := by
  rcases List.append_eq_append_iff.mp h with ⟨front', hfront, hqs⟩ | ⟨more, hfront, hmore⟩
  · exact ⟨front', hfront, hqs⟩
  · cases more with
    | nil => exact ⟨[], by simpa using hfront.symm, by simpa using hmore.symm⟩
    | cons q more =>
      obtain ⟨rfl, -⟩ := List.cons.inj hmore
      exact absurd rfl (hps _ (by simp [hfront]))

/-- Among the lines of a text there is no piece of another scope. -/
theorem scope_of_linePieces {scope : Scope} {cs : List Char} {front back : List Piece} {p : Piece}
    (h : linePieces scope cs = front ++ p :: back) : p.scope = scope :=
  scope_of_mem_linePieces p (by rw [h]; simp)

/-- The lines of a text that a piece of another scope follows determine the text. -/
theorem linePieces_inj {scope : Scope} {cs ds : List Char} {p q : Piece} {ps qs : List Piece}
    (h : linePieces scope cs ++ p :: ps = linePieces scope ds ++ q :: qs) (hp : p.scope ≠ scope)
    (hq : q.scope ≠ scope) : cs = ds ∧ p :: ps = q :: qs := by
  obtain ⟨more, hmore, hps⟩ := exists_append_of_scope h fun r hr => by
    rw [scope_of_mem_linePieces r hr]
    exact hq.symm
  cases more with
  | nil =>
    have htexts := congrArg (List.flatMap Piece.text) hmore
    rw [List.append_nil, flatMap_linePieces, flatMap_linePieces] at htexts
    exact ⟨htexts.symm, hps⟩
  | cons r more =>
    obtain ⟨rfl, -⟩ := List.cons.inj hps
    exact absurd (scope_of_mem_linePieces _ (by rw [hmore]; simp)) hp

/-! ## Directives in a block -/

/-- The text behind a semicolon that it begins with. -/
def dropSemicolon (cs : List Char) : List Char := if cs.head? = some ';' then cs.tail else cs

section
variable {before : Option Char} {quoting : Quoting} {chunk cs : List Char}

/-- What the region has been read of so far goes in front of what is drafted of the rest. -/
theorem run_readBody (before : Option Char) (quoting : Quoting) (chunk passed cs : List Char) :
    Draft.inBlock.run (readBody .default .block true before quoting (chunk ++ passed) cs).pieces =
      (Draft.inBlock.run (readBody .default .block true before quoting chunk cs).pieces).behind
        (symbols passed.reverse) ∧
    (readBody .default .block true before quoting (chunk ++ passed) cs).rest? =
      (readBody .default .block true before quoting chunk cs).rest? := by
  have hchunk : ∀ (chunk : List Char) (ps : List Piece),
      Draft.inBlock.run (linePieces .block (chunk ++ passed).reverse ++ ps) =
        (Draft.inBlock.run (linePieces .block chunk.reverse ++ ps)).behind
          (symbols passed.reverse) := by
    intro chunk ps
    rw [Draft.run_chunk, Draft.run_chunk, Draft.behind_behind, List.reverse_append, symbols_append]
  induction before, quoting, chunk, cs using readBody_rec .block true with
  | nil before quoting chunk =>
    rw [readBody_nil, readBody_nil]
    exact ⟨by simpa using hchunk chunk [], rfl⟩
  | close before chunk behind =>
    rw [readBody_close, readBody_close]
    exact ⟨by simpa using hchunk chunk [], rfl⟩
  | pass before quoting chunk c rest hpass ih =>
    rw [readBody_pass hpass, readBody_pass hpass]
    exact ih
  | directive before chunk head inner hincludes hhead ih =>
    rw [readBody_directive hhead, readBody_directive hhead]
    exact ⟨by simpa using hchunk chunk _, rfl⟩

/-- A region is read behind one character as behind another, unless one of them would continue a
keyword. -/
theorem readBody_congr {scope : Scope} {includes : Bool} {before before' : Option Char}
    (h : before.any joinsKeyword = before'.any joinsKeyword) :
    readBody .default scope includes before quoting chunk cs =
      readBody .default scope includes before' quoting chunk cs := by
  have hsame : ∀ {before : Option Char}, before.any joinsKeyword = before'.any joinsKeyword →
      ∀ cs, includeHead? keyword before cs = includeHead? keyword before' cs := by
    intro before h cs
    refine Option.ext fun ⟨head, inner⟩ => ?_
    rw [includeHead?_eq_some_iff (by decide), includeHead?_eq_some_iff (by decide), h]
  induction before, quoting, chunk, cs using readBody_rec scope includes with
  | nil before quoting chunk => rw [readBody_nil, readBody_nil]
  | close before chunk behind => rw [readBody_close, readBody_close]
  | pass before quoting chunk c rest hpass _ =>
    have hpass' : Passes includes before' quoting c rest := fun houtside =>
      ⟨(hpass houtside).1, fun hquote hincludes =>
        (hsame h _).symm.trans ((hpass houtside).2 hquote hincludes)⟩
    rw [readBody_pass hpass, readBody_pass hpass']
  | directive before chunk head inner hincludes hhead _ =>
    subst hincludes
    rw [readBody_directive hhead, readBody_directive ((hsame h _).symm.trans hhead)]

/-- A text ends in a keyword that would find its parenthesis behind blanks. `before` is the
character in front of the text. -/
def EndsInKeyword (before : Option Char) (cs : List Char) : Prop :=
  ∃ text gap, cs = text ++ keyword ++ gap ∧ (∀ c ∈ gap, isGap c = true) ∧
    (text.getLast?.or before).any joinsKeyword = false

theorem EndsInKeyword.append (passed : List Char)
    (h : EndsInKeyword (passed.getLast?.or before) cs) : EndsInKeyword before (passed ++ cs) := by
  obtain ⟨text, gap, rfl, hgap, hjoin⟩ := h
  refine ⟨passed ++ text, gap, by simp, hgap, ?_⟩
  rwa [List.getLast?_append, Option.or_assoc]

/-- A blank in the beginning of a directive stands behind the keyword. -/
theorem exists_gap {ahead gap : List Char} (h : cs ++ ' ' :: ahead = keyword ++ gap ++ ['(']) :
    ∃ gap', cs = keyword ++ gap' ∧ ∀ c ∈ gap', c ∈ gap := by
  rw [List.append_assoc] at h
  rcases List.append_eq_append_iff.mp h with ⟨more, hkeyword, hmore⟩ | ⟨gap', rfl, hgap⟩
  · cases more with
    | nil => exact ⟨[], by simpa using hkeyword.symm, by simp⟩
    | cons c more =>
      obtain ⟨rfl, -⟩ := List.cons.inj hmore
      exact absurd (show ' ' ∈ keyword by rw [hkeyword]; simp) (by decide)
  · refine ⟨gap', rfl, fun c hc => ?_⟩
    rcases List.append_eq_append_iff.mp hgap with ⟨more, -, hmore⟩ | ⟨more, rfl, -⟩
    · exact absurd (show ' ' ∈ ['('] by rw [hmore]; simp) (by decide)
    · exact List.mem_append_left more hc

/-- A region is read up to a space in the place of a directive as it is up to the directive. -/
theorem Passes.space {pre rest post : List Char} {includes : Bool} {c : Char}
    (h : Passes includes before quoting c (pre ++ rest)) (hkey : ¬ EndsInKeyword before (c :: pre)) :
    Passes includes before quoting c (pre ++ ' ' :: post) := by
  refine h.replace (by simp) fun ahead head inner hne hsome hhead hbehind => ?_
  cases ahead with
  | nil => exact hne rfl
  | cons a ahead =>
    obtain ⟨rfl, -⟩ := List.cons.inj hbehind
    obtain ⟨hbefore, gap, hgap, hform, -⟩ := (includeHead?_eq_some_iff (by decide)).mp hsome
    obtain ⟨gap', hpre, hgap'⟩ := exists_gap (hhead.symm.trans hform)
    exact hkey ⟨[], gap', by simpa using hpre, fun c hc => hgap c (hgap' c hc), by simpa using hbefore⟩

theorem passes_space (before : Option Char) (rest : List Char) :
    Passes true before .outside ' ' rest := by
  refine fun _ => ⟨rfl, fun _ _ => ?_⟩
  rw [Option.eq_none_iff_forall_ne_some]
  rintro ⟨head, inner⟩ hsome
  obtain ⟨⟨tail, rfl⟩, -⟩ := head_default hsome
  cases (includeHead?_append hsome).2

/-- The text of a region behind a directive of which the pieces in front have been read. -/
theorem exists_rest_of_pieces {front back : List Piece} {head args pre : List Char}
    (h : (readBody .default .block true before quoting chunk cs).pieces =
      front ++ ⟨.includeBegin, head⟩ :: (linePieces .block args ++ ⟨.includeEnd, [')']⟩ :: back))
    (hfront : front.flatMap Piece.text = chunk.reverse ++ pre) :
    ∃ rest, cs = pre ++ (head ++ rest) := by
  have htext := readBody_append .default .block true before quoting chunk cs
  simp only [h, List.flatMap_append, List.flatMap_cons, hfront, List.append_assoc,
    List.append_cancel_left_eq] at htext
  exact ⟨_, htext.symm⟩

/-- A directive that its parenthesis ends, and maybe a semicolon. -/
structure Ends (scope : Scope) (head : List Char) (d : Directive) (text : List Char)
    (ends : List Piece) : Prop where
  pieces : d.pieces =
    ⟨.includeBegin, head⟩ :: (linePieces scope text ++ ⟨.includeEnd, [')']⟩ :: ends)
  ends : ends = [] ∧ d.before = some ')' ∧ d.rest.head? ≠ some ';' ∨
    ends = [⟨.delimiter, [';']⟩] ∧ d.before = some ';'

theorem exists_ends {scope : Scope} {head inner : List Char}
    (h : (readDirective ['?', '>'] head scope inner).before ≠ none) :
    ∃ text ends, Ends scope head (readDirective ['?', '>'] head scope inner) text ends := by
  rcases readDirective_cases ['?', '>'] head scope inner with
    ⟨-, hd⟩ | ⟨-, hrest, hd⟩ | ⟨-, rest, -, hd⟩
  · rw [hd] at h
    exact absurd rfl h
  · rw [hd]
    exact ⟨(readArguments ['?', '>'] .outside 0 [] inner).text, [], by simp,
      .inl ⟨rfl, rfl, hrest⟩⟩
  · rw [hd]
    exact ⟨(readArguments ['?', '>'] .outside 0 [] inner).text, [⟨.delimiter, [';']⟩], by simp,
      .inr ⟨rfl, rfl⟩⟩

namespace Ends

variable {scope : Scope} {head text : List Char} {d : Directive} {ends : List Piece}

/-- No keyword is continued behind a directive. -/
theorem any_joinsKeyword (h : Ends scope head d text ends) :
    d.before.any joinsKeyword = false := by
  rcases h.ends with ⟨-, hbefore, -⟩ | ⟨-, hbefore⟩
  · rw [hbefore]
    decide +kernel
  · rw [hbefore]
    decide +kernel

/-- The text of a directive ends in the character in front of the text behind it. -/
theorem getLast?_text (h : Ends scope head d text ends) :
    (d.pieces.flatMap Piece.text).getLast? = d.before := by
  rw [h.pieces]
  rcases h.ends with ⟨rfl, hbefore, -⟩ | ⟨rfl, hbefore⟩
  · simp [hbefore, List.getLast?_append]
  · simp [hbefore, List.getLast?_append]

theorem rest_of_parenthesis (h : Ends scope head d text ends) (hbefore : d.before = some ')') :
    d.rest.head? ≠ some ';' := by
  rcases h.ends with ⟨-, -, hrest⟩ | ⟨-, hsemicolon⟩
  · exact hrest
  · rw [hsemicolon] at hbefore
    cases hbefore

/-- A semicolon behind a directive belongs to it. -/
theorem dropSemicolon_rest (h : Ends scope head d text ends) :
    dropSemicolon (ends.flatMap Piece.text ++ d.rest) = d.rest := by
  rcases h.ends with ⟨rfl, -, hrest⟩ | ⟨rfl, -⟩
  · simp [dropSemicolon, hrest]
  · rfl

theorem before_ne_none (h : Ends scope head d text ends) : d.before ≠ none := by
  rcases h.ends with ⟨-, hbefore, -⟩ | ⟨-, hbefore⟩ <;> simp [hbefore]

/-- A directive ends without another one. -/
theorem scope_of_mem (h : Ends scope head d text ends) :
    ∀ p ∈ (⟨.includeEnd, [')']⟩ : Piece) :: ends, p.scope ≠ .includeBegin := by
  rcases h.ends with ⟨rfl, -⟩ | ⟨rfl, -⟩ <;> simp

theorem run_pieces (h : Ends .block head d text ends) (ps : List Piece) :
    Draft.inBlock.run (d.pieces ++ ps) =
      (Draft.inBlock.run ps).behind [.directive (splitArguments (.ofList text))] := by
  have hends : Draft.inBlock.run (ends ++ ps) = Draft.inBlock.run ps := by
    rcases h.ends with ⟨rfl, -⟩ | ⟨rfl, -⟩ <;> rfl
  rw [h.pieces, List.cons_append, List.append_assoc, List.cons_append, Draft.run_directive, hends]

end Ends

/-- Behind a directive that no parenthesis ends there is no other one. -/
theorem before_ne_none {head inner head' args : List Char} {front back : List Piece}
    (h : let d := readDirective ['?', '>'] head .block inner
      d.pieces ++ (readBody .default .block true d.before .outside [] d.rest).pieces =
        front ++ ⟨.includeBegin, head'⟩ :: (linePieces .block args ++ ⟨.includeEnd, [')']⟩ :: back)) :
    (readDirective ['?', '>'] head .block inner).before ≠ none := by
  intro hnone
  have hmore : (readBody .default .block true (readDirective ['?', '>'] head .block inner).before
      .outside [] (readDirective ['?', '>'] head .block inner).rest).pieces = [] := by
    rcases rest_of_before_none hnone with hnil | ⟨behind, hbehind⟩
    · rw [hnil, readBody_nil]
      rfl
    · rw [hbehind, readBody_close]
      rfl
  obtain ⟨text, hpieces⟩ : ∃ text, (readDirective ['?', '>'] head .block inner).pieces =
      ⟨.includeBegin, head⟩ :: linePieces .block text := by
    rcases readDirective_cases ['?', '>'] head .block inner with
      ⟨-, hd⟩ | ⟨-, -, hd⟩ | ⟨-, _, -, hd⟩
    · rw [hd]
      exact ⟨_, rfl⟩
    · rw [hd] at hnone
      cases hnone
    · rw [hd] at hnone
      cases hnone
  simp only [hmore, hpieces, List.append_nil] at h
  cases front with
  | nil => cases scope_of_linePieces (List.cons.inj h).2
  | cons p front => cases scope_of_linePieces (List.cons.inj h).2

/-- Two bodies are the same but for a directive of the one that is a space in the other. -/
def Body.SpaceFor (args : List String) (body body' : Body) : Prop :=
  body'.rest? = body.rest? ∧ ∃ front r,
    Draft.inBlock.run body.pieces = Draft.behind r (front ++ [.directive args]) ∧
    Draft.inBlock.run body'.pieces = Draft.behind r (front ++ [.char ' '])

namespace Ends

variable {head text : List Char} {d : Directive} {ends : List Piece}

/-- A directive ends where it did with a space in the text behind it. -/
theorem exists_space {scope : Scope} {inner pre behind : List Char}
    (h : Ends scope head (readDirective ['?', '>'] head scope inner) text ends)
    (hrest : (readDirective ['?', '>'] head scope inner).rest = pre ++ behind) :
    ∃ y, (readDirective ['?', '>'] head scope inner).pieces.flatMap Piece.text = head ++ y ∧
      ∀ post, readDirective ['?', '>'] head scope (y ++ (pre ++ ' ' :: post)) =
        ⟨(readDirective ['?', '>'] head scope inner).pieces,
          (readDirective ['?', '>'] head scope inner).before, pre ++ ' ' :: post⟩ := by
  obtain ⟨y, hinner, hread⟩ := readDirective_local head scope inner
  have hsplit := readDirective_append ['?', '>'] head scope inner
  generalize readDirective ['?', '>'] head scope inner = d at *
  refine ⟨y, ?_, fun post => hread _ (absurd · h.before_ne_none) fun hbefore => ?_⟩
  · rw [hinner, ← List.append_assoc] at hsplit
    exact List.append_cancel_right hsplit
  · have hsemicolon := h.rest_of_parenthesis hbefore
    rw [hrest] at hsemicolon
    cases pre with
    | nil => simp
    | cons c pre => exact hsemicolon

/-- The body from a directive on, and the one that has a space there. -/
theorem spaceFor (h : Ends .block head d text ends) (before : Option Char) (chunk : List Char) :
    let more := readBody .default .block true d.before .outside [] d.rest
    Body.SpaceFor (splitArguments (.ofList text))
      ⟨linePieces .block chunk.reverse ++ (d.pieces ++ more.pieces), more.rest?⟩
      (readBody .default .block true before .outside chunk (' ' :: d.rest)) := by
  have hspace : readBody .default .block true before .outside chunk (' ' :: d.rest) =
      readBody .default .block true d.before .outside ([] ++ ' ' :: chunk) d.rest := by
    rw [readBody_pass (passes_space before d.rest)]
    refine readBody_congr (Eq.trans ?_ h.any_joinsKeyword.symm)
    decide +kernel
  obtain ⟨hrun, hbehind⟩ := run_readBody d.before .outside [] (' ' :: chunk) d.rest
  rw [hspace]
  refine ⟨hbehind, symbols chunk.reverse, Draft.inBlock.run
    (readBody .default .block true d.before .outside [] d.rest).pieces, ?_, hrun.trans ?_⟩
  · rw [Draft.run_chunk, h.run_pieces, Draft.behind_behind]
  · simp [symbols]

/-- A space for a directive behind another one. -/
theorem spaceFor_behind (h : Ends .block head d text ends) (chunk : List Char)
    {args : List String} {body body' : Body} (hsame : body.SpaceFor args body') :
    Body.SpaceFor args
      ⟨linePieces .block chunk.reverse ++ (d.pieces ++ body.pieces), body.rest?⟩
      ⟨linePieces .block chunk.reverse ++ (d.pieces ++ body'.pieces), body'.rest?⟩ := by
  obtain ⟨hrest, passed, r, hrun, hrun'⟩ := hsame
  refine ⟨hrest,
    symbols chunk.reverse ++ [.directive (splitArguments (.ofList text))] ++ passed, r, ?_, ?_⟩
  · rw [Draft.run_chunk, h.run_pieces, hrun]
    simp [Draft.behind_behind]
  · rw [Draft.run_chunk, h.run_pieces, hrun']
    simp [Draft.behind_behind]

end Ends

/-- **A space in the place of a directive in a block.** The region goes on as far as before, and its
draft has the space where it had the directive. -/
theorem readBody_replace {front back : List Piece} {head args : List Char}
    (h : (readBody .default .block true before quoting chunk cs).pieces =
      front ++ ⟨.includeBegin, head⟩ :: (linePieces .block args ++ ⟨.includeEnd, [')']⟩ :: back)) :
    ∃ pre, front.flatMap Piece.text = chunk.reverse ++ pre ∧ (¬ EndsInKeyword before pre →
      let body := readBody .default .block true before quoting chunk cs
      let post := dropSemicolon (back.flatMap Piece.text ++
        body.rest?.elim [] fun behind => '?' :: '>' :: behind)
      body.SpaceFor (splitArguments (.ofList args))
        (readBody .default .block true before quoting chunk (pre ++ ' ' :: post))) := by
  induction before, quoting, chunk, cs using readBody_rec .block true generalizing front with
  | nil before quoting chunk =>
    rw [readBody_nil] at h
    cases scope_of_linePieces h
  | close before chunk behind =>
    rw [readBody_close] at h
    cases scope_of_linePieces h
  | pass before quoting chunk c rest hpass ih =>
    rw [readBody_pass hpass] at h
    obtain ⟨pre, hfront, hsame⟩ := ih h
    obtain ⟨behind, hrest⟩ := exists_rest_of_pieces h hfront
    refine ⟨c :: pre, by simpa using hfront, fun hkey => ?_⟩
    rw [hrest] at hpass
    have hpass' : ∀ post, Passes true before quoting c (pre ++ ' ' :: post) := fun post =>
      hpass.space hkey
    rw [← hrest] at hpass
    simp only [readBody_pass hpass, List.cons_append, readBody_pass (hpass' _)]
    exact hsame fun hends => hkey (EndsInKeyword.append [c] hends)
  | directive before chunk head' inner _ hhead ih =>
    rw [readBody_directive hhead] at h ⊢
    simp only [List.append_assoc] at h
    obtain ⟨front', hfront, hrest⟩ := exists_append_of_scope h fun p hp => by
      rw [scope_of_mem_linePieces p hp]
      nofun
    obtain ⟨text, ends, hends⟩ := exists_ends (before_ne_none hrest)
    cases front' with
    | nil =>
      -- the directive is the next one of the region
      have hmore := readBody_append .default .block true
        (readDirective ['?', '>'] head' .block inner).before .outside []
        (readDirective ['?', '>'] head' .block inner).rest
      simp only [toList_closer_default, List.cons_append, List.nil_append, List.reverse_nil]
        at hmore
      rw [hends.pieces] at hrest
      simp only [List.nil_append, List.cons_append, List.append_assoc] at hrest
      obtain ⟨rfl, hback⟩ := linePieces_inj (List.cons.inj hrest).2 nofun nofun
      obtain rfl := (List.cons.inj hback).2
      refine ⟨[], by rw [hfront]; simp [flatMap_linePieces], fun _ => ?_⟩
      simp only [List.flatMap_append, List.append_assoc, hmore, hends.dropSemicolon_rest,
        List.nil_append]
      exact hends.spaceFor before chunk
    | cons p front' =>
      -- it stands behind the next one
      rw [hends.pieces, List.cons_append, List.cons_append] at hrest
      obtain ⟨rfl, hbehind⟩ := List.cons.inj hrest
      obtain ⟨front', rfl, hlater⟩ := exists_append_of_scope hbehind fun p hp => by
        rcases List.mem_append.mp hp with hp | hp
        · rw [scope_of_mem_linePieces p hp]
          nofun
        · exact hends.scope_of_mem p hp
      obtain ⟨pre, hpre, hsame⟩ := ih hlater
      obtain ⟨behind, hbehind⟩ := exists_rest_of_pieces hlater hpre
      obtain ⟨y, htext, hspace⟩ := hends.exists_space hbehind
      have hfronttext : front.flatMap Piece.text = chunk.reverse ++ (head' ++ y ++ pre) := by
        rw [hfront, List.flatMap_append, flatMap_linePieces, ← htext, hends.pieces]
        simpa using hpre
      have hlast : (head' ++ y).getLast?.or before =
          (readDirective ['?', '>'] head' .block inner).before := by
        rw [← htext, hends.getLast?_text]
        exact Option.or_of_isSome (Option.isSome_iff_ne_none.mpr hends.before_ne_none)
      refine ⟨head' ++ y ++ pre, hfronttext, fun hkey => ?_⟩
      have hread : ∀ post, includeHead? Syntax.default.includeKeyword.toList before
          (head' ++ (y ++ (pre ++ ' ' :: post))) = some (head', y ++ (pre ++ ' ' :: post)) :=
        fun post => includeHead?_head (by decide) hhead _
      simp only [List.append_assoc, readBody_directive (hread _), hspace]
      exact hends.spaceFor_behind chunk <| hsame fun hends' =>
        hkey (EndsInKeyword.append (head' ++ y) (hlast ▸ hends'))

end

/-! ## Regions -/

/-- The scopes of the marks of a directive. -/
def Scope.marksDirective : Scope → Bool
  | includeBegin | includeEnd | delimiter => true
  | _ => false

/-- A region has pieces of its own scope, and directives if it may have them. -/
theorem scope_of_mem_readBody (scope : Scope) (includes : Bool) (before : Option Char)
    (quoting : Quoting) (chunk cs : List Char) :
    ∀ p ∈ (readBody .default scope includes before quoting chunk cs).pieces,
      p.scope = scope ∨ includes = true ∧ p.scope.marksDirective = true := by
  have hlines : ∀ cs, ∀ p ∈ linePieces scope cs,
      p.scope = scope ∨ includes = true ∧ p.scope.marksDirective = true :=
    fun cs p hp => .inl (scope_of_mem_linePieces p hp)
  induction before, quoting, chunk, cs using readBody_rec scope includes with
  | nil before quoting chunk =>
    rw [readBody_nil]
    exact hlines _
  | close before chunk behind =>
    rw [readBody_close]
    exact hlines _
  | pass before quoting chunk c rest hpass ih =>
    rw [readBody_pass hpass]
    exact ih
  | directive before chunk head inner hincludes hhead ih =>
    subst hincludes
    rw [readBody_directive hhead]
    refine List.forall_mem_append.mpr ⟨List.forall_mem_append.mpr ⟨hlines _, ?_⟩, ih⟩
    rcases readDirective_cases ['?', '>'] head scope inner with
      ⟨-, hd⟩ | ⟨-, -, hd⟩ | ⟨-, _, -, hd⟩
    all_goals
      rw [hd]
      simp [Scope.marksDirective, or_imp, forall_and]
      try exact fun p hp => .inl (scope_of_mem_linePieces p hp)

namespace Draft

/-- A draft outside of all regions. -/
structure AtTop (d : Draft) : Prop where
  region : d.region = none
  inclusion : d.inclusion = none

/-- A draft in a region without an open directive, or in a block. -/
structure Within (d : Draft) (kind : RegionKind) : Prop where
  region : d.region = some kind
  text : d.text = none
  inclusion : kind = .block ∨ d.inclusion = none

variable {d : Draft}

theorem AtTop.run_text (h : d.AtTop) (cs : List Char) : (d.run (linePieces .text cs)).AtTop := by
  by_cases hcs : cs = []
  · subst hcs
    exact h
  · obtain ⟨done, text, region, inclusion⟩ := d
    obtain ⟨rfl, rfl⟩ : region = none ∧ inclusion = none := ⟨h.region, h.inclusion⟩
    rw [run_linePieces rfl hcs]
    unfold content
    rcases text with _ | ⟨old, text⟩
    · exact ⟨rfl, rfl⟩
    · dsimp only
      split <;> exact ⟨rfl, rfl⟩

theorem AtTop.step_open (h : d.AtTop) (inline : Bool) (opener : List Char) :
    (d.step ⟨if inline then .inlineOpen else .blockOpen, opener⟩).Within
      (if inline then .inlineWrite else .block) := by
  obtain ⟨done, text, region, inclusion⟩ := d
  obtain ⟨rfl, rfl⟩ : region = none ∧ inclusion = none := ⟨h.region, h.inclusion⟩
  cases inline <;> cases text <;> exact ⟨rfl, rfl, .inr rfl⟩

theorem Within.step {kind : RegionKind} (h : d.Within kind) {p : Piece}
    (hp : p.scope.isContent = true ∨ kind = .block ∧ p.scope.marksDirective = true) :
    (d.step p).Within kind := by
  obtain ⟨done, text, region, inclusion⟩ := d
  obtain ⟨rfl, rfl, hinclusion⟩ := h
  obtain ⟨scope, cs⟩ := p
  rcases hp with hcontent | ⟨rfl, hmarks⟩
  · by_cases hcs : cs = []
    · have hdelimiter : scope ≠ .delimiter := by
        rintro rfl
        cases hcontent
      simp only [Draft.step, hdelimiter, hcontent, hcs, if_true, if_false]
      exact ⟨rfl, rfl, hinclusion⟩
    · rw [step_content hcontent hcs]
      cases inclusion with
      | none => exact ⟨rfl, rfl, hinclusion⟩
      | some i => exact ⟨rfl, rfl, .inl (by simpa using hinclusion)⟩
  · cases scope with
    | includeBegin | includeEnd | delimiter =>
      cases inclusion <;> exact ⟨rfl, rfl, .inl rfl⟩
    | _ => cases hmarks

theorem Within.run {kind : RegionKind} (h : d.Within kind) {ps : List Piece}
    (hps : ∀ p ∈ ps, p.scope.isContent = true ∨ kind = .block ∧ p.scope.marksDirective = true) :
    (d.run ps).Within kind := by
  induction ps generalizing d with
  | nil => exact h
  | cons p ps ih =>
    exact ih (h.step (hps p List.mem_cons_self)) fun q hq => hps q (List.mem_cons_of_mem p hq)

theorem Within.step_close (inline : Bool) (closer : List Char)
    (h : d.Within (if inline then .inlineWrite else .block)) :
    (d.step ⟨if inline then .inlineClose else .blockClose, closer⟩).AtTop := by
  obtain ⟨done, text, region, inclusion⟩ := d
  obtain ⟨rfl, rfl, hinclusion⟩ := h
  cases inline with
  | false => cases inclusion <;> exact ⟨rfl, rfl⟩
  | true =>
    obtain rfl : inclusion = none := by simpa using hinclusion
    exact ⟨rfl, rfl⟩

end Draft

end Stencil.Template
