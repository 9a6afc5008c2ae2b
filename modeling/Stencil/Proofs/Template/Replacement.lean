import Stencil.Proofs.Template.Directive

/-! # A space for a directive in a template

A template is taken apart region by region.  What stands in front of a region, and what stands
behind it, is read whatever the region holds, so a space that takes the place of a directive in one
of them takes its place in the outline of the whole template.
-/
namespace Stencil.Template

/-- The pieces of a text under the default syntax. -/
abbrev defaultPieces (cs : List Char) : List Piece :=
  classifyFrom .default defaultOpeners ne_nil_of_mem_defaultOpeners cs

theorem pieces_default (cs : List Char) : pieces .default cs = defaultPieces cs :=
  classifyFrom_congr Syntax.openers_default _ _ cs

/-! ## Regions -/

/-- An opener that is found may be followed by what stands behind it. -/
theorem endsWord_of_findOpener? {openers : List (List Char)} {before cs b opener inner : List Char}
    (h : findOpener? openers before cs = some (b, opener, inner)) :
    opener ∈ openers ∧ endsWord opener inner = true := by
  induction cs generalizing before with
  | nil => cases h
  | cons c cs ih =>
    rw [findOpener?] at h
    split at h
    · rename_i o rest hsome
      simp only [Option.some.injEq, Prod.mk.injEq] at h
      obtain ⟨rfl, rfl, rfl⟩ := h
      obtain ⟨o', ho, hfound⟩ := List.exists_of_findSome?_eq_some hsome
      split at hfound
      · split at hfound
        · rename_i hword
          obtain ⟨rfl, rfl⟩ := Prod.mk.inj (Option.some.inj hfound)
          exact ⟨ho, hword⟩
        · cases hfound
      · cases hfound
    · exact ih h

/-- A keyword does not stand right behind the opener of a block. -/
theorem head?_ne_of_block {before cs b opener inner : List Char}
    (h : findOpener? defaultOpeners before cs = some (b, opener, inner))
    (hblock : Syntax.default.isInline opener = false) : inner.head? ≠ some 'i' := by
  intro hhead
  obtain ⟨hmem, hword⟩ := endsWord_of_findOpener? h
  have hletter : endsWord opener inner = endsWord opener ['i'] := endsWord_congr hhead
  rw [hletter] at hword
  have hopeners : ∀ o ∈ defaultOpeners, Syntax.default.isInline o = false →
      endsWord o ['i'] = false := by decide +kernel
  rw [hopeners opener hmem hblock] at hword
  cases hword

/-- A keyword at the beginning of a text does not continue a closer. -/
theorem EndsInKeyword.behind_closer {cs : List Char} {before : Option Char}
    (h : EndsInKeyword none cs) : EndsInKeyword ((['?', '>'].getLast?).or before) cs := by
  obtain ⟨text, gap, hcs, hgap, hjoin⟩ := h
  refine ⟨text, gap, hcs, hgap, ?_⟩
  cases hlast : text.getLast? with
  | none =>
    show joinsKeyword '>' = false
    decide +kernel
  | some c => rwa [hlast] at hjoin

/-- What the first region of a text is, and what stands around it. -/
structure FirstRegion (cs before opener inner : List Char) (body : Body) : Prop where
  found : findOpener? defaultOpeners [] cs = some (before, opener, inner)
  read : readBody .default (if Syntax.default.isInline opener then .inlineWrite else .block)
    (!Syntax.default.isInline opener) opener.getLast? .outside [] inner = body

/-- The mark at the beginning of a region. -/
def openMark (opener : List Char) : Piece :=
  ⟨if Syntax.default.isInline opener then .inlineOpen else .blockOpen, opener⟩

/-- The mark at the end of a region, and all pieces behind it. -/
def piecesBehind (opener : List Char) : Option (List Char) → List Piece
  | none => []
  | some behind => ⟨if Syntax.default.isInline opener then .inlineClose else .blockClose,
      Syntax.default.closer.toList⟩ :: defaultPieces behind

namespace FirstRegion

variable {cs before opener inner : List Char} {body : Body}

theorem pieces_eq (h : FirstRegion cs before opener inner body) :
    defaultPieces cs =
      linePieces .text before ++ (openMark opener :: (body.pieces ++ piecesBehind opener body.rest?)) := by
  rw [defaultPieces, classifyFrom_of_some h.found h.read, List.append_assoc, List.cons_append]
  cases body.rest? <;> rfl

/-- The text behind the region is shorter. -/
theorem length_lt (h : FirstRegion cs before opener inner body) {behind : List Char}
    (hrest : body.rest? = some behind) : behind.length < cs.length := by
  have hlength := findOpener?_length h.found
  have hbody := readBody_length (h.read ▸ hrest)
  have hne := List.length_pos_iff.mpr (ne_nil_of_mem_defaultOpeners opener hlength.1)
  omega

/-- The region is found in the same place if something else stands in it or behind it. -/
theorem replace (h : FirstRegion cs before opener inner body) {inner' : List Char}
    (hhead : inner'.head? = inner.head?) :
    FirstRegion (before ++ (opener ++ inner')) before opener inner'
      (readBody .default (if Syntax.default.isInline opener then .inlineWrite else .block)
        (!Syntax.default.isInline opener) opener.getLast? .outside [] inner') := by
  obtain ⟨pre, hbefore, -, hfind⟩ := findOpener?_replace hhead h.found
  obtain rfl : before = pre := hbefore
  exact ⟨hfind, rfl⟩

end FirstRegion

theorem exists_firstRegion {cs : List Char} (h : defaultPieces cs ≠ linePieces .text cs) :
    ∃ before opener inner body, FirstRegion cs before opener inner body := by
  cases hfound : findOpener? defaultOpeners [] cs with
  | none =>
    refine absurd ?_ h
    unfold defaultPieces
    rw [classifyFrom]
    split
    · rfl
    · rename_i hsome
      rw [hfound] at hsome
      cases hsome
  | some found => exact ⟨found.1, found.2.1, found.2.2, _, hfound, rfl⟩

theorem flatMap_piecesBehind (opener : List Char) (rest? : Option (List Char)) :
    (piecesBehind opener rest?).flatMap Piece.text =
      rest?.elim [] fun behind => '?' :: '>' :: behind := by
  cases rest? with
  | none => rfl
  | some behind =>
    rw [piecesBehind, List.flatMap_cons, flatMap_classifyFrom, toList_closer_default]
    rfl

theorem scope_piecesBehind {opener : List Char} {rest? : Option (List Char)} {p : Piece}
    {ps : List Piece} (h : piecesBehind opener rest? = p :: ps) :
    p.scope = if Syntax.default.isInline opener then .inlineClose else .blockClose := by
  cases rest? with
  | none => cases h
  | some behind =>
    obtain ⟨rfl, -⟩ := List.cons.inj h
    rfl

/-! ## Drafts of a first region -/

namespace Draft

variable {d : Draft}

theorem AtTop.step_blockOpen (h : d.AtTop) (opener : List Char) :
    d.step ⟨.blockOpen, opener⟩ = inBlock.behind d.flush.done := by
  obtain ⟨done, text, region, inclusion⟩ := d
  obtain ⟨rfl, rfl⟩ : region = none ∧ inclusion = none := ⟨h.region, h.inclusion⟩
  cases text <;>
    simp [step, Scope.isContent, flush, boundary, stepRegion, inBlock, behind]

/-- A draft outside of all regions is there again behind a region. -/
theorem AtTop.run_region (h : d.AtTop) (before opener inner : List Char) (closer : List Char) :
    (d.run (linePieces .text before ++ (openMark opener ::
      ((readBody .default (if Syntax.default.isInline opener then .inlineWrite else .block)
        (!Syntax.default.isInline opener) opener.getLast? .outside [] inner).pieces ++
        [⟨if Syntax.default.isInline opener then .inlineClose else .blockClose, closer⟩])))).AtTop := by
  rw [run_append, run_cons, run_append]
  refine Within.step_close _ closer (((h.run_text before).step_open _ opener).run fun p hp => ?_)
  rcases scope_of_mem_readBody _ _ _ _ _ _ p hp with hscope | ⟨hblock, hmarks⟩
  · left
    rw [hscope]
    split <;> rfl
  · right
    obtain hblock : Syntax.default.isInline opener = false := by simpa using hblock
    exact ⟨by simp [hblock], hmarks⟩

/-- What a block is drafted as stands between what is drafted in front of it and behind it. -/
theorem AtTop.outline_block (h : d.AtTop) {before opener : List Char} {ps qs : List Piece}
    {front : List Symbol} {x : Symbol} {r : Draft}
    (hblock : Syntax.default.isInline opener = false)
    (hrun : inBlock.run ps = r.behind (front ++ [x])) :
    (d.run (linePieces .text before ++ (openMark opener :: (ps ++ qs)))).outline =
      (d.run (linePieces .text before)).flush.done ++ front ++ x :: (r.run qs).outline := by
  have hopen : openMark opener = ⟨.blockOpen, opener⟩ := by simp [openMark, hblock]
  rw [run_append, run_cons, hopen, (h.run_text before).step_blockOpen, run_behind, run_append,
    hrun, run_behind, outline_behind, outline_behind]
  simp

end Draft

/-! ## Whole texts -/

/-- A directive begins with the first character of the keyword. -/
theorem head?_of_mem_readBody (scope : Scope) (hscope : scope ≠ .includeBegin) (includes : Bool)
    (before : Option Char) (quoting : Quoting) (chunk cs : List Char) :
    ∀ p ∈ (readBody .default scope includes before quoting chunk cs).pieces,
      p.scope = .includeBegin → p.text.head? = some 'i' := by
  have hlines : ∀ cs, ∀ p ∈ linePieces scope cs, p.scope = .includeBegin →
      p.text.head? = some 'i' :=
    fun cs p hp hbegin => absurd ((scope_of_mem_linePieces p hp).symm.trans hbegin) hscope
  induction before, quoting, chunk, cs using readBody_rec scope includes with
  | nil before quoting chunk =>
    rw [readBody_nil]
    exact hlines _
  | close before chunk behind =>
    rw [readBody_close]
    exact hlines _
  | pass before quoting chunk c rest hpass ih =>
    rw [readBody_pass hpass]
    exact ih
  | directive before chunk head inner hincludes hhead ih =>
    subst hincludes
    rw [readBody_directive hhead]
    refine List.forall_mem_append.mpr ⟨List.forall_mem_append.mpr ⟨hlines _, ?_⟩, ih⟩
    obtain ⟨⟨tail, rfl⟩, -⟩ := head_default hhead
    rcases readDirective_cases ['?', '>'] ('i' :: tail) scope inner with
      ⟨-, hd⟩ | ⟨-, -, hd⟩ | ⟨-, _, -, hd⟩
    all_goals
      rw [hd]
      simp [or_imp, forall_and]
      try exact hlines _

/-- The pieces of a directive stand in a list, and are not cut by the end of the region. -/
theorem exists_of_directive_append {args : List Char} {back ps qs : List Piece} {e : Piece}
    (h : linePieces .block args ++ e :: back = ps ++ qs)
    (hqs : ∀ q more, qs = q :: more → q.scope ≠ .block ∧ q ≠ e) :
    ∃ back', ps = linePieces .block args ++ e :: back' ∧ back = back' ++ qs := by
  rcases List.append_eq_append_iff.mp h with ⟨more, hps, hmore⟩ | ⟨more, hargs, hmore⟩
  · cases more with
    | nil => exact absurd rfl (hqs e back hmore.symm).2
    | cons x more =>
      obtain ⟨rfl, hback⟩ := List.cons.inj hmore
      exact ⟨more, hps, hback⟩
  · cases more with
    | nil => exact absurd rfl (hqs e back hmore).2
    | cons x more =>
      have hscope : x.scope = .block := scope_of_mem_linePieces x (by rw [hargs]; simp)
      exact absurd hscope (hqs x _ hmore).1

/-- Two texts have the same outline but for a directive of the one that is a space in the other. -/
def SpaceFor (args : List String) (d : Draft) (cs cs' : List Char) : Prop :=
  ∃ a b, (d.run (defaultPieces cs)).outline = a ++ .directive args :: b ∧
    (d.run (defaultPieces cs')).outline = a ++ .char ' ' :: b

section
variable {cs before opener inner args head : List Char} {body : Body} {d : Draft}
  {front back : List Piece}

/-- A space for a directive in the first region. -/
theorem FirstRegion.spaceFor (hr : FirstRegion cs before opener inner body) (hd : d.AtTop)
    (h : body.pieces =
      front ++ ⟨.includeBegin, head⟩ :: (linePieces .block args ++ ⟨.includeEnd, [')']⟩ :: back))
    (hkey : ¬ EndsInKeyword none (before ++ (opener ++ front.flatMap Piece.text))) :
    SpaceFor (splitArguments (.ofList args)) d cs
      (before ++ (opener ++ front.flatMap Piece.text) ++
        ' ' :: dropSemicolon ((back ++ piecesBehind opener body.rest?).flatMap Piece.text)) := by
  -- only blocks have directives
  have hblock : Syntax.default.isInline opener = false := by
    have hmem : (⟨.includeBegin, head⟩ : Piece) ∈ body.pieces := by rw [h]; simp
    rw [← hr.read] at hmem
    rcases scope_of_mem_readBody _ _ _ _ _ _ _ hmem with hscope | ⟨hblock, -⟩
    · split at hscope <;> cases hscope
    · simpa using hblock
  have hread := hr.read
  simp only [hblock, Bool.false_eq_true, if_false, Bool.not_false] at hread
  have hbegin : head.head? = some 'i' :=
    head?_of_mem_readBody .block nofun true opener.getLast? .outside [] inner ⟨.includeBegin, head⟩
      (by rw [hread, h]; simp) rfl
  rw [← hread] at h
  obtain ⟨pre, hpre, hreplace⟩ := readBody_replace h
  rw [List.reverse_nil, List.nil_append] at hpre
  obtain ⟨behind, hinner⟩ :=
    exists_rest_of_pieces h (show _ = ([] : List Char).reverse ++ pre by simpa using hpre)
  rw [hpre] at hkey ⊢
  have hlast : ¬ EndsInKeyword opener.getLast? pre := fun hends => hkey <| by
    rw [← List.append_assoc]
    refine EndsInKeyword.append (before ++ opener) ?_
    have hne := ne_nil_of_mem_defaultOpeners opener (findOpener?_length hr.found).1
    obtain ⟨last, hopener⟩ := List.getLast?_isSome.mpr hne |> Option.isSome_iff_exists.mp
    rw [List.getLast?_append, hopener]
    rwa [hopener] at hends
  obtain ⟨hrest, passed, r, hrun, hrun'⟩ := hreplace hlast
  rw [hread] at hrest hrun hrun'
  rw [List.flatMap_append, flatMap_piecesBehind]
  generalize dropSemicolon _ = post at *
  -- the character behind the opener is the same as before
  have hhead : (pre ++ ' ' :: post).head? = inner.head? := by
    cases pre with
    | nil =>
      refine absurd ?_ (head?_ne_of_block hr.found hblock)
      rw [hinner, List.nil_append, List.head?_append, hbegin]
      rfl
    | cons c pre => rw [hinner]; rfl
  have hr' := hr.replace hhead
  simp only [hblock, Bool.false_eq_true, if_false, Bool.not_false] at hr'
  have htext : before ++ (opener ++ pre) ++ ' ' :: post =
      before ++ (opener ++ (pre ++ ' ' :: post)) := by simp
  refine ⟨(d.run (linePieces .text before)).flush.done ++ passed,
    (r.run (piecesBehind opener body.rest?)).outline, ?_, ?_⟩
  · rw [hr.pieces_eq, hd.outline_block hblock hrun]
  · rw [htext, hr'.pieces_eq, hrest, hd.outline_block hblock hrun']

/-- A space for a directive behind the first region. -/
theorem FirstRegion.spaceFor_behind (hr : FirstRegion cs before opener inner body) (hd : d.AtTop)
    {arguments : List String} {behind behind' : List Char} (hrest : body.rest? = some behind)
    (h : ∀ d' : Draft, d'.AtTop → SpaceFor arguments d' behind behind') :
    SpaceFor arguments d cs
      (before ++ (opener ++ (body.pieces.flatMap Piece.text ++ '?' :: '>' :: behind'))) := by
  have hread := hr.read
  have hrest' := hrest
  rw [← hread] at hrest'
  obtain ⟨x, hinner, hlocal⟩ := readBody_behind hrest'
  -- the region holds the text in front of its closer
  have htext := readBody_append .default
    (if Syntax.default.isInline opener then .inlineWrite else .block)
    (!Syntax.default.isInline opener) opener.getLast? .outside [] inner
  simp only [hread, hrest, Option.elim_some, toList_closer_default, List.reverse_nil,
    List.nil_append, List.cons_append] at htext
  obtain rfl : body.pieces.flatMap Piece.text = x := by
    rw [hinner] at htext
    exact List.append_cancel_right htext
  have hhead : (body.pieces.flatMap Piece.text ++ '?' :: '>' :: behind').head? = inner.head? := by
    rw [hinner]
    cases body.pieces.flatMap Piece.text <;> rfl
  have hr' := hr.replace hhead
  rw [hlocal behind', hread] at hr'
  have hsame := hd.run_region before opener inner Syntax.default.closer.toList
  rw [hread] at hsame
  obtain ⟨a, b, hrun, hrun'⟩ := h _ hsame
  refine ⟨a, b, ?_, ?_⟩
  · rw [← hrun, hr.pieces_eq, hrest, piecesBehind, ← Draft.run_append]
    simp
  · rw [← hrun', hr'.pieces_eq, piecesBehind, ← Draft.run_append]
    simp

/-- What stands behind a region begins with its closer. -/
theorem head_piecesBehind {opener : List Char} {rest? : Option (List Char)} {q : Piece}
    {more : List Piece} (h : piecesBehind opener rest? = q :: more) :
    q.scope ≠ .block ∧ q ≠ ⟨.includeEnd, [')']⟩ ∧ q.scope ≠ .includeBegin := by
  have hscope := scope_piecesBehind h
  refine ⟨?_, ?_, ?_⟩
  all_goals
    intro heq
    rw [heq] at hscope
    split at hscope <;> cases hscope

/-- A space for a directive in the pieces behind the first region, of which `more` stand in
front of it. -/
theorem FirstRegion.spaceFor_of_behind (hr : FirstRegion cs before opener inner body)
    (hd : d.AtTop) {more : List Piece}
    (hmore : piecesBehind opener body.rest? =
      more ++ ⟨.includeBegin, head⟩ :: (linePieces .block args ++ ⟨.includeEnd, [')']⟩ :: back))
    (hkey : ¬ EndsInKeyword none (before ++ (opener ++
      (body.pieces ++ more).flatMap Piece.text)))
    (h : ∀ {behind : List Char} {front : List Piece} {d' : Draft},
      behind.length < cs.length → d'.AtTop → defaultPieces behind =
        front ++ ⟨.includeBegin, head⟩ :: (linePieces .block args ++ ⟨.includeEnd, [')']⟩ :: back) →
      ¬ EndsInKeyword none (front.flatMap Piece.text) →
      SpaceFor (splitArguments (.ofList args)) d' behind
        (front.flatMap Piece.text ++ ' ' :: dropSemicolon (back.flatMap Piece.text))) :
    SpaceFor (splitArguments (.ofList args)) d cs
      (before ++ (opener ++ (body.pieces ++ more).flatMap Piece.text) ++
        ' ' :: dropSemicolon (back.flatMap Piece.text)) := by
  cases more with
  | nil => exact absurd rfl (head_piecesBehind hmore).2.2
  | cons q more =>
    cases hrest : body.rest? with
    | none =>
      rw [hrest] at hmore
      cases hmore
    | some behind =>
      rw [hrest] at hmore
      obtain ⟨hq, hpieces⟩ := List.cons.inj hmore
      have htext : (body.pieces ++ q :: more).flatMap Piece.text =
          body.pieces.flatMap Piece.text ++ '?' :: '>' :: more.flatMap Piece.text := by
        simp [← hq, toList_closer_default]
      rw [htext] at hkey ⊢
      simp only [List.append_assoc, List.cons_append]
      refine hr.spaceFor_behind hd hrest fun d' hd' =>
        h (hr.length_lt hrest) hd' hpieces fun hends => hkey ?_
      have hsplit : before ++ (opener ++
            (body.pieces.flatMap Piece.text ++ '?' :: '>' :: more.flatMap Piece.text)) =
          (before ++ opener ++ body.pieces.flatMap Piece.text ++ ['?', '>']) ++
            more.flatMap Piece.text := by simp
      rw [hsplit]
      refine EndsInKeyword.append _ ?_
      rw [List.getLast?_append]
      exact hends.behind_closer

end

/-- **A space takes the place of a directive.**  The text in which it stands for the directive, with
its parenthesis and a semicolon behind, has the same outline but for the directive, unless a keyword
stands in front that would find its parenthesis behind the space. -/
theorem spaceFor_of_pieces {cs head args : List Char} {front back : List Piece} {d : Draft}
    (hd : d.AtTop) (h : defaultPieces cs =
      front ++ ⟨.includeBegin, head⟩ :: (linePieces .block args ++ ⟨.includeEnd, [')']⟩ :: back))
    (hkey : ¬ EndsInKeyword none (front.flatMap Piece.text)) :
    SpaceFor (splitArguments (.ofList args)) d cs
      (front.flatMap Piece.text ++ ' ' :: dropSemicolon (back.flatMap Piece.text)) := by
  induction hlength : cs.length using Nat.strong_induction_on generalizing cs front d with
  | _ n ih =>
  subst hlength
  have hregion : defaultPieces cs ≠ linePieces .text cs := fun hplain => by
    cases scope_of_linePieces (hplain.symm.trans h)
  obtain ⟨before, opener, inner, body, hr⟩ := exists_firstRegion hregion
  have hpieces := hr.pieces_eq.symm.trans h
  obtain ⟨front', rfl, hopen⟩ := exists_append_of_scope hpieces fun p hp => by
    rw [scope_of_mem_linePieces p hp]
    nofun
  cases front' with
  | nil =>
    have hscope := congrArg Piece.scope (List.cons.inj hopen).1
    simp only [openMark] at hscope
    split at hscope <;> cases hscope
  | cons p front =>
    obtain ⟨rfl, hregion⟩ := List.cons.inj hopen
    have hfront : (linePieces .text before ++ openMark opener :: front).flatMap Piece.text =
        before ++ (opener ++ front.flatMap Piece.text) := by
      simp [flatMap_linePieces, openMark]
    rw [hfront] at hkey ⊢
    -- the directive stands in the first region or behind it
    rcases List.append_eq_append_iff.mp hregion with ⟨more, rfl, hmore⟩ | ⟨more, hbody, hmore⟩
    · exact hr.spaceFor_of_behind hd hmore hkey fun hlt hd' h' hkey' => ih _ hlt hd' h' hkey' rfl
    · cases more with
      | nil => exact absurd rfl (head_piecesBehind hmore.symm).2.2
      | cons x more =>
        obtain ⟨rfl, hrest⟩ := List.cons.inj hmore
        obtain ⟨back', hargs, rfl⟩ := exists_of_directive_append hrest fun q rest hq =>
          ⟨(head_piecesBehind hq).1, (head_piecesBehind hq).2.1⟩
        exact hr.spaceFor hd (by rw [hbody, hargs]) hkey

end Stencil.Template
