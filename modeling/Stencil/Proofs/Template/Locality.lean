import Mathlib.Data.List.TakeWhile
import Stencil.Proofs.Template.Default
import Stencil.Proofs.Template.Placement

/-! # What a scanner looks at

A text is taken apart from left to right.  How far a part of it reaches is decided by the part
itself and by one character behind it at most, so that the text behind may be exchanged: a directive
goes on to its parenthesis, a region to its closer, and an opener is found at the same place.  This
is said of the default syntax, whose marks do not run into one another.
-/
namespace Stencil.Template

/-! ## Marks -/

/-- A character that makes one word or one member with a keyword behind it. -/
def joinsKeyword (c : Char) : Bool := isNameChar c || c == '.'

/-- A character that may stand between a keyword and its parenthesis. -/
def isGap (c : Char) : Bool := c == ' ' || c == '\t'

/-- The beginning of a directive is the keyword and a parenthesis, with nothing but blanks between
them. -/
theorem includeHead?_eq_some_iff {keyword cs head rest : List Char} {before : Option Char}
    (hne : keyword ≠ []) : includeHead? keyword before cs = some (head, rest) ↔
      before.any joinsKeyword = false ∧ ∃ gap, (∀ c ∈ gap, isGap c = true) ∧
        head = keyword ++ gap ++ ['('] ∧ cs = head ++ rest := by
  have hempty : keyword.isEmpty = false := by simpa using hne
  have hjoin : (before.any fun p => isNameChar p || p == '.') = before.any joinsKeyword := rfl
  unfold includeHead?
  rw [hempty, Bool.false_or, hjoin]
  by_cases hbefore : before.any joinsKeyword = true
  · simp [hbefore]
  · rw [if_neg hbefore]
    simp only [hbefore, true_and]
    constructor
    · intro h
      split at h
      · cases h
      · rename_i behind hbehind
        obtain rfl := stripStart?_eq_some_iff.mp hbehind
        split at h
        · rename_i rest' hrest
          obtain ⟨rfl, rfl⟩ := Prod.mk.inj (Option.some.inj h)
          refine ⟨behind.takeWhile isGap, fun c hc => List.mem_takeWhile_imp hc, rfl, ?_⟩
          have hsplit := List.takeWhile_append_dropWhile (p := isGap) (l := behind)
          have hdrop : behind.dropWhile isGap = '(' :: rest' := hrest
          rw [hdrop] at hsplit
          rw [List.append_assoc, List.append_assoc]
          exact congrArg (keyword ++ ·) hsplit.symm
        · cases h
    · rintro ⟨gap, hgap, rfl, rfl⟩
      have hstrip : stripStart? keyword (keyword ++ gap ++ ['('] ++ rest) =
          some (gap ++ '(' :: rest) := stripStart?_eq_some_iff.mpr (by simp)
      have hdrop : (gap ++ '(' :: rest).dropWhile (fun c => c == ' ' || c == '\t') =
          '(' :: rest := List.dropWhile_append_of_pos (p := isGap) hgap
      have htake : (gap ++ '(' :: rest).takeWhile (fun c => c == ' ' || c == '\t') = gap :=
        (List.takeWhile_append_of_pos (p := isGap) hgap).trans (List.append_nil gap)
      rw [hstrip]
      simp only [hdrop, htake]

/-- The beginning of a directive does not depend on what stands behind it. -/
theorem includeHead?_head {keyword head rest : List Char} {before : Option Char}
    (hne : keyword ≠ []) (h : includeHead? keyword before (head ++ rest) = some (head, rest))
    (rest' : List Char) : includeHead? keyword before (head ++ rest') = some (head, rest') := by
  obtain ⟨hbefore, gap, hgap, hhead, -⟩ := (includeHead?_eq_some_iff hne).mp h
  exact (includeHead?_eq_some_iff hne).mpr ⟨hbefore, gap, hgap, hhead, rfl⟩

/-- If a directive begins at a place only when the text further behind is exchanged, its beginning
reaches into what is exchanged. -/
theorem includeHead?_straddles {keyword y z z' head rest : List Char} {before : Option Char}
    (hne : keyword ≠ []) (h : includeHead? keyword before (y ++ z) = none)
    (h' : includeHead? keyword before (y ++ z') = some (head, rest)) :
    ∃ ahead, ahead ≠ [] ∧ head = y ++ ahead ∧ z' = ahead ++ rest := by
  obtain ⟨hbefore, gap, hgap, hhead, hsplit⟩ := (includeHead?_eq_some_iff hne).mp h'
  rcases List.append_eq_append_iff.mp hsplit with ⟨ahead, hahead, hz⟩ | ⟨passed, hpassed, hrest⟩
  · refine ⟨ahead, ?_, hahead, hz⟩
    rintro rfl
    rw [List.append_nil] at hahead
    have hthere : includeHead? keyword before (y ++ z) = some (head, z) :=
      (includeHead?_eq_some_iff hne).mpr ⟨hbefore, gap, hgap, hhead, by rw [hahead]⟩
    rw [h] at hthere
    cases hthere
  · have hthere : includeHead? keyword before (y ++ z) = some (head, passed ++ z) :=
      (includeHead?_eq_some_iff hne).mpr
        ⟨hbefore, gap, hgap, hhead, by rw [hpassed, List.append_assoc]⟩
    rw [h] at hthere
    cases hthere

/-- The closer is not found at a place that has only the first half of it, whatever stands further
behind. -/
theorem closer_replace {c : Char} {pre z z' : List Char}
    (h : stripStart? ['?', '>'] (c :: (pre ++ z)) = none) (hz : pre = [] → z'.head? ≠ some '>') :
    stripStart? ['?', '>'] (c :: (pre ++ z')) = none := by
  rw [Option.eq_none_iff_forall_ne_some] at h ⊢
  intro behind hsome
  obtain ⟨rfl, hbehind⟩ := List.cons.inj (stripStart?_eq_some_iff.mp hsome)
  cases pre with
  | nil => exact hz rfl (by rw [show z' = '>' :: behind from hbehind]; rfl)
  | cons b pre =>
    obtain ⟨rfl, -⟩ := List.cons.inj hbehind
    exact h (pre ++ z) rfl

theorem isPrefixOf_eq_isSome {needle cs : List Char} :
    needle.isPrefixOf cs = (stripStart? needle cs).isSome := by
  rw [Bool.eq_iff_iff, List.isPrefixOf_iff_prefix, Option.isSome_iff_exists]
  exact exists_congr fun rest => eq_comm.trans stripStart?_eq_some_iff.symm

/-! ## Directives -/

/-- The arguments of a directive end at a parenthesis whatever stands behind it, and at a closer
whatever stands behind that. -/
theorem readArguments_local (quoting : Quoting) (depth : Nat) (done cs : List Char) :
    let l := readArguments ['?', '>'] quoting depth done cs
    ∃ y, cs = y ++ l.rest ∧ ∀ rest',
      (l.closed = false → ['?', '>'] <+: l.rest ∧ ['?', '>'] <+: rest') →
      readArguments ['?', '>'] quoting depth done (y ++ rest') = ⟨l.text, l.closed, rest'⟩ := by
  induction cs generalizing quoting depth done with
  | nil => exact ⟨[], rfl, fun rest' h => by simpa [readArguments] using (h rfl).1⟩
  | cons c cs ih =>
    by_cases hquoting : quoting = .outside
    · subst hquoting
      by_cases hclose : ['?', '>'].isPrefixOf (c :: cs) = true
      · refine ⟨[], by simp [readArguments, hclose], fun rest' h => ?_⟩
        simp only [readArguments, hclose, if_true] at h ⊢
        obtain ⟨-, behind, rfl⟩ := h trivial
        simp [readArguments]
      · by_cases hend : (c == ')' && depth == 0) = true
        · obtain ⟨rfl, rfl⟩ : c = ')' ∧ depth = 0 := by simpa using hend
          exact ⟨[')'], by simp [readArguments, hclose], fun rest' _ => by simp [readArguments]⟩
        · obtain ⟨y, hcs, hread⟩ :=
            ih (Quoting.outside.step c) (depthBehind depth c) (c :: done)
          rw [readArguments, if_pos rfl, if_neg hclose, if_neg hend]
          refine ⟨c :: y, congrArg (c :: ·) hcs, fun rest' h => ?_⟩
          -- the arguments go on, so that their end is not yet the one behind `c`
          have hnone : stripStart? ['?', '>'] (c :: (y ++ rest')) = none := by
            rw [isPrefixOf_eq_isSome, hcs] at hclose
            refine closer_replace (Option.not_isSome_iff_eq_none.mp hclose) ?_
            rintro rfl hhead
            generalize readArguments ['?', '>'] _ _ (c :: done) cs = l at hread h
            cases hclosed : l.closed with
            | true =>
              have hnil := hread [] fun hopen => by rw [hclosed] at hopen; cases hopen
              rw [hclosed] at hnil
              simp [readArguments] at hnil
            | false =>
              obtain ⟨-, behind, rfl⟩ := h hclosed
              cases hhead
          rw [List.cons_append, readArguments, if_pos rfl, isPrefixOf_eq_isSome, hnone,
            if_neg (by simp), if_neg hend]
          exact hread rest' h
    · obtain ⟨y, hcs, hread⟩ := ih (quoting.step c) depth (c :: done)
      rw [readArguments, if_neg hquoting]
      refine ⟨c :: y, congrArg (c :: ·) hcs, fun rest' h => ?_⟩
      rw [List.cons_append, readArguments, if_neg hquoting]
      exact hread rest' h

/-- How a directive that has been read ends: at the closer, with a parenthesis, or with a semicolon
as well. -/
theorem readDirective_cases (closer head : List Char) (scope : Scope) (inner : List Char) :
    let l := readArguments closer .outside 0 [] inner
    let begun := ⟨.includeBegin, head⟩ :: linePieces scope l.text
    l.closed = false ∧ readDirective closer head scope inner = ⟨begun, none, l.rest⟩ ∨
    l.closed = true ∧ l.rest.head? ≠ some ';' ∧
      readDirective closer head scope inner =
        ⟨begun ++ [⟨.includeEnd, [')']⟩], some ')', l.rest⟩ ∨
    l.closed = true ∧ ∃ rest, l.rest = ';' :: rest ∧
      readDirective closer head scope inner =
        ⟨begun ++ [⟨.includeEnd, [')']⟩, ⟨.delimiter, [';']⟩], some ';', rest⟩ := by
  unfold readDirective
  generalize readArguments closer .outside 0 [] inner = l
  obtain ⟨text, closed, rest⟩ := l
  cases closed with
  | false => exact .inl ⟨rfl, rfl⟩
  | true =>
    by_cases hsemicolon : rest.head? = some ';'
    · obtain ⟨more, rfl⟩ := List.head?_eq_some_iff.mp hsemicolon
      exact .inr (.inr ⟨rfl, more, rfl, by simp⟩)
    · exact .inr (.inl ⟨rfl, hsemicolon, by simp [hsemicolon]⟩)

/-- Arguments that no parenthesis ends go on to a closer, or to the end of the text. -/
theorem rest_of_open {closer : List Char} {quoting : Quoting} {depth : Nat} {done cs : List Char}
    (h : (readArguments closer quoting depth done cs).closed = false) :
    (readArguments closer quoting depth done cs).rest = [] ∨
      closer <+: (readArguments closer quoting depth done cs).rest := by
  fun_induction readArguments closer quoting depth done cs with
  | case1 => exact .inl rfl
  | case2 _ _ c cs hclose => exact .inr (List.isPrefixOf_iff_prefix.mp hclose)
  | case3 => cases h
  | case4 _ _ _ _ _ _ ih => exact ih h
  | case5 _ _ _ _ _ _ ih => exact ih h

/-- A directive goes on to its end whatever stands behind it: behind a closer that ends it, behind
its semicolon, or behind its parenthesis if that is no semicolon. -/
theorem readDirective_local (head : List Char) (scope : Scope) (inner : List Char) :
    let d := readDirective ['?', '>'] head scope inner
    ∃ y, inner = y ++ d.rest ∧ ∀ rest',
      (d.before = none → ['?', '>'] <+: d.rest ∧ ['?', '>'] <+: rest') →
      (d.before = some ')' → rest'.head? ≠ some ';') →
      readDirective ['?', '>'] head scope (y ++ rest') = ⟨d.pieces, d.before, rest'⟩ := by
  obtain ⟨y, hinner, hread⟩ := readArguments_local .outside 0 [] inner
  rcases readDirective_cases ['?', '>'] head scope inner with
    ⟨hclosed, hd⟩ | ⟨hclosed, -, hd⟩ | ⟨hclosed, more, hrest, hd⟩
  · rw [hd]
    refine ⟨y, hinner, fun rest' hopen _ => ?_⟩
    rw [readDirective, hread rest' fun _ => hopen rfl, hclosed]
    rfl
  · rw [hd]
    refine ⟨y, hinner, fun rest' _ hsemicolon => ?_⟩
    rw [readDirective, hread rest' fun h => (by rw [hclosed] at h; cases h), hclosed]
    simp [hsemicolon rfl]
  · rw [hd]
    refine ⟨y ++ [';'], by rw [List.append_assoc, hinner, hrest]; rfl, fun rest' _ _ => ?_⟩
    rw [readDirective, List.append_assoc,
      hread ([';'] ++ rest') fun h => (by rw [hclosed] at h; cases h), hclosed]
    simp

/-! ## Regions -/

/-- The keyword of the default syntax. -/
abbrev keyword : List Char := ['i', 'n', 'c', 'l', 'u', 'd', 'e']

section
variable {scope : Scope} {includes : Bool} {before : Option Char} {quoting : Quoting}
  {chunk head inner rest : List Char} {c : Char}

/-- A directive begins with the keyword, and the closer does not reach into its beginning. -/
theorem head_default {cs : List Char}
    (h : includeHead? keyword before cs = some (head, inner)) :
    (∃ tail, head = 'i' :: tail) ∧ '?' ∉ head := by
  obtain ⟨-, gap, hgap, rfl, -⟩ := (includeHead?_eq_some_iff (by decide)).mp h
  refine ⟨⟨_, rfl⟩, fun hmem => ?_⟩
  rcases List.mem_append.mp hmem with hmem | hmem
  · rcases List.mem_append.mp hmem with hmem | hmem
    · exact absurd hmem (by decide)
    · exact absurd (hgap _ hmem) (by decide)
  · exact absurd hmem (by decide)

/-- A character is passed in a region: it stands in a quoted text, or neither the closer nor a
directive begins with it. -/
def Passes (includes : Bool) (before : Option Char) (quoting : Quoting) (c : Char)
    (rest : List Char) : Prop :=
  quoting = .outside → stripStart? ['?', '>'] (c :: rest) = none ∧
    (isQuote c = false → includes = true → includeHead? keyword before (c :: rest) = none)

theorem readBody_nil : readBody .default scope includes before quoting chunk [] =
    ⟨linePieces scope chunk.reverse, none⟩ := by
  rw [readBody]

theorem readBody_close {behind : List Char} :
    readBody .default scope includes before .outside chunk ('?' :: '>' :: behind) =
      ⟨linePieces scope chunk.reverse, some behind⟩ := by
  rw [readBody]
  rfl

theorem readBody_pass (h : Passes includes before quoting c rest) :
    readBody .default scope includes before quoting chunk (c :: rest) =
      readBody .default scope includes (some c) (quoting.step c) (c :: chunk) rest := by
  rw [readBody, toList_closer_default, toList_includeKeyword_default]
  by_cases hquoting : quoting = .outside
  · subst hquoting
    obtain ⟨hclose, hhead⟩ := h rfl
    rw [if_neg (by simp), hclose]
    dsimp only
    by_cases hplain : (isQuote c || !includes) = true
    · rw [if_pos hplain]
    · obtain ⟨hquote, rfl⟩ : isQuote c = false ∧ includes = true := by simpa using hplain
      rw [if_neg hplain, Quoting.step, hquote]
      split
      · rfl
      · rename_i hsome
        rw [hhead hquote rfl] at hsome
        cases hsome
  · rw [if_pos hquoting]

theorem readBody_directive (h : includeHead? keyword before (head ++ inner) = some (head, inner)) :
    let d := readDirective ['?', '>'] head scope inner
    let more := readBody .default scope true d.before .outside [] d.rest
    readBody .default scope true before .outside chunk (head ++ inner) =
      ⟨linePieces scope chunk.reverse ++ d.pieces ++ more.pieces, more.rest?⟩ := by
  intro d more
  obtain ⟨⟨tail, rfl⟩, -⟩ := head_default h
  have hclose : stripStart? ['?', '>'] ('i' :: (tail ++ inner)) = none := rfl
  rw [List.cons_append, readBody, toList_closer_default, toList_includeKeyword_default,
    if_neg (by simp), hclose]
  dsimp only
  rw [if_neg (by decide)]
  split
  · rename_i hnone
    rw [← List.cons_append, h] at hnone
    cases hnone
  · rename_i hsome
    rw [← List.cons_append, h] at hsome
    obtain ⟨rfl, rfl⟩ := Prod.mk.inj (Option.some.inj hsome)
    rfl

/-- What a region begins with is its end, a character, or a directive. -/
@[elab_as_elim]
theorem readBody_rec (scope : Scope) (includes : Bool)
    {motive : Option Char → Quoting → List Char → List Char → Prop}
    (nil : ∀ before quoting chunk, motive before quoting chunk [])
    (close : ∀ before chunk behind, motive before .outside chunk ('?' :: '>' :: behind))
    (pass : ∀ before quoting chunk c rest, Passes includes before quoting c rest →
      motive (some c) (quoting.step c) (c :: chunk) rest → motive before quoting chunk (c :: rest))
    (directive : ∀ before chunk head inner, includes = true →
      includeHead? keyword before (head ++ inner) = some (head, inner) →
      motive (readDirective ['?', '>'] head scope inner).before .outside []
        (readDirective ['?', '>'] head scope inner).rest →
      motive before .outside chunk (head ++ inner))
    (before : Option Char) (quoting : Quoting) (chunk cs : List Char) :
    motive before quoting chunk cs := by
  fun_induction readBody .default scope includes before quoting chunk cs with
  | case1 => exact nil _ _ _
  | case2 before quoting chunk c rest hquoting ih =>
    exact pass _ _ _ _ _ (fun houtside => absurd houtside hquoting) ih
  | case3 before quoting chunk c rest hquoting behind hclose =>
    obtain rfl : quoting = .outside := by simpa using hquoting
    obtain hsplit : c :: rest = ['?', '>'] ++ behind := stripStart?_eq_some_iff.mp hclose
    rw [hsplit]
    exact close _ _ _
  | case4 before quoting chunk c rest hquoting hclose hplain ih =>
    obtain rfl : quoting = .outside := by simpa using hquoting
    refine pass _ _ _ _ _ (fun _ => ⟨hclose, fun hquote hincludes => ?_⟩) ih
    simp [hquote, hincludes] at hplain
  | case5 before quoting chunk c rest hquoting hclose hplain hhead ih =>
    obtain rfl : quoting = .outside := by simpa using hquoting
    obtain ⟨hquote, -⟩ : isQuote c = false ∧ includes = true := by simpa using hplain
    refine pass _ _ _ _ _ (fun _ => ⟨hclose, fun _ _ => hhead⟩) ?_
    rwa [Quoting.step, hquote]
  | case6 before quoting chunk c rest hquoting hclose hplain head inner hhead d more ih =>
    obtain rfl : quoting = .outside := by simpa using hquoting
    obtain ⟨-, hincludes⟩ : isQuote c = false ∧ includes = true := by simpa using hplain
    obtain ⟨-, hsplit⟩ := includeHead?_append hhead
    rw [hsplit] at hhead ⊢
    exact directive _ _ _ _ hincludes hhead ih

/-- A character that is passed is passed as well if the text further behind is exchanged, unless
this makes a closer or a directive. -/
theorem Passes.replace {pre z z' : List Char} (h : Passes includes before quoting c (pre ++ z))
    (hz : z'.head? ≠ some '>')
    (hhead : ∀ ahead head inner, ahead ≠ [] →
      includeHead? keyword before (c :: (pre ++ z')) = some (head, inner) →
      head = c :: pre ++ ahead → z' ≠ ahead ++ inner) :
    Passes includes before quoting c (pre ++ z') := by
  intro houtside
  obtain ⟨hclose, hnone⟩ := h houtside
  refine ⟨closer_replace hclose fun _ => hz, fun hquote hincludes => ?_⟩
  rw [Option.eq_none_iff_forall_ne_some]
  rintro ⟨head, inner⟩ hsome
  obtain ⟨ahead, hne, hsplit, hrest⟩ :=
    includeHead?_straddles (y := c :: pre) (by decide) (hnone hquote hincludes) hsome
  exact hhead ahead head inner hne hsome hsplit hrest

/-- Behind a directive that no parenthesis ends there is nothing but the closer. -/
theorem rest_of_before_none (h : (readDirective ['?', '>'] head scope inner).before = none) :
    let d := readDirective ['?', '>'] head scope inner
    d.rest = [] ∨ ∃ behind, d.rest = '?' :: '>' :: behind := by
  intro d
  rcases readDirective_cases ['?', '>'] head scope inner with
    ⟨hclosed, hd⟩ | ⟨-, -, hd⟩ | ⟨-, _, -, hd⟩
  · rw [show d.rest = _ from congrArg Directive.rest hd]
    rcases rest_of_open hclosed with hnil | ⟨behind, hbehind⟩
    · exact .inl hnil
    · exact .inr ⟨behind, hbehind.symm⟩
  · rw [hd] at h
    cases h
  · rw [hd] at h
    cases h

/-- Behind a directive that its parenthesis ends there is no semicolon. -/
theorem rest_of_before_parenthesis
    (h : (readDirective ['?', '>'] head scope inner).before = some ')') :
    (readDirective ['?', '>'] head scope inner).rest.head? ≠ some ';' := by
  rcases readDirective_cases ['?', '>'] head scope inner with
    ⟨-, hd⟩ | ⟨-, hsemicolon, hd⟩ | ⟨-, _, -, hd⟩
  · rw [hd] at h
    cases h
  · rwa [hd]
  · rw [hd] at h
    cases h

/-- A region goes on to its closer whatever stands behind that. -/
theorem readBody_behind {cs behind : List Char}
    (h : (readBody .default scope includes before quoting chunk cs).rest? = some behind) :
    ∃ x, cs = x ++ '?' :: '>' :: behind ∧ ∀ behind',
      readBody .default scope includes before quoting chunk (x ++ '?' :: '>' :: behind') =
        ⟨(readBody .default scope includes before quoting chunk cs).pieces, some behind'⟩ := by
  induction before, quoting, chunk, cs using readBody_rec scope includes with
  | nil before quoting chunk =>
    rw [readBody_nil] at h
    cases h
  | close before chunk behind' =>
    rw [readBody_close] at h ⊢
    obtain rfl := Option.some.inj h
    exact ⟨[], rfl, fun behind'' => readBody_close⟩
  | pass before quoting chunk c rest hpass ih =>
    rw [readBody_pass hpass] at h ⊢
    obtain ⟨x, rfl, hread⟩ := ih h
    refine ⟨c :: x, rfl, fun behind' => ?_⟩
    have hpass' : Passes includes before quoting c (x ++ '?' :: '>' :: behind') := by
      refine hpass.replace (by simp) fun ahead head inner hne hsome hhead hbehind => ?_
      cases ahead with
      | nil => exact hne rfl
      | cons a ahead =>
        obtain ⟨rfl, -⟩ := List.cons.inj hbehind
        exact (head_default hsome).2 (by simp [hhead])
    rw [List.cons_append, readBody_pass hpass']
    exact hread behind'
  | directive before chunk head inner hincludes hhead ih =>
    subst hincludes
    rw [readBody_directive hhead] at h ⊢
    obtain ⟨y, hinner, hread⟩ := readDirective_local head scope inner
    obtain ⟨x, hrest, hmore⟩ := ih h
    refine ⟨head ++ (y ++ x), by rw [hinner, hrest]; simp, fun behind' => ?_⟩
    have hread' := hread (x ++ '?' :: '>' :: behind') ?_ ?_
    · have hsplit : head ++ (y ++ x) ++ '?' :: '>' :: behind' =
          head ++ (y ++ (x ++ '?' :: '>' :: behind')) := by simp
      rw [hsplit, readBody_directive (includeHead?_head (by decide) hhead _), hread', hmore behind']
    · -- the closer ends the directive as well
      intro hopen
      rcases rest_of_before_none hopen with hnil | ⟨behind'', hclose⟩
      · rw [hnil] at hrest
        simp at hrest
      · rw [hclose] at h hrest ⊢
        rw [readBody_close] at h
        obtain rfl := Option.some.inj h
        obtain rfl : x = [] := by simpa using hrest
        exact ⟨⟨_, rfl⟩, ⟨_, rfl⟩⟩
    · intro hparenthesis hsemicolon
      have hnone := rest_of_before_parenthesis hparenthesis
      rw [hrest] at hnone
      cases x <;> exact hnone hsemicolon

end

/-! ## Openers -/

/-- Whether an opener is a word is decided by the character behind it. -/
theorem endsWord_congr {opener rest rest' : List Char} (h : rest'.head? = rest.head?) :
    endsWord opener rest' = endsWord opener rest := by
  unfold endsWord
  rw [h]

/-- No opener of the default syntax is the beginning of another one. -/
theorem openerAt?_append_self {opener rest : List Char} (h : opener ∈ defaultOpeners) :
    openerAt? defaultOpeners (opener ++ rest) =
      if endsWord opener rest then some (opener, rest) else none := by
  unfold openerAt?
  generalize endsWord = isWord
  have hlist : defaultOpeners = [['<', '?', 'b', 'l', 'o', 'c', 'k'],
      ['<', '?', 'w', 'r', 'i', 't', 'e'], ['<', '?', 'e', 'x', 'p'], ['<', '?', 'e', '=']] := rfl
  rw [hlist] at h ⊢
  simp only [List.mem_cons, List.not_mem_nil, or_false] at h
  rcases h with rfl | rfl | rfl | rfl
  all_goals
    simp only [List.findSome?_cons, List.findSome?_nil, List.cons_append, List.nil_append,
      stripStart?]
    simp
    split <;> simp_all

/-- The openers of the default syntax have their first character nowhere else. -/
theorem first_of_mem_defaultOpeners {opener : List Char} (h : opener ∈ defaultOpeners) :
    ∃ tail, opener = '<' :: tail ∧ '<' ∉ tail := by
  revert opener
  simp [defaultOpeners]

/-- In front of an opener there is none, whatever stands behind it. -/
theorem openerAt?_replace {opener pre inner inner' : List Char} {c : Char}
    (hopener : opener ∈ defaultOpeners)
    (h : openerAt? defaultOpeners (c :: pre ++ (opener ++ inner)) = none) :
    openerAt? defaultOpeners (c :: pre ++ (opener ++ inner')) = none := by
  rw [Option.eq_none_iff_forall_ne_some]
  rintro ⟨o, rest⟩ hsome
  obtain ⟨ho, -⟩ := openerAt?_length hsome
  have hsplit := openerAt?_append hsome
  obtain ⟨tail, htail, hnot⟩ := first_of_mem_defaultOpeners ho
  obtain ⟨tail', htail', -⟩ := first_of_mem_defaultOpeners hopener
  -- an opener that ends before `opener` is found in front of the other text as well
  have hends : ∀ between, c :: pre = o ++ between → rest = between ++ (opener ++ inner') → False := by
    rintro between hpassed rfl
    rw [hpassed, List.append_assoc, openerAt?_append_self ho] at h hsome
    have hsame : (between ++ (opener ++ inner')).head? = (between ++ (opener ++ inner)).head? := by
      rw [htail']
      cases between <;> rfl
    rw [endsWord_congr hsame] at hsome
    split at h
    · cases h
    · rename_i hword
      simp [hword] at hsome
  rcases List.append_eq_append_iff.mp hsplit with ⟨ahead, hahead, hrest⟩ | ⟨between, hpassed, hrest⟩
  · cases ahead with
    | nil => exact hends [] (by simpa using hahead.symm) hrest.symm
    | cons a ahead =>
      -- the other opener would have the first character of `opener` in it
      obtain ⟨rfl, -⟩ : '<' = a ∧ _ := List.cons.inj (htail' ▸ hrest)
      obtain ⟨-, rfl⟩ := List.cons.inj (htail.symm.trans hahead)
      exact hnot (by simp)
  · exact hends between hpassed hrest

/-- An opener is found at the same place whatever stands behind the character behind it. -/
theorem findOpener?_replace {before cs b opener inner inner' : List Char}
    (hhead : inner'.head? = inner.head?)
    (h : findOpener? defaultOpeners before cs = some (b, opener, inner)) :
    ∃ pre, b = before.reverse ++ pre ∧ cs = pre ++ (opener ++ inner) ∧
      findOpener? defaultOpeners before (pre ++ (opener ++ inner')) = some (b, opener, inner') := by
  induction cs generalizing before with
  | nil => cases h
  | cons c cs ih =>
    rw [findOpener?] at h
    split at h
    · rename_i o rest hsome
      simp only [Option.some.injEq, Prod.mk.injEq] at h
      obtain ⟨rfl, rfl, rfl⟩ := h
      obtain ⟨ho, -⟩ := openerAt?_length hsome
      have hsplit : c :: cs = o ++ rest := openerAt?_append hsome
      refine ⟨[], by simp, hsplit, ?_⟩
      have hthere : openerAt? defaultOpeners (o ++ inner') = some (o, inner') := by
        rw [hsplit, openerAt?_append_self ho] at hsome
        rw [openerAt?_append_self ho, endsWord_congr hhead]
        split at hsome
        · rename_i hword
          rw [if_pos hword]
        · cases hsome
      obtain ⟨tail, rfl, -⟩ := first_of_mem_defaultOpeners ho
      rw [List.nil_append, List.cons_append, findOpener?, ← List.cons_append, hthere]
    · rename_i hnone
      obtain ⟨pre, hb, rfl, hfind⟩ := ih h
      refine ⟨c :: pre, by rw [hb]; simp, rfl, ?_⟩
      have ho := (findOpener?_length h).1
      rw [List.cons_append, findOpener?, ← List.cons_append, openerAt?_replace ho hnone]
      exact hfind

end Stencil.Template
