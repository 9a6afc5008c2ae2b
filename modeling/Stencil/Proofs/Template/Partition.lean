import Mathlib.Data.List.Chain
import Stencil.Proofs.Template.Offsets

/-! # Partitions of texts

The loop over the body of a region hands its offset to the loop over the arguments of a directive
and takes another one back; the loop over the text hands its offset to the loop over a region.  Each
of them agrees with the piece by piece reading of what is left of the text, so the ranges that they
find are those of the pieces, and these take the whole text apart.
-/
namespace Stencil.Template

/-! ## Regions -/

/-- The ranges of a region from an offset on, and where its closer stands. `chunk` is where the open
part begins. -/
def bodyRanges (s : Syntax) (scope : Scope) (includes : Bool) (text : List Char) (chunk : Nat)
    (open? : Option Char) (i : Nat) : Option (List Classified × Option Nat) :=
  if _h : i < utf8Length text then
    match dropBytes? text i with
    | none => none
    | some [] => (lineRanges text scope chunk (utf8Length text)).map (·, none)
    | some (c :: cs) =>
      match open? with
      | some quote =>
        match _hquoted : behindQuoted text quote c i with
        | none => none
        | some (open?, j) => bodyRanges s scope includes text chunk open? j
      | none =>
        if s.closer.toList.isPrefixOf (c :: cs) then
          (lineRanges text scope chunk i).map (·, some i)
        else if isQuote c || !includes then
          bodyRanges s scope includes text chunk (if isQuote c then some c else none)
            (i + c.utf8Size)
        else
          match _hparen : parenthesisAt s.includeKeyword.toList text i with
          | none => none
          | some none => bodyRanges s scope includes text chunk none (i + c.utf8Size)
          | some (some parenthesis) =>
            match _hdirective : directiveRanges s.closer.toList text scope i parenthesis with
            | none => none
            | some (ranges, j) =>
              match lineRanges text scope chunk i, bodyRanges s scope includes text j none j with
              | some lines, some (more, close?) => some (lines ++ ranges ++ more, close?)
              | _, _ => none
  else (lineRanges text scope chunk (utf8Length text)).map (·, none)
termination_by utf8Length text - i
decreasing_by
  · have hlt := lt_behindQuoted _hquoted
    omega
  · have hpos := c.utf8Size_pos
    omega
  · have hpos := c.utf8Size_pos
    omega
  · have hle := le_parenthesisAt _hparen
    have hlt := le_directiveRanges _hdirective
    omega

theorem le_bodyRanges {s : Syntax} {scope : Scope} {includes : Bool} {text : List Char}
    {chunk i close : Nat} {open? : Option Char} {ranges : List Classified}
    (h : bodyRanges s scope includes text chunk open? i = some (ranges, some close)) :
    i ≤ close := by
  fun_induction bodyRanges s scope includes text chunk open? i generalizing ranges with
  | case1 | case3 | case7 | case9 | case11 => cases h
  | case2 | case12 => simp at h
  | case4 _ _ _ _ _ _ _ _ _ hquoted ih =>
    exact Nat.le_trans (Nat.le_of_lt (lt_behindQuoted hquoted)) (ih h)
  | case5 =>
    simp only [Option.map_eq_some_iff, Prod.mk.injEq, Option.some.injEq] at h
    obtain ⟨-, -, -, rfl⟩ := h
    exact Nat.le_refl _
  | case6 _ _ _ _ _ _ _ _ ih | case8 _ _ _ _ _ _ _ _ _ ih =>
    exact Nat.le_trans (Nat.le_add_right _ _) (ih h)
  | case10 _ i hi _ _ _ _ _ parenthesis hparen _ j hdirective _ _ _ hmore _ ih =>
    obtain ⟨-, rfl⟩ := Prod.mk.inj (Option.some.inj h)
    have hle := le_parenthesisAt hparen
    have hlt := le_directiveRanges hdirective
    have hclose := ih hmore
    omega

theorem bodyRanges_quoted {s : Syntax} {scope : Scope} {includes : Bool} {text cs : List Char}
    {chunk i j : Nat} {quote c : Char} {open? : Option Char} (hi : i < utf8Length text)
    (hrest : dropBytes? text i = some (c :: cs))
    (hquoted : behindQuoted text quote c i = some (open?, j)) :
    bodyRanges s scope includes text chunk (some quote) i =
      bodyRanges s scope includes text chunk open? j := by
  rw [bodyRanges, dif_pos hi, hrest]
  simp only
  split
  · rename_i hnone
    cases hquoted.symm.trans hnone
  · rename_i hsome
    cases hquoted.symm.trans hsome
    rfl

section
variable {s : Syntax} {scope : Scope} {text cs : List Char} {chunk i : Nat} {c : Char}

theorem bodyRanges_pass (hi : i < utf8Length text) (hrest : dropBytes? text i = some (c :: cs))
    (hclose : s.closer.toList.isPrefixOf (c :: cs) = false) (hc : isQuote c = false)
    (hparen : parenthesisAt s.includeKeyword.toList text i = some none) :
    bodyRanges s scope true text chunk none i =
      bodyRanges s scope true text chunk none (i + c.utf8Size) := by
  rw [bodyRanges, dif_pos hi, hrest]
  simp only [hclose, hc, Bool.not_true, Bool.or_self, Bool.false_eq_true, if_false]
  split
  · rename_i hnone
    cases hparen.symm.trans hnone
  · rfl
  · rename_i hsome
    cases hparen.symm.trans hsome

theorem bodyRanges_directive (hi : i < utf8Length text)
    (hrest : dropBytes? text i = some (c :: cs))
    (hclose : s.closer.toList.isPrefixOf (c :: cs) = false) (hc : isQuote c = false)
    {parenthesis j : Nat} {lines ranges more : List Classified} {close? : Option Nat}
    (hparen : parenthesisAt s.includeKeyword.toList text i = some (some parenthesis))
    (hdirective : directiveRanges s.closer.toList text scope i parenthesis = some (ranges, j))
    (hlines : lineRanges text scope chunk i = some lines)
    (hmore : bodyRanges s scope true text j none j = some (more, close?)) :
    bodyRanges s scope true text chunk none i = some (lines ++ ranges ++ more, close?) := by
  rw [bodyRanges, dif_pos hi, hrest]
  simp only [hclose, hc, Bool.not_true, Bool.or_self, Bool.false_eq_true, if_false]
  split
  · rename_i hnone
    cases hparen.symm.trans hnone
  · rename_i hnone
    cases hparen.symm.trans hnone
  · rename_i hsome
    cases hparen.symm.trans hsome
    split
    · rename_i hnone
      cases hdirective.symm.trans hnone
    · rename_i hsome
      cases hdirective.symm.trans hsome
      rw [hlines, hmore]

end

/-- Behind a directive the character before is known, unless the region ends there. -/
theorem before_readDirective (closer head : List Char) (scope : Scope) (inner pre : List Char) :
    let d := readDirective closer head scope inner
    d.before = (pre ++ d.pieces.flatMap Piece.text).getLast? ∨ d.rest = [] ∨ closer <+: d.rest := by
  have hopen : (readArguments closer .outside 0 [] inner).closed = false → _ := rest_of_open
  unfold readDirective
  generalize readArguments closer .outside 0 [] inner = list at hopen ⊢
  obtain ⟨text, closed, rest⟩ := list
  cases closed with
  | false => exact .inr (hopen rfl)
  | true =>
    by_cases hnext : rest.head? = some ';'
    · simp [hnext]
    · simp [hnext]

/-- A region is read by offsets as it is taken apart: `pre` is the text in front of its open part,
and `chunk` the open part, last first. -/
def ReadsAs (s : Syntax) (scope : Scope) (includes : Bool) (pre chunk cs : List Char)
    (before open? : Option Char) : Prop :=
  let body := readBody s scope includes before (quotingOf open?) chunk cs
  bodyRanges s scope includes (pre ++ chunk.reverse ++ cs) (utf8Length pre) open?
      (utf8Length (pre ++ chunk.reverse)) =
    some (rangesFrom (utf8Length pre) body.pieces,
      body.rest?.map fun _ => utf8Length (pre ++ body.pieces.flatMap Piece.text))

section
variable {s : Syntax} {scope : Scope} {includes : Bool} {pre chunk cs : List Char}
  {before : Option Char} {quote c : Char}

theorem bodyRanges_end (s : Syntax) (scope : Scope) (includes : Bool) (pre chunk : List Char)
    (open? : Option Char) :
    bodyRanges s scope includes (pre ++ chunk.reverse) (utf8Length pre) open?
        (utf8Length (pre ++ chunk.reverse)) =
      some (rangesFrom (utf8Length pre) (linePieces scope chunk.reverse), none) := by
  have hlines := lineRanges_eq pre chunk.reverse [] scope
  rw [List.append_nil] at hlines
  rw [bodyRanges, dif_neg (Nat.lt_irrefl _), hlines]
  rfl

theorem ReadsAs.nil {open? : Option Char} :
    ReadsAs s scope includes pre chunk [] before open? := by
  unfold ReadsAs
  rw [List.append_nil, bodyRanges_end, readBody]
  rfl

/-- There is something to look at in front of a text that is not empty. -/
theorem dropBytes?_chunk (pre chunk : List Char) (c : Char) (cs : List Char) :
    utf8Length (pre ++ chunk.reverse) < utf8Length (pre ++ chunk.reverse ++ c :: cs) ∧
      dropBytes? (pre ++ chunk.reverse ++ c :: cs) (utf8Length (pre ++ chunk.reverse)) =
        some (c :: cs) :=
  ⟨Scanner.utf8Length_lt_append (List.cons_ne_nil c cs), dropBytes?_utf8Length _ _⟩

/-- One more character of the open part. -/
theorem readsAs_cons {open? : Option Char} :
    ReadsAs s scope includes pre (c :: chunk) cs before open? ↔
      let body := readBody s scope includes before (quotingOf open?) (c :: chunk) cs
      bodyRanges s scope includes (pre ++ chunk.reverse ++ c :: cs) (utf8Length pre) open?
          (utf8Length (pre ++ chunk.reverse) + c.utf8Size) =
        some (rangesFrom (utf8Length pre) body.pieces,
          body.rest?.map fun _ => utf8Length (pre ++ body.pieces.flatMap Piece.text)) := by
  have hnext : utf8Length (pre ++ (c :: chunk).reverse) =
      utf8Length (pre ++ chunk.reverse) + c.utf8Size := by
    simp [Nat.add_assoc]
  have hsame : pre ++ (c :: chunk).reverse ++ cs = pre ++ chunk.reverse ++ c :: cs := by simp
  rw [ReadsAs, hnext, hsame]

theorem ReadsAs.quoted (hc : c ≠ '\\') (h : ReadsAs s scope includes pre (c :: chunk) cs (some c)
    (if c = quote then none else some quote)) :
    ReadsAs s scope includes pre chunk (c :: cs) before (some quote) := by
  obtain ⟨hlt, hdrop⟩ := dropBytes?_chunk pre chunk c cs
  rw [ReadsAs, bodyRanges_quoted hlt hdrop (behindQuoted_plain hc _), readBody,
    if_pos (quotingOf_some quote), quotingOf, ← quotingOf_close hc]
  exact readsAs_cons.mp h

theorem ReadsAs.escaped {d : Char}
    (h : ReadsAs s scope includes pre (d :: '\\' :: chunk) cs (some d) (some quote)) :
    ReadsAs s scope includes pre chunk ('\\' :: d :: cs) before (some quote) := by
  obtain ⟨hlt, hdrop⟩ := dropBytes?_chunk pre chunk '\\' (d :: cs)
  have hescaped : (quotingOf (some quote)).step '\\' ≠ .outside := Quoting.noConfusion
  have hpassed : pre ++ (d :: '\\' :: chunk).reverse = pre ++ chunk.reverse ++ ['\\', d] := by simp
  rw [ReadsAs, hpassed, List.append_assoc _ ['\\', d] cs] at h
  rw [ReadsAs, bodyRanges_quoted hlt hdrop (behindQuoted_escaped _ _ _ _), readBody,
    if_pos (quotingOf_some quote), readBody, if_pos hescaped]
  exact h

theorem ReadsAs.last : ReadsAs s scope includes pre chunk ['\\'] before (some quote) := by
  obtain ⟨hlt, hdrop⟩ := dropBytes?_chunk pre chunk '\\' []
  have hend := bodyRanges_end s scope includes pre ('\\' :: chunk) (some quote)
  rw [List.reverse_cons, ← List.append_assoc] at hend
  rw [ReadsAs, bodyRanges_quoted hlt hdrop (behindQuoted_last _ _), hend, readBody,
    if_pos (quotingOf_some quote), readBody]
  simp

/-- The closer ends a region. -/
theorem ReadsAs.close {behind : List Char}
    (hstrip : stripStart? s.closer.toList (c :: cs) = some behind) :
    ReadsAs s scope includes pre chunk (c :: cs) before none := by
  obtain ⟨hlt, hdrop⟩ := dropBytes?_chunk pre chunk c cs
  have hlines := lineRanges_eq pre chunk.reverse (c :: cs) scope
  have hclose : s.closer.toList.isPrefixOf (c :: cs) = true := by
    rw [isPrefixOf_eq_isSome, hstrip]
    rfl
  rw [ReadsAs, bodyRanges, dif_pos hlt, hdrop, readBody, if_neg (by simp [quotingOf])]
  simp only [hclose, hlines, hstrip, if_true]
  simp [flatMap_linePieces]

/-- A character that can begin no directive. -/
theorem ReadsAs.plain (hstrip : stripStart? s.closer.toList (c :: cs) = none)
    (hc : (isQuote c || !includes) = true)
    (h : ReadsAs s scope includes pre (c :: chunk) cs (some c)
      (if isQuote c then some c else none)) :
    ReadsAs s scope includes pre chunk (c :: cs) before none := by
  obtain ⟨hlt, hdrop⟩ := dropBytes?_chunk pre chunk c cs
  have hclose : s.closer.toList.isPrefixOf (c :: cs) = false := by
    rw [isPrefixOf_eq_isSome, hstrip]
    rfl
  rw [ReadsAs, bodyRanges, dif_pos hlt, hdrop, readBody, if_neg (by simp [quotingOf]), hstrip]
  simp only [hclose, hc, if_true, Bool.false_eq_true, if_false]
  rw [← quotingOf_step]
  exact readsAs_cons.mp h

/-- A character that begins no directive. -/
theorem ReadsAs.pass (hstrip : stripStart? s.closer.toList (c :: cs) = none)
    (hc : isQuote c = false)
    (hhead : includeHead? s.includeKeyword.toList (pre ++ chunk.reverse).getLast? (c :: cs) = none)
    (h : ReadsAs s scope true pre (c :: chunk) cs (some c) none) :
    ReadsAs s scope true pre chunk (c :: cs) (pre ++ chunk.reverse).getLast? none := by
  obtain ⟨hlt, hdrop⟩ := dropBytes?_chunk pre chunk c cs
  have hclose : s.closer.toList.isPrefixOf (c :: cs) = false := by
    rw [isPrefixOf_eq_isSome, hstrip]
    rfl
  have hparen := parenthesisAt_eq s.includeKeyword.toList (pre ++ chunk.reverse) (c :: cs)
  rw [hhead, Option.map_none] at hparen
  have hbody : readBody s scope true (pre ++ chunk.reverse).getLast? .outside chunk (c :: cs) =
      readBody s scope true (some c) .outside (c :: chunk) cs := by
    rw [readBody, if_neg (by simp), hstrip]
    simp only [hc, Bool.not_true, Bool.or_self, Bool.false_eq_true, if_false]
    split
    · rfl
    · rename_i hsome
      cases hhead.symm.trans hsome
  rw [ReadsAs, quotingOf, hbody, bodyRanges_pass hlt hdrop hclose hc hparen]
  exact readsAs_cons.mp h

/-- A directive, and what stands behind it. -/
theorem ReadsAs.directive {head inner : List Char} (hsplit : c :: cs = head ++ inner)
    (hstrip : stripStart? s.closer.toList (c :: cs) = none) (hc : isQuote c = false)
    (hhead : includeHead? s.includeKeyword.toList (pre ++ chunk.reverse).getLast? (c :: cs) =
      some (head, inner)) :
    let d := readDirective s.closer.toList head scope inner
    ReadsAs s scope true (pre ++ chunk.reverse ++ d.pieces.flatMap Piece.text) [] d.rest d.before
      none →
    ReadsAs s scope true pre chunk (c :: cs) (pre ++ chunk.reverse).getLast? none := by
  intro d h
  obtain ⟨hlt, hdrop⟩ := dropBytes?_chunk pre chunk c cs
  have hclose : s.closer.toList.isPrefixOf (c :: cs) = false := by
    rw [isPrefixOf_eq_isSome, hstrip]
    rfl
  have hlines := lineRanges_eq pre chunk.reverse (c :: cs) scope
  -- the parenthesis is the last character of what begins the directive
  have hparen := parenthesisAt_eq s.includeKeyword.toList (pre ++ chunk.reverse) (c :: cs)
  rw [hhead, Option.map_some] at hparen
  have hlength : utf8Length (pre ++ chunk.reverse) < utf8Length (pre ++ chunk.reverse ++ head) :=
    Scanner.utf8Length_lt_append (includeHead?_append hhead).1
  have hparenthesis : utf8Length (pre ++ chunk.reverse ++ head) - 1 + 1 =
      utf8Length (pre ++ chunk.reverse ++ head) := by omega
  have hdirective := directiveRanges_eq s.closer.toList (pre ++ chunk.reverse) head inner scope
    hparenthesis
  rw [List.append_assoc (pre ++ chunk.reverse) head inner, ← hsplit] at hdirective
  have happend : d.pieces.flatMap Piece.text ++ d.rest = c :: cs :=
    (readDirective_append s.closer.toList head scope inner).trans hsplit.symm
  rw [ReadsAs, List.reverse_nil, List.append_nil, List.append_assoc (pre ++ chunk.reverse),
    happend] at h
  have hbody : readBody s scope true (pre ++ chunk.reverse).getLast? .outside chunk (c :: cs) =
      let more := readBody s scope true d.before .outside [] d.rest
      ⟨linePieces scope chunk.reverse ++ d.pieces ++ more.pieces, more.rest?⟩ := by
    rw [readBody, if_neg (by simp), hstrip]
    simp only [hc, Bool.not_true, Bool.or_self, Bool.false_eq_true, if_false]
    split
    · rename_i hnone
      cases hhead.symm.trans hnone
    · rename_i hsome
      cases hhead.symm.trans hsome
      rfl
  rw [ReadsAs, quotingOf, hbody,
    bodyRanges_directive hlt hdrop hclose hc hparen hdirective hlines h]
  simp [quotingOf, rangesFrom_append, flatMap_linePieces, d, Nat.add_assoc]

end

/-- The ranges of a region are those of its pieces. The character before an offset need not be known
where the region ends. -/
theorem readsAs (s : Syntax) (scope : Scope) (includes : Bool) (pre chunk cs : List Char)
    (before open? : Option Char)
    (hbefore : before = (pre ++ chunk.reverse).getLast? ∨
      open? = none ∧ (cs = [] ∨ s.closer.toList <+: cs)) :
    ReadsAs s scope includes pre chunk cs before open? := by
  -- by induction on what is left: a backslash and a directive take more than one character along
  induction hn : cs.length using Nat.strong_induction_on
    generalizing pre chunk cs before open? with
  | _ n ih =>
  subst hn
  cases cs with
  | nil => exact .nil
  | cons c cs =>
    have hmore (open? : Option Char) :
        ReadsAs s scope includes pre (c :: chunk) cs (some c) open? :=
      ih cs.length (Nat.lt_succ_self _) pre (c :: chunk) cs (some c) open? (.inl (by simp)) rfl
    cases open? with
    | some quote =>
      by_cases hc : c = '\\'
      · subst hc
        cases cs with
        | nil => exact .last
        | cons d cs =>
          refine .escaped (ih cs.length ?_ pre (d :: '\\' :: chunk) cs (some d) (some quote)
            (.inl (by simp)) rfl)
          exact Nat.lt_succ_of_lt (Nat.lt_succ_self _)
      · exact .quoted hc (hmore _)
    | none =>
      cases hstrip : stripStart? s.closer.toList (c :: cs) with
      | some behind => exact .close hstrip
      | none =>
        obtain rfl : before = (pre ++ chunk.reverse).getLast? := by
          refine hbefore.resolve_right ?_
          rintro ⟨-, hnil | ⟨behind, hbehind⟩⟩
          · cases hnil
          · cases hstrip.symm.trans (stripStart?_eq_some_iff.mpr hbehind.symm)
        by_cases hplain : (isQuote c || !includes) = true
        · exact .plain hstrip hplain (hmore _)
        · obtain ⟨hc, rfl⟩ : isQuote c = false ∧ includes = true := by simpa using hplain
          cases hhead : includeHead? s.includeKeyword.toList (pre ++ chunk.reverse).getLast?
              (c :: cs) with
          | none => exact .pass hstrip hc hhead (hmore none)
          | some found =>
            obtain ⟨head, inner⟩ := found
            have hshorter : (readDirective s.closer.toList head scope inner).rest.length <
                (c :: cs).length :=
              Nat.lt_of_le_of_lt (readDirective_length _ _ _ _) (includeHead?_length hhead)
            have hknown := before_readDirective s.closer.toList head scope inner
              (pre ++ chunk.reverse)
            refine .directive (includeHead?_append hhead).2 hstrip hc hhead ?_
            refine ih _ hshorter _ [] _ _ none ?_ rfl
            rw [List.reverse_nil, List.append_nil]
            exact hknown.imp_right fun h => ⟨rfl, h⟩

/-! ## Whole texts -/

/-- The ranges of the region that an opener at an offset begins, and the offset behind its closer.
-/
def regionRanges (s : Syntax) (text opener : List Char) (start : Nat) :
    Option (List Classified × Option Nat) :=
  let inline := s.isInline opener
  let stop := start + utf8Length opener
  let opened : Classified := ⟨start, stop, if inline then .inlineOpen else .blockOpen⟩
  match bodyRanges s (if inline then .inlineWrite else .block) (!inline) text stop none stop with
  | none => none
  | some (body, none) => some (opened :: body, none)
  | some (body, some close) =>
    let behind := close + utf8Length s.closer.toList
    some (opened :: body ++ [⟨close, behind, if inline then .inlineClose else .blockClose⟩],
      some behind)

theorem le_regionRanges {s : Syntax} {text opener : List Char} {start behind : Nat}
    {ranges : List Classified}
    (h : regionRanges s text opener start = some (ranges, some behind)) :
    start + utf8Length opener ≤ behind := by
  unfold regionRanges at h
  simp only at h
  split at h
  · cases h
  · cases h
  · rename_i hbody
    have hle := le_bodyRanges hbody
    simp only [Option.some.injEq, Prod.mk.injEq] at h
    omega

/-- The ranges of a region are those of its pieces. -/
theorem regionRanges_eq (s : Syntax) (pre : List Char) {opener : List Char} (hne : opener ≠ [])
    (inner : List Char) {body : Body}
    (hbody : readBody s (if s.isInline opener then .inlineWrite else .block)
      (!s.isInline opener) opener.getLast? .outside [] inner = body) :
    let region := ⟨if s.isInline opener then .inlineOpen else .blockOpen, opener⟩ :: body.pieces ++
      body.rest?.elim [] fun _ =>
        [⟨if s.isInline opener then .inlineClose else .blockClose, s.closer.toList⟩]
    regionRanges s (pre ++ opener ++ inner) opener (utf8Length pre) =
      some (rangesFrom (utf8Length pre) region,
        body.rest?.map fun _ => utf8Length (pre ++ region.flatMap Piece.text)) := by
  have hlast : opener.getLast? = (pre ++ opener).getLast? := by
    simp [List.getLast?_append, List.getLast?_eq_some_getLast hne]
  have hranges := readsAs s (if s.isInline opener then .inlineWrite else .block)
    (!s.isInline opener) (pre ++ opener) [] inner opener.getLast? none (.inl (by simpa using hlast))
  simp only [ReadsAs, quotingOf, List.reverse_nil, List.append_nil, hbody] at hranges
  rw [regionRanges, ← utf8Length_append]
  simp only [hranges]
  cases hrest : body.rest? with
  | none => simp [rangesFrom]
  | some behind => simp [rangesFrom, rangesFrom_append, Nat.add_assoc]

/-- The ranges of a text from an offset on. -/
def rangesBehind (s : Syntax) (text : List Char) (i : Nat) : Option (List Classified) :=
  if _h : i < utf8Length text then
    match dropBytes? text i with
    | none => none
    | some rest =>
      match _hopener : findOpener? s.openers [] rest with
      | none => lineRanges text .text i (utf8Length text)
      | some (before, opener, _) =>
        let start := i + utf8Length before
        match lineRanges text .text i start, _hregion : regionRanges s text opener start with
        | some lines, some (region, none) => some (lines ++ region)
        | some lines, some (region, some behind) =>
          (rangesBehind s text behind).map (lines ++ region ++ ·)
        | _, _ => none
  else some []
termination_by utf8Length text - i
decreasing_by
  have hle := le_regionRanges _hregion
  have hne := Syntax.ne_nil_of_mem_openers (findOpener?_length _hopener).1
  have hpos : utf8Length [] < utf8Length ([] ++ _) := Scanner.utf8Length_lt_append hne
  rw [List.nil_append, utf8Length_nil] at hpos
  omega

/-- Nothing but text stands where no opener is found. -/
theorem rangesBehind_text {s : Syntax} {text rest : List Char} {i : Nat}
    (hi : i < utf8Length text) (hrest : dropBytes? text i = some rest)
    (hopener : findOpener? s.openers [] rest = none) :
    rangesBehind s text i = lineRanges text .text i (utf8Length text) := by
  rw [rangesBehind, dif_pos hi, hrest]
  simp only
  split
  · rfl
  · rename_i hsome
    cases hopener.symm.trans hsome

theorem rangesBehind_region {s : Syntax} {text rest before opener inner : List Char} {i : Nat}
    (hi : i < utf8Length text) (hrest : dropBytes? text i = some rest)
    (hopener : findOpener? s.openers [] rest = some (before, opener, inner))
    {lines region : List Classified} {behind? : Option Nat}
    (hlines : lineRanges text .text i (i + utf8Length before) = some lines)
    (hregion : regionRanges s text opener (i + utf8Length before) = some (region, behind?)) :
    rangesBehind s text i = (behind?.elim (some []) (rangesBehind s text)).map
      (lines ++ region ++ ·) := by
  rw [rangesBehind, dif_pos hi, hrest]
  simp only
  split
  · rename_i hnone
    cases hopener.symm.trans hnone
  · rename_i hsome
    cases hopener.symm.trans hsome
    rw [hlines]
    split
    · rename_i heq hsome
      cases heq
      cases hregion.symm.trans hsome
      simp
    · rename_i heq hsome
      cases heq
      cases hregion.symm.trans hsome
      rfl
    · cases behind? with
      | none => exact absurd hregion (by simp_all)
      | some behind => exact absurd hregion (by simp_all)

/-- The ranges of a text are those of its pieces. -/
theorem rangesBehind_eq (s : Syntax) (hne : ∀ o ∈ s.openers, o ≠ []) (pre cs : List Char) :
    rangesBehind s (pre ++ cs) (utf8Length pre) =
      some (rangesFrom (utf8Length pre) (classifyFrom s s.openers hne cs)) := by
  induction hn : cs.length using Nat.strong_induction_on generalizing pre cs with
  | _ n ih =>
  subst hn
  by_cases hcs : cs = []
  · subst hcs
    rw [rangesBehind, dif_neg (by simp), classifyFrom]
    rfl
  have hlt : utf8Length pre < utf8Length (pre ++ cs) := Scanner.utf8Length_lt_append hcs
  have hdrop := dropBytes?_utf8Length pre cs
  cases hopener : findOpener? s.openers [] cs with
  | none =>
    have hlines := lineRanges_eq pre cs [] .text
    rw [List.append_nil] at hlines
    rw [rangesBehind_text hlt hdrop hopener, hlines]
    fun_cases classifyFrom s s.openers hne cs with
    | case1 => rfl
    | case2 _ _ _ hsome => cases hopener.symm.trans hsome
    | case3 _ _ _ hsome => cases hopener.symm.trans hsome
  | some found =>
    obtain ⟨before, opener, inner⟩ := found
    obtain rfl : before ++ opener ++ inner = cs := findOpener?_append hopener
    have hopenerne : opener ≠ [] := hne _ (findOpener?_length hopener).1
    obtain ⟨body, hbody⟩ : ∃ body, readBody s (if s.isInline opener then .inlineWrite else .block)
      (!s.isInline opener) opener.getLast? .outside [] inner = body := ⟨_, rfl⟩
    have hlines := lineRanges_eq pre before (opener ++ inner) .text
    have hregion := regionRanges_eq s (pre ++ before) hopenerne inner hbody
    have htext : pre ++ (before ++ opener ++ inner) = pre ++ before ++ (opener ++ inner) := by simp
    have hbegin : utf8Length (pre ++ before) = utf8Length pre + utf8Length before :=
      utf8Length_append _ _
    rw [← htext, hbegin] at hlines
    rw [List.append_assoc _ opener, ← htext, hbegin] at hregion
    rw [rangesBehind_region hlt hdrop hopener hlines hregion, classifyFrom_of_some hopener hbody]
    cases hrest : body.rest? with
    | none => simp [rangesFrom, rangesFrom_append, flatMap_linePieces]
    | some behind =>
      have happend := readBody_append s (if s.isInline opener then .inlineWrite else .block)
        (!s.isInline opener) opener.getLast? .outside [] inner
      simp only [hbody, hrest, Option.elim_some, List.reverse_nil, List.nil_append] at happend
      have hshorter : behind.length < (before ++ opener ++ inner).length := by
        have hle := readBody_length (hbody ▸ hrest)
        have hpos := List.length_pos_iff.mpr hopenerne
        simp only [List.length_append]
        omega
      have hmore := ih behind.length hshorter
        (pre ++ before ++ opener ++ body.pieces.flatMap Piece.text ++ s.closer.toList) behind rfl
      have hwhole : pre ++ before ++ opener ++ body.pieces.flatMap Piece.text ++ s.closer.toList ++
          behind = pre ++ (before ++ opener ++ inner) := by
        rw [← happend]
        simp
      rw [hwhole] at hmore
      simp only [rangesFrom, rangesFrom_append, flatMap_linePieces, utf8Length_append,
        Option.elim_some, Option.map_some, List.flatMap_append, List.flatMap_cons, List.flatMap_nil,
        List.cons_append, List.append_assoc, utf8Length_nil, Nat.add_zero, Nat.add_assoc] at hmore ⊢
      rw [hmore]
      simp

/-! ## Partitions -/

/-- Ranges take a text apart: they follow each other without a gap, from its beginning to its end,
and cut no character. -/
structure Partitions (text : List Char) (ranges : List Classified) : Prop where
  empty : ranges = [] ↔ text = []
  first : ∀ c ∈ ranges.head?, c.start = 0
  adjacent : ranges.IsChain fun a b => a.stop = b.start
  last : ∀ c ∈ ranges.getLast?, c.stop = utf8Length text
  forward : ∀ c ∈ ranges, c.start ≤ c.stop
  boundaries : ∀ c ∈ ranges, IsBoundary text c.start ∧ IsBoundary text c.stop

theorem start_of_mem_head?_rangesFrom {start : Nat} {ps : List Piece} {c : Classified}
    (h : c ∈ (rangesFrom start ps).head?) : c.start = start := by
  cases ps with
  | nil => cases h
  | cons p ps =>
    obtain rfl := Option.some.inj h
    rfl

theorem isChain_rangesFrom (start : Nat) (ps : List Piece) :
    (rangesFrom start ps).IsChain fun a b => a.stop = b.start := by
  induction ps generalizing start with
  | nil => exact .nil
  | cons p ps ih =>
    exact List.isChain_cons.mpr
      ⟨fun c hc => (start_of_mem_head?_rangesFrom hc).symm, ih (start + utf8Length p.text)⟩

theorem stop_of_mem_getLast?_rangesFrom {start : Nat} {ps : List Piece} {c : Classified}
    (h : c ∈ (rangesFrom start ps).getLast?) :
    c.stop = start + utf8Length (ps.flatMap Piece.text) := by
  induction ps generalizing start with
  | nil => cases h
  | cons p ps ih =>
    cases ps with
    | nil =>
      obtain rfl := Option.some.inj h
      simp [rangesFrom]
    | cons q ps =>
      rw [rangesFrom, rangesFrom, List.getLast?_cons_cons] at h
      rw [ih h, List.flatMap_cons (x := p), utf8Length_append, Nat.add_assoc]

/-- Each range is what one piece takes up. -/
theorem exists_of_mem_rangesFrom {pre : List Char} {ps : List Piece} {c : Classified}
    (h : c ∈ rangesFrom (utf8Length pre) ps) : ∃ front p back, ps = front ++ p :: back ∧
      c.start = utf8Length (pre ++ front.flatMap Piece.text) ∧
      c.stop = utf8Length (pre ++ front.flatMap Piece.text ++ p.text) := by
  induction ps generalizing pre with
  | nil => cases h
  | cons p ps ih =>
    rw [rangesFrom, ← utf8Length_append] at h
    rcases List.mem_cons.mp h with rfl | h
    · exact ⟨[], p, ps, rfl, by simp, by simp⟩
    · obtain ⟨front, q, back, rfl, hstart, hstop⟩ := ih h
      exact ⟨p :: front, q, back, rfl, by simpa using hstart, by simpa using hstop⟩

/-- **Reading by offsets never cuts a character, and takes every text apart** into ranges from its
beginning to its end, whatever the marks of the syntax are. -/
theorem classify_partitions (s : Syntax) (text : List Char) :
    rangesBehind s text 0 = some (s.classify text) ∧ Partitions text (s.classify text) := by
  have hwhole := flatMap_pieces s text
  refine ⟨rangesBehind_eq s (fun _ h => Syntax.ne_nil_of_mem_openers h) [] text, ?_⟩
  have hmem (c : Classified) (hc : c ∈ rangesFrom (utf8Length []) (pieces s text)) :=
    exists_of_mem_rangesFrom hc
  refine
    { empty := ⟨fun h => ?_, ?_⟩
      first := fun c hc => start_of_mem_head?_rangesFrom hc
      adjacent := isChain_rangesFrom 0 _
      last := fun c hc => ?_
      forward := fun c hc => ?_
      boundaries := fun c hc => ?_ }
  · cases hpieces : pieces s text with
    | nil => rw [← hwhole, hpieces, List.flatMap_nil]
    | cons p ps =>
      rw [Syntax.classify, hpieces] at h
      cases h
  · rintro rfl
    rw [Syntax.classify, pieces, classifyFrom]
    rfl
  · rw [stop_of_mem_getLast?_rangesFrom hc, hwhole, Nat.zero_add]
  · obtain ⟨front, p, back, -, hstart, hstop⟩ := hmem c hc
    rw [hstart, hstop, utf8Length_append _ p.text]
    exact Nat.le_add_right _ _
  · obtain ⟨front, p, back, hsplit, hstart, hstop⟩ := hmem c hc
    rw [hsplit, List.flatMap_append, List.flatMap_cons] at hwhole
    exact ⟨⟨_, _, hwhole.symm, by simpa using hstart.symm⟩,
      ⟨_, _, (List.append_assoc _ _ _).trans hwhole |>.symm, by simpa using hstop.symm⟩⟩

end Stencil.Template
