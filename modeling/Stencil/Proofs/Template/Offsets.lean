import Stencil.Proofs.Template.Locality

/-! # Classifying by offsets

A classifier need not take a text apart: it can stay at one place in it, and hand byte offsets from
one loop to the next.  Each look at the text is then a slice, which fails where no character begins,
and each loop ends only because it moves forward.  Read so, no slice ever fails, and the ranges are
those of the pieces that make up the text.
-/
namespace Stencil.Template

/-! ## Lines -/

/-- Where the first line of a text between two offsets ends, behind its line break. -/
def lineEnd (line : List Char) (start stop : Nat) : Nat :=
  if '\n' ∈ line then start + utf8Length (line.takeWhile (· ≠ '\n')) + 1 else stop

theorem lt_lineEnd (line : List Char) {start stop : Nat} (h : start < stop) :
    start < lineEnd line start stop := by
  unfold lineEnd
  split <;> omega

/-- The ranges of the lines between two offsets. -/
def lineRanges (text : List Char) (scope : Scope) (start stop : Nat) : Option (List Classified) :=
  if _h : start < stop then
    match slice? text start stop with
    | none => none
    | some line =>
      (lineRanges text scope (lineEnd line start stop) stop).map
        (⟨start, lineEnd line start stop, scope⟩ :: ·)
  else some []
termination_by stop - start
decreasing_by
  have hlt := lt_lineEnd line _h
  omega

theorem splitLines_append {line : List Char} (h : '\n' ∉ line) (done rest : List Char) :
    splitLines done (line ++ '\n' :: rest) =
      (done.reverse ++ line ++ ['\n']) :: splitLines [] rest := by
  induction line generalizing done with
  | nil => simp [splitLines]
  | cons c line ih =>
    obtain ⟨hc, hline⟩ := not_or.mp (mt List.mem_cons.mpr h)
    rw [List.cons_append, splitLines, if_neg (by simpa using Ne.symm hc), ih hline]
    simp

theorem splitLines_of_notMem {line : List Char} (h : '\n' ∉ line) (done : List Char) :
    splitLines done line =
      if (done.reverse ++ line).isEmpty then [] else [done.reverse ++ line] := by
  induction line generalizing done with
  | nil => simp [splitLines]
  | cons c line ih =>
    obtain ⟨hc, hline⟩ := not_or.mp (mt List.mem_cons.mpr h)
    rw [splitLines, if_neg (by simpa using Ne.symm hc), ih hline]
    simp

/-- The ranges of lines are those of the pieces. -/
theorem lineRanges_eq (pre value post : List Char) (scope : Scope) :
    lineRanges (pre ++ value ++ post) scope (utf8Length pre) (utf8Length (pre ++ value)) =
      some (rangesFrom (utf8Length pre) (linePieces scope value)) := by
  by_cases hvalue : value = []
  · subst hvalue
    rw [lineRanges, dif_neg (by simp)]
    rfl
  have hlt : utf8Length pre < utf8Length (pre ++ value) := Scanner.utf8Length_lt_append hvalue
  rw [lineRanges, dif_pos hlt, slice?_utf8Length]
  simp only
  by_cases hbreak : '\n' ∈ value
  · obtain ⟨line, rest, rfl, hline⟩ := List.eq_append_cons_of_mem hbreak
    have hend : lineEnd (line ++ '\n' :: rest) (utf8Length pre)
        (utf8Length (pre ++ (line ++ '\n' :: rest))) = utf8Length (pre ++ (line ++ ['\n'])) := by
      have htake : (line ++ '\n' :: rest).takeWhile (· ≠ '\n') = line := by
        rw [List.takeWhile_append_of_pos fun c hc => by simpa using ne_of_mem_of_not_mem hc hline]
        simp
      have hsize : '\n'.utf8Size = 1 := rfl
      rw [lineEnd, if_pos hbreak, htake]
      simp [hsize, Nat.add_assoc]
    have hmore := lineRanges_eq (pre ++ (line ++ ['\n'])) rest post scope
    have hsplit : pre ++ (line ++ ['\n']) ++ rest = pre ++ (line ++ '\n' :: rest) := by simp
    rw [hsplit] at hmore
    have hlines : linePieces scope (line ++ '\n' :: rest) =
        ⟨scope, line ++ ['\n']⟩ :: linePieces scope rest := by
      rw [linePieces, splitLines_append hline]
      rfl
    rw [hend, hmore, hlines, rangesFrom, ← utf8Length_append]
    rfl
  · have hlines : linePieces scope value = [⟨scope, value⟩] := by
      rw [linePieces, splitLines_of_notMem hbreak]
      simp [hvalue]
    rw [lineEnd, if_neg hbreak, lineRanges, dif_neg (Nat.lt_irrefl _), hlines]
    simp [rangesFrom]
termination_by value.length
decreasing_by
  rw [‹value = line ++ '\n' :: rest›, List.length_append, List.length_cons]
  omega

/-! ## Arguments -/

/-- What is open behind a character `c` of a quoted text, and where the next character to look at
begins: a backslash takes the character behind it along. -/
def behindQuoted (text : List Char) (quote c : Char) (i : Nat) : Option (Option Char × Nat) :=
  if c = '\\' then
    match dropBytes? text (i + c.utf8Size) with
    | none => none
    | some [] => some (some quote, i + c.utf8Size)
    | some (next :: _) => some (some quote, i + c.utf8Size + next.utf8Size)
  else some (if c = quote then none else some quote, i + c.utf8Size)

theorem lt_behindQuoted {text : List Char} {quote c : Char} {i j : Nat} {open? : Option Char}
    (h : behindQuoted text quote c i = some (open?, j)) : i < j := by
  have hpos := c.utf8Size_pos
  unfold behindQuoted at h
  split at h
  · split at h
    · cases h
    · simp only [Option.some.injEq, Prod.mk.injEq] at h
      omega
    · simp only [Option.some.injEq, Prod.mk.injEq] at h
      omega
  · simp only [Option.some.injEq, Prod.mk.injEq] at h
    omega

/-- Where the arguments of a directive end, and whether a parenthesis ends them. -/
def argumentsEnd (closer text : List Char) (depth : Nat) (open? : Option Char) (i : Nat) :
    Option (Bool × Nat) :=
  if _h : i < utf8Length text then
    match dropBytes? text i with
    | none => none
    | some [] => some (false, utf8Length text)
    | some (c :: cs) =>
      match open? with
      | some quote =>
        match _hquoted : behindQuoted text quote c i with
        | none => none
        | some (open?, j) => argumentsEnd closer text depth open? j
      | none =>
        if closer.isPrefixOf (c :: cs) then some (false, i)
        else if c == ')' && depth == 0 then some (true, i)
        else argumentsEnd closer text (depthBehind depth c) (if isQuote c then some c else none)
          (i + c.utf8Size)
  else some (false, utf8Length text)
termination_by utf8Length text - i
decreasing_by
  · have hlt := lt_behindQuoted _hquoted
    omega
  · have hpos := c.utf8Size_pos
    omega

theorem le_argumentsEnd {closer text : List Char} {depth : Nat} {open? : Option Char} {i j : Nat}
    {closed : Bool} (h : argumentsEnd closer text depth open? i = some (closed, j)) :
    min i (utf8Length text) ≤ j := by
  fun_induction argumentsEnd closer text depth open? i with
  | case1 | case3 => cases h
  | case2 | case8 =>
    simp only [Option.some.injEq, Prod.mk.injEq] at h
    omega
  | case4 depth i hi c cs hrest quote open? k hquoted ih =>
    have hlt := lt_behindQuoted hquoted
    have hle := ih h
    omega
  | case5 | case6 =>
    simp only [Option.some.injEq, Prod.mk.injEq] at h
    omega
  | case7 depth i hi c cs hrest hcloser hparen ih =>
    have hle := ih h
    omega

/-- What is open in terms of a quoting. -/
def quotingOf : Option Char → Quoting
  | some quote => .inside quote
  | none => .outside

theorem quotingOf_some (quote : Char) : quotingOf (some quote) ≠ .outside := Quoting.noConfusion

theorem quotingOf_step (c : Char) :
    quotingOf (if isQuote c then some c else none) = Quoting.outside.step c := by
  rw [Quoting.step]
  split <;> rfl

theorem quotingOf_close {quote c : Char} (hc : c ≠ '\\') :
    quotingOf (if c = quote then none else some quote) = (Quoting.inside quote).step c := by
  simp only [Quoting.step, beq_iff_eq, hc, if_false]
  split <;> rfl

theorem behindQuoted_plain {text : List Char} {quote c : Char} (hc : c ≠ '\\') (i : Nat) :
    behindQuoted text quote c i = some (if c = quote then none else some quote, i + c.utf8Size) :=
  if_neg hc

/-- A backslash takes the character behind it along. -/
theorem behindQuoted_escaped (pre cs : List Char) (quote d : Char) :
    behindQuoted (pre ++ '\\' :: d :: cs) quote '\\' (utf8Length pre) =
      some (some quote, utf8Length (pre ++ ['\\', d])) := by
  have hdrop := dropBytes?_utf8Length (pre ++ ['\\']) (d :: cs)
  have hlength : utf8Length (pre ++ ['\\']) = utf8Length pre + '\\'.utf8Size := by simp
  rw [hlength, List.append_assoc, List.singleton_append] at hdrop
  rw [behindQuoted, if_pos rfl, hdrop]
  simp [Nat.add_assoc]

theorem behindQuoted_last (pre : List Char) (quote : Char) :
    behindQuoted (pre ++ ['\\']) quote '\\' (utf8Length pre) =
      some (some quote, utf8Length (pre ++ ['\\'])) := by
  have hdrop := dropBytes?_utf8Length (pre ++ ['\\']) []
  have hlength : utf8Length (pre ++ ['\\']) = utf8Length pre + '\\'.utf8Size := by simp
  rw [hlength, List.append_nil] at hdrop
  rw [behindQuoted, if_pos rfl, hdrop, hlength]

theorem argumentsEnd_quoted {closer text cs : List Char} {depth i j : Nat} {quote c : Char}
    {open? : Option Char} (hi : i < utf8Length text) (hrest : dropBytes? text i = some (c :: cs))
    (hquoted : behindQuoted text quote c i = some (open?, j)) :
    argumentsEnd closer text depth (some quote) i = argumentsEnd closer text depth open? j := by
  rw [argumentsEnd, dif_pos hi, hrest]
  simp only
  split
  · rename_i hnone
    cases hquoted.symm.trans hnone
  · rename_i hsome
    cases hquoted.symm.trans hsome
    rfl

/-- The arguments of a directive end where they do piece by piece. -/
theorem argumentsEnd_eq (closer pre done cs : List Char) (depth : Nat) (open? : Option Char) :
    let l := readArguments closer (quotingOf open?) depth done cs
    argumentsEnd closer (pre ++ done.reverse ++ cs) depth open? (utf8Length (pre ++ done.reverse)) =
      some (l.closed, utf8Length (pre ++ l.text)) := by
  cases cs with
  | nil => simp [argumentsEnd, readArguments]
  | cons c cs =>
    have hlt : utf8Length (pre ++ done.reverse) < utf8Length (pre ++ done.reverse ++ c :: cs) :=
      Scanner.utf8Length_lt_append (List.cons_ne_nil c cs)
    have hdrop := dropBytes?_utf8Length (pre ++ done.reverse) (c :: cs)
    -- one more character of the arguments
    have hmore (depth : Nat) (open? : Option Char) :=
      argumentsEnd_eq closer pre (c :: done) cs depth open?
    have hnext : utf8Length (pre ++ (c :: done).reverse) =
        utf8Length (pre ++ done.reverse) + c.utf8Size := by
      simp [Nat.add_assoc]
    have hsame : pre ++ (c :: done).reverse ++ cs = pre ++ done.reverse ++ c :: cs := by simp
    rw [hnext, hsame] at hmore
    cases open? with
    | none =>
      rw [argumentsEnd, dif_pos hlt, hdrop]
      simp only [quotingOf, readArguments, if_true]
      split
      · rfl
      · split
        · rfl
        · rw [← quotingOf_step]
          exact hmore _ _
    | some quote =>
      by_cases hc : c = '\\'
      · subst hc
        cases cs with
        | nil =>
          rw [argumentsEnd_quoted hlt hdrop (behindQuoted_last _ _)]
          simp [argumentsEnd, readArguments, quotingOf]
        | cons d cs =>
          have hrest := argumentsEnd_eq closer pre (d :: '\\' :: done) cs depth (some quote)
          have hpassed : pre ++ (d :: '\\' :: done).reverse = pre ++ done.reverse ++ ['\\', d] := by
            simp
          rw [argumentsEnd_quoted hlt hdrop (behindQuoted_escaped _ _ _ _)]
          rw [hpassed, List.append_assoc _ ['\\', d] cs] at hrest
          exact hrest
      · rw [argumentsEnd_quoted hlt hdrop (behindQuoted_plain hc _), readArguments,
          if_neg (quotingOf_some quote), quotingOf, ← quotingOf_close hc]
        exact hmore _ _
termination_by cs.length

/-! ## Directives -/

/-- Where the parenthesis stands of a directive that begins at an offset, if one does. -/
def parenthesisAt (keyword text : List Char) (i : Nat) : Option (Option Nat) :=
  match dropBytes? text i with
  | none => none
  | some rest =>
    if keyword.isEmpty || !keyword.isPrefixOf rest then some none
    else
      match takeBytes? text i, dropBytes? text (i + utf8Length keyword) with
      | some before, some behind =>
        let trimmed := behind.dropWhile isGap
        if before.getLast?.any joinsKeyword then some none
        else if trimmed.head? = some '(' then
          some (some (i + utf8Length keyword +
            (utf8Length text - (i + utf8Length keyword) - utf8Length trimmed)))
        else some none
      | _, _ => none

theorem le_parenthesisAt {keyword text : List Char} {i j : Nat}
    (h : parenthesisAt keyword text i = some (some j)) : i ≤ j := by
  unfold parenthesisAt at h
  split at h
  · cases h
  · split at h
    · cases h
    · split at h
      · simp only at h
        split at h
        · cases h
        · split at h
          · simp only [Option.some.injEq] at h
            omega
          · cases h
      · cases h

/-- A directive begins at an offset if one begins with the text there. -/
theorem parenthesisAt_eq (keyword pre cs : List Char) :
    parenthesisAt keyword (pre ++ cs) (utf8Length pre) =
      some ((includeHead? keyword pre.getLast? cs).map
        fun head => utf8Length (pre ++ head.1) - 1) := by
  rw [parenthesisAt, dropBytes?_utf8Length, includeHead?]
  simp only [isPrefixOf_eq_isSome]
  by_cases hempty : keyword.isEmpty = true
  · simp [hempty]
  cases hstrip : stripStart? keyword cs with
  | none => simp
  | some behind =>
    obtain rfl := stripStart?_eq_some_iff.mp hstrip
    have hbehind := dropBytes?_utf8Length (pre ++ keyword) behind
    rw [utf8Length_append, List.append_assoc] at hbehind
    have htake : takeBytes? (pre ++ (keyword ++ behind)) (utf8Length pre) = some pre :=
      takeBytes?_utf8Length pre _
    have hjoin : (pre.getLast?.any fun p => isNameChar p || p == '.') =
        pre.getLast?.any joinsKeyword := rfl
    simp only [hempty, htake, hbehind, hjoin, Option.isSome_some, Bool.not_true, Bool.or_false,
      Bool.false_or, Bool.false_eq_true, if_false]
    by_cases hjoins : pre.getLast?.any joinsKeyword = true
    · simp [hjoins]
    · simp only [hjoins]
      have hsplit := List.takeWhile_append_dropWhile (p := isGap) (l := behind)
      have hgap : (fun c => c == ' ' || c == '\t') = isGap := rfl
      rw [hgap]
      cases hrest : behind.dropWhile isGap with
      | nil => simp
      | cons d rest =>
        by_cases hd : d = '('
        · subst hd
          have hlength := congrArg utf8Length hsplit
          have hsize : '('.utf8Size = 1 := rfl
          rw [hrest] at hlength
          simp [hsize] at hlength ⊢
          omega
        · simp [hd]

/-- The ranges of a directive whose parenthesis stands at an offset, and the offset behind it. -/
def directiveRanges (closer text : List Char) (scope : Scope) (i parenthesis : Nat) :
    Option (List Classified × Nat) :=
  match argumentsEnd closer text 0 none (parenthesis + 1) with
  | none => none
  | some (closed, j) =>
    match lineRanges text scope (parenthesis + 1) j with
    | none => none
    | some lines =>
      let ranges := ⟨i, parenthesis + 1, .includeBegin⟩ :: lines
      if !closed then some (ranges, j)
      else
        match dropBytes? text (j + 1) with
        | none => none
        | some rest =>
          if rest.head? = some ';' then
            some (ranges ++ [⟨j, j + 1, .includeEnd⟩, ⟨j + 1, j + 2, .delimiter⟩], j + 2)
          else some (ranges ++ [⟨j, j + 1, .includeEnd⟩], j + 1)

theorem le_directiveRanges {closer text : List Char} {scope : Scope} {i parenthesis j : Nat}
    {ranges : List Classified}
    (h : directiveRanges closer text scope i parenthesis = some (ranges, j)) :
    min (parenthesis + 1) (utf8Length text) ≤ j := by
  unfold directiveRanges at h
  split at h
  · cases h
  · rename_i hend
    have hle := le_argumentsEnd hend
    split at h
    · cases h
    · simp only at h
      split at h
      · simp only [Option.some.injEq, Prod.mk.injEq] at h
        omega
      · split at h
        · cases h
        · split at h <;>
          · simp only [Option.some.injEq, Prod.mk.injEq] at h
            omega

theorem rangesFrom_append (start : Nat) (front back : List Piece) :
    rangesFrom start (front ++ back) =
      rangesFrom start front ++
        rangesFrom (start + utf8Length (front.flatMap Piece.text)) back := by
  induction front generalizing start with
  | nil => rfl
  | cons p front ih => simp [rangesFrom, ih, Nat.add_assoc]

/-- The ranges of a directive are those of its pieces. -/
theorem directiveRanges_eq (closer pre head inner : List Char) (scope : Scope) {parenthesis : Nat}
    (hhead : parenthesis + 1 = utf8Length (pre ++ head)) :
    let d := readDirective closer head scope inner
    directiveRanges closer (pre ++ head ++ inner) scope (utf8Length pre) parenthesis =
      some (rangesFrom (utf8Length pre) d.pieces,
        utf8Length (pre ++ d.pieces.flatMap Piece.text)) := by
  have hend := argumentsEnd_eq closer (pre ++ head) [] inner 0 none
  have hread := readArguments_append closer .outside 0 [] inner
  unfold readDirective
  simp only [List.reverse_nil, List.append_nil, List.nil_append, quotingOf] at hend hread ⊢
  generalize readArguments closer .outside 0 [] inner = list at hend hread ⊢
  obtain ⟨text, closed, rest⟩ := list
  have hlines := lineRanges_eq (pre ++ head) text ((if closed then [')'] else []) ++ rest) scope
  rw [List.append_assoc (pre ++ head) text, ← List.append_assoc text, hread] at hlines
  rw [directiveRanges, hhead, hend]
  simp only [hlines]
  cases closed with
  | false => simp [rangesFrom, flatMap_linePieces]
  | true =>
    have hsize : ')'.utf8Size = 1 := rfl
    have hsemicolon : ';'.utf8Size = 1 := rfl
    have hdrop := dropBytes?_utf8Length (pre ++ head ++ text ++ [')']) rest
    have hlength : utf8Length (pre ++ head ++ text ++ [')']) =
        utf8Length (pre ++ head ++ text) + 1 := by
      simp [hsize]
      omega
    have hsplit : pre ++ head ++ text ++ [')'] ++ rest = pre ++ head ++ inner := by
      rw [← hread]
      simp
    rw [hlength, hsplit] at hdrop
    simp only [hdrop]
    by_cases hnext : rest.head? = some ';'
    · simp [hnext, rangesFrom, rangesFrom_append, flatMap_linePieces, hsize, hsemicolon,
        Nat.add_assoc]
    · simp [hnext, rangesFrom, rangesFrom_append, flatMap_linePieces, hsize, Nat.add_assoc]

end Stencil.Template
