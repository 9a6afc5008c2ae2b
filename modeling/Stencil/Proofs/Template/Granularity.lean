import Stencil.Proofs.Template.Lossless

/-! # Granularity of classifiers

How finely a classifier divides what it reports does not show in the spans.  A range of content may
be reported as several ones that touch, each of which may itself be divided further, and any of them
may be empty, lie behind the cursor or begin behind the end of the text.  The scanner takes more
steps for them, fills a gap in front of another one of them and lets the last span grow more often;
but two steps for the parts of a range lead where the one step for the whole range leads.
-/
namespace Stencil.Template

/-- Ranges that report the same content in parts: a range of content may be reported as a part of it
and whatever reports the rest. -/
inductive Finer : List Classified → List Classified → Prop
  | nil : Finer [] []
  | cons (c : Classified) {coarse fine : List Classified} :
    Finer coarse fine → Finer (c :: coarse) (c :: fine)
  | split {start middle stop : Nat} {scope : Scope} {coarse fine : List Classified} :
    scope.isContent = true → start ≤ middle → middle ≤ stop →
    Finer (⟨middle, stop, scope⟩ :: coarse) fine →
    Finer (⟨start, stop, scope⟩ :: coarse) (⟨start, middle, scope⟩ :: fine)

namespace Finer

/-- The parts of ranges have their ends. -/
theorem ends {coarse fine : List Classified} (h : Finer coarse fine) {p : Nat → Prop}
    (hfine : ∀ c ∈ fine, p c.start ∧ p c.stop) : ∀ c ∈ coarse, p c.start ∧ p c.stop := by
  induction h with
  | nil => exact hfine
  | cons c _ ih =>
    obtain ⟨hc, hrest⟩ := List.forall_mem_cons.mp hfine
    exact List.forall_mem_cons.mpr ⟨hc, ih hrest⟩
  | split _ _ _ _ ih =>
    obtain ⟨hpart, hrest⟩ := List.forall_mem_cons.mp hfine
    obtain ⟨hremaining, hcoarse⟩ := List.forall_mem_cons.mp (ih hrest)
    exact List.forall_mem_cons.mpr ⟨⟨hpart.1, hremaining.2⟩, hcoarse⟩

end Finer

/-- Two boundaries in order have a slice between them. -/
theorem exists_slice {text : List Char} {start stop : Nat} (hstart : IsBoundary text start)
    (hstop : IsBoundary text stop) (hle : start ≤ stop) :
    ∃ value, slice? text start stop = some value := by
  obtain ⟨pre, value, post, rfl, rfl, rfl⟩ := hstart.exists_eq_append hstop hle
  exact ⟨value, slice?_utf8Length pre value post⟩

namespace Scanner

variable {text : List Char} {index : LineIndex} {s : Scanner} {scope : Scope}
  {start middle stop : Nat}

/-- Where the cursor stands does not matter for what is added. -/
theorem addContent_cursor (cursor : Nat) :
    ({ s with cursor := cursor } : Scanner).addContent text index scope start stop =
      { s.addContent text index scope start stop with cursor := cursor } := by
  unfold addContent
  cases slice? text start stop <;> rfl

/-- Content that is added in two parts is one span, as if it were added at once. -/
theorem addContent_addContent (hstart : IsBoundary text start) (hmiddle : IsBoundary text middle)
    (hstop : IsBoundary text stop) (hfirst : start ≤ middle) (hsecond : middle ≤ stop) :
    (s.addContent text index scope start middle).addContent text index scope middle stop =
      s.addContent text index scope start stop := by
  obtain ⟨value, hvalue⟩ := exists_slice hstart hmiddle hfirst
  obtain ⟨more, hmore⟩ := exists_slice hmiddle hstop hsecond
  have hwhole := slice?_append hvalue hmore
  unfold addContent
  simp only [hvalue, hmore, hwhole]
  cases s.spans with
  | nil => simp [spanOf]
  | cons last rest =>
    by_cases hgrow : s.openEnd = some start ∧ last.scope = scope
    · simp [hgrow, String.append_assoc]
    · simp [hgrow, spanOf]

/-- A range of content is added in two parts as it is added at once. -/
theorem addRange_addRange (hcontent : scope.isContent = true) (hstart : IsBoundary text start)
    (hmiddle : IsBoundary text middle) (hstop : IsBoundary text stop) (hfirst : start ≤ middle)
    (hsecond : middle ≤ stop) (cursor : Nat) :
    ({ s.addRange text index scope start middle with cursor := cursor } : Scanner).addRange text
        index scope middle stop =
      { s.addRange text index scope start stop with cursor := cursor } := by
  have hkept : scope ≠ .delimiter := by rintro rfl; cases hcontent
  have hadd (m n : Nat) (t : Scanner) : t.addRange text index scope m n =
      if m < n then t.addContent text index scope m n else t := by
    rw [addRange, if_neg hkept, if_pos hcontent]
  rw [hadd, hadd, hadd]
  rcases Nat.eq_or_lt_of_le hfirst with rfl | hfirst
  · rw [if_neg (Nat.lt_irrefl start), addContent_cursor]
    split <;> rfl
  · rcases Nat.eq_or_lt_of_le hsecond with rfl | hsecond
    · rw [if_neg (Nat.lt_irrefl middle)]
    · rw [if_pos hfirst, if_pos hsecond, if_pos (hfirst.trans hsecond), addContent_cursor,
        addContent_addContent hstart hmiddle hstop hfirst.le hsecond.le]

/-- The text between the cursor and a byte behind it, in front of what is reported there. -/
def fillTo (text : List Char) (index : LineIndex) (start : Nat) (s : Scanner) : Scanner :=
  if s.cursor < start then s.addContent text index .text s.cursor start else s

theorem cursor_fillTo : (s.fillTo text index start).cursor = s.cursor := by
  unfold fillTo
  split
  · exact cursor_addContent index .text s.cursor start
  · rfl

section
variable {first last : Nat}

/-- A range that ends before the rest of it begins is left out. -/
theorem step_of_lt (hlt : min last index.size < min (max first s.cursor) index.size) :
    s.step text index ⟨first, last, scope⟩ = s :=
  if_pos hlt

/-- Any other range adds the text in front of it and the rest of it. -/
theorem step_of_le (hstart : min (max first s.cursor) index.size = start)
    (hstop : min last index.size = stop) (hle : start ≤ stop) :
    s.step text index ⟨first, last, scope⟩ =
      { (s.fillTo text index start).addRange text index scope start stop with
        cursor := max stop s.cursor } := by
  subst hstart hstop
  refine (if_neg (Nat.not_lt.mpr hle)).trans ?_
  exact congrArg (fun cursor => { (s.fillTo text index _).addRange text index scope _ _ with
    cursor := max (min last index.size) cursor }) cursor_fillTo

end

/-- The cursor stays on boundaries. -/
theorem isBoundary_step (hcursor : IsBoundary text s.cursor) {c : Classified}
    (hstop : Cuts text c.stop) :
    IsBoundary text (s.step text (.ofString (.ofList text)) c).cursor := by
  obtain ⟨first, last, scope⟩ := c
  have hsize : (LineIndex.ofString (.ofList text)).size = utf8Length text :=
    utf8ByteSize_ofList_eq text
  rcases Nat.lt_or_ge (min last (LineIndex.ofString (.ofList text)).size)
      (min (max first s.cursor) (LineIndex.ofString (.ofList text)).size) with hlt | hle
  · rwa [step_of_lt hlt]
  · rw [step_of_le rfl rfl hle, hsize]
    rcases Nat.le_total (min last (utf8Length text)) s.cursor with h | h
    · rwa [Nat.max_eq_right h]
    · rw [Nat.max_eq_left h]
      exact hstop.min

/-- Two steps for the parts of a range lead where the one step for the range leads. -/
theorem step_step (hcontent : scope.isContent = true) (hcursor : IsBoundary text s.cursor)
    (hstart : Cuts text start) (hmiddle : Cuts text middle) (hstop : Cuts text stop)
    (hfirst : start ≤ middle) (hsecond : middle ≤ stop) :
    (s.step text (.ofString (.ofList text)) ⟨start, middle, scope⟩).step text
        (.ofString (.ofList text)) ⟨middle, stop, scope⟩ =
      s.step text (.ofString (.ofList text)) ⟨start, stop, scope⟩ := by
  have hsize : (LineIndex.ofString (.ofList text)).size = utf8Length text :=
    utf8ByteSize_ofList_eq text
  have hinside := hcursor.le_length
  generalize LineIndex.ofString (.ofList text) = index at hsize ⊢
  rcases Nat.lt_or_ge (min middle index.size) (min (max start s.cursor) index.size) with hlt | hle
  · -- the first part is scanned already, and what is left of the range is left of the second part
    have hrest : max middle s.cursor = max start s.cursor := by omega
    rw [step_of_lt hlt]
    simp only [step, hrest]
  · -- the first part moves the cursor to its end, where the second one begins
    have hmoved : max (min middle index.size) s.cursor = min middle index.size := by omega
    have hrest : min (max middle (min middle index.size)) index.size = min middle index.size := by
      omega
    have hbegun : min (max start s.cursor) index.size = min (max start s.cursor) index.size := rfl
    rw [step_of_le hbegun rfl hle, hmoved, step_of_le hrest rfl (by omega),
      step_of_le hbegun rfl (by omega)]
    -- there is no gap between the two parts
    have hfilled (t : Scanner) : ({ t with cursor := min middle index.size } : Scanner).fillTo text
        index (min middle index.size) = { t with cursor := min middle index.size } :=
      if_neg (Nat.lt_irrefl _)
    have hends (n : Nat) (hn : Cuts text n) : IsBoundary text (min n index.size) := hsize ▸ hn.min
    have hbegin : IsBoundary text (min (max start s.cursor) index.size) :=
      hsize ▸ hstart.min_max hcursor
    have hreached : max (min stop index.size) (min middle index.size) =
      max (min stop index.size) s.cursor := by omega
    rw [hfilled, addRange_addRange hcontent hbegin (hends middle hmiddle) (hends stop hstop) hle
      (by omega), hreached]

/-- Ranges lead where their parts lead. -/
theorem foldl_step_eq {coarse fine : List Classified} (h : Finer coarse fine)
    (hcuts : ∀ c ∈ fine, Cuts text c.start ∧ Cuts text c.stop)
    (hcursor : IsBoundary text s.cursor) :
    coarse.foldl (step text (.ofString (.ofList text))) s =
      fine.foldl (step text (.ofString (.ofList text))) s := by
  induction h generalizing s with
  | nil => rfl
  | cons c _ ih =>
    obtain ⟨⟨-, hstop⟩, hrest⟩ := List.forall_mem_cons.mp hcuts
    exact ih hrest (isBoundary_step hcursor hstop)
  | split hcontent hfirst hsecond hfiner ih =>
    obtain ⟨⟨hstart, hmiddle⟩, hrest⟩ := List.forall_mem_cons.mp hcuts
    obtain ⟨⟨-, hstop⟩, -⟩ := List.forall_mem_cons.mp (hfiner.ends hrest)
    rw [List.foldl_cons, List.foldl_cons, ← ih hrest (isBoundary_step hcursor hmiddle),
      List.foldl_cons, step_step hcontent hcursor hstart hmiddle hstop hfirst hsecond]

end Scanner

/-- **How finely content is reported does not show in the spans**: classifiers of which one reports
the content of the other in parts have the same spans, whatever ranges they report besides, if no
range cuts a character. -/
theorem scan_of_finer {coarse fine : Classifier} {text : String}
    (hfiner : Finer (coarse text.toList) (fine text.toList))
    (hcuts : ∀ c ∈ fine text.toList, Cuts text.toList c.start ∧ Cuts text.toList c.stop) :
    scan coarse text = scan fine text :=
  congrArg (Scanner.finish text.toList (.ofString (.ofList text.toList)))
    (Scanner.foldl_step_eq hfiner hcuts (isBoundary_zero text.toList))

/-- Ranges that overlap, stand in no order and go on behind the end of a text of seven bytes. -/
def wholeRanges : List Classified :=
  [⟨1, 5, .block⟩, ⟨0, 6, .block⟩, ⟨6, 6, .includeBegin⟩, ⟨5, 3, .text⟩, ⟨3, 90, .inlineWrite⟩]

/-- The same ranges with their content in parts, some of which are empty or scanned already. -/
def dividedRanges : List Classified :=
  [⟨1, 3, .block⟩, ⟨3, 5, .block⟩, ⟨0, 0, .block⟩, ⟨0, 4, .block⟩, ⟨4, 6, .block⟩,
    ⟨6, 6, .includeBegin⟩, ⟨5, 3, .text⟩, ⟨3, 7, .inlineWrite⟩, ⟨7, 80, .inlineWrite⟩,
    ⟨80, 90, .inlineWrite⟩]

theorem finer_dividedRanges : Finer wholeRanges dividedRanges :=
  .split rfl (by decide) (by decide) <| .cons _ <|
    .split rfl (by decide) (by decide) <| .split rfl (by decide) (by decide) <| .cons _ <|
    .cons _ <| .cons _ <|
    .split rfl (by decide) (by decide) <| .split rfl (by decide) (by decide) <| .cons _ .nil

theorem scan_wholeRanges_dividedRanges :
    Finer wholeRanges dividedRanges ∧
    (∀ c ∈ dividedRanges, Cuts "aé\nbcd".toList c.start ∧ Cuts "aé\nbcd".toList c.stop) ∧
    scan (fun _ => wholeRanges) "aé\nbcd" = scan (fun _ => dividedRanges) "aé\nbcd" ∧
    scan (fun _ => wholeRanges) "aé\nbcd" =
      [⟨"a", .text, ⟨0, 0⟩, ⟨0, 1⟩⟩, ⟨"é\nbc", .block, ⟨0, 1⟩, ⟨1, 2⟩⟩,
        ⟨"", .includeBegin, ⟨1, 2⟩, ⟨1, 2⟩⟩, ⟨"d", .inlineWrite, ⟨1, 2⟩, ⟨1, 3⟩⟩] := by
  have hcuts : ∀ c ∈ dividedRanges,
      Cuts "aé\nbcd".toList c.start ∧ Cuts "aé\nbcd".toList c.stop := by decide
  exact ⟨finer_dividedRanges, hcuts, scan_of_finer finer_dividedRanges hcuts, by decide +kernel⟩

end Stencil.Template
