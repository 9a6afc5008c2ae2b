import Stencil.Proofs.Template.Arguments

/-! # Arguments by bytes

The marks that set arguments apart are one byte long, and no byte of a longer character is one of
them.  So a splitter may read the bytes of a text one by one and know nothing of its characters: it
finds the same arguments, and each of its offsets lies between two characters.
-/
namespace Stencil.Template

/-- The ranges of the arguments in the bytes of a text, of which those from `here` on are still to
be read; the open argument begins at `start`. -/
def argumentRanges (l : Level) (start here : Nat) : List UInt8 → List (Nat × Nat)
  | [] => [(start, here)]
  | b :: bs =>
    if l = .top ∧ Char.ofUInt8 b = ',' then
      (start, here) :: argumentRanges .top (here + 1) (here + 1) bs
    else argumentRanges (l.step (Char.ofUInt8 b)) start (here + 1) bs

/-! ## Characters of several bytes -/

/-- A character of one byte is that byte. -/
theorem utf8EncodeChar_narrow {c : Char} (hc : c.toNat < 128) :
    ∃ b, String.utf8EncodeChar c = [b] ∧ Char.ofUInt8 b = c ∧ c.utf8Size = 1 := by
  have hsize : c.utf8Size = 1 := by
    rw [Char.utf8Size_eq_one_iff, UInt32.le_iff_toNat_le]
    exact Nat.le_of_lt_succ hc
  refine ⟨c.val.toUInt8, String.utf8EncodeChar_eq_singleton hsize, ?_, hsize⟩
  refine Char.toNat_inj.mp ?_
  show c.val.toUInt8.toNat = c.toNat
  rw [UInt32.toNat_toUInt8]
  exact Nat.mod_eq_of_lt (Nat.lt_trans hc (by decide))

/-- No byte of a longer character is a character of one byte. -/
theorem utf8EncodeChar_wide {c : Char} (hc : 128 ≤ c.toNat) :
    ∀ b ∈ String.utf8EncodeChar c, 128 ≤ (Char.ofUInt8 b).toNat := by
  have hle : ¬ c.val.toNat ≤ 127 := Nat.not_le_of_lt hc
  intro b hb
  show 128 ≤ b.toNat
  simp only [String.utf8EncodeChar, hle, if_false] at hb
  split at hb
  · simp only [List.mem_cons, List.not_mem_nil, or_false] at hb
    rcases hb with rfl | rfl <;> rw [UInt8.toNat_ofNat'] <;> omega
  · split at hb
    · simp only [List.mem_cons, List.not_mem_nil, or_false] at hb
      rcases hb with rfl | rfl | rfl <;> rw [UInt8.toNat_ofNat'] <;> omega
    · simp only [List.mem_cons, List.not_mem_nil, or_false] at hb
      rcases hb with rfl | rfl | rfl | rfl <;> rw [UInt8.toNat_ofNat'] <;> omega

/-- A quoted text that is open ends at a quote. -/
def Quoting.Closes : Quoting → Prop
  | .outside => True
  | .inside quote | .escaped quote => isQuote quote = true

theorem Quoting.Closes.step {quoting : Quoting} (h : quoting.Closes) (c : Char) :
    (quoting.step c).Closes := by
  cases quoting with
  | outside =>
    rw [Quoting.step]
    split
    · assumption
    · trivial
  | inside quote =>
    rw [Quoting.step]
    split
    · exact h
    · split
      · trivial
      · exact h
  | escaped quote => exact h

namespace Level

/-- Where a reader stands behind a character that is no mark. -/
def past (l : Level) : Level :=
  ⟨match l.quoting with
    | .escaped quote => .inside quote
    | quoting => quoting, l.depth⟩

theorem past_past (l : Level) : l.past.past = l.past := by
  obtain ⟨quoting, depth⟩ := l
  cases quoting <;> rfl

/-- A longer character is no mark. -/
theorem step_wide {l : Level} (h : l.quoting.Closes) {c : Char} (hc : 128 ≤ c.toNat) :
    l.step c = l.past := by
  have hne : ∀ {d : Char}, d.toNat < 128 → c ≠ d := by
    rintro d hd rfl
    exact absurd hc (Nat.not_le_of_lt hd)
  obtain ⟨quoting, depth⟩ := l
  cases quoting with
  | outside =>
    have hquote : isQuote c = false := by
      simp [isQuote, hne (show '"'.toNat < 128 by decide), hne (show '\''.toNat < 128 by decide),
        hne (show '\x60'.toNat < 128 by decide)]
    have hopens : opensBracket c = false := by
      simp [opensBracket, hne (show '('.toNat < 128 by decide),
        hne (show '['.toNat < 128 by decide), hne (show '\x7b'.toNat < 128 by decide)]
    have hcloses : closesBracket c = false := by
      simp [closesBracket, hne (show ')'.toNat < 128 by decide),
        hne (show ']'.toNat < 128 by decide), hne (show '\x7d'.toNat < 128 by decide)]
    simp [step, past, Quoting.step, depthBehind, hquote, hopens, hcloses]
  | inside quote =>
    have hquote : c ≠ quote := by
      rcases quote_cases h with rfl | rfl | rfl <;> exact hne (by decide)
    simp [step, past, Quoting.step, hquote, hne (show '\\'.toNat < 128 by decide)]
  | escaped quote => rfl

end Level

/-! ## Splitting bytes -/

/-- A reader of bytes passes a longer character as a reader of characters does. -/
theorem argumentRanges_wide {l : Level} (h : l.quoting.Closes) {start here : Nat}
    {wide : List UInt8} (hne : wide ≠ []) (hwide : ∀ b ∈ wide, 128 ≤ (Char.ofUInt8 b).toNat)
    (bs : List UInt8) :
    argumentRanges l start here (wide ++ bs) =
      argumentRanges l.past start (here + wide.length) bs := by
  induction wide generalizing l here with
  | nil => exact absurd rfl hne
  | cons b wide ih =>
    obtain ⟨hb, hmore⟩ := List.forall_mem_cons.mp hwide
    have hcomma : ¬ (l = .top ∧ Char.ofUInt8 b = ',') := by
      rintro ⟨-, hcomma⟩
      rw [hcomma] at hb
      exact absurd hb (by decide)
    rw [List.cons_append, argumentRanges, if_neg hcomma, Level.step_wide h hb]
    -- the first byte may be the escaped one; those behind it change nothing
    by_cases hempty : wide = []
    · rw [hempty]
      rfl
    · have hpast : l.past.quoting.Closes := by
        rw [← Level.step_wide h hb]
        exact h.step _
      rw [ih hpast hempty hmore, Level.past_past, List.length_cons, Nat.add_right_comm]
      rfl

/-- A reader of bytes stops at a comma at the top, and passes every other character. -/
theorem argumentRanges_char {l : Level} (h : l.quoting.Closes) (start here : Nat) (c : Char)
    (bs : List UInt8) :
    argumentRanges l start here (String.utf8EncodeChar c ++ bs) =
      if l = .top ∧ c = ',' then
        (start, here) :: argumentRanges .top (here + c.utf8Size) (here + c.utf8Size) bs
      else argumentRanges (l.step c) start (here + c.utf8Size) bs := by
  by_cases hc : c.toNat < 128
  · obtain ⟨b, hbytes, hb, hsize⟩ := utf8EncodeChar_narrow hc
    rw [hbytes, hsize, List.singleton_append, argumentRanges, hb]
  · have hwide : 128 ≤ c.toNat := Nat.le_of_not_lt hc
    have hcomma : ¬ (l = .top ∧ c = ',') := by
      rintro ⟨-, rfl⟩
      exact hc (by decide)
    have hne : String.utf8EncodeChar c ≠ [] := by
      rw [Ne, ← List.length_eq_zero_iff, String.length_utf8EncodeChar]
      exact Nat.ne_of_gt c.utf8Size_pos
    rw [argumentRanges_wide h hne (utf8EncodeChar_wide hwide), String.length_utf8EncodeChar,
      if_neg hcomma, Level.step_wide h hwide]

/-- The arguments of a text: one with nothing between commas but white space has none. -/
def argumentsOf (args : List (List Char)) : List (List Char) := if args = [[]] then [] else args

/-- Behind a beginning of a text that ends in an open argument, both splitters find the same. -/
theorem splitArgumentsFrom_eq_ranges {text pre current cs : List Char} {l : Level}
    (h : l.quoting.Closes) (done : List (List Char))
    (htext : text = pre ++ current.reverse ++ cs) :
    ∃ values, (argumentRanges l (utf8Length pre) (utf8Length (pre ++ current.reverse))
        (cs.flatMap String.utf8EncodeChar)).mapM (fun r => slice? text r.1 r.2) = some values ∧
      splitArgumentsFrom l.quoting l.depth current done cs =
        argumentsOf (done.reverse ++ values.map trimChars) := by
  have hslice : slice? text (utf8Length pre) (utf8Length (pre ++ current.reverse)) =
      some current.reverse := by
    rw [htext, slice?_utf8Length]
  induction cs generalizing pre current l done with
  | nil =>
    refine ⟨[current.reverse], ?_, ?_⟩
    · rw [List.flatMap_nil, argumentRanges, List.mapM_cons, hslice]
      rfl
    · cases done with
      | nil => simp [splitArgumentsFrom, argumentsOf]
      | cons first done =>
        have hlong : (trimChars current.reverse :: first :: done).reverse ≠ [[]] :=
          fun hsingle => by simpa using congrArg List.length hsingle
        have hargs : (first :: done).reverse ++ [current.reverse].map trimChars =
            (trimChars current.reverse :: first :: done).reverse := by simp
        rw [hargs, argumentsOf, if_neg hlong]
        simp [splitArgumentsFrom]
  | cons c cs ih =>
    have hbehind (passed : List Char) :
        utf8Length passed + c.utf8Size = utf8Length (passed ++ [c]) := by
      rw [utf8Length_append, utf8Length_cons, utf8Length_nil, Nat.add_zero]
    rw [List.flatMap_cons, argumentRanges_char h, splitArgumentsFrom_cons, hbehind]
    split
    · -- the comma ends the open argument, and the next one begins behind it
      have hopen : text = pre ++ current.reverse ++ [c] ++ [].reverse ++ cs := by
        simp [htext]
      obtain ⟨values, hvalues, hsplit⟩ := ih (l := .top) trivial
        (trimChars current.reverse :: done) hopen (by rw [hopen, slice?_utf8Length])
      refine ⟨current.reverse :: values, ?_, ?_⟩
      · rw [List.reverse_nil, List.append_nil] at hvalues
        rw [List.mapM_cons, hslice, hvalues]
        rfl
      · simpa [Level.top] using hsplit
    · have hopen : text = pre ++ (c :: current).reverse ++ cs := by
        simp [htext]
      have hmore := ih (l := l.step c) (h.step c) done hopen (by rw [hopen, slice?_utf8Length])
      rwa [List.reverse_cons, ← List.append_assoc] at hmore

/-- **Arguments can be found in the bytes of a text.** Every range that a reader of bytes finds is
one of whole characters, and these, without the white space around them, are the arguments. -/
theorem splitArguments_eq_ranges (text : String) :
    ∃ values, (argumentRanges .top 0 0 text.toByteArray.data.toList).mapM
        (fun r => slice? text.toList r.1 r.2) = some values ∧
      splitArguments text = (argumentsOf (values.map trimChars)).map String.ofList := by
  have hbytes : text.toByteArray.data.toList = text.toList.flatMap String.utf8EncodeChar := by
    conv_lhs => rw [← String.ofList_toList (s := text)]
    rw [String.toByteArray_ofList, List.utf8Encode, List.data_toByteArray]
  obtain ⟨values, hvalues, hsplit⟩ := splitArgumentsFrom_eq_ranges (l := .top) trivial []
    (show text.toList = [] ++ [].reverse ++ text.toList from rfl)
  refine ⟨values, ?_, ?_⟩
  · rw [hbytes]
    exact hvalues
  · exact congrArg (List.map String.ofList) hsplit

end Stencil.Template
