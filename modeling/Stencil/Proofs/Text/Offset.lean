import Mathlib.Data.String.Basic
import Stencil.Text.Position
import Stencil.Text.Slice

/-! # Byte offsets

A byte offset that is the length of a prefix names the place behind that prefix.  Slicing by such
offsets gives the text between two places, and a line index gives the position of each: the number
of line breaks before it and the number of characters behind the last of them.
-/
namespace Stencil

/-! ## Lengths in bytes -/

private theorem foldl_utf8Size (cs : List Char) (n : Nat) :
    cs.foldl (fun n c => n + c.utf8Size) n = n + utf8Length cs := by
  induction cs generalizing n with
  | nil => rfl
  | cons c cs ih =>
    rw [utf8Length, List.foldl_cons, List.foldl_cons, ih, ih]
    omega

@[simp] theorem utf8Length_nil : utf8Length [] = 0 := rfl

@[simp] theorem utf8Length_cons (c : Char) (cs : List Char) :
    utf8Length (c :: cs) = c.utf8Size + utf8Length cs := by
  rw [utf8Length, List.foldl_cons, foldl_utf8Size]
  omega

@[simp] theorem utf8Length_append (cs ds : List Char) :
    utf8Length (cs ++ ds) = utf8Length cs + utf8Length ds := by
  induction cs with
  | nil => simp
  | cons c cs ih => simp [ih, Nat.add_assoc]

theorem utf8ByteSize_ofList_eq (cs : List Char) :
    (String.ofList cs).utf8ByteSize = utf8Length cs := by
  rw [String.utf8ByteSize_ofList]
  induction cs with
  | nil => rfl
  | cons c cs ih => rw [String.utf8Len_cons, ih, utf8Length_cons, Nat.add_comm]

/-! ## Slices -/

theorem eq_append_of_dropBytes? {cs rest : List Char} {n : Nat} (h : dropBytes? cs n = some rest) :
    ∃ pre, cs = pre ++ rest ∧ utf8Length pre = n := by
  fun_induction dropBytes? cs n with
  | case1 cs => exact ⟨[], by simpa using h, rfl⟩
  | case2 => cases h
  | case3 c cs n hc ih =>
    obtain ⟨pre, rfl, hn⟩ := ih h
    exact ⟨c :: pre, rfl, by rw [utf8Length_cons]; omega⟩
  | case4 => cases h

theorem eq_append_of_takeBytes? {cs taken : List Char} {n : Nat}
    (h : takeBytes? cs n = some taken) : ∃ post, cs = taken ++ post ∧ utf8Length taken = n := by
  fun_induction takeBytes? cs n generalizing taken with
  | case1 cs =>
    obtain rfl := Option.some.inj h
    exact ⟨cs, rfl, rfl⟩
  | case2 => cases h
  | case3 c cs n hc ih =>
    obtain ⟨more, hmore, rfl⟩ := Option.map_eq_some_iff.mp h
    obtain ⟨post, rfl, hn⟩ := ih hmore
    exact ⟨post, rfl, by rw [utf8Length_cons]; omega⟩
  | case4 => cases h

/-- A slice stands in the text between its two offsets. -/
theorem eq_append_of_slice? {cs value : List Char} {start stop : Nat}
    (h : slice? cs start stop = some value) :
    ∃ pre post, cs = pre ++ value ++ post ∧ utf8Length pre = start ∧
      utf8Length (pre ++ value) = stop := by
  unfold slice? at h
  split at h
  · rename_i hle
    split at h
    · rename_i rest hdrop
      obtain ⟨pre, rfl, hpre⟩ := eq_append_of_dropBytes? hdrop
      obtain ⟨post, rfl, hvalue⟩ := eq_append_of_takeBytes? h
      exact ⟨pre, post, by simp, hpre, by rw [utf8Length_append]; omega⟩
    · cases h
  · cases h

theorem dropBytes?_utf8Length (pre rest : List Char) :
    dropBytes? (pre ++ rest) (utf8Length pre) = some rest := by
  induction pre with
  | nil => cases rest <;> rfl
  | cons c pre ih =>
    obtain ⟨k, hk⟩ := Nat.exists_eq_add_of_lt c.utf8Size_pos
    have hn : utf8Length (c :: pre) = k + utf8Length pre + 1 := by rw [utf8Length_cons]; omega
    have hrest : k + utf8Length pre + 1 - c.utf8Size = utf8Length pre := by omega
    rw [hn, List.cons_append, dropBytes?, if_pos (by omega), hrest, ih]

theorem takeBytes?_utf8Length (value post : List Char) :
    takeBytes? (value ++ post) (utf8Length value) = some value := by
  induction value with
  | nil => cases post <;> rfl
  | cons c value ih =>
    obtain ⟨k, hk⟩ := Nat.exists_eq_add_of_lt c.utf8Size_pos
    have hn : utf8Length (c :: value) = k + utf8Length value + 1 := by rw [utf8Length_cons]; omega
    have hrest : k + utf8Length value + 1 - c.utf8Size = utf8Length value := by omega
    rw [hn, List.cons_append, takeBytes?, if_pos (by omega), hrest, ih]
    rfl

/-- Every part of a text is the slice between the places around it. -/
theorem slice?_utf8Length (pre value post : List Char) :
    slice? (pre ++ value ++ post) (utf8Length pre) (utf8Length (pre ++ value)) = some value := by
  have hlen : utf8Length (pre ++ value) - utf8Length pre = utf8Length value := by
    rw [utf8Length_append]
    omega
  rw [slice?, if_pos (by rw [utf8Length_append]; omega), List.append_assoc, dropBytes?_utf8Length,
    hlen]
  exact takeBytes?_utf8Length value post

/-! ## Boundaries of characters -/

/-- A character of a text begins at a byte, or the text ends there. -/
def IsBoundary (text : List Char) (n : Nat) : Prop :=
  ∃ pre post, text = pre ++ post ∧ utf8Length pre = n

theorem isBoundary_iff {text : List Char} {n : Nat} :
    IsBoundary text n ↔ (dropBytes? text n).isSome = true := by
  constructor
  · rintro ⟨pre, post, rfl, rfl⟩
    rw [dropBytes?_utf8Length]
    rfl
  · intro h
    obtain ⟨post, hpost⟩ := Option.isSome_iff_exists.mp h
    obtain ⟨pre, htext, hn⟩ := eq_append_of_dropBytes? hpost
    exact ⟨pre, post, htext, hn⟩

instance (text : List Char) (n : Nat) : Decidable (IsBoundary text n) :=
  decidable_of_iff' _ isBoundary_iff

theorem isBoundary_zero (text : List Char) : IsBoundary text 0 := ⟨[], text, rfl, rfl⟩

theorem isBoundary_length (text : List Char) : IsBoundary text (utf8Length text) :=
  ⟨text, [], by simp, rfl⟩

theorem IsBoundary.le_length {text : List Char} {n : Nat} (h : IsBoundary text n) :
    n ≤ utf8Length text := by
  obtain ⟨pre, post, rfl, rfl⟩ := h
  rw [utf8Length_append]
  exact Nat.le_add_right _ _

/-- Between two boundaries there is a part of the text. -/
theorem IsBoundary.exists_eq_append {text : List Char} {m n : Nat} (hm : IsBoundary text m)
    (hn : IsBoundary text n) (h : m ≤ n) :
    ∃ pre value post, text = pre ++ value ++ post ∧ utf8Length pre = m ∧
      utf8Length (pre ++ value) = n := by
  obtain ⟨pre, ahead, htext, rfl⟩ := hm
  obtain ⟨before, post, hsplit, rfl⟩ := hn
  rcases List.append_eq_append_iff.mp (htext.symm.trans hsplit) with
    ⟨value, rfl, rfl⟩ | ⟨value, rfl, rfl⟩
  · exact ⟨pre, value, post, hsplit, rfl, rfl⟩
  · have hvalue : value = [] := by
      cases value with
      | nil => rfl
      | cons c value =>
        have := c.utf8Size_pos
        rw [utf8Length_append, utf8Length_cons] at h
        omega
    subst hvalue
    exact ⟨before, [], ahead, by simpa using htext, by simp, by simp⟩

/-! ## Counting the lines that have begun -/

/-- The binary search finds where the lines that start at or before an offset end, once it is known
that all of the first `lo` do and none from the `hi`-th on. -/
theorem countStarts_spec (lines : Array Line) (offset : Nat) {lo hi : Nat} (hle : lo ≤ hi)
    (hhi : hi ≤ lines.size)
    (hsorted : ∀ i j (hj : j < lines.size) (hij : i < j), lines[i].start ≤ lines[j].start)
    (hlo : ∀ i (h : i < lines.size), i < lo → lines[i].start ≤ offset)
    (hup : ∀ i (h : i < lines.size), hi ≤ i → offset < lines[i].start) :
    let n := LineIndex.countStarts lines offset lo hi
    n ≤ lines.size ∧ (∀ i (h : i < lines.size), i < n → lines[i].start ≤ offset) ∧
      ∀ i (h : i < lines.size), n ≤ i → offset < lines[i].start := by
  fun_induction LineIndex.countStarts lines offset lo hi with
  -- the line in the middle starts at or before the offset, and so do all in front of it
  | case1 lo hi hlt mid hmid ih =>
    have hm : mid < lines.size := by omega
    have hstart : lines[mid].start ≤ offset := by simpa [Array.getElem?_eq_getElem hm] using hmid
    refine ih (by omega) hhi hsorted (fun i h hi => ?_) hup
    rcases Nat.lt_or_ge i mid with hlt | hge
    · exact Nat.le_trans (hsorted i mid hm hlt) hstart
    · obtain rfl : i = mid := by omega
      exact hstart
  -- it starts behind the offset, and so do all behind it
  | case2 lo hi hlt mid hmid ih =>
    have hm : mid < lines.size := by omega
    have hstart : offset < lines[mid].start := by
      simpa [Array.getElem?_eq_getElem hm] using hmid
    refine ih (by omega) (by omega) hsorted hlo (fun i h hi => ?_)
    rcases Nat.lt_or_ge mid i with hlt | hge
    · exact Nat.lt_of_lt_of_le hstart (hsorted mid i h hlt)
    · obtain rfl : i = mid := by omega
      exact hstart
  -- nothing is left to search
  | case3 lo hi hlt =>
    obtain rfl : lo = hi := by omega
    exact ⟨hhi, hlo, hup⟩

/-! ## Lines of a text -/

theorem charsInBytes?_utf8Length (cs ds : List Char) :
    charsInBytes? (cs ++ ds) (utf8Length cs) = some cs.length := by
  induction cs with
  | nil => cases ds <;> rfl
  | cons c cs ih =>
    obtain ⟨k, hk⟩ := Nat.exists_eq_add_of_lt c.utf8Size_pos
    have hn : utf8Length (c :: cs) = k + utf8Length cs + 1 := by rw [utf8Length_cons]; omega
    have hrest : k + utf8Length cs + 1 - c.utf8Size = utf8Length cs := by omega
    rw [hn, List.cons_append, charsInBytes?, if_pos (by omega), hrest, ih]
    rfl

/-- Every line of a text starts at or behind the first one. -/
theorem start_le_of_mem_linesFrom {start next : Nat} {current cs : List Char} (h : start ≤ next) :
    ∀ l ∈ linesFrom start current next cs, start ≤ l.start := by
  fun_induction linesFrom start current next cs with
  | case1 => simp
  | case2 start current next cs ih =>
    intro l hl
    rcases List.mem_cons.mp hl with rfl | hl
    · exact Nat.le_refl _
    · have := ih (Nat.le_refl _) l hl
      omega
  | case3 start current next c cs hc ih => exact ih (by omega)

/-- Lines start one behind the other, and all but the first one behind the text that is read. -/
theorem linesFrom_sorted (current cs : List Char) {start next : Nat} (h : start ≤ next) :
    (linesFrom start current next cs).Pairwise (·.start < ·.start) ∧
      ∀ l ∈ (linesFrom start current next cs).tail, next < l.start := by
  fun_induction linesFrom start current next cs with
  | case1 => simp
  | case2 start current next cs ih =>
    have hpos := Char.utf8Size_pos '\n'
    have hstart : ∀ l ∈ linesFrom (next + '\n'.utf8Size) [] (next + '\n'.utf8Size) cs,
        next + '\n'.utf8Size ≤ l.start := start_le_of_mem_linesFrom (Nat.le_refl _)
    refine ⟨List.pairwise_cons.mpr ⟨fun l hl => ?_, (ih (Nat.le_refl _)).1⟩, fun l hl => ?_⟩
    · have := hstart l hl
      show start < l.start
      omega
    · have := hstart l hl
      omega
  | case3 start current next c cs hc ih =>
    have hpos := Char.utf8Size_pos c
    obtain ⟨hsorted, htail⟩ := ih (by omega)
    exact ⟨hsorted, fun l hl => by have := htail l hl; omega⟩

/-- The first line holds what was read of it before. -/
theorem linesFrom_eq_cons (start next : Nat) (current cs : List Char) :
    ∃ more rest, linesFrom start current next cs = ⟨start, current.reverse ++ more⟩ :: rest := by
  fun_induction linesFrom start current next cs with
  | case1 => exact ⟨[], [], by simp⟩
  | case2 => exact ⟨['\n'], _, by rw [List.reverse_cons]⟩
  | case3 start current next c cs hc ih =>
    obtain ⟨more, rest, h⟩ := ih
    exact ⟨c :: more, rest, by simpa using h⟩

/-- Behind a prefix, the lines that have ended are as many as its line breaks, and the open one
holds as many characters as stand behind the last of them. -/
theorem linesFrom_append (pre post : List Char) (start next : Nat) (current : List Char) (k : Nat)
    (hnext : next = start + utf8Length current.reverse) :
    ∃ ended start' current',
      linesFrom start current next (pre ++ post) =
        ended ++ linesFrom start' current' (next + utf8Length pre) post ∧
      start ≤ start' ∧ (∀ l ∈ ended, l.start ≤ start') ∧
      next + utf8Length pre = start' + utf8Length current'.reverse ∧
      Position.after ⟨k, current.length⟩ pre = ⟨k + ended.length, current'.length⟩ := by
  induction pre generalizing start next current k with
  | nil =>
    exact ⟨[], start, current, by simp, Nat.le_refl _, by simp, by simpa using hnext, by simp⟩
  | cons c pre ih =>
    rw [utf8Length_cons, ← Nat.add_assoc, List.cons_append, Position.after_cons, linesFrom]
    by_cases hc : c = '\n'
    -- the open line ends here, and the rest is read with an empty one
    · obtain ⟨ended, start', current', hlines, hstart, hle, hlen, hpos⟩ :=
        ih (next + c.utf8Size) (next + c.utf8Size) [] (k + 1) (by simp)
      rw [if_pos hc, hlines]
      refine ⟨⟨start, (c :: current).reverse⟩ :: ended, start', current', rfl, by omega, ?_, hlen,
        ?_⟩
      · intro l hl
        rcases List.mem_cons.mp hl with rfl | hl
        · show start ≤ start'
          omega
        · exact hle l hl
      · rw [Position.advance, if_pos hc]
        rw [List.length_nil] at hpos
        rw [hpos, List.length_cons, Nat.add_assoc, Nat.add_comm 1]
    · obtain ⟨ended, start', current', hlines, hstart, hle, hlen, hpos⟩ :=
        ih start (next + c.utf8Size) (c :: current) k (by simp [hnext]; omega)
      rw [if_neg hc, hlines]
      refine ⟨ended, start', current', rfl, hstart, hle, hlen, ?_⟩
      rw [Position.advance, if_neg hc]
      exact hpos

/-- The lines that start at or before an offset are those that have ended there, and the open
one. -/
theorem countStarts_eq {ended rest : List Line} {line : Line} {offset : Nat}
    (hsorted : (ended ++ line :: rest).Pairwise (·.start < ·.start))
    (hline : line.start ≤ offset) (hrest : ∀ l ∈ rest, offset < l.start) :
    let lines := (ended ++ line :: rest).toArray
    LineIndex.countStarts lines offset 0 lines.size = ended.length + 1 := by
  intro lines
  have hspec := countStarts_spec lines offset (Nat.zero_le _)
    (Nat.le_refl _) (fun i j hj hij => Nat.le_of_lt ?_) (fun i _ h => absurd h (Nat.not_lt_zero i))
    (fun i h hle => absurd h (Nat.not_lt.mpr hle))
  · obtain ⟨hsize, hlow, hhigh⟩ := hspec
    have hlen : lines.size = ended.length + 1 + rest.length := by simp [lines]; omega
    refine Nat.le_antisymm (Nat.le_of_not_lt fun hlt => ?_) (Nat.lt_of_not_le fun hle => ?_)
    · have hin : ended.length + 1 < lines.size := by omega
      have hmem : lines[ended.length + 1] ∈ rest := by
        simp only [lines, List.getElem_toArray]
        rw [List.getElem_append_right (by omega)]
        simp only [Nat.add_sub_cancel_left, List.getElem_cons_succ]
        exact List.getElem_mem _
      exact absurd (hlow _ hin hlt) (Nat.not_le.mpr (hrest _ hmem))
    · have hin : ended.length < lines.size := by omega
      have hval : lines[ended.length] = line := by simp [lines]
      have := hhigh _ hin hle
      rw [hval] at this
      omega
  · have := List.pairwise_iff_getElem.mp hsorted i j (by simp [lines] at hj; simp; omega)
      (by simpa [lines] using hj) hij
    simpa [lines] using this

/-- **A line index finds the position behind every prefix of its text.** -/
theorem LineIndex.position_utf8Length (pre post : List Char) :
    (LineIndex.ofString (String.ofList (pre ++ post))).position (utf8Length pre) =
      Position.origin.after pre := by
  obtain ⟨ended, start, current, hlines, -, hended, hlen, hpos⟩ :=
    linesFrom_append pre post 0 0 [] 0 rfl
  -- the line that is open behind the prefix takes in `more`, and the lines behind it start later
  obtain ⟨more, rest, hopen⟩ := linesFrom_eq_cons start (0 + utf8Length pre) current post
  have hbefore : start ≤ 0 + utf8Length pre := by omega
  have htail := (linesFrom_sorted current post hbefore).2
  have hsorted := (linesFrom_sorted [] (pre ++ post) (Nat.le_refl 0)).1
  rw [Nat.zero_add] at hlines hopen hlen htail
  rw [hopen] at hlines htail
  rw [hlines] at hsorted
  have hopened : start ≤ utf8Length pre := by omega
  have hcount := countStarts_eq hsorted hopened htail
  have hsize : min (utf8Length pre) (String.ofList (pre ++ post)).utf8ByteSize =
      utf8Length pre := by
    rw [utf8ByteSize_ofList_eq, utf8Length_append]
    omega
  have hcolumn : charsInBytes? (current.reverse ++ more) (utf8Length pre - start) =
      some current.length := by
    rw [show utf8Length pre - start = utf8Length current.reverse by omega, charsInBytes?_utf8Length,
      List.length_reverse]
  simp only [LineIndex.position, LineIndex.ofString, String.toList_ofList, hlines, hsize, hcount]
  rw [Nat.add_sub_cancel, List.getElem?_toArray, List.getElem?_append_right (Nat.le_refl _),
    Nat.sub_self, List.getElem?_cons_zero]
  simp only [hcolumn, Option.getD_some]
  rw [List.length_nil, Nat.zero_add] at hpos
  exact hpos.symm

end Stencil
