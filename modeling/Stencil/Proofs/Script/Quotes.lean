import Mathlib.Data.List.TakeWhile
import Mathlib.Data.List.TakeDrop
import Stencil.Script.Token
import Stencil.Template.Quoting

/-! # Quotes in scripts

A scanner of templates follows the quotes of a script without reading its tokens.  Most tokens leave
it where it is: words, numbers and marks have no quotes, and a string ends with the quote that it
begins with.  A template literal up to an expression leaves its own quote open.  Only what scripts
may say with single quotes, which is in comments, in regular expressions and in the expressions of a
template literal, can lead the scanner astray.
-/
namespace Stencil.Script

open Template (Quoting isQuote)

/-! ## Texts that leave quotes alone -/

/-- Neither a quote nor a backslash. -/
def isPlain (c : Char) : Bool := !isQuote c && c != '\\'

theorem isPlain_of {p : Char → Bool} (h : (['"', '\'', '\x60', '\\'].any p) = false) {c : Char}
    (hc : p c = true) : isPlain c = true := by
  have hnone := List.any_eq_false.mp h
  have hne (d : Char) (hd : d ∈ ['"', '\'', '\x60', '\\']) : c ≠ d := by
    rintro rfl
    exact hnone c hd hc
  simp [isPlain, isQuote, hne '"' (by simp), hne '\'' (by simp), hne '\x60' (by simp),
    hne '\\' (by simp)]

/-- A place outside of quoted texts, or in one and not behind a backslash. -/
def Settled : Quoting → Prop
  | .outside => True
  | .inside q => isQuote q = true
  | .escaped _ => False

/-- A text behind which the same quote is open as in front of it. -/
def Neutral (cs : List Char) : Prop := ∀ s, Settled s → cs.foldl Quoting.step s = s

theorem neutral_nil : Neutral [] := fun _ _ => rfl

theorem Neutral.append {cs ds : List Char} (hcs : Neutral cs) (hds : Neutral ds) :
    Neutral (cs ++ ds) := by
  intro s hs
  rw [List.foldl_append, hcs s hs, hds s hs]

theorem neutral_of_plain {cs : List Char} (h : ∀ c ∈ cs, isPlain c = true) : Neutral cs := by
  intro s hs
  induction cs with
  | nil => rfl
  | cons c cs ih =>
    obtain ⟨hc, hcs⟩ := List.forall_mem_cons.mp h
    obtain ⟨hquote, hslash⟩ : isQuote c = false ∧ c ≠ '\\' := by simpa [isPlain] using hc
    have hstep : s.step c = s := by
      cases s with
      | outside => simp [Quoting.step, hquote]
      | inside q =>
        have hne : c ≠ q := by
          rintro rfl
          rw [show isQuote c = true from hs] at hquote
          cases hquote
        simp [Quoting.step, hslash, hne]
      | escaped q => exact hs.elim
    rw [List.foldl_cons, hstep, ih hcs]

/-- Behind a backslash a character that is no quote stands for itself, in a quoted text or not. -/
theorem neutral_escape {c : Char} (h : isQuote c = false) : Neutral ['\\', c] := by
  rintro (_ | q | q) hs
  · have hslash : isQuote '\\' = false := by decide
    simp [Quoting.step, hslash, h]
  · rfl
  · exact hs.elim

/-- Between two cursors lies a text with a property. -/
def Passed (P : List Char → Prop) (c c' : Cursor) : Prop := ∃ cs, c.ahead = cs ++ c'.ahead ∧ P cs

section
variable {c c' c'' : Cursor}

theorem Passed.refl (c : Cursor) : Passed Neutral c c := ⟨[], rfl, neutral_nil⟩

theorem Passed.trans (h : Passed Neutral c c') (h' : Passed Neutral c' c'') :
    Passed Neutral c c'' := by
  obtain ⟨cs, hcs, hneutral⟩ := h
  obtain ⟨ds, hds, hneutral'⟩ := h'
  exact ⟨cs ++ ds, by rw [hcs, hds, List.append_assoc], hneutral.append hneutral'⟩

/-- Plain characters are passed. -/
theorem passed_plain {cs rest : List Char} (hahead : c.ahead = cs ++ rest)
    (hplain : ∀ d ∈ cs, isPlain d = true) : Passed Neutral c (c.skip cs.length) :=
  ⟨cs, by simp [Cursor.skip, hahead], neutral_of_plain hplain⟩

theorem passed_next {d : Char} {rest : List Char} (hahead : c.ahead = d :: rest)
    (hplain : isPlain d = true) : Passed Neutral c c.next :=
  ⟨[d], by simp [Cursor.next, hahead], neutral_of_plain (by simpa using hplain)⟩

end

/-! ## Escapes -/

theorem isPlain_of_hexDigit? {c : Char} (h : (hexDigit? c).isSome = true) : isPlain c = true :=
  isPlain_of (p := fun c => (hexDigit? c).isSome) (by decide) h

theorem readHex_plain {count n : Nat} {cs : List Char} (h : readHex count cs = some n) :
    ∃ rest, cs = cs.take count ++ rest ∧ (cs.take count).length = count ∧
      ∀ c ∈ cs.take count, isPlain c = true := by
  unfold readHex at h
  simp only at h
  split at h
  · rename_i hdigits
    obtain ⟨hlength, hall⟩ : (cs.take count).length = count ∧
        ∀ c ∈ cs.take count, (hexDigit? c).isSome = true := by simpa using hdigits
    exact ⟨cs.drop count, (List.take_append_drop count cs).symm, hlength,
      fun c hc => isPlain_of_hexDigit? (hall c hc)⟩
  · cases h

theorem readCodePoint_plain {n used : Nat} {cs : List Char}
    (h : readCodePoint cs = some (n, used)) :
    ∃ text rest, cs = text ++ rest ∧ text.length = used ∧ ∀ c ∈ text, isPlain c = true := by
  unfold readCodePoint at h
  split at h
  · rename_i cs
    have hdigits : ∀ c ∈ cs.takeWhile fun c => (hexDigit? c).isSome, isPlain c = true :=
      fun c hc => isPlain_of_hexDigit?
        (List.mem_takeWhile_imp (p := fun c => (hexDigit? c).isSome) hc)
    have hsplit := List.takeWhile_append_dropWhile (p := fun c => (hexDigit? c).isSome) (l := cs)
    simp only [List.span_eq_takeWhile_dropWhile] at h
    generalize cs.takeWhile _ = digits at h hdigits hsplit
    split at h
    · rename_i rest hrest
      rw [hrest] at hsplit
      split at h
      · cases h
      · obtain ⟨-, rfl⟩ := Prod.mk.inj (Option.some.inj h)
        refine ⟨'\x7b' :: (digits ++ ['\x7d']), rest, by simp [← hsplit], by simp, ?_⟩
        intro c hc
        rcases List.mem_cons.mp hc with rfl | hc
        · decide
        · rcases List.mem_append.mp hc with hc | hc
          · exact hdigits c hc
          · obtain rfl := List.mem_singleton.mp hc
            decide
    · cases h
  · obtain ⟨m, hhex, hm⟩ := Option.map_eq_some_iff.mp h
    obtain ⟨rfl, rfl⟩ := Prod.mk.inj hm
    obtain ⟨rest, hsplit, hlength, hplain⟩ := readHex_plain hhex
    exact ⟨cs.take 4, rest, hsplit, hlength, hplain⟩

theorem readUnicode_neutral {ch : Char} {used : Nat} {cs : List Char}
    (h : readUnicode cs = some (ch, used)) :
    ∃ text rest, cs = text ++ rest ∧ text.length = used ∧ Neutral text := by
  unfold readUnicode at h
  split at h
  · cases h
  · rename_i n size hpoint
    obtain ⟨text, rest, rfl, rfl, hplain⟩ := readCodePoint_plain hpoint
    have halone : ∃ text' rest', text ++ rest = text' ++ rest' ∧ text'.length = text.length ∧
        Neutral text' := ⟨text, rest, rfl, rfl, neutral_of_plain hplain⟩
    split at h
    · -- a second escape may be the other half of the character
      rw [List.drop_left] at h
      split at h
      · rename_i low
        split at h
        · rename_i m more hlow
          obtain ⟨text', rest', rfl, rfl, hplain'⟩ := readCodePoint_plain hlow
          split at h
          · obtain ⟨-, rfl⟩ := Prod.mk.inj (Option.some.inj h)
            refine ⟨text ++ (['\\', 'u'] ++ text'), rest', by simp, by simp; omega, ?_⟩
            exact (neutral_of_plain hplain).append
              ((neutral_escape (by decide)).append (neutral_of_plain hplain'))
          · obtain ⟨-, rfl⟩ := Prod.mk.inj (Option.some.inj h)
            exact halone
        · obtain ⟨-, rfl⟩ := Prod.mk.inj (Option.some.inj h)
          exact halone
      · obtain ⟨-, rfl⟩ := Prod.mk.inj (Option.some.inj h)
        exact halone
    · split at h
      all_goals
        obtain ⟨-, rfl⟩ := Prod.mk.inj (Option.some.inj h)
        exact halone

theorem isPlain_of_isOctal {c : Char} (h : isOctal c = true) : isPlain c = true :=
  isPlain_of (by decide) h

/-- Behind a backslash one character stands for itself, and what belongs to it has no quote. -/
theorem readEscape_neutral {inTemplate : Bool} {meaning cs : List Char} {used : Nat}
    (h : readEscape inTemplate cs = some (meaning, used)) :
    ∃ ch more rest, cs = ch :: (more ++ rest) ∧ more.length + 1 = used ∧ Neutral more := by
  have hone (ch : Char) (rest : List Char) : ∃ ch' more rest', ch :: rest = ch' :: (more ++ rest') ∧
      more.length + 1 = 1 ∧ Neutral more := ⟨ch, [], rest, rfl, rfl, neutral_nil⟩
  unfold readEscape at h
  split at h
  · cases h
  case h_8 rest =>
    obtain ⟨n, hhex, hn⟩ := Option.map_eq_some_iff.mp h
    obtain ⟨-, rfl⟩ := Prod.mk.inj hn
    obtain ⟨rest', hsplit, hlength, hplain⟩ := readHex_plain hhex
    exact ⟨'x', rest.take 2, rest', congrArg _ hsplit, by rw [hlength], neutral_of_plain hplain⟩
  case h_9 rest =>
    obtain ⟨⟨ch, size⟩, hunicode, hn⟩ := Option.map_eq_some_iff.mp h
    obtain ⟨-, rfl⟩ := Prod.mk.inj hn
    obtain ⟨text, rest', rfl, rfl, hneutral⟩ := readUnicode_neutral hunicode
    exact ⟨'u', text, rest', rfl, rfl, hneutral⟩
  case h_10 rest =>
    obtain ⟨-, rfl⟩ := Prod.mk.inj (Option.some.inj h)
    exact ⟨'\r', ['\n'], rest, rfl, rfl, neutral_of_plain (by simp [isPlain, isQuote])⟩
  case h_11 ch rest _ _ _ _ _ _ _ _ _ =>
    have hone : used = 1 → ∃ ch' more rest', ch :: rest = ch' :: (more ++ rest') ∧
        more.length + 1 = used ∧ Neutral more := by
      rintro rfl
      exact hone ch rest
    split at h
    · exact hone (Prod.mk.inj (Option.some.inj h)).2.symm
    split at h
    · -- in a template digits are no escape
      split at h
      · exact hone (Prod.mk.inj (Option.some.inj h)).2.symm
      split at h
      · cases h
      · exact hone (Prod.mk.inj (Option.some.inj h)).2.symm
    split at h
    · rw [readOctal] at h
      obtain ⟨-, rfl⟩ := Prod.mk.inj (Option.some.inj h)
      generalize (if ch ≤ '3' then 2 else 1) = count
      obtain ⟨rest', hsplit⟩ : (rest.take count).takeWhile isOctal <+: rest :=
        (List.takeWhile_prefix _).trans (List.take_prefix _ _)
      refine ⟨ch, (rest.take count).takeWhile isOctal, rest', by rw [hsplit], rfl, ?_⟩
      exact neutral_of_plain fun c hc => isPlain_of_isOctal (List.mem_takeWhile_imp hc)
    · exact hone (Prod.mk.inj (Option.some.inj h)).2.symm
  all_goals
    obtain ⟨-, rfl⟩ := Prod.mk.inj (Option.some.inj h)
    exact hone _ _

/-! ## Words, numbers and marks -/

/-- If a reader ends, the text that it has passed is neutral; `behind` finds its cursor. -/
def ReadsNeutral {α : Type} (behind : α → Cursor) (c : Cursor) (read : Except Fault α) : Prop :=
  ∀ a, read = .ok a → Passed Neutral c (behind a)

section
variable {α β : Type} {c c' : Cursor} {behind : α → Cursor}

theorem readsNeutral_error (fault : Fault) : ReadsNeutral behind c (.error fault) := nofun

theorem readsNeutral_ok {a : α} (h : Passed Neutral c (behind a)) :
    ReadsNeutral behind c (.ok a) := by
  rintro _ ⟨⟩
  exact h

theorem ReadsNeutral.after {read : Except Fault α} (h : Passed Neutral c c')
    (hread : ReadsNeutral behind c' read) : ReadsNeutral behind c read :=
  fun a ha => h.trans (hread a ha)

theorem ReadsNeutral.bind {behind' : β → Cursor} {first : Except Fault β}
    {next : β → Except Fault α} (hfirst : ReadsNeutral behind' c first)
    (hnext : ∀ b, ReadsNeutral behind (behind' b) (next b)) :
    ReadsNeutral behind c (first >>= next) := by
  intro a ha
  cases first with
  | error fault => cases ha
  | ok b => exact (hfirst b rfl).trans (hnext b a ha)

end

theorem readNameEscape_neutral (allowed : Char → Bool) {c : Cursor} {rest : List Char}
    (hahead : c.ahead = '\\' :: rest) : ReadsNeutral Prod.snd c (readNameEscape allowed c) := by
  unfold readNameEscape
  dsimp only
  split
  · rename_i rest' hu
    split
    · rename_i n used hpoint
      obtain ⟨text, more, rfl, rfl, hplain⟩ := readCodePoint_plain hpoint
      have hpassed : Passed Neutral c (c.next.skip (1 + text.length)) := by
        refine ⟨['\\', 'u'] ++ text, ?_, (neutral_escape (by decide)).append
          (neutral_of_plain hplain)⟩
        obtain rfl : rest = 'u' :: (text ++ more) := by simpa [Cursor.next, hahead] using hu
        simp [Cursor.next, Cursor.skip, hahead, Nat.add_comm 1]
      split
      · exact readsNeutral_error _
      · split
        · exact readsNeutral_ok hpassed
        · exact readsNeutral_error _
    · exact readsNeutral_error _
  · exact readsNeutral_error _

theorem isPlain_of_isIdentifierPart {c : Char} (h : isIdentifierPart c = true) : isPlain c = true :=
  isPlain_of (by decide) h

theorem readWordFrom_neutral (done : List Char) (escaped : Bool) (fuel : Nat) (c : Cursor) :
    ReadsNeutral (·.2.2) c (readWordFrom done escaped fuel c) := by
  induction fuel generalizing done escaped c with
  | zero => exact readsNeutral_ok (.refl c)
  | succ fuel ih =>
    rw [readWordFrom]
    split
    · rename_i hahead
      exact (readNameEscape_neutral _ hahead).bind fun _ => ih _ _ _
    · rename_i ch _ _ hahead
      split
      · rename_i hpart
        exact .after (passed_next hahead (isPlain_of_isIdentifierPart hpart)) (ih _ _ _)
      · exact readsNeutral_ok (.refl c)
    · exact readsNeutral_ok (.refl c)

theorem readWord_neutral (c : Cursor) : ReadsNeutral (·.2.2) c (readWord c) :=
  readWordFrom_neutral [] false c.bound c

theorem readDigits_neutral {isDigit : Char → Bool} (h : ∀ d, isDigit d = true → isPlain d = true)
    (done : List Char) (fuel : Nat) (c : Cursor) :
    ReadsNeutral Prod.snd c (readDigits isDigit done fuel c) := by
  induction fuel generalizing done c with
  | zero => exact readsNeutral_ok (.refl c)
  | succ fuel ih =>
    rw [readDigits]
    split
    · rename_i hahead
      split
      · exact readsNeutral_ok (.refl c)
      · split
        · exact .after (passed_next hahead (by decide)) (ih _ _)
        · exact readsNeutral_error _
    · rename_i hahead
      split
      · rename_i hdigit
        exact .after (passed_next hahead (h _ hdigit)) (ih _ _)
      · exact readsNeutral_ok (.refl c)
    · exact readsNeutral_ok (.refl c)

theorem endNumber_neutral (token : Token) (c : Cursor) :
    ReadsNeutral Prod.snd c (endNumber token c) := by
  unfold endNumber
  split
  · split
    · exact readsNeutral_error _
    · exact readsNeutral_ok (.refl c)
  · exact readsNeutral_ok (.refl c)

theorem isPlain_of_isDigit {c : Char} (h : c.isDigit = true) : isPlain c = true :=
  isPlain_of (by decide) h

theorem readRadix_neutral {r : Radix} (h : ∀ d, r.isDigit d = true → isPlain d = true)
    (c : Cursor) : ReadsNeutral Prod.snd c (readRadix r c) := by
  refine (readDigits_neutral h [] c.bound c).bind ?_
  rintro ⟨digits, c⟩
  dsimp only
  split
  · exact readsNeutral_error _
  · split
    · rename_i hahead
      exact .after (passed_next hahead (by decide)) (endNumber_neutral _ _)
    · exact endNumber_neutral _ _

theorem readPower_neutral (c : Cursor) : ReadsNeutral Prod.snd c (readPower c) := by
  unfold readPower
  split
  rename_i negative behind hsign
  have hpassed : Passed Neutral c behind := by
    split at hsign
    · rename_i hahead
      obtain ⟨-, rfl⟩ := Prod.mk.inj hsign
      exact passed_next hahead (by decide)
    · rename_i hahead
      obtain ⟨-, rfl⟩ := Prod.mk.inj hsign
      exact passed_next hahead (by decide)
    · obtain ⟨-, rfl⟩ := Prod.mk.inj hsign
      exact .refl c
  refine .after hpassed ((readDigits_neutral (fun _ => isPlain_of_isDigit) [] _ _).bind ?_)
  rintro ⟨digits, c⟩
  dsimp only
  split
  · exact readsNeutral_error _
  · exact readsNeutral_ok (.refl c)

theorem readExponent_neutral (c : Cursor) : ReadsNeutral Prod.snd c (readExponent c) := by
  unfold readExponent
  split
  · rename_i hahead
    exact .after (passed_next hahead (by decide)) (readPower_neutral _)
  · rename_i hahead
    exact .after (passed_next hahead (by decide)) (readPower_neutral _)
  · exact readsNeutral_ok (.refl c)

theorem readDecimalRest_neutral (whole : List Char) (c : Cursor) :
    ReadsNeutral Prod.snd c (readDecimalRest whole c) := by
  have hpower (fraction : List Char) (c : Cursor) : ReadsNeutral Prod.snd c
      (readExponent c >>= fun power => endNumber (decimalToken whole fraction power.1) power.2) :=
    (readExponent_neutral c).bind fun _ => endNumber_neutral _ _
  unfold readDecimalRest
  split
  · rename_i hahead
    exact .after (passed_next hahead (by decide))
      ((readDigits_neutral (fun _ => isPlain_of_isDigit) [] _ _).bind fun _ => hpower _ _)
  · exact hpower [] c

theorem readZeroPower_neutral (whole : List Char) (c : Cursor) :
    ReadsNeutral Prod.snd c (readZeroPower whole c) :=
  (readPower_neutral c).bind fun _ => readsNeutral_ok (.refl _)

theorem readZeroLed_neutral (c : Cursor) : ReadsNeutral Prod.snd c (readZeroLed c) := by
  have hdigits : Passed Neutral c (c.skip (c.ahead.takeWhile Char.isDigit).length) :=
    passed_plain (List.takeWhile_append_dropWhile (p := Char.isDigit)).symm fun d hd =>
      isPlain_of_isDigit (List.mem_takeWhile_imp hd)
  refine .after hdigits ?_
  unfold readZeroLed
  dsimp only
  split
  · exact endNumber_neutral _ _
  · split
    · exact readDecimalRest_neutral _ _
    · rename_i hahead
      exact .after (passed_next hahead (by decide)) (readZeroPower_neutral _ _)
    · exact endNumber_neutral _ _

theorem readNumber_neutral (c : Cursor) : ReadsNeutral Prod.snd c (readNumber c) := by
  unfold readNumber
  split
  · rename_i d rest hahead
    have hletter {p : Char → Bool} (hp : (['"', '\'', '\x60', '\\'].any p) = false)
        (hd : p d = true) : Passed Neutral c (c.skip 2) :=
      have hplain : ∀ x ∈ ['0', d], isPlain x = true := by
        simp [isPlain_of hp hd, (by decide : isPlain '0' = true)]
      passed_plain hahead hplain
    split
    · rename_i h
      exact .after (hletter (p := fun d => d == 'x' || d == 'X') (by decide) h)
        (readRadix_neutral (fun _ => isPlain_of_hexDigit?) _)
    split
    · rename_i h
      exact .after (hletter (p := fun d => d == 'o' || d == 'O') (by decide) h)
        (readRadix_neutral (fun _ => isPlain_of_isOctal) _)
    split
    · rename_i h
      exact .after (hletter (p := fun d => d == 'b' || d == 'B') (by decide) h)
        (readRadix_neutral (fun _ => isPlain_of (by decide)) _)
    split
    · rename_i h
      exact .after (hletter (p := fun d => d == 'e' || d == 'E') (by decide) h)
        (readZeroPower_neutral _ _)
    split
    · rename_i h
      exact .after (hletter (p := fun d => d == 'n') (by decide) h) (endNumber_neutral _ _)
    split
    · exact readZeroLed_neutral c
    · exact .after (passed_next hahead (by decide)) (readDecimalRest_neutral _ _)
  · exact readDecimalRest_neutral _ _
  · refine (readDigits_neutral (fun _ => isPlain_of_isDigit) [] _ _).bind ?_
    rintro ⟨whole, c⟩
    dsimp only
    split
    · rename_i hahead
      exact .after (passed_next hahead (by decide)) (endNumber_neutral _ _)
    · exact readDecimalRest_neutral _ _

theorem readMark_neutral (c : Cursor) : ReadsNeutral Prod.snd c (readMark c) := by
  unfold readMark
  split
  · rename_i d rest hahead
    split
    · exact readsNeutral_ok (passed_next hahead (by decide))
    · have hlink : ∀ x ∈ ['?', '.'], isPlain x = true := List.all_eq_true.mp (by decide)
      exact readsNeutral_ok (passed_plain hahead hlink)
  · split
    · rename_i text cs hfound
      have hmarks : ∀ m ∈ markTable, m.2.all isPlain = true := by decide +kernel
      have hbegins := List.find?_some hfound
      obtain ⟨rest, hahead⟩ := List.isPrefixOf_iff_prefix.mp hbegins
      have hplain := hmarks _ (List.mem_of_find?_eq_some hfound)
      exact readsNeutral_ok (passed_plain hahead.symm (List.all_eq_true.mp hplain))
    · exact readsNeutral_error _

/-! ## Strings and template literals -/

/-- A text that turns one state of quotes into another. -/
def Turns (s s' : Quoting) (cs : List Char) : Prop := cs.foldl Quoting.step s = s'

instance (s s' : Quoting) (cs : List Char) : Decidable (Turns s s' cs) :=
  inferInstanceAs (Decidable (_ = _))

section
variable {s s' s'' : Quoting} {c c' c'' : Cursor}

theorem Passed.turns (h : Passed Neutral c c') (hs : Settled s) : Passed (Turns s s) c c' := by
  obtain ⟨cs, hcs, hneutral⟩ := h
  exact ⟨cs, hcs, hneutral s hs⟩

theorem Passed.then (h : Passed (Turns s s') c c') (h' : Passed (Turns s' s'') c' c'') :
    Passed (Turns s s'') c c'' := by
  obtain ⟨cs, hcs, hturn⟩ := h
  obtain ⟨ds, hds, hturn'⟩ := h'
  refine ⟨cs ++ ds, by rw [hcs, hds, List.append_assoc], ?_⟩
  rw [Turns, List.foldl_append, hturn, hturn']

/-- One character is passed. -/
theorem passed_step {d : Char} {rest : List Char} (hahead : c.ahead = d :: rest)
    (hstep : s.step d = s') : Passed (Turns s s') c c.next :=
  ⟨[d], by simp [Cursor.next, hahead], hstep⟩

/-- In a quoted text an escape is passed. -/
theorem passed_escape {inTemplate : Bool} {meaning rest : List Char} {used : Nat} {quote : Char}
    (hquote : isQuote quote = true) (hahead : c.ahead = '\\' :: rest)
    (h : readEscape inTemplate rest = some (meaning, used)) :
    Passed (Turns (.inside quote) (.inside quote)) c (c.skip (1 + used)) := by
  obtain ⟨ch, more, rest', rfl, rfl, hneutral⟩ := readEscape_neutral h
  refine ⟨'\\' :: ch :: more, ?_, hneutral (.inside quote) hquote⟩
  simp [Cursor.skip, hahead, Nat.add_comm 1]

end

/-- The rest of a string closes its quote. -/
theorem readStringFrom_turns {quote : Char} (hquote : isQuote quote = true) (start : Nat)
    (done : List Char) (fuel : Nat) {c c' : Cursor} {token : Token}
    (h : readStringFrom quote start done fuel c = .ok (token, c')) :
    (∃ value, token = .string value) ∧ Passed (Turns (.inside quote) .outside) c c' := by
  have hslash : quote ≠ '\\' := by
    rintro rfl
    cases hquote
  induction fuel generalizing done c with
  | zero => cases h
  | succ fuel ih =>
    rw [readStringFrom] at h
    split at h
    · cases h
    · rename_i rest hahead
      split at h
      · rename_i meaning used hescape
        obtain ⟨htoken, hrest⟩ := ih _ h
        exact ⟨htoken, (passed_escape hquote hahead hescape).then hrest⟩
      · split at h <;> cases h
    · rename_i ch rest hne hahead
      split at h
      · rename_i hend
        obtain rfl : ch = quote := by simpa using hend
        obtain ⟨rfl, rfl⟩ := Prod.mk.inj (Except.ok.inj h)
        exact ⟨⟨_, rfl⟩, passed_step hahead (by simp [Quoting.step, hslash])⟩
      · rename_i hinside
        split at h
        · cases h
        · have hch : ch ≠ '\\' := by
            rintro rfl
            exact hne rfl
          have hother : ch ≠ quote := by simpa using hinside
          obtain ⟨htoken, hrest⟩ := ih _ h
          exact ⟨htoken, (passed_step hahead (by simp [Quoting.step, hch, hother])).then hrest⟩

/-- A string has no quote open behind it. -/
theorem readString_turns {quote : Char} (hquote : isQuote quote = true) {c c' : Cursor}
    {rest : List Char} {token : Token} (hahead : c.ahead = quote :: rest)
    (h : readString quote c = .ok (token, c')) :
    (∃ value, token = .string value) ∧ Passed (Turns .outside .outside) c c' := by
  obtain ⟨htoken, hrest⟩ := readStringFrom_turns hquote _ _ _ h
  exact ⟨htoken, (passed_step hahead (by simp [Quoting.step, hquote])).then hrest⟩

/-- The quotes that are open inside the expressions of a template literal, or outside of all of
them. -/
def quotingIn (inTemplate : Bool) : Quoting := if inTemplate then .inside '\x60' else .outside

theorem settled_quotingIn (inTemplate : Bool) : Settled (quotingIn inTemplate) := by
  cases inTemplate
  · trivial
  · exact (by decide : isQuote '\x60' = true)

/-- A part of a template literal closes its quote if it is the last one. -/
theorem readTemplateFrom_turns (start : Nat) (done : Option (List Char)) (fuel : Nat)
    {c c' : Cursor} {token : Token} (h : readTemplateFrom start done fuel c = .ok (token, c')) :
    ∃ value last, token = .template value last ∧
      Passed (Turns (quotingIn true) (quotingIn !last)) c c' := by
  have hquote : isQuote '\x60' = true := by decide
  induction fuel generalizing done c with
  | zero => cases h
  | succ fuel ih =>
    rw [readTemplateFrom] at h
    dsimp only at h
    split at h
    · cases h
    · rename_i hahead
      obtain ⟨rfl, rfl⟩ := Prod.mk.inj (Except.ok.inj h)
      exact ⟨_, true, rfl, passed_step hahead rfl⟩
    · rename_i rest hahead
      obtain ⟨rfl, rfl⟩ := Prod.mk.inj (Except.ok.inj h)
      have hplain : ∀ x ∈ ['$', '\x7b'], isPlain x = true := List.all_eq_true.mp (by decide)
      exact ⟨_, false, rfl, (passed_plain hahead hplain).turns (settled_quotingIn true)⟩
    · rename_i rest hahead
      split at h
      · rename_i meaning used hescape
        obtain ⟨value, last, htoken, hrest⟩ := ih _ h
        exact ⟨value, last, htoken, (passed_escape hquote hahead hescape).then hrest⟩
      · cases rest with
        | nil =>
          -- nothing is left behind the backslash
          have hnil : (c.skip 2).ahead = [] := by simp [Cursor.skip, hahead]
          cases fuel with
          | zero => cases h
          | succ fuel => simp [readTemplateFrom, hnil] at h
        | cons ch rest =>
          obtain ⟨value, last, htoken, hrest⟩ := ih _ h
          have hpair : Passed (Turns (quotingIn true) (quotingIn true)) c (c.skip 2) :=
            ⟨['\\', ch], by simp [Cursor.skip, hahead], rfl⟩
          exact ⟨value, last, htoken, hpair.then hrest⟩
    · rename_i rest hahead
      obtain ⟨value, last, htoken, hrest⟩ := ih _ h
      have hplain : ∀ x ∈ ['\r', '\n'], isPlain x = true := List.all_eq_true.mp (by decide)
      exact ⟨value, last, htoken,
        ((passed_plain hahead hplain).turns (settled_quotingIn true)).then hrest⟩
    · rename_i ch rest hend _ hescape _ hahead
      obtain ⟨value, last, htoken, hrest⟩ := ih _ h
      have hch : Quoting.step (quotingIn true) ch = quotingIn true := by
        simp [quotingIn, Quoting.step, show ch ≠ '\\' from hescape, show ch ≠ '\x60' from hend]
      exact ⟨value, last, htoken, (passed_step hahead hch).then hrest⟩

/-! ## Tokens -/

/-- Whether a string or a template literal begins at a cursor. -/
def Cursor.atQuote (c : Cursor) : Bool := c.ahead.head?.any isQuote

/-- Whether an expression of a template literal begins behind a token. -/
def Token.opensExpression : Token → Bool
  | .template _ last => !last
  | _ => false

/-- A token that begins without a quote has none. -/
theorem readToken_neutral {c : Cursor} (hquote : c.atQuote = false) :
    ReadsNeutral Prod.snd c (readToken c) := by
  unfold readToken
  split
  · exact readsNeutral_ok (.refl c)
  · rename_i hahead
    simp [Cursor.atQuote, hahead, isQuote] at hquote
  · rename_i hahead
    simp [Cursor.atQuote, hahead, isQuote] at hquote
  · rename_i hahead
    simp [Cursor.atQuote, hahead, isQuote] at hquote
  · rename_i hahead
    split
    · exact .after (passed_next hahead (by decide))
        ((readWord_neutral _).bind fun _ => readsNeutral_ok (.refl _))
    · exact readsNeutral_error _
  · split
    · exact readNumber_neutral c
    · exact readMark_neutral c
  · split
    · exact readNumber_neutral c
    · split
      · exact (readWord_neutral c).bind fun _ => readsNeutral_ok (.refl _)
      · exact readMark_neutral c

/-- Outside of template literals a token has no quote open behind it, unless an expression of a
template literal begins there. -/
theorem readToken_turns {c c' : Cursor} {token : Token} (hquote : c.atQuote = true)
    (h : readToken c = .ok (token, c')) :
    Passed (Turns (quotingIn false) (quotingIn token.opensExpression)) c c' := by
  unfold readToken at h
  split at h
  · rename_i hahead
    simp [Cursor.atQuote, hahead] at hquote
  · rename_i hahead
    obtain ⟨⟨value, rfl⟩, hpassed⟩ := readString_turns (by decide) hahead h
    exact hpassed
  · rename_i hahead
    obtain ⟨⟨value, rfl⟩, hpassed⟩ := readString_turns (by decide) hahead h
    exact hpassed
  · rename_i hahead
    obtain ⟨value, last, rfl, hrest⟩ := readTemplateFrom_turns _ _ _ h
    exact (passed_step hahead rfl).then hrest
  · rename_i hahead
    simp [Cursor.atQuote, hahead, isQuote] at hquote
  · rename_i hahead
    simp [Cursor.atQuote, hahead, isQuote] at hquote
  · rename_i hdouble hsingle hback _ _ hahead
    simp only [Cursor.atQuote, hahead, isQuote, List.head?_cons, Option.any_some, Bool.or_eq_true,
      beq_iff_eq] at hquote
    exact (hquote.elim (·.elim hdouble hsingle) hback).elim

/-! ## What may hold single quotes -/

theorem skipGap_suffix {gap : Gap} {n offset : Nat} {broke onNewLine : Bool}
    {seen comment : Option Comment} {cs ahead : List Char}
    (h : skipGap gap n broke seen cs = .token offset ahead onNewLine comment) : ahead <:+ cs := by
  fun_induction skipGap gap n broke seen cs with
  | case1 | case6 | case7 =>
    obtain ⟨-, rfl, -⟩ := GapEnd.token.inj h
    exact List.suffix_rfl
  | case2 _ _ _ _ ih | case3 _ _ _ _ ih | case11 _ _ _ _ _ _ ih =>
    exact (ih h).trans ((List.suffix_cons _ _).trans (List.suffix_cons _ _))
  | case10 => cases h
  | _ =>
    rename_i ih
    exact (ih h).trans (List.suffix_cons _ _)

theorem suffix_skip (c : Cursor) (n : Nat) : (c.skip n).ahead <:+ c.ahead := List.drop_suffix n _

theorem suffix_next (c : Cursor) : c.next.ahead <:+ c.ahead := List.tail_suffix _

theorem readRegexBody_suffix {start : Nat} {inClass : Bool} {fuel : Nat} {c c' : Cursor}
    (h : readRegexBody start inClass fuel c = .ok c') : c'.ahead <:+ c.ahead := by
  induction fuel generalizing inClass c with
  | zero => cases h
  | succ fuel ih =>
    rw [readRegexBody] at h
    split at h
    · cases h
    split at h
    · cases h
    split at h
    · split at h
      · cases h
      · exact (ih h).trans (suffix_skip c 2)
    split at h
    · exact (ih h).trans (suffix_next c)
    split at h
    · exact (ih h).trans (suffix_next c)
    split at h
    · obtain rfl := Except.ok.inj h
      exact suffix_next c
    · exact (ih h).trans (suffix_next c)

theorem readRegexFlags_suffix {seen : List Char} {fuel : Nat} {c c' : Cursor}
    (h : readRegexFlags seen fuel c = .ok c') : c'.ahead <:+ c.ahead := by
  induction fuel generalizing seen c with
  | zero =>
    obtain rfl := Except.ok.inj h
    exact List.suffix_rfl
  | succ fuel ih =>
    rw [readRegexFlags] at h
    split at h
    · split at h
      · obtain rfl := Except.ok.inj h
        exact List.suffix_rfl
      · split at h
        · cases h
        · exact (ih h).trans (suffix_next c)
    · obtain rfl := Except.ok.inj h
      exact List.suffix_rfl

theorem readRegex_suffix {start : Nat} {c c' : Cursor} {token : Token}
    (h : readRegex start c = .ok (token, c')) : c'.ahead <:+ c.ahead := by
  unfold readRegex at h
  cases hbody : readRegexBody start false (c.bound + 1) c with
  | error fault => rw [hbody] at h; cases h
  | ok behind =>
    rw [hbody] at h
    cases hflags : readRegexFlags [] behind.bound behind with
    | error fault => simp [bind, Except.bind, hflags] at h
    | ok last =>
      simp only [bind, Except.bind, hflags] at h
      obtain ⟨-, rfl⟩ := Prod.mk.inj (Except.ok.inj h)
      exact (readRegexFlags_suffix hflags).trans (readRegexBody_suffix hbody)

/-! ## Scripts -/

/-- How what stands at a place of a script is read.  Only the grammar knows where a regular
expression may stand, and which brace ends an expression of a template literal. -/
inductive Reading
  | token
  | regex
  | templateRest
  deriving DecidableEq, Repr

/-- The text between a cursor and a later one. -/
def Cursor.textTo (c c' : Cursor) : List Char := c.ahead.take (c.ahead.length - c'.ahead.length)

/-- Whether the text between two cursors leaves the quotes as they are. -/
def Cursor.isCalmTo (inTemplate : Bool) (c c' : Cursor) : Bool :=
  Turns (quotingIn inTemplate) (quotingIn inTemplate) (c.textTo c')

/-- The cursor behind the white space and the comments at a cursor, if they leave the quotes as they
are. -/
def passGap (inTemplate : Bool) (c : Cursor) : Option Cursor :=
  match skipGap .plain c.offset false none c.ahead with
  | .openComment _ => none
  | .token offset ahead _ _ =>
    let c' := { c with offset, ahead }
    if c.isCalmTo inTemplate c' then some c' else none

/-- The cursor behind what stands at a cursor, and whether an expression of a template literal
begins or goes on there.  A regular expression has to leave the quotes as they are, and so has a
string or a template literal in the expression of another one. -/
def passReading (inTemplate : Bool) (c : Cursor) : Reading → Option (Bool × Cursor)
  | .token =>
    match readToken c with
    | .error _ => none
    | .ok (token, c') =>
      if !c.atQuote then some (inTemplate, c')
      else if !inTemplate then some (token.opensExpression, c')
      else if c.isCalmTo true c' then some (true, c') else none
  | .regex =>
    match c.ahead, readRegex c.offset c.next with
    | '/' :: _, .ok (_, c') => if c.isCalmTo inTemplate c' then some (inTemplate, c') else none
    | _, _ => none
  | .templateRest =>
    match inTemplate, c.ahead, readTemplate c.offset c.next with
    | true, '\x7d' :: _, .ok (token, c') => some (token.opensExpression, c')
    | _, _, _ => none

/-- Whether a script can be read as the given tokens, and whatever may hold single quotes leaves the
quotes as they are. -/
def readsCalmly : List Reading → Bool → Cursor → Bool
  | [], inTemplate, c =>
    match passGap inTemplate c with
    | some c' => !inTemplate && c'.ahead.isEmpty
    | none => false
  | reading :: readings, inTemplate, c =>
    match passGap inTemplate c with
    | some c' =>
      match passReading inTemplate c' reading with
      | some (inTemplate', c'') => readsCalmly readings inTemplate' c''
      | none => false
    | none => false

section
variable {inTemplate inTemplate' : Bool} {c c' : Cursor}

theorem passed_of_isCalmTo (hsuffix : c'.ahead <:+ c.ahead) (h : c.isCalmTo inTemplate c' = true) :
    Passed (Turns (quotingIn inTemplate) (quotingIn inTemplate)) c c' := by
  obtain ⟨cs, hcs⟩ := hsuffix
  have htext : c.textTo c' = cs := by simp [Cursor.textTo, ← hcs]
  rw [Cursor.isCalmTo, htext] at h
  exact ⟨cs, hcs.symm, of_decide_eq_true h⟩

theorem passGap_turns (h : passGap inTemplate c = some c') :
    Passed (Turns (quotingIn inTemplate) (quotingIn inTemplate)) c c' := by
  unfold passGap at h
  split at h
  · cases h
  · rename_i hgap
    dsimp only at h
    split at h
    · rename_i hcalm
      obtain rfl := Option.some.inj h
      exact passed_of_isCalmTo (skipGap_suffix hgap) hcalm
    · cases h

theorem passReading_turns {reading : Reading}
    (h : passReading inTemplate c reading = some (inTemplate', c')) :
    Passed (Turns (quotingIn inTemplate) (quotingIn inTemplate')) c c' := by
  cases reading with
  | token =>
    simp only [passReading] at h
    split at h
    · cases h
    rename_i token behind hread
    split at h
    · rename_i hquote
      obtain ⟨rfl, rfl⟩ := Prod.mk.inj (Option.some.inj h)
      exact (readToken_neutral (by simpa using hquote) _ hread).turns (settled_quotingIn _)
    rename_i hquote
    have hpassed := readToken_turns (by simpa using hquote) hread
    split at h
    · rename_i houtside
      obtain rfl : inTemplate = false := by simpa using houtside
      obtain ⟨rfl, rfl⟩ := Prod.mk.inj (Option.some.inj h)
      exact hpassed
    rename_i hinside
    obtain rfl : inTemplate = true := by simpa using hinside
    split at h
    · rename_i hcalm
      obtain ⟨rfl, rfl⟩ := Prod.mk.inj (Option.some.inj h)
      obtain ⟨cs, hcs, -⟩ := hpassed
      exact passed_of_isCalmTo ⟨cs, hcs.symm⟩ hcalm
    · cases h
  | regex =>
    simp only [passReading] at h
    split at h
    · rename_i hahead hread
      split at h
      · rename_i hcalm
        obtain ⟨rfl, rfl⟩ := Prod.mk.inj (Option.some.inj h)
        exact passed_of_isCalmTo ((readRegex_suffix hread).trans (suffix_next c)) hcalm
      · cases h
    · cases h
  | templateRest =>
    simp only [passReading] at h
    split at h
    · rename_i hahead hread
      obtain ⟨rfl, rfl⟩ := Prod.mk.inj (Option.some.inj h)
      obtain ⟨value, last, rfl, hrest⟩ := readTemplateFrom_turns _ _ _ hread
      exact (passed_step hahead rfl).then hrest
    · cases h

/-- A script that reads calmly closes all its quotes. -/
theorem turns_of_readsCalmly {readings : List Reading}
    (h : readsCalmly readings inTemplate c = true) :
    Turns (quotingIn inTemplate) .outside c.ahead := by
  induction readings generalizing inTemplate c with
  | nil =>
    simp only [readsCalmly] at h
    split at h
    · rename_i behind hgap
      obtain ⟨rfl, hend⟩ : inTemplate = false ∧ behind.ahead = [] := by simpa using h
      obtain ⟨cs, hcs, hturns⟩ := passGap_turns hgap
      rwa [hcs, hend, List.append_nil]
    · cases h
  | cons reading readings ih =>
    simp only [readsCalmly] at h
    split at h
    · rename_i behind hgap
      split at h
      · rename_i inTemplate' last hplace
        obtain ⟨cs, hcs, hturns⟩ := (passGap_turns hgap).then (passReading_turns hplace)
        have hrest := ih h
        rw [Turns] at hturns hrest ⊢
        rw [hcs, List.foldl_append, hturns, hrest]
      · cases h
    · cases h

end

end Stencil.Script
