import Mathlib.Data.List.Basic
import Stencil.Proofs.Text.Offset
import Stencil.Text.Search

/-! # What searches find

What a search finds in a text is an occurrence, and none stands at a place before it.  The same is
found among the bytes of the texts, since characters begin where no other one goes on.  The pieces
of a text between occurrences of a word, joined by that word, are the text again.
-/
namespace Stencil

variable {needle cs rest before behind : List Char}

theorem stripStart?_eq_some_iff : stripStart? needle cs = some rest ↔ cs = needle ++ rest := by
  induction needle generalizing cs with
  | nil => simp [stripStart?, eq_comm]
  | cons n needle ih =>
    cases cs with
    | nil => simp [stripStart?]
    | cons c cs =>
      rw [stripStart?, List.cons_append, List.cons.injEq]
      by_cases hc : n = c
      · rw [if_pos hc, ih]
        simp [hc]
      · simp [hc, Ne.symm hc]

/-! ## The first occurrence -/

/-- A word stands in a text behind so many of its characters. -/
def OccursAt (needle cs : List Char) (k : ℕ) : Prop := k ≤ cs.length ∧ needle <+: cs.drop k

instance (needle cs : List Char) (k : ℕ) : Decidable (OccursAt needle cs k) :=
  inferInstanceAs (Decidable (_ ∧ _))

theorem occursAt_zero : OccursAt needle cs 0 ↔ (stripStart? needle cs).isSome = true := by
  rw [Option.isSome_iff_exists]
  simp only [OccursAt, Nat.zero_le, true_and, List.drop_zero, stripStart?_eq_some_iff]
  exact exists_congr fun _ => eq_comm

theorem occursAt_succ (c : Char) (k : ℕ) :
    OccursAt needle (c :: cs) (k + 1) ↔ OccursAt needle cs k := by
  simp [OccursAt]

/-- What has been passed stands before what is found. -/
theorem splitFirstFrom?_eq (passed : List Char) : splitFirstFrom? needle passed cs =
    (splitFirst? needle cs).map fun (before, behind) => (passed.reverse ++ before, behind) := by
  induction cs generalizing passed with
  | nil =>
    unfold splitFirst? splitFirstFrom?
    split <;> simp
  | cons c cs ih =>
    unfold splitFirst? splitFirstFrom?
    split
    case h_1 => simp
    case h_2 =>
      rw [ih, ih [c], Option.map_map]
      congr 1
      funext found
      simp

theorem splitFirst?_cons (c : Char) : splitFirst? needle (c :: cs) =
    match stripStart? needle (c :: cs) with
    | some behind => some ([], behind)
    | none => (splitFirst? needle cs).map fun (before, behind) => (c :: before, behind) := by
  rw [splitFirst?, splitFirstFrom?, splitFirstFrom?_eq [c]]
  rfl

/-- What is found is an occurrence, and none stands before it. -/
theorem splitFirst?_eq_some (h : splitFirst? needle cs = some (before, behind)) :
    cs = before ++ needle ++ behind ∧ ∀ k < before.length, ¬ OccursAt needle cs k := by
  induction cs generalizing before with
  | nil =>
    unfold splitFirst? splitFirstFrom? at h
    split at h
    case isTrue hempty =>
      cases h
      simpa using hempty
    case isFalse => cases h
  | cons c cs ih =>
    rw [splitFirst?_cons] at h
    split at h
    case h_1 behind hstrip =>
      cases h
      exact ⟨stripStart?_eq_some_iff.mp hstrip, fun k hk => absurd hk (Nat.not_lt_zero k)⟩
    case h_2 hstrip =>
      obtain ⟨⟨before, behind⟩, hfound, heq⟩ := Option.map_eq_some_iff.mp h
      cases heq
      obtain ⟨hsplit, hfirst⟩ := ih hfound
      refine ⟨congrArg (c :: ·) hsplit, fun k hk => ?_⟩
      cases k with
      | zero => simp [occursAt_zero, hstrip]
      | succ k =>
        rw [occursAt_succ]
        exact hfirst k (Nat.lt_of_succ_lt_succ hk)

/-- If nothing is found, there is no occurrence. -/
theorem splitFirst?_eq_none (h : splitFirst? needle cs = none) (k : ℕ) :
    ¬ OccursAt needle cs k := by
  induction cs generalizing k with
  | nil =>
    unfold splitFirst? splitFirstFrom? at h
    rintro ⟨-, hprefix⟩
    have hempty : needle = [] := by simpa using hprefix
    simp [hempty] at h
  | cons c cs ih =>
    rw [splitFirst?_cons] at h
    split at h
    case h_1 => cases h
    case h_2 hstrip =>
      cases k with
      | zero => simp [occursAt_zero, hstrip]
      | succ k =>
        rw [occursAt_succ]
        exact ih (Option.map_eq_none_iff.mp h) k

theorem OccursAt.append (before needle behind : List Char) :
    OccursAt needle (before ++ needle ++ behind) before.length := by
  refine ⟨by simp, ?_⟩
  rw [List.append_assoc, List.drop_left]
  exact List.prefix_append needle behind

/-! ## Bytes -/

/-- The bytes of a text. -/
def utf8Bytes (cs : List Char) : List UInt8 := cs.flatMap String.utf8EncodeChar

theorem utf8Bytes_cons (c : Char) (cs : List Char) :
    utf8Bytes (c :: cs) = String.utf8EncodeChar c ++ utf8Bytes cs := List.flatMap_cons

theorem utf8Bytes_append (cs ds : List Char) :
    utf8Bytes (cs ++ ds) = utf8Bytes cs ++ utf8Bytes ds := List.flatMap_append

theorem length_utf8Bytes (cs : List Char) : (utf8Bytes cs).length = utf8Length cs := by
  induction cs with
  | nil => rfl
  | cons c cs ih =>
    rw [utf8Bytes_cons, List.length_append, String.length_utf8EncodeChar, ih, utf8Length_cons]

/-- The bytes of a text that begin those of another one are those of a text that begins it. -/
theorem prefix_of_utf8Bytes {q : List UInt8} (h : utf8Bytes needle ++ q = utf8Bytes cs) :
    needle <+: cs := by
  refine List.isPrefix_of_utf8Encode_append_eq_utf8Encode q.toByteArray ?_
  show (utf8Bytes needle).toByteArray ++ q.toByteArray = (utf8Bytes cs).toByteArray
  rw [← List.toByteArray_append, h]

/-- The bytes of a word stand in those of a text behind so many of them. -/
def OccursAtByte (needle cs : List Char) (n : ℕ) : Prop :=
  ∃ p q, utf8Bytes cs = p ++ utf8Bytes needle ++ q ∧ p.length = n

/-- Where the first byte of a character stands among those of another one, that one begins. -/
theorem eq_nil_of_encode {c d : Char} {p tail tail' : List UInt8} {b : UInt8}
    (hc : String.utf8EncodeChar c = p ++ b :: tail) (hd : String.utf8EncodeChar d = b :: tail') :
    p = [] := by
  have hfirst : b.IsUTF8FirstByte := by
    have hhead := UInt8.isUTF8FirstByte_getElem_zero_utf8EncodeChar (c := d)
    simpa only [hd, List.getElem_cons_zero] using hhead
  have hinside : p.length < (String.utf8EncodeChar c).length := by
    rw [hc, List.length_append, List.length_cons]
    omega
  have hbyte : (String.utf8EncodeChar c)[p.length] = b := by
    simp [hc]
  have hzero := UInt8.isUTF8FirstByte_getElem_utf8EncodeChar.mp (hbyte ▸ hfirst)
  exact List.length_eq_zero_iff.mp hzero

/-- Where the bytes of a word stand, a character begins. -/
theorem exists_of_utf8Bytes_eq (hne : needle ≠ []) {p q : List UInt8}
    (h : utf8Bytes cs = p ++ utf8Bytes needle ++ q) :
    ∃ before behind, cs = before ++ needle ++ behind ∧ p = utf8Bytes before := by
  obtain ⟨d, word, rfl⟩ := List.exists_cons_of_ne_nil hne
  rw [List.append_assoc] at h
  induction cs generalizing p with
  | nil =>
    simp [utf8Bytes] at h
  | cons c cs ih =>
    have hbehind : ∀ more, utf8Bytes cs = more ++ (utf8Bytes (d :: word) ++ q) →
        p = String.utf8EncodeChar c ++ more →
        ∃ before behind, c :: cs = before ++ d :: word ++ behind ∧ p = utf8Bytes before := by
      intro more hrest hp
      obtain ⟨before, behind, hcs, hmore⟩ := ih hrest
      exact ⟨c :: before, behind, congrArg (c :: ·) hcs, by rw [hp, hmore, utf8Bytes_cons]⟩
    have hboth := h
    rw [utf8Bytes_cons] at hboth
    rcases List.append_eq_append_iff.mp hboth with ⟨more, hp, hrest⟩ | ⟨inner, hc, hrest⟩
    · exact hbehind more hrest hp
    · cases inner with
      | nil => exact hbehind [] hrest.symm (by rw [hc, List.append_nil, List.append_nil])
      | cons b tail =>
        obtain ⟨b', tail', hd⟩ := List.exists_cons_of_ne_nil (String.utf8EncodeChar_ne_nil (c := d))
        rw [utf8Bytes_cons, hd] at hrest
        obtain ⟨rfl, -⟩ := List.cons.inj hrest
        obtain rfl := eq_nil_of_encode hc hd
        obtain ⟨behind, hcs⟩ := prefix_of_utf8Bytes h.symm
        exact ⟨[], behind, hcs.symm, rfl⟩

/-- The bytes of a word stand where the word stands. -/
theorem occursAtByte_iff (hne : needle ≠ []) (n : ℕ) :
    OccursAtByte needle cs n ↔ ∃ k, OccursAt needle cs k ∧ utf8Length (cs.take k) = n := by
  constructor
  · rintro ⟨p, q, h, rfl⟩
    obtain ⟨before, behind, rfl, rfl⟩ := exists_of_utf8Bytes_eq hne h
    refine ⟨before.length, .append before needle behind, ?_⟩
    rw [List.append_assoc, List.take_left, length_utf8Bytes]
  · rintro ⟨k, ⟨hk, behind, hbehind⟩, rfl⟩
    refine ⟨utf8Bytes (cs.take k), utf8Bytes behind, ?_, length_utf8Bytes _⟩
    rw [List.append_assoc, ← utf8Bytes_append, hbehind, ← utf8Bytes_append, List.take_append_drop]

theorem occursAt_nil (cs : List Char) : OccursAt [] cs 0 := ⟨Nat.zero_le _, List.nil_prefix⟩

/-- What is found first is found first among the bytes. -/
theorem splitFirst?_eq_some_bytes (h : splitFirst? needle cs = some (before, behind)) :
    OccursAtByte needle cs (utf8Length before) ∧
      ∀ n < utf8Length before, ¬ OccursAtByte needle cs n := by
  obtain ⟨rfl, hfirst⟩ := splitFirst?_eq_some h
  constructor
  · refine ⟨utf8Bytes before, utf8Bytes behind, ?_, length_utf8Bytes before⟩
    rw [utf8Bytes_append, utf8Bytes_append]
  · intro n hn hoccurs
    by_cases hne : needle = []
    · obtain rfl : before = [] := by
        by_contra hbefore
        exact hfirst 0 (List.length_pos_iff.mpr hbefore) (hne ▸ occursAt_nil _)
      exact absurd hn (Nat.not_lt_zero n)
    · obtain ⟨k, hk, rfl⟩ := (occursAtByte_iff hne n).mp hoccurs
      have hle : before.length ≤ k := not_lt.mp fun hlt => hfirst k hlt hk
      rw [List.append_assoc, List.take_append, List.take_of_length_le hle, utf8Length_append] at hn
      omega

/-- If nothing is found, nothing is found among the bytes. -/
theorem splitFirst?_eq_none_bytes (h : splitFirst? needle cs = none) (n : ℕ) :
    ¬ OccursAtByte needle cs n := by
  have hnone := splitFirst?_eq_none h
  have hne : needle ≠ [] := fun hnil => hnone 0 (hnil ▸ occursAt_nil cs)
  rw [occursAtByte_iff hne]
  exact fun ⟨k, hk, _⟩ => hnone k hk

/-! ## Pieces -/

theorem intercalate_concat (word : List Char) {list : List (List Char)} (hne : list ≠ [])
    (last : List Char) :
    word.intercalate (list ++ [last]) = word.intercalate list ++ word ++ last := by
  induction list with
  | nil => exact absurd rfl hne
  | cons first list ih =>
    cases list with
    | nil => simp [List.intercalate_cons_cons]
    | cons second list =>
      rw [List.cons_append, List.cons_append, List.intercalate_cons_cons, ← List.cons_append,
        ih (List.cons_ne_nil second list), List.intercalate_cons_cons]
      simp only [List.append_assoc]

/-- What ends the last one of some pieces ends them when they are joined. -/
theorem intercalate_append_last (word : List Char) (list : List (List Char))
    (last more : List Char) :
    word.intercalate (list ++ [last ++ more]) = word.intercalate (list ++ [last]) ++ more := by
  cases list with
  | nil => simp
  | cons first list =>
    rw [intercalate_concat word (List.cons_ne_nil first list),
      intercalate_concat word (List.cons_ne_nil first list), List.append_assoc _ last more]

/-- The rest of an occurrence is passed. -/
theorem piecesFrom_skip (piece : List Char) (done : List (List Char)) (tail : List Char) :
    piecesFrom needle tail.length piece done (tail ++ rest) =
      piecesFrom needle 0 piece done rest := by
  induction tail with
  | nil => rfl
  | cons c tail ih => exact ih

/-- The pieces that are done and the open one, joined, and the rest behind them, are the text. -/
theorem intercalate_piecesFrom (hne : needle ≠ []) (piece : List Char) (done : List (List Char)) :
    needle.intercalate (piecesFrom needle 0 piece done cs) =
      needle.intercalate (done.reverse ++ [piece.reverse]) ++ cs := by
  induction hn : cs.length using Nat.strongRecOn generalizing cs piece done with
  | ind n ih =>
    cases cs with
    | nil => simp [piecesFrom]
    | cons c cs =>
      rw [piecesFrom]
      split
      case h_1 behind hstrip =>
        obtain ⟨c', tail, rfl⟩ := List.exists_cons_of_ne_nil hne
        obtain ⟨rfl, hcs⟩ := List.cons.inj (stripStart?_eq_some_iff.mp hstrip)
        obtain rfl : cs = tail ++ behind := hcs
        have hshorter : behind.length < n := by
          rw [← hn, List.length_cons, List.length_append]
          omega
        show List.intercalate _ (piecesFrom (c :: tail) tail.length _ _ _) = _
        rw [piecesFrom_skip, ih behind.length hshorter _ _ rfl, List.reverse_cons,
          List.reverse_nil, intercalate_concat _ (by simp)]
        simp
      case h_2 hstrip =>
        rw [ih cs.length (by simp [← hn]) _ _ rfl, List.reverse_cons, intercalate_append_last]
        simp

/-- The pieces between the occurrences of a word, joined by the word, are the text. -/
theorem intercalate_splitPieces (hne : needle ≠ []) :
    needle.intercalate (splitPieces needle cs) = cs := by
  rw [splitPieces, intercalate_piecesFrom hne]
  rfl

end Stencil
