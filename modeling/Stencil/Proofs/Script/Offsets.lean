import Stencil.Proofs.Number.Whole
import Stencil.Proofs.Script.Slice
import Stencil.Proofs.Script.StringLength
import Stencil.Proofs.Text.Search

/-! # Offsets in texts

The methods of texts agree on where one text stands in another: the place that `indexOf` tells is
the first one at which a slice is that text, `includes` and `startsWith` tell whether there is one
and whether it is the beginning, `replace` puts a text into it, and the pieces of `split` stand
between such places.  Places are counted by doubles, which is exact for texts of less than `2 ^ 52`
characters.
-/
namespace Stencil.Script

/-! ## Scripts about texts -/

namespace Runner

variable (r : Runner)

/-- Calls the method of a name that is read off a value. -/
def invoke (owner : Value) (name : String) (values : List Value) (place : ℕ) : Exec Value := do
  r.callStep (← getMember owner name place) values place

/-- What the script `s.slice(k, k + t.length) === t` evaluates to. -/
def standsAt (s t : String) (k : Float) (place : ℕ) : Exec Value := do
  let stop ← binaryValue .add (.number k) (← getMember (.string t) "length" place) place
  let part ← r.invoke (.string s) "slice" [.number k, stop] place
  binaryValue .strictEqual part (.string t) place

/-- What the script `s.slice(0, i) + u + s.slice(i + t.length)` evaluates to. -/
def replacedAt (s t u : String) (i : Float) (place : ℕ) : Exec Value := do
  let before ← r.invoke (.string s) "slice" [.number 0, .number i] place
  let start ← binaryValue .add (.number i) (← getMember (.string t) "length" place) place
  let behind ← r.invoke (.string s) "slice" [start] place
  binaryValue .add (← binaryValue .add before (.string u) place) behind place

/-- What the script `s.split(t).join(t)` evaluates to. -/
def splitJoined (s t : String) (place : ℕ) : Exec Value := do
  r.invoke (← r.invoke (.string s) "split" [.string t] place) "join" [.string t] place

end Runner

/-- A step gives a value and leaves every machine as it is. -/
def Answers (step : Exec Value) (v : Value) : Prop := ∀ m, step m = .ok v m

variable {r : Runner} {place : ℕ} {s t : String}

theorem answers_pure (v : Value) : Answers (pure v) v := fun _ => rfl

theorem Answers.bind {step : Exec Value} {next : Value → Exec Value} {v w : Value}
    (h : Answers step v) (h' : Answers (next v) w) : Answers (step >>= next) w := fun m => by
  rw [bind_apply, h m]
  exact h' m

theorem Heap.member_string (h : Heap) (s : String) {name : String} {m : Method}
    (hm : (name, m) ∈ Method.ofStrings) : h.member (.string s) name = .method (.string s) m := by
  simp only [Method.ofStrings, List.mem_cons, Prod.mk.injEq, List.not_mem_nil, or_false] at hm
  rcases hm with ⟨rfl, rfl⟩ | ⟨rfl, rfl⟩ | ⟨rfl, rfl⟩ | ⟨rfl, rfl⟩ | ⟨rfl, rfl⟩ | ⟨rfl, rfl⟩ |
    ⟨rfl, rfl⟩ | ⟨rfl, rfl⟩ | ⟨rfl, rfl⟩ | ⟨rfl, rfl⟩ | ⟨rfl, rfl⟩ | ⟨rfl, rfl⟩ | ⟨rfl, rfl⟩ <;> rfl

/-- A method that is read off a text by its name is called. -/
theorem invoke_string {name : String} {method : Method} (hm : (name, method) ∈ Method.ofStrings)
    (values : List Value) :
    r.invoke (.string s) name values place = r.stringMethod s method values place := by
  funext m
  have hread : getMember (.string s) name place m = .ok (m.heap.member (.string s) name) m := rfl
  rw [Runner.invoke, bind_apply, hread, Heap.member_string m.heap s hm]
  rfl

theorem answers_length (t : String) :
    Answers (getMember (.string t) "length" place) (.number (Float.ofNat t.length)) := fun _ => rfl

/-! ## Slices between offsets -/

section

variable {k n : ℕ}

theorem sliceBound_ofNat (length : ℕ) (hn : n < 2 ^ 53) :
    sliceBound length (Float.ofNat n) = min n length := by
  have hvalue := value?_ofNat hn
  have hwhole : (Binary.ofFloat (Float.ofNat n)).wholePart = n := by
    have htowards := Binary.towardZero_of_value? hvalue
    rw [← Int.cast_natCast, Binary.towardZero_intCast, if_neg (by simp)] at htowards
    exact_mod_cast htowards.symm
  rw [sliceBound_of_value? hvalue, hwhole, if_neg (by simp)]

theorem answers_slice (r : Runner) (place : ℕ) (s : String) (x y : Float) :
    Answers (r.invoke (.string s) "slice" [.number x, .number y] place)
      (.string (String.ofList ((s.toList.drop (sliceBound s.length x)).take
        (max (sliceBound s.length x) (sliceBound s.length y) - sliceBound s.length x)))) := by
  rw [invoke_string (show ("slice", Method.slice) ∈ Method.ofStrings by decide)]
  exact fun _ => rfl

theorem answers_slice_to_end (r : Runner) (place : ℕ) (s : String) (x : Float) :
    Answers (r.invoke (.string s) "slice" [.number x] place)
      (.string (String.ofList ((s.toList.drop (sliceBound s.length x)).take
        (max (sliceBound s.length x) s.length - sliceBound s.length x)))) := by
  rw [invoke_string (show ("slice", Method.slice) ∈ Method.ofStrings by decide)]
  exact fun _ => rfl

theorem answers_add (x y : Float) :
    Answers (binaryValue .add (.number x) (.number y) place) (.number (x + y)) := fun _ => rfl

/-- The slice at a place as long as a text is that text just if the text occurs there. -/
theorem answers_standsAt (t : String) (hs : s.length < 2 ^ 52) (hk : k ≤ s.length) :
    Answers (r.standsAt s t (Float.ofNat k) place)
      (.boolean (decide (OccursAt t.toList s.toList k))) := by
  obtain ⟨n, hn⟩ : ∃ n,
      max k (sliceBound s.length (Float.ofNat k + Float.ofNat t.length)) - k = n := ⟨_, rfl⟩
  have hlength : s.toList.length = s.length ∧ t.toList.length = t.length := ⟨rfl, rfl⟩
  have hoccurs : String.ofList ((s.toList.drop k).take n) = t ↔ OccursAt t.toList s.toList k := by
    rw [← String.toList_inj, String.toList_ofList, OccursAt,
      and_iff_right (show k ≤ s.toList.length from hk), List.prefix_iff_eq_take, eq_comm]
    by_cases hle : t.length ≤ s.length
    · -- the end of the slice is counted exactly
      rw [ofNat_add_ofNat (by omega), sliceBound_ofNat _ (by omega)] at hn
      have htake : (s.toList.drop k).take n = (s.toList.drop k).take t.toList.length := by
        rw [List.take_eq_take_iff, List.length_drop]
        omega
      rw [htake]
    · -- the slice is not longer than `s`, and so is not `t`
      have hshort : ∀ n, t.toList ≠ (s.toList.drop k).take n := fun n h => by
        have hsize := congrArg List.length h
        rw [List.length_take, List.length_drop] at hsize
        omega
      exact iff_of_false (hshort _) (hshort _)
  have hbound : sliceBound s.length (Float.ofNat k) = k := by
    rw [sliceBound_ofNat _ (by omega), min_eq_left hk]
  have hslice := answers_slice r place s (Float.ofNat k)
    (Float.ofNat k + Float.ofNat t.length)
  rw [hbound, hn] at hslice
  rw [← decide_eq_decide.mpr hoccurs]
  exact (answers_length t).bind ((answers_add _ _).bind (hslice.bind fun _ => rfl))

end

/-! ## What the methods answer -/

section

variable {before behind : List Char} {u : String}

theorem invoke_indexOf (s t : String) : r.invoke (.string s) "indexOf" [.string t] place =
    match splitFirst? t.toList s.toList with
    | some (before, _) => pure (.number (Float.ofNat before.length))
    | none => pure (.number (-1.0)) := by
  rw [invoke_string (show ("indexOf", Method.indexOf) ∈ Method.ofStrings by decide)]
  rfl

theorem invoke_replace (s t u : String) :
    r.invoke (.string s) "replace" [.string t, .string u] place =
      match splitFirst? t.toList s.toList with
      | some (before, behind) =>
        pure (.string (String.ofList before ++ u ++ String.ofList behind))
      | none => pure (.string s) := by
  rw [invoke_string (show ("replace", Method.replace) ∈ Method.ofStrings by decide)]
  rfl

theorem invoke_includes (s t : String) : r.invoke (.string s) "includes" [.string t] place =
    pure (.boolean (splitFirst? t.toList s.toList).isSome) := by
  rw [invoke_string (show ("includes", Method.includes) ∈ Method.ofStrings by decide)]
  rfl

theorem invoke_startsWith (s t : String) : r.invoke (.string s) "startsWith" [.string t] place =
    pure (.boolean (stripStart? t.toList s.toList).isSome) := by
  rw [invoke_string (show ("startsWith", Method.startsWith) ∈ Method.ofStrings by decide)]
  rfl

theorem answers_atLeastZero (place : ℕ) (x : Float) :
    Answers (binaryValue .greaterEqual (.number x) (.number 0) place)
      (.boolean ((if x < 0 then some Ordering.lt else if 0 < x then some .gt
        else if x == 0 then some .eq else none).any Ordering.isGE)) := fun _ => rfl

theorem answers_isZero (x : Float) :
    Answers (binaryValue .strictEqual (.number x) (.number 0) place) (.boolean (x == 0)) :=
  fun _ => rfl

theorem ofNat_beq_zero {k : ℕ} (hk : k < 2 ^ 53) : (Float.ofNat k == 0) = true ↔ k = 0 :=
  ofNat_beq_ofNat hk (by norm_num)

theorem answers_atLeastZero_ofNat {k : ℕ} (place : ℕ) (hk : k < 2 ^ 53) :
    Answers (binaryValue .greaterEqual (.number (Float.ofNat k)) (.number 0) place)
      (.boolean true) := by
  have hless : ¬ Float.ofNat k < 0 := fun h =>
    Nat.not_lt_zero k ((ofNat_lt_ofNat hk (by norm_num)).mp h)
  have hgreater : 0 < Float.ofNat k ↔ 0 < k := ofNat_lt_ofNat (by norm_num) hk
  have hanswer := answers_atLeastZero place (Float.ofNat k)
  rw [if_neg hless] at hanswer
  by_cases h : k = 0
  · rwa [if_neg (hgreater.not.mpr (by omega)), if_pos ((ofNat_beq_zero hk).mpr h)] at hanswer
  · rwa [if_pos (hgreater.mpr (by omega))] at hanswer

theorem answers_atLeastZero_negative (place : ℕ) :
    Answers (binaryValue .greaterEqual (.number (-1.0)) (.number 0) place) (.boolean false) := by
  have hanswer := answers_atLeastZero place (-1.0)
  rwa [if_pos (by decide +kernel)] at hanswer

theorem answers_concat (place : ℕ) (h : s.utf8ByteSize + t.utf8ByteSize ≤ maxStringLength) :
    Answers (binaryValue .add (.string s) (.string t) place) (.string (s ++ t)) := fun m => by
  have hsum : Outcome (binaryValue .add (.string s) (.string t) place) place m (s ++ t) :=
    outcome_sum rfl
  exact hsum.built (by rwa [String.utf8ByteSize_append])

/-- The text around an occurrence is put together from the slices before and behind it. -/
theorem answers_replacedAt (hs : s.length < 2 ^ 52)
    (hsplit : s.toList = before ++ t.toList ++ behind)
    (hsize : (String.ofList before ++ u ++ String.ofList behind).utf8ByteSize ≤ maxStringLength) :
    Answers (r.replacedAt s t u (Float.ofNat before.length) place)
      (.string (String.ofList before ++ u ++ String.ofList behind)) := by
  have hlength : s.length = before.length + t.length + behind.length := by
    have hsum := congrArg List.length hsplit
    simpa only [List.length_append, String.length_toList] using hsum
  have hfirst : Answers (r.invoke (.string s) "slice"
      [.number 0, .number (Float.ofNat before.length)] place) (.string (String.ofList before)) := by
    have hslice := answers_slice r place s 0 (Float.ofNat before.length)
    have hzero : sliceBound s.length 0 = 0 :=
      (sliceBound_ofNat (n := 0) s.length (by norm_num)).trans (Nat.zero_min _)
    rw [hzero, sliceBound_ofNat _ (by omega), min_eq_left (by omega), hsplit] at hslice
    simpa using hslice
  have hsecond : Answers (r.invoke (.string s) "slice"
      [.number (Float.ofNat before.length + Float.ofNat t.length)] place)
      (.string (String.ofList behind)) := by
    have hslice := answers_slice_to_end r place s
      (Float.ofNat before.length + Float.ofNat t.length)
    have hdrop : s.toList.drop (before.length + t.length) = behind := by
      rw [hsplit, ← String.length_toList, ← List.length_append, List.drop_left]
    have hlast : max (before.length + t.length) s.length - (before.length + t.length) =
        behind.length := by
      omega
    rw [ofNat_add_ofNat (by omega), sliceBound_ofNat _ (by omega), min_eq_left (by omega), hdrop,
      hlast, List.take_length] at hslice
    rwa [ofNat_add_ofNat (by omega)]
  have hjoined : (String.ofList before).utf8ByteSize + u.utf8ByteSize ≤ maxStringLength := by
    rw [String.utf8ByteSize_append, String.utf8ByteSize_append] at hsize
    omega
  refine hfirst.bind ((answers_length t).bind ((answers_add _ _).bind (hsecond.bind ?_)))
  refine (answers_concat place hjoined).bind (answers_concat place ?_)
  rwa [← String.utf8ByteSize_append]

theorem intercalate_nil_singletons (cs : List Char) :
    List.intercalate [] (cs.map fun c => [c]) = cs := by
  induction cs with
  | nil => rfl
  | cons c cs ih =>
    cases cs with
    | nil => rfl
    | cons d cs => simpa [List.intercalate_cons_cons] using ih

/-- The pieces between the occurrences of a text in another one. -/
def pieces (s t : String) : List String :=
  if t.isEmpty then s.toList.map String.singleton
  else (splitPieces t.toList s.toList).map String.ofList

theorem intercalate_pieces (s t : String) : t.intercalate (pieces s t) = s := by
  rw [← String.toList_inj, String.toList_intercalate, pieces]
  split
  case isTrue h =>
    have hsingletons : (s.toList.map String.singleton).map String.toList =
        s.toList.map fun c => [c] := by
      rw [List.map_map]
      exact List.map_congr_left fun c _ => String.toList_singleton c
    rw [String.isEmpty_iff.mp h, hsingletons]
    exact intercalate_nil_singletons s.toList
  case isFalse h =>
    have hne : t.toList ≠ [] := by simpa using h
    have hlists : ((splitPieces t.toList s.toList).map String.ofList).map String.toList =
        splitPieces t.toList s.toList := by
      simp [List.map_map, Function.comp_def]
    rw [hlists, intercalate_splitPieces hne]

/-- The pieces of a text between the occurrences of another one, joined by it, are the text. -/
theorem splitJoined_eq (s t : String) (m : Machine) :
    r.splitJoined s t place m = .ok (.string s)
      { m with heap := (m.heap.newArray ((pieces s t).map Value.string).toArray).2 } := by
  have hsplit : r.invoke (.string s) "split" [.string t] place =
      newArray ((pieces s t).map Value.string).toArray := by
    rw [invoke_string (show ("split", Method.split) ∈ Method.ofStrings by decide)]
    rfl
  generalize hm' : ({ m with
    heap := (m.heap.newArray ((pieces s t).map Value.string).toArray).2 } : Machine) = m'
  have hjoin : r.invoke (.array m.heap.arrays.size) "join" [.string t] place m' =
      .ok (.string (t.intercalate ((m'.heap.array m.heap.arrays.size).toList.map fun v =>
        if v.isNullish then "" else m'.heap.text v))) m' := rfl
  have harray : m'.heap.array m.heap.arrays.size = ((pieces s t).map Value.string).toArray := by
    rw [← hm']
    simp [Heap.newArray, Heap.array]
  have hmade : newArray ((pieces s t).map Value.string).toArray m =
      .ok (.array m.heap.arrays.size) m' := by
    rw [← hm']
    rfl
  have htexts : ((pieces s t).map Value.string).map
      (fun v => if v.isNullish then "" else m'.heap.text v) = pieces s t := by
    rw [List.map_map]
    exact List.map_id'' (fun _ => rfl) _
  rw [Runner.splitJoined, bind_apply, hsplit, hmade]
  show r.invoke (.array m.heap.arrays.size) "join" [.string t] place m' = _
  rw [hjoin, harray, List.toList_toArray, htexts, intercalate_pieces]

end

/-! ## Agreement -/

/-- The methods of texts agree on the place `i` at which `t` stands in `s`. -/
structure OffsetsAgree (r : Runner) (place : ℕ) (s t : String) (i : Float) : Prop where
  told : Answers (r.invoke (.string s) "indexOf" [.string t] place) (.number i)
  /-- It is the first place at which the slice is `t`, or there is none. -/
  first : (∃ k ≤ s.length, i = Float.ofNat k ∧
      Answers (r.standsAt s t i place) (.boolean true) ∧
      ∀ j < k, Answers (r.standsAt s t (Float.ofNat j) place) (.boolean false)) ∨
    (i = -1.0 ∧ ∀ j ≤ s.length, Answers (r.standsAt s t (Float.ofNat j) place) (.boolean false))
  /-- The bytes of `t` are first found where the characters before that place end. -/
  inBytes : (∃ k ≤ s.length, i = Float.ofNat k ∧
      OccursAtByte t.toList s.toList (utf8Length (s.toList.take k)) ∧
      ∀ n < utf8Length (s.toList.take k), ¬ OccursAtByte t.toList s.toList n) ∨
    (i = -1.0 ∧ ∀ n, ¬ OccursAtByte t.toList s.toList n)
  includes : ∃ found, Answers (r.invoke (.string s) "includes" [.string t] place) (.boolean found) ∧
    Answers (binaryValue .greaterEqual (.number i) (.number 0) place) (.boolean found)
  startsWith : ∃ starts,
    Answers (r.invoke (.string s) "startsWith" [.string t] place) (.boolean starts) ∧
    Answers (binaryValue .strictEqual (.number i) (.number 0) place) (.boolean starts)
  /-- A text is put into the place, where sums are not too long for texts. -/
  replaced (u : String) :
    Answers (binaryValue .greaterEqual (.number i) (.number 0) place) (.boolean true) →
    ∃ result, Answers (r.invoke (.string s) "replace" [.string t, .string u] place)
        (.string result) ∧
      (result.utf8ByteSize ≤ maxStringLength →
        Answers (r.replacedAt s t u i place) (.string result))
  kept (u : String) :
    Answers (binaryValue .greaterEqual (.number i) (.number 0) place) (.boolean false) →
    Answers (r.invoke (.string s) "replace" [.string t, .string u] place) (.string s)
  /-- The pieces are a new array, and nothing else changes. -/
  rejoined (m : Machine) : ∃ list,
    r.splitJoined s t place m = .ok (.string s) { m with heap := (m.heap.newArray list).2 }

theorem Answers.unique {step : Exec Value} {v w : Value} (h : Answers step v)
    (h' : Answers step w) : v = w := by
  have hboth := (h default).symm.trans (h' default)
  injection hboth

theorem offsetsAgree_of_some {before behind : List Char} (hs : s.length < 2 ^ 52)
    (h : splitFirst? t.toList s.toList = some (before, behind)) :
    OffsetsAgree r place s t (Float.ofNat before.length) := by
  obtain ⟨hsplit, hfirst⟩ := splitFirst?_eq_some h
  have hle : before.length ≤ s.length := by
    rw [← String.length_toList, hsplit, List.append_assoc, List.length_append]
    exact Nat.le_add_right _ _
  have hoccurs : OccursAt t.toList s.toList before.length := hsplit ▸ .append _ _ _
  have hpositive := answers_atLeastZero_ofNat place (show before.length < 2 ^ 53 by omega)
  have hstarts : (stripStart? t.toList s.toList).isSome = (Float.ofNat before.length == 0) := by
    rw [Bool.eq_iff_iff, ← occursAt_zero, ofNat_beq_zero (by omega)]
    refine ⟨fun hzero => ?_, fun hzero => hzero ▸ hoccurs⟩
    by_contra hne
    exact hfirst 0 (Nat.pos_of_ne_zero hne) hzero
  exact
    { told := by
        rw [invoke_indexOf, h]
        exact answers_pure _
      first := by
        refine .inl ⟨_, hle, rfl, ?_, fun j hj => ?_⟩
        · rw [← decide_eq_true hoccurs]
          exact answers_standsAt t hs hle
        · rw [← decide_eq_false (hfirst j hj)]
          exact answers_standsAt t hs (hj.le.trans hle)
      inBytes := by
        have htake : s.toList.take before.length = before := by
          rw [hsplit, List.append_assoc, List.take_left]
        refine .inl ⟨_, hle, rfl, ?_⟩
        rw [htake]
        exact splitFirst?_eq_some_bytes h
      includes := by
        refine ⟨true, ?_, hpositive⟩
        rw [invoke_includes, h]
        exact answers_pure _
      startsWith := by
        refine ⟨_, ?_, answers_isZero _⟩
        rw [invoke_startsWith, hstarts]
        exact answers_pure _
      replaced := fun u _ => by
        refine ⟨_, ?_, answers_replacedAt hs hsplit⟩
        rw [invoke_replace, h]
        exact answers_pure _
      kept := fun u hnegative => nomatch hpositive.unique hnegative
      rejoined := fun m => ⟨_, splitJoined_eq s t m⟩ }

theorem offsetsAgree_of_none (hs : s.length < 2 ^ 52)
    (h : splitFirst? t.toList s.toList = none) : OffsetsAgree r place s t (-1.0) := by
  have hnone := splitFirst?_eq_none h
  have hnegative := answers_atLeastZero_negative place
  have hstarts : (stripStart? t.toList s.toList).isSome = (-1.0 == (0 : Float)) := by
    rw [show (-1.0 == (0 : Float)) = false by decide +kernel, Bool.eq_false_iff]
    exact occursAt_zero.not.mp (hnone 0)
  exact
    { told := by
        rw [invoke_indexOf, h]
        exact answers_pure _
      first := by
        refine .inr ⟨rfl, fun j hj => ?_⟩
        rw [← decide_eq_false (hnone j)]
        exact answers_standsAt t hs hj
      inBytes := .inr ⟨rfl, splitFirst?_eq_none_bytes h⟩
      includes := by
        refine ⟨false, ?_, hnegative⟩
        rw [invoke_includes, h]
        exact answers_pure _
      startsWith := by
        refine ⟨_, ?_, answers_isZero _⟩
        rw [invoke_startsWith, hstarts]
        exact answers_pure _
      replaced := fun u hpositive => nomatch hpositive.unique hnegative
      kept := fun u _ => by
        rw [invoke_replace, h]
        exact answers_pure _
      rejoined := fun m => ⟨_, splitJoined_eq s t m⟩ }

/-- The methods of texts agree on the place of one text in another one.  This holds for every text
whose places are all counted exactly, and every text that is looked for. -/
theorem offsets_agree (r : Runner) (place : ℕ) (s t : String) (hs : s.length < 2 ^ 52) :
    ∃ i, OffsetsAgree r place s t i := by
  cases h : splitFirst? t.toList s.toList with
  | none => exact ⟨_, offsetsAgree_of_none hs h⟩
  | some parts => exact ⟨_, offsetsAgree_of_some hs h⟩

/-- The occurrences of the one text in the other overlap, and characters have several bytes. -/
theorem offsets_agree_overlapping :
    "äöäöä".length < 2 ^ 52 ∧ ∃ i, OffsetsAgree (.bounded [] 9) 0 "äöäöä" "äöä" i := by
  have hs : "äöäöä".length < 2 ^ 52 := by decide
  exact ⟨hs, offsets_agree _ 0 "äöäöä" "äöä" hs⟩

end Stencil.Script
